import SoulsFormats.Core.BinaryWriter

set_option autoImplicit false

/-! # What a write adds

`Wrote bs w w'` says that the writer has stored the bytes `bs` at its position and nothing else has
changed. `EmitsAt w m o` says that `m`, run from `w`, stores the bytes `o` names if it succeeds, and
that it does succeed when the allocator grants everything. `WriterCall.bytes` names the bytes of
every call, as a function of byte order, varint width and position alone. -/

namespace SoulsFormats

open Bytes Fallible OpenAddressing

namespace BinaryWriter

/-- The writer stands for further calls: it is open and its stream is well formed. -/
def Ready (w : BinaryWriter) : Prop := w.stream.WellFormed ∧ w.closed = false

/-- The bytes `bs` have gone to the stream, at the position, and nothing else has changed. -/
structure Wrote (bs : List UInt8) (w w' : BinaryWriter) : Prop where
  wf : w'.stream.WellFormed
  content : w'.content = if bs = [] then w.content else overwrite w.content w.position bs
  position : w'.position = w.position + bs.length
  fits : bs ≠ [] → w.position + bs.length ≤ SIZE_MAX
  rest : w' = { w with stream := w'.stream }

theorem Wrote.refl {w : BinaryWriter} (hw : w.stream.WellFormed) : Wrote [] w w :=
  ⟨hw, rfl, rfl, fun h => absurd rfl h, rfl⟩

section

variable {bs : List UInt8} {w w' : BinaryWriter}

theorem Wrote.bigEndian (h : Wrote bs w w') : w'.bigEndian = w.bigEndian := by rw [h.rest]
theorem Wrote.varintLong (h : Wrote bs w w') : w'.varintLong = w.varintLong := by rw [h.rest]
theorem Wrote.steps (h : Wrote bs w w') : w'.steps = w.steps := by rw [h.rest]
theorem Wrote.stepsCap (h : Wrote bs w w') : w'.stepsCap = w.stepsCap := by rw [h.rest]
theorem Wrote.resSlots (h : Wrote bs w w') : w'.resSlots = w.resSlots := by rw [h.rest]
theorem Wrote.resUsed (h : Wrote bs w w') : w'.resUsed = w.resUsed := by rw [h.rest]
theorem Wrote.resLive (h : Wrote bs w w') : w'.resLive = w.resLive := by rw [h.rest]
theorem Wrote.closed (h : Wrote bs w w') : w'.closed = w.closed := by rw [h.rest]

theorem Wrote.ready (h : Wrote bs w w') (hw : w.Ready) : w'.Ready := ⟨h.wf, h.closed.trans hw.2⟩

end

theorem length_content {w : BinaryWriter} (h : w.stream.WellFormed) : w.content.length = w.length :=
  OStream.length_content h

theorem Wrote.length {bs : List UInt8} {w w' : BinaryWriter} (h : Wrote bs w w')
    (hw : w.stream.WellFormed) :
    w'.length = if bs = [] then w.length else max w.length (w.position + bs.length) := by
  rw [← length_content h.wf, h.content]
  split
  · exact length_content hw
  · rw [length_overwrite, length_content hw]

theorem Wrote.trans {x y : List UInt8} {w w1 w2 : BinaryWriter} (hx : Wrote x w w1)
    (hy : Wrote y w1 w2) : Wrote (x ++ y) w w2 := by
  refine ⟨hy.wf, ?_, ?_, ?_, ?_⟩
  · rw [hy.content, hx.content, hx.position]
    by_cases hx0 : x = []
    · simp [hx0]
    · by_cases hy0 : y = []
      · simp [hx0, hy0]
      · simp only [hx0, hy0, if_false, List.append_eq_nil_iff, and_self]
        exact overwrite_overwrite_append w.content x y w.position
  · rw [hy.position, hx.position, List.length_append, Nat.add_assoc]
  · intro hne
    rw [List.length_append]
    by_cases hy0 : y = []
    · subst hy0
      have hx0 : x ≠ [] := by simpa using hne
      simpa using hx.fits hx0
    · have hfit := hy.fits hy0
      rw [hx.position] at hfit
      omega
  · rw [hy.rest, hx.rest]

/-! ## Emitting -/

/-- Run from `w`, `m` stores the bytes `o` if it succeeds; it does succeed where `o` names bytes that
    fit and the allocator grants everything. -/
structure EmitsAt (w : BinaryWriter) (m : WriteM Unit) (o : Option (List UInt8)) : Prop where
  wrote : ∀ {a : Unit} {w' : BinaryWriter}, m w = (.ok a, w') → ∃ bs, o = some bs ∧ Wrote bs w w'
  succeeds : ∀ {bs : List UInt8}, o = some bs → w.stream.heap.Calm →
    (bs ≠ [] → w.position + bs.length ≤ SIZE_MAX) →
    ∃ w', m w = (.ok (), w') ∧ Wrote bs w w' ∧ w'.stream.heap.Calm

variable {w : BinaryWriter} {m : WriteM Unit} {o : Option (List UInt8)}

theorem EmitsAt.post {bs : List UInt8} (h : EmitsAt w m (some bs)) :
    Post m w fun _ w' => Wrote bs w w' := by
  intro a w' hrun
  obtain ⟨bs', heq, hwrote⟩ := h.wrote hrun
  cases heq
  exact hwrote

theorem emitsAt_pure (hw : w.Ready) : EmitsAt w (pure ()) (some []) := by
  constructor
  · intro a w' hrun
    cases hrun
    exact ⟨[], rfl, Wrote.refl hw.1⟩
  · intro bs hbs hcalm _
    cases hbs
    exact ⟨w, rfl, Wrote.refl hw.1, hcalm⟩

theorem emitsAt_fail (e : SfError) : EmitsAt w (fail e) none := by
  constructor
  · intro a w' hrun
    cases hrun
  · intro bs hbs
    cases hbs

theorem EmitsAt.congr {m' : WriteM Unit} (h : EmitsAt w m o) (heq : m' w = m w) :
    EmitsAt w m' o :=
  ⟨fun hrun => h.wrote (heq ▸ hrun), fun hbs hcalm hfit => heq ▸ h.succeeds hbs hcalm hfit⟩

theorem emitsAt_check {c : Prop} [Decidable c] {e : SfError} {f : Unit → WriteM Unit}
    (h : c → EmitsAt w (f ()) o) :
    EmitsAt w (check c e >>= f) (if c then o else none) := by
  by_cases hc : c
  · rw [if_pos hc]
    exact (h hc).congr (check_bind_pos hc e f w)
  · rw [if_neg hc]
    exact (emitsAt_fail e).congr (check_bind_neg hc e f w)

theorem emitsAt_writerOpen (hw : w.Ready) {f : Unit → WriteM Unit} (h : EmitsAt w (f ()) o) :
    EmitsAt w (writerOpen >>= f) o := by
  refine h.congr ?_
  have hopen : writerOpen w = (.ok (), w) := by
    rw [writerOpen, state_bind_run, check_run, if_pos hw.2]
  exact bind_ok hopen f

theorem EmitsAt.bind {x y : List UInt8} {f : Unit → WriteM Unit} (hm : EmitsAt w m (some x))
    (hf : ∀ w', Wrote x w w' → EmitsAt w' (f ()) (some y)) :
    EmitsAt w (m >>= f) (some (x ++ y)) := by
  constructor
  · intro a w' hrun
    obtain ⟨u, w1, hm1, hf1⟩ := bind_eq_ok.1 hrun
    have hx := hm.post u w1 hm1
    exact ⟨x ++ y, rfl, hx.trans ((hf w1 hx).post a w' hf1)⟩
  · intro bs hbs hcalm hfit
    cases hbs
    obtain ⟨w1, hm1, hx, hcalm1⟩ := hm.succeeds rfl hcalm (fun hx0 => by
      have h := hfit (by simp [hx0])
      rw [List.length_append] at h
      omega)
    obtain ⟨w2, hf2, hy, hcalm2⟩ := (hf w1 hx).succeeds rfl hcalm1 (fun hy0 => by
      have h := hfit (by simp [hy0])
      rw [List.length_append] at h
      rw [hx.position]
      omega)
    exact ⟨w2, by rw [bind_ok hm1, hf2], hx.trans hy, hcalm2⟩

theorem emitsAt_write (hw : w.Ready) (buf : List UInt8) :
    EmitsAt w (onStream (OStream.write buf)) (some buf) := by
  have hwrote : ∀ s', OStream.write buf w.stream = (.ok (), s') →
      Wrote buf w { w with stream := s' } := by
    intro s' hrun
    by_cases hbuf : buf = []
    · subst hbuf
      rw [OStream.write_nil] at hrun
      cases hrun
      exact Wrote.refl hw.1
    · obtain ⟨hwf, hcontent, hpos, hsize⟩ := OStream.write_spec hw.1 buf hbuf _ _ hrun
      refine ⟨hwf, by rw [if_neg hbuf]; exact hcontent, hpos, fun _ => ?_, rfl⟩
      have hlen : 0 < buf.length := List.length_pos_iff.2 hbuf
      rw [OStream.write, if_neg (by omega), state_bind_run] at hrun
      by_contra hcon
      have hcon' : ¬ w.stream.memPos + buf.length ≤ SIZE_MAX := hcon
      rw [check_bind_neg hcon'] at hrun
      cases hrun
  constructor
  · intro a w' hrun
    rw [onStream, zoom_run, Prod.mk.injEq] at hrun
    rw [← hrun.2]
    exact ⟨buf, rfl, hwrote _ (Prod.ext hrun.1 rfl)⟩
  · intro bs hbs hcalm hfit
    cases hbs
    obtain ⟨s', hrun, hcalm'⟩ := OStream.write_ok hcalm buf hfit
    exact ⟨{ w with stream := s' }, by rw [onStream, zoom_run, hrun], hwrote s' hrun, hcalm'⟩

/-- The allocator's answers are no part of what is written. -/
theorem Wrote.of_heap {bs : List UInt8} {h : Heap} {w' : BinaryWriter}
    (hwrote : Wrote bs { w with stream := { w.stream with heap := h } } w') : Wrote bs w w' :=
  ⟨hwrote.wf, hwrote.content, hwrote.position, hwrote.fits, hwrote.rest⟩

/-- Asking the allocator writes nothing. -/
theorem post_onHeap (hw : w.Ready) {α : Type} (conv : Fallible Heap SfError α) :
    Post (onHeap conv) w fun _ w' => Wrote [] w w' := by
  intro a w' hrun
  rw [onHeap, onStream, zoom_run, zoom_run, Prod.mk.injEq] at hrun
  rw [← hrun.2]
  have hrefl : ∀ h, Wrote [] w { w with stream := { w.stream with heap := h } } := fun h =>
    (Wrote.refl (w := { w with stream := { w.stream with heap := h } }) hw.1).of_heap
  exact hrefl _

/-- An allocation whose block is scratch space writes nothing. -/
theorem emitsAt_alloc (h : ∀ g, EmitsAt { w with stream := { w.stream with heap := g } } m o) :
    EmitsAt w (onHeap Heap.alloc >>= fun _ => m) o := by
  constructor
  · intro u w' hrun
    obtain ⟨junk, w1, halloc, hm1⟩ := bind_eq_ok.1 hrun
    rw [onHeap, onStream, zoom_run, zoom_run, Prod.mk.injEq] at halloc
    rw [← halloc.2] at hm1
    obtain ⟨bs, hbs, hwrote⟩ := (h _).wrote hm1
    exact ⟨bs, hbs, hwrote.of_heap⟩
  · intro bs hbs hcalm hfit
    obtain ⟨junk, g, halloc, hcalm'⟩ := Heap.alloc_calm hcalm
    obtain ⟨w', hm', hwrote, hcalm2⟩ := (h g).succeeds hbs hcalm' hfit
    refine ⟨w', ?_, hwrote.of_heap, hcalm2⟩
    have hzoom : onHeap Heap.alloc w = (.ok junk, { w with stream := { w.stream with heap := g } }) := by
      rw [onHeap, onStream, zoom_run, zoom_run, halloc]
    rw [bind_ok hzoom, hm']

/-- A conversion writes nothing, and what follows it depends on its value only. -/
theorem emitsAt_onHeap {α : Type} {conv : Fallible Heap SfError α} (hconv : Steady conv)
    {f : α → WriteM Unit} {g : α → Option (List UInt8)}
    (hf : ∀ a h, EmitsAt { w with stream := { w.stream with heap := h } } (f a) (g a)) :
    EmitsAt w (onHeap conv >>= f) ((granted conv).bind g) := by
  constructor
  · intro u w' hrun
    obtain ⟨a, w1, hconv1, hf1⟩ := bind_eq_ok.1 hrun
    rw [onHeap, onStream, zoom_run, zoom_run, Prod.mk.injEq] at hconv1
    have hgranted := hconv.granted_of_ok (Prod.ext hconv1.1 rfl)
    rw [← hconv1.2] at hf1
    obtain ⟨bs, hbs, hwrote⟩ := (hf a _).wrote hf1
    exact ⟨bs, by rw [hgranted]; exact hbs, hwrote.of_heap⟩
  · intro bs hbs hcalm hfit
    obtain ⟨a, ha, hga⟩ := Option.bind_eq_some_iff.1 hbs
    obtain ⟨h', hrun, hcalm'⟩ := hconv.ok_of_granted ha hcalm
    obtain ⟨w', hf', hwrote, hcalm2⟩ := (hf a h').succeeds hga hcalm' hfit
    refine ⟨w', ?_, hwrote.of_heap, hcalm2⟩
    have hzoom : onHeap conv w = (.ok a, { w with stream := { w.stream with heap := h' } }) := by
      rw [onHeap, onStream, zoom_run, zoom_run, hrun]
    rw [bind_ok hzoom, hf']

/-! ## The writes -/

open BinaryReader in
theorem sum_chunkSizes {size : Nat} (n : Nat) : (chunkSizes size n).sum = n := by
  have hdiv := Nat.div_add_mod n size
  rw [chunkSizes, List.sum_append, List.sum_replicate_nat]
  split
  · next h0 =>
      rw [List.sum_nil, Nat.mul_comm]
      omega
  · rw [List.sum_cons, List.sum_nil, Nat.mul_comm]
    omega

theorem emitsAt_writeChunks (hw : w.Ready) (fill : UInt8) (chunks : List Nat) :
    EmitsAt w (writeChunks fill chunks) (some (List.replicate chunks.sum fill)) := by
  induction chunks generalizing w with
  | nil => exact emitsAt_pure hw
  | cons chunk rest ih =>
      have h : EmitsAt w (writeChunks fill (chunk :: rest))
          (some (List.replicate chunk fill ++ List.replicate rest.sum fill)) :=
        (emitsAt_write hw _).bind fun w' hw' => ih (hw'.ready hw)
      rwa [List.replicate_append_replicate, ← List.sum_cons] at h

theorem emitsAt_writeBytes (hw : w.Ready) (buf : List UInt8) :
    EmitsAt w (writeBytes buf) (some buf) :=
  emitsAt_writerOpen hw (emitsAt_write hw buf)

theorem emitsAt_writePattern (hw : w.Ready) (n : Nat) (v : UInt8) :
    EmitsAt w (writePattern n v) (some (List.replicate n v)) := by
  have h := emitsAt_writeChunks hw v (BinaryReader.chunkSizes 256 n)
  rw [sum_chunkSizes] at h
  exact emitsAt_writerOpen hw h

theorem leBytes_swapped (be : Bool) (n v : Nat) :
    leBytes n (if be then bswap n v else v) = wordBytes be n v := by
  cases be
  · rfl
  · exact leBytes_bswap n v

/-- The bytes of a scalar. -/
def scalarBytes (be long : Bool) : (k : Scalar) → k.Value → List UInt8
  | .bool, v => [if v then 1 else 0]
  | .i8, v => [v.toUInt8]
  | .u8, v => [v]
  | .i16, v => wordBytes be 2 v.toUInt16.toNat
  | .u16, v => wordBytes be 2 v.toNat
  | .u32, v => wordBytes be 4 v.toNat
  | .i32, v => wordBytes be 4 v.toUInt32.toNat
  | .u64, v => wordBytes be 8 v.toNat
  | .i64, v => wordBytes be 8 v.toUInt64.toNat
  | .f32, v => wordBytes be 4 v.toNat
  | .f64, v => wordBytes be 8 v.toNat
  | .varint, v =>
    if long then wordBytes be 8 v.toUInt64.toNat else wordBytes be 4 v.toInt32.toUInt32.toNat

/-- A position that is stored as an `int64_t`. -/
theorem scalarBytes_i64_ofNat (be long : Bool) (p : Nat) :
    scalarBytes be long .i64 (Int64.ofNat p) = wordBytes be 8 p := by
  have hmod : (Int64.ofNat p).toUInt64.toNat = p % 2 ^ 64 := by
    rw [← UInt64.toNat_ofNat']
    rfl
  rw [scalarBytes, hmod]
  exact wordBytes_mod be 8 p

/-- A scalar takes as many bytes as are reserved for it. -/
theorem length_scalarBytes (be long : Bool) (k : Scalar) (v : k.Value) :
    (scalarBytes be long k v).length = kindWidth (scalarKind long k) := by
  cases k
  case varint => cases long <;> exact length_wordBytes ..
  all_goals first | rfl | exact length_wordBytes ..

theorem scalarBytes_ne_nil (be long : Bool) (k : Scalar) (v : k.Value) :
    scalarBytes be long k v ≠ [] := by
  rw [← List.length_pos_iff, length_scalarBytes]
  cases k <;> cases long <;> decide

theorem writerOpen_ok (hw : w.Ready) : writerOpen w = (.ok (), w) := by
  rw [writerOpen, state_bind_run, check_run, if_pos hw.2]

theorem defineWriteInt_eq (hw : w.Ready) (n v : Nat) :
    defineWriteInt n v w = onStream (OStream.write (wordBytes w.bigEndian n v)) w := by
  rw [defineWriteInt, bind_ok (writerOpen_ok hw), state_bind_run, leBytes_swapped]

/-- A scalar is one write of its bytes. -/
theorem writeScalar_eq (hw : w.Ready) (k : Scalar) (v : k.Value) :
    writeScalar k v w
      = onStream (OStream.write (scalarBytes w.bigEndian w.varintLong k v)) w := by
  cases k
  case bool => exact bind_ok (writerOpen_ok hw) _
  case i8 => exact bind_ok (writerOpen_ok hw) _
  case u8 => exact bind_ok (writerOpen_ok hw) _
  case varint =>
    have hstart : writeScalar .varint v w
        = (if w.varintLong then writeI64 v else writeI32 v.toInt32) w := by
      rw [writeScalar, writeVarint, bind_ok (writerOpen_ok hw), state_bind_run]
    rw [hstart]
    cases hlong : w.varintLong
    · exact defineWriteInt_eq hw 4 v.toInt32.toUInt32.toNat
    · exact defineWriteInt_eq hw 8 v.toUInt64.toNat
  all_goals exact defineWriteInt_eq hw _ _

theorem emitsAt_writeScalar (hw : w.Ready) (k : Scalar) (v : k.Value) :
    EmitsAt w (writeScalar k v) (some (scalarBytes w.bigEndian w.varintLong k v)) :=
  (emitsAt_write hw _).congr (writeScalar_eq hw k v)

theorem emitsAt_writeEach (hw : w.Ready) (k : Scalar) (vs : List k.Value) :
    EmitsAt w (writeEach (writeScalar k) vs)
      (some (vs.flatMap (scalarBytes w.bigEndian w.varintLong k))) := by
  induction vs generalizing w with
  | nil => exact emitsAt_pure hw
  | cons v vs ih =>
      refine (emitsAt_writeScalar hw k v).bind fun w' hw' => ?_
      have h := ih (hw'.ready hw)
      rwa [hw'.bigEndian, hw'.varintLong] at h

/-- How many bytes bring `pos` to a multiple of `align`. -/
def padLength (pos align : Int) : Nat := if pos % align = 0 then 0 else (align - pos % align).toNat

theorem emitsAt_padChunks (hw : w.Ready) (pos align : Int) (fill : UInt8) :
    EmitsAt w
      (if pos % align = 0 then pure ()
        else writeChunks fill (BinaryReader.chunkSizes 64 (align - pos % align).toNat))
      (some (List.replicate (padLength pos align) fill)) := by
  unfold padLength
  split
  · exact emitsAt_pure hw
  · have h := emitsAt_writeChunks hw fill
      (BinaryReader.chunkSizes 64 (align - pos % align).toNat)
    rwa [sum_chunkSizes] at h

theorem emitsAt_padByte (hw : w.Ready) (align : Int) (fill : UInt8) :
    EmitsAt w (padByte align fill)
      (if 0 < align then some (List.replicate (padLength w.position align) fill) else none) :=
  emitsAt_writerOpen hw
    (emitsAt_check fun _ => (emitsAt_padChunks hw w.position align fill).congr rfl)

theorem emitsAt_padRelative (hw : w.Ready) (start align : Int) :
    EmitsAt w (padRelative start align)
      (if 0 < align ∧ start ≤ w.position
        then some (List.replicate (padLength (w.position - start) align) 0) else none) := by
  refine emitsAt_writerOpen hw ?_
  have h := emitsAt_check (e := .invalidArg) (f := fun _ =>
    if ((w.position : Int) - start) % align = 0 then pure ()
    else writeChunks 0 (BinaryReader.chunkSizes 64 (align - ((w.position : Int) - start) % align).toNat))
    fun (_ : 0 < align ∧ start ≤ w.position) =>
      emitsAt_padChunks hw ((w.position : Int) - start) align 0
  exact h.congr rfl

theorem emitsAt_writeStr (hw : w.Ready) {encode : Bool → Encode}
    (hencode : ∀ be utf8 term, Steady (encode be utf8 term)) (utf8 : Option (List UInt8))
    (term : Bool) :
    EmitsAt w (writeStr encode utf8 term) (granted (encode w.bigEndian utf8 term)) := by
  refine emitsAt_writerOpen hw ?_
  have h := emitsAt_onHeap (w := w) (hencode w.bigEndian utf8 term)
    (f := fun bytes => onStream (OStream.write bytes)) (g := some)
    fun a h => emitsAt_write (w := { w with stream := { w.stream with heap := h } }) hw a
  rw [Option.bind_fun_some] at h
  exact h.congr rfl

theorem emitsAt_writeFixStrImpl (hw : w.Ready) {encode : Bool → Encode}
    (hencode : ∀ be utf8 term, Steady (encode be utf8 term)) (utf8 : Option (List UInt8))
    (size : Nat) (pad : UInt8) :
    EmitsAt w (writeFixStrImpl encode utf8 size pad)
      (if size = 0 then some []
        else (granted (encode w.bigEndian utf8 true)).bind fun raw =>
          some (raw.take size ++ List.replicate (size - raw.length) pad)) := by
  refine emitsAt_writerOpen hw ?_
  by_cases hsize : size = 0
  · rw [if_pos hsize, if_pos hsize]
    exact emitsAt_pure hw
  · rw [if_neg hsize, if_neg hsize]
    have h := emitsAt_onHeap (w := w) (hencode w.bigEndian utf8 true)
      (f := fun raw => do
        let _ ← onHeap Heap.alloc
        onStream (OStream.write (raw.take size ++ List.replicate (size - raw.length) pad)))
      (g := fun raw => some (raw.take size ++ List.replicate (size - raw.length) pad))
      fun raw h => emitsAt_alloc fun g =>
        emitsAt_write (w := { w with stream := { w.stream with heap := g } }) hw _
    exact h.congr rfl

/-- The calls that write, and do nothing else. -/
def WriterCall.IsWrite : WriterCall → Prop
  | stepIn _ => False
  | stepOut => False
  | setBigEndian _ => False
  | setVarintLong _ => False
  | reserve _ _ => False
  | fill _ _ _ => False
  | _ => True

/-- The bytes of a call that writes; `none` where it always fails. -/
def WriterCall.bytes (os : Win32) (be long : Bool) (pos : Nat) : WriterCall → Option (List UInt8)
  | write k v => some (scalarBytes be long k v)
  | writeArray k vs => some (vs.flatMap (scalarBytes be long k))
  | writeBytes buf => some buf
  | writePattern length v => some (List.replicate length v)
  | writeAscii utf8 term => granted (utf8ToAscii os utf8 term)
  | writeShiftJis utf8 term => granted (utf8ToShiftJis os utf8 term)
  | writeUtf16 utf8 term => granted (utf16Encode os be utf8 term)
  | writeFixStr utf8 size p =>
    if size = 0 then some []
    else (granted (utf8ToShiftJis os utf8 true)).bind fun raw =>
      some (raw.take size ++ List.replicate (size - raw.length) p)
  | writeFixStrW utf8 size p =>
    if size = 0 then some []
    else (granted (utf16Encode os be utf8 true)).bind fun raw =>
      some (raw.take size ++ List.replicate (size - raw.length) p)
  | pad align => if 0 < align then some (List.replicate (padLength pos align) 0) else none
  | padFf align => if 0 < align then some (List.replicate (padLength pos align) 0xFF) else none
  | padByte align v => if 0 < align then some (List.replicate (padLength pos align) v) else none
  | padRelative start align =>
    if 0 < align ∧ start ≤ pos then some (List.replicate (padLength (pos - start) align) 0) else none
  | _ => some []

theorem utf16Encode_steady (os : Win32) (be : Bool) (utf8 : Option (List UInt8)) (term : Bool) :
    Steady (utf16Encode os be utf8 term) := by
  cases be
  · exact utf8ToUtf16le_steady os utf8 term
  · exact utf8ToUtf16be_steady os utf8 term

/-- **Every writing call stores its `bytes`.** -/
theorem WriterCall.emitsAt (os : Win32) {c : WriterCall} (hc : c.IsWrite) (hw : w.Ready) :
    EmitsAt w (c.run os) (c.bytes os w.bigEndian w.varintLong w.position) := by
  cases c with
  | write k v => exact emitsAt_writeScalar hw k v
  | writeArray k vs => exact emitsAt_writerOpen hw (emitsAt_writeEach hw k vs)
  | writeBytes buf => exact emitsAt_writeBytes hw buf
  | writePattern length v => exact emitsAt_writePattern hw length v
  | writeAscii utf8 term => exact emitsAt_writeStr hw (fun _ => utf8ToMbcs_steady os .usAscii) utf8 term
  | writeShiftJis utf8 term =>
      exact emitsAt_writeStr hw (fun _ => utf8ToMbcs_steady os .shiftJis) utf8 term
  | writeUtf16 utf8 term => exact emitsAt_writeStr hw (utf16Encode_steady os) utf8 term
  | writeFixStr utf8 size p =>
      exact emitsAt_writeFixStrImpl hw (fun _ => utf8ToMbcs_steady os .shiftJis) utf8 size p
  | writeFixStrW utf8 size p => exact emitsAt_writeFixStrImpl hw (utf16Encode_steady os) utf8 size p
  | pad align => exact emitsAt_padByte hw align 0
  | padFf align => exact emitsAt_padByte hw align 0xFF
  | padByte align v => exact emitsAt_padByte hw align v
  | padRelative start align => exact emitsAt_padRelative hw start align
  | stepIn pos => exact hc.elim
  | stepOut => exact hc.elim
  | setBigEndian be => exact hc.elim
  | setVarintLong l => exact hc.elim
  | reserve k name => exact hc.elim
  | fill k name v => exact hc.elim

/-! ## What no write changes, even a failing one -/

/-- `w` is `w₀` after some writes, the last of which may have failed: only the stream is another, and
    it has not become shorter. -/
structure Grown (w₀ w : BinaryWriter) : Prop where
  wf : w.stream.WellFormed
  rest : w = { w₀ with stream := w.stream }
  length_le : w₀.length ≤ w.length
  fits : w₀.length ≤ SIZE_MAX → w.length ≤ SIZE_MAX

theorem Grown.refl {w : BinaryWriter} (hw : w.stream.WellFormed) : Grown w w :=
  ⟨hw, rfl, le_rfl, id⟩

variable {w₀ : BinaryWriter}

theorem write_grown (buf : List UInt8) : Keeps (Grown w₀) (onStream (OStream.write buf)) := by
  intro w hw
  have hrest : ∀ s', ({ w with stream := s' } : BinaryWriter) = { w₀ with stream := s' } := by
    intro s'
    rw [hw.rest]
  rcases hrun : OStream.write buf w.stream with ⟨e | u, s'⟩
  · obtain ⟨⟨h, rfl⟩, -⟩ := OStream.write_error hrun
    rw [onStream, zoom_run, hrun]
    exact ⟨hw.wf, hrest _, hw.length_le, hw.fits⟩
  · rw [onStream, zoom_run, hrun]
    by_cases hbuf : buf = []
    · subst hbuf
      rw [OStream.write_nil] at hrun
      cases hrun
      exact ⟨hw.wf, hrest _, hw.length_le, hw.fits⟩
    · obtain ⟨hwf, -, -, hsize⟩ := OStream.write_spec hw.wf buf hbuf _ _ hrun
      have hlen : 0 < buf.length := List.length_pos_iff.2 hbuf
      have hfit : w.stream.memPos + buf.length ≤ SIZE_MAX := by
        by_contra hcon
        rw [OStream.write, if_neg (by omega), state_bind_run, check_bind_neg hcon] at hrun
        cases hrun
      refine ⟨hwf, hrest _, ?_, fun h0 => ?_⟩
      · have hle := hw.length_le
        simp only [BinaryWriter.length, hsize] at hle ⊢
        omega
      · have hle := hw.fits h0
        simp only [BinaryWriter.length, hsize] at hle ⊢
        omega

theorem writerOpen_grown : Keeps (Grown w₀) writerOpen :=
  Keeps.state.bind fun _ => Keeps.check _ _

theorem onHeap_grown {α : Type} (conv : Fallible Heap SfError α) :
    Keeps (Grown w₀) (onHeap conv) := by
  intro w hw
  refine ⟨hw.wf, ?_, hw.length_le, hw.fits⟩
  rw [onHeap, onStream, zoom_run, zoom_run, hw.rest]

theorem writeChunks_grown (fill : UInt8) (chunks : List Nat) :
    Keeps (Grown w₀) (writeChunks fill chunks) := by
  induction chunks with
  | nil => exact Keeps.pure _
  | cons chunk rest ih => exact (write_grown _).bind fun _ => ih

theorem writeBytes_grown (buf : List UInt8) : Keeps (Grown w₀) (writeBytes buf) :=
  writerOpen_grown.bind fun _ => write_grown buf

theorem defineWriteInt_grown (n v : Nat) : Keeps (Grown w₀) (defineWriteInt n v) :=
  writerOpen_grown.bind fun _ => Keeps.state.bind fun _ => write_grown _

theorem writeScalar_grown (k : Scalar) (v : k.Value) : Keeps (Grown w₀) (writeScalar k v) := by
  cases k with
  | bool => exact writeBytes_grown _
  | i8 => exact writeBytes_grown _
  | u8 => exact writeBytes_grown _
  | varint =>
      refine writerOpen_grown.bind fun _ => Keeps.state.bind fun w => ?_
      exact Keeps.ite (fun _ => defineWriteInt_grown _ _) fun _ => defineWriteInt_grown _ _
  | _ => exact defineWriteInt_grown _ _

theorem writeEach_grown (k : Scalar) (vs : List k.Value) :
    Keeps (Grown w₀) (writeEach (writeScalar k) vs) := by
  induction vs with
  | nil => exact Keeps.pure _
  | cons v vs ih => exact (writeScalar_grown k v).bind fun _ => ih

theorem padByte_grown (align : Int) (fill : UInt8) : Keeps (Grown w₀) (padByte align fill) := by
  refine writerOpen_grown.bind fun _ => (Keeps.check _ _).bind fun _ => (Keeps.peek _).bind fun _ => ?_
  exact Keeps.ite (fun _ => Keeps.pure _) fun _ => writeChunks_grown _ _

theorem padRelative_grown (start align : Int) : Keeps (Grown w₀) (padRelative start align) := by
  refine writerOpen_grown.bind fun _ => (Keeps.peek _).bind fun _ => (Keeps.check _ _).bind fun _ => ?_
  exact Keeps.ite (fun _ => Keeps.pure _) fun _ => writeChunks_grown _ _

theorem writeStr_grown (encode : Bool → Encode) (utf8 : Option (List UInt8)) (term : Bool) :
    Keeps (Grown w₀) (writeStr encode utf8 term) := by
  refine writerOpen_grown.bind fun _ => Keeps.state.bind fun _ => ?_
  exact (onHeap_grown _).bind fun _ => write_grown _

theorem writeFixStrImpl_grown (encode : Bool → Encode) (utf8 : Option (List UInt8)) (size : Nat)
    (pad : UInt8) : Keeps (Grown w₀) (writeFixStrImpl encode utf8 size pad) := by
  refine writerOpen_grown.bind fun _ => Keeps.ite (fun _ => Keeps.pure _) fun _ => ?_
  refine Keeps.state.bind fun _ => (onHeap_grown _).bind fun _ => (onHeap_grown _).bind fun _ => ?_
  exact write_grown _

theorem WriterCall.grown (os : Win32) {c : WriterCall} (hc : c.IsWrite) :
    Keeps (Grown w₀) (c.run os) := by
  cases c with
  | write k v => exact writeScalar_grown k v
  | writeArray k vs => exact writerOpen_grown.bind fun _ => writeEach_grown k vs
  | writeBytes buf => exact writeBytes_grown buf
  | writePattern length v => exact writerOpen_grown.bind fun _ => writeChunks_grown _ _
  | writeAscii utf8 term => exact writeStr_grown _ utf8 term
  | writeShiftJis utf8 term => exact writeStr_grown _ utf8 term
  | writeUtf16 utf8 term => exact writeStr_grown _ utf8 term
  | writeFixStr utf8 size p => exact writeFixStrImpl_grown _ utf8 size p
  | writeFixStrW utf8 size p => exact writeFixStrImpl_grown _ utf8 size p
  | pad align => exact padByte_grown align 0
  | padFf align => exact padByte_grown align 0xFF
  | padByte align v => exact padByte_grown align v
  | padRelative start align => exact padRelative_grown start align
  | stepIn pos => exact hc.elim
  | stepOut => exact hc.elim
  | setBigEndian be => exact hc.elim
  | setVarintLong l => exact hc.elim
  | reserve k name => exact hc.elim
  | fill k name v => exact hc.elim

end BinaryWriter

end SoulsFormats
