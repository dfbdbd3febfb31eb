import Mathlib.Data.Bool.AllAny
import SoulsFormats.Core.Echoes
import SoulsFormats.Geom.Mtd

set_option autoImplicit false

/-! # Reading back a material

The length of a block is known once its contents have been written, and stands before them. A reader that compares
the lengths with where it comes to follows the writer through every block. -/

namespace SoulsFormats

open Bytes Fallible BinaryReader BinaryWriter

/-- The slots of the lengths, by where their blocks start. -/
def mtdSlots : FileSlots Nat where
  key start := (mtdBlockName start, .u32)
  addr start := start - 4
  key_inj := by
    intro p q h
    have hdigits := List.append_cancel_left (congrArg Prod.fst h)
    rw [← hexValue_digits p, hdigits, hexValue_digits]

/-- A block ends where its length says. -/
def mtdCheckEnd (block : MtdBlock) : ReadM Unit := do
  let current ← peek BinaryReader.position
  check (current = block.start + block.length.toNat) .internal

/-- Where a block ends as its length says, nothing goes wrong. -/
def EndsRight (ended : MtdBlock → ReadM Unit) : Prop :=
  ∀ (block : MtdBlock) (c : Cursor), c.pos = block.start + block.length.toNat → Reads (ended block) c () c

theorem endsRight_mtdCheckEnd : EndsRight mtdCheckEnd := by
  intro block c hpos
  refine Reads.peek (v := c.pos) (fun r hr => congrArg Cursor.pos hr) ?_
  have hcheck : Reads (check (c.pos = block.start + block.length.toNat) SfError.internal >>= pure) c () c :=
    Reads.check hpos (Reads.pure () c)
  rwa [bind_pure] at hcheck

theorem endsRight_nothing : EndsRight fun _ => pure () := fun _ c _ => Reads.pure () c

/-! ## What can be stored -/

/-- The strings of a texture. -/
def MtdTexture.strings (t : MtdTexture) : List (List UInt8) := t.type :: (t.extended.map Prod.fst).toList

/-- The strings of a material. -/
def Mtd.strings (m : Mtd) : List (List UInt8) :=
  m.shaderPath :: m.description :: (m.params.map MtdParam.name ++ m.textures.flatMap MtdTexture.strings)

/-- Every string can be stored as Shift-JIS. -/
def Mtd.Fits (os : Win32) (m : Mtd) : Prop := ∀ t ∈ m.strings, os.Fits .shiftJis t

/-! ## Markers and strings -/

section

variable {os : Win32} {ended : MtdBlock → ReadM Unit}

theorem echoes_mtdAssertMarker (marker : UInt8) :
    Echoes mtdSlots false (mtdWriteMarker marker) (mtdAssertMarker marker) () :=
  (echoes_assertU8 marker).bind (echoes_pad (by decide))

theorem echoes_mtdReadMarker (marker : UInt8) : Echoes mtdSlots false (mtdWriteMarker marker) mtdReadMarker marker := by
  refine (echoes_u8 marker).bind ?_
  exact (echoes_pad (by decide)).last _ rfl

theorem echoes_mtdBlockMarker {assertMarker : Option UInt8} {marker : UInt8} (h : ∀ v ∈ assertMarker, v = marker) :
    Echoes mtdSlots false (mtdWriteMarker marker) (mtdBlockMarker assertMarker) marker := by
  cases assertMarker with
  | none => exact echoes_mtdReadMarker marker
  | some v =>
      obtain rfl := h v rfl
      exact (echoes_mtdAssertMarker v).last _ rfl

theorem echoes_mtdBlockWord {assertWord : Option Int32} {word : Int32} (h : ∀ v ∈ assertWord, v = word) :
    Echoes mtdSlots false (writeI32 word) (mtdBlockWord assertWord) word := by
  cases assertWord with
  | none => exact echoes_i32 word
  | some v =>
      obtain rfl := h v rfl
      exact (echoes_assertI32 v).last _ rfl

theorem toInt_ofNat_toNat {n : Nat} (hn : n ≤ INT32_MAX) : (Int32.ofNat n).toInt.toNat = n := by
  rw [int32_toInt_ofNat hn, Int.toNat_natCast]

theorem echoes_mtdReadMarkedString {t : List UInt8} (ht : os.Fits .shiftJis t) (marker : UInt8) :
    Echoes mtdSlots false (mtdWriteMarkedString os marker t) (mtdReadMarkedString os marker) t := by
  refine Echoes.encoded ht.noNul (Echoes.check fun hlen => ?_)
  refine (echoes_i32 _).bind ?_
  refine Echoes.readCheck (by rw [int32_toInt_ofNat hlen]; omega) ?_
  rw [toInt_ofNat_toNat hlen]
  refine (Echoes.of_sends (sends_bytes _) fun _ => readsBack_shiftJisN ht hlen).bind ?_
  exact (echoes_mtdAssertMarker marker).last _ (cText_eq_self ht.noNul)

/-! ## Blocks -/

theorem mtdAsserted {α : Type} {w : α} : ∀ v ∈ some w, v = w := fun _ h => (Option.some.inj h).symm

/-- A block is read along as its contents are, and ends where its length says. -/
theorem echoes_mtdInBlock {α : Type} {type version : Int32} {marker : UInt8} {assertType assertVersion : Option Int32}
    {assertMarker : Option UInt8} {w : WriteM Unit} {contents : Int32 → ReadM α} {a : α}
    (htype : ∀ v ∈ assertType, v = type) (hversion : ∀ v ∈ assertVersion, v = version)
    (hmarker : ∀ v ∈ assertMarker, v = marker)
    (hended : EndsRight ended)
    (h : Echoes mtdSlots false w (contents version) a) :
    Echoes mtdSlots false (mtdWriteBlock type version marker w)
      (mtdInBlock ended assertType assertVersion assertMarker contents) a := by
  intro pos
  unfold mtdWriteBlock mtdBlockWrite
  simp only [bind_assoc, pure_bind]
  refine Puts.i32 (Puts.position (Puts.reserveU32 (pos + 4 + 4) rfl (by show pos + 4 + 4 - 4 = pos + 4; omega) ?_))
  refine (echoes_mtdBlockWord htype _).seq fun _ st1 hst1 => ?_
  obtain ⟨q1, rfl⟩ := hst1
  refine (echoes_mtdBlockWord hversion _).seq fun _ st2 hst2 => ?_
  obtain ⟨q2, rfl⟩ := hst2
  refine (echoes_mtdBlockMarker hmarker _).seq fun _ st3 hst3 => ?_
  obtain ⟨q3, rfl⟩ := hst3
  refine (h _).seq fun _ st4 hst4 => ?_
  obtain ⟨q4, rfl⟩ := hst4
  refine Puts.position (Puts.check fun hle => Puts.check fun hfit => Puts.last (Puts.fillU32 (pos + 4 + 4) rfl ?_))
  refine Puts.done ⟨q4, rfl⟩ fun B hlength hcontents hm hv ht hzero c hmem hpos hbe => ?_
  subst hmem hpos
  have hheld : Holds c.mem (c.pos + 4) (wordBytes c.bigEndian 4 (UInt32.ofNat (q4 - (c.pos + 4 + 4))).toNat) := by
    have haddr : mtdSlots.addr (c.pos + 4 + 4) = c.pos + 4 := by
      show c.pos + 4 + 4 - 4 = c.pos + 4
      omega
    rw [haddr] at hlength
    rwa [hbe]
  have hspan : (UInt32.ofNat (q4 - (c.pos + 4 + 4))).toNat = q4 - (c.pos + 4 + 4) := by
    unfold UINT32_MAX at hfit
    rw [UInt32.toNat_ofNat', Nat.mod_eq_of_lt (by omega)]
  -- the reader moves over the zero and the length, then over what the writer has written, part by part
  have hread0 := ((readsBack_i32 0).assert (List.mem_singleton_self 0)) c hbe hzero
  have hread1 := parses_u32 (c.advance 4) (UInt32.ofNat (q4 - (c.pos + 4 + 4))) hheld
  rw [length_wordBytes] at hread0 hread1
  have hread2 := ht (c.advance 4 |>.advance 4) rfl rfl hbe
  have hread3 := hv { c with pos := q1 } rfl rfl hbe
  have hread4 := hm { c with pos := q2 } rfl rfl hbe
  have hread5 := hcontents { c with pos := q3 } rfl rfl hbe
  unfold mtdInBlock mtdBlockRead
  simp only [bind_assoc, pure_bind]
  refine hread0.bind (hread1.bind (Reads.peek (v := c.pos + 4 + 4) ?_ ?_))
  · rintro r hr
    exact congrArg Cursor.pos hr
  · refine hread2.bind (hread3.bind (hread4.bind (hread5.bind ?_)))
    refine (hended _ _ ?_).bind (Reads.pure _ _)
    simp only [hspan]
    omega

/-! ## The parts -/

theorem echoes_mtdReadTyped (t : MtdParamType) (v : t.Value) :
    Echoes mtdSlots false (mtdWriteTyped t v) (mtdReadTyped t) v := by
  have hints : ∀ v : CArray Int32 2, Echoes mtdSlots false (writeI32s v.1) (mtdReadTyped .int2) v := by
    intro v
    have h : Echoes mtdSlots false (writeI32s v.1) (readI32s v.1.length) v.1 := echoes_i32s v.1 (by rw [v.2]; decide)
    rw [v.2] at h
    exact h.last _ (CArray.ofList_val 0 v)
  have hfloats : ∀ (n : Nat) (_ : n ≤ INT32_MAX) (v : CArray UInt32 n), Echoes mtdSlots false (writeF32s v.1)
      (do let vs ← readF32s n; pure (CArray.ofList n 0 vs)) v := by
    intro n hn v
    have h : Echoes mtdSlots false (writeF32s v.1) (readF32s v.1.length) v.1 := echoes_f32s v.1 (by rwa [v.2])
    rw [v.2] at h
    exact h.last _ (CArray.ofList_val 0 v)
  cases t with
  | bool => exact echoes_bool v
  | int => exact echoes_i32 v
  | int2 => exact hints v
  | float => exact echoes_f32 v
  | float2 => exact hfloats 2 (by decide) v
  | float3 => exact hfloats 3 (by decide) v
  | float4 => exact hfloats 4 (by decide) v

theorem echoes_mtdReadParamValue (hended : EndsRight ended) (t : MtdParamType) (v : t.Value) :
    Echoes mtdSlots false (mtdWriteParamValue t v) (mtdReadParamValue ended t) v :=
  echoes_mtdInBlock nofun mtdAsserted nofun hended
    ((echoes_i32 _).bind (echoes_mtdReadTyped t v))

theorem mtdParseParamType_string (t : MtdParamType) : mtdParseParamType (mtdParamTypeString t) = .ok t := by
  cases t <;> decide

theorem mtdParamTypeString_fits (hos : os.AsciiCompatible) (t : MtdParamType) :
    os.Fits .shiftJis (mtdParamTypeString t) := by
  have hplain : Win32.isPlain (mtdParamTypeString t) = true := by cases t <;> decide
  obtain ⟨hascii, hnul⟩ := Win32.isPlain_iff.1 hplain
  exact hos.fits hascii hnul

theorem echoes_mtdReadParam (hos : os.AsciiCompatible) (hended : EndsRight ended) {param : MtdParam}
    (hname : os.Fits .shiftJis param.name) :
    Echoes mtdSlots false (mtdWriteParam os param) (mtdReadParam os ended) param := by
  refine echoes_mtdInBlock mtdAsserted mtdAsserted mtdAsserted hended ?_
  refine (echoes_mtdReadMarkedString hname 0xA3).bind ?_
  refine (echoes_mtdReadMarkedString (mtdParamTypeString_fits hos param.type) 0x04).bind ?_
  rw [mtdParseParamType_string]
  refine (echoes_assertI32 1).bind ((echoes_mtdReadParamValue hended param.type param.value).bind ?_)
  exact (echoes_mtdAssertMarker 0x04).bind ((echoes_assertI32 0).last _ rfl)

theorem echoes_mtdReadExtended {path : List UInt8} {unkFloats : List UInt32} (hpath : os.Fits .shiftJis path) :
    Echoes mtdSlots false (mtdWriteExtended os (some (path, unkFloats))) (mtdReadExtended os) (path, unkFloats) := by
  refine Echoes.check fun hlen => (echoes_assertI32 0xA3).bind ((echoes_mtdReadMarkedString hpath 0xBA).bind ?_)
  refine (echoes_i32 _).bind ?_
  have hcount := int32_toInt_ofNat hlen
  refine Echoes.readCheck (by omega) ?_
  by_cases hnone : (Int32.ofNat unkFloats.length).toInt = 0
  · rw [if_pos hnone]
    have hempty : unkFloats = [] := List.eq_nil_of_length_eq_zero (by omega)
    subst hempty
    exact Echoes.of_sends (sends_array [] (sends_scalar .u32)) fun _ => ReadsBack.pure _
  · rw [if_neg hnone, toInt_ofNat_toNat hlen]
    exact Echoes.readAlloc fun _ => (echoes_f32s unkFloats hlen).last _ rfl

theorem echoes_mtdReadTexture (hended : EndsRight ended) {texture : MtdTexture}
    (hstrings : ∀ t ∈ texture.strings, os.Fits .shiftJis t) :
    Echoes mtdSlots false (mtdWriteTexture os texture) (mtdReadTexture os ended) texture := by
  obtain ⟨type, uvNumber, shaderDataIndex, extended⟩ := texture
  have htype : os.Fits .shiftJis type := hstrings type List.mem_cons_self
  refine echoes_mtdInBlock mtdAsserted nofun mtdAsserted hended ?_
  cases extended with
  | none =>
      refine Echoes.readCheck (.inl rfl) ((echoes_mtdReadMarkedString htype 0x35).bind ?_)
      refine (echoes_i32 uvNumber).bind ((echoes_mtdAssertMarker 0x35).bind ?_)
      refine (echoes_i32 shaderDataIndex).bind ?_
      exact Echoes.readAlloc fun _ => Echoes.pure _
  | some extended =>
      obtain ⟨path, unkFloats⟩ := extended
      have hpath : os.Fits .shiftJis path := hstrings path (List.mem_cons_of_mem _ List.mem_cons_self)
      refine Echoes.readCheck (.inr rfl) ((echoes_mtdReadMarkedString htype 0x35).bind ?_)
      refine (echoes_i32 uvNumber).bind ((echoes_mtdAssertMarker 0x35).bind ?_)
      refine (echoes_i32 shaderDataIndex).bind ?_
      exact (echoes_mtdReadExtended hpath).last _ rfl

theorem echoes_mtdReadArray {α β : Type} {write : α → WriteM Unit} {read : ReadM α} {l : List α} {w : WriteM Unit}
    {f : List α → ReadM β} {b : β} (hlen : l.length ≤ INT32_MAX)
    (h : ∀ v ∈ l, Echoes mtdSlots false (write v) read v) (hrest : Echoes mtdSlots false w (f l) b) :
    Echoes mtdSlots false (writeI32 (Int32.ofNat l.length) >>= fun _ => writeEach write l >>= fun _ => w)
      (mtdReadArray read >>= f) b := by
  have hcount := int32_toInt_ofNat hlen
  have harray : Echoes mtdSlots false (writeI32 (Int32.ofNat l.length) >>= fun _ => writeEach write l)
      (mtdReadArray read) l := by
    refine (echoes_i32 _).bind (Echoes.readCheck (by omega) ?_)
    rw [toInt_ofNat_toNat hlen]
    unfold given
    split
    · exact Echoes.readAlloc fun _ => Echoes.each l h
    · exact Echoes.each l h
  have hboth := harray.bind hrest
  rwa [bind_assoc] at hboth

theorem echoes_mtdAssertMarkedString {t : List UInt8} (ht : os.Fits .shiftJis t) (marker : UInt8) :
    Echoes mtdSlots false (mtdWriteMarkedString os marker t) (mtdAssertMarkedString os marker t) () := by
  have hcheck : Echoes mtdSlots false (pure ()) (check (t = t) SfError.badMagic >>= pure) () :=
    Echoes.readCheck rfl (Echoes.pure ())
  rw [bind_pure] at hcheck
  have h := Echoes.bind (f := fun actual => check (actual = t) .badMagic) (echoes_mtdReadMarkedString ht marker) hcheck
  rwa [bind_pure] at h

theorem echoes_mtdReadHeader (hos : os.AsciiCompatible) (hended : EndsRight ended) :
    Echoes mtdSlots false (mtdWriteHeader os) (mtdReadHeader os ended) () := by
  have hmagic : os.Fits .shiftJis (cstr "MTD ") := hos.fits (List.all_iff_forall_prop.1 rfl) (List.all_iff_forall_prop.1 rfl)
  refine echoes_mtdInBlock mtdAsserted mtdAsserted mtdAsserted hended ?_
  exact (echoes_mtdAssertMarkedString hmagic 0x34).bind ((echoes_assertI32 1000).last _ rfl)

theorem reads_mtdCreateEmpty (c : Cursor) : Reads (BinaryReader.onHeap mtdCreateEmpty) c ⟨[], [], [], []⟩ c := by
  refine reads_onHeap_of_calm ?_ (fun heap hheap => ?_) c
  · exact Heap.alloc_keeps.bind fun _ => Heap.allocBoth_keeps.bind fun _ => Keeps.pure _
  · obtain ⟨junk, heap1, halloc, hcalm1⟩ := Heap.alloc_calm hheap
    obtain ⟨heap2, hboth, -⟩ := Heap.allocBoth_calm hcalm1
    rw [mtdCreateEmpty, bind_ok halloc, bind_ok hboth]
    rfl

section

variable {m : Mtd} (hfits : m.Fits os) (hended : EndsRight ended)
include hfits hended

theorem echoes_mtdReadLists (hos : os.AsciiCompatible) (hparams : m.params.length ≤ INT32_MAX)
    (htextures : m.textures.length ≤ INT32_MAX) :
    Echoes mtdSlots false (mtdWriteLists os m) (mtdReadLists os ended) (m.params, m.textures) := by
  have hparam : ∀ v ∈ m.params, Echoes mtdSlots false (mtdWriteParam os v) (mtdReadParam os ended) v := by
    intro v hv
    refine echoes_mtdReadParam hos hended (hfits v.name ?_)
    simp only [Mtd.strings, List.mem_cons, List.mem_append, List.mem_map]
    exact .inr (.inr (.inl ⟨v, hv, rfl⟩))
  have htexture : ∀ v ∈ m.textures, Echoes mtdSlots false (mtdWriteTexture os v) (mtdReadTexture os ended) v := by
    intro v hv
    refine echoes_mtdReadTexture hended fun t ht => hfits t ?_
    simp only [Mtd.strings, List.mem_cons, List.mem_append, List.mem_flatMap]
    exact .inr (.inr (.inr ⟨v, hv, ht⟩))
  refine echoes_mtdInBlock mtdAsserted mtdAsserted mtdAsserted hended ?_
  refine (echoes_assertI32 0).bind ((echoes_mtdAssertMarker 0x03).bind (echoes_mtdReadArray hparams hparam ?_))
  refine (echoes_mtdAssertMarker 0x03).bind (echoes_mtdReadArray htextures htexture ?_)
  exact (echoes_mtdAssertMarker 0x04).bind ((echoes_assertI32 0).last _ rfl)

theorem echoes_mtdReadData (hos : os.AsciiCompatible) (hparams : m.params.length ≤ INT32_MAX)
    (htextures : m.textures.length ≤ INT32_MAX) :
    Echoes mtdSlots false (mtdWriteData os m) (mtdReadData os ended) m := by
  have hpath : os.Fits .shiftJis m.shaderPath := hfits _ List.mem_cons_self
  have hdescription : os.Fits .shiftJis m.description := hfits _ (List.mem_cons_of_mem _ List.mem_cons_self)
  refine echoes_mtdInBlock mtdAsserted mtdAsserted mtdAsserted hended ?_
  refine (echoes_mtdReadMarkedString hpath 0xA3).bind ((echoes_mtdReadMarkedString hdescription 0x03).bind ?_)
  refine (echoes_assertI32 1).bind ((echoes_mtdReadLists hfits hended hos hparams htextures).bind ?_)
  exact (echoes_mtdAssertMarker 0x04).bind ((echoes_assertI32 0).last _ rfl)

theorem echoes_mtdReadFile (hos : os.AsciiCompatible) (hparams : m.params.length ≤ INT32_MAX)
    (htextures : m.textures.length ≤ INT32_MAX) :
    Echoes mtdSlots false (mtdWriteFile os m) (mtdReadFile os ended) m := by
  refine echoes_mtdInBlock mtdAsserted mtdAsserted mtdAsserted hended ?_
  refine (echoes_mtdReadHeader hos hended).bind ((echoes_mtdAssertMarker 0x01).bind ?_)
  refine (echoes_mtdReadData hfits hended hos hparams htextures).bind ?_
  exact (echoes_mtdAssertMarker 0x04).bind ((echoes_assertI32 0).last _ rfl)

/-- A reader that does something at the end of every block follows the writer if the blocks end right. -/
theorem echoes_mtdReadWith (hos : os.AsciiCompatible) :
    Echoes mtdSlots false (mtdWriteToWriter os m) (mtdReadWith os ended) m := by
  refine Echoes.check fun hlen => Echoes.writeSetBig fun pos => ?_
  have hfile := Echoes.readSetBig (g := fun _ => mtdReadFile os ended)
    (echoes_mtdReadFile hfits hended hos (by omega) (by omega))
  refine (hfile pos).mono fun _ _ _ B hB c hmem hpos hbe => ?_
  exact (reads_mtdCreateEmpty c).bind (hB c hmem hpos hbe)

end

end

/-- **A material that was written is read back, also by a reader that compares the length of every block with where the
block ends.** -/
theorem mtd_round_trips (os : Win32) (hos : os.AsciiCompatible) (m : Mtd) (hfits : m.Fits os) (heap heap' : Heap)
    (out : List UInt8) (h : (mtdWriteToMemory os m heap).1 = .ok out) (flexible : Bool) (hcalm : heap'.Calm) :
    (mtdReadFromMemory os flexible out heap').1 = .ok m ∧
      (onMemory out false flexible (mtdReadWith os mtdCheckEnd) heap').1 = .ok m :=
  ⟨(echoes_mtdReadWith hfits endsRight_nothing hos).toMemory nofun h hcalm flexible,
    (echoes_mtdReadWith hfits endsRight_mtdCheckEnd hos).toMemory nofun h hcalm flexible⟩

/-- A material with a param of each kind of value but the vectors, and a texture of either version. -/
def mtdSample : Mtd :=
  ⟨cstr "a.spx", cstr "", [⟨cstr "g_On", .bool, true⟩, ⟨cstr "g_V", .float2, ⟨[0x3F800000, 0], rfl⟩⟩],
    [⟨cstr "g_D", 1, 0, none⟩, ⟨cstr "g_E", 2, 1, some (cstr "e.tga", [0x40000000])⟩]⟩

def mtdSampleBytes : List UInt8 := ((mtdWriteToMemory .ascii mtdSample []).1.toOption).getD []

theorem mtdSample_round_trips :
    (mtdWriteToMemory .ascii mtdSample []).1 = .ok mtdSampleBytes ∧
      (mtdReadFromMemory .ascii false mtdSampleBytes []).1 = .ok mtdSample ∧
      (onMemory mtdSampleBytes false false (mtdReadWith .ascii mtdCheckEnd) []).1 = .ok mtdSample := by
  have hsome : (mtdWriteToMemory .ascii mtdSample []).1.toOption.isSome = true := by decide +kernel
  have hwrite : (mtdWriteToMemory .ascii mtdSample []).1 = .ok mtdSampleBytes := by
    unfold mtdSampleBytes
    cases hrun : (mtdWriteToMemory .ascii mtdSample []).1 with
    | error e =>
        rw [hrun] at hsome
        cases hsome
    | ok out => rfl
  have hfits : mtdSample.Fits .ascii := by
    have hplain : ∀ t ∈ mtdSample.strings, Win32.isPlain t = true := by decide
    intro t ht
    obtain ⟨hascii, hnul⟩ := Win32.isPlain_iff.1 (hplain t ht)
    exact Win32.ascii_compatible.fits hascii hnul
  exact ⟨hwrite, mtd_round_trips .ascii Win32.ascii_compatible mtdSample hfits [] [] _ hwrite false Heap.calm_nil⟩

end SoulsFormats
