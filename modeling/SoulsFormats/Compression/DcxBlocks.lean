import SoulsFormats.Compression.EdgeCoverage
import SoulsFormats.Core.Alongside

set_option autoImplicit false

/-! # What the decoder takes from its block

The decoder allocates the block that it returns. Only the chunks of an EDGE container may leave bytes of it as the
allocator gave them: everything else depends on the input alone, as long as the allocator grants what is asked for.
The size of the result stands in the container's header; only plain zlib data has none. -/

namespace SoulsFormats

open Bytes Fallible Heap

section

variable {codecs : Codecs} {input : List UInt8}

/-! ## The parts of the decoder -/

theorem lockstep_inputAt (off len : Nat) :
    Lockstep BothCalm (Known ((input.drop off).take len)) (inputAt input off len) (inputAt input off len) :=
  (Lockstep.check _ _).seq fun _ => .pure ⟨rfl, rfl⟩

theorem lockstep_byteAt (off : Nat) :
    Lockstep BothCalm (Known (octetAt input off)) (byteAt input off) (byteAt input off) :=
  (lockstep_inputAt _ _).known (.pure ⟨rfl, rfl⟩)

theorem lockstep_be32 (off : Nat) : Lockstep BothCalm (Known (wordAt input off)) (be32 input off) (be32 input off) :=
  (lockstep_inputAt _ _).known (.pure ⟨rfl, rfl⟩)

theorem lockstep_hasTag (off : Nat) (tag : List UInt8) :
    Lockstep BothCalm (Known (tagAt input off tag)) (hasTag input off tag) (hasTag input off tag) :=
  (lockstep_inputAt _ _).known (.pure ⟨rfl, rfl⟩)

theorem lockstep_readCompressionInfo : Lockstep BothCalm (Known (dcxInfoOf input (dcxTypeOf input)))
    (readCompressionInfo input) (readCompressionInfo input) := by
  intro heap heap' hcalm
  by_cases hlen : dcxInfoSize (dcxTypeOf input) ≤ input.length
  · rw [readCompressionInfo_run input hlen, readCompressionInfo_run input hlen]
    exact ⟨.ok ⟨rfl, rfl⟩, hcalm⟩
  · rw [readCompressionInfo_truncated input hlen, readCompressionInfo_truncated input hlen]
    exact ⟨.error _, hcalm⟩

/-- Blocks of one size, with whatever the allocators have left in them. -/
theorem lockstep_allocBlock (size : Nat) : Lockstep BothCalm
    (fun buf buf' => buf.length = max size 1 ∧ buf'.length = max size 1) (allocBlock size) (allocBlock size) := by
  unfold allocBlock
  refine lockstep_alloc.bind fun junk junk' _ => .pure ⟨?_, ?_⟩
  all_goals
    simp only [List.length_take, List.length_append, List.length_replicate]
    split <;> omega

variable (codecs input) in
/-- What is decoded into two blocks of one size. -/
theorem lockstep_deflateRawDecompress (off size outPos outSize : Nat) {buf buf' : List UInt8}
    (hlen : buf.length = buf'.length) : Lockstep BothCalm
      (fun b b' => ∃ x : List UInt8, x.length = outSize ∧ b = overwrite buf outPos x ∧ b' = overwrite buf' outPos x)
      (deflateRawDecompress codecs input off size buf outPos outSize)
      (deflateRawDecompress codecs input off size buf' outPos outSize) := by
  unfold deflateRawDecompress outputAt
  rw [hlen]
  refine (lockstep_inputAt _ _).known ((Lockstep.check _ _).seq fun _ => ?_)
  cases codecs.inflate (-15) (((input.drop off).take size).take (size % 2 ^ 32)) (outSize % 2 ^ 32) with
  | none => exact .fail _
  | some x => exact .guard fun hx => .pure ⟨x, hx, rfl, rfl⟩

/-- The same bytes, as many as `n`. -/
def SameOf (n : Nat) (x y : List UInt8) : Prop := x = y ∧ x.length = n

theorem lockstep_zlibDecompress (off size outSize : Nat) :
    Lockstep BothCalm (SameOf outSize) (zlibDecompress codecs input off size outSize)
      (zlibDecompress codecs input off size outSize) := by
  unfold zlibDecompress
  refine (Lockstep.check _ _).seq fun _ => (lockstep_byteAt _).known ((Lockstep.check _ _).seq fun _ => ?_)
  refine (lockstep_byteAt _).known ((Lockstep.check _ _).seq fun _ => ?_)
  refine (lockstep_allocBlock _).bind fun buf buf' hbuf => ?_
  have hdecode := lockstep_deflateRawDecompress codecs input (off + 2) (size - 6) 0 outSize
    (hbuf.1.trans hbuf.2.symm)
  refine hdecode.attempt.bind fun x x' hx => (lockstep_be32 _).known ?_
  cases hx with
  | error e => exact .fail e
  | ok h =>
      obtain ⟨x, rfl, rfl, rfl⟩ := h
      dsimp only
      rw [take_overwrite_self buf, take_overwrite_self buf']
      exact Lockstep.guard fun _ => .pure ⟨rfl, rfl⟩

/-- What a codec puts at the start of a block, if it fills what it is asked for. -/
theorem lockstep_answer (answer : Option (List UInt8)) (outSize : Nat) (buf buf' : List UInt8) :
    Lockstep BothCalm (SameOf outSize)
      (match answer with
        | none => fail .decompress
        | some x => do
          check (x.length = outSize) .decompress
          pure ((overwrite buf 0 x).take outSize) : DcxM (List UInt8))
      (match answer with
        | none => fail .decompress
        | some x => do
          check (x.length = outSize) .decompress
          pure ((overwrite buf' 0 x).take outSize)) := by
  cases answer with
  | none => exact .fail _
  | some x =>
      refine .guard fun hx => .pure ?_
      subst hx
      rw [take_overwrite_self, take_overwrite_self]
      exact ⟨rfl, rfl⟩

theorem lockstep_zstdDecompress (off size outSize : Nat) :
    Lockstep BothCalm (SameOf outSize) (zstdDecompress codecs input off size outSize)
      (zstdDecompress codecs input off size outSize) := by
  unfold zstdDecompress outputAt
  refine (lockstep_allocBlock _).bind fun buf buf' hbuf => (lockstep_inputAt _ _).known ?_
  rw [hbuf.1, hbuf.2]
  exact (Lockstep.check _ _).seq fun _ => lockstep_answer _ _ _ _

theorem lockstep_oodleDecompress (off size outSize : Nat) {buf buf' : List UInt8} (hlen : buf.length = buf'.length) :
    Lockstep BothCalm (SameOf outSize) (oodleDecompress codecs input off size buf outSize)
      (oodleDecompress codecs input off size buf' outSize) := by
  unfold oodleDecompress outputAt
  rw [hlen]
  exact (Lockstep.check _ _).seq fun _ => (lockstep_inputAt _ _).known <| (Lockstep.check _ _).seq fun _ =>
    lockstep_answer _ _ _ _

/-- What plain zlib data is unpacked to, at the first capacity that is enough. -/
def plainZlibContents (codecs : Codecs) (input : List UInt8) : Nat → Nat → List UInt8
  | 0, _ => []
  | tries + 1, cap =>
    match codecs.inflate 15 (input.take (input.length % 2 ^ 32)) (cap % 2 ^ 32) with
    | some x => x
    | none => plainZlibContents codecs input tries (cap * 2 % 2 ^ 64)

theorem lockstep_plainZlibTries (tries cap : Nat) :
    Lockstep BothCalm (SameOf (plainZlibContents codecs input tries cap).length)
      (plainZlibTries codecs input tries cap) (plainZlibTries codecs input tries cap) := by
  induction tries generalizing cap with
  | zero => exact .fail _
  | succ tries ih =>
      unfold plainZlibTries plainZlibContents
      refine lockstep_alloc.bind fun _ _ _ => (lockstep_inputAt _ _).known ((Lockstep.check _ _).seq fun _ => ?_)
      rw [List.drop_zero]
      cases codecs.inflate 15 (input.take (input.length % 2 ^ 32)) (cap % 2 ^ 32) with
      | none => exact ih _
      | some x => exact .pure ⟨rfl, rfl⟩

/-! ## EDGE -/

variable (input) in
theorem unaffected_edgeTable (csize : Nat) (dcx : Bool) :
    Unaffected (if dcx then dcxEdgeTable input else dcpEdgeTable input csize) := by
  have htag (off : Nat) (tag : List UInt8) (f : Unit → DcxM EdgeTable) (hf : Unaffected (f ())) :
      Unaffected (hasTag input off tag >>= fun found => check (found = true) .badMagic >>= f) :=
    (lockstep_hasTag _ _).known ((Lockstep.check _ _).seq fun _ => hf)
  refine .ite (fun _ => ?_) fun _ => ?_
  · refine (Lockstep.check _ _).seq fun _ => htag _ _ _ (htag _ _ _ (htag _ _ _ ?_))
    exact (lockstep_be32 _).known ((lockstep_be32 _).known (.pure rfl))
  · refine (Lockstep.check _ _).seq fun _ => htag _ _ _ (htag _ _ _ ?_)
    exact (lockstep_be32 _).known (.pure rfl)

/-- The heads of two runs, which differ in what their blocks hold. -/
theorem lockstep_edgeHead (dcx : Bool) : Lockstep BothCalm
    (fun x y => x.1 = y.1 ∧ x.2.1.length = y.2.1.length ∧ x.2.2 = y.2.2) (edgeHead input dcx) (edgeHead input dcx) := by
  unfold edgeHead
  refine (Lockstep.check _ _).seq fun _ => (lockstep_hasTag _ _).known ((Lockstep.check _ _).seq fun _ => ?_)
  refine (lockstep_be32 _).known ((lockstep_be32 _).known ((lockstep_allocBlock _).bind fun dst dst' hdst => ?_))
  have htable := unaffected_edgeTable input (wordAt input ((if dcx then 0x18 else 0x20) + 8)) dcx
  cases dcx with
  | true =>
      exact htable.seq fun edge => (Lockstep.check _ _).seq fun _ => .pure ⟨rfl, hdst.1.trans hdst.2.symm, rfl⟩
  | false =>
      exact htable.seq fun edge => (Lockstep.check _ _).seq fun _ => .pure ⟨rfl, hdst.1.trans hdst.2.symm, rfl⟩

/-- The loop over the chunks of blocks of one size comes to the same end. -/
theorem lockstep_edgeChunks (edge : EdgeTable) (usize count i outPos : Nat) {dst dst' : List UInt8}
    (hlen : dst.length = dst'.length) : Lockstep BothCalm (fun x y : List UInt8 => x.length = y.length)
      (edgeChunks codecs input edge usize count i outPos dst)
      (edgeChunks codecs input edge usize count i outPos dst') := by
  induction count generalizing i outPos dst dst' with
  | zero => exact .pure hlen
  | succ count ih =>
      unfold edgeChunks
      refine (lockstep_be32 _).known ((lockstep_be32 _).known ((lockstep_be32 _).known ?_))
      refine (Lockstep.check _ _).seq fun _ => .ite (fun _ => ?_) fun _ => ?_
      · refine (lockstep_deflateRawDecompress _ _ _ _ _ _ hlen).bind fun b b' h => ?_
        obtain ⟨x, -, rfl, rfl⟩ := h
        exact ih _ _ (by rw [length_overwrite, length_overwrite, hlen])
      · refine (lockstep_inputAt _ _).known ?_
        unfold outputAt
        rw [hlen]
        exact (Lockstep.check _ _).seq fun _ => ih _ _ (by rw [length_overwrite, length_overwrite, hlen])

/-- The stores of the chunks do not depend on the block. -/
theorem unaffected_edgeStoresFrom (edge : EdgeTable) (usize count i outPos : Nat) :
    Unaffected (edgeStoresFrom codecs input edge usize count i outPos) := by
  induction count generalizing i outPos with
  | zero => exact .pure rfl
  | succ count ih =>
      unfold edgeStoresFrom
      refine (lockstep_be32 _).known ((lockstep_be32 _).known ((lockstep_be32 _).known ?_))
      refine (Lockstep.check _ _).seq fun _ => (lockstep_inputAt _ _).known ?_
      have hchunk (comp : Nat) (bs : List UInt8) (sz : Nat) :
          Unaffected (edgeChunk codecs comp bs sz (edgeChunkUsize usize outPos)) := by
        refine .ite (fun _ => ?_) fun _ => .pure rfl
        cases codecs.inflate (-15) (bs.take (sz % 2 ^ 32)) (edgeChunkUsize usize outPos % 2 ^ 32) with
        | none => exact .fail _
        | some x => exact (Lockstep.check _ _).seq fun _ => .pure rfl
      exact (hchunk _ _ _).seq fun x => (ih _ _).seq fun rest => .pure rfl

variable (codecs input) in
theorem unaffected_decompressEdgeStores (dcx : Bool) : Unaffected (decompressEdgeStores codecs input dcx) := by
  refine (lockstep_edgeHead dcx).bind fun ⟨usize, dst, edge⟩ ⟨usize', dst', edge'⟩ h => ?_
  obtain ⟨rfl, -, rfl⟩ := h
  exact (unaffected_edgeStoresFrom _ _ _ _ _).seq fun stores => .pure rfl

variable (codecs input) in
theorem lockstep_decompressEdge (dcx : Bool) : Lockstep BothCalm (fun x y : List UInt8 => x.length = y.length)
    (decompressEdge codecs input dcx) (decompressEdge codecs input dcx) := by
  rw [decompressEdge_eq_head]
  refine (lockstep_edgeHead dcx).bind fun ⟨usize, dst, edge⟩ ⟨usize', dst', edge'⟩ h => ?_
  obtain ⟨rfl, hlen, rfl⟩ := h
  refine (lockstep_edgeChunks _ _ _ _ _ hlen).bind fun out out' hout => .pure ?_
  rw [List.length_take, List.length_take, hout]

/-- The chunks fill a result that is not empty. -/
def EdgeFilled (input : List UInt8) (dcx : Bool) (usize : Nat) : Prop := usize = 0 ∨ EdgeTableFills input dcx usize

instance (input : List UInt8) (dcx : Bool) (usize : Nat) : Decidable (EdgeFilled input dcx usize) :=
  inferInstanceAs (Decidable (_ ∨ _))

/-- A result that is filled does not depend on the block. -/
theorem unaffected_decompressEdge {dcx : Bool}
    (hfilled : EdgeFilled input dcx (wordAt input ((if dcx then 0x18 else 0x20) + 4))) :
    Unaffected (decompressEdge codecs input dcx) := by
  intro heap heap' hcalm
  obtain ⟨hagree, hcalm'⟩ := lockstep_decompressEdge codecs input dcx heap heap' hcalm
  refine ⟨?_, hcalm'⟩
  rcases hrun : decompressEdge codecs input dcx heap with ⟨e | out, h1⟩
  · rw [hrun] at hagree
    rw [hagree.error_right]
    exact .error e
  · rw [hrun] at hagree
    obtain ⟨out', hout', hlen⟩ := hagree.ok_right
    obtain ⟨husize, stores, hstores⟩ := decompressEdge_eq_ok hrun
    obtain ⟨-, stores', hstores'⟩ := decompressEdge_eq_ok (Prod.ext hout' rfl)
    rw [hout']
    refine .ok ?_
    rcases hfilled with hzero | hfills
    · -- there is nothing in it
      have hnil : out.length = 0 := husize.trans hzero
      rw [List.eq_nil_of_length_eq_zero hnil, List.eq_nil_of_length_eq_zero (hlen.symm.trans hnil)]
    · rw [← husize] at hfills
      have hsame := (unaffected_decompressEdgeStores codecs input dcx heap heap' hcalm).1
      rw [hstores, hstores'] at hsame
      obtain ⟨hlen', rfl⟩ := Prod.mk.inj (Except.ok.inj hsame.eq)
      have hout := decompressEdge_of_fills hstores hfills
      have hother := decompressEdge_of_fills hstores' (hlen' ▸ hfills)
      rw [hrun] at hout
      have hfst := hout'.symm.trans (congrArg Prod.fst hother)
      exact (Except.ok.inj (congrArg Prod.fst hout)).trans (Except.ok.inj hfst).symm

/-- A result that is not filled ends in what the allocator has left in the block. -/
theorem decompressEdge_unfilled {dcx : Bool} {out junk : List UInt8} {rest heap' : Heap}
    (hfilled : ¬ EdgeFilled input dcx out.length) (hjunk : junk.length = out.length)
    (hrun : decompressEdge codecs input dcx (some junk :: rest) = (.ok out, heap')) : out.getLast? = junk.getLast? := by
  obtain ⟨hne, hfills⟩ := not_or.1 hfilled
  obtain ⟨-, stores, hstores⟩ := decompressEdge_eq_ok hrun
  obtain ⟨dst, hblock, htiles, hextent, hsource⟩ := decompressEdgeStores_eq_ok hstores
  have hdst : junk = dst := by
    have hsize : (if out.length = 0 then 1 else out.length) = junk.length := by rw [if_neg hne, hjunk]
    have hjunked : (allocBlock out.length (some junk :: rest)).1 = .ok junk := by
      rw [allocBlock, bind_ok (show Heap.alloc (some junk :: rest) = (.ok junk, rest) from rfl), hsize]
      simp
    exact Except.ok.inj (hjunked.symm.trans hblock)
  subst hdst
  rw [hrun] at hsource
  split at hsource
  · next hfits =>
      have hshort : extent stores < out.length :=
        Nat.lt_of_le_of_ne (by omega) fun h => hfills (hextent.1 h)
      have hout := Except.ok.inj (congrArg Prod.fst hsource)
      rw [htiles.applyStores_eq (by omega), List.take_zero, List.nil_append, List.take_of_length_le
        (by rw [List.length_append, length_flatMap_snd, List.length_drop]; omega)] at hout
      rw [hout, List.getLast?_append_of_ne_nil _ (by rw [← List.length_pos_iff_ne_nil, List.length_drop]; omega),
        List.getLast?_drop, if_neg (by omega)]
  · cases hsource

/-! ## The whole decoder -/

/-- The size that a container of that type states for its contents; plain zlib data states none, and has that of its
    contents. -/
def dcxStatedSizeOf (codecs : Codecs) (input : List UInt8) : DcxType → Nat
  | .zlib =>
    let cap := (input.length * 4 + 1024) % 2 ^ 64
    (plainZlibContents codecs input 12 (if cap < 4096 then 4096 else cap)).length
  | .dcpDflt => wordAt input 0x24
  | .dcpEdge => wordAt input 0x24
  | _ => wordAt input 0x1C

def dcxStatedSize (codecs : Codecs) (input : List UInt8) : Nat := dcxStatedSizeOf codecs input (dcxTypeOf input)

/-- The chunks of the container, if it is one of type EDGE, fill its contents. -/
def DcxFilled (input : List UInt8) : Prop :=
  (dcxTypeOf input = .dcpEdge → EdgeFilled input false (wordAt input 0x24)) ∧
    (dcxTypeOf input = .dcxEdge → EdgeFilled input true (wordAt input 0x1C))

instance (input : List UInt8) : Decidable (DcxFilled input) := inferInstanceAs (Decidable (_ ∧ _))

/-- Nothing is missing where there is nothing. -/
theorem dcxFilled_of_empty (hempty : dcxStatedSize codecs input = 0) : DcxFilled input := by
  unfold dcxStatedSize at hempty
  constructor
  · intro htype
    rw [htype] at hempty
    exact .inl hempty
  · intro htype
    rw [htype] at hempty
    exact .inl hempty

theorem lockstep_decompressPayload {type : DcxType} (hdcp : type ≠ .dcpEdge) (hdcx : type ≠ .dcxEdge) :
    Lockstep BothCalm (SameOf (dcxStatedSizeOf codecs input type)) (decompressPayload codecs input type)
      (decompressPayload codecs input type) := by
  cases type with
  | zlib => exact lockstep_plainZlibTries _ _
  | dcpDflt =>
      exact (Lockstep.check _ _).seq fun _ => (lockstep_be32 _).known <| (lockstep_be32 _).known <|
        lockstep_zlibDecompress _ _ _
  | dcpEdge => exact absurd rfl hdcp
  | dcxEdge => exact absurd rfl hdcx
  | dcxDflt =>
      exact (Lockstep.check _ _).seq fun _ => (lockstep_be32 _).known <| (lockstep_be32 _).known <|
        lockstep_zlibDecompress _ _ _
  | dcxKrak =>
      exact (Lockstep.check _ _).seq fun _ => (lockstep_be32 _).known <| (lockstep_allocBlock _).bind fun _ _ hbuf =>
        (lockstep_be32 _).known <| lockstep_oodleDecompress _ _ _ (hbuf.1.trans hbuf.2.symm)
  | dcxZstd =>
      exact (Lockstep.check _ _).seq fun _ => (lockstep_be32 _).known <| (lockstep_be32 _).known <|
        lockstep_zstdDecompress _ _ _
  | unknown => exact .fail _
  | none => exact .fail _

variable (codecs input) in
/-- Whether the decoder succeeds, and with how many bytes, depends on the input alone. -/
theorem lockstep_dcxDecompressFromBuffer : Lockstep BothCalm
    (fun x y : List UInt8 × DcxCompressionInfo => x.1.length = dcxStatedSize codecs input ∧
      y.1.length = dcxStatedSize codecs input ∧ x.2 = y.2)
    (dcxDecompressFromBuffer codecs input) (dcxDecompressFromBuffer codecs input) := by
  have hedge (dcx : Bool) {n : Nat} (hn : n = wordAt input ((if dcx then 0x18 else 0x20) + 4)) :
      Lockstep BothCalm (fun x y : List UInt8 => x.length = n ∧ y.length = n)
        (decompressEdge codecs input dcx) (decompressEdge codecs input dcx) := by
    intro heap heap' hcalm
    obtain ⟨hagree, hcalm'⟩ := lockstep_decompressEdge codecs input dcx heap heap' hcalm
    refine ⟨?_, hcalm'⟩
    rcases hrun : decompressEdge codecs input dcx heap with ⟨e | x, h1⟩
    · rw [hrun] at hagree
      rw [hagree.error_right]
      exact .error e
    · rw [hrun] at hagree
      obtain ⟨y, hy, hlen⟩ := hagree.ok_right
      have hx := (decompressEdge_eq_ok hrun).1.trans hn.symm
      rw [hy]
      exact .ok ⟨hx, hlen.symm.trans hx⟩
  have hpayload : Lockstep BothCalm
      (fun x y : List UInt8 => x.length = dcxStatedSize codecs input ∧ y.length = dcxStatedSize codecs input)
      (decompressPayload codecs input (dcxTypeOf input)) (decompressPayload codecs input (dcxTypeOf input)) := by
    unfold dcxStatedSize
    by_cases hdcp : dcxTypeOf input = .dcpEdge
    · rw [hdcp]
      exact hedge false rfl
    · by_cases hdcx : dcxTypeOf input = .dcxEdge
      · rw [hdcx]
        exact hedge true rfl
      · refine (lockstep_decompressPayload hdcp hdcx).mono fun x y h => ⟨h.2, ?_⟩
        rw [← h.1]
        exact h.2
  refine lockstep_readCompressionInfo.known ?_
  rw [type_dcxInfoOf]
  exact hpayload.bind fun x y h => .pure ⟨h.1, h.2, rfl⟩

variable (codecs) in
/-- What is filled depends on the input alone. -/
theorem unaffected_dcxDecompressFromBuffer (hfilled : DcxFilled input) :
    Unaffected (dcxDecompressFromBuffer codecs input) := by
  refine lockstep_readCompressionInfo.known ?_
  rw [type_dcxInfoOf]
  have hpayload : Unaffected (decompressPayload codecs input (dcxTypeOf input)) := by
    by_cases hdcp : dcxTypeOf input = .dcpEdge
    · rw [hdcp]
      exact unaffected_decompressEdge (hfilled.1 hdcp)
    · by_cases hdcx : dcxTypeOf input = .dcxEdge
      · rw [hdcx]
        exact unaffected_decompressEdge (hfilled.2 hdcx)
      · exact (lockstep_decompressPayload hdcp hdcx).mono fun x y h => h.1
  exact hpayload.seq fun x => .pure rfl

theorem dcxDecompressFromBuffer_eq_ok {x : List UInt8} {info : DcxCompressionInfo} {heap : Heap}
    (h : (dcxDecompressFromBuffer codecs input heap).1 = .ok (x, info)) :
    (decompressPayload codecs input (dcxTypeOf input) heap).1 = .ok x := by
  by_cases hlen : dcxInfoSize (dcxTypeOf input) ≤ input.length
  · rw [dcxDecompressFromBuffer, bind_ok (readCompressionInfo_run input hlen heap), type_dcxInfoOf] at h
    obtain ⟨y, _, hy, hpure⟩ := bind_eq_ok.1 (Prod.ext h rfl)
    cases hpure
    rw [hy]
  · rw [dcxDecompressFromBuffer, bind_error (readCompressionInfo_truncated input hlen heap)] at h
    cases h

/-- The size of the contents is the one that is stated. -/
theorem length_dcxDecompressFromBuffer {x : List UInt8} {info : DcxCompressionInfo} {heap : Heap} (hcalm : heap.Calm)
    (h : (dcxDecompressFromBuffer codecs input heap).1 = .ok (x, info)) : x.length = dcxStatedSize codecs input := by
  have hagree := (lockstep_dcxDecompressFromBuffer codecs input heap heap ⟨hcalm, hcalm⟩).1
  rw [h] at hagree
  cases hagree with
  | ok h => exact h.1

/-- What is not filled ends in what the allocator has left in the block. -/
theorem dcxDecompressFromBuffer_unfilled {x junk : List UInt8} {info : DcxCompressionInfo} {rest : Heap}
    (hfilled : ¬ DcxFilled input) (hcalm : Heap.Calm (some junk :: rest))
    (hjunk : junk.length = dcxStatedSize codecs input)
    (h : (dcxDecompressFromBuffer codecs input (some junk :: rest)).1 = .ok (x, info)) :
    x.getLast? = junk.getLast? := by
  have hlen := length_dcxDecompressFromBuffer hcalm h
  have hpayload := dcxDecompressFromBuffer_eq_ok h
  have hsize := hlen.trans hjunk.symm
  unfold dcxStatedSize at hlen
  by_cases hdcp : dcxTypeOf input = .dcpEdge
  · rw [hdcp] at hpayload hlen
    refine decompressEdge_unfilled (fun hedge => hfilled ⟨fun _ => ?_, fun hdcx => ?_⟩) hsize.symm (Prod.ext hpayload rfl)
    · rw [hlen] at hedge
      exact hedge
    · rw [hdcp] at hdcx
      cases hdcx
  · by_cases hdcx : dcxTypeOf input = .dcxEdge
    · rw [hdcx] at hpayload hlen
      refine decompressEdge_unfilled (fun hedge => hfilled ⟨fun h => absurd h hdcp, fun _ => ?_⟩) hsize.symm
        (Prod.ext hpayload rfl)
      rw [hlen] at hedge
      exact hedge
    · exact absurd ⟨fun h => absurd h hdcp, fun h => absurd h hdcx⟩ hfilled

end

end SoulsFormats
