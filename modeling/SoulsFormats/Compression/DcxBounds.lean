import SoulsFormats.Compression.Dcx
import SoulsFormats.Library.Avoids

set_option autoImplicit false

/-! # Where the DCX decoder stays in its buffers

A run that leaves a buffer ends with `undefinedBehaviour`. `DcxInBounds` says of an input when that does
not happen: the header's payload lies in the input, and no stored EDGE chunk is larger than what is left
of the output. The decoder checks neither. -/

namespace SoulsFormats

open Bytes Fallible

/-! ## What the input holds -/

section

variable (input : List UInt8) (off : Nat)

def wordAt : Nat := wordNat true ((input.drop off).take 4)

def tagAt (tag : List UInt8) : Bool := (input.drop off).take 4 == tag

def octetAt : UInt8 := ((input.drop off).take 1).headD 0

end

section

variable {β : Type} {input : List UInt8} {off len : Nat} {heap : Heap}

theorem inputAt_bind (h : off + len ≤ input.length) (f : List UInt8 → DcxM β) :
    (inputAt input off len >>= f) heap = f ((input.drop off).take len) heap := by
  rw [inputAt, bind_assoc, check_bind_pos h, pure_bind]

theorem be32_bind (h : off + 4 ≤ input.length) (f : Nat → DcxM β) :
    (be32 input off >>= f) heap = f (wordAt input off) heap := by
  rw [be32, bind_assoc, inputAt_bind h, pure_bind]
  rfl

theorem hasTag_bind (h : off + 4 ≤ input.length) (tag : List UInt8) (f : Bool → DcxM β) :
    (hasTag input off tag >>= f) heap = f (tagAt input off tag) heap := by
  rw [hasTag, bind_assoc, inputAt_bind h, pure_bind]
  rfl

theorem byteAt_bind (h : off + 1 ≤ input.length) (f : UInt8 → DcxM β) :
    (byteAt input off >>= f) heap = f (octetAt input off) heap := by
  rw [byteAt, bind_assoc, inputAt_bind h, pure_bind]
  rfl

theorem avoids_inputAt {f : List UInt8 → DcxM β} :
    Avoids .undefinedBehaviour (inputAt input off len >>= f) heap ↔
      off + len ≤ input.length ∧ Avoids .undefinedBehaviour (f ((input.drop off).take len)) heap := by
  rw [inputAt, bind_assoc, avoids_guard]
  simp

theorem avoids_be32 {f : Nat → DcxM β} :
    Avoids .undefinedBehaviour (be32 input off >>= f) heap ↔
      off + 4 ≤ input.length ∧ Avoids .undefinedBehaviour (f (wordAt input off)) heap := by
  rw [be32, bind_assoc, avoids_inputAt]
  simp [wordAt]

theorem avoids_hasTag {tag : List UInt8} {f : Bool → DcxM β} :
    Avoids .undefinedBehaviour (hasTag input off tag >>= f) heap ↔
      off + 4 ≤ input.length ∧ Avoids .undefinedBehaviour (f (tagAt input off tag)) heap := by
  rw [hasTag, bind_assoc, avoids_inputAt]
  simp [tagAt]

theorem avoids_byteAt {f : UInt8 → DcxM β} :
    Avoids .undefinedBehaviour (byteAt input off >>= f) heap ↔
      off + 1 ≤ input.length ∧ Avoids .undefinedBehaviour (f (octetAt input off)) heap := by
  rw [byteAt, bind_assoc, avoids_inputAt]
  simp [octetAt]

theorem length_allocBlock {size : Nat} {buf : List UInt8} {heap' : Heap}
    (h : allocBlock size heap = (.ok buf, heap')) : buf.length = if size = 0 then 1 else size := by
  obtain ⟨junk, heap1, -, hpure⟩ := bind_eq_ok.1 h
  cases hpure
  simp

/-- What follows a request matters only if the request is granted. -/
theorem avoids_allocBlock {size : Nat} {f : List UInt8 → DcxM β} {P : Prop}
    (hf : ∀ buf heap', buf.length = (if size = 0 then 1 else size) →
      (Avoids .undefinedBehaviour (f buf) heap' ↔ P)) :
    Avoids .undefinedBehaviour (allocBlock size >>= f) heap ↔ (heap.Grants → P) := by
  rw [avoids_bind]
  by_cases hgrants : heap.Grants
  · obtain ⟨junk, hjunk⟩ := Heap.alloc_of_grants hgrants
    have hrun : allocBlock size heap = (.ok _, (Heap.alloc heap).2) := bind_ok (Prod.ext hjunk rfl) _
    constructor
    · intro h _
      exact (hf _ _ (length_allocBlock hrun)).1 (h.2 _ _ hrun)
    · intro hP
      refine ⟨by simp [Avoids, hrun], fun buf heap' hbuf => ?_⟩
      exact (hf buf heap' (length_allocBlock hbuf)).2 (hP hgrants)
  · have hrun : allocBlock size heap = (.error .oom, (Heap.alloc heap).2) :=
      bind_error (Prod.ext (Heap.alloc_of_not_grants hgrants) rfl) _
    simp [Avoids, hrun, hgrants]

end

/-! ## The codecs -/

section

variable (codecs : Codecs) (input : List UInt8)

/-- Raw deflate data in the input, decoded into a part of the buffer. -/
theorem avoids_deflateRawDecompress (off size outPos outSize : Nat) (buf : List UInt8) (heap : Heap) :
    Avoids .undefinedBehaviour (deflateRawDecompress codecs input off size buf outPos outSize) heap ↔
      off + size ≤ input.length ∧ outPos + outSize ≤ buf.length := by
  unfold deflateRawDecompress
  rw [avoids_inputAt, outputAt, avoids_guard]
  rcases codecs.inflate _ _ _ with _ | x
  · simp
  · simp only [avoids_check (show SfError.decompress ≠ .undefinedBehaviour by decide), avoids_pure]
    simp

theorem deflateRawDecompress_eq_ok {off size outPos outSize : Nat} {buf buf' : List UInt8}
    {heap heap' : Heap} (hin : off + size ≤ input.length) (hout : outPos + outSize ≤ buf.length) :
    deflateRawDecompress codecs input off size buf outPos outSize heap = (.ok buf', heap') ↔
      ∃ x, codecs.inflate (-15) (((input.drop off).take size).take (size % 2 ^ 32))
        (outSize % 2 ^ 32) = some x ∧ x.length = outSize ∧ buf' = overwrite buf outPos x ∧ heap' = heap := by
  unfold deflateRawDecompress inputAt outputAt
  rw [bind_assoc, check_bind_pos hin, pure_bind, check_bind_pos hout]
  rcases codecs.inflate _ _ _ with _ | x
  · simp [fail]
  · by_cases hlen : x.length = outSize
    · simp only [check_bind_pos hlen]
      constructor
      · intro h
        cases h
        exact ⟨x, rfl, hlen, rfl, rfl⟩
      · rintro ⟨x', hx', -, rfl, rfl⟩
        cases hx'
        rfl
    · simp only [check_bind_neg hlen]
      constructor
      · intro h
        cases h
      · rintro ⟨x', hx', hlen', -⟩
        cases hx'
        exact absurd hlen' hlen

/-- The bytes that a zlib stream of `size` bytes at `off` makes the decoder look at are in the input.
    Only a stream whose first two bytes are those of zlib is looked at to its end. -/
def ZlibInBounds (grants : Prop) (off size : Nat) : Prop :=
  6 ≤ size → off + 1 ≤ input.length ∧ (octetAt input off = 0x78 → off + 1 + 1 ≤ input.length ∧
    (zlibLevels.contains (octetAt input (off + 1)) = true → grants → off + size ≤ input.length))

theorem avoids_zlibDecompress {off size outSize : Nat} {heap : Heap} :
    Avoids .undefinedBehaviour (zlibDecompress codecs input off size outSize) heap ↔
      ZlibInBounds input heap.Grants off size := by
  unfold zlibDecompress ZlibInBounds
  rw [avoids_check (by decide)]
  refine forall_congr' fun hsize => ?_
  rw [avoids_byteAt, avoids_check (by decide), avoids_byteAt, avoids_check (by decide)]
  refine and_congr_right' (forall_congr' fun _ => and_congr_right' (forall_congr' fun _ => ?_))
  refine avoids_allocBlock fun buf heap' hbuf => ?_
  have hstay := avoids_deflateRawDecompress codecs input (off + 2) (size - 6) 0 outSize buf heap'
  rw [avoids_attempt, avoids_be32, show off + size - 4 + 4 = off + size by omega]
  refine and_iff_left_of_imp fun hin => ?_
  have hroom : outSize ≤ buf.length := by
    rw [hbuf]
    split <;> omega
  have hrun : Avoids .undefinedBehaviour
      (deflateRawDecompress codecs input (off + 2) (size - 6) buf 0 outSize) heap' :=
    hstay.2 ⟨by omega, by omega⟩
  unfold Avoids at hrun
  rcases hr : (deflateRawDecompress codecs input (off + 2) (size - 6) buf 0 outSize heap').1 with e | buf'
  · rw [avoids_fail]
    rintro rfl
    exact hrun hr
  · simp only [avoids_check (show SfError.decompress ≠ .undefinedBehaviour by decide), avoids_pure]
    simp

/-- A codec that decodes the input into a whole block. -/
theorem avoids_zstdDecompress {off size outSize : Nat} {heap : Heap} :
    Avoids .undefinedBehaviour (zstdDecompress codecs input off size outSize) heap ↔
      (heap.Grants → off + size ≤ input.length) := by
  unfold zstdDecompress
  refine avoids_allocBlock fun buf heap' hbuf => ?_
  have hroom : 0 + outSize ≤ buf.length := by
    rw [hbuf]
    split <;> omega
  rw [avoids_inputAt, outputAt, avoids_guard]
  refine and_iff_left_of_imp fun _ => ⟨hroom, ?_⟩
  rcases codecs.zstdDecompress _ _ with _ | x
  · simp
  · simp only [avoids_check (show SfError.decompress ≠ .undefinedBehaviour by decide), avoids_pure]
    simp

theorem avoids_oodleDecompress {off size outSize : Nat} {buf : List UInt8} {heap : Heap}
    (hbuf : buf.length = if outSize = 0 then 1 else outSize) :
    Avoids .undefinedBehaviour (oodleDecompress codecs input off size buf outSize) heap ↔
      (codecs.oodleLoads = true → off + size ≤ input.length) := by
  unfold oodleDecompress
  have hroom : 0 + outSize ≤ buf.length := by
    rw [hbuf]
    split <;> omega
  rw [avoids_check (by decide), avoids_inputAt, outputAt, avoids_guard]
  refine forall_congr' fun _ => and_iff_left_of_imp fun _ => ⟨hroom, ?_⟩
  rcases codecs.oodleDecompress _ _ with _ | x
  · simp
  · simp only [avoids_check (show SfError.decompress ≠ .undefinedBehaviour by decide), avoids_pure]
    simp

/-- The loop over plain zlib data only ever gives the codec ranges that are there. -/
theorem avoids_plainZlibTries (tries cap : Nat) (heap : Heap) :
    Avoids .undefinedBehaviour (plainZlibTries codecs input tries cap) heap := by
  induction tries generalizing cap heap with
  | zero => simp [plainZlibTries]
  | succ tries ih =>
      unfold plainZlibTries
      rw [avoids_bind]
      constructor
      · intro h
        cases (Heap.alloc_error (Prod.ext h rfl : Heap.alloc heap = (_, (Heap.alloc heap).2))).1
      · intro junk heap' _
        rw [avoids_inputAt, avoids_guard]
        refine ⟨by simpa using Nat.mod_le _ _, Nat.mod_le _ _, ?_⟩
        rcases codecs.inflate _ _ _ with _ | x
        · exact ih _ _
        · simp

end

/-! ## EDGE -/

section

variable (codecs : Codecs) (input : List UInt8)

/-- The stored chunks that the loop over the chunks comes to fit what is left of the output. The loop
    ends where an entry leads out of the input or a compressed chunk cannot be decoded. -/
def EdgeChunksInBounds (edge : EdgeTable) (usize : Nat) : Nat → Nat → Nat → Prop
  | 0, _, _ => True
  | count + 1, i, outPos =>
    let entry := edge.table + i * 16
    let off := wordAt input (entry + 4)
    let sz := wordAt input (entry + 8)
    let chunkUsize := edgeChunkUsize usize outPos
    edge.dataStart + off + sz ≤ input.length → outPos + chunkUsize ≤ usize →
      if wordAt input (entry + 12) ≠ 0 then
        (∃ x, codecs.inflate (-15) (((input.drop (edge.dataStart + off)).take sz).take (sz % 2 ^ 32))
          (chunkUsize % 2 ^ 32) = some x ∧ x.length = chunkUsize) →
          EdgeChunksInBounds edge usize count (i + 1) (outPos + chunkUsize)
      else outPos + sz ≤ max usize 1 ∧ EdgeChunksInBounds edge usize count (i + 1) (outPos + sz)

theorem avoids_edgeChunks (edge : EdgeTable) (usize count i outPos : Nat) (dst : List UInt8)
    (heap : Heap) (hdst : dst.length = max usize 1)
    (htable : edge.table + (i + count) * 16 ≤ input.length) :
    Avoids .undefinedBehaviour (edgeChunks codecs input edge usize count i outPos dst) heap ↔
      EdgeChunksInBounds codecs input edge usize count i outPos := by
  induction count generalizing i outPos dst heap with
  | zero => simp [edgeChunks, EdgeChunksInBounds]
  | succ count ih =>
      unfold edgeChunks EdgeChunksInBounds
      have hentry : edge.table + i * 16 + 16 ≤ input.length := by
        rw [Nat.add_mul, Nat.succ_mul] at htable
        omega
      have hrest : edge.table + (i + 1 + count) * 16 ≤ input.length := by
        rwa [Nat.add_right_comm]
      simp only [avoids_be32]
      rw [and_iff_right (by omega), and_iff_right (by omega), and_iff_right (by omega),
        avoids_check (by decide), and_imp]
      refine forall_congr' fun hin => forall_congr' fun hout => ?_
      split
      · -- a compressed chunk
        have hroom : outPos + edgeChunkUsize usize outPos ≤ dst.length := by
          rw [hdst]
          exact hout.trans (Nat.le_max_left _ _)
        rw [avoids_bind, avoids_deflateRawDecompress, and_iff_right ⟨hin, hroom⟩]
        simp only [deflateRawDecompress_eq_ok codecs input hin hroom]
        constructor
        · rintro h ⟨x, hx, hlen⟩
          refine (ih (i + 1) _ (overwrite dst outPos x) heap ?_ hrest).1 (h _ _ ⟨x, hx, hlen, rfl, rfl⟩)
          rw [length_overwrite, hlen]
          omega
        · rintro h _ _ ⟨x, hx, hlen, rfl, rfl⟩
          refine (ih (i + 1) _ _ _ ?_ hrest).2 (h ⟨x, hx, hlen⟩)
          rw [length_overwrite, hlen]
          omega
      · -- a stored chunk
        rw [avoids_inputAt, outputAt, avoids_guard, and_iff_right hin, hdst]
        refine and_congr_right fun hroom => ?_
        refine ih (i + 1) _ _ heap ?_ hrest
        rw [length_overwrite, hdst]
        simp
        omega

/-- If there is a table, its chunks are in bounds. -/
def EdgeInBounds (edge : EdgeTable) (usize : Nat) : Prop :=
  edge.count ≤ 0x100000 ∧ edge.table + edge.count * 16 ≤ input.length →
    EdgeChunksInBounds codecs input edge usize edge.count 0 0

/-- The decoder reads the number of the chunks before it knows that it is there. -/
def DcxEdgeInBounds (grants : Prop) : Prop :=
  0x18 + 12 ≤ input.length → tagAt input 0x18 (dcxTag "DCS") = true → grants →
    0x50 ≤ input.length → tagAt input 0x24 (dcxTag "DCP") = true →
    tagAt input 0x28 (dcxTag "EDGE") = true → 0x68 + 4 ≤ input.length ∧
      EdgeInBounds codecs input
        { dataStart := 0x44 + wordAt input 0x48, table := 0x70, count := wordAt input 0x68 }
        (wordAt input 0x1C)

def DcpEdgeInBounds (grants : Prop) : Prop :=
  let dca := 0x30 + wordAt input 0x28
  0x20 + 12 ≤ input.length → tagAt input 0x20 (dcxTag "DCS") = true → grants →
    dca + 0x28 ≤ input.length → tagAt input dca (dcxTag "DCA") = true →
    tagAt input (dca + 8) (dcxTag "EgdT") = true →
      EdgeInBounds codecs input
        { dataStart := 0x30, table := dca + 0x28, count := wordAt input (dca + 0x20) }
        (wordAt input 0x24)

/-- What the decoder does once it knows the table. -/
theorem avoids_edge (edge : EdgeTable) {usize : Nat} {dst : List UInt8} {heap : Heap}
    (hdst : dst.length = if usize = 0 then 1 else usize) :
    Avoids .undefinedBehaviour (do
      check (edge.count ≤ 0x100000 ∧ edge.table + edge.count * 16 ≤ input.length) .truncated
      let dst ← edgeChunks codecs input edge usize edge.count 0 0 dst
      pure (dst.take usize)) heap ↔ EdgeInBounds codecs input edge usize := by
  rw [avoids_check (by decide)]
  refine forall_congr' fun htable => ?_
  have hmax : dst.length = max usize 1 := by
    rw [hdst]
    split <;> omega
  rw [avoids_bind, avoids_edgeChunks codecs input edge usize edge.count 0 0 dst heap hmax
    (by rw [Nat.zero_add]; exact htable.2)]
  simp

theorem avoids_decompressEdge_dcx {heap : Heap} :
    Avoids .undefinedBehaviour (decompressEdge codecs input true) heap ↔
      DcxEdgeInBounds codecs input heap.Grants := by
  unfold decompressEdge DcxEdgeInBounds
  simp only [if_true]
  rw [avoids_check (by decide)]
  refine forall_congr' fun hsize => ?_
  have hlen : 0x18 + 12 ≤ input.length := hsize
  rw [avoids_hasTag, and_iff_right (by omega), avoids_check (by decide)]
  refine forall_congr' fun htag => ?_
  rw [avoids_be32, and_iff_right (by omega), avoids_be32, and_iff_right (by omega)]
  refine avoids_allocBlock fun dst heap' hdst => ?_
  rw [dcxEdgeTable, bind_assoc, avoids_check (by decide)]
  refine forall_congr' fun hlong => ?_
  simp only [bind_assoc]
  rw [avoids_hasTag, and_iff_right (by omega), avoids_check (by decide), forall_prop_of_true htag,
    avoids_hasTag, and_iff_right (by omega), avoids_check (by decide)]
  refine forall_congr' fun _ => ?_
  rw [avoids_hasTag, and_iff_right (by omega), avoids_check (by decide)]
  refine forall_congr' fun _ => ?_
  rw [avoids_be32, and_iff_right (by omega), avoids_be32]
  simp only [pure_bind]
  exact and_congr_right' (avoids_edge codecs input
    { dataStart := 0x44 + wordAt input 0x48, table := 0x70, count := wordAt input 0x68 } hdst)

theorem avoids_decompressEdge_dcp {heap : Heap} :
    Avoids .undefinedBehaviour (decompressEdge codecs input false) heap ↔
      DcpEdgeInBounds codecs input heap.Grants := by
  unfold decompressEdge DcpEdgeInBounds
  simp only [Bool.false_eq_true, if_false]
  rw [avoids_check (by decide)]
  refine forall_congr' fun hsize => ?_
  have hlen : 0x20 + 12 ≤ input.length := hsize
  rw [avoids_hasTag, and_iff_right (by omega), avoids_check (by decide)]
  refine forall_congr' fun htag => ?_
  rw [avoids_be32, and_iff_right (by omega), avoids_be32, and_iff_right (by omega)]
  refine avoids_allocBlock fun dst heap' hdst => ?_
  rw [dcpEdgeTable, bind_assoc, avoids_check (by decide)]
  refine forall_congr' fun hlong => ?_
  simp only [bind_assoc]
  rw [avoids_hasTag, and_iff_right (by omega), avoids_check (by decide)]
  refine forall_congr' fun _ => ?_
  rw [avoids_hasTag, and_iff_right (by omega), avoids_check (by decide)]
  refine forall_congr' fun _ => ?_
  rw [avoids_be32, and_iff_right (by omega)]
  simp only [pure_bind]
  exact avoids_edge codecs input
    { dataStart := 0x30, table := 0x30 + wordAt input 0x28 + 0x28,
      count := wordAt input (0x30 + wordAt input 0x28 + 0x20) } hdst

/-! ## The whole decoder -/

/-- The type of the first tag that stands at `off`. -/
def firstTagOf (off : Nat) (tags : List (List UInt8 × DcxType)) : DcxType :=
  ((tags.find? fun entry => tagAt input off entry.1).map Prod.snd).getD .unknown

/-- What `sf_dcx_sniff` answers. -/
def dcxTypeOf : DcxType :=
  if input.length < 4 then .unknown
  else if tagAt input 0 (dcxTag "DCP") then
    if 8 ≤ input.length then
      firstTagOf input 4 [(dcxTag "DFLT", .dcpDflt), (dcxTag "EDGE", .dcpEdge)]
    else .unknown
  else if tagAt input 0 (dcxTag "DCX") then
    if 0x2C ≤ input.length then
      firstTagOf input 0x28 [(dcxTag "EDGE", .dcxEdge), (dcxTag "DFLT", .dcxDflt),
        (dcxTag "KRAK", .dcxKrak), (dcxTag "ZSTD", .dcxZstd)]
    else .unknown
  else if octetAt input 0 = 0x78 ∧ zlibLevels.contains (octetAt input 1) = true then .zlib
  else .unknown

theorem firstTag_run {off : Nat} (h : off + 4 ≤ input.length) (tags : List (List UInt8 × DcxType))
    (heap : Heap) : firstTag input off tags heap = (.ok (firstTagOf input off tags), heap) := by
  induction tags with
  | nil => rfl
  | cons entry rest ih =>
      unfold firstTag firstTagOf
      rw [hasTag_bind h, List.find?_cons]
      rcases tagAt input off entry.1 with _ | _
      · exact ih
      · rfl

theorem dcxSniff_run (heap : Heap) : dcxSniff input heap = (.ok (dcxTypeOf input), heap) := by
  unfold dcxSniff dcxTypeOf
  split
  · rfl
  next hlen =>
    rw [hasTag_bind (by omega)]
    split
    · split
      · exact firstTag_run input (by omega) _ heap
      · rfl
    · rw [hasTag_bind (by omega)]
      split
      · split
        · exact firstTag_run input (by omega) _ heap
        · rfl
      · rw [byteAt_bind (by omega), byteAt_bind (by omega)]
        rfl

/-- How much of a container `read_compression_info` looks at, and what it finds there. -/
def dcxInfoSize : DcxType → Nat
  | .dcxDflt => 0x39
  | .dcxKrak => 0x31
  | .dcxZstd => 0x31
  | _ => 0

def dcxInfoOf : DcxType → DcxCompressionInfo
  | .unknown => .unknown
  | .none => .none
  | .zlib => .zlib
  | .dcpEdge => .dcpEdge
  | .dcpDflt => .dcpDflt
  | .dcxEdge => .dcxEdge
  | .dcxDflt => .dcxDflt (UInt32.ofNat (wordAt input 0x04)).toInt32
      (UInt32.ofNat (wordAt input 0x10)).toInt32 (UInt32.ofNat (wordAt input 0x14)).toInt32
      (octetAt input 0x30) (octetAt input 0x38)
  | .dcxKrak => .dcxKrak (octetAt input 0x30) oodleKraken
  | .dcxZstd => .dcxZstd (octetAt input 0x30)

theorem type_dcxInfoOf (type : DcxType) : (dcxInfoOf input type).type = type := by
  rcases type <;> rfl

theorem readCompressionInfo_run (hlen : dcxInfoSize (dcxTypeOf input) ≤ input.length) (heap : Heap) :
    readCompressionInfo input heap = (.ok (dcxInfoOf input (dcxTypeOf input)), heap) := by
  unfold readCompressionInfo
  rw [bind_ok (dcxSniff_run input heap)]
  generalize dcxTypeOf input = type at hlen ⊢
  rcases type <;> try rfl
  case dcxDflt =>
    have hlen : 0x39 ≤ input.length := hlen
    simp only [check_bind_pos hlen]
    rw [be32_bind (by omega), be32_bind (by omega), be32_bind (by omega), byteAt_bind (by omega),
      byteAt_bind (by omega)]
    rfl
  all_goals
    have hlen : 0x31 ≤ input.length := hlen
    simp only [check_bind_pos hlen]
    rw [byteAt_bind (by omega)]
    rfl

theorem readCompressionInfo_truncated (hlen : ¬ dcxInfoSize (dcxTypeOf input) ≤ input.length)
    (heap : Heap) : readCompressionInfo input heap = (.error .truncated, heap) := by
  unfold readCompressionInfo
  rw [bind_ok (dcxSniff_run input heap)]
  generalize dcxTypeOf input = type at hlen ⊢
  rcases type <;> first
    | exact absurd (Nat.zero_le _) hlen
    | exact check_bind_neg hlen _ _ _

/-- **The inputs on which the decoder stays in its buffers**, `grants` telling whether the allocator
    grants the block for the output. -/
def DcxInBounds (grants : Prop) : Prop :=
  match dcxTypeOf input with
  | .dcpDflt => 0x30 ≤ input.length → ZlibInBounds input grants 0x2C (wordAt input 0x28)
  | .dcpEdge => DcpEdgeInBounds codecs input grants
  | .dcxEdge => DcxEdgeInBounds codecs input grants
  | .dcxDflt => 0x4C ≤ input.length → ZlibInBounds input grants 0x4C (wordAt input 0x20)
  | .dcxKrak => 0x4C ≤ input.length → grants → codecs.oodleLoads = true →
      0x4C + wordAt input 0x20 ≤ input.length
  | .dcxZstd => 0x4C ≤ input.length → grants → 0x4C + wordAt input 0x20 ≤ input.length
  | _ => True

theorem avoids_dcxDecompressFromBuffer (heap : Heap) :
    Avoids .undefinedBehaviour (dcxDecompressFromBuffer codecs input) heap ↔
      DcxInBounds codecs input heap.Grants := by
  have hpayload : ∀ info : DcxCompressionInfo, info.type = dcxTypeOf input →
      (Avoids .undefinedBehaviour (decompressPayload codecs input info.type) heap ↔
        DcxInBounds codecs input heap.Grants) := by
    intro info htype
    rw [htype, DcxInBounds]
    rcases dcxTypeOf input <;> unfold decompressPayload
    case zlib => exact iff_of_true (avoids_plainZlibTries codecs input _ _ heap) trivial
    case dcpEdge => exact avoids_decompressEdge_dcp codecs input
    case dcxEdge => exact avoids_decompressEdge_dcx codecs input
    case dcpDflt =>
      rw [avoids_check (by decide)]
      refine forall_congr' fun hlen => ?_
      rw [avoids_be32, and_iff_right (by omega), avoids_be32, and_iff_right (by omega)]
      exact avoids_zlibDecompress codecs input
    case dcxDflt =>
      rw [avoids_check (by decide)]
      refine forall_congr' fun hlen => ?_
      rw [avoids_be32, and_iff_right (by omega), avoids_be32, and_iff_right (by omega)]
      exact avoids_zlibDecompress codecs input
    case dcxKrak =>
      rw [avoids_check (by decide)]
      refine forall_congr' fun hlen => ?_
      rw [avoids_be32, and_iff_right (by omega)]
      refine avoids_allocBlock fun buf heap' hbuf => ?_
      rw [avoids_be32, and_iff_right (by omega)]
      exact avoids_oodleDecompress codecs input hbuf
    case dcxZstd =>
      rw [avoids_check (by decide)]
      refine forall_congr' fun hlen => ?_
      rw [avoids_be32, and_iff_right (by omega), avoids_be32, and_iff_right (by omega)]
      exact avoids_zstdDecompress codecs input
    all_goals simp
  unfold dcxDecompressFromBuffer
  by_cases hlen : dcxInfoSize (dcxTypeOf input) ≤ input.length
  · rw [Avoids, bind_ok (readCompressionInfo_run input hlen heap),
      ← hpayload _ (type_dcxInfoOf input (dcxTypeOf input))]
    show Avoids SfError.undefinedBehaviour _ heap ↔ _
    rw [avoids_bind]
    simp
  · -- what is too short for its info is too short for its payload
    rw [Avoids, bind_error (readCompressionInfo_truncated input hlen heap), DcxInBounds]
    rcases htype : dcxTypeOf input <;> rw [htype] at hlen <;> simp only [dcxInfoSize] at hlen <;>
      simp <;> omega

/-- **The decoder stays in its buffers exactly on the inputs that are in bounds.** -/
theorem dcx_stays_in_its_buffers_iff (codecs : Codecs) (input : List UInt8) (heap : Heap) :
    (dcxDecompressFromBuffer codecs input heap).1 ≠ .error .undefinedBehaviour ↔
      DcxInBounds codecs input heap.Grants := avoids_dcxDecompressFromBuffer codecs input heap

end

/-- A header for a payload of one byte, and nothing behind it. -/
def dcxHeaderOnly : List UInt8 := wrapDcxHeader (dcxHeader (.dcxZstd 15)) 1 1

/-- The codec is given a byte behind the input. -/
theorem dcx_header_only_leaves_its_buffer :
    (dcxDecompressFromBuffer failingCodecs dcxHeaderOnly []).1 = .error .undefinedBehaviour := by
  decide +kernel

end SoulsFormats
