import SoulsFormats.Compression.DcxPayload
import Mathlib.Data.List.Perm.Basic
import Mathlib.Tactic.Linarith

set_option autoImplicit false

/-! # The DCX containers that hold EDGE chunks

`wrap_edge` stores the text in chunks, none of which it compresses. All chunks but the last one are full,
so that the `i`-th of them starts at `i * 0x10000`, in the text and in the container. The decoder puts
them together again, whatever the length of the text. -/

namespace SoulsFormats

open Bytes Fallible

/-! ## The chunks of a text -/

section

variable {n : Nat}

/-- There is at least one chunk, all but the last are full, and together they hold the text. -/
theorem edgeCount_spec (hn : n < 2 ^ 32) :
    0 < edgeCount n ∧ edgeCount n * 0x10000 ≤ n + 0x10000 ∧ n ≤ edgeCount n * 0x10000 := by
  have hmod : (n + 0xFFFF) / 0x10000 % 2 ^ 32 = (n + 0xFFFF) / 0x10000 := Nat.mod_eq_of_lt (by omega)
  unfold edgeCount
  simp only [hmod]
  split <;> omega

theorem edgeChunkSize_full {i : Nat} (h : (i + 1) * 0x10000 ≤ n) : edgeChunkSize n i = 0x10000 := by
  unfold edgeChunkSize
  omega

theorem edgeChunkSize_last {i : Nat} (h : n ≤ (i + 1) * 0x10000) :
    edgeChunkSize n i = n - i * 0x10000 := by
  unfold edgeChunkSize
  omega

theorem edgeCount_le (hn : n < 2 ^ 32) : edgeCount n ≤ 0x10000 := by
  obtain ⟨-, hfull, -⟩ := edgeCount_spec hn
  by_contra hlarge
  linarith

/-- Where a chunk starts and ends, in the text and for the decoder. -/
theorem edgeChunkSize_spec {i : Nat} (hn : n < 2 ^ 32) (hi : i < edgeCount n) :
    i * 0x10000 ≤ n ∧ i * 0x10000 + edgeChunkSize n i = min ((i + 1) * 0x10000) n ∧
      edgeChunkUsize n (i * 0x10000) = edgeChunkSize n i := by
  obtain ⟨-, hfull, -⟩ := edgeCount_spec hn
  have hstart : i * 0x10000 ≤ n := by linarith
  unfold edgeChunkUsize edgeChunkSize
  omega

/-- What the loop of `wrap_edge` stores: it comes to the `i`-th chunk with `i * 0x10000` bytes placed. -/
theorem edgeLoop_eq (body : Nat → Nat → List Store) {i count : Nat}
    (hfull : (i + count) * 0x10000 ≤ n + 0x10000) :
    edgeLoop n body count i (i * 0x10000)
      = (List.range' i count).flatMap fun j => body j (j * 0x10000) := by
  induction count generalizing i with
  | zero => rfl
  | succ count ih =>
      rw [edgeLoop, List.range'_succ, List.flatMap_cons]
      congr 1
      cases count with
      | zero => rfl
      | succ count =>
          -- another chunk follows this one, which is full
          have hthis : (i + 1) * 0x10000 ≤ n := by linarith
          have hrest : (i + 1 + (count + 1)) * 0x10000 ≤ n + 0x10000 := by linarith
          have hoff : i * 0x10000 + align16 0x10000 = (i + 1) * 0x10000 := by
            rw [Nat.succ_mul, align16]
          rw [edgeChunkSize_full hthis, hoff]
          exact ih hrest

theorem edgePadded_eq {i count : Nat} (hcount : 0 < count)
    (hfull : (i + count) * 0x10000 ≤ n + 0x10000) (hall : n ≤ (i + count) * 0x10000) :
    edgePadded n count i = align16 (n - i * 0x10000) := by
  induction count generalizing i with
  | zero => omega
  | succ count ih =>
      rw [edgePadded]
      cases count with
      | zero =>
          rw [edgeChunkSize_last hall]
          rfl
      | succ count =>
          have hthis : (i + 1) * 0x10000 ≤ n := by linarith
          have hfull' : (i + 1 + (count + 1)) * 0x10000 ≤ n + 0x10000 := by linarith
          have hall' : n ≤ (i + 1 + (count + 1)) * 0x10000 := by linarith
          rw [edgeChunkSize_full hthis, ih (Nat.succ_pos _) hfull' hall']
          unfold align16
          omega

/-- The padded size of all the chunks. -/
theorem edgePadded_edgeCount (hn : n < 2 ^ 32) : edgePadded n (edgeCount n) 0 = align16 n := by
  obtain ⟨hpos, hfull, hall⟩ := edgeCount_spec hn
  rw [← Nat.zero_add (edgeCount n)] at hfull hall
  rw [edgePadded_eq hpos hfull hall, Nat.zero_mul, Nat.sub_zero]

end

/-! ## What is stored -/

section

variable (x : List UInt8)

/-- The bytes of a chunk. -/
def edgeBytes (i : Nat) : List UInt8 := (x.drop (i * 0x10000)).take (edgeChunkSize x.length i)

@[simp] theorem length_edgeBytes (i : Nat) : (edgeBytes x i).length = edgeChunkSize x.length i := by
  simp only [edgeBytes, edgeChunkSize, List.length_take, List.length_drop]
  omega

theorem edgeData_eq (start i off : Nat) :
    edgeData x start i off = if 0 < edgeChunkSize x.length i then [(start + off, edgeBytes x i)] else [] :=
  rfl

/-- The chunks up to the `i`-th, and the `i`-th. -/
theorem take_append_edgeBytes (i : Nat) :
    x.take (i * 0x10000) ++ edgeBytes x i = x.take ((i + 1) * 0x10000) := by
  have hsize : (i + 1) * 0x10000 = i * 0x10000 + 0x10000 := by omega
  rw [hsize, List.take_add, edgeBytes, edgeChunkSize]
  congr 1
  rw [min_comm, ← List.take_take, ← List.length_drop, List.take_length]

end

section

variable {x : List UInt8} {table start : Nat}

/-- The entries of a table. -/
def edgeTableStores (x : List UInt8) (table : Nat) : List Store :=
  (List.range' 0 (edgeCount x.length)).flatMap fun i => edgeEntry x.length table i (i * 0x10000)

/-- The chunks, one after another. -/
def edgeDataStores (x : List UInt8) (start : Nat) : List Store :=
  (List.range' 0 (edgeCount x.length)).flatMap fun i => edgeData x start i (i * 0x10000)

theorem laid_edgeTableStores :
    Laid table (table + edgeCount x.length * 16) (edgeTableStores x table) := by
  have h : ∀ j, 0 ≤ j → j < 0 + edgeCount x.length →
      Laid (table + j * 16) (table + (j + 1) * 16) (edgeEntry x.length table j (j * 0x10000)) := by
    intro j _ _
    simp [edgeEntry, length_be32Bytes]
    omega
  simpa [edgeTableStores] using Laid.flatMap (fun i => edgeEntry x.length table i (i * 0x10000))
    (fun i => table + i * 16) h

theorem laid_edgeDataStores (hx : x.length < 2 ^ 32) :
    Laid start (start + x.length) (edgeDataStores x start) := by
  obtain ⟨-, hfull, hall⟩ := edgeCount_spec hx
  have h : ∀ j, 0 ≤ j → j < 0 + edgeCount x.length →
      Laid (start + min (j * 0x10000) x.length) (start + min ((j + 1) * 0x10000) x.length)
        (edgeData x start j (j * 0x10000)) := by
    intro j _ hj
    rw [edgeData_eq]
    split
    · simp only [laid_cons, laid_nil, length_edgeBytes, edgeChunkSize]
      omega
    · rw [laid_nil]
      omega
  have hall' := Laid.flatMap (fun i => edgeData x start i (i * 0x10000))
    (fun i => start + min (i * 0x10000) x.length) h
  rw [Nat.zero_add, min_eq_right hall] at hall'
  exact hall'.mono (by simp)

theorem mem_edgeTableStores {s : Store} :
    s ∈ edgeTableStores x table ↔
      ∃ i < edgeCount x.length, s ∈ edgeEntry x.length table i (i * 0x10000) := by
  simp [edgeTableStores, List.mem_flatMap]

theorem mem_edgeDataStores {s : Store} :
    s ∈ edgeDataStores x start ↔
      ∃ i < edgeCount x.length, s ∈ edgeData x start i (i * 0x10000) := by
  simp [edgeDataStores, List.mem_flatMap]

/-- The last word of an entry is not written. -/
theorem apart_edgeTableStores {s : Store} (hs : s ∈ edgeTableStores x table) (i : Nat) :
    Apart s (table + i * 16 + 12, [0, 0, 0, 0]) := by
  obtain ⟨j, -, hs⟩ := mem_edgeTableStores.1 hs
  simp only [edgeEntry, List.mem_cons, List.not_mem_nil, or_false] at hs
  rcases hs with rfl | rfl <;> simp only [Apart, length_be32Bytes, List.length_cons, List.length_nil] <;>
    omega

end

/-! ## What the decoder makes of it -/

/-- A container that holds the chunks of a text from `start` on, and their entries from `table` on. -/
structure EdgeStored (x out : List UInt8) (table start : Nat) : Prop where
  off : ∀ i < edgeCount x.length, Holds out (table + i * 16 + 4) (be32Bytes (i * 0x10000))
  size : ∀ i < edgeCount x.length, Holds out (table + i * 16 + 8) (be32Bytes (edgeChunkSize x.length i))
  comp : ∀ i < edgeCount x.length, Holds out (table + i * 16 + 12) [0, 0, 0, 0]
  data : ∀ i < edgeCount x.length, Holds out (start + i * 0x10000) (edgeBytes x i)

section

variable {codecs : Codecs} {x out : List UInt8} {table start : Nat} {heap : Heap}

theorem wordAt_zero {off : Nat} (h : Holds out off [0, 0, 0, 0]) : wordAt out off = 0 := by
  have hword : be32Bytes 0 = [0, 0, 0, 0] := by decide
  rw [← hword] at h
  exact wordAt_of_holds h

/-- The loop over the chunks: the text up to the `i`-th of them is in the output. -/
theorem edgeChunks_of_stored (codecs : Codecs) (heap : Heap) (h : EdgeStored x out table start) (hx : x.length < 2 ^ 32) {count i : Nat}
    (hcount : i + count = edgeCount x.length) {dst : List UInt8} (hroom : x.length ≤ dst.length)
    (hdst : Holds dst 0 (x.take (i * 0x10000))) :
    ∃ dst', edgeChunks codecs out { dataStart := start, table := table, count := edgeCount x.length }
      x.length count i (min (i * 0x10000) x.length) dst heap = (.ok dst', heap) ∧ dst'.take x.length = x := by
  induction count generalizing i dst with
  | zero =>
      obtain ⟨-, -, hall⟩ := edgeCount_spec hx
      rw [← hcount, Nat.add_zero] at hall
      rw [List.take_of_length_le hall] at hdst
      have htake := hdst.take_drop
      exact ⟨dst, rfl, by rwa [List.drop_zero] at htake⟩
  | succ count ih =>
      have hi : i < edgeCount x.length := by omega
      obtain ⟨hstart, hnext, husize⟩ := edgeChunkSize_spec hx hi
      have hoff := h.off i hi
      have hsize := h.size i hi
      have hcomp := h.comp i hi
      have hdata := h.data i hi
      have hbytes := hdata.take_drop
      have hoffle := hoff.le
      have hcomple := hcomp.le
      have hdatale := hdata.le
      rw [length_be32Bytes] at hoffle
      rw [length_edgeBytes] at hdatale hbytes
      have hdst' : Holds (overwrite dst (i * 0x10000) (edgeBytes x i)) 0 (x.take ((i + 1) * 0x10000)) := by
        have hlen : (x.take (i * 0x10000)).length = i * 0x10000 := List.length_take_of_le hstart
        rw [← take_append_edgeBytes, holds_append, hlen, Nat.zero_add]
        exact ⟨hdst.overwrite (.inl (by rw [hlen, Nat.zero_add])), holds_overwrite_self _ _ _⟩
      have hroom' : x.length ≤ (overwrite dst (i * 0x10000) (edgeBytes x i)).length := by
        rw [length_overwrite]
        exact hroom.trans (Nat.le_max_left _ _)
      obtain ⟨dst', hrun, htake⟩ := ih (by rw [← hcount, Nat.add_right_comm, Nat.add_assoc]) hroom' hdst'
      refine ⟨dst', ?_, htake⟩
      rw [← hnext] at hrun
      unfold edgeChunks
      rw [min_eq_left hstart, be32_bind hoffle, be32_bind (by simpa using hsize.le), be32_bind hcomple,
        wordAt_of_holds hoff, wordAt_of_holds hsize, wordAt_zero hcomp, husize, if_neg (by simp)]
      -- from here on only the chunk's size matters
      clear hoff hsize hcomp hdata hdst' hroom' htake husize ih
      generalize edgeBytes x i = bytes at *
      generalize edgeChunkSize x.length i = size at *
      have hfits : i * 0x10000 + size ≤ x.length := hnext.trans_le (Nat.min_le_right _ _)
      rw [Nat.mod_eq_of_lt (hstart.trans_lt hx), Nat.mod_eq_of_lt (by omega), check_bind_pos ⟨hdatale, hfits⟩,
        inputAt_bind hdatale, hbytes]
      unfold outputAt
      rw [check_bind_pos (hfits.trans hroom)]
      exact hrun

end

/-! ## The two containers -/

section

variable {codecs : Codecs} {x out : List UInt8} {heap : Heap}

theorem edgeLoop_edgeCount (hx : x.length < 2 ^ 32) (body : Nat → Nat → List Store) :
    edgeLoop x.length body (edgeCount x.length) 0 0
      = (List.range' 0 (edgeCount x.length)).flatMap fun i => body i (i * 0x10000) := by
  obtain ⟨-, hfull, -⟩ := edgeCount_spec hx
  rw [← Nat.zero_add (edgeCount x.length)] at hfull
  exact edgeLoop_eq body hfull

/-- The stores of a container, of which only those of a table leave gaps between `table` and its end. -/
theorem edgeStored_of_stores {stores : List Store} {table start size : Nat} (hx : x.length < 2 ^ 32)
    (hpair : stores.Pairwise Apart) (hin : ∀ s ∈ stores, s.1 + s.2.length ≤ size)
    (htable : ∀ s ∈ edgeTableStores x table, s ∈ stores)
    (hdata : ∀ s ∈ edgeDataStores x start, s ∈ stores)
    (hrest : ∀ s ∈ stores, s ∈ edgeTableStores x table ∨ s.1 + s.2.length ≤ table ∨
      table + edgeCount x.length * 16 ≤ s.1)
    (htablein : table + edgeCount x.length * 16 ≤ size) (hstart : start + x.length ≤ size) :
    EdgeStored x (applyStores (List.replicate size 0) stores) table start := by
  have hentry : ∀ i < edgeCount x.length, ∀ s ∈ edgeEntry x.length table i (i * 0x10000),
      Holds (applyStores (List.replicate size 0) stores) s.1 s.2 := fun i hi s hs =>
    holds_applyStores hpair (htable s (mem_edgeTableStores.2 ⟨i, hi, hs⟩))
  constructor
  · intro i hi
    exact hentry i hi (table + i * 16 + 4, be32Bytes (i * 0x10000)) (by simp [edgeEntry])
  · intro i hi
    exact hentry i hi (table + i * 16 + 8, be32Bytes (edgeChunkSize x.length i)) (by simp [edgeEntry])
  · intro i hi
    have hzero : Holds (List.replicate size (0 : UInt8)) (table + i * 16 + 12) [0, 0, 0, 0] := by
      refine ⟨List.replicate (table + i * 16 + 12) 0, List.replicate (size - (table + i * 16 + 16)) 0, ?_,
        by simp⟩
      rw [show [(0 : UInt8), 0, 0, 0] = List.replicate 4 0 from rfl, ← List.replicate_add,
        ← List.replicate_add]
      congr 1
      omega
    refine hzero.applyStores fun s hs => ?_
    rcases hrest s hs with hs | hbefore | hbehind
    · exact apart_edgeTableStores hs i
    · exact .inl (by omega)
    · exact .inr (by simp; omega)
  · intro i hi
    obtain ⟨hbegin, -, -⟩ := edgeChunkSize_spec hx hi
    by_cases hsize : 0 < edgeChunkSize x.length i
    · refine holds_applyStores hpair (hdata (start + i * 0x10000, edgeBytes x i) ?_)
      refine mem_edgeDataStores.2 ⟨i, hi, ?_⟩
      rw [edgeData_eq, if_pos hsize]
      exact List.mem_singleton.2 rfl
    · have hnil : edgeBytes x i = [] := List.eq_nil_of_length_eq_zero (by simp; omega)
      rw [hnil, holds_nil, length_applyStores (by simpa using hin), List.length_replicate]
      omega

theorem laid_dcxEdgeHeader (inSize chunks padded : Nat) :
    Laid 0 112 (dcxEdgeHeader inSize chunks padded) := by
  have htags : (dcxTag "DCX").length = 4 ∧ (dcxTag "DCS").length = 4 ∧ (dcxTag "DCP").length = 4 ∧
      (dcxTag "EDGE").length = 4 ∧ (dcxTag "DCA").length = 4 ∧ (dcxTag "EgdT").length = 4 := by decide
  simp [dcxEdgeHeader, htags]

theorem laid_dcpEdgeHeader (inSize padded : Nat) : Laid 0 48 (dcpEdgeHeader inSize padded) := by
  have htags : (dcxTag "DCP").length = 4 ∧ (dcxTag "EDGE").length = 4 ∧ (dcxTag "DCS").length = 4 := by
    decide
  simp [dcpEdgeHeader, htags]

theorem laid_dcpEdgeTrailer (dcaPos chunks dca : Nat) :
    Laid dcaPos (dcaPos + 40) (dcpEdgeTrailer dcaPos chunks dca) := by
  have htags : (dcxTag "DCA").length = 4 ∧ (dcxTag "EgdT").length = 4 := by decide
  simp [dcpEdgeTrailer, htags]

/-- The entries and the chunks are stored in turns, but they are two regions of the container. -/
theorem wrapDcxEdge_perm (hx : x.length < 2 ^ 32) (padded : Nat) :
    (wrapDcxEdge x (edgeCount x.length) padded).Perm
      (dcxEdgeHeader x.length (edgeCount x.length) padded
        ++ (edgeTableStores x 112 ++ edgeDataStores x (112 + edgeCount x.length * 16))) := by
  rw [wrapDcxEdge, edgeLoop_edgeCount hx]
  exact (List.flatMap_append_perm _ _ _).symm.append_left _

theorem laid_wrapDcxEdge (hx : x.length < 2 ^ 32) (padded : Nat) :
    Laid 0 (112 + edgeCount x.length * 16 + x.length)
      (dcxEdgeHeader x.length (edgeCount x.length) padded
        ++ (edgeTableStores x 112 ++ edgeDataStores x (112 + edgeCount x.length * 16))) :=
  (laid_dcxEdgeHeader ..).append (laid_edgeTableStores.append (laid_edgeDataStores hx))

theorem wrapDcpEdge_eq (hx : x.length < 2 ^ 32) (padded dca : Nat) :
    wrapDcpEdge x (edgeCount x.length) padded dca
      = dcpEdgeHeader x.length padded ++ edgeDataStores x 48
        ++ dcpEdgeTrailer (48 + padded) (edgeCount x.length) dca
        ++ edgeTableStores x (48 + padded + 40) := by
  rw [wrapDcpEdge, edgeLoop_edgeCount hx, edgeLoop_edgeCount hx]
  rfl

theorem laid_wrapDcpEdge (hx : x.length < 2 ^ 32) {padded : Nat} (hpadded : x.length ≤ padded) (dca : Nat) :
    Laid 0 (48 + padded + 40 + edgeCount x.length * 16)
      (wrapDcpEdge x (edgeCount x.length) padded dca) := by
  rw [wrapDcpEdge_eq hx]
  have htrailer := laid_dcpEdgeTrailer (48 + padded) (edgeCount x.length) dca
  have hdata : Laid 48 (48 + x.length) (edgeDataStores x 48) := laid_edgeDataStores hx
  have hfront := (laid_dcpEdgeHeader x.length padded).append hdata
  exact (hfront.append (htrailer.mono (by omega))).append laid_edgeTableStores

/-- The run of the decoder once the header has been read. -/
theorem decompressEdge_of_stored (dcx : Bool) {csize dataStart table : Nat} (hx : x.length < 2 ^ 32)
    (hpos : (if dcx then 0x18 else 0x20) + 12 ≤ out.length)
    (hdcs : Holds out (if dcx then 0x18 else 0x20) (dcxTag "DCS"))
    (husize : Holds out ((if dcx then 0x18 else 0x20) + 4) (be32Bytes x.length))
    (hcsize : Holds out ((if dcx then 0x18 else 0x20) + 8) (be32Bytes csize))
    (htable : ∀ heap : Heap, (if dcx then dcxEdgeTable out else dcpEdgeTable out (csize % 2 ^ 32)) heap
      = (.ok { dataStart := dataStart, table := table, count := edgeCount x.length }, heap))
    (hend : table + edgeCount x.length * 16 ≤ out.length) (h : EdgeStored x out table dataStart)
    (hcalm : heap.Calm) : (decompressEdge codecs out dcx heap).1 = .ok x := by
  obtain ⟨buf, heap', halloc, hbuf, -⟩ := allocBlock_calm x.length hcalm
  obtain ⟨dst', hrun, htake⟩ := edgeChunks_of_stored codecs heap' h hx
    (i := 0) (Nat.zero_add _) hbuf (by simp [holds_nil])
  have hcount := edgeCount_le hx
  rw [Nat.zero_mul, Nat.zero_min] at hrun
  have hok : dcxTag "DCS" == dcxTag "DCS" := beq_self_eq_true _
  unfold decompressEdge
  simp only
  rw [check_bind_pos hpos, hasTag_bind (by omega), tagAt_of_holds (by decide) hdcs, check_bind_pos hok,
    be32_bind (by omega), be32_bind (by omega), wordAt_of_holds husize, wordAt_of_holds hcsize,
    Nat.mod_eq_of_lt hx, bind_ok halloc]
  have htable' := htable heap'
  -- each of the two containers has a table of its own
  cases dcx <;> simp only [Bool.false_eq_true, if_false, if_true] at htable' ⊢ <;>
    rw [bind_ok htable', check_bind_pos ⟨hcount.trans (by decide), hend⟩, bind_ok hrun, htake] <;>
    rfl

/-- What the encoder produces: the stores of a container in a buffer of zeros. -/
theorem wrapEdge_eq_ok {dcx : Bool} (hx : x.length < 2 ^ 32) (h : (wrapEdge x dcx heap).1 = .ok out) :
    out = if dcx then
        applyStores (List.replicate (0x70 + edgeCount x.length * 16 + align16 x.length) 0)
          (wrapDcxEdge x (edgeCount x.length) (align16 x.length))
      else
        applyStores (List.replicate (0x30 + align16 x.length + (8 + 0x20 + edgeCount x.length * 16)) 0)
          (wrapDcpEdge x (edgeCount x.length) (align16 x.length) (8 + 0x20 + edgeCount x.length * 16)) := by
  unfold wrapEdge at h
  simp only [edgePadded_edgeCount hx] at h
  obtain ⟨junk, heap', -, hpure⟩ := bind_eq_ok.1 (Prod.ext h rfl)
  cases dcx
  · exact (Except.ok.inj (Prod.mk.inj hpure).1).symm
  · exact (Except.ok.inj (Prod.mk.inj hpure).1).symm

theorem wrapDcxEdge_decodes (hx : x.length < 2 ^ 32 - 16) (hok : (wrapEdge x true heap).1 = .ok out) :
    DcxDecodes codecs x .dcxEdge out := by
  have hx' : x.length < 2 ^ 32 := hx.trans_le (Nat.sub_le _ _)
  have hout := wrapEdge_eq_ok hx' hok
  rw [if_pos rfl] at hout
  have hpadded : x.length ≤ align16 x.length := by
    unfold align16
    omega
  have hperm := wrapDcxEdge_perm hx' (align16 x.length)
  have hlaid := laid_wrapDcxEdge hx' (align16 x.length)
  have hcount := edgeCount_le hx'
  have hmem : ∀ s, s ∈ wrapDcxEdge x (edgeCount x.length) (align16 x.length) ↔
      s ∈ dcxEdgeHeader x.length (edgeCount x.length) (align16 x.length) ∨ s ∈ edgeTableStores x 112 ∨
        s ∈ edgeDataStores x (112 + edgeCount x.length * 16) := by
    intro s
    rw [hperm.mem_iff, List.mem_append, List.mem_append]
  have hpair : (wrapDcxEdge x (edgeCount x.length) (align16 x.length)).Pairwise Apart :=
    (hperm.pairwise_iff Apart.symm).2 hlaid.pairwise
  have hin : ∀ s ∈ wrapDcxEdge x (edgeCount x.length) (align16 x.length),
      s.1 + s.2.length ≤ 0x70 + edgeCount x.length * 16 + align16 x.length := by
    intro s hs
    have hbounds := hlaid.bounds (hperm.mem_iff.1 hs)
    omega
  have hstored : EdgeStored x out 112 (112 + edgeCount x.length * 16) := by
    rw [hout]
    refine edgeStored_of_stores hx' hpair hin (fun s hs => (hmem s).2 (.inr (.inl hs)))
      (fun s hs => (hmem s).2 (.inr (.inr hs))) ?_ (by omega) (by omega)
    intro s hs
    rcases (hmem s).1 hs with hs | hs | hs
    · exact .inr (.inl ((laid_dcxEdgeHeader ..).bounds hs).2)
    · exact .inl hs
    · exact .inr (.inr ((laid_edgeDataStores hx').bounds hs).1)
  have hlen : out.length = 0x70 + edgeCount x.length * 16 + align16 x.length := by
    rw [hout, length_applyStores (by simpa using hin), List.length_replicate]
  have hheader : ∀ s ∈ dcxEdgeHeader x.length (edgeCount x.length) (align16 x.length),
      Holds out s.1 s.2 := by
    intro s hs
    rw [hout]
    exact holds_applyStores hpair ((hmem s).2 (.inl hs))
  have hmagic : Holds out 0 (dcxTag "DCX") := hheader (0, dcxTag "DCX") (by simp [dcxEdgeHeader])
  have hdcs : Holds out 0x18 (dcxTag "DCS") := hheader (24, dcxTag "DCS") (by simp [dcxEdgeHeader])
  have husize : Holds out 0x1C (be32Bytes x.length) :=
    hheader (28, be32Bytes x.length) (by simp [dcxEdgeHeader])
  have hcsize : Holds out 0x20 (be32Bytes (align16 x.length)) :=
    hheader (32, be32Bytes (align16 x.length)) (by simp [dcxEdgeHeader])
  have hname : Holds out 0x24 (dcxTag "DCP" ++ dcxTag "EDGE") :=
    hheader (36, dcxTag "DCP" ++ dcxTag "EDGE") (by simp [dcxEdgeHeader])
  have hdca : Holds out 0x48 (be32Bytes (0x24 + edgeCount x.length * 16 + 8)) :=
    hheader (72, be32Bytes (0x24 + edgeCount x.length * 16 + 8)) (by simp [dcxEdgeHeader])
  have hchunks : Holds out 0x68 (be32Bytes (edgeCount x.length)) :=
    hheader (104, be32Bytes (edgeCount x.length)) (by simp [dcxEdgeHeader])
  have hdcp : Holds out 0x24 (dcxTag "DCP") := (holds_append.1 hname).1
  have hedge : Holds out 0x28 (dcxTag "EDGE") := (holds_append.1 hname).2
  have hfour : (dcxTag "EDGE").length = 4 := by decide
  have htype : dcxTypeOf out = .dcxEdge := by
    unfold dcxTypeOf firstTagOf
    rw [if_neg (by omega), tagAt_of_holds (by decide) hmagic, tagAt_of_holds (by decide) hmagic,
      if_neg (by decide), if_pos (by decide), if_pos (by omega)]
    simp only [tagAt_of_holds hfour hedge]
    decide
  refine ⟨htype, fun heap' hcalm => ?_⟩
  rw [dcxDecompress_eq_ok htype (Nat.zero_le _) rfl]
  refine iff_of_true ?_ trivial
  refine decompressEdge_of_stored true hx' (by simp; omega) hdcs husize hcsize (fun heap => ?_)
    (by omega) hstored hcalm
  simp only [if_true]
  unfold dcxEdgeTable
  rw [check_bind_pos (by omega), hasTag_bind (by omega), tagAt_of_holds (by decide) hdcs,
    check_bind_pos (beq_self_eq_true _), hasTag_bind (by omega), tagAt_of_holds (by decide) hdcp,
    check_bind_pos (beq_self_eq_true _), hasTag_bind (by omega), tagAt_of_holds (by decide) hedge,
    check_bind_pos (beq_self_eq_true _)]
  simp only
  rw [be32_bind (by omega), be32_bind (by omega), wordAt_of_holds hdca, wordAt_of_holds hchunks,
    Nat.mod_eq_of_lt (by omega), Nat.mod_eq_of_lt (by omega), pure_run]
  congr 3
  omega

theorem wrapDcpEdge_decodes (hx : x.length < 2 ^ 32 - 16) (hok : (wrapEdge x false heap).1 = .ok out) :
    DcxDecodes codecs x .dcpEdge out := by
  have hx' : x.length < 2 ^ 32 := hx.trans_le (Nat.sub_le _ _)
  have hout := wrapEdge_eq_ok hx' hok
  rw [if_neg (by decide)] at hout
  have hpadded : x.length ≤ align16 x.length ∧ align16 x.length < 2 ^ 32 := by
    unfold align16
    omega
  have hcount := edgeCount_le hx'
  have heq := wrapDcpEdge_eq hx' (align16 x.length) (8 + 0x20 + edgeCount x.length * 16)
  have hlaid := laid_wrapDcpEdge hx' hpadded.1 (8 + 0x20 + edgeCount x.length * 16)
  generalize hstores : wrapDcpEdge x (edgeCount x.length) (align16 x.length)
    (8 + 0x20 + edgeCount x.length * 16) = stores at hout heq hlaid
  have hmem : ∀ s, s ∈ stores ↔ s ∈ dcpEdgeHeader x.length (align16 x.length) ∨
      s ∈ edgeDataStores x 48 ∨ s ∈ dcpEdgeTrailer (48 + align16 x.length) (edgeCount x.length)
        (8 + 0x20 + edgeCount x.length * 16) ∨ s ∈ edgeTableStores x (48 + align16 x.length + 40) := by
    intro s
    simp only [heq, List.mem_append, or_assoc]
  have hin : ∀ s ∈ stores,
      s.1 + s.2.length ≤ 0x30 + align16 x.length + (8 + 0x20 + edgeCount x.length * 16) := by
    intro s hs
    have hbounds := hlaid.bounds hs
    omega
  have hstored : EdgeStored x out (48 + align16 x.length + 40) 48 := by
    rw [hout]
    refine edgeStored_of_stores hx' hlaid.pairwise hin
      (fun s hs => (hmem s).2 (.inr (.inr (.inr hs)))) (fun s hs => (hmem s).2 (.inr (.inl hs))) ?_
      (by omega) (by omega)
    intro s hs
    rcases (hmem s).1 hs with hs | hs | hs | hs
    · have hbounds := (laid_dcpEdgeHeader ..).bounds hs
      exact .inr (.inl (by omega))
    · have hbounds := (laid_edgeDataStores hx').bounds hs
      exact .inr (.inl (by omega))
    · exact .inr (.inl ((laid_dcpEdgeTrailer ..).bounds hs).2)
    · exact .inl hs
  have hlen : out.length = 0x30 + align16 x.length + (8 + 0x20 + edgeCount x.length * 16) := by
    rw [hout, length_applyStores (by simpa using hin), List.length_replicate]
  have hheader : ∀ s ∈ dcpEdgeHeader x.length (align16 x.length), Holds out s.1 s.2 := by
    intro s hs
    rw [hout]
    exact holds_applyStores hlaid.pairwise ((hmem s).2 (.inl hs))
  have htrailer : ∀ s ∈ dcpEdgeTrailer (48 + align16 x.length) (edgeCount x.length)
      (8 + 0x20 + edgeCount x.length * 16), Holds out s.1 s.2 := by
    intro s hs
    rw [hout]
    exact holds_applyStores hlaid.pairwise ((hmem s).2 (.inr (.inr (.inl hs))))
  have hname : Holds out 0 (dcxTag "DCP" ++ dcxTag "EDGE") :=
    hheader (0, dcxTag "DCP" ++ dcxTag "EDGE") (by simp [dcpEdgeHeader])
  have hdcs : Holds out 0x20 (dcxTag "DCS") := hheader (32, dcxTag "DCS") (by simp [dcpEdgeHeader])
  have husize : Holds out 0x24 (be32Bytes x.length) :=
    hheader (36, be32Bytes x.length) (by simp [dcpEdgeHeader])
  have hcsize : Holds out 0x28 (be32Bytes (align16 x.length)) :=
    hheader (40, be32Bytes (align16 x.length)) (by simp [dcpEdgeHeader])
  have hdca : Holds out (48 + align16 x.length) (dcxTag "DCA") :=
    htrailer (48 + align16 x.length, dcxTag "DCA") (by simp [dcpEdgeTrailer])
  have hegdt : Holds out (48 + align16 x.length + 8) (dcxTag "EgdT") :=
    htrailer (48 + align16 x.length + 8, dcxTag "EgdT") (by simp [dcpEdgeTrailer])
  have hchunks : Holds out (48 + align16 x.length + 32) (be32Bytes (edgeCount x.length)) :=
    htrailer (48 + align16 x.length + 32, be32Bytes (edgeCount x.length)) (by simp [dcpEdgeTrailer])
  have hdcp : Holds out 0 (dcxTag "DCP") := (holds_append.1 hname).1
  have hedge : Holds out 4 (dcxTag "EDGE") := (holds_append.1 hname).2
  have hfour : (dcxTag "EDGE").length = 4 := by decide
  have htype : dcxTypeOf out = .dcpEdge := by
    unfold dcxTypeOf firstTagOf
    rw [if_neg (by omega), tagAt_of_holds (by decide) hdcp, if_pos (by decide), if_pos (by omega)]
    simp only [tagAt_of_holds hfour hedge]
    decide
  refine ⟨htype, fun heap' hcalm => ?_⟩
  rw [dcxDecompress_eq_ok htype (Nat.zero_le _) rfl]
  refine iff_of_true ?_ trivial
  refine decompressEdge_of_stored false hx' (by simp; omega) hdcs husize hcsize (fun heap => ?_)
    (by omega) hstored hcalm
  simp only [Bool.false_eq_true, if_false]
  unfold dcpEdgeTable
  rw [Nat.mod_eq_of_lt hpadded.2, check_bind_pos (by omega), hasTag_bind (by omega),
    tagAt_of_holds (by decide) hdca, check_bind_pos (beq_self_eq_true _), hasTag_bind (by omega),
    tagAt_of_holds (by decide) hegdt, check_bind_pos (beq_self_eq_true _), be32_bind (by omega), show 48 + align16 x.length + 8 + 24 = 48 + align16 x.length + 32 from rfl,
    wordAt_of_holds hchunks, Nat.mod_eq_of_lt (by omega), pure_run]

end

end SoulsFormats
