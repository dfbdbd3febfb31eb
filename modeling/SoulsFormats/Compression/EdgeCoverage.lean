import SoulsFormats.Compression.DcxBounds
import SoulsFormats.Library.Tiling

set_option autoImplicit false

/-! # What the chunks of an EDGE container fill

`decompress_edge` returns as many bytes as the header says, whatever its chunks have written, and a stored chunk is
copied with the size in its entry, whether the block has room for it or not. What the chunks store does not depend on
the block, so that it is a function of its own; it fills the result exactly if the sizes in the table do. -/

namespace SoulsFormats

open Bytes Fallible

section

variable (codecs : Codecs) (input : List UInt8)

/-! ## The stores of the chunks -/

/-- The bytes of a chunk: what a compressed one is decoded to, and a stored one as it stands there. -/
def edgeChunk (comp : Nat) (bs : List UInt8) (sz chunkUsize : Nat) : DcxM (List UInt8) :=
  if comp ≠ 0 then
    match codecs.inflate (-15) (bs.take (sz % 2 ^ 32)) (chunkUsize % 2 ^ 32) with
    | none => fail .decompress
    | some x => do
      check (x.length = chunkUsize) .decompress
      pure x
  else pure bs

/-- What the loop over the chunks stores, and where. The stores are not held against the block: the source does not
    do so for a stored chunk either. -/
def edgeStoresFrom (edge : EdgeTable) (usize : Nat) : Nat → Nat → Nat → DcxM (List Store)
  | 0, _, _ => pure []
  | count + 1, i, outPos => do
    let entry := edge.table + i * 16
    let off ← be32 input (entry + 4)
    let sz ← be32 input (entry + 8)
    let comp ← be32 input (entry + 12)
    let chunkUsize := edgeChunkUsize usize outPos
    check (edge.dataStart + off + sz ≤ input.length ∧ outPos + chunkUsize ≤ usize) .truncated
    let bs ← inputAt input (edge.dataStart + off) sz
    let x ← edgeChunk codecs comp bs sz chunkUsize
    let rest ← edgeStoresFrom edge usize count (i + 1) (outPos + x.length)
    pure ((outPos, x) :: rest)

/-- What `decompress_edge` does before its loop: the size of the output, its block and the table. -/
def edgeHead (dcx : Bool) : DcxM (Nat × List UInt8 × EdgeTable) := do
  let pos := if dcx then 0x18 else 0x20
  check (pos + 12 ≤ input.length) .badMagic
  let dcs ← hasTag input pos (dcxTag "DCS")
  check (dcs = true) .badMagic
  let usize ← be32 input (pos + 4)
  let csize ← be32 input (pos + 8)
  let dst ← allocBlock usize
  let edge ← if dcx then dcxEdgeTable input else dcpEdgeTable input csize
  check (edge.count ≤ 0x100000 ∧ edge.table + edge.count * 16 ≤ input.length) .truncated
  pure (usize, dst, edge)

/-- The size that `decompress_edge` returns and what its chunks store. -/
def decompressEdgeStores (dcx : Bool) : DcxM (Nat × List Store) := do
  let (usize, _, edge) ← edgeHead input dcx
  let stores ← edgeStoresFrom codecs input edge usize edge.count 0 0
  pure (usize, stores)

theorem decompressEdge_eq_head (dcx : Bool) : decompressEdge codecs input dcx = (do
    let (usize, dst, edge) ← edgeHead input dcx
    let dst ← edgeChunks codecs input edge usize edge.count 0 0 dst
    pure (dst.take usize)) := by
  unfold decompressEdge edgeHead
  cases dcx <;> simp only [bind_assoc, pure_bind, if_true, Bool.false_eq_true, if_false]

end

/-! ## The sizes in the table -/

section

variable (input : List UInt8) (table : Nat)

/-- The chunk of the `i`-th entry is stored, and not compressed. -/
def edgeIsStored (i : Nat) : Prop := wordAt input (table + i * 16 + 12) = 0

instance (i : Nat) : Decidable (edgeIsStored input table i) :=
  inferInstanceAs (Decidable (wordAt input (table + i * 16 + 12) = 0))

/-- The size of the chunk of the `i`-th entry: the one in the entry if it is stored, and 64 KiB if it is compressed. -/
def edgeEntrySize (i : Nat) : Nat :=
  if edgeIsStored input table i then wordAt input (table + i * 16 + 8) else 0x10000

/-- The sizes of the chunks before the `i`-th, added up. -/
def edgeSizeTo (i : Nat) : Nat := ((List.range i).map (edgeEntrySize input table)).sum

theorem edgeSizeTo_succ (i : Nat) :
    edgeSizeTo input table (i + 1) = edgeSizeTo input table i + edgeEntrySize input table i := by
  simp [edgeSizeTo, List.range_succ]

end

/-- Where the table is and how many entries it has. -/
def edgeTableOf (input : List UInt8) (dcx : Bool) : Nat × Nat :=
  if dcx then (0x70, wordAt input 0x68)
  else
    let dca := 0x30 + wordAt input 0x28
    (dca + 0x28, wordAt input (dca + 0x20))

/-- The chunks reach the size of the output, and up to the end of each stored chunk that is not empty their sizes do
    not exceed it. -/
def EdgeTableFills (input : List UInt8) (dcx : Bool) (usize : Nat) : Prop :=
  let edge := edgeTableOf input dcx
  usize ≤ edgeSizeTo input edge.1 edge.2 ∧ ∀ i < edge.2, edgeIsStored input edge.1 i →
    edgeEntrySize input edge.1 i ≠ 0 → edgeSizeTo input edge.1 (i + 1) ≤ usize

instance (input : List UInt8) (dcx : Bool) (usize : Nat) : Decidable (EdgeTableFills input dcx usize) := by
  unfold EdgeTableFills
  infer_instance

section

variable {codecs : Codecs} {input : List UInt8}

theorem check_eq_ok {c : Prop} [Decidable c] {e : SfError} {heap heap' : Heap}
    (h : (check c e : DcxM Unit) heap = (.ok (), heap')) : c ∧ heap' = heap := by
  rw [check_run] at h
  split at h
  · next hc =>
      cases h
      exact ⟨hc, rfl⟩
  · cases h

theorem inputAt_eq_ok {off len : Nat} {bs : List UInt8} {heap heap' : Heap}
    (h : inputAt input off len heap = (.ok bs, heap')) : bs.length = len ∧ heap' = heap := by
  obtain ⟨⟨⟩, h1, hcheck, hpure⟩ := bind_eq_ok.1 h
  obtain ⟨hle, rfl⟩ := check_eq_ok hcheck
  cases hpure
  refine ⟨?_, rfl⟩
  rw [List.length_take, List.length_drop, Nat.min_eq_left (by omega)]

theorem be32_eq_ok {off v : Nat} {heap heap' : Heap} (h : be32 input off heap = (.ok v, heap')) :
    v = wordAt input off ∧ heap' = heap := by
  obtain ⟨bs, h1, hinput, hpure⟩ := bind_eq_ok.1 h
  obtain ⟨⟨⟩, h2, hcheck, hbs⟩ := bind_eq_ok.1 hinput
  obtain ⟨-, rfl⟩ := check_eq_ok hcheck
  cases hbs
  cases hpure
  exact ⟨rfl, rfl⟩

theorem hasTag_eq_ok {off : Nat} {tag : List UInt8} {b : Bool} {heap heap' : Heap}
    (h : hasTag input off tag heap = (.ok b, heap')) : heap' = heap := by
  obtain ⟨bs, h1, hinput, hpure⟩ := bind_eq_ok.1 h
  cases hpure
  exact (inputAt_eq_ok hinput).2

theorem edgeChunk_eq_ok {comp sz n : Nat} {bs x : List UInt8} {heap heap' : Heap}
    (h : edgeChunk codecs comp bs sz n heap = (.ok x, heap')) : heap' = heap ∧
      if comp = 0 then x = bs
      else codecs.inflate (-15) (bs.take (sz % 2 ^ 32)) (n % 2 ^ 32) = some x ∧ x.length = n := by
  unfold edgeChunk at h
  by_cases hcomp : comp = 0
  · rw [if_neg (not_not.2 hcomp)] at h
    cases h
    rw [if_pos hcomp]
    exact ⟨rfl, rfl⟩
  · rw [if_pos hcomp] at h
    rw [if_neg hcomp]
    cases hx : codecs.inflate (-15) (bs.take (sz % 2 ^ 32)) (n % 2 ^ 32) with
    | none =>
        rw [hx] at h
        cases h
    | some y =>
        rw [hx] at h
        obtain ⟨⟨⟩, h1, hcheck, hpure⟩ := bind_eq_ok.1 h
        obtain ⟨hlen, rfl⟩ := check_eq_ok hcheck
        cases hpure
        exact ⟨rfl, rfl, hlen⟩

theorem deflateRawDecompress_ok {off sz outPos n : Nat} {bs x dst : List UInt8} {heap heap' : Heap}
    (hbs : inputAt input off sz heap = (.ok bs, heap')) (hroom : outPos + n ≤ dst.length)
    (hx : codecs.inflate (-15) (bs.take (sz % 2 ^ 32)) (n % 2 ^ 32) = some x) (hlen : x.length = n) :
    deflateRawDecompress codecs input off sz dst outPos n heap = (.ok (overwrite dst outPos x), heap') := by
  rw [deflateRawDecompress, bind_ok hbs, outputAt, check_bind_pos hroom, hx]
  simp only
  rw [check_bind_pos hlen]
  rfl

theorem edgeChunkUsize_eq {usize outPos : Nat} (husize : usize < 2 ^ 64) (h : outPos ≤ usize) :
    edgeChunkUsize usize outPos = min (usize - outPos) 0x10000 := by
  have hwrap : usize + 2 ^ 64 - outPos = usize - outPos + 2 ^ 64 := by omega
  rw [edgeChunkUsize, hwrap, Nat.add_mod_right, Nat.mod_eq_of_lt (by omega)]

variable {edge : EdgeTable} {usize count i outPos : Nat} {stores : List Store} {heap heap' : Heap}

/-- One turn of the loop: what its chunk is, and that the source copies it if it fits into the block. -/
theorem edgeStoresFrom_succ
    (h : edgeStoresFrom codecs input edge usize (count + 1) i outPos heap = (.ok stores, heap')) :
    ∃ x rest, stores = (outPos, x) :: rest ∧ outPos + edgeChunkUsize usize outPos ≤ usize ∧
      x.length = (if edgeIsStored input edge.table i then edgeEntrySize input edge.table i
        else edgeChunkUsize usize outPos) ∧
      edgeStoresFrom codecs input edge usize count (i + 1) (outPos + x.length) heap = (.ok rest, heap') ∧
      ∀ dst : List UInt8, usize ≤ dst.length → edgeChunks codecs input edge usize (count + 1) i outPos dst heap =
        if outPos + x.length ≤ dst.length then
          edgeChunks codecs input edge usize count (i + 1) (outPos + x.length) (overwrite dst outPos x) heap
        else (.error .undefinedBehaviour, heap) := by
  rw [edgeStoresFrom] at h
  obtain ⟨off, _, hoff, hrun1⟩ := bind_eq_ok.1 h
  obtain ⟨-, rfl⟩ := be32_eq_ok hoff
  obtain ⟨sz, _, hsz, hrun2⟩ := bind_eq_ok.1 hrun1
  obtain ⟨hszValue, rfl⟩ := be32_eq_ok hsz
  obtain ⟨comp, _, hcomp, hrun3⟩ := bind_eq_ok.1 hrun2
  obtain ⟨hcompValue, rfl⟩ := be32_eq_ok hcomp
  obtain ⟨⟨⟩, _, hcheck, hrun4⟩ := bind_eq_ok.1 hrun3
  obtain ⟨hroom, rfl⟩ := check_eq_ok hcheck
  obtain ⟨bs, _, hbs, hrun5⟩ := bind_eq_ok.1 hrun4
  obtain ⟨hlen, rfl⟩ := inputAt_eq_ok hbs
  obtain ⟨x, _, hchunk, hrun6⟩ := bind_eq_ok.1 hrun5
  obtain ⟨rest, _, hrest, hpure⟩ := bind_eq_ok.1 hrun6
  cases hpure
  obtain ⟨rfl, hx⟩ := edgeChunk_eq_ok hchunk
  refine ⟨x, rest, rfl, hroom.2, ?_, hrest, fun dst hdst => ?_⟩
  · by_cases hstored : comp = 0
    · have hentry : edgeIsStored input edge.table i := hcompValue.symm.trans hstored
      rw [if_pos hstored] at hx
      rw [if_pos hentry, edgeEntrySize, if_pos hentry, hx, hlen, hszValue]
    · rw [if_neg hstored] at hx
      have hentry : ¬ edgeIsStored input edge.table i := fun h => hstored (hcompValue.trans h)
      rw [if_neg hentry, hx.2]
  · rw [edgeChunks, bind_ok hoff, bind_ok hsz, bind_ok hcomp, check_bind_pos hroom]
    by_cases hstored : comp = 0
    · rw [if_pos hstored] at hx
      subst hx
      rw [if_neg (not_not.2 hstored), bind_ok hbs, hlen, outputAt]
      split
      · next hfits => rw [check_bind_pos hfits]
      · next hfits => rw [check_bind_neg hfits]
    · -- a compressed chunk never leaves the block
      rw [if_neg hstored] at hx
      have hfits : outPos + edgeChunkUsize usize outPos ≤ dst.length := hroom.2.trans hdst
      rw [if_pos hstored, bind_ok (deflateRawDecompress_ok hbs hfits hx.1 hx.2), hx.2, if_pos hfits]

/-- A turn of the source's loop stores what the turn here does. -/
theorem edgeChunks_succ {dst dst' : List UInt8}
    (h : edgeChunks codecs input edge usize (count + 1) i outPos dst heap = (.ok dst', heap')) :
    ∃ x, edgeStoresFrom codecs input edge usize (count + 1) i outPos heap
        = (edgeStoresFrom codecs input edge usize count (i + 1) (outPos + x.length) >>= fun rest =>
            pure ((outPos, x) :: rest)) heap ∧
      edgeChunks codecs input edge usize count (i + 1) (outPos + x.length) (overwrite dst outPos x) heap
        = (.ok dst', heap') := by
  rw [edgeChunks] at h
  obtain ⟨off, _, hoff, hrun1⟩ := bind_eq_ok.1 h
  obtain ⟨-, rfl⟩ := be32_eq_ok hoff
  obtain ⟨sz, _, hsz, hrun2⟩ := bind_eq_ok.1 hrun1
  obtain ⟨-, rfl⟩ := be32_eq_ok hsz
  obtain ⟨comp, _, hcomp, hrun3⟩ := bind_eq_ok.1 hrun2
  obtain ⟨-, rfl⟩ := be32_eq_ok hcomp
  obtain ⟨⟨⟩, _, hcheck, hrun4⟩ := bind_eq_ok.1 hrun3
  obtain ⟨hroom, rfl⟩ := check_eq_ok hcheck
  rw [edgeStoresFrom, bind_ok hoff, bind_ok hsz, bind_ok hcomp, check_bind_pos hroom]
  split at hrun4
  · next hcompressed =>
      obtain ⟨dst1, _, hdeflate, hrun5⟩ := bind_eq_ok.1 hrun4
      rw [deflateRawDecompress] at hdeflate
      obtain ⟨bs, _, hbs, hdeflate1⟩ := bind_eq_ok.1 hdeflate
      obtain ⟨-, rfl⟩ := inputAt_eq_ok hbs
      obtain ⟨⟨⟩, _, hout, hdeflate2⟩ := bind_eq_ok.1 hdeflate1
      obtain ⟨-, rfl⟩ := check_eq_ok hout
      cases hx : codecs.inflate (-15) (bs.take (sz % 2 ^ 32)) (edgeChunkUsize usize outPos % 2 ^ 32) with
      | none =>
          rw [hx] at hdeflate2
          cases hdeflate2
      | some x =>
          rw [hx] at hdeflate2
          obtain ⟨⟨⟩, _, hcheck, hpure⟩ := bind_eq_ok.1 hdeflate2
          obtain ⟨hxlen, rfl⟩ := check_eq_ok hcheck
          cases hpure
          have hchunk : edgeChunk codecs comp bs sz (edgeChunkUsize usize outPos) = pure x := by
            rw [edgeChunk, if_pos hcompressed, hx]
            simp only
            rw [check, if_pos hxlen, pure_bind]
          rw [← hxlen] at hrun5
          refine ⟨x, ?_, hrun5⟩
          rw [bind_ok hbs, hchunk, pure_bind]
  · next hstored =>
      obtain ⟨bs, _, hbs, hrun5⟩ := bind_eq_ok.1 hrun4
      obtain ⟨hlen, rfl⟩ := inputAt_eq_ok hbs
      obtain ⟨⟨⟩, _, hout, hrun6⟩ := bind_eq_ok.1 hrun5
      obtain ⟨-, rfl⟩ := check_eq_ok hout
      rw [← hlen] at hrun6
      refine ⟨bs, ?_, hrun6⟩
      rw [bind_ok hbs, edgeChunk, if_neg hstored, pure_bind]

/-! ## The whole loop -/

theorem edgeStoresFrom_heap (h : edgeStoresFrom codecs input edge usize count i outPos heap = (.ok stores, heap')) :
    heap' = heap := by
  induction count generalizing i outPos stores with
  | zero =>
      cases h
      rfl
  | succ count ih =>
      obtain ⟨x, rest, -, -, -, hrest, -⟩ := edgeStoresFrom_succ h
      exact ih hrest

/-- The stores follow one another. -/
theorem edgeStoresFrom_tiles (h : edgeStoresFrom codecs input edge usize count i outPos heap = (.ok stores, heap')) :
    Tiles outPos stores (outPos + extent stores) := by
  induction count generalizing i outPos stores with
  | zero =>
      cases h
      rfl
  | succ count ih =>
      obtain ⟨x, rest, rfl, -, -, hrest, -⟩ := edgeStoresFrom_succ h
      refine ⟨rfl, ?_⟩
      rw [extent_cons, ← Nat.add_assoc]
      exact ih hrest

/-- They reach the size of the output exactly if the sizes in the table do, where the loop stands as far as the sizes
    before say. The induction is on the number of entries that are left. -/
theorem edgeStoresFrom_reach_iff (husize : usize < 2 ^ 64)
    (h : edgeStoresFrom codecs input edge usize count i outPos heap = (.ok stores, heap'))
    (hpos : outPos = min usize (edgeSizeTo input edge.table i)) :
    outPos + extent stores = usize ↔ usize ≤ edgeSizeTo input edge.table (i + count) ∧
      ∀ j, i ≤ j → j < i + count → edgeIsStored input edge.table j → edgeEntrySize input edge.table j ≠ 0 →
        edgeSizeTo input edge.table (j + 1) ≤ usize := by
  induction count generalizing i outPos stores with
  | zero =>
      cases h
      rw [extent_nil, Nat.add_zero, Nat.add_zero, and_iff_left (fun j hle hlt => absurd hlt (Nat.not_lt.2 hle))]
      omega
  | succ count ih =>
      obtain ⟨x, rest, rfl, hroom, hlen, hrest, -⟩ := edgeStoresFrom_succ h
      have hle : outPos ≤ usize := by omega
      have hsucc := edgeSizeTo_succ input edge.table i
      rw [extent_cons]
      dsimp only
      rw [← Nat.add_assoc, show i + (count + 1) = i + 1 + count by omega]
      by_cases hstored : edgeIsStored input edge.table i
      · rw [if_pos hstored] at hlen
        by_cases hfits : edgeEntrySize input edge.table i = 0 ∨ edgeSizeTo input edge.table (i + 1) ≤ usize
        · rw [ih hrest (by omega)]
          refine and_congr_right fun _ => ⟨fun hall j hij hj hs hne => ?_, fun hall j hij => hall j (by omega)⟩
          rcases Nat.eq_or_lt_of_le hij with rfl | hlt
          · exact hfits.resolve_left hne
          · exact hall j hlt hj hs hne
        · -- the chunk runs past the end
          obtain ⟨hne, hover⟩ := not_or.1 hfits
          refine iff_of_false (by omega) fun hall => hover (hall.2 i le_rfl (by omega) hstored hne)
      · rw [if_neg hstored, edgeChunkUsize_eq husize hle] at hlen
        have hsize : edgeEntrySize input edge.table i = 0x10000 := if_neg hstored
        rw [ih hrest (by omega)]
        refine and_congr_right fun _ => ⟨fun hall j hij hj hs hne => ?_, fun hall j hij => hall j (by omega)⟩
        rcases Nat.eq_or_lt_of_le hij with rfl | hlt
        · exact absurd hs hstored
        · exact hall j hlt hj hs hne

/-- The source's loop leaves what was stored in the block, if the block has room for it. -/
theorem edgeChunks_of_stores (h : edgeStoresFrom codecs input edge usize count i outPos heap = (.ok stores, heap'))
    {dst : List UInt8} (hdst : usize ≤ dst.length) : edgeChunks codecs input edge usize count i outPos dst heap =
      if extent stores ≤ dst.length - outPos then (.ok (applyStores dst stores), heap)
      else (.error .undefinedBehaviour, heap) := by
  induction count generalizing i outPos stores dst with
  | zero =>
      cases h
      rfl
  | succ count ih =>
      obtain ⟨x, rest, rfl, hroom, -, hrest, hstep⟩ := edgeStoresFrom_succ h
      rw [hstep dst hdst, extent_cons]
      dsimp only
      by_cases hfits : outPos + x.length ≤ dst.length
      · have hlen : (overwrite dst outPos x).length = dst.length := by
          rw [length_overwrite, Nat.max_eq_left hfits]
        rw [if_pos hfits, ih hrest (by omega), hlen, applyStores_cons]
        exact if_congr (by omega) rfl rfl
      · rw [if_neg hfits, if_neg (by omega)]

theorem edgeStores_of_chunks {dst dst' : List UInt8}
    (h : edgeChunks codecs input edge usize count i outPos dst heap = (.ok dst', heap')) :
    ∃ stores, edgeStoresFrom codecs input edge usize count i outPos heap = (.ok stores, heap') := by
  induction count generalizing i outPos dst with
  | zero =>
      cases h
      exact ⟨[], rfl⟩
  | succ count ih =>
      obtain ⟨x, hstep, hrest⟩ := edgeChunks_succ h
      obtain ⟨stores, hstores⟩ := ih hrest
      exact ⟨(outPos, x) :: stores, by rw [hstep, bind_ok hstores]; rfl⟩

/-! ## The table -/

theorem dcxEdgeTable_eq_ok (h : dcxEdgeTable input heap = (.ok edge, heap')) :
    (edge.table, edge.count) = edgeTableOf input true := by
  unfold dcxEdgeTable at h
  obtain ⟨⟨⟩, _, -, h⟩ := bind_eq_ok.1 h
  obtain ⟨_, _, -, h⟩ := bind_eq_ok.1 h
  obtain ⟨⟨⟩, _, -, h⟩ := bind_eq_ok.1 h
  obtain ⟨_, _, -, h⟩ := bind_eq_ok.1 h
  obtain ⟨⟨⟩, _, -, h⟩ := bind_eq_ok.1 h
  obtain ⟨_, _, -, h⟩ := bind_eq_ok.1 h
  obtain ⟨⟨⟩, _, -, h⟩ := bind_eq_ok.1 h
  obtain ⟨dcaSize, _, -, h⟩ := bind_eq_ok.1 h
  obtain ⟨count, _, hcount, h⟩ := bind_eq_ok.1 h
  cases h
  rw [(be32_eq_ok hcount).1]
  rfl

theorem dcpEdgeTable_eq_ok (h : dcpEdgeTable input (wordAt input 0x28) heap = (.ok edge, heap')) :
    (edge.table, edge.count) = edgeTableOf input false := by
  unfold dcpEdgeTable at h
  obtain ⟨⟨⟩, _, -, h⟩ := bind_eq_ok.1 h
  obtain ⟨_, _, -, h⟩ := bind_eq_ok.1 h
  obtain ⟨⟨⟩, _, -, h⟩ := bind_eq_ok.1 h
  obtain ⟨_, _, -, h⟩ := bind_eq_ok.1 h
  obtain ⟨⟨⟩, _, -, h⟩ := bind_eq_ok.1 h
  obtain ⟨count, _, hcount, h⟩ := bind_eq_ok.1 h
  cases h
  rw [(be32_eq_ok hcount).1]
  rfl

theorem wordAt_lt (off : Nat) : wordAt input off < 2 ^ 32 := by
  refine (wordNat_lt true _).trans_le ?_
  calc 256 ^ ((input.drop off).take 4).length ≤ 256 ^ 4 := Nat.pow_le_pow_right (by decide) (List.length_take_le ..)
    _ = 2 ^ 32 := by decide

/-- The head of a run: the size is the one in the header, its block is what the allocator gives, and the table is where
    it is looked for. -/
theorem edgeHead_eq_ok {dcx : Bool} {dst : List UInt8} (h : edgeHead input dcx heap = (.ok (usize, dst, edge), heap')) :
    usize = wordAt input ((if dcx then 0x18 else 0x20) + 4) ∧ (allocBlock usize heap).1 = .ok dst ∧
      (edge.table, edge.count) = edgeTableOf input dcx := by
  unfold edgeHead at h
  obtain ⟨⟨⟩, _, hsize, h1⟩ := bind_eq_ok.1 h
  obtain ⟨-, rfl⟩ := check_eq_ok hsize
  obtain ⟨_, _, htag, h2⟩ := bind_eq_ok.1 h1
  obtain rfl := hasTag_eq_ok htag
  obtain ⟨⟨⟩, _, hfound, h3⟩ := bind_eq_ok.1 h2
  obtain ⟨-, rfl⟩ := check_eq_ok hfound
  obtain ⟨usize', _, husize, h4⟩ := bind_eq_ok.1 h3
  obtain ⟨husizeValue, rfl⟩ := be32_eq_ok husize
  obtain ⟨csize, _, hcsize, h5⟩ := bind_eq_ok.1 h4
  obtain ⟨hcsizeValue, rfl⟩ := be32_eq_ok hcsize
  obtain ⟨dst', _, hdst, h6⟩ := bind_eq_ok.1 h5
  have hblock := congrArg Prod.fst hdst
  cases dcx with
  | true =>
      rw [if_pos rfl] at h6
      obtain ⟨edge', _, hedge, h7⟩ := bind_eq_ok.1 h6
      obtain ⟨⟨⟩, _, -, hpure⟩ := bind_eq_ok.1 h7
      cases hpure
      exact ⟨husizeValue, hblock, dcxEdgeTable_eq_ok hedge⟩
  | false =>
      rw [if_neg Bool.false_ne_true] at h6
      obtain ⟨edge', _, hedge, h7⟩ := bind_eq_ok.1 h6
      obtain ⟨⟨⟩, _, -, hpure⟩ := bind_eq_ok.1 h7
      cases hpure
      rw [hcsizeValue] at hedge
      exact ⟨husizeValue, hblock, dcpEdgeTable_eq_ok hedge⟩

theorem length_of_allocBlock {dst : List UInt8} (h : (allocBlock usize heap).1 = .ok dst) : dst.length = max usize 1 := by
  rw [length_allocBlock (Prod.ext h rfl)]
  split <;> omega

end

/-! ## Complete results -/

section

variable {codecs : Codecs} {input : List UInt8} {dcx : Bool} {usize : Nat} {stores : List Store} {heap heap' : Heap}

/-- The parts of a run that gets through its table: its stores, and what `decompress_edge` returns. -/
theorem decompressEdgeStores_eq_ok (h : decompressEdgeStores codecs input dcx heap = (.ok (usize, stores), heap')) :
    ∃ dst : List UInt8, (allocBlock usize heap).1 = .ok dst ∧ Tiles 0 stores (extent stores) ∧
      (extent stores = usize ↔ EdgeTableFills input dcx usize) ∧
      decompressEdge codecs input dcx heap =
        if extent stores ≤ max usize 1 then (.ok ((applyStores dst stores).take usize), heap')
        else (.error .undefinedBehaviour, heap') := by
  obtain ⟨⟨usize', dst, edge⟩, heap1, hhead, h⟩ := bind_eq_ok.1 h
  obtain ⟨stores', heap2, hstores, hpure⟩ := bind_eq_ok.1 h
  cases hpure
  obtain ⟨husize, hblock, htable⟩ := edgeHead_eq_ok hhead
  have hlen := length_of_allocBlock hblock
  have hlt : usize < 2 ^ 64 := by
    rw [husize]
    exact (wordAt_lt _).trans (by decide)
  have htiles := edgeStoresFrom_tiles hstores
  have hreach := edgeStoresFrom_reach_iff hlt hstores (by simp [edgeSizeTo])
  rw [Nat.zero_add] at htiles hreach
  have hheap := edgeStoresFrom_heap hstores
  subst hheap
  refine ⟨dst, hblock, htiles, ?_, ?_⟩
  · rw [hreach, EdgeTableFills, ← htable, Nat.zero_add]
    simp only [Nat.zero_le, forall_const]
  · rw [decompressEdge_eq_head, bind_ok hhead]
    simp only
    have hchunks := edgeChunks_of_stores hstores (show usize ≤ dst.length by omega)
    rw [Nat.sub_zero, hlen] at hchunks
    by_cases hfits : extent stores ≤ max usize 1
    · rw [if_pos hfits] at hchunks ⊢
      rw [bind_ok hchunks]
      rfl
    · rw [if_neg hfits] at hchunks ⊢
      rw [bind_error hchunks]

/-- A run that returns has got through its table, and returns as much as the header says. -/
theorem decompressEdge_eq_ok {out : List UInt8} (h : decompressEdge codecs input dcx heap = (.ok out, heap')) :
    out.length = wordAt input ((if dcx then 0x18 else 0x20) + 4) ∧
      ∃ stores, decompressEdgeStores codecs input dcx heap = (.ok (out.length, stores), heap') := by
  rw [decompressEdge_eq_head] at h
  obtain ⟨⟨usize, dst, edge⟩, heap1, hhead, h⟩ := bind_eq_ok.1 h
  obtain ⟨dst', heap2, hchunks, hpure⟩ := bind_eq_ok.1 h
  cases hpure
  obtain ⟨husize, hblock, -⟩ := edgeHead_eq_ok hhead
  have hlen := length_of_allocBlock hblock
  obtain ⟨stores, hstores⟩ := edgeStores_of_chunks hchunks
  have hchunks' := edgeChunks_of_stores hstores (show usize ≤ dst.length by omega)
  rw [hchunks] at hchunks'
  split at hchunks'
  · next hfits =>
      cases hchunks'
      have htiles := edgeStoresFrom_tiles hstores
      have hsame : (applyStores dst stores).length = dst.length := htiles.length_applyStores (by omega)
      have hsize : ((applyStores dst stores).take usize).length = usize := by
        rw [List.length_take]
        omega
      refine ⟨hsize.trans husize, stores, ?_⟩
      rw [hsize, decompressEdgeStores, bind_ok hhead]
      simp only
      rw [bind_ok hstores]
      rfl
  · cases hchunks'

/-- Where the table fills the result, the chunks are the result. -/
theorem decompressEdge_of_fills (h : decompressEdgeStores codecs input dcx heap = (.ok (usize, stores), heap'))
    (htable : EdgeTableFills input dcx usize) :
    decompressEdge codecs input dcx heap = (.ok (stores.flatMap Prod.snd), heap') := by
  obtain ⟨dst, hblock, htiles, hfills, hsource⟩ := decompressEdgeStores_eq_ok h
  have hlen := length_of_allocBlock hblock
  have hextent := hfills.2 htable
  rw [hsource, if_pos (by omega), htiles.applyStores_eq (by omega), List.take_zero, List.nil_append,
    List.take_append_of_le_length (by rw [length_flatMap_snd]; exact hextent.ge), ← hextent, ← length_flatMap_snd,
    List.take_length]

/-- **`decompress_edge` gives a complete result exactly if the sizes in its table fill it.** Where it gets through the
    table, its chunks fill the size that it returns, one after another and without a gap, exactly if the table does;
    then they are the result, and past its block it writes exactly if they are larger than that. -/
theorem decompressEdge_complete_iff (codecs : Codecs) (input : List UInt8) (dcx : Bool) (heap heap' : Heap) :
    (∀ out, decompressEdge codecs input dcx heap = (.ok out, heap') →
      ∃ stores, decompressEdgeStores codecs input dcx heap = (.ok (out.length, stores), heap')) ∧
    ∀ usize stores, decompressEdgeStores codecs input dcx heap = (.ok (usize, stores), heap') →
      (Tiles 0 stores usize ↔ EdgeTableFills input dcx usize) ∧
      (EdgeTableFills input dcx usize →
        decompressEdge codecs input dcx heap = (.ok (stores.flatMap Prod.snd), heap')) ∧
      (decompressEdge codecs input dcx heap = (.error .undefinedBehaviour, heap') ↔ max usize 1 < extent stores) := by
  refine ⟨fun out hrun => (decompressEdge_eq_ok hrun).2, fun usize stores hrun => ?_⟩
  obtain ⟨dst, -, htiles, hfills, hsource⟩ := decompressEdgeStores_eq_ok hrun
  refine ⟨?_, decompressEdge_of_fills hrun, ?_⟩
  · rw [htiles.iff_extent, Nat.zero_add, hfills]
  · rw [hsource, ← Nat.not_le]
    split
    · next hfits => exact iff_of_false (by simp) (not_not.2 hfits)
    · next hfits => exact iff_of_true rfl hfits

end

/-- A container for four bytes, with the text `[1, 2, 3, 4]` in a stored chunk, whose table has `count` entries. -/
def sampleEdge (count : Nat) : List UInt8 :=
  List.replicate 0x18 0 ++ dcxTag "DCS" ++ be32Bytes 4 ++ be32Bytes 0 ++ dcxTag "DCP" ++ dcxTag "EDGE"
    ++ List.replicate 0x1C 0 ++ be32Bytes 0x3C ++ List.replicate 0x1C 0 ++ be32Bytes count ++ be32Bytes 0
    ++ be32Bytes 0 ++ be32Bytes 0 ++ be32Bytes 4 ++ be32Bytes 0 ++ [1, 2, 3, 4]

/-- A run from its result. -/
theorem run_of_fst {α : Type} {x : Except SfError α × Heap} {a : α} (h : x.1 = .ok a) : x = (.ok a, x.2) :=
  Prod.ext h rfl

theorem sampleEdge_complete : ∃ stores,
    (decompressEdgeStores failingCodecs (sampleEdge 1) true []).1 = .ok (4, stores) ∧ Tiles 0 stores 4 ∧
      (decompressEdge failingCodecs (sampleEdge 1) true []).1 = .ok (stores.flatMap Prod.snd) := by
  have hrun : (decompressEdge failingCodecs (sampleEdge 1) true []).1 = .ok [1, 2, 3, 4] := by decide +kernel
  have hfills : EdgeTableFills (sampleEdge 1) true 4 := by decide +kernel
  obtain ⟨hstores, hcomplete⟩ := decompressEdge_complete_iff failingCodecs (sampleEdge 1) true [] _
  obtain ⟨stores, hlogged⟩ := hstores _ (run_of_fst hrun)
  obtain ⟨hiff, hresult, -⟩ := hcomplete _ _ hlogged
  exact ⟨stores, congrArg Prod.fst hlogged, hiff.2 hfills, congrArg Prod.fst (hresult hfills)⟩

/-- In every run that gets through its table, the chunks fill the result, each byte by one of them. -/
def EdgeComplete (codecs : Codecs) (input : List UInt8) (dcx : Bool) : Prop :=
  ∀ heap usize stores heap', decompressEdgeStores codecs input dcx heap = (.ok (usize, stores), heap') →
    Tiles 0 stores usize

/-- An empty table: four bytes are returned, as the allocator has left them, and no chunk has written one. -/
theorem sampleEdge_incomplete : ¬ EdgeComplete failingCodecs (sampleEdge 0) true ∧
    (decompressEdge failingCodecs (sampleEdge 0) true [some [7, 7, 7, 7]]).1 = .ok [7, 7, 7, 7] := by
  refine ⟨fun h => ?_, by decide +kernel⟩
  have hrun : (decompressEdgeStores failingCodecs (sampleEdge 0) true []).1 = .ok (4, []) := by decide +kernel
  cases h _ _ _ _ (run_of_fst hrun)

end SoulsFormats
