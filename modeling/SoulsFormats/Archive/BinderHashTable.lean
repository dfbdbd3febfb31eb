import Mathlib.Data.List.Induction
import SoulsFormats.Archive.Binder4Image
import SoulsFormats.Core.Making
import SoulsFormats.Library.Buckets

set_option autoImplicit false

/-! # The hash table of a binder

The table groups the hashes of the names by their remainder: a counting sort whose cursors are the lengths of
the buckets so far, and a sort of every bucket. Its counters are 32-bit and wrap, but as sums of numbers
that fit they are what they count, which the lemmas here say of each loop. -/

namespace SoulsFormats

open Bytes Fallible Buckets

variable {groupCount : Nat} {hashes : List PathHash}

/-- The hashes that go to one group. -/
abbrev hashBucket (groupCount : Nat) (hashes : List PathHash) : Nat → List PathHash :=
  bucket (PathHash.group groupCount) hashes

/-! ## Counting and placing -/

theorem bucketLengths_eq (groupCount : Nat) (hashes : List PathHash) :
    bucketLengths groupCount hashes
      = (List.range groupCount).map fun j => UInt32.ofNat (hashBucket groupCount hashes j).length := by
  induction hashes using List.reverseRecOn with
  | nil => simp [bucketLengths, bucket, List.map_const']
  | append_singleton hashes h ih =>
      rw [bucketLengths] at ih ⊢
      rw [List.foldl_append, ih]
      apply List.ext_getElem?
      intro j
      simp only [List.foldl_cons, List.foldl_nil, List.getElem?_modify, List.getElem?_map,
        bucket_append_singleton]
      by_cases hj : j < groupCount
      · by_cases hg : h.group groupCount = j <;> simp [hj, hg, UInt32.ofNat_add]
      · simp [hj]

variable {piece : Nat → List PathHash}

theorem bucketOffsets_eq (piece : Nat → List PathHash) (i m : Nat) :
    bucketOffsets (UInt32.ofNat (start piece i))
        ((List.range' i m).map fun j => UInt32.ofNat (piece j).length)
      = (List.range' i m).map fun j => UInt32.ofNat (start piece j) := by
  induction m generalizing i with
  | zero => rfl
  | succ m ih =>
      rw [List.range'_succ, List.map_cons, List.map_cons, bucketOffsets, ← UInt32.ofNat_add, ← start_succ, ih]

theorem hashGroups_cons (fileCount : Nat) (cur first : UInt32) (rest : List UInt32) :
    hashGroups fileCount cur (first :: rest) =
      ((match rest with
        | next :: _ => next
        | [] => UInt32.ofNat fileCount) - cur, cur) ::
      hashGroups fileCount (cur + ((match rest with
        | next :: _ => next
        | [] => UInt32.ofNat fileCount) - cur)) rest := rfl

/-- The length of every group comes out of the starts around it, and of the last one out of the number of
    files. -/
theorem hashGroups_eq (piece : Nat → List PathHash) (i m fileCount : Nat)
    (hend : start piece (i + m) = fileCount) :
    hashGroups fileCount (UInt32.ofNat (start piece i))
        ((List.range' i m).map fun j => UInt32.ofNat (start piece j))
      = (List.range' i m).map fun j => (UInt32.ofNat (piece j).length, UInt32.ofNat (start piece j)) := by
  induction m generalizing i with
  | zero => rfl
  | succ m ih =>
      have hsub : UInt32.ofNat (start piece (i + 1)) - UInt32.ofNat (start piece i)
          = UInt32.ofNat (piece i).length := by
        rw [start_succ, UInt32.ofNat_add, UInt32.add_comm, UInt32.add_sub_cancel]
      have hnext : (match (List.range' (i + 1) m).map fun j => UInt32.ofNat (start piece j) with
          | next :: _ => next
          | [] => UInt32.ofNat fileCount) = UInt32.ofNat (start piece (i + 1)) := by
        cases m with
        | zero => rw [← hend]; rfl
        | succ m => rfl
      rw [List.range'_succ, List.map_cons, List.map_cons, hashGroups_cons, hnext, hsub]
      rw [← UInt32.ofNat_add, ← start_succ, ih (i + 1) (by rw [← hend]; congr 1; omega)]

/-- What the loop that places the hashes keeps: every bucket has got the hashes so far, in their order. -/
structure Placing (groupCount : Nat) (offsets : List UInt32) (place : Nat → Nat) (done : List PathHash)
    (size : Nat) (st : List UInt32 × List PathHash) : Prop where
  cursor : st.1 = (List.range groupCount).map fun j => UInt32.ofNat (hashBucket groupCount done j).length
  size : st.2.length = size
  placed : ∀ j, j < groupCount → Holds st.2 (place j) (hashBucket groupCount done j)

/-- **The counting sort puts the buckets one after another.** -/
theorem orderHashes_eq (hgroups : 0 < groupCount) (hlen : hashes.length < 2 ^ 32) :
    orderHashes groupCount
        ((List.range groupCount).map fun j => UInt32.ofNat (start (hashBucket groupCount hashes) j)) hashes
      = joined (hashBucket groupCount hashes) groupCount := by
  let place := start (hashBucket groupCount hashes)
  let offsets := (List.range groupCount).map fun j => UInt32.ofNat (place j)
  have hkey : ∀ h : PathHash, h.group groupCount < groupCount := fun h => Nat.mod_lt _ hgroups
  have htotal : place groupCount = hashes.length := start_bucket fun h _ => hkey h
  let step := fun (st : List UInt32 × List PathHash) (h : PathHash) =>
    (st.1.modify (h.group groupCount) (· + 1),
      st.2.set (offsets.getD (h.group groupCount) 0 + st.1.getD (h.group groupCount) 0).toNat h)
  let init := (List.replicate groupCount (0 : UInt32), List.replicate hashes.length (⟨0, 0⟩ : PathHash))
  have hloop : ∀ done rest, hashes = done ++ rest →
      Placing groupCount offsets place done hashes.length (done.foldl step init) := by
    intro done
    induction done using List.reverseRecOn with
    | nil =>
        intro rest _
        refine ⟨by simp [init, bucket, List.map_const'], by simp [init], fun j hj => ?_⟩
        have hle : place j ≤ place groupCount := start_le (by omega)
        exact holds_nil.2 (by simp [init]; omega)
    | append_singleton done h ih =>
        intro rest hsplit
        rw [List.append_assoc, List.singleton_append] at hsplit
        obtain ⟨hcursor, hsize, hplaced⟩ := ih (h :: rest) hsplit
        rw [List.foldl_append, List.foldl_cons, List.foldl_nil]
        generalize hst : done.foldl step init = st at hcursor hsize hplaced
        let g := h.group groupCount
        have hg : g < groupCount := hkey h
        -- the bucket of `h` has room for it
        have hroom : (hashBucket groupCount done g).length < (hashBucket groupCount hashes g).length := by
          have hmore : hashBucket groupCount hashes g
              = hashBucket groupCount done g ++ h :: hashBucket groupCount rest g := by
            rw [hsplit]
            simp [bucket, g]
          rw [hmore]
          simp
        have hnext : place (g + 1) = place g + (hashBucket groupCount hashes g).length := start_succ g
        have hle : place (g + 1) ≤ place groupCount := start_le (by omega)
        have hpos : (offsets.getD g 0 + st.1.getD g 0).toNat
            = place g + (hashBucket groupCount done g).length := by
          rw [hcursor]
          simp only [offsets, List.getD_eq_getElem?_getD, List.getElem?_map, List.getElem?_range hg,
            Option.map_some, Option.getD_some]
          rw [← UInt32.ofNat_add, UInt32.toNat_ofNat_of_lt' (by
            show _ < 2 ^ 32
            omega)]
        refine ⟨?_, by simpa [step] using hsize, fun j hj => ?_⟩
        · have hcount := bucketLengths_eq groupCount (done ++ [h])
          rw [bucketLengths, List.foldl_append, ← bucketLengths, bucketLengths_eq] at hcount
          simp only [step]
          rw [hcursor]
          exact hcount
        · have hset : (step st h).2 = st.2.set (place g + (hashBucket groupCount done g).length) h := by
            show st.2.set _ h = _
            rw [← hpos]
          have hgrown : hashBucket groupCount (done ++ [h]) j = if h.group groupCount = j
              then hashBucket groupCount done j ++ [h] else hashBucket groupCount done j :=
            bucket_append_singleton _ done h j
          rw [hset, hgrown]
          by_cases heq : h.group groupCount = j
          · subst heq
            rw [if_pos rfl]
            exact holds_set_append (hplaced g hg) (by omega) h
          · -- another bucket lies before or behind
            rw [if_neg heq]
            refine holds_set_of_not_mem (hplaced j hj) ?_ h
            have hbelow : (hashBucket groupCount done j).length ≤ (hashBucket groupCount hashes j).length := by
              rw [hsplit]
              simp [bucket]
            have hend : place (j + 1) = place j + (hashBucket groupCount hashes j).length := start_succ j
            rcases Nat.lt_or_gt_of_ne heq with hlt | hgt
            · have hstart : place (g + 1) ≤ place j := start_le hlt
              omega
            · have hstart : place (j + 1) ≤ place g := start_le hgt
              omega
  have hfinal := hloop hashes [] (by simp)
  exact eq_joined (hfinal.size.trans htotal.symm) hfinal.placed

/-! ## Sorting the buckets -/

/-- A bucket after the sort, which leaves alone what has nothing to sort. -/
def sortedPiece (qs : Qsort) (piece : Nat → List PathHash) (j : Nat) : List PathHash :=
  if 1 < (piece j).length then qs.sort pathHashCmp (piece j) else piece j

theorem sortedPiece_perm (qs : Qsort) (piece : Nat → List PathHash) (j : Nat) :
    (sortedPiece qs piece j).Perm (piece j) := by
  unfold sortedPiece
  split
  · exact qs.perm _ _
  · exact List.Perm.refl _

theorem sortedPiece_sorted (qs : Qsort) (piece : Nat → List PathHash) (j : Nat) :
    (sortedPiece qs piece j).Pairwise fun a b => a.hash ≤ b.hash := by
  unfold sortedPiece
  split
  · have hkey : ∀ a b : PathHash, pathHashCmp a b ≤ 0 ↔ (a.hash.toNat : Int) ≤ b.hash.toNat := by
      intro a b
      rw [pathHashCmp, Int.ofNat_le, ← UInt32.le_iff_toNat_le]
      split
      · next hlt => simp [UInt32.le_of_lt hlt]
      · next hge =>
          split
          · next hlt => simpa using hlt
          · next hle => simpa using UInt32.not_lt.1 hle
    exact (qs.sorted pathHashCmp (fun a => (a.hash.toNat : Int)) hkey (piece j)).imp fun h =>
      UInt32.le_iff_toNat_le.2 (Int.ofNat_le.1 h)
  · next hshort =>
      match piece j, hshort with
      | [], _ => exact .nil
      | [a], _ => exact List.pairwise_singleton _ a
      | _ :: _ :: _, h => simp at h

theorem start_sortedPiece (qs : Qsort) (piece : Nat → List PathHash) (n : Nat) :
    start (sortedPiece qs piece) n = start piece n :=
  start_congr (fun j => (sortedPiece_perm qs piece j).length_eq) n

/-- The pieces from one on. -/
def joinedFrom (piece : Nat → List PathHash) (i m : Nat) : List PathHash := (List.range' i m).flatMap piece

theorem joined_eq_joinedFrom (piece : Nat → List PathHash) (n : Nat) : joined piece n = joinedFrom piece 0 n := by
  induction n with
  | zero => rfl
  | succ n ih => simp [joined, joinedFrom, ih, List.range'_concat]

theorem sortBuckets_cons (qs : Qsort) (ordered : List PathHash) (len cur : UInt32)
    (groups : List (UInt32 × UInt32)) :
    sortBuckets qs ordered ((len, cur) :: groups) = sortBuckets qs
      (if 1 < len then
        ordered.take cur.toNat ++ qs.sort pathHashCmp ((ordered.drop cur.toNat).take len.toNat)
          ++ ordered.drop (cur.toNat + len.toNat)
      else ordered) groups := rfl

/-- The sort of one bucket after the other turns the pieces into sorted ones. -/
theorem sortBuckets_joined (qs : Qsort) (piece : Nat → List PathHash) (i m : Nat) (pre : List PathHash)
    (hpre : pre.length = start piece i) (hsmall : start piece (i + m) < 2 ^ 32) :
    sortBuckets qs (pre ++ joinedFrom piece i m)
        ((List.range' i m).map fun j => (UInt32.ofNat (piece j).length, UInt32.ofNat (start piece j)))
      = pre ++ joinedFrom (sortedPiece qs piece) i m := by
  induction m generalizing i pre with
  | zero => rfl
  | succ m ih =>
      have hend : start piece (i + 1) ≤ start piece (i + (m + 1)) := start_le (by omega)
      have hnext : start piece (i + 1) = start piece i + (piece i).length := start_succ i
      have hlen : (UInt32.ofNat (piece i).length).toNat = (piece i).length :=
        UInt32.toNat_ofNat_of_lt' (by show _ < 2 ^ 32; omega)
      have hcur : (UInt32.ofNat (start piece i)).toNat = start piece i :=
        UInt32.toNat_ofNat_of_lt' (by show _ < 2 ^ 32; omega)
      have hmany : 1 < UInt32.ofNat (piece i).length ↔ 1 < (piece i).length := by
        rw [UInt32.lt_iff_toNat_lt, hlen]
        rfl
      rw [joinedFrom, joinedFrom, List.range'_succ, List.map_cons, List.flatMap_cons, List.flatMap_cons,
        sortBuckets_cons]
      -- one step sorts the piece behind `pre`
      have hstep : (if 1 < UInt32.ofNat (piece i).length then
            (pre ++ (piece i ++ (List.range' (i + 1) m).flatMap piece)).take
                (UInt32.ofNat (start piece i)).toNat
              ++ qs.sort pathHashCmp (((pre ++ (piece i ++ (List.range' (i + 1) m).flatMap piece)).drop
                (UInt32.ofNat (start piece i)).toNat).take (UInt32.ofNat (piece i).length).toNat)
              ++ (pre ++ (piece i ++ (List.range' (i + 1) m).flatMap piece)).drop
                ((UInt32.ofNat (start piece i)).toNat + (UInt32.ofNat (piece i).length).toNat)
          else pre ++ (piece i ++ (List.range' (i + 1) m).flatMap piece))
          = (pre ++ sortedPiece qs piece i) ++ joinedFrom piece (i + 1) m := by
        rw [hlen, hcur, sortedPiece]
        by_cases hone : 1 < (piece i).length
        · rw [if_pos (hmany.2 hone), if_pos hone, ← hpre, List.take_left', List.drop_left', List.take_left',
            ← List.drop_drop, List.drop_left', List.drop_left', joinedFrom]
          all_goals rfl
        · rw [if_neg (fun h => hone (hmany.1 h)), if_neg hone, joinedFrom, List.append_assoc]
      rw [hstep, ih (i + 1) (pre ++ sortedPiece qs piece i), List.append_assoc, joinedFrom]
      · rw [List.length_append, hpre, (sortedPiece_perm qs piece i).length_eq, hnext]
      · rwa [show i + 1 + m = i + (m + 1) by omega]

/-! ## The index -/

/-- The name that is hashed. -/
def BinderFile.hashedName (file : BinderFile) : List UInt8 := file.nameUtf8.getD []

/-- The files whose names have the hash, by going over all of them. -/
def linearScan (files : List BinderFile) (hash : UInt32) : List Int :=
  (files.zipIdx.filter fun p => pathHash p.1.hashedName = hash).map fun p => (p.2 : Int)

/-- The files that the table has for the hash: only its group is looked at. -/
def bucketLookup (groups : List (UInt32 × UInt32)) (records : List PathHash) (hash : UInt32) : List Int :=
  match groups[hash.toNat % groups.length]? with
  | some (len, start) =>
    (((records.drop start.toNat).take len.toNat).filter fun h => h.hash = hash).map fun h => h.index.toInt
  | none => []

/-- The groups and the records are an index of the files by the hashes of their names. -/
structure HashIndex (files : List BinderFile) (groups : List (UInt32 × UInt32)) (records : List PathHash) :
    Prop where
  start : ∀ (g : Nat) (len pos : UInt32), groups[g]? = some (len, pos) →
    pos.toNat = ((groups.take g).map fun group => group.1.toNat).sum
  total : (groups.map fun group => group.1.toNat).sum = files.length
  perm : (records.map fun h => (h.hash, h.index.toInt)).Perm
    (files.zipIdx.map fun p => (pathHash p.1.hashedName, (p.2 : Int)))
  group : ∀ (k g : Nat) (h : PathHash) (len pos : UInt32), records[k]? = some h → groups[g]? = some (len, pos) →
    (pos.toNat ≤ k ∧ k < pos.toNat + len.toNat ↔ h.hash.toNat % groups.length = g)
  sorted : ∀ (g : Nat) (len pos : UInt32), groups[g]? = some (len, pos) →
    ((records.drop pos.toNat).take len.toNat).Pairwise fun a b => a.hash ≤ b.hash
  lookup : ∀ hash, (bucketLookup groups records hash).Perm (linearScan files hash)

/-- The records of the files, with their indices as numbers. -/
theorem map_binderHashes {files : List BinderFile} (hcount : files.length < 2 ^ 31) {β : Type}
    (f : UInt32 → Int → β) :
    (binderHashes files).map (fun h => f h.hash h.index.toInt)
      = files.zipIdx.map fun p => f (pathHash p.1.hashedName) p.2 := by
  rw [binderHashes, List.mapIdx_eq_zipIdx_map, List.map_map]
  refine List.map_congr_left fun p hp => ?_
  have hlt : p.2 < files.length := by simpa using (List.mem_zipIdx hp).2.1
  simp only [Function.comp_apply]
  rw [Int32.toInt_ofNat_of_lt (by omega)]
  rfl

variable {files : List BinderFile} {records : List PathHash} {groups : List (UInt32 × UInt32)}

/-- What is in the group list. -/
theorem getElem?_groups {piece : Nat → List PathHash} (hsmall : start piece groupCount < 2 ^ 32) {g : Nat}
    {len pos : UInt32} (h : ((List.range groupCount).map fun j =>
      (UInt32.ofNat (piece j).length, UInt32.ofNat (start piece j)))[g]? = some (len, pos)) :
    g < groupCount ∧ len.toNat = (piece g).length ∧ pos.toNat = start piece g := by
  rw [List.getElem?_map] at h
  obtain ⟨j, hj, hpair⟩ := Option.map_eq_some_iff.1 h
  obtain ⟨hlt, rfl⟩ := List.getElem?_eq_some_iff.1 hj
  rw [List.length_range] at hlt
  rw [List.getElem_range] at hpair
  cases hpair
  have hend : start piece (g + 1) ≤ start piece groupCount := start_le (by omega)
  rw [start_succ] at hend
  exact ⟨hlt, UInt32.toNat_ofNat_of_lt' (by show _ < 2 ^ 32; omega),
    UInt32.toNat_ofNat_of_lt' (by show _ < 2 ^ 32; omega)⟩

/-- The lengths of the groups before one add up to where it starts. -/
theorem sum_groups {piece : Nat → List PathHash} (hsmall : start piece groupCount < 2 ^ 32) {g : Nat}
    (hg : g ≤ groupCount) :
    ((((List.range groupCount).map fun j =>
      (UInt32.ofNat (piece j).length, UInt32.ofNat (start piece j))).take g).map fun group =>
        group.1.toNat).sum = start piece g := by
  induction g with
  | zero => rfl
  | succ g ih =>
      have hend : start piece (g + 1) ≤ start piece groupCount := start_le hg
      rw [start_succ] at hend ⊢
      have hlen : (UInt32.ofNat (piece g).length).toNat = (piece g).length :=
        UInt32.toNat_ofNat_of_lt' (by show _ < 2 ^ 32; omega)
      rw [List.take_add_one, List.map_append, List.sum_append, ih (by omega)]
      simp [List.getElem?_range (show g < groupCount by omega), hlen]

/-- The files of a group, out of the records. -/
theorem slice_joined {piece : Nat → List PathHash} {g : Nat} (hg : g < groupCount) :
    ((joined piece groupCount).drop (start piece g)).take (piece g).length = piece g :=
  (holds_joined hg).take_drop

/-- **Buckets one after another, each sorted, are an index.** -/
theorem hashIndex_joined (qs : Qsort) (hgroups : 0 < groupCount) (hcount : files.length < 2 ^ 31) :
    HashIndex files
      ((List.range groupCount).map fun j =>
        (UInt32.ofNat (hashBucket groupCount (binderHashes files) j).length,
          UInt32.ofNat (start (hashBucket groupCount (binderHashes files)) j)))
      (joined (sortedPiece qs (hashBucket groupCount (binderHashes files))) groupCount) := by
  let buckets := hashBucket groupCount (binderHashes files)
  let sorted := sortedPiece qs buckets
  have hkey : ∀ h ∈ binderHashes files, h.group groupCount < groupCount := fun h _ => Nat.mod_lt _ hgroups
  have hlen : (binderHashes files).length = files.length := by simp [binderHashes]
  have htotal : start buckets groupCount = files.length := (start_bucket hkey).trans hlen
  have hsmall : start buckets groupCount < 2 ^ 32 := by omega
  have hstart : ∀ j, start sorted j = start buckets j := start_sortedPiece qs buckets
  have hmem : ∀ j h, h ∈ sorted j → h.group groupCount = j := fun j h hh => by
    have hin := (sortedPiece_perm qs buckets j).mem_iff.1 hh
    simpa using (List.mem_filter.1 hin).2
  have hcountGroups : ((List.range groupCount).map fun j =>
      (UInt32.ofNat (buckets j).length, UInt32.ofNat (start buckets j))).length = groupCount := by simp
  constructor
  · intro g len pos hg
    obtain ⟨hlt, -, hpos⟩ := getElem?_groups hsmall hg
    rw [hpos]
    exact (sum_groups hsmall (by omega)).symm
  · have hall := sum_groups hsmall (le_refl groupCount)
    rw [List.take_of_length_le (by simp)] at hall
    rw [hall, htotal]
  · have hperm : (joined sorted groupCount).Perm (binderHashes files) :=
      (joined_perm fun j _ => sortedPiece_perm qs buckets j).trans (joined_bucket_perm_self hkey)
    rw [← map_binderHashes hcount fun hash index => (hash, index)]
    exact hperm.map _
  · intro k g h len pos hk hg
    obtain ⟨hlt, hlenG, hposG⟩ := getElem?_groups hsmall hg
    rw [hcountGroups, hlenG, hposG, ← start_succ, ← hstart, ← hstart]
    constructor
    · rintro ⟨hle, hlt'⟩
      exact hmem g h (mem_piece hlt hk hle hlt')
    · intro hgroup
      have hin : k < start sorted groupCount := by
        rw [← length_joined]
        exact (List.getElem?_eq_some_iff.1 hk).1
      obtain ⟨j, hj, hle, hlt'⟩ := exists_piece hin
      have hjg : h.group groupCount = j := hmem j h (mem_piece hj hk hle hlt')
      have heq : j = g := hjg.symm.trans hgroup
      rw [← heq]
      exact ⟨hle, hlt'⟩
  · intro g len pos hg
    obtain ⟨hlt, hlenG, hposG⟩ := getElem?_groups hsmall hg
    rw [hlenG, hposG, ← hstart, ← (sortedPiece_perm qs buckets g).length_eq]
    show (((joined sorted groupCount).drop (start sorted g)).take (sorted g).length).Pairwise _
    rw [slice_joined hlt]
    exact sortedPiece_sorted qs buckets g
  · intro hash
    have hlt : hash.toNat % groupCount < groupCount := Nat.mod_lt _ hgroups
    have hfound : ((List.range groupCount).map fun j =>
        (UInt32.ofNat (buckets j).length, UInt32.ofNat (start buckets j)))[hash.toNat % groupCount]?
        = some (UInt32.ofNat (buckets (hash.toNat % groupCount)).length,
          UInt32.ofNat (start buckets (hash.toNat % groupCount))) := by
      simp [List.getElem?_range hlt]
    obtain ⟨-, hlenG, hposG⟩ := getElem?_groups hsmall hfound
    have hslice : ((joined sorted groupCount).drop (start buckets (hash.toNat % groupCount))).take
        (buckets (hash.toNat % groupCount)).length = sorted (hash.toNat % groupCount) := by
      rw [← hstart, ← (sortedPiece_perm qs buckets _).length_eq]
      exact slice_joined hlt
    -- a name with this hash is in no other group
    have hsame : (buckets (hash.toNat % groupCount)).filter (fun h => h.hash = hash)
        = (binderHashes files).filter fun h => h.hash = hash := by
      show ((binderHashes files).filter _).filter _ = _
      rw [List.filter_filter]
      refine List.filter_congr fun h _ => ?_
      by_cases heq : h.hash = hash
      · simp [heq, PathHash.group]
      · simp [heq]
    have hscan : ((binderHashes files).filter fun h => h.hash = hash).map (fun h => h.index.toInt)
        = linearScan files hash := by
      have hmap := map_binderHashes hcount fun v index => if v = hash then some index else none
      have hfilter := congrArg (List.filterMap id) hmap
      rw [List.filterMap_map, List.filterMap_map] at hfilter
      rw [linearScan, ← List.filterMap_eq_map, ← List.filterMap_eq_map, List.filterMap_filter,
        List.filterMap_filter]
      simpa [Function.comp_def] using hfilter
    rw [bucketLookup, hcountGroups, hfound]
    simp only [hlenG, hposG]
    rw [hslice, ← hscan, ← hsame]
    exact ((sortedPiece_perm qs buckets _).filter _).map _

/-! ## The table in the file -/

open BinaryWriter

def hashGroupBytes (be : Bool) (group : UInt32 × UInt32) : List UInt8 :=
  wordBytes be 4 group.1.toNat ++ wordBytes be 4 group.2.toNat

def pathHashBytes (be : Bool) (h : PathHash) : List UInt8 :=
  wordBytes be 4 h.hash.toNat ++ wordBytes be 4 h.index.toUInt32.toNat

/-- The table as it stands at `pos`: where its records are, its groups and its records. -/
def hashTableBytes (be : Bool) (pos : Nat) (groups : List (UInt32 × UInt32)) (records : List PathHash) :
    List UInt8 :=
  wordBytes be 8 (Int64.ofNat (pos + 16 + groups.length * 8)).toUInt64.toNat ++
    (wordBytes be 4 (UInt32.ofNat groups.length).toNat ++ ([0x10, 0x08, 0x08, 0x00] ++
      (groups.flatMap (hashGroupBytes be) ++ records.flatMap (pathHashBytes be))))

/-- The one slot of the table. -/
def hashesOffsetSlot (pos : Nat) : FileSlots Unit where
  key _ := (cstr "HashesOffset", .i64)
  addr _ := pos
  key_inj _ _ _ := rfl

variable {pos : Nat} {be long : Bool}

/-- A slot that is reserved here is known from here on. -/
theorem puts_reserveHashesOffset {f : Unit → WriteM Unit} {Q : Unit → Stand → Prop}
    {G : Unit → Stand → List UInt8 → Prop}
    (hf : Puts (hashesOffsetSlot pos) (f ()) ⟨pos + 8, be, long⟩ Q G) :
    Puts noSlots (reserveI64 (cstr "HashesOffset") >>= f) ⟨pos, be, long⟩ Q G := by
  intro w w' v hw hrun
  obtain ⟨u, w1, hres, hf1⟩ := bind_eq_ok.1 hrun
  obtain ⟨hw1, hset, -, hmap, hpos, hback⟩ := hw.atEnd.reserve (k := .i64) hres
  have hstand : Stand.Describes (hashesOffsetSlot pos) ⟨pos + 8, be, long⟩ w1 := by
    refine ⟨hw1, by rw [hpos, hw.pos]; rfl, (congrArg Prod.fst hset).trans hw.bigEndian,
      (congrArg (fun s => s.2.1) hset).trans hw.varintLong, nofun, fun s p hp => ?_⟩
    have hkey : (hashesOffsetSlot pos).key s = (cstr "HashesOffset", scalarKind w.varintLong .i64) := rfl
    rw [hmap, hkey, Function.update_self, hw.pos] at hp
    exact (Option.some.inj hp).symm
  obtain ⟨st', hw', hQ, hG⟩ := hf w1 w' v hstand hf1
  exact ⟨st', ⟨hw'.atEnd, hw'.pos, hw'.bigEndian, hw'.varintLong, nofun, nofun⟩, hQ,
    fun B hB => ⟨hback B (hG B hB).1, (hG B hB).2⟩⟩

/-- Entries of eight bytes, one after another. -/
theorem puts_entries {σ γ : Type} {S : FileSlots σ} {f : Nat → γ → WriteM Unit} {bytes : γ → List UInt8}
    (hlen : ∀ a, (bytes a).length = 8)
    (hentry : ∀ i a p, Puts S (f i a) ⟨p, be, long⟩ (fun _ st => st = ⟨p + 8, be, long⟩)
      fun _ _ B => Holds B p (bytes a)) (l : List γ) :
    Puts S (forIndexed f 0 l) ⟨pos, be, long⟩ (fun _ st => st = ⟨pos + l.length * 8, be, long⟩)
      fun _ _ B => Holds B pos (l.flatMap bytes) := by
  have hstart : (⟨pos, be, long⟩ : Stand) = ⟨pos + 0 * 8, be, long⟩ := by simp
  have hloop := puts_forIndexed (S := S) (f := f) (fun i st => st = ⟨pos + i * 8, be, long⟩)
    (F := fun i a B => Holds B (pos + i * 8) (bytes a)) l (fun i a st _ hst => by
      subst hst
      refine (hentry i a _).conseq fun _ st' hst' => ⟨?_, fun B hB => hB⟩
      rw [hst', Nat.succ_mul, Nat.add_assoc]) hstart
  refine Puts.here (hloop.mono fun _ st hst B hB hpos => ?_)
  subst hst
  simp only at hpos
  exact holds_flatMap hlen l (by omega) hB

theorem puts_hashTable (qs : Qsort) (files : List BinderFile) (hcount : files.length < 2 ^ 31) :
    Puts noSlots (binderHashTableWrite qs files) ⟨pos, be, long⟩ (fun _ _ => True) fun _ _ B =>
      ∃ groups records, groups.length = binderHashTableGroupCount files.length ∧
        Holds B pos (hashTableBytes be pos groups records) ∧ HashIndex files groups records := by
  refine Puts.check fun hgroups => puts_binderAllocPair (puts_binderAllocPair ?_)
  let n := binderHashTableGroupCount files.length
  let buckets := hashBucket n (binderHashes files)
  let groups := (List.range n).map fun j =>
    (UInt32.ofNat (buckets j).length, UInt32.ofNat (start buckets j))
  let records := joined (sortedPiece qs buckets) n
  have hn : 0 < n := Nat.pos_of_ne_zero hgroups
  have hlen : (binderHashes files).length = files.length := by simp [binderHashes]
  have htotal : start buckets n = files.length :=
    (start_bucket fun h _ => Nat.mod_lt _ hn).trans hlen
  -- what the loops compute
  have hoffsets : bucketOffsets 0 (bucketLengths n (binderHashes files))
      = (List.range n).map fun j => UInt32.ofNat (start buckets j) := by
    have h := bucketOffsets_eq buckets 0 n
    rw [← List.range_eq_range'] at h
    rw [bucketLengths_eq]
    exact h
  have hgroupList : hashGroups files.length 0 (bucketOffsets 0 (bucketLengths n (binderHashes files)))
      = groups := by
    have h := hashGroups_eq buckets 0 n files.length (by rw [Nat.zero_add]; exact htotal)
    rw [← List.range_eq_range'] at h
    rw [hoffsets]
    exact h
  have hrecords : sortBuckets qs (orderHashes n (bucketOffsets 0 (bucketLengths n (binderHashes files)))
      (binderHashes files)) groups = records := by
    have h := sortBuckets_joined qs buckets 0 n [] rfl (by rw [Nat.zero_add, htotal]; omega)
    rw [← List.range_eq_range', List.nil_append, List.nil_append, ← joined_eq_joinedFrom,
      ← joined_eq_joinedFrom] at h
    rw [hoffsets, orderHashes_eq hn (by omega)]
    exact h
  have hcountGroups : groups.length = n := by simp [groups]
  show Puts noSlots (do
    reserveI64 (cstr "HashesOffset")
    writeU32 (UInt32.ofNat n)
    writeU8 0x10
    writeU8 0x08
    writeU8 0x08
    writeU8 0x00
    forIndexed writeHashGroup 0
      (hashGroups files.length 0 (bucketOffsets 0 (bucketLengths n (binderHashes files))))
    let pos ← peek position
    fillI64 (cstr "HashesOffset") (Int64.ofNat pos)
    forIndexed writePathHash 0 (sortBuckets qs
      (orderHashes n (bucketOffsets 0 (bucketLengths n (binderHashes files))) (binderHashes files))
      (hashGroups files.length 0 (bucketOffsets 0 (bucketLengths n (binderHashes files)))))) _ _ _
  rw [hgroupList, hrecords]
  refine puts_reserveHashesOffset (Puts.u32 (Puts.u8 (Puts.u8 (Puts.u8 (Puts.u8 ?_)))))
  have hgroup : ∀ (i : Nat) group p, Puts (hashesOffsetSlot pos) (writeHashGroup i group) ⟨p, be, long⟩
      (fun _ st => st = ⟨p + 8, be, long⟩) fun _ _ B => Holds B p (hashGroupBytes be group) :=
    fun i group p => Puts.i32 (Puts.last (Puts.i32 (Puts.done rfl fun B h2 h1 =>
      holds_append.2 ⟨h1, by rwa [length_wordBytes]⟩)))
  have hhash : ∀ (i : Nat) h p, Puts (hashesOffsetSlot pos) (writePathHash i h) ⟨p, be, long⟩
      (fun _ st => st = ⟨p + 8, be, long⟩) fun _ _ B => Holds B p (pathHashBytes be h) :=
    fun i h p => Puts.u32 (Puts.last (Puts.i32 (Puts.done rfl fun B h2 h1 =>
      holds_append.2 ⟨h1, by rwa [length_wordBytes]⟩)))
  refine (puts_entries (by simp [hashGroupBytes]) hgroup groups).seq fun _ st hst => ?_
  subst hst
  refine Puts.position (Puts.fillI64 () rfl ?_)
  refine (puts_entries (by simp [pathHashBytes]) hhash records).conseq fun _ st hst => ⟨trivial, ?_⟩
  intro B hrec hoffset hgrp h4 h3 h2 h1 hnum
  refine ⟨groups, records, hcountGroups, ?_, hashIndex_joined qs hn hcount⟩
  have hgroupsLen : (groups.flatMap (hashGroupBytes be)).length = groups.length * 8 :=
    length_flatMap_const groups fun b _ => by simp [hashGroupBytes]
  rw [hashTableBytes, hcountGroups]
  refine holds_append.2 ⟨?_, holds_append.2 ⟨?_, holds_append.2 ⟨?_, holds_append.2 ⟨?_, ?_⟩⟩⟩⟩
  · rw [← hcountGroups]
    exact hoffset
  · rwa [length_wordBytes]
  · rw [length_wordBytes, length_wordBytes]
    exact holds_cons.2 ⟨h1, holds_cons.2 ⟨h2, holds_cons.2 ⟨h3, h4⟩⟩⟩
  · rw [length_wordBytes, length_wordBytes]
    exact hgrp
  · rw [length_wordBytes, length_wordBytes, hgroupsLen]
    exact hrec

/-- **The hash table is an index of the files by the hashes of their names.** What a successful write leaves
    at the position are groups that follow one another over all the records, and records that are the
    files' hashes and indices, each in the group of its hash and ordered there; so the group of a hash has
    exactly the files that going over all of them finds. -/
theorem binder_hash_table_is_index (qs : Qsort) (files : List BinderFile) (hcount : files.length < 2 ^ 31)
    (w w' : BinaryWriter) (hw : AtEnd (fun _ => False) w)
    (hrun : binderHashTableWrite qs files w = (.ok (), w')) :
    ∃ groups records, groups.length = binderHashTableGroupCount files.length ∧
      Holds w'.content w.position (hashTableBytes w.bigEndian w.position groups records) ∧
        HashIndex files groups records := by
  have hstand : Stand.Describes noSlots ⟨w.position, w.bigEndian, w.varintLong⟩ w :=
    ⟨hw, rfl, rfl, rfl, nofun, nofun⟩
  obtain ⟨st, hst, -, hfinal⟩ := puts_hashTable qs files hcount w w' () hstand hrun
  exact (hfinal _ (becomes_self hst.atEnd)).2

/-- Three files, two of which have names with one hash. -/
def hashTableSample : List BinderFile :=
  [⟨0, some (cstr "b"), [], 0, .zlib⟩, ⟨1, some (cstr "a\\\\c"), [], 0, .zlib⟩,
    ⟨2, some (cstr "/B"), [], 0, .zlib⟩]

theorem hash_table_sample_is_index :
    ∃ groups records, groups.length = 2 ∧
      Holds (binderHashTableWrite .insertion hashTableSample (BinaryWriter.create false [])).2.content 0
        (hashTableBytes false 0 groups records) ∧ HashIndex hashTableSample groups records := by
  have hok : (binderHashTableWrite .insertion hashTableSample (BinaryWriter.create false [])).1 = .ok () := by
    decide +kernel
  have hrun : ∀ r : Except SfError Unit × BinaryWriter, r.1 = .ok () → r = (.ok (), r.2) :=
    fun r hr => Prod.ext hr rfl
  obtain ⟨groups, records, hcount, htable⟩ := binder_hash_table_is_index .insertion hashTableSample
    (by simp [hashTableSample]) (BinaryWriter.create false []) _ (atEnd_create false []) (hrun _ hok)
  exact ⟨groups, records, hcount.trans (by decide +kernel), htable⟩

end SoulsFormats
