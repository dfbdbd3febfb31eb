import Mathlib.Data.List.TakeDrop
import SoulsFormats.Geom.FaceSet

set_option autoImplicit false

/-! # The triangles of a strip

What `sfi_flver2_face_set_triangulate` is for: `stripTriangles` cuts the indices at the restarts and takes the
consecutive triples of every segment. The walk visits exactly these triples, and each pass is a fold over them. -/

namespace SoulsFormats

open Fallible

/-! ## Strips -/

/-- Three neighbours each. -/
def consecutiveTriples (seg : List UInt32) : List Triangle := seg.zip (seg.tail.zip seg.tail.tail)

/-- What lies between the restarts, which only 16-bit indices have. -/
def stripSegments (indexSize : UInt8) (l : List UInt32) : List (List UInt32) :=
  if indexSize = 16 then l.splitOnP (· == RESTART_INDEX) else [l]

/-- The triangles of triples at the positions from `j` on. The position counts the degenerate ones too. -/
def keptTriangles (filterDegenerate : Bool) (triples : List Triangle) (j : Nat) : List Triangle :=
  ((triples.zipIdx j).filter fun p => !(filterDegenerate && facesetIsDegenerate p.1)).map
    fun p => windTriangle p.2 p.1

/-- The triangles of one segment. -/
def segmentTriangles (filterDegenerate : Bool) (seg : List UInt32) : List Triangle :=
  keptTriangles filterDegenerate (consecutiveTriples seg) 0

/-- The triangles of a strip. -/
def stripTriangles (indexSize : UInt8) (filterDegenerate : Bool) (l : List UInt32) : List Triangle :=
  (stripSegments indexSize l).flatMap (segmentTriangles filterDegenerate)

theorem stripTriangles_restart (filterDegenerate : Bool) (s1 s2 : List UInt32) :
    stripTriangles 16 filterDegenerate (s1 ++ [RESTART_INDEX] ++ s2) =
      stripTriangles 16 filterDegenerate s1 ++ stripTriangles 16 filterDegenerate s2 := by
  have hsplit : (s1 ++ [RESTART_INDEX] ++ s2).splitOnP (· == RESTART_INDEX) =
      s1.splitOnP (· == RESTART_INDEX) ++ s2.splitOnP (· == RESTART_INDEX) := by
    rw [List.append_assoc, List.singleton_append]
    exact List.splitOnP_append_cons s1 s2 rfl
  simp only [stripTriangles, stripSegments, if_true, hsplit, List.flatMap_append]

theorem windTriangle_perm (j : Nat) (t : Triangle) : (windTriangle j t).toList.Perm t.toList := by
  unfold windTriangle
  split
  · exact List.Perm.refl _
  · exact List.Perm.swap _ _ _

theorem mem_of_mem_consecutiveTriples {seg : List UInt32} {t : Triangle} (ht : t ∈ consecutiveTriples seg)
    {v : UInt32} (hv : v ∈ t.toList) : v ∈ seg := by
  obtain ⟨a, b, c⟩ := t
  obtain ⟨ha, hbc⟩ := List.of_mem_zip ht
  obtain ⟨hb, hc⟩ := List.of_mem_zip hbc
  simp only [Triangle.toList, List.mem_cons, List.not_mem_nil, or_false] at hv
  rcases hv with rfl | rfl | rfl
  · exact ha
  · exact List.mem_of_mem_tail hb
  · exact List.mem_of_mem_tail (List.mem_of_mem_tail hc)

theorem mem_of_mem_segmentTriangles {filterDegenerate : Bool} {seg : List UInt32} {t : Triangle}
    (ht : t ∈ segmentTriangles filterDegenerate seg) {v : UInt32} (hv : v ∈ t.toList) : v ∈ seg := by
  obtain ⟨p, hp, rfl⟩ := List.mem_map.1 ht
  have htriple : p.1 ∈ consecutiveTriples seg := List.fst_mem_of_mem_zipIdx (List.mem_of_mem_filter hp)
  exact mem_of_mem_consecutiveTriples htriple ((windTriangle_perm p.2 p.1).mem_iff.1 hv)

/-- A segment between restarts has none. -/
theorem restart_notMem_of_mem_splitOnP {l : List UInt32} {seg : List UInt32}
    (hseg : seg ∈ l.splitOnP (· == RESTART_INDEX)) : RESTART_INDEX ∉ seg := by
  induction l generalizing seg with
  | nil =>
      rw [List.splitOnP_nil, List.mem_singleton] at hseg
      simp [hseg]
  | cons a l ih =>
      rw [List.splitOnP_cons_eq_if_modifyHead] at hseg
      split at hseg
      · rcases List.mem_cons.1 hseg with rfl | hseg
        · simp
        · exact ih hseg
      · next ha =>
          rcases hl : l.splitOnP (· == RESTART_INDEX) with _ | ⟨first, rest⟩
          · exact absurd hl (List.splitOnP_ne_nil _ _)
          · rw [hl] at hseg ih
            rw [List.modifyHead_cons] at hseg
            rcases List.mem_cons.1 hseg with rfl | hrest
            · have hne : RESTART_INDEX ≠ a := fun heq => ha (by simp [heq])
              simpa [hne] using ih List.mem_cons_self
            · exact ih (List.mem_cons_of_mem _ hrest)

/-! ## The walk -/

section

variable {τ : Type} {visit : τ → Nat → Triangle → Except SfError τ} {fs : Flver2FaceSet}

/-- The fold over the triples of a segment. -/
def visitTriples (visit : τ → Nat → Triangle → Except SfError τ) (t : τ) (seg : List UInt32) : Except SfError τ :=
  (consecutiveTriples seg).zipIdx.foldlM (fun t p => visit t p.2 p.1) t

theorem indexAt_of_getElem? {l : List UInt32} (hl : fs.indices.getD [] = l) {i : Nat} {v : UInt32}
    (h : l[i]? = some v) : fs.indexAt i = .ok v := by
  rw [Flver2FaceSet.indexAt, hl, h]

/-- The triples from the `j`-th one on. The induction drops one index at a time. -/
theorem stripTriples_eq {start : Nat} {seg : List UInt32} {j : Nat}
    (hseg : ∀ i v, seg[i]? = some v → fs.indexAt (start + j + i) = .ok v) (t : τ) :
    (List.range' j (seg.length - 2)).foldlM (fun t j => do
        let i0 ← fs.indexAt (start + j)
        let i1 ← fs.indexAt (start + j + 1)
        let i2 ← fs.indexAt (start + j + 2)
        visit t j (i0, i1, i2)) t =
      ((consecutiveTriples seg).zipIdx j).foldlM (fun t p => visit t p.2 p.1) t := by
  induction seg generalizing j t with
  | nil => rfl
  | cons a seg ih =>
      rcases seg with _ | ⟨b, _ | ⟨c, rest⟩⟩
      · rfl
      · rfl
      · have ha := hseg 0 a rfl
        have hb := hseg 1 b rfl
        have hc := hseg 2 c rfl
        have hrest : ∀ i v, (b :: c :: rest)[i]? = some v → fs.indexAt (start + (j + 1) + i) = .ok v := by
          intro i v hv
          have hnext := hseg (i + 1) v hv
          rwa [show start + j + (i + 1) = start + (j + 1) + i by omega] at hnext
        have hlen : (a :: b :: c :: rest).length - 2 = (b :: c :: rest).length - 2 + 1 := by simp
        have htriples : consecutiveTriples (a :: b :: c :: rest) =
            (a, b, c) :: consecutiveTriples (b :: c :: rest) := rfl
        rw [hlen, List.range'_succ, htriples, List.zipIdx_cons, List.foldlM_cons, List.foldlM_cons]
        rw [Nat.add_zero] at ha
        rw [ha, hb, hc]
        change (visit t j (a, b, c) >>= _) = _
        cases hvisit : visit t j (a, b, c) with
        | error e => rfl
        | ok t' => exact ih hrest t'

theorem stripSegment_eq {pre seg : List UInt32} (post : List UInt32) (hl : fs.indices.getD [] = pre ++ seg ++ post) (t : τ) :
    stripSegment visit fs pre.length seg.length t = visitTriples visit t seg := by
  have hseg : ∀ i v, seg[i]? = some v → fs.indexAt (pre.length + 0 + i) = .ok v := by
    intro i v hv
    refine indexAt_of_getElem? hl ?_
    have hi := (List.getElem?_eq_some_iff.1 hv).1
    rw [List.append_assoc, List.getElem?_append_right (by omega), List.getElem?_append_left (by omega)]
    simpa using hv
  rw [stripSegment, List.range_eq_range', stripTriples_eq hseg]
  rfl

theorem restartAt_of_getElem? {l : List UInt32} (hl : fs.indices.getD [] = l) (hcount : l.length = fs.indexCount)
    {i : Nat} {v : UInt32} (h : l[i]? = some v) :
    fs.restartAt i = pure (decide (fs.indexSize = 16 ∧ v == RESTART_INDEX)) := by
  have hi : i < fs.indexCount := by
    rw [← hcount]
    exact (List.getElem?_eq_some_iff.1 h).1
  unfold Flver2FaceSet.restartAt
  by_cases hsize : fs.indexSize = 16
  · rw [if_pos ⟨hsize, hi⟩, indexAt_of_getElem? hl h]
    change (pure (v == RESTART_INDEX) : Except SfError Bool) = _
    simp [hsize, Bool.beq_eq_decide_eq]
  · rw [if_neg (by simp [hsize])]
    simp [hsize]

theorem restartAt_end : fs.restartAt fs.indexCount = pure false := by
  unfold Flver2FaceSet.restartAt
  rw [if_neg (by simp)]

/-- A round at which a segment ends. -/
theorem stripRound_ends {i start : Nat} {restart : Bool} (hrestart : fs.restartAt i = pure restart)
    (hends : i = fs.indexCount ∨ restart = true) (t : τ) :
    stripRound visit fs (t, start) i = (do
      let t ← stripSegment visit fs start (i - start) t
      pure (t, i + 1)) := by
  rw [stripRound, hrestart, pure_bind, if_pos hends]

theorem stripRound_goesOn {i start : Nat} {restart : Bool} (hrestart : fs.restartAt i = pure restart)
    (hends : ¬ (i = fs.indexCount ∨ restart = true)) (t : τ) : stripRound visit fs (t, start) i = pure (t, start) := by
  rw [stripRound, hrestart, pure_bind, if_neg hends]

/-- Cutting the rest of the indices goes on with the segment that has begun. -/
theorem stripSegments_cons (indexSize : UInt8) (v : UInt32) (rest : List UInt32) :
    stripSegments indexSize (v :: rest) =
      if indexSize = 16 ∧ v == RESTART_INDEX then [] :: stripSegments indexSize rest
      else (stripSegments indexSize rest).modifyHead (v :: ·) := by
  unfold stripSegments
  by_cases hsize : indexSize = 16
  · simp only [hsize, if_true, true_and]
    rw [List.splitOnP_cons_eq_if_modifyHead]
  · simp [hsize]

/-- From index `pre.length + seg.length` on, where the segment `seg` has begun. -/
theorem stripRounds_eq (visit : τ → Nat → Triangle → Except SfError τ) {rest : List UInt32} (pre seg : List UInt32) (hl : fs.indices.getD [] = pre ++ seg ++ rest)
    (hcount : (pre ++ seg ++ rest).length = fs.indexCount) (t : τ) :
    (List.range' (pre.length + seg.length) (rest.length + 1)).foldlM (stripRound visit fs) (t, pre.length) = (do
      let t ← ((stripSegments fs.indexSize rest).modifyHead (seg ++ ·)).foldlM (visitTriples visit) t
      pure (t, fs.indexCount + 1)) := by
  induction rest generalizing pre seg t with
  | nil =>
      have hend : pre.length + seg.length = fs.indexCount := by simpa using hcount
      have hlen : fs.indexCount - pre.length = seg.length := by omega
      have hsegs : (stripSegments fs.indexSize []).modifyHead (seg ++ ·) = [seg] := by
        unfold stripSegments
        split <;> simp
      rw [hsegs, hend, List.length_nil, Nat.zero_add, List.range'_one, List.foldlM_cons,
        stripRound_ends restartAt_end (Or.inl rfl), hlen, stripSegment_eq [] hl]
      simp
  | cons v rest ih =>
      have hne : pre.length + seg.length ≠ fs.indexCount := by
        simp only [List.length_append, List.length_cons] at hcount
        omega
      have hv : (pre ++ seg ++ v :: rest)[pre.length + seg.length]? = some v := by
        rw [List.getElem?_append_right (by simp)]
        simp
      have hat := restartAt_of_getElem? hl hcount hv
      rw [List.length_cons, List.range'_succ, List.foldlM_cons, stripSegments_cons]
      by_cases hrestart : fs.indexSize = 16 ∧ v == RESTART_INDEX
      · -- the segment ends here, and the next one is empty so far
        have hnext := fun t' => ih (pre ++ seg ++ [v]) [] (by simpa using hl) (by simpa using hcount) t'
        have hid : (stripSegments fs.indexSize rest).modifyHead ([] ++ ·) = stripSegments fs.indexSize rest := by
          cases stripSegments fs.indexSize rest <;> rfl
        have hlen : (pre ++ seg ++ [v]).length = pre.length + seg.length + 1 := by simp [Nat.add_assoc]
        simp only [hid, hlen, List.length_nil, Nat.add_zero] at hnext
        rw [stripRound_ends hat (Or.inr (decide_eq_true hrestart)), if_pos hrestart, Nat.add_sub_cancel_left,
          stripSegment_eq (v :: rest) hl, List.modifyHead_cons, List.append_nil, List.foldlM_cons,
          bind_assoc, bind_assoc]
        simp only [pure_bind, hnext]
      · -- the index belongs to the segment
        have hnext := ih pre (seg ++ [v]) (by simpa using hl) (by simpa using hcount) t
        have hhead : ((stripSegments fs.indexSize rest).modifyHead (v :: ·)).modifyHead (seg ++ ·) =
            (stripSegments fs.indexSize rest).modifyHead (seg ++ [v] ++ ·) := by
          cases stripSegments fs.indexSize rest with
          | nil => rfl
          | cons first others => simp
        rw [List.length_append, List.length_singleton, ← Nat.add_assoc] at hnext
        rw [stripRound_goesOn hat (by simpa [hne] using hrestart), pure_bind, if_neg hrestart, hhead, hnext]

theorem stripSweep_eq {l : List UInt32} (hl : fs.indices.getD [] = l) (hcount : l.length = fs.indexCount) (t : τ) :
    stripSweep visit fs t = (stripSegments fs.indexSize l).foldlM (visitTriples visit) t := by
  have hl' : fs.indices.getD [] = [] ++ [] ++ l := by simpa using hl
  have hcount' : ([] ++ [] ++ l).length = fs.indexCount := by simpa using hcount
  have hrounds := stripRounds_eq visit [] [] hl' hcount' t
  have hid : (stripSegments fs.indexSize l).modifyHead ([] ++ ·) = stripSegments fs.indexSize l := by
    cases stripSegments fs.indexSize l <;> rfl
  rw [hid, hcount, List.length_nil] at hrounds
  rw [stripSweep, List.range_eq_range', hrounds, bind_assoc]
  simp

end

/-! ## The two passes -/

section

variable {filterDegenerate : Bool}

theorem keptTriangles_cons (t : Triangle) (triples : List Triangle) (j : Nat) :
    keptTriangles filterDegenerate (t :: triples) j =
      if filterDegenerate && facesetIsDegenerate t then keptTriangles filterDegenerate triples (j + 1)
      else windTriangle j t :: keptTriangles filterDegenerate triples (j + 1) := by
  unfold keptTriangles
  rw [List.zipIdx_cons, List.filter_cons]
  cases h : filterDegenerate && facesetIsDegenerate t <;> simp

theorem countTriples_eq (filterDegenerate : Bool) (triples : List Triangle) (j total : Nat) :
    (triples.zipIdx j).foldlM (fun (total : Nat) (p : Triangle × Nat) =>
        (pure (if !filterDegenerate || !facesetIsDegenerate p.1 then total + 1 else total) : Except SfError Nat)) total =
      pure (total + (keptTriangles filterDegenerate triples j).length) := by
  induction triples generalizing j total with
  | nil => rfl
  | cons t triples ih =>
      rw [List.zipIdx_cons, List.foldlM_cons, pure_bind, ih, keptTriangles_cons]
      cases hfilter : filterDegenerate && facesetIsDegenerate t with
      | true => simp_all
      | false =>
          rw [if_pos (by simpa [Bool.not_and] using congrArg not hfilter), if_neg (by simp), List.length_cons]
          congr 1
          omega

/-- The words of a triangle go to the next three places. -/
theorem putIndices_eq (done rest : List UInt32) (t : Triangle) {a b c : UInt32} :
    t.toList.foldlM putIndex (done ++ a :: b :: c :: rest, done.length) =
      .ok (done ++ t.toList ++ rest, (done ++ t.toList).length) := by
  have hput : ∀ (done rest : List UInt32) (a v : UInt32),
      putIndex (done ++ a :: rest, done.length) v = .ok (done ++ [v] ++ rest, (done ++ [v]).length) := by
    intro done rest a v
    rw [putIndex, if_pos (by simp)]
    simp
  obtain ⟨x, y, z⟩ := t
  rw [Triangle.toList, List.foldlM_cons, hput]
  change List.foldlM putIndex (done ++ [x] ++ b :: c :: rest, (done ++ [x]).length) [y, z] = _
  rw [List.foldlM_cons, hput]
  change List.foldlM putIndex (done ++ [x] ++ [y] ++ c :: rest, (done ++ [x] ++ [y]).length) [z] = _
  rw [List.foldlM_cons, hput]
  simp

/-- The words that `n` triangles fill. -/
def triangleWords (ts : List Triangle) : List UInt32 := ts.flatMap Triangle.toList

theorem length_triangleWords (ts : List Triangle) : (triangleWords ts).length = 3 * ts.length := by
  induction ts with
  | nil => rfl
  | cons t ts ih =>
      rw [triangleWords, List.flatMap_cons, List.length_append]
      rw [triangleWords] at ih
      rw [ih, List.length_cons, Triangle.toList]
      simp only [List.length_cons, List.length_nil]
      omega

/-- A block that has room for the triangles: they are written behind what is there. -/
theorem emitTriples_eq (filterDegenerate : Bool) (triples : List Triangle) (j : Nat) (done rest : List UInt32)
    (hroom : 3 * (keptTriangles filterDegenerate triples j).length ≤ rest.length) :
    (triples.zipIdx j).foldlM (fun s (p : Triangle × Nat) =>
        if filterDegenerate && facesetIsDegenerate p.1 then (pure s : Except SfError (List UInt32 × Nat))
        else (windTriangle p.2 p.1).toList.foldlM putIndex s) (done ++ rest, done.length) =
      .ok (done ++ triangleWords (keptTriangles filterDegenerate triples j)
          ++ rest.drop (3 * (keptTriangles filterDegenerate triples j).length),
        (done ++ triangleWords (keptTriangles filterDegenerate triples j)).length) := by
  induction triples generalizing j done rest with
  | nil => simp [keptTriangles, triangleWords]; rfl
  | cons t triples ih =>
      rw [keptTriangles_cons] at hroom ⊢
      rw [List.zipIdx_cons, List.foldlM_cons]
      cases hfilter : filterDegenerate && facesetIsDegenerate t with
      | true =>
          rw [hfilter, if_pos rfl] at hroom
          rw [if_pos rfl, pure_bind, if_pos rfl]
          exact ih (j + 1) done rest hroom
      | false =>
          rw [hfilter, if_neg (by simp), List.length_cons] at hroom
          rw [if_neg (by simp), if_neg (by simp)]
          rcases rest with _ | ⟨a, _ | ⟨b, _ | ⟨c, rest⟩⟩⟩
          · simp at hroom
          · simp at hroom
            omega
          · simp at hroom
            omega
          · rw [putIndices_eq]
            have hnext := ih (j + 1) (done ++ (windTriangle j t).toList) rest (by
              simp only [List.length_cons] at hroom
              omega)
            have hdrop : (a :: b :: c :: rest).drop
                (3 * (windTriangle j t :: keptTriangles filterDegenerate triples (j + 1)).length) =
                rest.drop (3 * (keptTriangles filterDegenerate triples (j + 1)).length) := by
              rw [List.length_cons, Nat.mul_add, Nat.mul_one]
              rfl
            have hwords : triangleWords (windTriangle j t :: keptTriangles filterDegenerate triples (j + 1)) =
                (windTriangle j t).toList ++ triangleWords (keptTriangles filterDegenerate triples (j + 1)) := rfl
            rw [hdrop, hwords, ← List.append_assoc]
            exact hnext

theorem triangleWords_append (ts us : List Triangle) :
    triangleWords (ts ++ us) = triangleWords ts ++ triangleWords us := List.flatMap_append

theorem countSegments_eq (filterDegenerate : Bool) (segs : List (List UInt32)) (total : Nat) :
    segs.foldlM (visitTriples fun (total : Nat) _ t =>
        pure (if !filterDegenerate || !facesetIsDegenerate t then total + 1 else total)) total =
      .ok (total + (segs.flatMap (segmentTriangles filterDegenerate)).length) := by
  induction segs generalizing total with
  | nil => rfl
  | cons seg segs ih =>
      have hseg := countTriples_eq filterDegenerate (consecutiveTriples seg) 0 total
      rw [List.foldlM_cons, visitTriples, hseg, pure_bind, ih, List.flatMap_cons, List.length_append,
        segmentTriangles, Nat.add_assoc]

theorem emitSegments_eq (filterDegenerate : Bool) (segs : List (List UInt32)) (done rest : List UInt32)
    (hroom : 3 * (segs.flatMap (segmentTriangles filterDegenerate)).length ≤ rest.length) :
    segs.foldlM (visitTriples fun s j t =>
        if filterDegenerate && facesetIsDegenerate t then pure s
        else (windTriangle j t).toList.foldlM putIndex s) (done ++ rest, done.length) =
      .ok (done ++ triangleWords (segs.flatMap (segmentTriangles filterDegenerate))
          ++ rest.drop (3 * (segs.flatMap (segmentTriangles filterDegenerate)).length),
        (done ++ triangleWords (segs.flatMap (segmentTriangles filterDegenerate))).length) := by
  induction segs generalizing done rest with
  | nil => simp [triangleWords]; rfl
  | cons seg segs ih =>
      rw [List.flatMap_cons, List.length_append] at hroom ⊢
      have hseg := emitTriples_eq filterDegenerate (consecutiveTriples seg) 0 done rest
        (by rw [← segmentTriangles]; omega)
      rw [List.foldlM_cons, visitTriples, hseg]
      rw [← segmentTriangles]
      have hnext := ih (done ++ triangleWords (segmentTriangles filterDegenerate seg))
        (rest.drop (3 * (segmentTriangles filterDegenerate seg).length)) (by
          rw [List.length_drop]
          omega)
      rw [triangleWords_append, ← List.append_assoc, Nat.mul_add, ← List.drop_drop]
      exact hnext

variable {fs : Flver2FaceSet} {l : List UInt32}

theorem facesetStripTriangleCount_eq (hl : fs.indices.getD [] = l) (hcount : l.length = fs.indexCount) :
    facesetStripTriangleCount fs filterDegenerate =
      .ok (stripTriangles fs.indexSize filterDegenerate l).length := by
  rw [facesetStripTriangleCount, stripSweep_eq hl hcount, countSegments_eq, Nat.zero_add, stripTriangles]

/-- A block with room for all triangles is filled from its start. -/
theorem facesetEmitTriangles_eq (hl : fs.indices.getD [] = l) (hcount : l.length = fs.indexCount)
    {block : List UInt32} (hroom : block.length = 3 * (stripTriangles fs.indexSize filterDegenerate l).length) :
    facesetEmitTriangles fs filterDegenerate block =
      .ok (triangleWords (stripTriangles fs.indexSize filterDegenerate l), block.length) := by
  have hemit := emitSegments_eq filterDegenerate (stripSegments fs.indexSize l) [] block
    hroom.ge
  rw [← stripTriangles, List.nil_append, List.nil_append, ← hroom, List.drop_length, List.append_nil,
    length_triangleWords, ← hroom] at hemit
  rw [facesetEmitTriangles, stripSweep_eq hl hcount]
  exact hemit

theorem restart_notMem_stripTriangles (l : List UInt32) :
    RESTART_INDEX ∉ triangleWords (stripTriangles 16 filterDegenerate l) := by
  intro hmem
  obtain ⟨t, ht, hv⟩ := List.mem_flatMap.1 hmem
  obtain ⟨seg, hseg, ht⟩ := List.mem_flatMap.1 ht
  rw [stripSegments, if_pos rfl] at hseg
  exact restart_notMem_of_mem_splitOnP hseg (mem_of_mem_segmentTriangles ht hv)

theorem not_nullIndices (hl : fs.indices.getD [] = l) (hcount : l.length = fs.indexCount) :
    ¬ (0 < fs.indexCount ∧ fs.indices = none) := by
  rintro ⟨hpos, hnull⟩
  rw [hnull, Option.getD_none] at hl
  rw [← hl, List.length_nil] at hcount
  omega

theorem length_junkIndices (junk : List UInt8) (n : Nat) : (junkIndices junk n).length = n := List.takeD_length ..

/-- Triangulating a strip: whatever the allocator says, a result is the words of the triangles. -/
theorem flver2FaceSetTriangulate_strip (hstrip : fs.triangleStrip = true) (hl : fs.indices.getD [] = l)
    (hcount : l.length = fs.indexCount) {heap heap' : Heap} {out : List UInt32 × Nat}
    (hrun : flver2FaceSetTriangulate fs filterDegenerate heap = (.ok out, heap')) :
    out = (triangleWords (stripTriangles fs.indexSize filterDegenerate l),
      3 * (stripTriangles fs.indexSize filterDegenerate l).length) := by
  unfold flver2FaceSetTriangulate at hrun
  rw [check_bind_pos (not_nullIndices hl hcount), if_neg (by simp [hstrip]), facesetStripTriangleCount_eq hl hcount,
    bind_ok (lift_run _ _)] at hrun
  split at hrun
  · next hnone =>
      have hnil := List.length_eq_zero_iff.1 hnone
      cases hrun
      rw [hnil]
      rfl
  · obtain ⟨⟨⟩, h1, -, hrun⟩ := bind_eq_ok.1 hrun
    obtain ⟨junk, h2, -, hrun⟩ := bind_eq_ok.1 hrun
    have hlen := length_junkIndices junk ((stripTriangles fs.indexSize filterDegenerate l).length * 3)
    rw [Nat.mul_comm] at hlen
    rw [Nat.mul_comm, facesetEmitTriangles_eq hl hcount hlen, lift_run, hlen] at hrun
    cases hrun
    rfl

/-- The triangulation goes through where the block can be had. -/
theorem flver2FaceSetTriangulate_succeeds (hstrip : fs.triangleStrip = true) (hl : fs.indices.getD [] = l)
    (hcount : l.length = fs.indexCount)
    (hsize : (stripTriangles fs.indexSize filterDegenerate l).length ≤ SIZE_MAX / 12) {heap : Heap}
    (hcalm : heap.Calm) : ∃ out heap', flver2FaceSetTriangulate fs filterDegenerate heap = (.ok out, heap') := by
  unfold flver2FaceSetTriangulate
  rw [check_bind_pos (not_nullIndices hl hcount), if_neg (by simp [hstrip]), facesetStripTriangleCount_eq hl hcount,
    bind_ok (lift_run _ _)]
  split
  · exact ⟨_, _, rfl⟩
  · obtain ⟨junk, heap', halloc, -⟩ := Heap.alloc_calm hcalm
    have hlen := length_junkIndices junk ((stripTriangles fs.indexSize filterDegenerate l).length * 3)
    rw [Nat.mul_comm] at hlen
    rw [check_bind_pos hsize, bind_ok halloc, Nat.mul_comm, facesetEmitTriangles_eq hl hcount hlen]
    exact ⟨_, _, rfl⟩

/-! ## Strips as face sets -/

/-- A face set that is a strip with the indices `l`, which may be no array at all if there are none. -/
structure IsStrip (fs : Flver2FaceSet) (indexSize : UInt8) (l : List UInt32) : Prop where
  strip : fs.triangleStrip = true
  size : fs.indexSize = indexSize
  indices : fs.indices.getD [] = l
  count : l.length = fs.indexCount

end

/-- The passes agree on the number of triangles, the second one fills the block that the first one asks for, and
    what is returned is the triangles of the segments one after another, with no restart among them. -/
theorem strip_triangulation_exact (fs : Flver2FaceSet) (indexSize : UInt8) (l : List UInt32)
    (filterDegenerate : Bool) (hfs : IsStrip fs indexSize l) :
    let triangles := stripTriangles indexSize filterDegenerate l
    facesetStripTriangleCount fs filterDegenerate = .ok triangles.length ∧
    (∀ block : List UInt32, block.length = 3 * triangles.length →
      facesetEmitTriangles fs filterDegenerate block = .ok (triangleWords triangles, 3 * triangles.length)) ∧
    (∀ heap out heap', flver2FaceSetTriangulate fs filterDegenerate heap = (.ok out, heap') →
      out = (triangleWords triangles, 3 * triangles.length)) ∧
    (∀ heap : Heap, heap.Calm → triangles.length ≤ SIZE_MAX / 12 →
      ∃ out heap', flver2FaceSetTriangulate fs filterDegenerate heap = (.ok out, heap')) ∧
    (indexSize = 16 → RESTART_INDEX ∉ triangleWords triangles) ∧
    (indexSize = 16 → ∀ s1 s2 fs1 fs2, l = s1 ++ [RESTART_INDEX] ++ s2 → IsStrip fs1 16 s1 → IsStrip fs2 16 s2 →
      ∀ heap heap1 heap2 out out1 out2, (flver2FaceSetTriangulate fs filterDegenerate heap).1 = .ok out →
        (flver2FaceSetTriangulate fs1 filterDegenerate heap1).1 = .ok out1 →
        (flver2FaceSetTriangulate fs2 filterDegenerate heap2).1 = .ok out2 →
        out.1 = out1.1 ++ out2.1) := by
  obtain ⟨hstrip, rfl, hl, hcount⟩ := hfs
  refine ⟨facesetStripTriangleCount_eq hl hcount, ?_, ?_, ?_, ?_, ?_⟩
  · intro block hroom
    rw [facesetEmitTriangles_eq hl hcount hroom, hroom]
  · intro heap out heap' hrun
    exact flver2FaceSetTriangulate_strip hstrip hl hcount hrun
  · intro heap hcalm hsize
    exact flver2FaceSetTriangulate_succeeds hstrip hl hcount hsize hcalm
  · intro hsize
    rw [hsize]
    exact restart_notMem_stripTriangles l
  · intro hsize s1 s2 fs1 fs2 hsplit h1 h2 heap heap1 heap2 out out1 out2 hrun hrun1 hrun2
    have hout := flver2FaceSetTriangulate_strip hstrip hl hcount (Prod.ext hrun rfl)
    have hout1 := flver2FaceSetTriangulate_strip h1.strip h1.indices h1.count (Prod.ext hrun1 rfl)
    have hout2 := flver2FaceSetTriangulate_strip h2.strip h2.indices h2.count (Prod.ext hrun2 rfl)
    rw [hout, hout1, hout2, hsize, h1.size, h2.size, hsplit, stripTriangles_restart]
    exact triangleWords_append _ _

/-- A strip with a restart in it and a degenerate triple. -/
def sampleStrip : Flver2FaceSet where
  triangleStrip := true
  indexSize := 16
  indexCount := 9
  indices := some [1, 2, 3, 4, 4, 0xFFFF, 5, 6, 7]
  sized := by rintro l ⟨⟩; rfl

theorem sampleStrip_triangulated : ∃ heap',
    flver2FaceSetTriangulate sampleStrip true [] = (.ok ([1, 2, 3, 3, 2, 4, 5, 6, 7], 9), heap') := by
  have hexact := strip_triangulation_exact sampleStrip 16 [1, 2, 3, 4, 4, 0xFFFF, 5, 6, 7] true ⟨rfl, rfl, rfl, rfl⟩
  obtain ⟨-, -, hresult, hsucceeds, -, -⟩ := hexact
  obtain ⟨out, heap', hrun⟩ := hsucceeds [] Heap.calm_nil (by decide)
  have hout := hresult _ _ _ hrun
  exact ⟨heap', by rw [hrun, hout]; rfl⟩

end SoulsFormats
