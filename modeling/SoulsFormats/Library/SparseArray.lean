import SoulsFormats.Library.Bytes

set_option autoImplicit false

/-! # Sparse arrays

What a sequence of stores at arbitrary offsets leaves behind, cell by cell: each cell has what was stored
there last, or nothing. `stop` is the least bound of the cells that have something, and `contents` fills the
cells below it that have nothing. For bytes this is what `overwrite` does to a byte string. -/

/-- An array with holes. -/
structure SparseArray (α : Type) where
  cell : Nat → Option α
  stop : Nat
  stop_le : ∀ n, stop ≤ n ↔ ∀ i, n ≤ i → cell i = none

namespace SparseArray

variable {α : Type}

/-- Nothing is stored. -/
def empty : SparseArray α := ⟨fun _ => none, 0, fun n => by simp⟩

/-- What is stored at `p` covers what was stored there before. -/
def storeCell (cell : Nat → Option α) (p : Nat) (x : List α) (i : Nat) : Option α :=
  if p ≤ i ∧ i < p + x.length then x[i - p]? else cell i

theorem storeCell_nil (cell : Nat → Option α) (p : Nat) : storeCell cell p [] = cell := by
  funext i
  have hout : ¬ (p ≤ i ∧ i < p + ([] : List α).length) := by simp
  rw [storeCell, if_neg hout]

/-- Storing something moves the bound to the end of what is stored, unless the bound is beyond it. -/
theorem stop_storeCell (a : SparseArray α) (p : Nat) (x : List α) (n : Nat) :
    (if x = [] then a.stop else max a.stop (p + x.length)) ≤ n ↔
      ∀ i, n ≤ i → storeCell a.cell p x i = none := by
  split
  · next hx => rw [hx, storeCell_nil, a.stop_le]
  · next hx =>
      have hlen : 0 < x.length := List.length_pos_iff.2 hx
      constructor
      · intro hn i hi
        have hout : ¬ (p ≤ i ∧ i < p + x.length) := by omega
        rw [storeCell, if_neg hout]
        exact (a.stop_le n).1 (by omega) i hi
      · intro h
        -- the last cell stored is taken, so the bound is past it
        have hend : p + x.length ≤ n := by
          by_contra hlt
          have hlast := h (max n (p + x.length - 1)) (by omega)
          rw [storeCell, if_pos (by omega), List.getElem?_eq_none_iff] at hlast
          omega
        have hstop : a.stop ≤ n := (a.stop_le n).2 fun i hi => by
          have hout : ¬ (p ≤ i ∧ i < p + x.length) := by omega
          have hcell := h i hi
          rwa [storeCell, if_neg hout] at hcell
        omega

/-- Store `x` at `p`. -/
def store (a : SparseArray α) (p : Nat) (x : List α) : SparseArray α :=
  ⟨storeCell a.cell p x, if x = [] then a.stop else max a.stop (p + x.length), stop_storeCell a p x⟩

/-- The cells below the bound, with `hole` where nothing is stored. -/
def contents (hole : α) (a : SparseArray α) : List α :=
  (List.range a.stop).map fun i => (a.cell i).getD hole

@[simp] theorem length_contents (hole : α) (a : SparseArray α) : (a.contents hole).length = a.stop := by
  simp [contents]

@[simp] theorem contents_empty (hole : α) : (empty : SparseArray α).contents hole = [] := rfl

theorem getElem?_contents (hole : α) (a : SparseArray α) (i : Nat) :
    (a.contents hole)[i]? = if i < a.stop then some ((a.cell i).getD hole) else none := by
  by_cases hi : i < a.stop <;> simp [contents, hi]

/-- Storing nothing does nothing. -/
@[simp] theorem store_nil (a : SparseArray α) (p : Nat) : a.store p [] = a := by
  obtain ⟨cell, stop, h⟩ := a
  simp [store, storeCell_nil]

theorem stop_store {a : SparseArray α} {p : Nat} {x : List α} (hx : x ≠ []) :
    (a.store p x).stop = max a.stop (p + x.length) := if_neg hx

/-- **Storing bytes overwrites the contents.** Past the bound the gap is filled with zeros. -/
theorem contents_store {a : SparseArray UInt8} {p : Nat} {x : List UInt8} (hx : x ≠ []) :
    (a.store p x).contents 0 = Bytes.overwrite (a.contents 0) p x := by
  apply List.ext_getElem?
  intro i
  rw [getElem?_contents, stop_store hx]
  by_cases hin : p ≤ i ∧ i < p + x.length
  · have hget : x[i - p]? = some x[i - p] := List.getElem?_eq_getElem (by omega)
    rw [if_pos (by omega), Bytes.getElem?_overwrite_of_mem hin.1 hin.2]
    simp only [store, storeCell, hin, and_self, if_true, hget, Option.getD_some]
  · have hcell : (a.store p x).cell i = a.cell i := if_neg hin
    rw [hcell]
    by_cases hold : i < a.stop
    · rw [if_pos (by omega), Bytes.getElem?_overwrite_of_not_mem (.inl (by simpa using hold)) (by omega),
        getElem?_contents, if_pos hold]
    · have hnone : a.cell i = none := (a.stop_le i).1 (by omega) i le_rfl
      rw [hnone, Option.getD_none]
      by_cases hgap : i < p
      · -- between the bound and the place of the store
        rw [if_pos (by omega), Bytes.overwrite_gap (by rw [length_contents]; omega), List.append_assoc,
          List.getElem?_append_right (by rw [length_contents]; omega), length_contents,
          List.getElem?_append_left (by rw [List.length_replicate]; omega),
          List.getElem?_replicate_of_lt (by omega)]
      · rw [if_neg (by omega), List.getElem?_eq_none (by
          rw [Bytes.length_overwrite, length_contents]
          omega)]

end SparseArray
