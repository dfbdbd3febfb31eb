import SoulsFormats.Library.Stores

set_option autoImplicit false

/-! # Stores that follow one another

Stores tile a range if each starts where the one before ends. What the range holds after them depends on the stores
only. -/

namespace Bytes

/-- The stores fill `lo` up to `hi`, in order and without a gap. -/
def Tiles : Nat → List Store → Nat → Prop
  | lo, [], hi => lo = hi
  | lo, s :: stores, hi => s.1 = lo ∧ Tiles (lo + s.2.length) stores hi

/-- How many bytes the stores write. -/
def extent (stores : List Store) : Nat := (stores.map fun s => s.2.length).sum

@[simp] theorem extent_nil : extent [] = 0 := rfl

@[simp] theorem extent_cons (s : Store) (stores : List Store) :
    extent (s :: stores) = s.2.length + extent stores := List.sum_cons

theorem length_flatMap_snd (stores : List Store) : (stores.flatMap Prod.snd).length = extent stores :=
  List.length_flatMap

variable {stores : List Store} {lo hi : Nat}

theorem Tiles.extent_eq (h : Tiles lo stores hi) : lo + extent stores = hi := by
  induction stores generalizing lo with
  | nil => exact h
  | cons s stores ih =>
      rw [extent_cons, ← Nat.add_assoc]
      exact ih h.2

/-- Stores that follow one another fill exactly what they write. -/
theorem Tiles.iff_extent {hi' : Nat} (h : Tiles lo stores hi) : Tiles lo stores hi' ↔ lo + extent stores = hi' := by
  constructor
  · exact Tiles.extent_eq
  · rintro rfl
    rwa [h.extent_eq]

/-- A store inside the buffer. -/
theorem overwrite_inside {buf x : List UInt8} {p : Nat} (h : p + x.length ≤ buf.length) :
    overwrite buf p x = buf.take p ++ x ++ buf.drop (p + x.length) := by
  have hgap : p - buf.length = 0 := by omega
  rw [overwrite, hgap, List.replicate_zero, List.append_nil]

/-- What is in the buffer afterwards: in the range there is nothing left of what was there before. -/
theorem Tiles.applyStores_eq (h : Tiles lo stores hi) {buf : List UInt8} (hhi : hi ≤ buf.length) :
    applyStores buf stores = buf.take lo ++ stores.flatMap Prod.snd ++ buf.drop hi := by
  induction stores generalizing lo buf with
  | nil =>
      cases h
      simp
  | cons s stores ih =>
      obtain ⟨rfl, hrest⟩ := h
      have hle := hrest.extent_eq
      have hroom : s.1 + s.2.length ≤ buf.length := by omega
      have hlen : (buf.take s.1 ++ s.2).length = s.1 + s.2.length := by
        rw [List.length_append, List.length_take, Nat.min_eq_left (by omega)]
      have hsame : (overwrite buf s.1 s.2).length = buf.length := by
        rw [length_overwrite, Nat.max_eq_left hroom]
      have htake : (overwrite buf s.1 s.2).take (s.1 + s.2.length) = buf.take s.1 ++ s.2 := by
        rw [overwrite_inside hroom, List.take_append_of_le_length hlen.ge, ← hlen, List.take_length]
      have hdrop : (overwrite buf s.1 s.2).drop hi = buf.drop hi := by
        rw [overwrite_inside hroom, List.drop_append, List.drop_of_length_le (hlen.trans_le (by omega)),
          List.nil_append, hlen, List.drop_drop, Nat.add_sub_cancel' (by omega)]
      rw [applyStores_cons, ih hrest (hsame.symm ▸ hhi), htake, hdrop, List.flatMap_cons, ← List.append_assoc]

theorem Tiles.length_applyStores (h : Tiles lo stores hi) {buf : List UInt8} (hhi : hi ≤ buf.length) :
    (applyStores buf stores).length = buf.length := by
  have hextent := h.extent_eq
  rw [h.applyStores_eq hhi, List.length_append, List.length_append, length_flatMap_snd, List.length_take,
    List.length_drop]
  omega

end Bytes
