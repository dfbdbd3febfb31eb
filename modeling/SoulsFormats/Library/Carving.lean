import Mathlib.Algebra.GroupWithZero.Nat
import Mathlib.Algebra.BigOperators.Group.List.Lemmas
import Mathlib.Tactic.Common

set_option autoImplicit false

/-! # Carving a pool

A pool that was filled from its start on is carved into slices, one for each content, in order; an empty content has
no place in it. -/

universe u

/-- The slices from `next` on: where each starts, and its length. -/
def carve : Nat → List Nat → List (Option Nat × Nat)
  | _, [] => []
  | next, n :: counts => (if n = 0 then none else some next, n) :: carve (next + n) counts

theorem carve_getElem? (next : Nat) (counts : List Nat) (i : Nat) :
    (carve next counts)[i]? =
      counts[i]?.map fun n => (if n = 0 then none else some (next + (counts.take i).sum), n) := by
  induction counts generalizing next i with
  | nil => simp [carve]
  | cons n counts ih =>
      cases i with
      | zero => simp [carve]
      | succ i => simp [carve, ih, Nat.add_assoc]

/-- What is asked of slices of a pool: each holds its content, those of different contents are apart, and nothing of
    the pool is left. -/
structure Carved {α : Type u} (pool : List (Option α)) (contents : List (List α)) (slices : List (Option Nat × Nat)) :
    Prop where
  counts : slices.map Prod.snd = contents.map List.length
  total : (contents.map List.length).sum = pool.length
  absent : ∀ (i count : Nat), slices[i]? = some (none, count) → count = 0
  held : ∀ (i start count : Nat), slices[i]? = some (some start, count) →
    start + count ≤ pool.length ∧ ∃ content, contents[i]? = some content ∧
      (pool.drop start).take count = content.map some
  apart : ∀ (i j start count start' count' : Nat), i < j → slices[i]? = some (some start, count) →
    slices[j]? = some (some start', count') → start + count ≤ start'

theorem carve_eq_some {counts : List Nat} {i start count : Nat}
    (h : (carve 0 counts)[i]? = some (some start, count)) :
    counts[i]? = some count ∧ start = (counts.take i).sum := by
  rw [carve_getElem?] at h
  obtain ⟨n, hn, hslice⟩ := Option.map_eq_some_iff.1 h
  rw [Prod.mk.injEq] at hslice
  obtain ⟨hstart, rfl⟩ := hslice
  split at hstart
  · cases hstart
  · simp only [Nat.zero_add, Option.some.injEq] at hstart
    exact ⟨hn, hstart.symm⟩

theorem sum_take_add_le {counts : List Nat} {i n : Nat} (h : counts[i]? = some n) {j : Nat} (hij : i < j) :
    (counts.take i).sum + n ≤ (counts.take j).sum := by
  have hnext : (counts.take (i + 1)).sum = (counts.take i).sum + n := by
    rw [List.take_add_one, h]
    simp
  have hprefix : counts.take (i + 1) <+: counts.take j := List.take_prefix_take_left hij
  obtain ⟨rest, hrest⟩ := hprefix
  rw [← hnext, ← hrest, List.sum_append]
  exact Nat.le_add_right _ _

/-- The slices of a pool that holds one content behind the other. -/
theorem carved_carve {α : Type u} (contents : List (List α)) :
    Carved (contents.flatten.map some) contents (carve 0 (contents.map List.length)) := by
  have hlen : (contents.flatten.map some).length = (contents.map List.length).sum := by
    rw [List.length_map, List.length_flatten]
  refine ⟨?_, hlen.symm, ?_, ?_, ?_⟩
  · refine List.ext_getElem? fun i => ?_
    rw [List.getElem?_map, carve_getElem?]
    cases (contents.map List.length)[i]? <;> rfl
  · intro i count h
    rw [carve_getElem?] at h
    obtain ⟨n, -, hslice⟩ := Option.map_eq_some_iff.1 h
    rw [Prod.mk.injEq] at hslice
    obtain ⟨hstart, rfl⟩ := hslice
    split at hstart
    · next hzero => exact hzero
    · cases hstart
  · intro i start count h
    obtain ⟨hcount, rfl⟩ := carve_eq_some h
    have hi : i < (contents.map List.length).length := (List.getElem?_eq_some_iff.1 hcount).1
    have hle := sum_take_add_le hcount hi
    rw [List.take_length] at hle
    rw [List.getElem?_map] at hcount
    obtain ⟨content, hcontent, rfl⟩ := Option.map_eq_some_iff.1 hcount
    refine ⟨hlen ▸ hle, content, hcontent, ?_⟩
    -- what is behind the contents before this one starts with it
    have hdrop : contents.drop i = content :: contents.drop (i + 1) := by
      obtain ⟨hlt, rfl⟩ := List.getElem?_eq_some_iff.1 hcontent
      exact List.drop_eq_getElem_cons hlt
    rw [← List.map_drop, List.drop_sum_flatten, hdrop, List.flatten_cons, List.map_append,
      List.take_append_of_le_length (by simp), List.take_of_length_le (by simp)]
  · intro i j start count start' count' hij h h'
    obtain ⟨hcount, rfl⟩ := carve_eq_some h
    obtain ⟨-, rfl⟩ := carve_eq_some h'
    exact sum_take_add_le hcount hij
