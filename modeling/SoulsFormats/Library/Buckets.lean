import Mathlib.Data.List.Perm.Basic
import SoulsFormats.Library.Bytes

set_option autoImplicit false

/-! # Lists in pieces

A list that is its pieces one after another, each starting where the one before it ends. The buckets of a key
are such pieces of a permutation of the list: `joined (bucket key l) n` is what a counting sort by the key
makes of `l`. -/

namespace Buckets

open Bytes

variable {α : Type}

/-- The elements with one key, in their order. -/
def bucket (key : α → Nat) (l : List α) (j : Nat) : List α := l.filter fun a => key a = j

/-- Where the `j`-th piece starts. -/
def start (piece : Nat → List α) : Nat → Nat
  | 0 => 0
  | j + 1 => start piece j + (piece j).length

/-- The first `n` pieces, one after another. -/
def joined (piece : Nat → List α) : Nat → List α
  | 0 => []
  | n + 1 => joined piece n ++ piece n

variable {key : α → Nat} {l : List α} {piece piece' : Nat → List α} {n : Nat}

@[simp] theorem start_zero : start piece 0 = 0 := rfl

theorem start_succ (j : Nat) : start piece (j + 1) = start piece j + (piece j).length := rfl

@[simp] theorem length_joined (piece : Nat → List α) (n : Nat) : (joined piece n).length = start piece n := by
  induction n with
  | zero => rfl
  | succ n ih => simp [joined, start, ih]

theorem start_le {i j : Nat} (h : i ≤ j) : start piece i ≤ start piece j := by
  induction h with
  | refl => exact le_rfl
  | step _ ih => exact ih.trans (Nat.le_add_right _ _)

/-- Pieces of the same lengths start at the same places. -/
theorem start_congr (h : ∀ j, (piece j).length = (piece' j).length) (n : Nat) :
    start piece n = start piece' n := by
  induction n with
  | zero => rfl
  | succ n ih => simp [start, ih, h]

/-- Every piece is found where it starts. -/
theorem holds_joined {j : Nat} (hj : j < n) : Holds (joined piece n) (start piece j) (piece j) := by
  induction n with
  | zero => omega
  | succ n ih =>
      rcases Nat.lt_succ_iff_lt_or_eq.1 hj with hlt | rfl
      · exact (ih hlt).append_right (piece n)
      · have hlast := holds_length_append (joined piece j) (piece j)
        rwa [length_joined] at hlast

/-- Every place is in one of the pieces. -/
theorem exists_piece {k : Nat} (hk : k < start piece n) :
    ∃ j, j < n ∧ start piece j ≤ k ∧ k < start piece (j + 1) := by
  induction n with
  | zero => simp at hk
  | succ n ih =>
      by_cases hlt : k < start piece n
      · obtain ⟨j, hj, hin⟩ := ih hlt
        exact ⟨j, by omega, hin⟩
      · exact ⟨n, Nat.lt_succ_self n, by omega, hk⟩

/-- What stands at a place of a piece belongs to it. -/
theorem mem_piece {j k : Nat} {a : α} (hj : j < n) (ha : (joined piece n)[k]? = some a)
    (hle : start piece j ≤ k) (hlt : k < start piece (j + 1)) : a ∈ piece j := by
  have hpiece : Holds (joined piece n) (start piece j) (piece j) := holds_joined hj
  have hget := (holds_iff_getElem?.1 hpiece).2 (k - start piece j) (by
    rw [start_succ] at hlt
    omega)
  rw [show start piece j + (k - start piece j) = k by omega, ha] at hget
  exact List.mem_of_getElem? hget.symm

/-- A list that has all the pieces, each where it starts, is made of them. -/
theorem eq_joined (hlen : l.length = start piece n) (h : ∀ j, j < n → Holds l (start piece j) (piece j)) :
    l = joined piece n := by
  have hfront : ∀ m, m ≤ n → Holds l 0 (joined piece m) := by
    intro m
    induction m with
    | zero => intro _; exact holds_nil.2 (Nat.zero_le _)
    | succ m ih =>
        intro hm
        refine holds_append.2 ⟨ih (by omega), ?_⟩
        rw [length_joined, Nat.zero_add]
        exact h m (by omega)
  have hall := (hfront n le_rfl).take_drop
  rw [length_joined, ← hlen] at hall
  simpa using hall

theorem joined_perm (h : ∀ j, j < n → (piece j).Perm (piece' j)) :
    (joined piece n).Perm (joined piece' n) := by
  induction n with
  | zero => exact .nil
  | succ n ih => exact (ih fun j hj => h j (by omega)).append (h n (Nat.lt_succ_self n))

/-- The buckets of the keys below `n` have the elements with these keys. -/
theorem joined_bucket_perm (key : α → Nat) (l : List α) (n : Nat) :
    (joined (bucket key l) n).Perm (l.filter fun a => key a < n) := by
  induction n with
  | zero => simp [joined]
  | succ n ih =>
      have hsplit := List.filter_append_perm (fun a => key a < n) (l.filter fun a => key a < n + 1)
      have hlow : (l.filter fun a => key a < n + 1).filter (fun a => key a < n)
          = l.filter fun a => key a < n := by
        rw [List.filter_filter]
        refine List.filter_congr fun a _ => ?_
        simp only [← Bool.decide_and, decide_eq_decide]
        omega
      have hhigh : (l.filter fun a => key a < n + 1).filter (fun a => !decide (key a < n))
          = bucket key l n := by
        rw [List.filter_filter, bucket]
        refine List.filter_congr fun a _ => ?_
        rw [← decide_not, ← Bool.decide_and, decide_eq_decide]
        omega
      rw [hlow, hhigh] at hsplit
      exact (ih.append_right _).trans hsplit

/-- **A counting sort permutes**, if it has a bucket for every key. -/
theorem joined_bucket_perm_self (h : ∀ a ∈ l, key a < n) : (joined (bucket key l) n).Perm l := by
  have hall : (l.filter fun a => key a < n) = l := List.filter_eq_self.2 fun a ha => by simpa using h a ha
  have hperm := joined_bucket_perm key l n
  rwa [hall] at hperm

theorem start_bucket (h : ∀ a ∈ l, key a < n) : start (bucket key l) n = l.length := by
  rw [← length_joined]
  exact (joined_bucket_perm_self h).length_eq

/-- A bucket after one element more. -/
theorem bucket_append_singleton (key : α → Nat) (l : List α) (a : α) (j : Nat) :
    bucket key (l ++ [a]) j = if key a = j then bucket key l j ++ [a] else bucket key l j := by
  by_cases h : key a = j <;> simp [bucket, h]

/-! ## Setting an element -/

/-- Setting the element behind a slice prolongs it. -/
theorem holds_set_append {p : Nat} {x : List α} (h : Holds l p x) (hlt : p + x.length < l.length) (a : α) :
    Holds (l.set (p + x.length) a) p (x ++ [a]) := by
  rw [holds_iff_getElem?] at h ⊢
  refine ⟨by simp; omega, fun i hi => ?_⟩
  rw [List.length_append, List.length_singleton] at hi
  by_cases hlast : i = x.length
  · subst hlast
    rw [List.getElem?_set_self hlt]
    simp
  · rw [List.getElem?_set_ne (by omega), h.2 i (by omega), List.getElem?_append_left (by omega)]

/-- Setting an element outside a slice leaves it. -/
theorem holds_set_of_not_mem {p q : Nat} {x : List α} (h : Holds l p x) (hq : q < p ∨ p + x.length ≤ q)
    (a : α) : Holds (l.set q a) p x := by
  rw [holds_iff_getElem?] at h ⊢
  refine ⟨by simpa using h.1, fun i hi => ?_⟩
  rw [List.getElem?_set_ne (by omega), h.2 i hi]

end Buckets
