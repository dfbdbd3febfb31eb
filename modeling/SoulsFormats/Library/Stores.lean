import SoulsFormats.Library.Bytes

set_option autoImplicit false

/-! # Stores into a buffer

A store puts some bytes at an offset. Stores that are apart from one another can be applied in any order:
after all of them the buffer holds what each has put there, and the rest is as before. -/

namespace Bytes

/-- An offset and the bytes that go there. -/
abbrev Store := Nat × List UInt8

/-- What is in a buffer after some stores. -/
def applyStores (buf : List UInt8) (stores : List Store) : List UInt8 :=
  stores.foldl (fun buf store => overwrite buf store.1 store.2) buf

/-- The two stores do not meet. -/
def Apart (s t : Store) : Prop := s.1 + s.2.length ≤ t.1 ∨ t.1 + t.2.length ≤ s.1

theorem Apart.symm {s t : Store} (h : Apart s t) : Apart t s := Or.symm h

@[simp] theorem applyStores_nil (buf : List UInt8) : applyStores buf [] = buf := rfl

@[simp] theorem applyStores_cons (buf : List UInt8) (s : Store) (stores : List Store) :
    applyStores buf (s :: stores) = applyStores (overwrite buf s.1 s.2) stores := rfl

variable {buf : List UInt8} {stores : List Store}

/-- Stores inside the buffer do not change its size. -/
theorem length_applyStores (h : ∀ s ∈ stores, s.1 + s.2.length ≤ buf.length) :
    (applyStores buf stores).length = buf.length := by
  induction stores generalizing buf with
  | nil => rfl
  | cons s stores ih =>
      have hlen : (overwrite buf s.1 s.2).length = buf.length := by
        rw [length_overwrite]
        exact max_eq_left (h s List.mem_cons_self)
      rw [applyStores_cons, ih, hlen]
      intro t ht
      rw [hlen]
      exact h t (List.mem_cons_of_mem s ht)

/-- What the stores do not touch stays. -/
theorem Holds.applyStores {p : Nat} {x : List UInt8} (h : Holds buf p x)
    (hapart : ∀ s ∈ stores, Apart s (p, x)) : Holds (applyStores buf stores) p x := by
  induction stores generalizing buf with
  | nil => exact h
  | cons s stores ih =>
      exact ih (h.overwrite (hapart s List.mem_cons_self).symm) fun t ht =>
        hapart t (List.mem_cons_of_mem s ht)

/-- **Every one of the stores is found in the buffer**, if they are apart. -/
theorem holds_applyStores (hpair : stores.Pairwise Apart) {s : Store} (hs : s ∈ stores) :
    Holds (applyStores buf stores) s.1 s.2 := by
  induction stores generalizing buf with
  | nil => simp at hs
  | cons t stores ih =>
      obtain ⟨hapart, hrest⟩ := List.pairwise_cons.1 hpair
      rcases List.mem_cons.1 hs with rfl | hs
      · exact (holds_overwrite_self buf s.2 s.1).applyStores fun u hu => (hapart u hu).symm
      · exact ih hrest hs

/-! ## Stores in the order of their offsets -/

/-- The stores lie between the two offsets, each of them behind the one before it. -/
def Laid : Nat → Nat → List Store → Prop
  | lo, hi, [] => lo ≤ hi
  | lo, hi, s :: stores => lo ≤ s.1 ∧ Laid (s.1 + s.2.length) hi stores

section

variable {lo mid hi : Nat} {stores' : List Store}

@[simp] theorem laid_nil : Laid lo hi [] ↔ lo ≤ hi := Iff.rfl

@[simp] theorem laid_cons {s : Store} :
    Laid lo hi (s :: stores) ↔ lo ≤ s.1 ∧ Laid (s.1 + s.2.length) hi stores := Iff.rfl

theorem Laid.le (h : Laid lo hi stores) : lo ≤ hi := by
  induction stores generalizing lo with
  | nil => exact h
  | cons s stores ih =>
      have hrest := ih h.2
      have hstart := h.1
      omega

/-- Every store is between the two offsets. -/
theorem Laid.bounds (h : Laid lo hi stores) {s : Store} (hs : s ∈ stores) :
    lo ≤ s.1 ∧ s.1 + s.2.length ≤ hi := by
  induction stores generalizing lo with
  | nil => simp at hs
  | cons t stores ih =>
      rcases List.mem_cons.1 hs with rfl | hs
      · exact ⟨h.1, h.2.le⟩
      · have hstart := h.1
        have hrest := ih h.2 hs
        omega

theorem Laid.mono (h : Laid mid hi stores) (hlo : lo ≤ mid) : Laid lo hi stores := by
  cases stores with
  | nil => exact hlo.trans h
  | cons s stores => exact ⟨hlo.trans h.1, h.2⟩

theorem Laid.append (h : Laid lo mid stores) (h' : Laid mid hi stores') :
    Laid lo hi (stores ++ stores') := by
  induction stores generalizing lo with
  | nil => exact h'.mono h
  | cons s stores ih => exact ⟨h.1, ih h.2⟩

/-- Pieces that follow one another, the `i`-th of them from `start i` to `start (i + 1)`. -/
theorem Laid.flatMap (f : Nat → List Store) (start : Nat → Nat) {i count : Nat}
    (h : ∀ j, i ≤ j → j < i + count → Laid (start j) (start (j + 1)) (f j)) :
    Laid (start i) (start (i + count)) ((List.range' i count).flatMap f) := by
  induction count generalizing i with
  | zero => exact le_refl _
  | succ count ih =>
      have hfirst := h i (le_refl i) (by omega)
      have hrest : Laid (start (i + 1)) (start (i + 1 + count)) ((List.range' (i + 1) count).flatMap f) :=
        ih fun j hj hlt => h j (by omega) (by omega)
      rw [List.range'_succ, List.flatMap_cons, show i + (count + 1) = i + 1 + count by omega]
      exact hfirst.append hrest

theorem Laid.pairwise (h : Laid lo hi stores) : stores.Pairwise Apart := by
  induction stores generalizing lo with
  | nil => exact List.Pairwise.nil
  | cons s stores ih =>
      refine List.pairwise_cons.2 ⟨fun t ht => ?_, ih h.2⟩
      exact .inl (h.2.bounds ht).1

end

end Bytes
