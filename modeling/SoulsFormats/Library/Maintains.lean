import SoulsFormats.Library.Returns

set_option autoImplicit false

/-! # Invariants and what is returned under them

`Maintains I m P` says that `m`, from a state with `I`, comes to a state with `I` whether it succeeds or fails, and that
a value that it returns satisfies `P`. Unlike `Returns`, it can say of a value what only the invariant makes true. -/

namespace Fallible

variable {σ τ ε α β γ : Type} {I : σ → Prop} {m : Fallible σ ε α} {P : α → Prop}

def Maintains (I : σ → Prop) (m : Fallible σ ε α) (P : α → Prop) : Prop :=
  ∀ s, I s → I (m s).2 ∧ ∀ a, (m s).1 = .ok a → P a

theorem Keeps.maintains (h : Keeps I m) (hm : Returns m P) : Maintains I m P :=
  fun s hs => ⟨h s hs, fun _ ha => hm.of_fst ha⟩

/-- What is known of the value serves what follows. -/
theorem Maintains.next {f : α → Fallible σ ε β} (hm : Maintains I m P) (hf : ∀ a, P a → Keeps I (f a)) :
    Keeps I (m >>= f) := by
  intro s hs
  obtain ⟨hs1, hP⟩ := hm s hs
  rcases hrun : m s with ⟨e | a, s1⟩
  · rw [bind_error hrun]
    rw [hrun] at hs1
    exact hs1
  · rw [bind_ok hrun]
    rw [hrun] at hs1 hP
    exact hf a (hP a rfl) s1 hs1

/-- The state that is read has the invariant. -/
theorem Keeps.ofState {f : σ → Fallible σ ε β} (hf : ∀ s, I s → Keeps I (f s)) : Keeps I (Fallible.state >>= f) :=
  fun s hs => hf s hs s hs

/-- A round for each element of a list. -/
theorem Keeps.forIndexed {f : Nat → γ → Fallible σ ε Unit} {l : List γ} (hf : ∀ i, ∀ a ∈ l, Keeps I (f i a)) (i : Nat) :
    Keeps I (forIndexed f i l) := by
  induction l generalizing i with
  | nil => exact Keeps.pure ()
  | cons a l ih =>
      refine (hf i a List.mem_cons_self).bind fun _ => ih (fun j b hb => hf j b (List.mem_cons_of_mem a hb)) _

end Fallible
