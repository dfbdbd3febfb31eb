import SoulsFormats.Library.Fallible

set_option autoImplicit false

/-! # Loops over a list

`sweep` is a loop over a list that carries a value and stops at the first error; a round sees its element and
what is left of the list. `Visits` says which rounds the loop comes to, so that a claim about a call inside the
loop can be stated for every round that is made. -/

namespace Fallible

variable {σ τ ε α : Type} {step : α → List α → τ → Fallible σ ε τ}

/-- One round for each element. -/
def sweep (step : α → List α → τ → Fallible σ ε τ) : List α → τ → Fallible σ ε τ
  | [], t => pure t
  | a :: l, t => do
    let t ← step a l t
    sweep step l t

/-- From `l`, `t` and `s`, the loop comes to what is left `l'` with the value `t'` and in the state `s'`. -/
inductive Visits (step : α → List α → τ → Fallible σ ε τ) : List α → τ → σ → List α → τ → σ → Prop where
  | here (l : List α) (t : τ) (s : σ) : Visits step l t s l t s
  | next {a : α} {l l' : List α} {t t1 t' : τ} {s s1 s' : σ} (hrun : step a l t s = (.ok t1, s1))
      (hrest : Visits step l t1 s1 l' t' s') : Visits step (a :: l) t s l' t' s'

/-- What holds at the start and is kept by a round holds wherever the loop comes to. -/
theorem Visits.invariant {I : List α → τ → σ → Prop} {l l' : List α} {t t' : τ} {s s' : σ}
    (h : Visits step l t s l' t' s')
    (hstep : ∀ a l t s t1 s1, I (a :: l) t s → step a l t s = (.ok t1, s1) → I l t1 s1) (hI : I l t s) :
    I l' t' s' := by
  induction h with
  | here l t s => exact hI
  | next hrun hrest ih => exact ih (hstep _ _ _ _ _ _ hI hrun)

/-- Where the rounds for `before` succeed, the loop comes to what is behind it. -/
theorem visits_of_rounds {I : List α → τ → σ → Prop} {before after : List α} {t : τ} {s : σ}
    (hstep : ∀ a ∈ before, ∀ l t s, I (a :: l) t s → ∃ t1 s1, step a l t s = (.ok t1, s1) ∧ I l t1 s1)
    (hI : I (before ++ after) t s) :
    ∃ t' s', Visits step (before ++ after) t s after t' s' ∧ I after t' s' := by
  induction before generalizing t s with
  | nil => exact ⟨t, s, Visits.here _ _ _, hI⟩
  | cons a before ih =>
      obtain ⟨t1, s1, hrun, hI1⟩ := hstep a List.mem_cons_self _ t s hI
      obtain ⟨t', s', hvisits, hI'⟩ := ih (fun b hb => hstep b (List.mem_cons_of_mem a hb)) hI1
      exact ⟨t', s', Visits.next hrun hvisits, hI'⟩

/-! ## Loops without a state -/

variable {β : Type}

theorem except_bind_eq_ok {x : Except ε α} {f : α → Except ε β} {b : β} :
    (x >>= f) = .ok b ↔ ∃ a, x = .ok a ∧ f a = .ok b := by
  cases x with
  | error e => exact ⟨nofun, nofun⟩
  | ok a => exact ⟨fun h => ⟨a, rfl, h⟩, fun ⟨_, ha, hf⟩ => by cases ha; exact hf⟩

theorem except_bind_eq_error {x : Except ε α} {f : α → Except ε β} {e : ε} (h : (x >>= f) = .error e) :
    x = .error e ∨ ∃ a, x = .ok a ∧ f a = .error e := by
  cases x with
  | error err =>
      cases h
      exact Or.inl rfl
  | ok a => exact Or.inr ⟨a, rfl, h⟩

/-- What a round of a fold keeps, with the elements that were taken, holds behind it. -/
theorem foldlM_invariant {f : τ → α → Except ε τ} {I : List α → τ → Prop}
    (hstep : ∀ done a t t', I done t → f t a = .ok t' → I (done ++ [a]) t') {l done : List α} {t t' : τ}
    (hI : I done t) (hrun : l.foldlM f t = .ok t') : I (done ++ l) t' := by
  induction l generalizing done t with
  | nil =>
      cases hrun
      simpa using hI
  | cons a l ih =>
      rw [List.foldlM_cons, except_bind_eq_ok] at hrun
      obtain ⟨t1, ha, hrun⟩ := hrun
      simpa using ih (hstep done a t t1 hI ha) hrun

end Fallible
