import SoulsFormats.Library.Fallible

set_option autoImplicit false

/-! # Two runs side by side

A relational logic for fallible computations. From related states both computations succeed with related values, or
both fail with one error, and the states they end in are related again. -/

namespace Fallible

variable {σ τ σ' τ' ε α α' β β' : Type}

/-- Both outcomes are values, which are related, or both are one error. -/
inductive Agree (R : α → β → Prop) : Except ε α → Except ε β → Prop
  | ok {a : α} {b : β} (h : R a b) : Agree R (.ok a) (.ok b)
  | error (e : ε) : Agree R (.error e) (.error e)

theorem Agree.eq {x y : Except ε α} (h : Agree Eq x y) : x = y := by
  cases h with
  | ok h => rw [h]
  | error e => rfl

theorem Agree.mono {R Q : α → β → Prop} {x : Except ε α} {y : Except ε β} (h : Agree R x y)
    (hRQ : ∀ a b, R a b → Q a b) : Agree Q x y := by
  cases h with
  | ok h => exact .ok (hRQ _ _ h)
  | error e => exact .error e

/-- If the outcome on the left is an error, so is the one on the right. -/
theorem Agree.error_right {R : α → β → Prop} {e : ε} {y : Except ε β} (h : Agree R (.error e) y) : y = .error e := by
  cases h
  rfl

theorem Agree.ok_right {R : α → β → Prop} {a : α} {y : Except ε β} (h : Agree R (.ok a) y) :
    ∃ b, y = .ok b ∧ R a b := by
  cases h with
  | ok h => exact ⟨_, rfl, h⟩

/-- Both values are `v`. -/
def Known (v a b : α) : Prop := a = v ∧ b = v

/-- The runs of `m` and `n` from states related by `S` have outcomes that agree up to `R`, and keep `S`. -/
def Lockstep (S : σ → τ → Prop) (R : α → β → Prop) (m : Fallible σ ε α) (n : Fallible τ ε β) : Prop :=
  ∀ s t, S s t → Agree R (m s).1 (n t).1 ∧ S (m s).2 (n t).2

variable {S : σ → τ → Prop} {R : α → β → Prop} {m : Fallible σ ε α} {n : Fallible τ ε β}

namespace Lockstep

theorem pure {a : α} {b : β} (h : R a b) :
    Lockstep S R (Pure.pure a : Fallible σ ε α) (Pure.pure b : Fallible τ ε β) := fun _ _ hs => ⟨.ok h, hs⟩

theorem fail (e : ε) : Lockstep S R (Fallible.fail e) (Fallible.fail e) := fun _ _ hs => ⟨.error e, hs⟩

theorem mono {Q : α → β → Prop} (hm : Lockstep S R m n) (h : ∀ a b, R a b → Q a b) : Lockstep S Q m n :=
  fun s t hs => ⟨(hm s t hs).1.mono h, (hm s t hs).2⟩

/-- What the left side keeps by itself may be added to the relation of the states. -/
theorem keeping {I : σ → Prop} (hm : Lockstep S R m n) (hkeeps : Keeps I m) :
    Lockstep (fun s t => S s t ∧ I s) R m n :=
  fun s t hs => ⟨(hm s t hs.1).1, (hm s t hs.1).2, hkeeps s hs.2⟩

/-- What is known of the value on the left may be added to the relation of the values. -/
theorem post {P : α → Prop} (hm : Lockstep S R m n) (hP : ∀ s t, S s t → Post m s fun a _ => P a) :
    Lockstep S (fun a b => R a b ∧ P a) m n := by
  intro s t hs
  obtain ⟨hout, hs'⟩ := hm s t hs
  refine ⟨?_, hs'⟩
  have hpost := hP s t hs
  rcases hrun : m s with ⟨e | a, s'⟩
  · rw [hrun] at hout
    rw [hout.error_right]
    exact .error e
  · rw [hrun] at hout
    obtain ⟨b, hb, hab⟩ := hout.ok_right
    rw [hb]
    exact .ok ⟨hab, hpost a s' hrun⟩

theorem bind {Q : α' → β' → Prop} {f : α → Fallible σ ε α'} {g : β → Fallible τ ε β'} (hm : Lockstep S R m n)
    (hf : ∀ a b, R a b → Lockstep S Q (f a) (g b)) : Lockstep S Q (m >>= f) (n >>= g) := by
  intro s t hs
  obtain ⟨hout, hs'⟩ := hm s t hs
  rw [bind_run, bind_run]
  rcases hrun : m s with ⟨x, s'⟩
  rcases hrun' : n t with ⟨y, t'⟩
  rw [hrun, hrun'] at hout hs'
  cases hout with
  | ok h => exact hf _ _ h s' t' hs'
  | error e => exact ⟨.error e, hs'⟩

/-- The rule for a computation whose value is the same on both sides. -/
theorem seq {Q : α' → β' → Prop} {n : Fallible τ ε α} {f : α → Fallible σ ε α'} {g : α → Fallible τ ε β'}
    (hm : Lockstep S Eq m n) (hf : ∀ a, Lockstep S Q (f a) (g a)) : Lockstep S Q (m >>= f) (n >>= g) := by
  refine hm.bind fun a b h => ?_
  subst h
  exact hf a

/-- The rule for a computation whose value is known. -/
theorem known {Q : α' → β' → Prop} {v : α} {n : Fallible τ ε α} {f : α → Fallible σ ε α'} {g : α → Fallible τ ε β'}
    (hm : Lockstep S (Known v) m n) (hf : Lockstep S Q (f v) (g v)) : Lockstep S Q (m >>= f) (n >>= g) := by
  refine hm.bind fun a b h => ?_
  rw [h.1, h.2]
  exact hf

/-- The rule for a step that only the left side makes, beside which the right side does nothing. -/
theorem left {Q : α → Unit → Prop} {f : α → Fallible σ ε α'} {R : α' → β → Prop}
    (hm : Lockstep S Q m (Pure.pure () : Fallible τ ε Unit)) (hf : ∀ a, Lockstep S R (f a) n) :
    Lockstep S R (m >>= f) n := by
  have h := hm.bind fun a _ _ => hf a
  rwa [pure_bind] at h

theorem check (c : Prop) [Decidable c] (e : ε) : Lockstep S Eq (Fallible.check c e) (Fallible.check c e) := by
  unfold Fallible.check
  split
  · exact pure rfl
  · exact fail e

/-- What follows a check may rely on it. -/
theorem guard {c : Prop} [Decidable c] {e : ε} {f : Unit → Fallible σ ε α} {g : Unit → Fallible τ ε β}
    (h : c → Lockstep S R (f ()) (g ())) : Lockstep S R (Fallible.check c e >>= f) (Fallible.check c e >>= g) := by
  intro s t hs
  by_cases hc : c
  · rw [check_bind_pos hc, check_bind_pos hc]
    exact h hc s t hs
  · rw [check_bind_neg hc, check_bind_neg hc]
    exact ⟨.error e, hs⟩

theorem ite {c : Prop} [Decidable c] {m' : Fallible σ ε α} {n' : Fallible τ ε β} (hm : c → Lockstep S R m n)
    (hm' : ¬ c → Lockstep S R m' n') : Lockstep S R (if c then m else m') (if c then n else n') := by
  by_cases hc : c
  · rw [if_pos hc, if_pos hc]
    exact hm hc
  · rw [if_neg hc, if_neg hc]
    exact hm' hc

theorem given {c : Bool} {d : α} {d' : β} (hd : R d d') (hm : Lockstep S R m n) :
    Lockstep S R (Fallible.given c d m) (Fallible.given c d' n) := ite (fun _ => hm) fun _ => pure hd

theorem lift (x : Except ε α) : Lockstep S Eq (Fallible.lift x) (Fallible.lift x) := by
  intro s t hs
  refine ⟨?_, hs⟩
  rw [lift_run, lift_run]
  cases x with
  | error e => exact .error e
  | ok a => exact .ok rfl

theorem attempt (hm : Lockstep S R m n) : Lockstep S (Agree R) (Fallible.attempt m) (Fallible.attempt n) :=
  fun s t hs => ⟨.ok (hm s t hs).1, (hm s t hs).2⟩

theorem attempt_eq {n : Fallible τ ε α} (hm : Lockstep S Eq m n) :
    Lockstep S Eq (Fallible.attempt m) (Fallible.attempt n) := hm.attempt.mono fun _ _ h => h.eq

theorem peek {f : σ → α} {g : τ → β} (h : ∀ s t, S s t → R (f s) (g t)) :
    Lockstep S R (Fallible.peek f : Fallible σ ε α) (Fallible.peek g : Fallible τ ε β) :=
  fun s t hs => ⟨.ok (h s t hs), hs⟩

theorem state : Lockstep S S (Fallible.state : Fallible σ ε σ) (Fallible.state : Fallible τ ε τ) :=
  fun _ _ hs => ⟨.ok hs, hs⟩

theorem update {f : σ → σ} {g : τ → τ} (h : ∀ s t, S s t → S (f s) (g t)) :
    Lockstep S Eq (Fallible.update f : Fallible σ ε Unit) (Fallible.update g : Fallible τ ε Unit) :=
  fun s t hs => ⟨.ok rfl, h s t hs⟩

theorem zoom {T : σ' → τ' → Prop} {get : σ' → σ} {put : σ → σ' → σ'} {get' : τ' → τ} {put' : τ → τ' → τ'}
    (hm : Lockstep S R m n) (hget : ∀ s t, T s t → S (get s) (get' t))
    (hput : ∀ s t s' t', T s t → S s' t' → T (put s' s) (put' t' t)) :
    Lockstep T R (Fallible.zoom get put m) (Fallible.zoom get' put' n) := by
  intro s t hs
  obtain ⟨hout, hs'⟩ := hm _ _ (hget s t hs)
  exact ⟨hout, hput s t _ _ hs hs'⟩

end Lockstep

end Fallible
