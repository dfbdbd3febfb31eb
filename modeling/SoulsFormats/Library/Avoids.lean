import SoulsFormats.Library.Fallible

set_option autoImplicit false

/-! # Runs that do not end in a given error

One error code may stand for something that the caller does not check, such as an access outside a block. `Avoids`
says of one run that it does not end in that error, and `Never` says it of every run. -/

namespace Fallible

variable {σ τ ε α β : Type} {e d : ε} {m n : Fallible σ ε α} {f : α → Fallible σ ε β} {s : σ}

/-! ## One run -/

/-- The run of `m` from `s` does not end in the error `e`. -/
def Avoids (e : ε) (m : Fallible σ ε α) (s : σ) : Prop := (m s).1 ≠ .error e

@[simp] theorem avoids_pure (a : α) : Avoids e (pure a) s := by
  simp [Avoids]

@[simp] theorem avoids_fail : Avoids e (fail d : Fallible σ ε α) s ↔ d ≠ e := by
  simp [Avoids, fail]

theorem avoids_bind :
    Avoids e (m >>= f) s ↔ Avoids e m s ∧ ∀ a s', m s = (.ok a, s') → Avoids e (f a) s' := by
  unfold Avoids
  rw [bind_run]
  rcases m s with ⟨e | a, s'⟩ <;> simp

theorem avoids_attempt {f : Except ε α → Fallible σ ε β} :
    Avoids e (attempt m >>= f) s ↔ Avoids e (f (m s).1) (m s).2 := Iff.rfl

/-- A check that ends in another error ends the run, or does nothing. -/
theorem avoids_check {c : Prop} [Decidable c] (he : d ≠ e) {f : Unit → Fallible σ ε β} :
    Avoids e (check c d >>= f) s ↔ (c → Avoids e (f ()) s) := by
  by_cases hc : c
  · simp [Avoids, check_bind_pos hc, hc]
  · simp [Avoids, check_bind_neg hc, hc, he]

/-- What ends in the error itself has to hold. -/
theorem avoids_guard {c : Prop} [Decidable c] {f : Unit → Fallible σ ε β} :
    Avoids e (check c e >>= f) s ↔ c ∧ Avoids e (f ()) s := by
  by_cases hc : c
  · simp [Avoids, check_bind_pos hc, hc]
  · simp [Avoids, check_bind_neg hc, hc]

/-- A run that succeeds ends in no error. -/
theorem avoids_of_ok {a : α} {s' : σ} (h : m s = (.ok a, s')) : Avoids e m s := by
  simp [Avoids, h]

/-! ## Every run -/

/-- No run of `m` ends in the error `e`. -/
def Never (e : ε) (m : Fallible σ ε α) : Prop := ∀ s, Avoids e m s

namespace Never

theorem pure (a : α) : Never e (Pure.pure a : Fallible σ ε α) := fun _ => avoids_pure a

theorem fail (he : d ≠ e) : Never e (fail d : Fallible σ ε α) := fun _ => avoids_fail.2 he

theorem peek (g : σ → α) : Never e (peek g : Fallible σ ε α) := fun _ => avoids_of_ok rfl

theorem state : Never e (state : Fallible σ ε σ) := fun _ => avoids_of_ok rfl

theorem update (g : σ → σ) : Never e (update g : Fallible σ ε Unit) := fun _ => avoids_of_ok rfl

theorem attempt (m : Fallible σ ε α) : Never e (attempt m) := fun _ => avoids_of_ok rfl

theorem bind (hm : Never e m) (hf : ∀ a, Never e (f a)) : Never e (m >>= f) := fun s =>
  avoids_bind.2 ⟨hm s, fun a s' _ => hf a s'⟩

/-- What is tried is handed on as an error of its own, or not at all. -/
theorem attempt_bind {f : Except ε α → Fallible σ ε β} (hm : Never e m) (hok : ∀ a, Never e (f (.ok a)))
    (herror : ∀ d, d ≠ e → Never e (f (.error d))) : Never e (Fallible.attempt m >>= f) := by
  intro s
  have hrun := hm s
  rw [avoids_attempt]
  rw [Avoids] at hrun
  rcases h : (m s).1 with d | a
  · exact herror d (fun hd => hrun (by rw [h, hd])) _
  · exact hok a _

theorem check {c : Prop} [Decidable c] (he : d ≠ e) : Never e (check c d : Fallible σ ε Unit) := by
  intro s
  rw [Avoids, check_run]
  split
  · simp
  · simpa using he

theorem ite {c : Prop} [Decidable c] (hm : c → Never e m) (hn : ¬ c → Never e n) :
    Never e (if c then m else n) := by
  split
  · next hc => exact hm hc
  · next hc => exact hn hc

theorem zoom {get : σ → τ} {put : τ → σ → σ} {m : Fallible τ ε α} (hm : Never e m) :
    Never e (zoom get put m) := fun s => hm (get s)

end Never

end Fallible
