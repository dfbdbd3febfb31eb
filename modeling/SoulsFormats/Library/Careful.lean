import SoulsFormats.Library.Fallible

set_option autoImplicit false

/-! # Computations that make no forbidden error

`Careful Bad m Q` says that `m`, in whatever state it runs, returns a value with `Q` or fails with an error that is
not `Bad`. The errors that are `Bad` are those of the model alone, such as an access out of bounds. -/

namespace Fallible

variable {σ ε α β : Type} {Bad : ε → Prop} {m : Fallible σ ε α} {P Q : α → Prop} {R : β → Prop}

def Careful (Bad : ε → Prop) (m : Fallible σ ε α) (Q : α → Prop) : Prop :=
  ∀ s, match (m s).1 with
    | .ok a => Q a
    | .error e => ¬ Bad e

theorem Careful.of_ok (h : Careful Bad m Q) {s : σ} {a : α} (hrun : (m s).1 = .ok a) : Q a := by
  have hs := h s
  rwa [hrun] at hs

theorem Careful.of_error (h : Careful Bad m Q) {s : σ} {e : ε} (hrun : (m s).1 = .error e) : ¬ Bad e := by
  have hs := h s
  rwa [hrun] at hs

theorem Careful.pure {a : α} (h : Q a) : Careful Bad (Pure.pure a : Fallible σ ε α) Q := fun _ => h

theorem Careful.fail {e : ε} (h : ¬ Bad e) : Careful Bad (Fallible.fail e : Fallible σ ε α) Q := fun _ => h

theorem Careful.bind {f : α → Fallible σ ε β} (hm : Careful Bad m P) (hf : ∀ a, P a → Careful Bad (f a) R) :
    Careful Bad (m >>= f) R := by
  intro s
  cases hrun : (m s).1 with
  | ok a =>
      rw [bind_ok (Prod.ext hrun rfl)]
      exact hf a (hm.of_ok hrun) _
  | error e =>
      rw [bind_error (Prod.ext hrun rfl)]
      exact hm.of_error hrun

theorem Careful.check {c : Prop} [Decidable c] {e : ε} {f : Unit → Fallible σ ε β} (he : ¬ Bad e)
    (hf : c → Careful Bad (f ()) R) : Careful Bad (Fallible.check c e >>= f) R := by
  intro s
  by_cases hc : c
  · rw [check_bind_pos hc]
    exact hf hc s
  · rw [check_bind_neg hc]
    exact he

theorem Careful.ite {c : Prop} [Decidable c] {m' : Fallible σ ε α} (hm : c → Careful Bad m Q)
    (hm' : ¬ c → Careful Bad m' Q) : Careful Bad (if c then m else m') Q := by
  split
  · next hc => exact hm hc
  · next hc => exact hm' hc

/-- A value that is known. -/
theorem Careful.lift {x : Except ε α} {a : α} {f : α → Fallible σ ε β} (hx : x = .ok a) (hf : Careful Bad (f a) R) :
    Careful Bad (Fallible.lift x >>= f) R := by
  intro s
  rw [hx, bind_ok (lift_run _ s)]
  exact hf s

end Fallible
