import SoulsFormats.Library.Fallible

set_option autoImplicit false

/-! # What a computation can return

`Returns m Q` says that every value that `m` returns satisfies `Q`, whatever state it runs in. It is what
is known of a value that was read from unknown data. -/

namespace Fallible

variable {σ τ ε α β : Type} {m : Fallible σ ε α} {P Q : α → Prop} {R : β → Prop}

def Returns (m : Fallible σ ε α) (Q : α → Prop) : Prop := ∀ s, Post m s fun a _ => Q a

theorem Returns.of_fst (h : Returns m Q) {s : σ} {a : α} (hrun : (m s).1 = .ok a) : Q a :=
  h s a _ (Prod.ext hrun rfl)

theorem Returns.trivial (m : Fallible σ ε α) : Returns m fun _ => True := fun _ _ _ _ => True.intro

theorem Returns.pure {a : α} (h : Q a) : Returns (Pure.pure a : Fallible σ ε α) Q := fun _ => Post.pure h

theorem Returns.fail (e : ε) : Returns (Fallible.fail e : Fallible σ ε α) Q := fun _ => Post.fail

theorem Returns.mono (hm : Returns m P) (h : ∀ a, P a → Q a) : Returns m Q :=
  fun s => (hm s).mono fun a _ hP => h a hP

theorem Returns.bind {f : α → Fallible σ ε β} (hm : Returns m P) (hf : ∀ a, P a → Returns (f a) R) :
    Returns (m >>= f) R :=
  fun s => (hm s).bind fun a s' hP => hf a hP s'

/-- Nothing is said of the first step. -/
theorem Returns.after {f : α → Fallible σ ε β} (hf : ∀ a, Returns (f a) R) : Returns (m >>= f) R :=
  (Returns.trivial m).bind fun a _ => hf a

theorem Returns.check {c : Prop} [Decidable c] {e : ε} {f : Unit → Fallible σ ε β}
    (hf : c → Returns (f ()) R) : Returns (Fallible.check c e >>= f) R := by
  intro s b s' hrun
  by_cases hc : c
  · rw [check_bind_pos hc] at hrun
    exact hf hc s b s' hrun
  · rw [check_bind_neg hc] at hrun
    cases hrun

theorem Returns.ite {c : Prop} [Decidable c] {m' : Fallible σ ε α} (hm : c → Returns m Q)
    (hm' : ¬ c → Returns m' Q) : Returns (if c then m else m') Q := by
  split
  · next hc => exact hm hc
  · next hc => exact hm' hc

theorem Returns.given {c : Bool} {d : α} (hm : c = true → Returns m Q) (hd : c = false → Q d) :
    Returns (Fallible.given c d m) Q := by
  cases c with
  | false => exact Returns.pure (hd rfl)
  | true => exact hm rfl

theorem Returns.zoom {get : σ → τ} {put : τ → σ → σ} {m : Fallible τ ε α} (hm : Returns m Q) :
    Returns (Fallible.zoom get put m) Q :=
  fun s => Post.zoom (hm (get s))

end Fallible
