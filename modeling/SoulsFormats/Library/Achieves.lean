import SoulsFormats.Library.Fallible

set_option autoImplicit false

/-! # Computations that succeed

`Achieves I m Q` says that `m` succeeds from every state with `I`, with a value that satisfies `Q`, and comes to a
state with `I`. Where `I` says that the allocator grants everything, it is what is known of code that only an
allocation can make fail. -/

namespace Fallible

variable {σ ε α β : Type} {I : σ → Prop} {m : Fallible σ ε α} {P Q : α → Prop} {R : β → Prop}

def Achieves (I : σ → Prop) (m : Fallible σ ε α) (Q : α → Prop) : Prop :=
  ∀ s, I s → ∃ a s', m s = (.ok a, s') ∧ I s' ∧ Q a

theorem Achieves.pure {a : α} (h : Q a) : Achieves I (Pure.pure a : Fallible σ ε α) Q :=
  fun s hs => ⟨a, s, rfl, hs, h⟩

theorem Achieves.mono (hm : Achieves I m P) (h : ∀ a, P a → Q a) : Achieves I m Q := by
  intro s hs
  obtain ⟨a, s', hrun, hs', hP⟩ := hm s hs
  exact ⟨a, s', hrun, hs', h a hP⟩

theorem Achieves.bind {f : α → Fallible σ ε β} (hm : Achieves I m P) (hf : ∀ a, P a → Achieves I (f a) R) :
    Achieves I (m >>= f) R := by
  intro s hs
  obtain ⟨a, s1, hrun, hs1, hP⟩ := hm s hs
  obtain ⟨b, s2, hrun2, hs2, hR⟩ := hf a hP s1 hs1
  exact ⟨b, s2, (bind_ok hrun f).trans hrun2, hs2, hR⟩

theorem Achieves.ite {c : Prop} [Decidable c] {m' : Fallible σ ε α} (hm : c → Achieves I m Q)
    (hm' : ¬ c → Achieves I m' Q) : Achieves I (if c then m else m') Q := by
  split
  · next hc => exact hm hc
  · next hc => exact hm' hc

end Fallible
