import Mathlib.Tactic.Common

set_option autoImplicit false

/-! # Computations that end in a value or in an error code

`Fallible σ ε α` is a computation over a mutable state `σ` that ends in a value or in an error. The
state reached is kept in both cases: a C function that returns an error code leaves the objects it
was given as they are at that point, and its caller goes on with them.

Four ways to reason about such a computation are set up here. `bind_ok`/`bind_error` run it step by
step, `Post` is the partial-correctness triple (what holds if it succeeds), `Succeeds` the total one
(it succeeds, and what holds then), and `Keeps` says that a state predicate survives it, whether it
succeeds or fails. -/

/-- A computation over the state `σ` that ends in an `α` or in an error `ε`, keeping the state. -/
def Fallible (σ ε α : Type) : Type := σ → Except ε α × σ

namespace Fallible

variable {σ τ ε α β : Type}

instance : Monad (Fallible σ ε) where
  pure a := fun s => (.ok a, s)
  bind m f := fun s =>
    match m s with
    | (.ok a, s') => f a s'
    | (.error e, s') => (.error e, s')

/-- End in the error `e`. -/
def fail (e : ε) : Fallible σ ε α := fun s => (.error e, s)

/-- The current state. -/
def state : Fallible σ ε σ := fun s => (.ok s, s)

/-- A value read off the current state. -/
def peek (f : σ → α) : Fallible σ ε α := fun s => (.ok (f s), s)

/-- Change the state. -/
def update (f : σ → σ) : Fallible σ ε Unit := fun s => (.ok (), f s)

/-- End in the error `e` unless the condition holds. -/
def check (c : Prop) [Decidable c] (e : ε) : Fallible σ ε Unit := if c then pure () else fail e

/-- A result that needs no state. -/
def lift (x : Except ε α) : Fallible σ ε α := fun s => (x, s)

/-- Run `m` and hand its outcome to the caller: the error code is a value here. -/
def attempt (m : Fallible σ ε α) : Fallible σ ε (Except ε α) := fun s => (.ok (m s).1, (m s).2)

/-- Run a computation on one component of the state. -/
def zoom (get : σ → τ) (put : τ → σ → σ) (m : Fallible τ ε α) : Fallible σ ε α := fun s =>
  ((m (get s)).1, put (m (get s)).2 s)

/-- Run `m` if the condition holds; otherwise its value is `d`. -/
def given (c : Bool) (d : α) (m : Fallible σ ε α) : Fallible σ ε α := if c then m else pure d

/-- Run `f` on every element of a list and its index, which counts from `i` on. -/
def forIndexed (f : Nat → α → Fallible σ ε Unit) : Nat → List α → Fallible σ ε Unit
  | _, [] => pure ()
  | i, a :: as => do
    f i a
    forIndexed f (i + 1) as

instance : LawfulMonad (Fallible σ ε) := by
  refine LawfulMonad.mk' _ ?_ ?_ ?_
  · intro α x
    funext s
    show (match x s with
      | (.ok a, s') => (.ok a, s')
      | (.error e, s') => (.error e, s')) = x s
    rcases x s with ⟨_ | a, s'⟩ <;> rfl
  · intro α β a f
    rfl
  · intro α β γ x f g
    funext s
    show (match (match x s with
        | (.ok a, s') => f a s'
        | (.error e, s') => (.error e, s')) with
      | (.ok b, s') => g b s'
      | (.error e, s') => (.error e, s')) = match x s with
      | (.ok a, s') => (f a >>= g) s'
      | (.error e, s') => (.error e, s')
    rcases x s with ⟨_ | a, s'⟩ <;> rfl

/-! ## Running -/

@[simp] theorem pure_run (a : α) (s : σ) : (pure a : Fallible σ ε α) s = (.ok a, s) := rfl

@[simp] theorem fail_run (e : ε) (s : σ) : (fail e : Fallible σ ε α) s = (.error e, s) := rfl

@[simp] theorem state_run (s : σ) : (state : Fallible σ ε σ) s = (.ok s, s) := rfl

@[simp] theorem peek_run (f : σ → α) (s : σ) : (peek f : Fallible σ ε α) s = (.ok (f s), s) := rfl

@[simp] theorem update_run (f : σ → σ) (s : σ) :
    (update f : Fallible σ ε Unit) s = (.ok (), f s) := rfl

@[simp] theorem lift_run (x : Except ε α) (s : σ) : (lift x : Fallible σ ε α) s = (x, s) := rfl

@[simp] theorem attempt_run (m : Fallible σ ε α) (s : σ) :
    attempt m s = (.ok (m s).1, (m s).2) := rfl

@[simp] theorem zoom_run (get : σ → τ) (put : τ → σ → σ) (m : Fallible τ ε α) (s : σ) :
    zoom get put m s = ((m (get s)).1, put (m (get s)).2 s) := rfl

theorem bind_run (m : Fallible σ ε α) (f : α → Fallible σ ε β) (s : σ) :
    (m >>= f) s = match m s with
      | (.ok a, s') => f a s'
      | (.error e, s') => (.error e, s') := rfl

theorem bind_ok {m : Fallible σ ε α} {s s' : σ} {a : α} (h : m s = (.ok a, s'))
    (f : α → Fallible σ ε β) : (m >>= f) s = f a s' := by
  rw [bind_run, h]

theorem bind_error {m : Fallible σ ε α} {s s' : σ} {e : ε} (h : m s = (.error e, s'))
    (f : α → Fallible σ ε β) : (m >>= f) s = (.error e, s') := by
  rw [bind_run, h]

/-- A successful sequence is a successful first step followed by a successful rest. -/
theorem bind_eq_ok {m : Fallible σ ε α} {f : α → Fallible σ ε β} {s s'' : σ} {b : β} :
    (m >>= f) s = (.ok b, s'') ↔ ∃ a s', m s = (.ok a, s') ∧ f a s' = (.ok b, s'') := by
  rw [bind_run]
  rcases h : m s with ⟨_ | a, s'⟩
  · simp
  · simp

theorem bind_fst_eq_ok {m : Fallible σ ε α} {f : α → Fallible σ ε β} {s : σ} {b : β}
    (h : ((m >>= f) s).1 = .ok b) :
    ∃ a s' s'', m s = (.ok a, s') ∧ f a s' = (.ok b, s'') := by
  have hrun : (m >>= f) s = (.ok b, ((m >>= f) s).2) := Prod.ext h rfl
  obtain ⟨a, s', hm, hf⟩ := bind_eq_ok.1 hrun
  exact ⟨a, s', _, hm, hf⟩

theorem bind_fst_congr {m : Fallible σ ε α} {f g : α → Fallible σ ε β} (h : ∀ a s, (f a s).1 = (g a s).1)
    (s : σ) : ((m >>= f) s).1 = ((m >>= g) s).1 := by
  rw [bind_run, bind_run]
  rcases m s with ⟨_ | a, s'⟩
  · rfl
  · exact h a s'

@[simp] theorem pure_bind_run (a : α) (f : α → Fallible σ ε β) (s : σ) :
    ((pure a : Fallible σ ε α) >>= f) s = f a s := rfl

@[simp] theorem fail_bind_run (e : ε) (f : α → Fallible σ ε β) (s : σ) :
    ((fail e : Fallible σ ε α) >>= f) s = (.error e, s) := rfl

@[simp] theorem state_bind_run (f : σ → Fallible σ ε β) (s : σ) :
    ((state : Fallible σ ε σ) >>= f) s = f s s := rfl

@[simp] theorem peek_bind_run (g : σ → α) (f : α → Fallible σ ε β) (s : σ) :
    ((peek g : Fallible σ ε α) >>= f) s = f (g s) s := rfl

@[simp] theorem update_bind_run (g : σ → σ) (f : Unit → Fallible σ ε β) (s : σ) :
    ((update g : Fallible σ ε Unit) >>= f) s = f () (g s) := rfl

@[simp] theorem attempt_bind_run (m : Fallible σ ε α) (f : Except ε α → Fallible σ ε β) (s : σ) :
    (attempt m >>= f) s = f (m s).1 (m s).2 := rfl

@[simp] theorem check_run (c : Prop) [Decidable c] (e : ε) (s : σ) :
    (check c e : Fallible σ ε Unit) s = if c then (.ok (), s) else (.error e, s) := by
  unfold check
  split <;> rfl

theorem check_bind_pos {c : Prop} [Decidable c] (hc : c) (e : ε) (f : Unit → Fallible σ ε β)
    (s : σ) : ((check c e : Fallible σ ε Unit) >>= f) s = f () s := by
  rw [bind_ok (by rw [check_run, if_pos hc])]

theorem check_bind_neg {c : Prop} [Decidable c] (hc : ¬ c) (e : ε) (f : Unit → Fallible σ ε β)
    (s : σ) : ((check c e : Fallible σ ε Unit) >>= f) s = (.error e, s) := by
  rw [bind_error (by rw [check_run, if_neg hc])]

/-! ## Partial correctness -/

/-- If `m` succeeds from `s`, its value and the state it reaches satisfy `Q`. -/
def Post (m : Fallible σ ε α) (s : σ) (Q : α → σ → Prop) : Prop :=
  ∀ a s', m s = (.ok a, s') → Q a s'

theorem Post.pure {a : α} {s : σ} {Q : α → σ → Prop} (h : Q a s) :
    Post (Pure.pure a : Fallible σ ε α) s Q := by
  intro a' s' heq
  cases heq
  exact h

theorem Post.fail {e : ε} {s : σ} {Q : α → σ → Prop} : Post (fail e : Fallible σ ε α) s Q := by
  intro a s' heq
  cases heq

theorem Post.bind {m : Fallible σ ε α} {f : α → Fallible σ ε β} {s : σ} {P : α → σ → Prop}
    {Q : β → σ → Prop} (hm : Post m s P) (hf : ∀ a s', P a s' → Post (f a) s' Q) :
    Post (m >>= f) s Q := by
  intro b s'' hrun
  obtain ⟨a, s', hma, hfa⟩ := bind_eq_ok.1 hrun
  exact hf a s' (hm a s' hma) b s'' hfa

theorem Post.mono {m : Fallible σ ε α} {s : σ} {P Q : α → σ → Prop} (hm : Post m s P)
    (hpq : ∀ a s', P a s' → Q a s') : Post m s Q :=
  fun a s' hrun => hpq a s' (hm a s' hrun)

theorem Post.check {c : Prop} [Decidable c] {e : ε} {s : σ} {Q : Unit → σ → Prop}
    (h : c → Q () s) : Post (check c e : Fallible σ ε Unit) s Q := by
  intro a s' hrun
  rw [check_run] at hrun
  split at hrun
  · next hc => cases hrun; exact h hc
  · cases hrun

theorem Post.ite {c : Prop} [Decidable c] {m n : Fallible σ ε α} {s : σ} {Q : α → σ → Prop}
    (hm : c → Post m s Q) (hn : ¬ c → Post n s Q) : Post (if c then m else n) s Q := by
  split
  · next hc => exact hm hc
  · next hc => exact hn hc

theorem Post.zoom {get : σ → τ} {put : τ → σ → σ} {m : Fallible τ ε α} {s : σ} {Q : α → σ → Prop}
    (h : Post m (get s) fun a t => Q a (put t s)) : Post (zoom get put m) s Q := by
  intro a s' hrun
  rw [zoom_run, Prod.mk.injEq] at hrun
  rw [← hrun.2]
  exact h a _ (Prod.ext hrun.1 rfl)

/-! ## Total correctness -/

/-- `m` succeeds from `s`, and its value and the state it reaches satisfy `Q`. -/
def Succeeds (m : Fallible σ ε α) (s : σ) (Q : α → σ → Prop) : Prop :=
  ∃ a s', m s = (.ok a, s') ∧ Q a s'

theorem Succeeds.pure {a : α} {s : σ} {Q : α → σ → Prop} (h : Q a s) :
    Succeeds (Pure.pure a : Fallible σ ε α) s Q :=
  ⟨a, s, rfl, h⟩

theorem Succeeds.bind {m : Fallible σ ε α} {f : α → Fallible σ ε β} {s : σ} {P : α → σ → Prop}
    {Q : β → σ → Prop} (hm : Succeeds m s P) (hf : ∀ a s', P a s' → Succeeds (f a) s' Q) :
    Succeeds (m >>= f) s Q := by
  obtain ⟨a, s', hrun, hp⟩ := hm
  obtain ⟨b, s'', hrun', hq⟩ := hf a s' hp
  exact ⟨b, s'', by rw [bind_ok hrun, hrun'], hq⟩

theorem Succeeds.mono {m : Fallible σ ε α} {s : σ} {P Q : α → σ → Prop} (hm : Succeeds m s P)
    (hpq : ∀ a s', P a s' → Q a s') : Succeeds m s Q := by
  obtain ⟨a, s', hrun, hp⟩ := hm
  exact ⟨a, s', hrun, hpq a s' hp⟩

/-! ## Invariants -/

/-- The predicate `I` survives `m`, whether `m` succeeds or fails. -/
def Keeps (I : σ → Prop) (m : Fallible σ ε α) : Prop := ∀ s, I s → I (m s).2

theorem Keeps.pure {I : σ → Prop} (a : α) : Keeps I (Pure.pure a : Fallible σ ε α) :=
  fun _ hs => hs

theorem Keeps.fail {I : σ → Prop} (e : ε) : Keeps I (fail e : Fallible σ ε α) :=
  fun _ hs => hs

theorem Keeps.peek {I : σ → Prop} (f : σ → α) : Keeps I (peek f : Fallible σ ε α) :=
  fun _ hs => hs

theorem Keeps.state {I : σ → Prop} : Keeps I (state : Fallible σ ε σ) :=
  fun _ hs => hs

theorem Keeps.update {I : σ → Prop} {f : σ → σ} (hf : ∀ s, I s → I (f s)) :
    Keeps I (update f : Fallible σ ε Unit) :=
  hf

theorem Keeps.lift {I : σ → Prop} (x : Except ε α) : Keeps I (lift x : Fallible σ ε α) :=
  fun _ hs => hs

theorem Keeps.bind {I : σ → Prop} {m : Fallible σ ε α} {f : α → Fallible σ ε β} (hm : Keeps I m)
    (hf : ∀ a, Keeps I (f a)) : Keeps I (m >>= f) := by
  intro s hs
  have hs' := hm s hs
  rw [bind_run]
  rcases h : m s with ⟨_ | a, s'⟩
  · rw [h] at hs'
    exact hs'
  · rw [h] at hs'
    exact hf a s' hs'

theorem Keeps.attempt {I : σ → Prop} {m : Fallible σ ε α} (hm : Keeps I m) :
    Keeps I (attempt m) :=
  fun s hs => hm s hs

theorem Keeps.check {I : σ → Prop} (c : Prop) [Decidable c] (e : ε) :
    Keeps I (check c e : Fallible σ ε Unit) := by
  intro s hs
  rw [check_run]
  split <;> exact hs

theorem Keeps.zoom {I : σ → Prop} {J : τ → Prop} {get : σ → τ} {put : τ → σ → σ}
    {m : Fallible τ ε α} (hm : Keeps J m) (hget : ∀ s, I s → J (get s))
    (hput : ∀ s t, I s → J t → I (put t s)) : Keeps I (zoom get put m) :=
  fun s hs => hput s _ hs (hm (get s) (hget s hs))

theorem Keeps.ite {I : σ → Prop} {c : Prop} [Decidable c] {m n : Fallible σ ε α}
    (hm : c → Keeps I m) (hn : ¬ c → Keeps I n) : Keeps I (if c then m else n) := by
  split
  · next hc => exact hm hc
  · next hc => exact hn hc

theorem Keeps.given {I : σ → Prop} {c : Bool} {d : α} {m : Fallible σ ε α} (hm : Keeps I m) :
    Keeps I (given c d m) :=
  Keeps.ite (fun _ => hm) fun _ => Keeps.pure d

end Fallible
