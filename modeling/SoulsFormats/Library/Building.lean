import SoulsFormats.Library.Fallible

set_option autoImplicit false

/-! # Objects under construction

A C object keeps an array and its count in different fields, and whoever cleans the object up trusts the count. `Built`
is an object while it is built from some source, with a log of the accesses to its arrays. Building is compared with a
computation over the source alone: `Mirrors` says that both end the same way. -/

/-- An access to an array of so many elements; an array that was not allocated has none. -/
structure Access where
  index : Nat
  allocated : Nat
deriving DecidableEq, Repr

def Access.Valid (a : Access) : Prop := a.index < a.allocated

instance (a : Access) : Decidable a.Valid := inferInstanceAs (Decidable (_ < _))

/-- An array of an object. -/
structure TableOf (ω τ : Type) where
  get : ω → List τ
  set : List τ → ω → ω
  get_set : ∀ l o, get (set l o) = l
  set_set : ∀ l l' o, set l (set l' o) = set l o
  set_get : ∀ o, set (get o) o = o

structure Built (ρ ω : Type) where
  source : ρ
  object : ω
  log : List Access := []
deriving DecidableEq, Repr

abbrev BuildM (ρ ω ε : Type) := Fallible (Built ρ ω) ε

namespace Built

open Fallible

variable {ρ ω τ ε α β γ : Type}

/-- Every access so far was to an element that is there. -/
def Sound (b : Built ρ ω) : Prop := ∀ a ∈ b.log, a.Valid

instance (b : Built ρ ω) : Decidable b.Sound := inferInstanceAs (Decidable (∀ a ∈ b.log, a.Valid))

/-! ## Steps -/

/-- What is done with the source only. -/
def reading (m : Fallible ρ ε α) : BuildM ρ ω ε α := zoom Built.source (fun r b => { b with source := r }) m

/-- An assignment to fields of the object. -/
def assign (f : ω → ω) : BuildM ρ ω ε Unit := update fun b => { b with object := f b.object }

/-- An access to an element of an array. -/
def access (T : TableOf ω τ) (i : Nat) : BuildM ρ ω ε Unit :=
  update fun b => { b with log := b.log ++ [{ index := i, allocated := (T.get b.object).length }] }

/-- Work on an element of an array, which is blank where there is none. -/
def element (T : TableOf ω τ) (blank : τ) (i : Nat) (m : BuildM ρ τ ε α) : BuildM ρ ω ε α := do
  access T i
  zoom (fun b => { source := b.source, object := (T.get b.object).getD i blank, log := b.log })
    (fun t b => { source := t.source, object := T.set ((T.get b.object).set i t.object) b.object, log := t.log }) m

/-- `n` steps, with numbers from `i` on. -/
def upTo (f : Nat → BuildM ρ ω ε Unit) : Nat → Nat → BuildM ρ ω ε Unit
  | 0, _ => pure ()
  | n + 1, i => do
    f i
    upTo f n (i + 1)

/-- Run `clean` where `m` fails, and fail as `m` did. -/
def onFailure (m : BuildM ρ ω ε α) (clean : BuildM ρ ω ε Unit) : BuildM ρ ω ε α := fun b =>
  match m b with
  | (.ok a, b') => (.ok a, b')
  | (.error e, b') => (.error e, (clean b').2)

@[simp] theorem reading_run (m : Fallible ρ ε α) (b : Built ρ ω) :
    (reading m : BuildM ρ ω ε α) b = ((m b.source).1, { b with source := (m b.source).2 }) := rfl

@[simp] theorem assign_run (f : ω → ω) (b : Built ρ ω) :
    (assign f : BuildM ρ ω ε Unit) b = (.ok (), { b with object := f b.object }) := rfl

@[simp] theorem access_run (T : TableOf ω τ) (i : Nat) (b : Built ρ ω) :
    (access T i : BuildM ρ ω ε Unit) b =
      (.ok (), { b with log := b.log ++ [{ index := i, allocated := (T.get b.object).length }] }) := rfl

@[simp] theorem assign_bind_run (f : ω → ω) (k : Unit → BuildM ρ ω ε α) (b : Built ρ ω) :
    ((assign f : BuildM ρ ω ε Unit) >>= k) b = k () { b with object := f b.object } := rfl

theorem reading_bind_ok {m : Fallible ρ ε α} {s r : ρ} {a : α} (h : m s = (.ok a, r)) (k : α → BuildM ρ ω ε β)
    (o : ω) (log : List Access) : (reading m >>= k) ⟨s, o, log⟩ = k a ⟨r, o, log⟩ := by
  have hrun : (reading m : BuildM ρ ω ε α) ⟨s, o, log⟩ = (.ok a, ⟨r, o, log⟩) := by rw [reading_run, h]
  rw [bind_ok hrun]

theorem reading_bind_error {m : Fallible ρ ε α} {s r : ρ} {e : ε} (h : m s = (.error e, r)) (k : α → BuildM ρ ω ε β)
    (o : ω) (log : List Access) : (reading m >>= k) ⟨s, o, log⟩ = (.error e, ⟨r, o, log⟩) := by
  have hrun : (reading m : BuildM ρ ω ε α) ⟨s, o, log⟩ = (.error e, ⟨r, o, log⟩) := by rw [reading_run, h]
  rw [bind_error hrun]

theorem onFailure_ok {m : BuildM ρ ω ε α} {b b' : Built ρ ω} {a : α} (h : m b = (.ok a, b'))
    (clean : BuildM ρ ω ε Unit) : onFailure m clean b = (.ok a, b') := by
  rw [onFailure, h]

theorem onFailure_error {m : BuildM ρ ω ε α} {b b' : Built ρ ω} {e : ε} (h : m b = (.error e, b'))
    (clean : BuildM ρ ω ε Unit) : onFailure m clean b = (.error e, (clean b').2) := by
  rw [onFailure, h]

/-! ## What building keeps -/

section

variable {I : Built ρ ω → Prop}

/-- Sound so far, with an object that is as it should be. -/
def SoundWith (J : ω → Prop) (b : Built ρ ω) : Prop := b.Sound ∧ J b.object

/-- Something went wrong already. -/
def Unsound (b : Built ρ ω) : Prop := ¬ b.Sound

theorem reading_keeps_with {J : ω → Prop} (m : Fallible ρ ε α) :
    Keeps (SoundWith J) (reading m : BuildM ρ ω ε α) := fun _ hb => hb

theorem reading_keeps_unsound (m : Fallible ρ ε α) : Keeps Unsound (reading m : BuildM ρ ω ε α) := fun _ hb => hb

theorem assign_keeps_unsound (f : ω → ω) : Keeps Unsound (assign f : BuildM ρ ω ε Unit) := fun _ hb => hb

theorem onFailure_keeps {m : BuildM ρ ω ε α} {clean : BuildM ρ ω ε Unit} (hm : Keeps I m) (hclean : Keeps I clean) :
    Keeps I (onFailure m clean) := by
  intro b hb
  have hm' := hm b hb
  rcases h : m b with ⟨_ | a, b'⟩
  · rw [onFailure_error h]
    rw [h] at hm'
    exact hclean b' hm'
  · rw [onFailure_ok h]
    rwa [h] at hm'

theorem upTo_keeps {f : Nat → BuildM ρ ω ε Unit} {n i : Nat} (h : ∀ j, i ≤ j → j < i + n → Keeps I (f j)) :
    Keeps I (upTo f n i) := by
  induction n generalizing i with
  | zero => exact Keeps.pure _
  | succ n ih =>
      exact (h i (by omega) (by omega)).bind fun _ => ih fun j hj hjn => h j (by omega) (by omega)

/-- Steps that never fail make a loop that never fails. -/
theorem upTo_ok {f : Nat → BuildM ρ ω ε Unit} (h : ∀ i b, (f i b).1 = .ok ()) (n i : Nat) (b : Built ρ ω) :
    ∃ b', upTo f n i b = (.ok (), b') := by
  induction n generalizing i b with
  | zero => exact ⟨b, rfl⟩
  | succ n ih =>
      obtain ⟨b', hrun⟩ := ih (i + 1) (f i b).2
      exact ⟨b', by rw [upTo, bind_ok (Prod.ext (h i b) rfl), hrun]⟩

/-- A loop that succeeds comes to each of its steps, which succeeds. -/
theorem upTo_reaches {f : Nat → BuildM ρ ω ε Unit} {n i : Nat} {b b' : Built ρ ω} (h : upTo f n i b = (.ok (), b')) {k : Nat}
    (hk : k < n) : ∃ bk, upTo f k i b = (.ok (), bk) ∧ (f (i + k) bk).1 = .ok () := by
  induction n generalizing i b k with
  | zero => exact absurd hk (Nat.not_lt_zero k)
  | succ n ih =>
      obtain ⟨⟨⟩, b1, hfirst, hrest⟩ := bind_eq_ok.1 h
      cases k with
      | zero => exact ⟨b, rfl, by rw [Nat.add_zero, hfirst]⟩
      | succ k =>
          obtain ⟨bk, hrun, hstep⟩ := ih hrest (Nat.lt_of_succ_lt_succ hk)
          exact ⟨bk, by rw [upTo, bind_ok hfirst, hrun], by rwa [← Nat.succ_add_eq_add_succ]⟩

theorem sound_access {T : TableOf ω τ} {i : Nat} {b : Built ρ ω} :
    ((access T i : BuildM ρ ω ε Unit) b).2.Sound ↔ b.Sound ∧ i < (T.get b.object).length := by
  simp [Sound, Access.Valid, or_imp, forall_and]

end

/-! ## Cleaning up -/

section

variable {T : TableOf ω τ} {blank : τ} {m : BuildM ρ τ ε Unit} {P : τ → Prop}

/-- The state that work on an element starts in. -/
def focus (T : TableOf ω τ) (blank : τ) (i : Nat) (b : Built ρ ω) : Built ρ τ where
  source := b.source
  object := (T.get b.object).getD i blank
  log := b.log ++ [{ index := i, allocated := (T.get b.object).length }]

theorem element_run (i : Nat) (m : BuildM ρ τ ε α) (b : Built ρ ω) :
    element T blank i m b =
      ((m (focus T blank i b)).1,
        { source := (m (focus T blank i b)).2.source
          object := T.set ((T.get b.object).set i (m (focus T blank i b)).2.object) b.object
          log := (m (focus T blank i b)).2.log }) := rfl

theorem sound_focus {i : Nat} {b : Built ρ ω} :
    (focus T blank i b).Sound ↔ b.Sound ∧ i < (T.get b.object).length := by
  simp [focus, Sound, Access.Valid, or_imp, forall_and]

/-- Work on an element that is there, which is sound itself, is sound. -/
theorem element_keeps {J : ω → Prop} {i : Nat} {m : BuildM ρ τ ε α}
    (hset : ∀ l o, l.length = (T.get o).length → J o → J (T.set l o)) (hin : ∀ o, J o → i < (T.get o).length)
    (hm : Keeps Sound m) : Keeps (SoundWith J) (element T blank i m) := by
  rintro b ⟨hb, hJ⟩
  have hfocus : (focus T blank i b).Sound := sound_focus.2 ⟨hb, hin _ hJ⟩
  rw [element_run]
  exact ⟨hm _ hfocus, hset _ _ (by simp) hJ⟩

/-- What was unsound stays so. -/
theorem element_keeps_unsound {i : Nat} {m : BuildM ρ τ ε α} (hm : Keeps Unsound m) :
    Keeps (Unsound (ω := ω)) (element T blank i m) := by
  intro b hb
  rw [element_run]
  exact hm (focus T blank i b) fun h => hb (sound_focus.1 h).1

/-- A loop over accesses, up to a count, is sound if there are so many elements. -/
theorem upTo_access (n i : Nat) (b : Built ρ ω) :
    ∃ log, (upTo (fun j => access T j) n i : BuildM ρ ω ε Unit) b = (.ok (), { b with log := log }) ∧
      ((∀ a ∈ log, a.Valid) ↔ b.Sound ∧ (0 < n → i + n ≤ (T.get b.object).length)) := by
  induction n generalizing i b with
  | zero => exact ⟨b.log, rfl, by simp [Sound]⟩
  | succ n ih =>
      obtain ⟨log, hrun, hlog⟩ := ih (i + 1) ((access T i : BuildM ρ ω ε Unit) b).2
      refine ⟨log, by rw [upTo, bind_ok (access_run T i b)]; exact hrun, ?_⟩
      rw [hlog, sound_access, and_assoc]
      refine and_congr_right fun _ => ?_
      simp only [access_run]
      omega

/-- A loop that frees the elements of an array, up to a count, is sound if there are so many of them, each of which can
be freed. -/
theorem sound_free_upTo (hok : ∀ b, (m b).1 = .ok ()) (hm : ∀ b, (m b).2.Sound ↔ b.Sound ∧ P b.object) (n i : Nat)
    (b : Built ρ ω) :
    (upTo (fun j => element T blank j m) n i b).2.Sound ↔
      b.Sound ∧ ∀ j, i ≤ j → j < i + n → j < (T.get b.object).length ∧ P ((T.get b.object).getD j blank) := by
  induction n generalizing i b with
  | zero =>
      rw [upTo, pure_run]
      exact ⟨fun h => ⟨h, fun j hj hjn => by omega⟩, fun h => h.1⟩
  | succ n ih =>
      have hrun : element T blank i m b = _ := element_run i m b
      rw [hok] at hrun
      rw [upTo, bind_ok hrun, ih]
      simp only [T.get_set, List.length_set]
      have hsound : (Built.mk (m (focus T blank i b)).2.source
          (T.set ((T.get b.object).set i (m (focus T blank i b)).2.object) b.object)
          (m (focus T blank i b)).2.log).Sound ↔
            b.Sound ∧ i < (T.get b.object).length ∧ P ((T.get b.object).getD i blank) := by
        have := hm (focus T blank i b)
        rw [sound_focus] at this
        exact this.trans and_assoc
      -- the elements behind this one are as they were
      have hlater (x : τ) (j : Nat) (hj : i < j) :
          ((T.get b.object).set i x).getD j blank = (T.get b.object).getD j blank := by
        rw [List.getD_eq_getElem?_getD, List.getD_eq_getElem?_getD, List.getElem?_set_ne (by omega)]
      rw [hsound]
      constructor
      · rintro ⟨⟨hb, hlen, hP⟩, hrest⟩
        refine ⟨hb, fun j hj hjn => ?_⟩
        rcases Nat.lt_or_eq_of_le hj with hlt | rfl
        · have := hrest j (by omega) (by omega)
          rwa [hlater _ j hlt] at this
        · exact ⟨hlen, hP⟩
      · rintro ⟨hb, hall⟩
        refine ⟨⟨hb, hall i (by omega) (by omega)⟩, fun j hj hjn => ?_⟩
        rw [hlater _ j (by omega)]
        exact hall j (by omega) (by omega)

end

/-! ## Filling an array -/

section

variable {T : TableOf ω τ} {blank : τ} {m : Nat → BuildM ρ τ ε Unit} {Ok : τ → Prop} {C : Nat → ρ → Prop}

/-- Sound so far, and every element is fine. -/
def Settled (T : TableOf ω τ) (Ok : τ → Prop) (b : Built ρ ω) : Prop := b.Sound ∧ ∀ t ∈ T.get b.object, Ok t

theorem forall_mem_set {l : List τ} {i : Nat} {t : τ} (hi : l[i]? = some blank) (hblank : Ok blank) :
    (∀ x ∈ l.set i t, Ok x) ↔ (∀ x ∈ l, Ok x) ∧ Ok t := by
  obtain ⟨hlen, hget⟩ := List.getElem?_eq_some_iff.1 hi
  constructor
  · intro h
    refine ⟨fun x hx => ?_, h t (List.mem_set hlen t)⟩
    obtain ⟨j, hj, rfl⟩ := List.getElem_of_mem hx
    by_cases hji : i = j
    · subst hji
      rwa [hget]
    · have hj' : j < (l.set i t).length := by simpa using hj
      have hsame : l[j] = (l.set i t)[j] := (List.getElem_set_ne hji _).symm
      rw [hsame]
      exact h _ (List.getElem_mem _)
  · rintro ⟨hl, ht⟩ x hx
    rcases List.mem_or_eq_of_mem_set hx with hmem | rfl
    · exact hl x hmem
    · exact ht

/-- Work on a blank element settles the array as far as it settles the element. -/
theorem settled_element (hblank : Ok blank)
    (hm : ∀ i b, b.object = blank → ((m i b).2.Sound ∧ Ok (m i b).2.object ↔ b.Sound ∧ C i b.source)) {i : Nat}
    {b : Built ρ ω} (hi : (T.get b.object)[i]? = some blank) :
    Settled T Ok (element T blank i (m i) b).2 ↔ Settled T Ok b ∧ C i b.source := by
  have hlen : i < (T.get b.object).length := (List.getElem?_eq_some_iff.1 hi).1
  have hfocus : (focus T blank i b).object = blank := by
    simp [focus, List.getD_eq_getElem?_getD, hi]
  have hstep := hm i (focus T blank i b) hfocus
  rw [sound_focus] at hstep
  rw [element_run, Settled, Settled]
  simp only [T.get_set, forall_mem_set hi hblank]
  have hsound (s : ρ) (o : ω) (l : List Access) (o' : τ) :
      (Built.mk s o l).Sound ↔ (Built.mk s o' l).Sound := Iff.rfl
  rw [hsound _ _ _ (m i (focus T blank i b)).2.object]
  constructor
  · rintro ⟨h, hall, hok⟩
    obtain ⟨⟨hb, -⟩, hC⟩ := hstep.1 ⟨h, hok⟩
    exact ⟨⟨hb, hall⟩, hC⟩
  · rintro ⟨⟨hb, hall⟩, hC⟩
    obtain ⟨h, hok⟩ := hstep.2 ⟨⟨hb, hlen⟩, hC⟩
    exact ⟨h, hall, hok⟩

/-- After the work on an element, only that element may have changed. -/
theorem element_table {i : Nat} {m : BuildM ρ τ ε α} {b : Built ρ ω} :
    ∃ t, T.get (element T blank i m b).2.object = (T.get b.object).set i t ∧
      (element T blank i m b).2.object = T.set ((T.get b.object).set i t) b.object :=
  ⟨(m (focus T blank i b)).2.object, by rw [element_run, T.get_set], rfl⟩

/-- An array is settled after a loop over its blank elements if it was before, and at each element that the loop
comes to. -/
theorem settled_upTo (hblank : Ok blank)
    (hm : ∀ i b, b.object = blank → ((m i b).2.Sound ∧ Ok (m i b).2.object ↔ b.Sound ∧ C i b.source)) (n i : Nat)
    (b : Built ρ ω) (hb : ∀ j, i ≤ j → j < i + n → (T.get b.object)[j]? = some blank) :
    Settled T Ok (upTo (fun j => element T blank j (m j)) n i b).2 ↔
      Settled T Ok b ∧
        ∀ k < n, ∀ b', upTo (fun j => element T blank j (m j)) k i b = (.ok (), b') → C (i + k) b'.source := by
  induction n generalizing i b with
  | zero => simp [upTo]
  | succ n ih =>
      have hstep := settled_element (C := C) hblank hm (hb i (by omega) (by omega))
      obtain ⟨t, htable, -⟩ := element_table (T := T) (i := i) (m := m i) (b := b)
      rcases h : element T blank i (m i) b with ⟨e | ⟨⟩, b'⟩
      · -- the loop ends here
        rw [h] at hstep
        rw [upTo, bind_error h]
        refine hstep.trans (and_congr_right fun _ => ⟨?_, ?_⟩)
        · rintro hC (_ | k) hk b'' hrun
          · obtain ⟨-, rfl⟩ := Prod.mk.inj hrun
            exact hC
          · rw [upTo, bind_error h] at hrun
            cases hrun
        · intro hall
          exact hall 0 (by omega) b rfl
      · rw [h] at hstep htable
        have hb' : ∀ j, i + 1 ≤ j → j < i + 1 + n → (T.get b'.object)[j]? = some blank := by
          intro j hj hjn
          rw [htable, List.getElem?_set_ne (by omega)]
          exact hb j (by omega) (by omega)
        rw [upTo, bind_ok h, ih (i + 1) b' hb', hstep, and_assoc]
        refine and_congr_right fun _ => ⟨?_, ?_⟩
        · rintro ⟨hC, hrest⟩ (_ | k) hk b'' hrun
          · obtain ⟨-, rfl⟩ := Prod.mk.inj hrun
            exact hC
          · rw [upTo, bind_ok h] at hrun
            rw [show i + (k + 1) = i + 1 + k by omega]
            exact hrest k (by omega) b'' hrun
        · intro hall
          refine ⟨hall 0 (by omega) b rfl, fun k hk b'' hrun => ?_⟩
          rw [show i + 1 + k = i + (k + 1) by omega]
          exact hall (k + 1) (by omega) b'' (by rw [upTo, bind_ok h]; exact hrun)

/-- A loop over elements changes nothing else of the object. -/
theorem upTo_object (n i : Nat) (b : Built ρ ω) :
    ∃ l, l.length = (T.get b.object).length ∧
      (upTo (fun j => element T blank j (m j)) n i b).2.object = T.set l b.object := by
  induction n generalizing i b with
  | zero => exact ⟨_, rfl, (T.set_get _).symm⟩
  | succ n ih =>
      obtain ⟨t, htable, hobject⟩ := element_table (T := T) (i := i) (m := m i) (b := b)
      rcases h : element T blank i (m i) b with ⟨e | ⟨⟩, b'⟩
      · rw [h] at hobject
        rw [upTo, bind_error h]
        exact ⟨_, by simp, hobject⟩
      · rw [h] at hobject htable
        rw [upTo, bind_ok h]
        obtain ⟨l, hlen, hrest⟩ := ih (i + 1) b'
        refine ⟨l, by simpa [htable] using hlen, ?_⟩
        rw [hrest, hobject, T.set_set]

end

/-! ## Comparing with the source alone -/

/-- Building ends as a computation over the source does: with values that `Q` relates, or with the same error. -/
def Mirrors (m : BuildM ρ ω ε α) (m' : Fallible ρ ε β) (b : Built ρ ω) (Q : α → β → ω → Prop) : Prop :=
  (∀ x r, m' b.source = (.ok x, r) → ∃ a b', m b = (.ok a, b') ∧ b'.source = r ∧ Q a x b'.object) ∧
    ∀ e r, m' b.source = (.error e, r) → ∃ b', m b = (.error e, b') ∧ b'.source = r

section

variable {m : BuildM ρ ω ε α} {b : Built ρ ω} {Q R : α → β → ω → Prop}

theorem Mirrors.pure {a : α} {x : β} (h : Q a x b.object) :
    Mirrors (Pure.pure a : BuildM ρ ω ε α) (Pure.pure x : Fallible ρ ε β) b Q := by
  constructor
  · intro y r hrun
    cases hrun
    exact ⟨a, b, rfl, rfl, h⟩
  · intro e r hrun
    cases hrun

theorem Mirrors.fail (e : ε) :
    Mirrors (Fallible.fail e : BuildM ρ ω ε α) (Fallible.fail e : Fallible ρ ε β) b Q := by
  constructor
  · intro x r hrun
    cases hrun
  · intro e' r hrun
    cases hrun
    exact ⟨b, rfl, rfl⟩

theorem Mirrors.mono {m' : Fallible ρ ε β} (h : Mirrors m m' b Q) (hQR : ∀ a x o, Q a x o → R a x o) :
    Mirrors m m' b R := by
  refine ⟨fun x r hrun => ?_, h.2⟩
  obtain ⟨a, b', hm, hr, hQ⟩ := h.1 x r hrun
  exact ⟨a, b', hm, hr, hQR _ _ _ hQ⟩

theorem Mirrors.bind {α' β' : Type} {m : BuildM ρ ω ε α'} {m' : Fallible ρ ε β'} {f : α' → BuildM ρ ω ε α}
    {f' : β' → Fallible ρ ε β} {P : α' → β' → ω → Prop} (hm : Mirrors m m' b P)
    (hf : ∀ a x b', P a x b'.object → Mirrors (f a) (f' x) b' Q) : Mirrors (m >>= f) (m' >>= f') b Q := by
  rcases h : m' b.source with ⟨e | x, r⟩
  · obtain ⟨b', hrun, hr⟩ := hm.2 e r h
    refine ⟨fun y s hy => ?_, fun e' s he => ?_⟩
    · rw [bind_error h] at hy
      cases hy
    · rw [bind_error h] at he
      cases he
      exact ⟨b', bind_error hrun _, hr⟩
  · obtain ⟨a, b', hrun, rfl, hP⟩ := hm.1 x r h
    have hrest := hf a x b' hP
    refine ⟨fun y s hy => ?_, fun e' s he => ?_⟩
    · rw [bind_ok h] at hy
      rw [bind_ok hrun]
      exact hrest.1 y s hy
    · rw [bind_ok h] at he
      rw [bind_ok hrun]
      exact hrest.2 e' s he

theorem Mirrors.reading (m : Fallible ρ ε α) :
    Mirrors (Built.reading m) m b fun a x o => a = x ∧ o = b.object := by
  refine ⟨fun x r h => ⟨x, { b with source := r }, ?_, rfl, rfl, rfl⟩, fun e r h => ⟨{ b with source := r }, ?_, rfl⟩⟩ <;>
  rw [reading_run, h]

theorem Mirrors.reading_bind {γ : Type} {m : Fallible ρ ε γ} {f : γ → BuildM ρ ω ε α} {f' : γ → Fallible ρ ε β}
    (h : ∀ x b', b'.object = b.object → Mirrors (f x) (f' x) b' Q) :
    Mirrors (Built.reading m >>= f) (m >>= f') b Q :=
  (Mirrors.reading m).bind fun a x b' hP => by
    obtain ⟨rfl, hobject⟩ := hP
    exact h a b' hobject

theorem Mirrors.assign_bind {g : ω → ω} {f : Unit → BuildM ρ ω ε α} {m' : Fallible ρ ε β}
    (h : ∀ b', b'.object = g b.object → Mirrors (f ()) m' b' Q) : Mirrors (assign g >>= f) m' b Q :=
  have h := h { b with object := g b.object } rfl
  ⟨h.1, h.2⟩

theorem Mirrors.state_bind {f : Built ρ ω → BuildM ρ ω ε α} {m' : Fallible ρ ε β} (h : Mirrors (f b) m' b Q) :
    Mirrors (Fallible.state >>= f) m' b Q :=
  ⟨h.1, h.2⟩

theorem Mirrors.check_bind {p : Prop} [Decidable p] {e : ε} {f : Unit → BuildM ρ ω ε α} {f' : Unit → Fallible ρ ε β}
    (h : p → Mirrors (f ()) (f' ()) b Q) : Mirrors (check p e >>= f) (check p e >>= f') b Q := by
  by_cases hp : p
  · refine ⟨fun x r hrun => ?_, fun e' r hrun => ?_⟩ <;> rw [check_bind_pos hp] at hrun ⊢
    · exact (h hp).1 x r hrun
    · exact (h hp).2 e' r hrun
  · refine ⟨fun x r hrun => ?_, fun e' r hrun => ?_⟩ <;> rw [check_bind_neg hp] at hrun
    · cases hrun
    · cases hrun
      exact ⟨b, check_bind_neg hp _ _ _, rfl⟩

theorem Mirrors.check_pure {p : Prop} [Decidable p] {e : ε} {x : β} {Q : Unit → β → ω → Prop} (h : Q () x b.object) :
    Mirrors (check p e : BuildM ρ ω ε Unit) (check p e >>= fun _ => Pure.pure x : Fallible ρ ε β) b Q := by
  have hbind : Mirrors (check p e >>= Pure.pure : BuildM ρ ω ε Unit) (check p e >>= fun _ => Pure.pure x) b Q :=
    Mirrors.check_bind fun _ => Mirrors.pure h
  rwa [bind_pure] at hbind

theorem Mirrors.assign_pure {g : ω → ω} {x : β} {Q : Unit → β → ω → Prop} (h : Q () x (g b.object)) :
    Mirrors (assign g : BuildM ρ ω ε Unit) (Pure.pure x : Fallible ρ ε β) b Q := by
  constructor
  · intro y r hrun
    cases hrun
    exact ⟨(), _, rfl, rfl, h⟩
  · intro e r hrun
    cases hrun

theorem Mirrors.onFailure {m' : Fallible ρ ε β} {clean : BuildM ρ ω ε Unit} (h : Mirrors m m' b Q)
    (hclean : ∀ b', (clean b').2.source = b'.source) : Mirrors (onFailure m clean) m' b Q := by
  refine ⟨fun x r hx => ?_, fun e r he => ?_⟩
  · obtain ⟨a, b', hrun, hr, hQ⟩ := h.1 x r hx
    exact ⟨a, b', onFailure_ok hrun _, hr, hQ⟩
  · obtain ⟨b', hrun, hr⟩ := h.2 e r he
    exact ⟨(clean b').2, onFailure_error hrun _, (hclean b').trans hr⟩

end

end Built
