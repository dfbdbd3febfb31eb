import SoulsFormats.Library.Fallible

set_option autoImplicit false

/-! # Work in place

A loop works on the elements of a container in place, with something `ρ` that it uses up on its way, and stops at the
first error. What it has done by then stays done. `walk` is the loop over a list, `Walks` says that a nest of loops
does the same to everything inside as one loop would; `AllOrNothing` asks that nothing is done where an error stops
the loop. -/

namespace Fallible

variable {α β κ τ ρ ε : Type}

/-- One element after another. -/
def walkFrom (f : Fallible (α × ρ) ε Unit) : List α → ρ → Except ε Unit × List α × ρ
  | [], r => (.ok (), [], r)
  | a :: l, r =>
    match f (a, r) with
    | (.ok _, a', r') =>
      match walkFrom f l r' with
      | (x, l', r'') => (x, a' :: l', r'')
    | (.error e, a', r') => (.error e, a' :: l, r')

def walk (f : Fallible (α × ρ) ε Unit) : Fallible (List α × ρ) ε Unit := fun s => walkFrom f s.1 s.2

/-- An element that may be missing. -/
def optionally (f : Fallible (α × ρ) ε Unit) : Fallible (Option α × ρ) ε Unit
  | (none, r) => (.ok (), none, r)
  | (some a, r) => ((f (a, r)).1, some (f (a, r)).2.1, (f (a, r)).2.2)

/-- A part of the container. -/
def within (get : κ → τ) (set : τ → κ → κ) (f : Fallible (τ × ρ) ε Unit) : Fallible (κ × ρ) ε Unit :=
  zoom (fun s => (get s.1, s.2)) (fun t s => (set t.1 s.1, t.2)) f

variable {f : Fallible (α × ρ) ε Unit} {m : Fallible (κ × ρ) ε Unit} {contents : κ → List α}

@[simp] theorem walk_nil (r : ρ) : walk f ([], r) = (.ok (), [], r) := rfl

theorem walk_cons_ok {a a' : α} {r r' : ρ} (h : f (a, r) = (.ok (), a', r')) (l : List α) :
    walk f (a :: l, r) = ((walk f (l, r')).1, a' :: (walk f (l, r')).2.1, (walk f (l, r')).2.2) := by
  simp [walk, walkFrom, h]

theorem walk_cons_error {a a' : α} {r r' : ρ} {e : ε} (h : f (a, r) = (.error e, a', r')) (l : List α) :
    walk f (a :: l, r) = (.error e, a' :: l, r') := by
  simp [walk, walkFrom, h]

theorem walk_append_ok {l l' : List α} {r r' : ρ} (h : walk f (l, r) = (.ok (), l', r')) (k : List α) :
    walk f (l ++ k, r) = ((walk f (k, r')).1, l' ++ (walk f (k, r')).2.1, (walk f (k, r')).2.2) := by
  induction l generalizing l' r with
  | nil =>
      cases h
      rfl
  | cons a l ih =>
      rcases ha : f (a, r) with ⟨_ | ⟨⟩, a', r1⟩
      · rw [walk_cons_error ha] at h
        cases h
      · rw [walk_cons_ok ha] at h
        rcases hl : walk f (l, r1) with ⟨_ | ⟨⟩, l1, r2⟩
        · rw [hl] at h
          cases h
        · rw [hl] at h
          cases h
          rw [List.cons_append, walk_cons_ok ha, ih hl]
          rfl

theorem walk_append_error {l l' : List α} {r r' : ρ} {e : ε} (h : walk f (l, r) = (.error e, l', r'))
    (k : List α) : walk f (l ++ k, r) = (.error e, l' ++ k, r') := by
  induction l generalizing l' r with
  | nil => cases h
  | cons a l ih =>
      rcases ha : f (a, r) with ⟨_ | ⟨⟩, a', r1⟩
      · rw [walk_cons_error ha] at h
        cases h
        rw [List.cons_append, walk_cons_error ha]
        rfl
      · rw [walk_cons_ok ha] at h
        rcases hl : walk f (l, r1) with ⟨_ | ⟨⟩, l1, r2⟩
        · rw [hl] at h
          cases h
          rw [List.cons_append, walk_cons_ok ha, ih hl]
          rfl
        · rw [hl] at h
          cases h

/-- A loop that fails has succeeded up to an element, which fails. -/
theorem walk_eq_error {l l' : List α} {r r' : ρ} {e : ε} (h : walk f (l, r) = (.error e, l', r')) :
    ∃ before a after before' a' r1, l = before ++ a :: after ∧ walk f (before, r) = (.ok (), before', r1) ∧
      f (a, r1) = (.error e, a', r') ∧ l' = before' ++ a' :: after := by
  induction l generalizing l' r with
  | nil => cases h
  | cons a l ih =>
      rcases ha : f (a, r) with ⟨_ | ⟨⟩, a', r1⟩
      · rw [walk_cons_error ha] at h
        cases h
        exact ⟨[], a, l, [], a', r, rfl, rfl, ha, rfl⟩
      · rw [walk_cons_ok ha] at h
        rcases hl : walk f (l, r1) with ⟨_ | ⟨⟩, l1, r2⟩
        · rw [hl] at h
          cases h
          obtain ⟨before, b, after, before', b', r3, rfl, hbefore, hb, rfl⟩ := ih hl
          refine ⟨a :: before, b, after, a' :: before', b', r3, rfl, ?_, hb, rfl⟩
          rw [walk_cons_ok ha, hbefore]
        · rw [hl] at h
          cases h

/-! ## Nests of loops -/

/-- `m` is a loop over what is inside a container. -/
def Walks (f : Fallible (α × ρ) ε Unit) (contents : κ → List α) (m : Fallible (κ × ρ) ε Unit) : Prop :=
  ∀ c r, walk f (contents c, r) = ((m (c, r)).1, contents (m (c, r)).2.1, (m (c, r)).2.2)

theorem Walks.optionally (f : Fallible (α × ρ) ε Unit) : Walks f Option.toList (optionally f) := by
  intro o r
  cases o with
  | none => rfl
  | some a =>
      rcases ha : f (a, r) with ⟨_ | ⟨⟩, a', r'⟩
      · rw [Option.toList_some, walk_cons_error ha]
        simp [Fallible.optionally, ha]
      · rw [Option.toList_some, walk_cons_ok ha]
        simp [Fallible.optionally, ha]

theorem Walks.option (h : Walks f contents m) :
    Walks f (fun o => o.toList.flatMap contents) (Fallible.optionally m) := by
  intro o r
  cases o with
  | none => rfl
  | some c => simpa [Fallible.optionally] using h c r

theorem Walks.list (h : Walks f contents m) : Walks f (fun l => l.flatMap contents) (walk m) := by
  intro l r
  dsimp only
  induction l generalizing r with
  | nil => rfl
  | cons c l ih =>
      have hc := h c r
      rcases hm : m (c, r) with ⟨_ | ⟨⟩, c', r'⟩
      · rw [hm] at hc
        rw [walk_cons_error hm, List.flatMap_cons, walk_append_error hc]
        simp
      · rw [hm] at hc
        rw [walk_cons_ok hm, List.flatMap_cons, walk_append_ok hc, ih]
        simp

theorem Walks.within (get : τ → κ) (set : κ → τ → τ) (hget : ∀ c t, get (set c t) = c) (h : Walks f contents m) :
    Walks f (fun t => contents (get t)) (Fallible.within get set m) := by
  intro t r
  rw [h, Fallible.within, zoom_run]
  simp [hget]

/-! ## All or nothing -/

/-- Where `m` fails, what one sees of the container is as it was. -/
def AllOrNothing (view : κ → β) (m : Fallible (κ × ρ) ε Unit) (s : κ × ρ) : Prop :=
  ∀ e, (m s).1 = .error e → view (m s).2.1 = view s.1

/-- A loop does all or nothing exactly if every element before the one that fails is left as it was. -/
theorem allOrNothing_walk_iff {view : α → β} (hf : ∀ a r a' r' e, f (a, r) = (.error e, a', r') → view a' = view a)
    {l : List α} {r : ρ} :
    AllOrNothing (fun l => l.map view) (walk f) (l, r) ↔
      ∀ before a after before' r1, l = before ++ a :: after → walk f (before, r) = (.ok (), before', r1) →
        (∃ e, (f (a, r1)).1 = .error e) → before'.map view = before.map view := by
  constructor
  · rintro h before a after before' r1 rfl hbefore ⟨e, he⟩
    have ha : f (a, r1) = (.error e, (f (a, r1)).2.1, (f (a, r1)).2.2) := Prod.ext he rfl
    have hrun := walk_append_ok hbefore (a :: after)
    rw [walk_cons_error ha] at hrun
    have hsame := h e (by rw [hrun])
    rw [hrun] at hsame
    simp only [List.map_append] at hsame
    have hlength := congrArg List.length hsame
    exact (List.append_inj hsame (by simpa using hlength)).1
  · intro h e he
    have hrun : walk f (l, r) = (.error e, (walk f (l, r)).2.1, (walk f (l, r)).2.2) := Prod.ext he rfl
    obtain ⟨before, a, after, before', a', r1, rfl, hbefore, ha, hl'⟩ := walk_eq_error hrun
    have hsame := h before a after before' r1 rfl hbefore ⟨e, by rw [ha]⟩
    simp only [hl', List.map_append, List.map_cons, hsame, hf a r1 a' _ e ha]

/-- All or nothing inside a container is all or nothing of the one loop. -/
theorem Walks.allOrNothing_iff {view : α → β} (h : Walks f contents m) (c : κ) (r : ρ) :
    AllOrNothing (fun c => (contents c).map view) m (c, r) ↔
      AllOrNothing (fun l => l.map view) (walk f) (contents c, r) := by
  unfold AllOrNothing
  simp only [h c r]

end Fallible
