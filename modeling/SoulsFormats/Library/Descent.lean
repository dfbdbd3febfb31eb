import Mathlib.Algebra.Order.BigOperators.Group.List
import Mathlib.Data.Fintype.Card
import Mathlib.Data.List.TakeWhile
import Mathlib.Data.Set.Finite.Lattice
import Mathlib.Logic.Relation
import Mathlib.Tactic.Ring
import SoulsFormats.Library.Sweep

set_option autoImplicit false

/-! # Depth-first descents

A descent enters a node, goes down into its children one after another and does the rest of its work there; it stops
at the first node that fails. Nodes are shared and linked as they like, so that a descent need not end. It ends
exactly if no cycle can be entered, where a child is entered if all the children before it have succeeded. -/

universe u

/-! ## Cycles of a relation -/

section

open Relation

variable {α : Type u} {r : α → α → Prop}

/-- A node that is reached again from itself. -/
def RunsIntoCycle (r : α → α → Prop) (p : α) : Prop := ∃ q, ReflTransGen r p q ∧ TransGen r q q

theorem Acc.not_rel_self {s : α → α → Prop} {p : α} (h : Acc s p) : ¬ s p p := by
  induction h with
  | intro p _ ih => exact fun hp => ih p hp hp

theorem Acc.of_reflTransGen {p q : α} (h : Acc (fun b a => r a b) p) (hpq : ReflTransGen r p q) :
    Acc (fun b a => r a b) q := by
  induction hpq with
  | refl => exact h
  | tail _ hstep ih => exact ih.inv hstep

/-- A node from which every path ends runs into no cycle. -/
theorem Acc.not_runsIntoCycle {p : α} (h : Acc (fun b a => r a b) p) : ¬ RunsIntoCycle r p := by
  rintro ⟨q, hpq, hq⟩
  have hacc := (h.of_reflTransGen hpq).transGen
  refine hacc.not_rel_self ?_
  rw [← transGen_swap] at hq
  exact hq

/-- Where only finitely many nodes lead anywhere, every path from a node ends unless it can run into a cycle. -/
theorem acc_of_not_runsIntoCycle (hfinite : {p | ∃ q, r p q}.Finite) {p : α} (h : ¬ RunsIntoCycle r p) :
    Acc (fun b a => r a b) p := by
  let Live := {q : α // (∃ b, r q b) ∧ ReflTransGen r p q}
  have : Finite Live := (hfinite.subset fun q (hq : (∃ b, r q b) ∧ ReflTransGen r p q) => hq.1).to_subtype
  let behind : Live → Live → Prop := fun b a => TransGen r a.1 b.1
  have : IsTrans Live behind := ⟨fun a b c hab hbc => hbc.trans hab⟩
  have : Std.Irrefl behind := ⟨fun a ha => h ⟨a.1, a.2.2, ha⟩⟩
  have hwf : WellFounded behind := Finite.wellFounded_of_trans_of_irrefl behind
  have hlive : ∀ q : Live, Acc (fun b a => r a b) q.1 := by
    intro q
    induction q using hwf.induction with
    | _ q ih =>
        refine ⟨_, fun b hb => ?_⟩
        by_cases hleads : ∃ c, r b c
        · exact ih ⟨b, hleads, q.2.2.tail hb⟩ (.single hb)
        · exact ⟨_, fun c hc => absurd ⟨c, hc⟩ hleads⟩
  by_cases hleads : ∃ b, r p b
  · exact hlive ⟨p, hleads, .refl⟩
  · exact ⟨_, fun b hb => absurd ⟨b, hb⟩ hleads⟩

theorem acc_iff_not_runsIntoCycle (hfinite : {p | ∃ q, r p q}.Finite) {p : α} :
    Acc (fun b a => r a b) p ↔ ¬ RunsIntoCycle r p :=
  ⟨Acc.not_runsIntoCycle, acc_of_not_runsIntoCycle hfinite⟩

/-- Every path from a node ends after at most so many steps. -/
def Within (r : α → α → Prop) : Nat → α → Prop
  | 0, p => ∀ q, ¬ r p q
  | n + 1, p => ∀ q, r p q → Within r n q

theorem Within.mono {n m : Nat} {p : α} (h : Within r n p) (hnm : n ≤ m) : Within r m p := by
  induction n generalizing m p with
  | zero =>
      cases m with
      | zero => exact h
      | succ m => exact fun q hq => absurd hq (h q)
  | succ n ih =>
      obtain ⟨m, rfl⟩ := Nat.exists_eq_add_of_le' hnm
      exact fun q hq => ih (h q hq) (Nat.le_add_left n m)

/-- Where no cycle can be run into, no path is longer than there are nodes that lead anywhere. -/
theorem within_card {nodes : Finset α} {p : α} (hnodes : ∀ q, ReflTransGen r p q → (∃ b, r q b) → q ∈ nodes)
    (h : ¬ RunsIntoCycle r p) : Within r nodes.card p := by
  classical
  generalize hcard : nodes.card = n
  induction n generalizing nodes p with
  | zero =>
      intro q hpq
      rw [Finset.card_eq_zero] at hcard
      simpa [hcard] using hnodes p .refl ⟨q, hpq⟩
  | succ n ih =>
      intro q hpq
      have hp : p ∈ nodes := hnodes p .refl ⟨q, hpq⟩
      have hbehind : ∀ x, ReflTransGen r q x → (∃ b, r x b) → x ∈ nodes.erase p := by
        intro x hqx hx
        refine Finset.mem_erase.2 ⟨?_, hnodes x (hqx.head hpq) hx⟩
        rintro rfl
        exact h ⟨x, .refl, .head' hpq hqx⟩
      refine ih hbehind ?_ (by rw [Finset.card_erase_of_mem hp, hcard]; rfl)
      rintro ⟨x, hqx, hx⟩
      exact h ⟨x, hqx.head hpq, hx⟩

end

/-! ## Descents -/

/-- What a descent finds at a node: its children, or nothing if it fails before them; and whether what is done behind
    the children succeeds. -/
structure Descent (α : Type u) where
  enter : α → Option (List α)
  leave : α → Bool

namespace Descent

open Relation

variable {α : Type u} (d : Descent α)

/-- A node is one of the children of another. -/
def Child (p q : α) : Prop := ∃ l, d.enter p = some l ∧ q ∈ l

/-- The descent from a node ends and succeeds. -/
inductive Sound : α → Prop
  | intro {p : α} {l : List α} (enter : d.enter p = some l) (children : ∀ q ∈ l, Sound q) (leave : d.leave p = true) :
      Sound p

/-- The descent goes from a node down into one of its children. -/
def Enters (p q : α) : Prop := ∃ before after, d.enter p = some (before ++ q :: after) ∧ ∀ s ∈ before, d.Sound s

/-- The descent from a node ends. -/
def Settles (p : α) : Prop := Acc (fun q p => d.Enters p q) p

variable {d} {p q : α} {l : List α}

theorem Enters.child (h : d.Enters p q) : d.Child p q := by
  obtain ⟨before, after, henter, -⟩ := h
  exact ⟨_, henter, by simp⟩

theorem sound_iff_of_enter (h : d.enter p = some l) : d.Sound p ↔ (∀ q ∈ l, d.Sound q) ∧ d.leave p = true := by
  constructor
  · rintro ⟨henter, hchildren, hleave⟩
    rw [h, Option.some.injEq] at henter
    subst henter
    exact ⟨hchildren, hleave⟩
  · rintro ⟨hchildren, hleave⟩
    exact .intro h hchildren hleave

theorem Sound.isSome (h : d.Sound p) : (d.enter p).isSome := by
  obtain ⟨henter, -, -⟩ := h
  simp [henter]

theorem Sound.leaves (h : d.Sound p) : d.leave p = true := by
  obtain ⟨-, -, hleave⟩ := h
  exact hleave

theorem Sound.child (h : d.Sound p) (hpq : d.Child p q) : d.Sound q := by
  obtain ⟨l, henter, hq⟩ := hpq
  exact ((sound_iff_of_enter henter).1 h).1 q hq

theorem Sound.reach (h : d.Sound p) (hpq : ReflTransGen d.Child p q) : d.Sound q := by
  induction hpq with
  | refl => exact h
  | tail _ hstep ih => exact ih.child hstep

theorem Sound.acc (h : d.Sound p) : Acc (fun q p => d.Child p q) p := by
  induction h with
  | intro henter _ _ ih =>
      refine ⟨_, ?_⟩
      rintro q ⟨l, hl, hq⟩
      rw [henter, Option.some.injEq] at hl
      subst hl
      exact ih q hq

theorem Sound.settles (h : d.Sound p) : d.Settles p :=
  Subrelation.accessible (fun {_ _} henters => henters.child) h.acc

theorem settles_of_enter_none (h : d.enter p = none) : d.Settles p := by
  refine ⟨_, ?_⟩
  rintro q ⟨before, after, henter, -⟩
  rw [h] at henter
  cases henter

/-- A descent succeeds exactly if all the nodes below are in order and none of them is below itself. -/
theorem sound_iff (hfinite : {p | (d.enter p).isSome}.Finite) :
    d.Sound p ↔ (∀ q, ReflTransGen d.Child p q → (d.enter q).isSome ∧ d.leave q = true) ∧
      ¬ RunsIntoCycle d.Child p := by
  constructor
  · intro h
    exact ⟨fun q hq => ⟨(h.reach hq).isSome, (h.reach hq).leaves⟩, h.acc.not_runsIntoCycle⟩
  · rintro ⟨horder, hcycle⟩
    have hsources : {p | ∃ q, d.Child p q}.Finite := by
      refine hfinite.subset ?_
      rintro a ⟨q, l, henter, -⟩
      simp [henter]
    have hacc := acc_of_not_runsIntoCycle hsources hcycle
    clear hcycle
    induction hacc with
    | intro p _ ih =>
        obtain ⟨hsome, hleave⟩ := horder p .refl
        obtain ⟨l, hl⟩ := Option.isSome_iff_exists.1 hsome
        refine .intro hl ?_ hleave
        intro q hq
        exact ih q ⟨l, hl, hq⟩ fun s hs => horder s (hs.head ⟨l, hl, hq⟩)

/-- A descent ends exactly if it cannot enter a cycle. -/
theorem settles_iff (hfinite : {p | (d.enter p).isSome}.Finite) : d.Settles p ↔ ¬ RunsIntoCycle d.Enters p := by
  refine acc_iff_not_runsIntoCycle (hfinite.subset ?_)
  rintro a ⟨q, before, after, henter, -⟩
  simp [henter]

/-- A descent that does not end goes on below one of the children, all those before it being sound. -/
theorem exists_enters_of_not_settles (h : ¬ d.Settles p) : ∃ q, d.Enters p q ∧ ¬ d.Settles q := by
  by_contra hnone
  refine h ⟨_, fun q hq => ?_⟩
  by_contra hq'
  exact hnone ⟨q, hq, hq'⟩

end Descent

/-! ## Children one after another -/

namespace Fallible

variable {ε α β : Type} {f : α → Except ε β} {l : List α}

theorem except_mapM_eq_ok {bs : List β} (h : l.mapM f = .ok bs) : List.Forall₂ (fun a b => f a = .ok b) l bs := by
  induction l generalizing bs with
  | nil =>
      cases h
      exact .nil
  | cons a l ih =>
      rw [List.mapM_cons] at h
      obtain ⟨b, hb, h⟩ := except_bind_eq_ok.1 h
      obtain ⟨rest, hrest, h⟩ := except_bind_eq_ok.1 h
      cases h
      exact .cons hb (ih hrest)

/-- A call failed, and all those before it succeeded. -/
theorem except_mapM_eq_error {e : ε} (h : l.mapM f = .error e) :
    ∃ before a after, l = before ++ a :: after ∧ (∀ s ∈ before, ∃ b, f s = .ok b) ∧ f a = .error e := by
  induction l with
  | nil => cases h
  | cons a l ih =>
      rw [List.mapM_cons] at h
      rcases except_bind_eq_error h with ha | ⟨b, hb, h⟩
      · exact ⟨[], a, l, rfl, nofun, ha⟩
      · rcases except_bind_eq_error h with hl | ⟨bs, -, h⟩
        · obtain ⟨before, c, after, rfl, hbefore, hc⟩ := ih hl
          exact ⟨a :: before, c, after, rfl, List.forall_mem_cons.2 ⟨⟨b, hb⟩, hbefore⟩, hc⟩
        · cases h

/-- A call fails, and all those before it succeed or fail like it. -/
theorem except_mapM_error {e : ε} {before after : List α} {a : α}
    (hbefore : ∀ s ∈ before, (∃ b, f s = .ok b) ∨ f s = .error e) (ha : f a = .error e) :
    (before ++ a :: after).mapM f = .error e := by
  induction before with
  | nil =>
      rw [List.nil_append, List.mapM_cons, ha]
      rfl
  | cons s before ih =>
      obtain ⟨hs, hbefore⟩ := List.forall_mem_cons.1 hbefore
      rw [List.cons_append, List.mapM_cons]
      rcases hs with ⟨b, hb⟩ | hs
      · rw [hb, ih hbefore]
        rfl
      · rw [hs]
        rfl

end Fallible

/-! ## Computations that descend -/

namespace Descent

open Relation

variable {α : Type} {β ε : Type} (d : Descent α) (stuck : ε)

/-- `run n p` makes the descent from `p` if no more than `n` calls are nested, and is stuck otherwise. -/
structure Runs (run : Nat → α → Except ε β) : Prop where
  zero : ∀ p, run 0 p = .error stuck ∨ d.enter p = none ∧ ∃ e, run 0 p = .error e
  refused : ∀ n p, d.enter p = none → ∃ e, e ≠ stuck ∧ run (n + 1) p = .error e
  below : ∀ n p l e, d.enter p = some l → l.mapM (run n) = .error e → run (n + 1) p = .error e
  behind : ∀ n p l bs, d.enter p = some l → l.mapM (run n) = .ok bs → d.leave p = false →
    ∃ e, e ≠ stuck ∧ run (n + 1) p = .error e
  left : ∀ n p l bs, d.enter p = some l → l.mapM (run n) = .ok bs → d.leave p = true → ∃ b, run (n + 1) p = .ok b

namespace Runs

variable {d stuck} {run : Nat → α → Except ε β} {n : Nat} {p : α}

theorem sound (h : d.Runs stuck run) {b : β} (hrun : run n p = .ok b) : d.Sound p := by
  induction n generalizing p b with
  | zero =>
      rcases h.zero p with he | ⟨-, e, he⟩
      · cases he.symm.trans hrun
      · cases he.symm.trans hrun
  | succ n ih =>
      cases henter : d.enter p with
      | none =>
          obtain ⟨e, -, he⟩ := h.refused n p henter
          cases he.symm.trans hrun
      | some l =>
          cases hbelow : l.mapM (run n) with
          | error e => cases (h.below n p l e henter hbelow).symm.trans hrun
          | ok bs =>
              cases hleave : d.leave p with
              | false =>
                  obtain ⟨e, -, he⟩ := h.behind n p l bs henter hbelow hleave
                  cases he.symm.trans hrun
              | true =>
                  have hread := Fallible.except_mapM_eq_ok hbelow
                  refine .intro henter (fun q hq => ?_) hleave
                  obtain ⟨i, hi, rfl⟩ := List.mem_iff_getElem.1 hq
                  exact ih (hread.get hi (by rw [← hread.length_eq]; exact hi))

/-- A sound descent is made, unless the calls do not suffice. -/
theorem of_sound (h : d.Runs stuck run) (hp : d.Sound p) (n : Nat) :
    (∃ b, run n p = .ok b) ∨ run n p = .error stuck := by
  induction hp generalizing n with
  | @intro p l henter hchildren hleave ih =>
      cases n with
      | zero =>
          rcases h.zero p with he | ⟨hnone, -⟩
          · exact Or.inr he
          · cases henter.symm.trans hnone
      | succ n =>
          cases hbelow : l.mapM (run n) with
          | ok bs => exact Or.inl (h.left n p l bs henter hbelow hleave)
          | error e =>
              have he := h.below n p l e henter hbelow
              obtain ⟨before, x, after, rfl, -, hx⟩ := Fallible.except_mapM_eq_error hbelow
              rcases ih x (by simp) n with ⟨b, hb⟩ | hstuck
              · cases hb.symm.trans hx
              · cases hstuck.symm.trans hx
                exact Or.inr he

/-- Where a call is not stuck, neither is any that it makes. -/
theorem ne_stuck_of_enters (h : d.Runs stuck run) {q : α} (hrun : run (n + 1) p ≠ .error stuck) (hpq : d.Enters p q) :
    run n q ≠ .error stuck := by
  obtain ⟨before, after, henter, hbefore⟩ := hpq
  intro hq
  -- the children before `q` are sound, so that the call for `q` would be made
  exact hrun (h.below n p _ _ henter (Fallible.except_mapM_error (fun s hs => h.of_sound (hbefore s hs) n) hq))

/-- A call that is not stuck is made where the descent ends. -/
theorem settles (h : d.Runs stuck run) (hrun : run n p ≠ .error stuck) : d.Settles p := by
  induction n generalizing p with
  | zero =>
      rcases h.zero p with he | ⟨hnone, -⟩
      · exact absurd he hrun
      · exact settles_of_enter_none hnone
  | succ n ih => exact ⟨_, fun q hpq => ih (h.ne_stuck_of_enters hrun hpq)⟩

/-- Where the paths of the descent end soon enough, no call is stuck. -/
theorem ne_stuck_of_within (h : d.Runs stuck run) (hp : Within d.Enters n p) : run (n + 1) p ≠ .error stuck := by
  induction n generalizing p with
  | zero =>
      intro hstuck
      cases henter : d.enter p with
      | none =>
          obtain ⟨e, hne, he⟩ := h.refused 0 p henter
          cases he.symm.trans hstuck
          exact hne rfl
      | some l =>
          cases l with
          | cons q l => exact hp q ⟨[], l, henter, nofun⟩
          | nil =>
              cases hleave : d.leave p with
              | false =>
                  obtain ⟨e, hne, he⟩ := h.behind 0 p [] [] henter rfl hleave
                  cases he.symm.trans hstuck
                  exact hne rfl
              | true =>
                  obtain ⟨b, hb⟩ := h.left 0 p [] [] henter rfl hleave
                  cases hb.symm.trans hstuck
  | succ n ih =>
      intro hstuck
      cases henter : d.enter p with
      | none =>
          obtain ⟨e, hne, he⟩ := h.refused (n + 1) p henter
          cases he.symm.trans hstuck
          exact hne rfl
      | some l =>
          cases hbelow : l.mapM (run (n + 1)) with
          | error e =>
              cases (h.below (n + 1) p l e henter hbelow).symm.trans hstuck
              obtain ⟨before, q, after, rfl, hbefore, hq⟩ := Fallible.except_mapM_eq_error hbelow
              refine ih (hp q ⟨before, after, henter, fun s hs => ?_⟩) hq
              obtain ⟨b, hb⟩ := hbefore s hs
              exact h.sound hb
          | ok bs =>
              cases hleave : d.leave p with
              | false =>
                  obtain ⟨e, hne, he⟩ := h.behind (n + 1) p l bs henter hbelow hleave
                  cases he.symm.trans hstuck
                  exact hne rfl
              | true =>
                  obtain ⟨b, hb⟩ := h.left (n + 1) p l bs henter hbelow hleave
                  cases hb.symm.trans hstuck

/-- Where the descent ends, no call is stuck if enough calls can be nested. -/
theorem returns (h : d.Runs stuck run) (hfinite : {p | (d.enter p).isSome}.Finite) (hp : d.Settles p) :
    ∃ enough, ∀ n ≥ enough, run n p ≠ .error stuck := by
  have hwithin : Within d.Enters hfinite.toFinset.card p := by
    refine within_card ?_ ((settles_iff hfinite).1 hp)
    rintro q - ⟨b, before, after, henter, -⟩
    simp [henter]
  refine ⟨hfinite.toFinset.card + 1, fun n hn => ?_⟩
  obtain ⟨k, rfl⟩ := Nat.exists_eq_add_of_le' hn
  exact h.ne_stuck_of_within (hwithin.mono (Nat.le_add_left _ k))

end Runs

/-! ## How many nodes a descent visits -/

section

open Classical

/-- The children that a descent goes down into, up to the first that is not sound. -/
noncomputable def entered (p : α) : List α :=
  match d.enter p with
  | none => []
  | some l => l.take ((l.takeWhile fun q => d.Sound q).length + 1)

/-- The nodes visited, each as often as it is, where `n` calls can be nested. -/
noncomputable def visits : Nat → α → Nat
  | 0, _ => 0
  | n + 1, p => 1 + ((d.entered p).map (visits n)).sum

variable {d} {p : α}

theorem enters_of_mem_entered {q : α} (h : q ∈ d.entered p) : d.Enters p q := by
  unfold entered at h
  cases henter : d.enter p with
  | none => simp [henter] at h
  | some l =>
      rw [henter] at h
      obtain ⟨i, hi, rfl⟩ := List.mem_take_iff_getElem.1 h
      have hlength : i < l.length := by omega
      refine ⟨l.take i, l.drop (i + 1), ?_, fun s hs => ?_⟩
      · rw [henter, List.getElem_cons_drop, List.take_append_drop]
      · have hinitial : l.take i <+: l.takeWhile fun q => d.Sound q := by
          rw [List.prefix_iff_eq_take.1 (List.takeWhile_prefix (l := l) fun q => decide (d.Sound q))]
          exact List.take_prefix_take_left (by omega)
        simpa using List.mem_takeWhile_imp (hinitial.subset hs)

theorem length_entered_le {w : Nat} (hw : ∀ l, d.enter p = some l → l.length ≤ w) : (d.entered p).length ≤ w := by
  unfold entered
  cases henter : d.enter p with
  | none => simp
  | some l => exact (List.length_take_le' _ _).trans (hw l henter)

/-- Where paths have at most `k` steps and nodes at most `w` children, so many nodes are visited at most. -/
theorem visits_le {w k : Nat} (hw : ∀ q l, d.enter q = some l → l.length ≤ w) (h : Within d.Enters k p) (n : Nat) :
    d.visits n p ≤ (w + 1) ^ (k + 1) := by
  induction n generalizing p k with
  | zero => exact Nat.zero_le _
  | succ n ih =>
      rw [visits]
      cases k with
      | zero =>
          have hnone : d.entered p = [] := by
            rw [List.eq_nil_iff_forall_not_mem]
            exact fun q hq => h q (enters_of_mem_entered hq)
          simp [hnone]
      | succ k =>
          have hsum : ((d.entered p).map (d.visits n)).sum ≤ (d.entered p).length * (w + 1) ^ (k + 1) := by
            have hall : ∀ v ∈ (d.entered p).map (d.visits n), v ≤ (w + 1) ^ (k + 1) := by
              intro v hv
              obtain ⟨q, hq, rfl⟩ := List.mem_map.1 hv
              exact ih (h q (enters_of_mem_entered hq))
            simpa using List.sum_le_card_nsmul _ _ hall
          have hlength := Nat.mul_le_mul_right ((w + 1) ^ (k + 1)) (length_entered_le (hw p))
          have hpos : 0 < (w + 1) ^ (k + 1) := pow_pos (Nat.succ_pos w) _
          calc 1 + ((d.entered p).map (d.visits n)).sum ≤ (w + 1) ^ (k + 1) + w * (w + 1) ^ (k + 1) := by omega
            _ = (w + 1) ^ (k + 1 + 1) := by ring

end

/-! ## How many calls are made -/

theorem takeWhile_eq_of_first {P R : α → Bool} {l : List α}
    (h : ∀ before q after, l = before ++ q :: after → (∀ s ∈ before, R s = true) → P q = R q) :
    l.takeWhile P = l.takeWhile R := by
  induction l with
  | nil => rfl
  | cons q l ih =>
      rw [List.takeWhile_cons, List.takeWhile_cons, h [] q l rfl nofun]
      split
      · next hq =>
          rw [ih fun before x after hl hbefore =>
            h (q :: before) x after (by rw [hl]; rfl) (List.forall_mem_cons.2 ⟨hq, hbefore⟩)]
      · rfl

/-- The children for which `run` is called, up to the first call that fails. -/
def called (run : Nat → α → Except ε β) (n : Nat) (p : α) : List α :=
  match d.enter p with
  | none => []
  | some l => l.take ((l.takeWhile fun q => (run n q).isOk).length + 1)

/-- The calls that are made for a node, itself included. -/
def calls (run : Nat → α → Except ε β) : Nat → α → Nat
  | 0, _ => 0
  | n + 1, p => 1 + ((d.called run n p).map (calls run n)).sum

namespace Runs

variable {d stuck} {run : Nat → α → Except ε β} {n : Nat} {p : α}

open Classical in
theorem called_eq (h : d.Runs stuck run) (hrun : run (n + 1) p ≠ .error stuck) : d.called run n p = d.entered p := by
  unfold called entered
  cases henter : d.enter p with
  | none => rfl
  | some l =>
      have hsame : l.takeWhile (fun q => (run n q).isOk) = l.takeWhile fun q => d.Sound q := by
        refine takeWhile_eq_of_first fun before q after hl hbefore => ?_
        have hpq : d.Enters p q := ⟨before, after, by rw [henter, hl], fun s hs => of_decide_eq_true (hbefore s hs)⟩
        cases hq : run n q with
        | ok b => exact (decide_eq_true (h.sound hq)).symm
        | error e =>
            refine (decide_eq_false fun hsound => ?_).symm
            rcases h.of_sound hsound n with ⟨b, hb⟩ | hstuck
            · cases hq.symm.trans hb
            · exact h.ne_stuck_of_enters hrun hpq hstuck
      simp only [hsame]

/-- As many calls are made as nodes are visited. -/
theorem calls_eq_visits (h : d.Runs stuck run) (hrun : run n p ≠ .error stuck) : d.calls run n p = d.visits n p := by
  induction n generalizing p with
  | zero => rfl
  | succ n ih =>
      have hbelow := fun q (hq : q ∈ d.entered p) => ih (h.ne_stuck_of_enters hrun (enters_of_mem_entered hq))
      rw [calls, visits, h.called_eq hrun, List.map_congr_left hbelow]

end Runs

end Descent
