import Mathlib.Algebra.GroupWithZero.Nat
import Mathlib.Tactic.Common
import Mathlib.Data.List.Basic
import Mathlib.Data.Nat.Find
import Mathlib.Order.Basic

set_option autoImplicit false

/-! # Open addressing with linear probing and tombstones

A table is a list of slots. The walks `lookup` and `insertAt` go round the table from the home of a
key and stop at the first slot that is empty or holds the key; an insertion remembers the first
tombstone on its way. `Sound` is the invariant that makes them right: the keys are distinct, some slot
is empty, and no empty slot lies between the home of a key and the slot that holds it. Storing into
the slot an insertion found and burying a slot both keep it, so a sound table behaves as the set of
its entries. -/

namespace OpenAddressing

/-- A slot of the table. -/
inductive Slot (α : Type) where
  | empty
  | tombstone
  | occupied (a : α)
deriving DecidableEq, Repr

variable {α κ : Type}

/-- The entry a slot holds. -/
def Slot.entry? : Slot α → Option α
  | occupied a => some a
  | _ => none

/-- The slot is not empty. -/
def Slot.used : Slot α → Bool
  | empty => false
  | _ => true

/-- A walk for an entry that is `same` ends here. -/
def Slot.stops (same : α → Bool) : Slot α → Bool
  | empty => true
  | tombstone => false
  | occupied a => same a

/-- The walk of a lookup: the index of the first slot that ends it. The next index is taken with a
    mask, which for a table of `2 ^ k` slots is the remainder. -/
def lookup (t : List (Slot α)) (mask : Nat) (same : α → Bool) : Nat → Nat → Option Nat
  | 0, _ => none
  | fuel + 1, i =>
    match t[i]? with
    | none => none
    | some s => if s.stops same then some i else lookup t mask same fuel ((i + 1) &&& mask)

/-- Where an insertion ends: at an entry that is there already, or at a slot to store into. -/
inductive Place where
  | found (i : Nat)
  | free (i : Nat)
deriving DecidableEq, Repr

/-- The first tombstone met, once the walk has passed the slot `s` at index `i`. -/
def Slot.remember (tomb : Option Nat) (i : Nat) : Slot α → Option Nat
  | tombstone => some (tomb.getD i)
  | _ => tomb

/-- The walk of an insertion; `tomb` is the first tombstone met so far. -/
def insertAt (t : List (Slot α)) (mask : Nat) (same : α → Bool) :
    Nat → Nat → Option Nat → Option Place
  | 0, _, _ => none
  | fuel + 1, i, tomb =>
    match t[i]? with
    | none => none
    | some .empty => some (.free (tomb.getD i))
    | some .tombstone => insertAt t mask same fuel ((i + 1) &&& mask) (some (tomb.getD i))
    | some (.occupied a) =>
      if same a then some (.found i) else insertAt t mask same fuel ((i + 1) &&& mask) tomb

/-- The entries of a table. -/
def entries (t : List (Slot α)) : List α := t.filterMap Slot.entry?

theorem mem_entries {t : List (Slot α)} {a : α} : a ∈ entries t ↔ .occupied a ∈ t := by
  rw [entries, List.mem_filterMap]
  constructor
  · rintro ⟨s, hs, hentry⟩
    cases s with
    | empty => cases hentry
    | tombstone => cases hentry
    | occupied b =>
        cases hentry
        exact hs
  · intro h
    exact ⟨.occupied a, h, rfl⟩

/-! ## Walks -/

/-- The mask takes the remainder by the size `n` of the table. -/
def Masks (mask n : Nat) : Prop := ∀ i, i &&& mask = i % n

theorem masks_two_pow (k : Nat) : Masks (2 ^ k - 1) (2 ^ k) := fun i =>
  Nat.and_two_pow_sub_one_eq_mod i k

/-- The slot `d` steps from the home `h`. -/
def slotAt (t : List (Slot α)) (h d : Nat) : Option (Slot α) := t[(h + d) % t.length]?

theorem step_mod (h d n : Nat) : ((h + d) % n + 1) % n = (h + (d + 1)) % n := by
  rw [Nat.mod_add_mod, Nat.add_assoc]

theorem exists_slotAt {t : List (Slot α)} (ht : t ≠ []) (h d : Nat) : ∃ s, slotAt t h d = some s := by
  have hlen : 0 < t.length := List.length_pos_iff.2 ht
  exact ⟨_, List.getElem?_eq_getElem (Nat.mod_lt _ hlen)⟩

/-- Every index is met on the first round from any home. -/
theorem exists_step {n : Nat} (h : Nat) {i : Nat} (hi : i < n) : ∃ d, d < n ∧ (h + d) % n = i := by
  have hn : 0 < n := by omega
  have hh : h % n < n := Nat.mod_lt h hn
  have hsplit := Nat.mod_add_div h n
  by_cases hle : h % n ≤ i
  · refine ⟨i - h % n, by omega, ?_⟩
    have heq : h + (i - h % n) = i + n * (h / n) := by omega
    rw [heq, Nat.add_mul_mod_self_left, Nat.mod_eq_of_lt hi]
  · refine ⟨i + n - h % n, by omega, ?_⟩
    have heq : h + (i + n - h % n) = i + n * (h / n + 1) := by
      rw [Nat.mul_add]
      omega
    rw [heq, Nat.add_mul_mod_self_left, Nat.mod_eq_of_lt hi]

/-- A walk from `d` steps on passes the slots that do not stop it and ends at the first that does. -/
theorem lookup_run {t : List (Slot α)} {mask : Nat} (hmask : Masks mask t.length)
    {same : α → Bool} {h : Nat} (r : Nat) (d fuel : Nat)
    (hskip : ∀ x, d ≤ x → x < d + r → ∃ s, slotAt t h x = some s ∧ s.stops same = false)
    (hstop : ∃ s, slotAt t h (d + r) = some s ∧ s.stops same = true) (hfuel : r < fuel) :
    lookup t mask same fuel ((h + d) % t.length) = some ((h + (d + r)) % t.length) := by
  induction r generalizing d fuel with
  | zero =>
      obtain ⟨fuel, rfl⟩ : ∃ k, fuel = k + 1 := ⟨fuel - 1, by omega⟩
      obtain ⟨s, hs, hstops⟩ := hstop
      rw [Nat.add_zero, slotAt] at hs
      rw [lookup, hs]
      simp [hstops]
  | succ r ih =>
      obtain ⟨fuel, rfl⟩ : ∃ k, fuel = k + 1 := ⟨fuel - 1, by omega⟩
      obtain ⟨s, hs, hgoes⟩ := hskip d le_rfl (by omega)
      rw [slotAt] at hs
      have hnext := ih (d + 1) fuel (fun x hx hx' => hskip x (by omega) (by omega))
        (by rwa [show d + 1 + r = d + (r + 1) by omega]) (by omega)
      rw [lookup, hs]
      simp only [hgoes, Bool.false_eq_true, if_false]
      rw [hmask, step_mod, hnext, show d + 1 + r = d + (r + 1) by omega]

/-- The same walk for an insertion: it ends at the entry if that stops it, and otherwise at the first
    tombstone it remembers or meets, or else at the empty slot that stops it. -/
theorem insertAt_run {t : List (Slot α)} {mask : Nat} (hmask : Masks mask t.length)
    {same : α → Bool} {h : Nat} (r : Nat) (d fuel : Nat) (tomb : Option Nat)
    (hskip : ∀ x, d ≤ x → x < d + r → ∃ s, slotAt t h x = some s ∧ s.stops same = false)
    (hfuel : r < fuel) :
    (∀ a, slotAt t h (d + r) = some (.occupied a) → same a = true →
      insertAt t mask same fuel ((h + d) % t.length) tomb = some (.found ((h + (d + r)) % t.length))) ∧
    (slotAt t h (d + r) = some .empty →
      ∃ i, insertAt t mask same fuel ((h + d) % t.length) tomb = some (.free i) ∧
        (tomb = some i ∨ tomb = none ∧ ∃ x, d ≤ x ∧ x ≤ d + r ∧ i = (h + x) % t.length ∧
          (slotAt t h x = some .tombstone ∨ slotAt t h x = some .empty))) := by
  induction r generalizing d fuel tomb with
  | zero =>
      obtain ⟨fuel, rfl⟩ : ∃ k, fuel = k + 1 := ⟨fuel - 1, by omega⟩
      rw [Nat.add_zero]
      constructor
      · intro a ha hsame
        rw [slotAt] at ha
        simp [insertAt, ha, hsame]
      · intro hempty
        have hslot := hempty
        rw [slotAt] at hslot
        refine ⟨tomb.getD ((h + d) % t.length), by simp [insertAt, hslot], ?_⟩
        rcases tomb with _ | i
        · exact .inr ⟨rfl, d, le_rfl, le_rfl, rfl, .inr hempty⟩
        · exact .inl rfl
  | succ r ih =>
      obtain ⟨fuel, rfl⟩ : ∃ k, fuel = k + 1 := ⟨fuel - 1, by omega⟩
      obtain ⟨s, hs, hgoes⟩ := hskip d le_rfl (by omega)
      have hslot := hs
      rw [slotAt] at hslot
      have hnext := fun tomb => ih (d + 1) fuel tomb (fun x hx hx' => hskip x (by omega) (by omega))
        (by omega)
      rw [show d + 1 + r = d + (r + 1) by omega] at hnext
      -- what one step does to the remembered tombstone
      have hstep : insertAt t mask same (fuel + 1) ((h + d) % t.length) tomb
          = insertAt t mask same fuel ((h + (d + 1)) % t.length)
              (s.remember tomb ((h + d) % t.length)) := by
        rw [insertAt, hslot]
        cases s with
        | empty => cases hgoes
        | tombstone =>
            simp only [hmask _, step_mod]
            rfl
        | occupied a =>
            simp only [Slot.stops] at hgoes
            simp only [hgoes, Bool.false_eq_true, if_false, hmask _, step_mod]
            rfl
      rw [hstep]
      refine ⟨(hnext _).1, fun hempty => ?_⟩
      obtain ⟨i, hi, hwhere⟩ := (hnext _).2 hempty
      refine ⟨i, hi, ?_⟩
      cases s with
      | empty => cases hgoes
      | occupied a =>
          rcases hwhere with htomb | ⟨htomb, x, hx, hx', hix, hslotx⟩
          · exact .inl htomb
          · exact .inr ⟨htomb, x, by omega, hx', hix, hslotx⟩
      | tombstone =>
          rcases hwhere with htomb | ⟨htomb, -⟩
          · cases htomb
            rcases tomb with _ | j
            · exact .inr ⟨rfl, d, le_rfl, by omega, rfl, .inl hs⟩
            · exact .inl rfl
          · cases htomb

/-! ## Sound tables -/

section Sound

variable (key : α → κ) (home : κ → Nat)

/-- The invariant of a table whose entries live under the key `key a`, looked for from `home`. -/
structure Sound (t : List (Slot α)) : Prop where
  distinct : ∀ (i j : Nat) (a b : α), t[i]? = some (.occupied a) → t[j]? = some (.occupied b) →
    key a = key b → i = j
  reach : ∀ (i : Nat) (a : α), t[i]? = some (.occupied a) → ∃ d, i = (home (key a) + d) % t.length ∧
    ∀ x < d, slotAt t (home (key a)) x ≠ some .empty
  room : .empty ∈ t

variable {key home} {t : List (Slot α)}

theorem Sound.ne_nil (ht : Sound key home t) : t ≠ [] := List.ne_nil_of_mem ht.room

theorem sound_replicate {n : Nat} (hn : 0 < n) :
    Sound key home (List.replicate n (Slot.empty : Slot α)) := by
  have hnone : ∀ (i : Nat) (a : α), (List.replicate n (Slot.empty : Slot α))[i]? ≠ some (.occupied a) := by
    intro i a h
    have hmem := List.mem_of_getElem? h
    simp at hmem
  refine ⟨fun i j a b hi => absurd hi (hnone i a), fun i a hi => absurd hi (hnone i a), ?_⟩
  simp only [List.mem_replicate, and_true]
  omega

/-- Two entries of a sound table with one key are one entry. -/
theorem Sound.eq_of_key (ht : Sound key home t) {a b : α} (ha : .occupied a ∈ t)
    (hb : .occupied b ∈ t) (hkey : key a = key b) : a = b := by
  obtain ⟨i, hi⟩ := List.mem_iff_getElem?.1 ha
  obtain ⟨j, hj⟩ := List.mem_iff_getElem?.1 hb
  have hij := ht.distinct i j a b hi hj hkey
  rw [hij, hj] at hi
  cases hi
  rfl

/-- The first slot on the walk of a key that ends it: it holds the key, or it is empty and then no slot
    of the table holds the key. -/
theorem Sound.exists_stop (ht : Sound key home t) {same : α → Bool} {k : κ}
    (hsame : ∀ a, .occupied a ∈ t → (same a = true ↔ key a = k)) :
    ∃ d, d < t.length ∧
      (∀ x < d, ∃ s, slotAt t (home k) x = some s ∧ s.stops same = false) ∧
      ((∃ a, slotAt t (home k) d = some (.occupied a) ∧ same a = true ∧ key a = k) ∨
        (slotAt t (home k) d = some .empty ∧ ∀ a, .occupied a ∈ t → key a ≠ k)) := by
  classical
  let Ends : Nat → Prop := fun d => ∃ s, slotAt t (home k) d = some s ∧ s.stops same = true
  obtain ⟨e, he⟩ := List.mem_iff_getElem?.1 ht.room
  have helt : e < t.length := (List.getElem?_eq_some_iff.1 he).1
  obtain ⟨d₀, hd₀, hstep⟩ := exists_step (home k) helt
  have hends : ∃ d, Ends d := ⟨d₀, .empty, by rw [slotAt, hstep, he], rfl⟩
  have hmin : ∀ x < Nat.find hends, ∃ s, slotAt t (home k) x = some s ∧ s.stops same = false := by
    intro x hx
    obtain ⟨s, hs⟩ := exists_slotAt ht.ne_nil (home k) x
    refine ⟨s, hs, ?_⟩
    by_contra hcon
    exact Nat.find_min hends hx ⟨s, hs, by simpa using hcon⟩
  have hle : Nat.find hends ≤ d₀ := Nat.find_min' hends ⟨.empty, by rw [slotAt, hstep, he], rfl⟩
  refine ⟨Nat.find hends, by omega, hmin, ?_⟩
  obtain ⟨s, hs, hstops⟩ := Nat.find_spec hends
  cases s with
  | tombstone => cases hstops
  | occupied a =>
      have hmem : .occupied a ∈ t := List.mem_of_getElem? hs
      exact .inl ⟨a, hs, hstops, (hsame a hmem).1 hstops⟩
  | empty =>
      refine .inr ⟨hs, fun a ha hkey => ?_⟩
      obtain ⟨i, hi⟩ := List.mem_iff_getElem?.1 ha
      obtain ⟨d, hid, hpath⟩ := ht.reach i a hi
      rw [hkey] at hid hpath
      -- the entry lies on the walk, so the walk has ended there or before
      have hslot : slotAt t (home k) d = some (.occupied a) := by rw [slotAt, ← hid, hi]
      rcases Nat.lt_trichotomy (Nat.find hends) d with hlt | heq | hgt
      · exact hpath _ hlt hs
      · rw [heq, hslot] at hs
        cases hs
      · obtain ⟨s, hs', hgoes⟩ := hmin d hgt
        rw [hslot] at hs'
        cases hs'
        rw [Slot.stops, (hsame a ha).2 hkey] at hgoes
        cases hgoes

/-- **A lookup finds the key, or an empty slot if the table does not hold it.** -/
theorem Sound.lookup_spec (ht : Sound key home t) {mask : Nat} (hmask : Masks mask t.length)
    {same : α → Bool} {k : κ} (hsame : ∀ a, .occupied a ∈ t → (same a = true ↔ key a = k)) :
    ∃ i, lookup t mask same t.length (home k &&& mask) = some i ∧
      ((∃ a, t[i]? = some (.occupied a) ∧ key a = k) ∨
        (t[i]? = some .empty ∧ ∀ a, .occupied a ∈ t → key a ≠ k)) := by
  obtain ⟨d, hd, hskip, hend⟩ := ht.exists_stop hsame
  have hrun := lookup_run hmask (h := home k) d 0 t.length (fun x _ hx => hskip x (by omega))
    (by
      rw [Nat.zero_add]
      rcases hend with ⟨a, hslot, hsame, -⟩ | ⟨hslot, -⟩
      · exact ⟨_, hslot, hsame⟩
      · exact ⟨_, hslot, rfl⟩) hd
  rw [Nat.zero_add, Nat.add_zero, ← hmask] at hrun
  refine ⟨_, hrun, ?_⟩
  rcases hend with ⟨a, hslot, -, hkey⟩ | ⟨hslot, habsent⟩
  · exact .inl ⟨a, hslot, hkey⟩
  · exact .inr ⟨hslot, habsent⟩

/-- **An insertion finds the key, or a slot to store it into**: one that holds no entry and to which no
    empty slot bars the way. -/
theorem Sound.insertAt_spec (ht : Sound key home t) {mask : Nat} (hmask : Masks mask t.length)
    {same : α → Bool} {k : κ} (hsame : ∀ a, .occupied a ∈ t → (same a = true ↔ key a = k)) :
    (∃ i a, insertAt t mask same t.length (home k &&& mask) none = some (.found i) ∧
      t[i]? = some (.occupied a) ∧ key a = k) ∨
    (∃ i d, insertAt t mask same t.length (home k &&& mask) none = some (.free i) ∧
      (t[i]? = some .tombstone ∨ t[i]? = some .empty) ∧ (∀ a, .occupied a ∈ t → key a ≠ k) ∧
      i = (home k + d) % t.length ∧ ∀ x < d, slotAt t (home k) x ≠ some .empty) := by
  obtain ⟨d, hd, hskip, hend⟩ := ht.exists_stop hsame
  have hrun := insertAt_run hmask (h := home k) d 0 t.length none
    (fun x _ hx => hskip x (by omega)) hd
  rw [Nat.zero_add, Nat.add_zero, ← hmask] at hrun
  rcases hend with ⟨a, hslot, hmatch, hkey⟩ | ⟨hslot, habsent⟩
  · exact .inl ⟨_, a, hrun.1 a hslot hmatch, hslot, hkey⟩
  · obtain ⟨i, hi, hwhere⟩ := hrun.2 hslot
    rcases hwhere with hnone | ⟨-, x, -, hx, hix, hslotx⟩
    · cases hnone
    · refine .inr ⟨i, x, hi, by rwa [hix], habsent, hix, fun y hy hempty => ?_⟩
      obtain ⟨s, hs, hgoes⟩ := hskip y (by omega)
      rw [hempty] at hs
      cases hs
      cases hgoes

/-! ## Storing and burying -/

theorem occupied_mem_set {i : Nat} (hi : t[i]? = some .tombstone ∨ t[i]? = some .empty) {a b : α} :
    .occupied b ∈ t.set i (.occupied a) ↔ b = a ∨ .occupied b ∈ t := by
  have hlt : i < t.length := by
    rcases hi with hi | hi <;> exact (List.getElem?_eq_some_iff.1 hi).1
  constructor
  · intro h
    rcases List.mem_or_eq_of_mem_set h with h | h
    · exact .inr h
    · cases h
      exact .inl rfl
  · rintro (rfl | h)
    · exact List.mem_set hlt _
    · obtain ⟨j, hj⟩ := List.mem_iff_getElem?.1 h
      refine List.mem_iff_getElem?.2 ⟨j, ?_⟩
      have hne : i ≠ j := by
        rintro rfl
        rw [hj] at hi
        rcases hi with hi | hi <;> cases hi
      rwa [List.getElem?_set_ne hne]

theorem slotAt_set_ne_empty {i : Nat} {s : Slot α} (hs : s ≠ .empty) {h d : Nat}
    (hne : slotAt t h d ≠ some .empty) : slotAt (t.set i s) h d ≠ some .empty := by
  rw [slotAt, List.length_set, List.getElem?_set]
  split
  · split
    · simpa using hs
    · simp
  · exact hne

/-- Storing a new key into the slot an insertion found keeps the table sound. -/
theorem Sound.store (ht : Sound key home t) {i d : Nat} {a : α}
    (hi : t[i]? = some .tombstone ∨ t[i]? = some .empty)
    (habsent : ∀ b, .occupied b ∈ t → key b ≠ key a) (hd : i = (home (key a) + d) % t.length)
    (hpath : ∀ x < d, slotAt t (home (key a)) x ≠ some .empty)
    (hroom : .empty ∈ t.set i (.occupied a)) : Sound key home (t.set i (.occupied a)) := by
  have hlt : i < t.length := by
    rcases hi with hi | hi <;> exact (List.getElem?_eq_some_iff.1 hi).1
  have hget : ∀ (j : Nat) (b : α), (t.set i (.occupied a))[j]? = some (.occupied b) →
      j = i ∧ b = a ∨ t[j]? = some (.occupied b) := by
    intro j b hj
    by_cases hij : i = j
    · subst hij
      rw [List.getElem?_set_self hlt] at hj
      cases hj
      exact .inl ⟨rfl, rfl⟩
    · rw [List.getElem?_set_ne hij] at hj
      exact .inr hj
  refine ⟨fun j l b c hj hl hkey => ?_, fun j b hj => ?_, hroom⟩
  · rcases hget j b hj with ⟨hji, hba⟩ | hj'
    · rcases hget l c hl with ⟨hli, -⟩ | hl'
      · rw [hji, hli]
      · rw [hba] at hkey
        exact absurd hkey.symm (habsent c (List.mem_of_getElem? hl'))
    · rcases hget l c hl with ⟨-, hca⟩ | hl'
      · rw [hca] at hkey
        exact absurd hkey (habsent b (List.mem_of_getElem? hj'))
      · exact ht.distinct j l b c hj' hl' hkey
  · rw [List.length_set]
    rcases hget j b hj with ⟨rfl, rfl⟩ | hj'
    · exact ⟨d, hd, fun x hx => slotAt_set_ne_empty (by simp) (hpath x hx)⟩
    · obtain ⟨d', hd', hpath'⟩ := ht.reach j b hj'
      exact ⟨d', hd', fun x hx => slotAt_set_ne_empty (by simp) (hpath' x hx)⟩

/-- Burying an entry keeps the table sound and removes exactly its key. -/
theorem Sound.bury (ht : Sound key home t) {i : Nat} {a : α} (hi : t[i]? = some (.occupied a)) :
    Sound key home (t.set i .tombstone) ∧
      ∀ b, .occupied b ∈ t.set i .tombstone ↔ .occupied b ∈ t ∧ key b ≠ key a := by
  have hlt : i < t.length := (List.getElem?_eq_some_iff.1 hi).1
  have hget : ∀ (j : Nat) (b : α), (t.set i .tombstone)[j]? = some (.occupied b) →
      i ≠ j ∧ t[j]? = some (.occupied b) := by
    intro j b hj
    by_cases hij : i = j
    · subst hij
      rw [List.getElem?_set_self hlt] at hj
      cases hj
    · rw [List.getElem?_set_ne hij] at hj
      exact ⟨hij, hj⟩
  constructor
  · refine ⟨fun j l b c hj hl => ht.distinct j l b c (hget j b hj).2 (hget l c hl).2,
      fun j b hj => ?_, ?_⟩
    · rw [List.length_set]
      obtain ⟨d, hd, hpath⟩ := ht.reach j b (hget j b hj).2
      exact ⟨d, hd, fun x hx => slotAt_set_ne_empty (by simp) (hpath x hx)⟩
    · obtain ⟨e, he⟩ := List.mem_iff_getElem?.1 ht.room
      refine List.mem_iff_getElem?.2 ⟨e, ?_⟩
      have hne : i ≠ e := by
        rintro rfl
        rw [hi] at he
        cases he
      rwa [List.getElem?_set_ne hne]
  · intro b
    constructor
    · intro hb
      obtain ⟨j, hj⟩ := List.mem_iff_getElem?.1 hb
      obtain ⟨hne, hj⟩ := hget j b hj
      exact ⟨List.mem_of_getElem? hj, fun hkey => hne (ht.distinct i j a b hi hj hkey.symm)⟩
    · rintro ⟨hb, hkey⟩
      obtain ⟨j, hj⟩ := List.mem_iff_getElem?.1 hb
      refine List.mem_iff_getElem?.2 ⟨j, ?_⟩
      have hne : i ≠ j := by
        rintro rfl
        rw [hi] at hj
        cases hj
        exact hkey rfl
      rwa [List.getElem?_set_ne hne]

end Sound

/-! ## Counting -/

/-- The number of slots that are not empty. -/
def usedCount (t : List (Slot α)) : Nat := t.countP Slot.used

/-- The number of entries. -/
def liveCount (t : List (Slot α)) : Nat := t.countP fun s => s.entry?.isSome

theorem liveCount_le_usedCount (t : List (Slot α)) : liveCount t ≤ usedCount t := by
  refine List.countP_mono_left fun s _ h => ?_
  cases s <;> first | rfl | exact h

theorem empty_mem_of_usedCount_lt {t : List (Slot α)} (h : usedCount t < t.length) : .empty ∈ t := by
  by_contra hnone
  have hall : t.countP Slot.used = t.length := by
    rw [List.countP_eq_length]
    intro s hs
    cases s with
    | empty => exact absurd hs hnone
    | tombstone => rfl
    | occupied a => rfl
  rw [usedCount, hall] at h
  exact Nat.lt_irrefl _ h

theorem usedCount_set {t : List (Slot α)} {i : Nat} {s : Slot α} (s' : Slot α)
    (hi : t[i]? = some s) :
    usedCount (t.set i s') + s.used.toNat = usedCount t + s'.used.toNat := by
  obtain ⟨hlt, hget⟩ := List.getElem?_eq_some_iff.1 hi
  have hpos : s.used = true → 0 < t.countP Slot.used := fun hs =>
    List.countP_pos_iff.2 ⟨s, List.mem_of_getElem? hi, hs⟩
  rw [usedCount, usedCount, List.countP_set hlt, hget]
  cases hs : s.used <;> cases s'.used <;> simp_all

theorem liveCount_set {t : List (Slot α)} {i : Nat} {s : Slot α} (s' : Slot α)
    (hi : t[i]? = some s) :
    liveCount (t.set i s') + s.entry?.isSome.toNat = liveCount t + s'.entry?.isSome.toNat := by
  obtain ⟨hlt, hget⟩ := List.getElem?_eq_some_iff.1 hi
  have hpos : s.entry?.isSome = true → 0 < t.countP fun s => s.entry?.isSome := fun hs =>
    List.countP_pos_iff.2 ⟨s, List.mem_of_getElem? hi, hs⟩
  rw [liveCount, liveCount, List.countP_set hlt, hget]
  cases hs : s.entry?.isSome <;> cases s'.entry?.isSome <;> simp_all

/-- **Storing an absent key with room to spare.** The insertion finds a free slot; storing there keeps
    the table sound and adds exactly the new entry. -/
theorem Sound.insert_absent {key : α → κ} {home : κ → Nat} {t : List (Slot α)}
    (ht : Sound key home t) {mask : Nat} (hmask : Masks mask t.length) {same : α → Bool} {a : α}
    (hsame : ∀ b, .occupied b ∈ t → (same b = true ↔ key b = key a))
    (habsent : ∀ b, .occupied b ∈ t → key b ≠ key a) (hroom : usedCount t + 1 < t.length) :
    ∃ i s, insertAt t mask same t.length (home (key a) &&& mask) none = some (.free i) ∧
      t[i]? = some s ∧ (s = .tombstone ∨ s = .empty) ∧
      Sound key home (t.set i (.occupied a)) ∧
      (∀ b, .occupied b ∈ t.set i (.occupied a) ↔ b = a ∨ .occupied b ∈ t) ∧
      usedCount (t.set i (.occupied a)) + s.used.toNat = usedCount t + 1 ∧
      liveCount (t.set i (.occupied a)) = liveCount t + 1 := by
  rcases ht.insertAt_spec hmask hsame with ⟨i, b, -, hi, hkey⟩ | ⟨i, d, hrun, hi, -, hd, hpath⟩
  · exact absurd hkey (habsent b (List.mem_of_getElem? hi))
  · obtain ⟨s, hs, hkind⟩ : ∃ s, t[i]? = some s ∧ (s = .tombstone ∨ s = .empty) := by
      rcases hi with hi | hi
      · exact ⟨_, hi, .inl rfl⟩
      · exact ⟨_, hi, .inr rfl⟩
    have hused := usedCount_set (.occupied a) hs
    have hlive := liveCount_set (.occupied a) hs
    have hnone : s.entry?.isSome = false := by
      rcases hkind with rfl | rfl <;> rfl
    rw [hnone] at hlive
    have hroom' : .empty ∈ t.set i (.occupied a) := by
      refine empty_mem_of_usedCount_lt ?_
      rw [List.length_set]
      have hone : (Slot.used (.occupied a : Slot α)).toNat = 1 := rfl
      omega
    exact ⟨i, s, hrun, hs, hkind, ht.store hi habsent hd hpath hroom', fun b => occupied_mem_set hi,
      hused, hlive⟩

/-- A lookup of an absent key ends at the slot to store it into, in a table without tombstones as in
    any other: storing there keeps the table sound. -/
theorem Sound.lookup_or_store {key : α → κ} {home : κ → Nat} {t : List (Slot α)}
    (ht : Sound key home t) {mask : Nat} (hmask : Masks mask t.length) {same : α → Bool} {k : κ}
    (hsame : ∀ b, .occupied b ∈ t → (same b = true ↔ key b = k))
    (hroom : usedCount t + 1 < t.length) :
    ∃ i, lookup t mask same t.length (home k &&& mask) = some i ∧
      ((∃ b, t[i]? = some (.occupied b) ∧ key b = k) ∨
        (t[i]? = some .empty ∧ (∀ b, .occupied b ∈ t → key b ≠ k) ∧
          ∀ a, key a = k → Sound key home (t.set i (.occupied a)) ∧
            (∀ b, .occupied b ∈ t.set i (.occupied a) ↔ b = a ∨ .occupied b ∈ t) ∧
            usedCount (t.set i (.occupied a)) = usedCount t + 1)) := by
  obtain ⟨d, hd, hskip, hend⟩ := ht.exists_stop hsame
  have hrun := lookup_run hmask (h := home k) d 0 t.length (fun x _ hx => hskip x (by omega))
    (by
      rw [Nat.zero_add]
      rcases hend with ⟨a, hslot, hstop, -⟩ | ⟨hslot, -⟩
      · exact ⟨_, hslot, hstop⟩
      · exact ⟨_, hslot, rfl⟩) hd
  rw [Nat.zero_add, Nat.add_zero, ← hmask] at hrun
  refine ⟨_, hrun, ?_⟩
  rcases hend with ⟨b, hslot, -, hkey⟩ | ⟨hslot, habsent⟩
  · exact .inl ⟨b, hslot, hkey⟩
  · refine .inr ⟨hslot, habsent, ?_⟩
    rintro a rfl
    have hused := usedCount_set (.occupied a) hslot
    have hone : (Slot.used (.occupied a : Slot α)).toNat = 1 := rfl
    have hzero : (Slot.used (.empty : Slot α)).toNat = 0 := rfl
    have hroom' : .empty ∈ t.set ((home (key a) + d) % t.length) (.occupied a) := by
      refine empty_mem_of_usedCount_lt ?_
      rw [List.length_set]
      omega
    refine ⟨ht.store (.inr hslot) habsent rfl (fun x hx hempty => ?_) hroom',
      fun b => occupied_mem_set (.inr hslot), by omega⟩
    obtain ⟨s, hs, hgoes⟩ := hskip x hx
    rw [hempty] at hs
    cases hs
    cases hgoes

end OpenAddressing
