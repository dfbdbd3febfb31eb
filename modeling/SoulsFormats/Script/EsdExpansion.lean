import SoulsFormats.Script.EsdConditions

set_option autoImplicit false

/-! # Expanding ESD conditions

A path of linked records without a cycle is no longer than the table, so that the depth that `esd_clone_condition`
allows is passed on a cycle only. The depth itself has room for every table but one of `INT32_MAX` records. -/

namespace SoulsFormats

open Fallible Relation

section

variable {conditions : List EsdTmpCondition} {groupStates : List (Int64 × Int64)}

theorem esdCloneCommandList_eq (src : List EsdCommandCall) : esdCloneCommandList src = src := List.map_id src

theorem mem_offsets_of_find {a : Int64} {src : EsdTmpCondition} (h : esdFindCondition conditions a = some src) :
    a ∈ conditions.map (·.offset) := by
  have hoffset : src.offset = a := by simpa using List.find?_some h
  exact List.mem_map.2 ⟨src, List.mem_of_find?_eq_some h, hoffset⟩

/-! ## The graph -/

theorem esdDescent_enter_eq_some {a : Int64} {l : List Int64}
    (h : (esdDescent conditions groupStates).enter a = some l) :
    ∃ src target, esdFindCondition conditions a = some src ∧ esdTargetState groupStates src = some target ∧
      l = src.rawSubconditionOffsets := by
  unfold esdDescent at h
  dsimp only at h
  split at h
  · cases h
  · next src hfind =>
      obtain ⟨target, htarget, rfl⟩ := Option.map_eq_some_iff.1 h
      exact ⟨src, target, hfind, htarget, rfl⟩

theorem esdDescent_enter {a target : Int64} {src : EsdTmpCondition} (hfind : esdFindCondition conditions a = some src)
    (htarget : esdTargetState groupStates src = some target) :
    (esdDescent conditions groupStates).enter a = some src.rawSubconditionOffsets := by
  simp only [esdDescent, hfind, htarget, Option.map_some]

theorem esdDescent_finite : {a | ((esdDescent conditions groupStates).enter a).isSome}.Finite := by
  refine (List.finite_toSet (conditions.map (·.offset))).subset ?_
  intro a ha
  obtain ⟨l, hl⟩ := Option.isSome_iff_exists.1 ha
  obtain ⟨src, target, hfind, -, -⟩ := esdDescent_enter_eq_some hl
  exact mem_offsets_of_find hfind

theorem esdLinks_of_child {a b : Int64} (h : (esdDescent conditions groupStates).Child a b) :
    EsdLinks conditions a b := by
  obtain ⟨l, henter, hb⟩ := h
  obtain ⟨src, target, hfind, -, rfl⟩ := esdDescent_enter_eq_some henter
  exact ⟨src, hfind, hb⟩

theorem child_of_esdLinks {a b : Int64} (ha : (esdDescent conditions groupStates).Sound a)
    (h : EsdLinks conditions a b) : (esdDescent conditions groupStates).Child a b := by
  obtain ⟨l, hl⟩ := Option.isSome_iff_exists.1 ha.isSome
  obtain ⟨src, target, hfind, htarget, rfl⟩ := esdDescent_enter_eq_some hl
  obtain ⟨src', hfind', hb⟩ := h
  rw [hfind, Option.some.injEq] at hfind'
  subst hfind'
  exact ⟨_, hl, hb⟩

/-- A condition can be expanded exactly if the descent from it succeeds. -/
theorem esdExpandable_iff {start : Int64} :
    EsdExpandable conditions groupStates start ↔ (esdDescent conditions groupStates).Sound start := by
  constructor
  · rintro ⟨hresolves, hcycle⟩
    refine (Descent.sound_iff esdDescent_finite).2 ⟨?_, ?_⟩
    · intro a ha
      obtain ⟨src, hfind, hsome⟩ := hresolves a (ReflTransGen.mono (fun _ _ => esdLinks_of_child) _ _ ha)
      obtain ⟨target, htarget⟩ := Option.isSome_iff_exists.1 hsome
      exact ⟨by simp [esdDescent_enter hfind htarget], rfl⟩
    · rintro ⟨a, hreach, ha⟩
      exact hcycle ⟨a, ReflTransGen.mono (fun _ _ => esdLinks_of_child) _ _ hreach,
        TransGen.mono (fun _ _ => esdLinks_of_child) _ _ ha⟩
  · intro hsound
    -- below a sound condition every link is one that the descent takes
    have hreach : ∀ a, ReflTransGen (EsdLinks conditions) start a →
        (esdDescent conditions groupStates).Sound a := by
      intro a ha
      induction ha with
      | refl => exact hsound
      | tail _ hlink ih => exact ih.child (child_of_esdLinks ih hlink)
    refine ⟨?_, ?_⟩
    · intro a ha
      obtain ⟨l, hl⟩ := Option.isSome_iff_exists.1 (hreach a ha).isSome
      obtain ⟨src, target, hfind, htarget, -⟩ := esdDescent_enter_eq_some hl
      exact ⟨src, hfind, by rw [htarget]; rfl⟩
    · rintro ⟨a, ha, hcycle⟩
      have hchild : ∀ b, TransGen (EsdLinks conditions) a b →
          TransGen (esdDescent conditions groupStates).Child a b := by
        intro b hb
        induction hb with
        | single hlink => exact .single (child_of_esdLinks (hreach a ha) hlink)
        | tail hab hlink ih => exact ih.tail (child_of_esdLinks (hreach _ (ha.trans hab.to_reflTransGen)) hlink)
      exact (hreach a ha).acc.not_runsIntoCycle ⟨a, .refl, hchild a hcycle⟩

/-! ## Runs -/

/-- The call for a condition below. -/
def esdCloneBelow (conditions : List EsdTmpCondition) (groupStates : List (Int64 × Int64)) (fuel depth : Nat)
    (offset : Int64) : Except SfError EsdCondition :=
  if depth = INT32_MAX then .error .undefinedBehaviour
  else esdCloneCondition conditions groupStates fuel offset (depth + 1)

theorem esdCloneCondition_of_enter_none {fuel depth : Nat} {a : Int64} (hdepth : depth ≤ conditions.length)
    (h : (esdDescent conditions groupStates).enter a = none) :
    esdCloneCondition conditions groupStates (fuel + 1) a depth = .error .notFound := by
  rw [esdCloneCondition, if_neg (by omega)]
  cases hfind : esdFindCondition conditions a with
  | none => rfl
  | some src =>
      cases htarget : esdTargetState groupStates src with
      | none => simp only [htarget]
      | some target =>
          rw [esdDescent_enter hfind htarget] at h
          cases h

theorem esdCloneCondition_of_find {fuel depth : Nat} {a target : Int64} {src : EsdTmpCondition}
    (hdepth : depth ≤ conditions.length) (hfind : esdFindCondition conditions a = some src)
    (htarget : esdTargetState groupStates src = some target) :
    esdCloneCondition conditions groupStates (fuel + 1) a depth =
      (src.rawSubconditionOffsets.mapM (esdCloneBelow conditions groupStates fuel depth)).map
        fun subconditions => .mk target src.passCmds subconditions src.evaluator := by
  rw [esdCloneCondition, if_neg (by omega), hfind]
  dsimp only
  rw [htarget, esdCloneCommandList_eq]
  rfl

/-- What a call comes to: it is refused, or the copies of the conditions below decide. -/
inductive EsdClones (conditions : List EsdTmpCondition) (groupStates : List (Int64 × Int64)) (fuel : Nat) (a : Int64)
    (depth : Nat) : Except SfError EsdCondition → Prop
  | deep (hdepth : conditions.length < depth) : EsdClones conditions groupStates fuel a depth (.error .internal)
  | unresolved (hdepth : depth ≤ conditions.length) (henter : (esdDescent conditions groupStates).enter a = none) :
      EsdClones conditions groupStates fuel a depth (.error .notFound)
  | below {src : EsdTmpCondition} {e : SfError} (hdepth : depth ≤ conditions.length)
      (henter : (esdDescent conditions groupStates).enter a = some src.rawSubconditionOffsets)
      (hbelow : src.rawSubconditionOffsets.mapM (esdCloneBelow conditions groupStates fuel depth) = .error e) :
      EsdClones conditions groupStates fuel a depth (.error e)
  | copied {src : EsdTmpCondition} {target : Int64} {subconditions : List EsdCondition}
      (hfind : esdFindCondition conditions a = some src) (htarget : esdTargetState groupStates src = some target)
      (hbelow : src.rawSubconditionOffsets.mapM (esdCloneBelow conditions groupStates fuel depth) =
        .ok subconditions) :
      EsdClones conditions groupStates fuel a depth (.ok (.mk target src.passCmds subconditions src.evaluator))

theorem esdCloneCondition_spec {fuel depth : Nat} {a : Int64} {r : Except SfError EsdCondition}
    (h : esdCloneCondition conditions groupStates (fuel + 1) a depth = r) :
    EsdClones conditions groupStates fuel a depth r := by
  subst h
  by_cases hdepth : conditions.length < depth
  · rw [esdCloneCondition, if_pos hdepth]
    exact .deep hdepth
  · cases henter : (esdDescent conditions groupStates).enter a with
    | none =>
        rw [esdCloneCondition_of_enter_none (by omega) henter]
        exact .unresolved (by omega) henter
    | some l =>
        obtain ⟨src, target, hfind, htarget, rfl⟩ := esdDescent_enter_eq_some henter
        rw [esdCloneCondition_of_find (by omega) hfind htarget]
        cases hbelow : src.rawSubconditionOffsets.mapM (esdCloneBelow conditions groupStates fuel depth) with
        | error e => exact .below (by omega) henter hbelow
        | ok subconditions => exact .copied hfind htarget hbelow

/-- A condition below that failed: the depth cannot be counted up, or its own call failed. -/
theorem esdCloneBelow_eq_error {fuel depth : Nat} {offset : Int64} {e : SfError}
    (h : esdCloneBelow conditions groupStates fuel depth offset = .error e) :
    depth = INT32_MAX ∧ e = .undefinedBehaviour ∨
      depth ≠ INT32_MAX ∧ esdCloneCondition conditions groupStates fuel offset (depth + 1) = .error e := by
  unfold esdCloneBelow at h
  split at h
  · next hmax =>
      cases h
      exact Or.inl ⟨hmax, rfl⟩
  · next hmax => exact Or.inr ⟨hmax, h⟩

theorem esdCloneBelow_eq_ok {fuel depth : Nat} {offset : Int64} {tree : EsdCondition}
    (h : esdCloneBelow conditions groupStates fuel depth offset = .ok tree) :
    esdCloneCondition conditions groupStates fuel offset (depth + 1) = .ok tree := by
  unfold esdCloneBelow at h
  split at h
  · cases h
  · exact h

/-- The depth ends every run. -/
theorem esdCloneCondition_terminates {fuel depth : Nat} {a : Int64} (hdepth : depth ≤ conditions.length + 1)
    (hfuel : conditions.length + 2 ≤ fuel + depth) :
    esdCloneCondition conditions groupStates fuel a depth ≠ .error .nonTermination := by
  induction fuel generalizing depth a with
  | zero => omega
  | succ fuel ih =>
      intro hrun
      cases esdCloneCondition_spec hrun with
      | below hle _ hbelow =>
          obtain ⟨before, c, after, -, -, hc⟩ := except_mapM_eq_error hbelow
          rcases esdCloneBelow_eq_error hc with ⟨-, hub⟩ | ⟨-, hrun'⟩
          · cases hub
          · exact ih (by omega) (by omega) hrun'

/-- The depth is not counted past what it has room for, if the table is not as long as can be. -/
theorem esdCloneCondition_defined {fuel depth : Nat} {a : Int64} (hshort : conditions.length < INT32_MAX) :
    esdCloneCondition conditions groupStates fuel a depth ≠ .error .undefinedBehaviour := by
  induction fuel generalizing depth a with
  | zero => exact nofun
  | succ fuel ih =>
      intro hrun
      cases esdCloneCondition_spec hrun with
      | below hle _ hbelow =>
          obtain ⟨before, c, after, -, -, hc⟩ := except_mapM_eq_error hbelow
          rcases esdCloneBelow_eq_error hc with ⟨hmax, -⟩ | ⟨-, hrun'⟩
          · omega
          · exact ih hrun'

/-- A tree that is returned is the unfolding of sound conditions. -/
theorem esdCloneCondition_eq_ok {fuel depth : Nat} {a : Int64} {tree : EsdCondition}
    (h : esdCloneCondition conditions groupStates fuel a depth = .ok tree) :
    (esdDescent conditions groupStates).Sound a ∧ EsdUnfolds conditions groupStates a tree := by
  induction fuel generalizing depth a tree with
  | zero => cases h
  | succ fuel ih =>
      cases esdCloneCondition_spec h with
      | copied hfind htarget hbelow =>
          have hchildren := (except_mapM_eq_ok hbelow).imp fun b t hb => ih (esdCloneBelow_eq_ok hb)
          obtain ⟨hsound, hunfolds⟩ := (List.forall₂_and_left _ _).1 hchildren
          exact ⟨.intro (esdDescent_enter hfind htarget) hsound rfl, .node hfind htarget hunfolds⟩

/-- A path of records without a repetition is no longer than the table. -/
theorem length_path_le {path : List Int64} (hnodup : path.Nodup) (hkeys : ∀ b ∈ path, b ∈ conditions.map (·.offset)) :
    path.length ≤ conditions.length := by
  have hle := (List.subperm_of_subset hnodup hkeys).length_le
  rwa [List.length_map] at hle

/-- Where the descent ends, the copy does too, below the depth that is allowed: behind a path that leads to `a`, it
    gives a tree if `a` is sound and meets what is not resolved otherwise. -/
theorem esdCloneCondition_of_settles (hfits : conditions.length ≤ INT32_MAX) {a : Int64}
    (h : (esdDescent conditions groupStates).Settles a) {path : List Int64} (hnodup : path.Nodup)
    (hkeys : ∀ b ∈ path, b ∈ conditions.map (·.offset))
    (hpath : ∀ b ∈ path, TransGen (esdDescent conditions groupStates).Enters b a) {fuel : Nat}
    (hfuel : conditions.length + 2 ≤ fuel + path.length) :
    ((esdDescent conditions groupStates).Sound a ∧
        ∃ tree, esdCloneCondition conditions groupStates fuel a path.length = .ok tree) ∨
      ¬ (esdDescent conditions groupStates).Sound a ∧
        esdCloneCondition conditions groupStates fuel a path.length = .error .notFound := by
  unfold Descent.Settles at h
  induction h generalizing path fuel with
  | intro a hacc ih =>
      have hlen := length_path_le hnodup hkeys
      obtain ⟨fuel, rfl⟩ : ∃ k, fuel = k + 1 := ⟨fuel - 1, by omega⟩
      have hfresh : a ∉ path := fun ha => Acc.not_runsIntoCycle (Acc.intro a hacc) ⟨a, .refl, hpath a ha⟩
      generalize hrun : esdCloneCondition conditions groupStates (fuel + 1) a path.length = r
      cases esdCloneCondition_spec hrun with
      | deep hdeep => omega
      | unresolved _ henter =>
          refine Or.inr ⟨fun hsound => ?_, rfl⟩
          have hsome := hsound.isSome
          rw [henter] at hsome
          cases hsome
      | copied _ _ _ => exact Or.inl ⟨(esdCloneCondition_eq_ok hrun).1, _, rfl⟩
      | @below src e _ henter hbelow =>
          obtain ⟨before, c, after, hsplit, hbefore, hc⟩ := except_mapM_eq_error hbelow
          have hsound : ∀ s ∈ before, (esdDescent conditions groupStates).Sound s := by
            intro s hs
            obtain ⟨tree, htree⟩ := hbefore s hs
            exact (esdCloneCondition_eq_ok (esdCloneBelow_eq_ok htree)).1
          have henters : (esdDescent conditions groupStates).Enters a c :=
            ⟨before, after, by rw [henter, hsplit], hsound⟩
          obtain ⟨src', -, hfind, -, -⟩ := esdDescent_enter_eq_some henter
          -- the path goes on with `a`, which it has not come by before
          have hnodup' : (a :: path).Nodup := List.nodup_cons.2 ⟨hfresh, hnodup⟩
          have hkeys' : ∀ b ∈ a :: path, b ∈ conditions.map (·.offset) :=
            List.forall_mem_cons.2 ⟨mem_offsets_of_find hfind, hkeys⟩
          have hpath' : ∀ b ∈ a :: path, TransGen (esdDescent conditions groupStates).Enters b c :=
            List.forall_mem_cons.2 ⟨.single henters, fun b hb => (hpath b hb).tail henters⟩
          have hlen' := length_path_le hnodup' hkeys'
          rw [List.length_cons] at hlen'
          rcases esdCloneBelow_eq_error hc with ⟨hmax, -⟩ | ⟨-, hrun'⟩
          · omega
          · have hnext := @ih c henters (a :: path) hnodup' hkeys' hpath' fuel (by simp; omega)
            rw [List.length_cons, hrun'] at hnext
            rcases hnext with ⟨-, tree, htree⟩ | ⟨hnot, he⟩
            · cases htree
            · refine Or.inr ⟨fun h => hnot (h.child henters.child), ?_⟩
              cases he
              rfl

/-! ## The longest table -/

/-- In the longest table the depth is never too large, and what is sound is copied or leads to a depth that has no
    successor. -/
theorem esdCloneCondition_of_sound (hmax : conditions.length = INT32_MAX) {a : Int64}
    (h : (esdDescent conditions groupStates).Sound a) {fuel depth : Nat} (hdepth : depth ≤ INT32_MAX)
    (hfuel : conditions.length + 2 ≤ fuel + depth) :
    (∃ tree, esdCloneCondition conditions groupStates fuel a depth = .ok tree) ∨
      esdCloneCondition conditions groupStates fuel a depth = .error .undefinedBehaviour := by
  induction h generalizing fuel depth with
  | @intro a l henter hchildren _ ih =>
      obtain ⟨fuel, rfl⟩ : ∃ k, fuel = k + 1 := ⟨fuel - 1, by omega⟩
      generalize hrun : esdCloneCondition conditions groupStates (fuel + 1) a depth = r
      cases esdCloneCondition_spec hrun with
      | deep hdeep => omega
      | unresolved _ hnone =>
          rw [henter] at hnone
          cases hnone
      | copied _ _ _ => exact Or.inl ⟨_, rfl⟩
      | @below src e _ henter' hbelow =>
          obtain ⟨before, c, after, hsplit, -, hc⟩ := except_mapM_eq_error hbelow
          rw [henter, Option.some.injEq] at henter'
          rcases esdCloneBelow_eq_error hc with ⟨-, rfl⟩ | ⟨hnext, hrun'⟩
          · exact Or.inr rfl
          · have hmem : c ∈ l := by
              rw [henter', hsplit]
              simp
            have hchild := @ih c hmem fuel (depth + 1) (by omega) (by omega)
            rw [hrun'] at hchild
            rcases hchild with ⟨tree, htree⟩ | hub
            · cases htree
            · cases hub
              exact Or.inr rfl

/-- In the longest table a descent without an end is followed until the depth has no successor. -/
theorem esdCloneCondition_endless (hmax : conditions.length = INT32_MAX) {fuel depth : Nat} {a : Int64}
    (h : ¬ (esdDescent conditions groupStates).Settles a) (hdepth : depth ≤ INT32_MAX)
    (hfuel : conditions.length + 2 ≤ fuel + depth) :
    esdCloneCondition conditions groupStates fuel a depth = .error .undefinedBehaviour := by
  induction fuel generalizing depth a with
  | zero => omega
  | succ fuel ih =>
      obtain ⟨q, ⟨before, after, henter, hbefore⟩, hq⟩ := Descent.exists_enters_of_not_settles h
      obtain ⟨src, target, hfind, htarget, hlinks⟩ := esdDescent_enter_eq_some henter
      rw [esdCloneCondition_of_find (by omega) hfind htarget, ← hlinks, except_mapM_error]
      · rfl
      · intro s hs
        unfold esdCloneBelow
        split
        · exact Or.inr rfl
        · exact esdCloneCondition_of_sound hmax (hbefore s hs) (by omega) (by omega)
      · unfold esdCloneBelow
        split
        · rfl
        · exact ih hq (by omega) (by omega)

end

/-! ## Expansion -/

/-- What is asked of the copy of a condition: the call returns, it succeeds exactly for a condition that can be
    expanded, and the tree is the unfolding. -/
structure EsdExpands (conditions : List EsdTmpCondition) (groupStates : List (Int64 × Int64)) (start : Int64)
    (r : Except SfError EsdCondition) : Prop where
  returns : r ≠ .error .nonTermination
  defined : r ≠ .error .undefinedBehaviour
  succeeds : (∃ tree, r = .ok tree) ↔ EsdExpandable conditions groupStates start
  unfolds : ∀ tree, r = .ok tree → EsdUnfolds conditions groupStates start tree

/-- With calls enough, the copy of a condition expands it, exactly if the table is not the longest there is or the
    copy runs into no cycle. -/
theorem esdCloneCondition_expands_iff (table : EsdConditionTable) (groupStates : List (Int64 × Int64))
    (start : Int64) :
    (∃ enough, ∀ fuel ≥ enough, EsdExpands table.records groupStates start
        (esdCloneCondition table.records groupStates fuel start 0)) ↔
      table.records.length < INT32_MAX ∨ ¬ EsdRunsIntoCycle table.records groupStates start := by
  have hfits := table.fits
  constructor
  · rintro ⟨enough, hexpands⟩
    by_contra hnot
    rw [not_or, not_not, EsdRunsIntoCycle] at hnot
    obtain ⟨hlong, hcycle⟩ := hnot
    have hendless : ¬ (esdDescent table.records groupStates).Settles start :=
      fun h => (Descent.settles_iff esdDescent_finite).1 h hcycle
    have hfuel : table.records.length + 2 ≤ (enough + (table.records.length + 2)) + 0 := by omega
    exact (hexpands _ (Nat.le_add_right enough _)).defined
      (esdCloneCondition_endless (by omega) hendless (by omega) hfuel)
  · intro hcondition
    refine ⟨table.records.length + 2, fun fuel hfuel => ?_⟩
    have hsettled := fun h => @esdCloneCondition_of_settles table.records groupStates hfits start h [] List.nodup_nil
      nofun nofun fuel hfuel
    refine ⟨esdCloneCondition_terminates (by omega) hfuel, ?_, ?_, fun tree htree =>
      (esdCloneCondition_eq_ok htree).2⟩
    · rcases hcondition with hshort | hcycle
      · exact esdCloneCondition_defined hshort
      · rcases hsettled ((Descent.settles_iff esdDescent_finite).2 hcycle) with ⟨-, tree, htree⟩ | ⟨-, herror⟩
        · rw [List.length_nil] at htree
          simp [htree]
        · rw [List.length_nil] at herror
          simp [herror]
    · rw [esdExpandable_iff]
      constructor
      · rintro ⟨tree, htree⟩
        exact (esdCloneCondition_eq_ok htree).1
      · intro hsound
        rcases hsettled hsound.settles with ⟨-, htree⟩ | ⟨hnot, -⟩
        · exact htree
        · exact absurd hsound hnot

/-- A record that is linked below itself. -/
def selfLinked : EsdTmpCondition :=
  { offset := 0, rawStateOffset := -1, rawSubconditionOffsets := [0], passCmds := [], evaluator := [] }

/-- A record with nothing below it. -/
def unlinked (i : Nat) : EsdTmpCondition :=
  { offset := Int64.ofNat (i + 1), rawStateOffset := -1, rawSubconditionOffsets := [], passCmds := [],
    evaluator := [] }

/-- A table as long as can be, its first record linked below itself. -/
def longestTable : EsdConditionTable where
  records := selfLinked :: (List.range (INT32_MAX - 1)).map unlinked
  distinct := by
    have hoffset : ∀ i < INT32_MAX, (Int64.ofNat i).toInt = i := by
      intro i hi
      exact Int64.toInt_ofNat_of_lt (hi.trans (by decide))
    rw [List.map_cons, List.map_map, List.nodup_cons]
    constructor
    · intro hmem
      obtain ⟨i, hi, hzero⟩ := List.mem_map.1 hmem
      rw [List.mem_range] at hi
      have hint := congrArg Int64.toInt hzero
      simp only [Function.comp_apply, unlinked, selfLinked] at hint
      rw [hoffset _ (by omega)] at hint
      exact absurd hint (by simp; omega)
    · refine List.Nodup.map_on ?_ List.nodup_range
      intro i hi j hj hij
      rw [List.mem_range] at hi hj
      have hint := congrArg Int64.toInt hij
      simp only [Function.comp_apply, unlinked] at hint
      rw [hoffset _ (by omega), hoffset _ (by omega)] at hint
      omega
  fits := by
    rw [List.length_cons, List.length_map, List.length_range]
    decide

/-- The copy of that record counts the depth past `INT32_MAX`. -/
theorem longestTable_not_expands :
    ¬ ∃ enough, ∀ fuel ≥ enough, EsdExpands longestTable.records [] 0
      (esdCloneCondition longestTable.records [] fuel 0 0) := by
  rintro ⟨enough, hexpands⟩
  have hlength : longestTable.records.length = INT32_MAX := by
    rw [longestTable, List.length_cons, List.length_map, List.length_range]
    rfl
  have hloop : (esdDescent longestTable.records []).Enters 0 0 := ⟨[], [], rfl, nofun⟩
  have hendless : ¬ (esdDescent longestTable.records []).Settles 0 :=
    fun h => Acc.not_runsIntoCycle h ⟨0, .refl, .single hloop⟩
  have hfuel : longestTable.records.length + 2 ≤ (enough + (INT32_MAX + 2)) + 0 := by omega
  exact (hexpands _ (Nat.le_add_right enough _)).defined
    (esdCloneCondition_endless hlength hendless (by omega) hfuel)

end SoulsFormats
