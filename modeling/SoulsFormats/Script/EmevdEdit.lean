import Mathlib.Data.List.InsertIdx
import Mathlib.Data.List.Nodup
import SoulsFormats.Core.Defined
import SoulsFormats.Script.Emevd

set_option autoImplicit false

/-! # Editing the instructions of an event

A parameter names its instruction by position, so inserting and removing instructions renumbers the
parameters. `EmevdTagged` follows the same edits on instructions that carry an identity, and
`EmevdFollows` is what then holds of the event: every parameter that is left still denotes the
instruction it denoted at the start. An insertion increments the indices behind it and does not look
whether one of them is the greatest there is; `EmevdEdit.Shifts` says that none is. -/

namespace SoulsFormats

open Bytes Fallible

/-! ## The edits -/

def emevdMulCount (count elemSize : Nat) : Fallible Heap SfError Nat := do
  check (count ≤ SIZE_MAX / elemSize) .outOfRange
  pure (count * elemSize)

def emevdInstructionInit (bank id : Int32) (argData : List UInt8) :
    Fallible Heap SfError EmevdInstruction := do
  let instr : EmevdInstruction := { bank := bank, id := id, argData := argData, layer := none }
  if 0 < argData.length then do
    let _ ← Heap.alloc
    pure instr
  else pure instr

/-- The loop of `emevd_shift_parameter_indices_after_insert`. An index that is `INT64_MAX` cannot be
    incremented. -/
def emevdShiftParameterIndicesAfterInsert (atIndex : Nat) :
    List EmevdParameter → Except SfError (List EmevdParameter)
  | [] => .ok []
  | parameter :: parameters =>
    if 0 ≤ parameter.instructionIndex ∧ atIndex ≤ parameter.instructionIndex.toInt.toNat then
      if parameter.instructionIndex.toInt = INT64_MAX then .error .undefinedBehaviour
      else do
        let shifted ← emevdShiftParameterIndicesAfterInsert atIndex parameters
        pure ({ parameter with instructionIndex := parameter.instructionIndex + 1 } :: shifted)
    else do
      let shifted ← emevdShiftParameterIndicesAfterInsert atIndex parameters
      pure (parameter :: shifted)

/-- `sf_emevd_event_insert_instruction`. -/
def emevdEventInsertInstruction (event : EmevdEvent) (atIndex : Nat) (bank id : Int32)
    (argData : List UInt8) : Fallible Heap SfError EmevdEvent := do
  check (atIndex ≤ event.instructions.length) .invalidArg
  check (event.instructions.length ≠ SIZE_MAX) .outOfRange
  let _ ← emevdMulCount event.instructions.length emevdEntrySize
  let _ ← emevdMulCount (event.instructions.length + 1) emevdEntrySize
  let _ ← Heap.alloc
  let instr ← emevdInstructionInit bank id argData
  let parameters ← lift (emevdShiftParameterIndicesAfterInsert atIndex event.parameters)
  pure { event with
    instructions := event.instructions.insertIdx atIndex instr
    parameters := parameters }

/-- `sf_emevd_event_replace_instruction`. -/
def emevdEventReplaceInstruction (event : EmevdEvent) (atIndex : Nat) (bank id : Int32)
    (argData : List UInt8) : Fallible Heap SfError EmevdEvent := do
  check (atIndex < event.instructions.length) .invalidArg
  let replacement ← emevdInstructionInit bank id argData
  pure { event with instructions := event.instructions.set atIndex replacement }

/-- What the compacting loop of `sf_emevd_event_remove_instruction_at` does to one parameter. -/
def emevdCompactParameter (atIndex : Nat) (param : EmevdParameter) : Option EmevdParameter :=
  if 0 ≤ param.instructionIndex ∧ param.instructionIndex.toInt.toNat = atIndex then none
  else if 0 ≤ param.instructionIndex ∧ atIndex < param.instructionIndex.toInt.toNat then
    some { param with instructionIndex := param.instructionIndex - 1 }
  else some param

/-- `sf_emevd_event_remove_instruction_at`. -/
def emevdEventRemoveInstructionAt (event : EmevdEvent) (atIndex : Nat) :
    Fallible Heap SfError EmevdEvent := do
  check (atIndex < event.instructions.length) .invalidArg
  pure { event with
    instructions := event.instructions.eraseIdx atIndex
    parameters := event.parameters.filterMap (emevdCompactParameter atIndex) }

/-- `sf_emevd_event_clear_parameters`. -/
def emevdEventClearParameters (event : EmevdEvent) : Fallible Heap SfError EmevdEvent :=
  pure { event with parameters := [] }

/-- `sf_emevd_event_remove_parameter_at`. -/
def emevdEventRemoveParameterAt (event : EmevdEvent) (atIndex : Nat) :
    Fallible Heap SfError EmevdEvent := do
  check (atIndex < event.parameters.length) .invalidArg
  pure { event with parameters := event.parameters.eraseIdx atIndex }

/-- A call that edits an event. -/
inductive EmevdEdit where
  | insertInstruction (atIndex : Nat) (bank id : Int32) (argData : List UInt8)
  | replaceInstruction (atIndex : Nat) (bank id : Int32) (argData : List UInt8)
  | removeInstructionAt (atIndex : Nat)
  | removeParameterAt (atIndex : Nat)
  | clearParameters
deriving DecidableEq, Repr

/-- The function of a call. -/
def EmevdEdit.run (event : EmevdEvent) : EmevdEdit → Fallible Heap SfError EmevdEvent
  | insertInstruction atIndex bank id argData =>
    emevdEventInsertInstruction event atIndex bank id argData
  | replaceInstruction atIndex bank id argData =>
    emevdEventReplaceInstruction event atIndex bank id argData
  | removeInstructionAt atIndex => emevdEventRemoveInstructionAt event atIndex
  | removeParameterAt atIndex => emevdEventRemoveParameterAt event atIndex
  | clearParameters => emevdEventClearParameters event

/-- A sequence of successful calls. -/
def emevdRunEdits : List EmevdEdit → EmevdEvent → Fallible Heap SfError EmevdEvent
  | [], event => pure event
  | edit :: edits, event => do
    let event ← edit.run event
    emevdRunEdits edits event

/-! ## Instructions with an identity -/

/-- What an index denotes in a list: nothing, if it is negative or too large. -/
def emevdDenotes {α : Type} (l : List α) (index : Int64) : Option α :=
  if 0 ≤ index then l[index.toInt.toNat]? else none

/-- An event seen from outside: its instructions with the identities they carry, the next identity,
    and the parameters that have been taken away by name. A parameter is known by its position at the
    start. -/
structure EmevdTagged where
  instructions : List (Nat × EmevdInstruction)
  fresh : Nat
  dropped : List Nat

/-- The identities, in order. -/
def EmevdTagged.ids (t : EmevdTagged) : List Nat := t.instructions.map Prod.fst

/-- At the start every instruction is known by its position. -/
def emevdTag (event : EmevdEvent) : EmevdTagged :=
  { instructions := (List.range event.instructions.length).zip event.instructions
    fresh := event.instructions.length
    dropped := [] }

/-- The instruction that the `k`-th parameter pointed at, at the start. -/
def emevdTarget (event : EmevdEvent) (k : Nat) : Option Nat :=
  event.parameters[k]?.bind fun parameter =>
    emevdDenotes (List.range event.instructions.length) parameter.instructionIndex

/-- The parameters that are left: those that have not been taken away and whose instruction, if they
    pointed at one, is still there. -/
def EmevdTagged.parameters (event : EmevdEvent) (t : EmevdTagged) : List Nat :=
  (List.range event.parameters.length).filter fun k =>
    k ∉ t.dropped ∧ ∀ x ∈ emevdTarget event k, x ∈ t.ids

/-- What a call does to the identities: a new instruction gets a new one, a replaced one keeps that of
    its position. -/
def EmevdTagged.step (event : EmevdEvent) (t : EmevdTagged) : EmevdEdit → EmevdTagged
  | .insertInstruction atIndex bank id argData =>
    { t with
      instructions := t.instructions.insertIdx atIndex (t.fresh, ⟨bank, id, argData, none⟩)
      fresh := t.fresh + 1 }
  | .replaceInstruction atIndex bank id argData =>
    { t with
      instructions := t.instructions.modify atIndex fun instr =>
        (instr.1, ⟨bank, id, argData, none⟩) }
  | .removeInstructionAt atIndex => { t with instructions := t.instructions.eraseIdx atIndex }
  | .removeParameterAt atIndex =>
    { t with dropped := t.dropped ++ ((t.parameters event)[atIndex]?).toList }
  | .clearParameters => { t with dropped := t.dropped ++ t.parameters event }

/-- The `k`-th parameter of the start has become `parameter`: its index denotes the instruction it
    denoted then, or nothing as then, and its other fields are unchanged. -/
structure EmevdFollowed (event : EmevdEvent) (t : EmevdTagged) (k : Nat)
    (parameter : EmevdParameter) : Prop where
  denotes : emevdDenotes t.ids parameter.instructionIndex = emevdTarget event k
  fields : ∃ old, event.parameters[k]? = some old ∧
    parameter = { old with instructionIndex := parameter.instructionIndex }

/-- `event` has been edited to `event'`, and `t` tells how. -/
structure EmevdFollows (event : EmevdEvent) (t : EmevdTagged) (event' : EmevdEvent) : Prop where
  instructions : event'.instructions = t.instructions.map Prod.snd
  nodup : t.ids.Nodup
  fresh : ∀ x ∈ t.ids, x < t.fresh
  start : event.instructions.length ≤ t.fresh
  parameters : List.Forall₂ (EmevdFollowed event t) (t.parameters event) event'.parameters

/-! ## Positions -/

theorem int64_nonneg_iff {x : Int64} : 0 ≤ x ↔ 0 ≤ x.toInt := Int64.le_iff_toInt_le

theorem int64_toInt_succ {x : Int64} (h : x.toInt ≠ INT64_MAX) : (x + 1).toInt = x.toInt + 1 := by
  have hone : (1 : Int64).toInt = 1 := rfl
  have hlow := x.le_toInt
  have hhigh := x.toInt_lt
  have hconst : INT64_MAX = 2 ^ 63 - 1 := rfl
  rw [Int64.toInt_add, hone]
  exact Int.bmod_eq_of_le (by omega) (by omega)

theorem int64_toInt_pred {x : Int64} (h : 0 < x.toInt) : (x - 1).toInt = x.toInt - 1 := by
  have hone : (1 : Int64).toInt = 1 := rfl
  have hhigh := x.toInt_lt
  rw [Int64.toInt_sub, hone]
  exact Int.bmod_eq_of_le (by omega) (by omega)

section Positions

variable {α : Type} {l : List α} {index : Int64}

/-- An index that an insertion moves denotes what it denoted. -/
theorem emevdDenotes_insertIdx {atIndex : Nat} (a : α) {index' : Int64}
    (hmoved : 0 ≤ index ∧ atIndex ≤ index.toInt.toNat → index'.toInt = index.toInt + 1)
    (hkept : ¬ (0 ≤ index ∧ atIndex ≤ index.toInt.toNat) → index' = index) :
    emevdDenotes (l.insertIdx atIndex a) index' = emevdDenotes l index := by
  unfold emevdDenotes
  by_cases hneg : 0 ≤ index
  · have hnat := int64_nonneg_iff.1 hneg
    by_cases hge : atIndex ≤ index.toInt.toNat
    · have hint := hmoved ⟨hneg, hge⟩
      have hneg' : 0 ≤ index' := int64_nonneg_iff.2 (by omega)
      rw [if_pos hneg, if_pos hneg', show index'.toInt.toNat = index.toInt.toNat + 1 by omega,
        List.getElem?_insertIdx_of_gt (by omega)]
      rfl
    · rw [hkept fun h => hge h.2, if_pos hneg, if_pos hneg,
        List.getElem?_insertIdx_of_lt (by omega)]
  · rw [hkept fun h => hneg h.1, if_neg hneg, if_neg hneg]

/-- An index that survives a removal denotes what it denoted. -/
theorem emevdDenotes_eraseIdx {atIndex : Nat} {param param' : EmevdParameter}
    (h : emevdCompactParameter atIndex param = some param') :
    emevdDenotes (l.eraseIdx atIndex) param'.instructionIndex
      = emevdDenotes l param.instructionIndex := by
  unfold emevdCompactParameter at h
  unfold emevdDenotes
  split at h
  · cases h
  next hne =>
    split at h
    next hgt =>
      cases h
      have hnat := int64_nonneg_iff.1 hgt.1
      have hint := int64_toInt_pred (x := param.instructionIndex) (by omega)
      have hneg : 0 ≤ param.instructionIndex - 1 := int64_nonneg_iff.2 (by omega)
      simp only
      rw [if_pos hgt.1, if_pos hneg, hint, List.getElem?_eraseIdx_of_ge (by omega)]
      congr 1
      omega
    next hle =>
      cases h
      split
      next hneg =>
        rw [List.getElem?_eraseIdx_of_lt (by
          by_contra hcon
          rcases Nat.lt_or_ge atIndex param.instructionIndex.toInt.toNat with hlt | hge
          · exact hle ⟨hneg, hlt⟩
          · exact hne ⟨hneg, by omega⟩)]
      · rfl

/-- The parameters that a removal takes away are those that denote the instruction removed. -/
theorem emevdCompactParameter_eq_none (hl : l.Nodup) {atIndex : Nat} (hat : atIndex < l.length)
    {param : EmevdParameter} :
    emevdCompactParameter atIndex param = none ↔
      emevdDenotes l param.instructionIndex = some l[atIndex] := by
  unfold emevdCompactParameter emevdDenotes
  constructor
  · intro h
    split at h
    next heq => rw [if_pos heq.1, heq.2, List.getElem?_eq_getElem hat]
    · split at h <;> cases h
  · intro h
    split at h
    next hneg =>
      obtain ⟨hlt, hget⟩ := List.getElem?_eq_some_iff.1 h
      rw [if_pos ⟨hneg, (hl.getElem_inj_iff).1 hget⟩]
    · cases h

theorem emevdCompactParameter_fields {atIndex : Nat} {param param' : EmevdParameter}
    (h : emevdCompactParameter atIndex param = some param') :
    param' = { param with instructionIndex := param'.instructionIndex } := by
  unfold emevdCompactParameter at h
  split at h
  · cases h
  · split at h <;> cases h <;> rfl

end Positions

/-- What an insertion does to one parameter. -/
structure EmevdShifted (atIndex : Nat) (p p' : EmevdParameter) : Prop where
  fields : p' = { p with instructionIndex := p'.instructionIndex }
  moved : 0 ≤ p.instructionIndex ∧ atIndex ≤ p.instructionIndex.toInt.toNat →
    p'.instructionIndex.toInt = p.instructionIndex.toInt + 1
  kept : ¬ (0 ≤ p.instructionIndex ∧ atIndex ≤ p.instructionIndex.toInt.toNat) →
    p'.instructionIndex = p.instructionIndex

theorem emevdShiftParameterIndicesAfterInsert_ok {atIndex : Nat} {ps ps' : List EmevdParameter}
    (h : emevdShiftParameterIndicesAfterInsert atIndex ps = .ok ps') :
    List.Forall₂ (EmevdShifted atIndex) ps ps' := by
  induction ps generalizing ps' with
  | nil =>
      cases h
      exact .nil
  | cons p ps ih =>
      simp only [emevdShiftParameterIndicesAfterInsert] at h
      rcases hrest : emevdShiftParameterIndicesAfterInsert atIndex ps with e | shifted
      · rw [hrest] at h
        split at h
        · split at h <;> cases h
        · cases h
      · rw [hrest] at h
        split at h
        next hcond =>
          split at h
          · cases h
          next hmax =>
            cases h
            exact .cons ⟨rfl, fun _ => int64_toInt_succ hmax, fun hnot => absurd hcond hnot⟩
              (ih hrest)
        next hcond =>
          cases h
          exact .cons ⟨rfl, fun hyes => absurd hyes hcond, fun _ => rfl⟩ (ih hrest)

/-! ## Lists in step -/

section Forall

variable {α β γ : Type} {R : α → β → Prop} {S : β → γ → Prop} {T : α → γ → Prop}

theorem forall₂_trans (h : ∀ a b c, R a b → S b c → T a c) {l : List α} {m : List β} {n : List γ}
    (hlm : List.Forall₂ R l m) (hmn : List.Forall₂ S m n) : List.Forall₂ T l n := by
  induction hlm generalizing n with
  | nil =>
      cases hmn
      exact .nil
  | cons hab _ ih =>
      rcases hmn with _ | ⟨hbc, hmn⟩
      exact .cons (h _ _ _ hab hbc) (ih hmn)

theorem forall₂_eraseIdx {l : List α} {m : List β} (h : List.Forall₂ R l m) (i : Nat) :
    List.Forall₂ R (l.eraseIdx i) (m.eraseIdx i) := by
  induction h generalizing i with
  | nil => simp
  | cons hab hlm ih =>
      rcases i with _ | i
      · exact hlm
      · exact .cons hab (ih i)

/-- A filter on one side and a partial map on the other that drop the same positions. -/
theorem forall₂_filter_filterMap {q : α → Bool} {g : β → Option γ} {l : List α} {m : List β}
    (h : List.Forall₂ R l m) (hdrop : ∀ a b, R a b → q a = false → g b = none)
    (hkeep : ∀ a b, R a b → q a = true → ∃ c, g b = some c ∧ T a c) :
    List.Forall₂ T (l.filter q) (m.filterMap g) := by
  induction h with
  | nil => exact .nil
  | @cons a b l m hab _ ih =>
      rcases hq : q a with _ | _
      · rw [List.filter_cons_of_neg (by simp [hq]), List.filterMap_cons_none (hdrop a b hab hq)]
        exact ih
      · obtain ⟨c, hc, hac⟩ := hkeep a b hab hq
        rw [List.filter_cons_of_pos hq, List.filterMap_cons_some hc]
        exact .cons hac ih

end Forall

/-! ## One edit -/

section Step

variable {event e1 : EmevdEvent} {t : EmevdTagged}

theorem emevdInstructionInit_ok {bank id : Int32} {argData : List UInt8} {heap heap' : Heap}
    {instr : EmevdInstruction}
    (h : emevdInstructionInit bank id argData heap = (.ok instr, heap')) :
    instr = ⟨bank, id, argData, none⟩ := by
  simp only [emevdInstructionInit] at h
  split at h
  · obtain ⟨_, _, -, h⟩ := bind_eq_ok.1 h
    cases h
    rfl
  · cases h
    rfl

/-- The instruction that a parameter pointed at at the start is one of those of the start. -/
theorem emevdTarget_lt {k x : Nat} (h : emevdTarget event k = some x) :
    x < event.instructions.length := by
  obtain ⟨p, -, hp⟩ := Option.bind_eq_some_iff.1 h
  unfold emevdDenotes at hp
  split at hp
  · obtain ⟨hlt, hget⟩ := List.getElem?_eq_some_iff.1 hp
    rw [List.getElem_range] at hget
    rw [List.length_range] at hlt
    omega
  · cases hp

/-- Instructions that are added take no parameter away. -/
theorem EmevdTagged.parameters_congr {t t' : EmevdTagged} (hdropped : t'.dropped = t.dropped)
    (hids : ∀ x < event.instructions.length, x ∈ t'.ids ↔ x ∈ t.ids) :
    t'.parameters event = t.parameters event := by
  unfold EmevdTagged.parameters
  rw [hdropped]
  refine List.filter_congr fun k _ => ?_
  rw [decide_eq_decide]
  refine and_congr_right fun _ => forall_congr' fun x => ?_
  exact imp_congr_right fun hx => hids x (emevdTarget_lt hx)

theorem EmevdFollows.insert (h : EmevdFollows event t e1) (atIndex : Nat) (bank id : Int32)
    (argData : List UInt8) (heap : Heap) :
    Post (emevdEventInsertInstruction e1 atIndex bank id argData) heap fun e2 _ =>
      EmevdFollows event (t.step event (.insertInstruction atIndex bank id argData)) e2 := by
  intro e2 heap' hrun
  obtain ⟨_, h1, hat, hrun⟩ := bind_eq_ok.1 hrun
  obtain ⟨_, h2, -, hrun⟩ := bind_eq_ok.1 hrun
  obtain ⟨_, h3, -, hrun⟩ := bind_eq_ok.1 hrun
  obtain ⟨_, h4, -, hrun⟩ := bind_eq_ok.1 hrun
  obtain ⟨_, h5, -, hrun⟩ := bind_eq_ok.1 hrun
  obtain ⟨instr, h6, hinit, hrun⟩ := bind_eq_ok.1 hrun
  obtain ⟨ps, h7, hshift, hrun⟩ := bind_eq_ok.1 hrun
  cases hrun
  rw [emevdInstructionInit_ok hinit]
  have hshifted := emevdShiftParameterIndicesAfterInsert_ok (Prod.mk.inj hshift).1
  have hle : atIndex ≤ t.ids.length := by
    rw [check_run] at hat
    split at hat
    next hle => rwa [EmevdTagged.ids, List.length_map, ← List.length_map (f := Prod.snd), ← h.instructions]
    · cases hat
  let t' := t.step event (.insertInstruction atIndex bank id argData)
  have hids : t'.ids = t.ids.insertIdx atIndex t.fresh := List.map_insertIdx ..
  have hmem : ∀ x, x ∈ t'.ids ↔ x = t.fresh ∨ x ∈ t.ids := by
    intro x
    rw [hids, List.mem_insertIdx hle]
  have hfresh : t.fresh ∉ t.ids := fun hin => lt_irrefl _ (h.fresh _ hin)
  have hparams : t'.parameters event = t.parameters event := by
    refine EmevdTagged.parameters_congr rfl fun x hx => ?_
    have hne : x ≠ t.fresh := by
      have hstart := h.start
      omega
    rw [hmem, or_iff_right hne]
  refine ⟨?_, ?_, ?_, ?_, ?_⟩
  · show e1.instructions.insertIdx atIndex _ = (t.instructions.insertIdx atIndex _).map Prod.snd
    rw [h.instructions, List.map_insertIdx]
  · rw [hids, (List.perm_insertIdx _ _ hle).nodup_iff, List.nodup_cons]
    exact ⟨hfresh, h.nodup⟩
  · intro x hx
    rcases (hmem x).1 hx with rfl | hx
    · exact Nat.lt_succ_self _
    · exact Nat.lt_succ_of_lt (h.fresh x hx)
  · exact h.start.trans (Nat.le_succ _)
  · rw [hparams]
    refine forall₂_trans (fun k p p' hp hp' => ⟨?_, ?_⟩) h.parameters hshifted
    · rw [hids, emevdDenotes_insertIdx _ hp'.moved hp'.kept, hp.denotes]
    · obtain ⟨old, hold, hfields⟩ := hp.fields
      exact ⟨old, hold, by rw [hp'.fields, hfields]⟩

theorem EmevdFollows.replace (h : EmevdFollows event t e1) (atIndex : Nat) (bank id : Int32)
    (argData : List UInt8) (heap : Heap) :
    Post (emevdEventReplaceInstruction e1 atIndex bank id argData) heap fun e2 _ =>
      EmevdFollows event (t.step event (.replaceInstruction atIndex bank id argData)) e2 := by
  intro e2 heap' hrun
  obtain ⟨_, h1, -, hrun⟩ := bind_eq_ok.1 hrun
  obtain ⟨instr, h2, hinit, hrun⟩ := bind_eq_ok.1 hrun
  cases hrun
  rw [emevdInstructionInit_ok hinit]
  let t' := t.step event (.replaceInstruction atIndex bank id argData)
  have hids : t'.ids = t.ids := by
    refine List.ext_getElem? fun i => ?_
    simp only [t', EmevdTagged.step, EmevdTagged.ids, List.getElem?_map, List.getElem?_modify]
    rcases t.instructions[i]? with _ | instr
    · rfl
    · simp only [Option.map_some, Functor.map]
      split <;> rfl
  have hparams : t'.parameters event = t.parameters event :=
    EmevdTagged.parameters_congr rfl fun x _ => by rw [hids]
  refine ⟨?_, by rw [hids]; exact h.nodup, by rw [hids]; exact h.fresh, h.start, ?_⟩
  · show e1.instructions.set atIndex _ = _
    rw [h.instructions]
    refine List.ext_getElem? fun i => ?_
    simp only [EmevdTagged.step, List.getElem?_map, List.getElem?_modify, List.getElem?_set,
      List.length_map]
    by_cases hi : atIndex = i
    · subst hi
      rcases hget : t.instructions[atIndex]? with _ | instr
      · simp [List.getElem?_eq_none_iff.1 hget]
      · obtain ⟨hlt, -⟩ := List.getElem?_eq_some_iff.1 hget
        simp [hlt]
    · simp [hi]
  · rw [hparams]
    exact h.parameters.imp fun k p hp => ⟨by rw [hids]; exact hp.denotes, hp.fields⟩

theorem EmevdFollows.remove (h : EmevdFollows event t e1) (atIndex : Nat) (heap : Heap) :
    Post (emevdEventRemoveInstructionAt e1 atIndex) heap fun e2 _ =>
      EmevdFollows event (t.step event (.removeInstructionAt atIndex)) e2 := by
  intro e2 heap' hrun
  obtain ⟨_, h1, hat, hrun⟩ := bind_eq_ok.1 hrun
  cases hrun
  have hlt : atIndex < t.ids.length := by
    rw [check_run] at hat
    split at hat
    next hlt => rwa [EmevdTagged.ids, List.length_map, ← List.length_map (f := Prod.snd), ← h.instructions]
    · cases hat
  let t' := t.step event (.removeInstructionAt atIndex)
  have hids : t'.ids = t.ids.eraseIdx atIndex := (List.eraseIdx_map ..).symm
  have hmem : ∀ x, x ∈ t'.ids ↔ x ∈ t.ids ∧ x ≠ t.ids[atIndex] := by
    intro x
    rw [hids, ← h.nodup.erase_getElem atIndex hlt, h.nodup.mem_erase_iff, and_comm]
  -- the parameters that go are those that point at the instruction removed
  have hparams : t'.parameters event
      = (t.parameters event).filter fun k => emevdTarget event k ≠ some t.ids[atIndex] := by
    unfold EmevdTagged.parameters
    rw [List.filter_filter]
    refine List.filter_congr fun k _ => ?_
    rw [← Bool.decide_and, decide_eq_decide]
    constructor
    · rintro ⟨hdropped, htarget⟩
      refine ⟨fun heq => ((hmem _).1 (htarget _ heq)).2 rfl, hdropped, fun x hx => ?_⟩
      exact ((hmem x).1 (htarget x hx)).1
    · rintro ⟨hne, hdropped, htarget⟩
      refine ⟨hdropped, fun x hx => (hmem x).2 ⟨htarget x hx, ?_⟩⟩
      rintro rfl
      exact hne hx
  refine ⟨?_, ?_, fun x hx => h.fresh x ((hmem x).1 hx).1, h.start, ?_⟩
  · show e1.instructions.eraseIdx atIndex = _
    rw [h.instructions]
    exact List.eraseIdx_map ..
  · rw [hids]
    exact h.nodup.eraseIdx atIndex
  · rw [hparams]
    refine forall₂_filter_filterMap h.parameters (fun k p hp hq => ?_) fun k p hp hq => ?_
    · rw [emevdCompactParameter_eq_none h.nodup hlt, hp.denotes]
      simpa using hq
    · have hsome : emevdCompactParameter atIndex p ≠ none := by
        rw [Ne, emevdCompactParameter_eq_none h.nodup hlt, hp.denotes]
        simpa using hq
      obtain ⟨p', hp'⟩ := Option.ne_none_iff_exists'.1 hsome
      refine ⟨p', hp', ?_, ?_⟩
      · rw [hids, emevdDenotes_eraseIdx hp', hp.denotes]
      · obtain ⟨old, hold, hfields⟩ := hp.fields
        exact ⟨old, hold, by rw [emevdCompactParameter_fields hp', hfields]⟩

theorem EmevdTagged.parameters_nodup : (t.parameters event).Nodup :=
  List.nodup_range.filter _

theorem EmevdFollows.removeParameter (h : EmevdFollows event t e1) (atIndex : Nat) (heap : Heap) :
    Post (emevdEventRemoveParameterAt e1 atIndex) heap fun e2 _ =>
      EmevdFollows event (t.step event (.removeParameterAt atIndex)) e2 := by
  intro e2 heap' hrun
  obtain ⟨_, h1, hat, hrun⟩ := bind_eq_ok.1 hrun
  cases hrun
  have hlt : atIndex < (t.parameters event).length := by
    rw [check_run] at hat
    split at hat
    next hlt => rwa [h.parameters.length_eq]
    · cases hat
  let t' := t.step event (.removeParameterAt atIndex)
  have hparams : t'.parameters event = (t.parameters event).eraseIdx atIndex := by
    have hnodup : (t.parameters event).Nodup := t.parameters_nodup
    have hdropped : t'.dropped = t.dropped ++ [(t.parameters event)[atIndex]] := by
      simp only [t', EmevdTagged.step, List.getElem?_eq_getElem hlt, Option.toList_some]
    have hids : t'.ids = t.ids := rfl
    rw [← hnodup.erase_getElem atIndex hlt, hnodup.erase_eq_filter]
    generalize (t.parameters event)[atIndex] = gone at hdropped ⊢
    unfold EmevdTagged.parameters
    rw [List.filter_filter, hdropped, hids]
    refine List.filter_congr fun k _ => ?_
    rw [← Bool.decide_coe (k != gone), ← Bool.decide_and, decide_eq_decide, List.mem_append,
      List.mem_singleton, bne_iff_ne]
    tauto
  refine ⟨h.instructions, h.nodup, h.fresh, h.start, ?_⟩
  rw [hparams]
  exact (forall₂_eraseIdx h.parameters atIndex).imp fun k p hp => ⟨hp.denotes, hp.fields⟩

theorem EmevdFollows.clear (h : EmevdFollows event t e1) (heap : Heap) :
    Post (emevdEventClearParameters e1) heap fun e2 _ =>
      EmevdFollows event (t.step event .clearParameters) e2 := by
  intro e2 heap' hrun
  cases hrun
  have hparams : (t.step event .clearParameters).parameters event = [] := by
    refine List.filter_eq_nil_iff.2 fun k hk hcon => ?_
    obtain ⟨hdropped, htarget⟩ := of_decide_eq_true hcon
    refine hdropped (List.mem_append_right _ (List.mem_filter.2 ⟨hk, decide_eq_true ⟨?_, htarget⟩⟩))
    exact fun hin => hdropped (List.mem_append_left _ hin)
  refine ⟨h.instructions, h.nodup, h.fresh, h.start, ?_⟩
  rw [hparams]
  exact .nil

end Step

/-! ## Any sequence of edits -/

theorem emevdFollows_tag (event : EmevdEvent) : EmevdFollows event (emevdTag event) event := by
  have hids : (emevdTag event).ids = List.range event.instructions.length :=
    List.map_fst_zip (by simp)
  have hparams : (emevdTag event).parameters event = List.range event.parameters.length := by
    refine List.filter_eq_self.2 fun k _ => decide_eq_true ⟨List.not_mem_nil, fun x hx => ?_⟩
    rw [hids, List.mem_range]
    exact emevdTarget_lt hx
  refine ⟨(List.map_snd_zip (by simp)).symm, by rw [hids]; exact List.nodup_range, ?_, le_rfl, ?_⟩
  · intro x hx
    rw [hids, List.mem_range] at hx
    exact hx
  · rw [hparams, List.forall₂_iff_get]
    refine ⟨List.length_range, fun k hk hk' => ?_⟩
    simp only [List.get_eq_getElem, List.getElem_range]
    have hget : event.parameters[k]? = some event.parameters[k] := List.getElem?_eq_getElem hk'
    refine ⟨?_, event.parameters[k], hget, rfl⟩
    rw [hids, emevdTarget, hget, Option.bind_some]

theorem EmevdFollows.step {event e1 : EmevdEvent} {t : EmevdTagged} (h : EmevdFollows event t e1)
    (edit : EmevdEdit) (heap : Heap) :
    Post (edit.run e1) heap fun e2 _ => EmevdFollows event (t.step event edit) e2 := by
  rcases edit with ⟨atIndex, bank, id, argData⟩ | ⟨atIndex, bank, id, argData⟩ | atIndex | atIndex | _
  · exact h.insert atIndex bank id argData heap
  · exact h.replace atIndex bank id argData heap
  · exact h.remove atIndex heap
  · exact h.removeParameter atIndex heap
  · exact h.clear heap

theorem EmevdFollows.run {event e1 : EmevdEvent} {t : EmevdTagged} (h : EmevdFollows event t e1)
    (edits : List EmevdEdit) (heap : Heap) :
    Post (emevdRunEdits edits e1) heap fun e2 _ =>
      EmevdFollows event (edits.foldl (EmevdTagged.step event) t) e2 := by
  induction edits generalizing e1 t heap with
  | nil => exact Post.pure h
  | cons edit edits ih => exact (h.step edit heap).bind fun e2 heap' h2 => ih h2 heap'

/-! ## Indices that cannot be incremented -/

/-- No index that the call increments is `INT64_MAX`. -/
def EmevdEdit.Shifts (event : EmevdEvent) : EmevdEdit → Prop
  | .insertInstruction atIndex _ _ _ => ∀ p ∈ event.parameters,
      0 ≤ p.instructionIndex ∧ atIndex ≤ p.instructionIndex.toInt.toNat → p.instructionIndex.toInt ≠ INT64_MAX
  | _ => True

instance (event : EmevdEvent) : (edit : EmevdEdit) → Decidable (edit.Shifts event)
  | .insertInstruction _ _ _ _ => inferInstanceAs (Decidable (∀ _ ∈ _, _))
  | .replaceInstruction .. | .removeInstructionAt _ | .removeParameterAt _ | .clearParameters =>
    inferInstanceAs (Decidable True)

/-- No call of the sequence increments an index that is `INT64_MAX` in the event it is made on. -/
def emevdShiftsThroughout : List EmevdEdit → EmevdEvent → Heap → Bool
  | [], _, _ => true
  | edit :: edits, event, heap =>
    decide (edit.Shifts event) && match edit.run event heap with
      | (.ok event', heap') => emevdShiftsThroughout edits event' heap'
      | (.error _, _) => true

/-- The loop overflows exactly where an index behind the insertion is the greatest one. -/
theorem emevdShiftParameterIndicesAfterInsert_overflows_iff {atIndex : Nat} {ps : List EmevdParameter} {e : SfError} :
    emevdShiftParameterIndicesAfterInsert atIndex ps = .error e ↔ e = .undefinedBehaviour ∧
      ∃ p ∈ ps, (0 ≤ p.instructionIndex ∧ atIndex ≤ p.instructionIndex.toInt.toNat) ∧
        p.instructionIndex.toInt = INT64_MAX := by
  induction ps with
  | nil => simp [emevdShiftParameterIndicesAfterInsert]
  | cons p ps ih =>
      have hrest : ∀ f : List EmevdParameter → List EmevdParameter,
          ((do
            let shifted ← emevdShiftParameterIndicesAfterInsert atIndex ps
            pure (f shifted)) = .error e ↔ emevdShiftParameterIndicesAfterInsert atIndex ps = .error e) := by
        intro f
        rcases emevdShiftParameterIndicesAfterInsert atIndex ps with d | shifted
        · exact Iff.rfl
        · simp only [reduceCtorEq, iff_false]
          rintro ⟨⟩
      rw [emevdShiftParameterIndicesAfterInsert, List.exists_mem_cons_iff]
      split
      · next hmoved =>
          split
          · next hmax =>
              constructor
              · rintro ⟨⟩
                exact ⟨rfl, .inl ⟨hmoved, hmax⟩⟩
              · rintro ⟨rfl, -⟩
                rfl
          · next hmax =>
              refine (hrest _).trans (ih.trans (and_congr_right fun _ => ?_))
              exact (or_iff_right fun h => hmax h.2).symm
      · next hkept =>
          refine (hrest _).trans (ih.trans (and_congr_right fun _ => ?_))
          exact (or_iff_right fun h => hkept h.1).symm

/-- A call is defined if it increments no index that is the greatest one. -/
theorem EmevdEdit.run_avoids {event : EmevdEvent} {edit : EmevdEdit} (h : edit.Shifts event) (heap : Heap) :
    Avoids .undefinedBehaviour (edit.run event) heap := by
  have hinit : ∀ bank id argData, Never .undefinedBehaviour (emevdInstructionInit bank id argData) :=
    fun _ _ _ => Never.ite (fun _ => Heap.never_alloc.bind fun _ => Never.pure _) fun _ => Never.pure _
  cases edit with
  | insertInstruction atIndex bank id argData =>
      have hmul : ∀ count size, Never .undefinedBehaviour (emevdMulCount count size) := fun _ _ =>
        (Never.check (by decide)).bind fun _ => Never.pure _
      have hlift : Never .undefinedBehaviour
          (lift (σ := Heap) (emevdShiftParameterIndicesAfterInsert atIndex event.parameters)) := by
        intro heap' hrun
        obtain ⟨-, p, hp, hmoved, hmax⟩ := emevdShiftParameterIndicesAfterInsert_overflows_iff.1 hrun
        exact h p hp hmoved hmax
      exact ((Never.check (by decide)).bind fun _ => (Never.check (by decide)).bind fun _ => (hmul _ _).bind fun _ =>
        (hmul _ _).bind fun _ => Heap.never_alloc.bind fun _ => (hinit _ _ _).bind fun _ => hlift.bind fun _ =>
        Never.pure _) heap
  | replaceInstruction atIndex bank id argData =>
      exact ((Never.check (by decide)).bind fun _ => (hinit _ _ _).bind fun _ => Never.pure _) heap
  | removeInstructionAt atIndex => exact ((Never.check (by decide)).bind fun _ => Never.pure _) heap
  | removeParameterAt atIndex => exact ((Never.check (by decide)).bind fun _ => Never.pure _) heap
  | clearParameters => exact avoids_pure _

/-- An insertion that is carried out as far as to the indices is undefined if one of them is the greatest one. -/
theorem EmevdEdit.run_overflows {event : EmevdEvent} {atIndex : Nat} {bank id : Int32} {argData : List UInt8} {heap : Heap}
    (hcalm : heap.Calm) (hat : atIndex ≤ event.instructions.length)
    (hsize : event.instructions.length < SIZE_MAX / emevdEntrySize)
    (h : ¬ EmevdEdit.Shifts event (.insertInstruction atIndex bank id argData)) :
    ((EmevdEdit.insertInstruction atIndex bank id argData).run event heap).1 = .error .undefinedBehaviour := by
  have hconst : SIZE_MAX / emevdEntrySize < SIZE_MAX := by decide
  have hmul : ∀ count ≤ SIZE_MAX / emevdEntrySize, ∀ heap,
      emevdMulCount count emevdEntrySize heap = (.ok (count * emevdEntrySize), heap) := fun count hcount heap =>
    check_bind_pos hcount _ _ _
  obtain ⟨junk, h1, halloc, hcalm1⟩ := Heap.alloc_calm hcalm
  obtain ⟨instr, h2, hinit⟩ : ∃ instr h2, emevdInstructionInit bank id argData h1 = (.ok instr, h2) := by
    unfold emevdInstructionInit
    split
    · obtain ⟨junk, h2, halloc, -⟩ := Heap.alloc_calm hcalm1
      exact ⟨_, h2, bind_ok halloc _⟩
    · exact ⟨_, h1, rfl⟩
  have hshift : emevdShiftParameterIndicesAfterInsert atIndex event.parameters = .error .undefinedBehaviour := by
    refine emevdShiftParameterIndicesAfterInsert_overflows_iff.2 ⟨rfl, ?_⟩
    simp only [EmevdEdit.Shifts] at h
    push Not at h
    exact h
  show (emevdEventInsertInstruction event atIndex bank id argData heap).1 = _
  rw [emevdEventInsertInstruction, check_bind_pos hat, check_bind_pos (by omega), bind_ok (hmul _ (by omega) _),
    bind_ok (hmul _ (by omega) _), bind_ok halloc, bind_ok hinit, hshift]
  rfl

theorem emevdRunEdits_avoids {edits : List EmevdEdit} {event : EmevdEvent} {heap : Heap}
    (h : emevdShiftsThroughout edits event heap = true) : Avoids .undefinedBehaviour (emevdRunEdits edits event) heap := by
  induction edits generalizing event heap with
  | nil => exact avoids_pure _
  | cons edit edits ih =>
      rw [emevdShiftsThroughout, Bool.and_eq_true] at h
      refine avoids_bind.2 ⟨EmevdEdit.run_avoids (of_decide_eq_true h.1) heap, fun event' heap' hrun => ih ?_⟩
      have hrest := h.2
      rw [hrun] at hrest
      exact hrest

theorem emevdShiftsThroughout_append {before after : List EmevdEdit} {event : EmevdEvent} {heap : Heap}
    (h : emevdShiftsThroughout (before ++ after) event heap = true) : emevdShiftsThroughout before event heap = true := by
  induction before generalizing event heap with
  | nil => rfl
  | cons edit before ih =>
      rw [List.cons_append, emevdShiftsThroughout, Bool.and_eq_true] at h
      rw [emevdShiftsThroughout, Bool.and_eq_true]
      refine ⟨h.1, ?_⟩
      have hrest := h.2
      rcases hrun : edit.run event heap with ⟨e | event', heap'⟩
      · rfl
      · rw [hrun] at hrest
        exact ih hrest

/-- What is asked of a run: it is defined, and in the event it ends with, what is left of the parameters are, in order
    and with their other fields, those that were not taken away by name and whose instruction is still there, and each
    index denotes the instruction it denoted at the start — by the identity it carries — or nothing, if it denoted
    nothing then. -/
structure EmevdParametersFollow (event : EmevdEvent) (edits : List EmevdEdit) (heap : Heap) : Prop where
  defined : (emevdRunEdits edits event heap).1 ≠ .error .undefinedBehaviour
  follow : ∀ event' heap', emevdRunEdits edits event heap = (.ok event', heap') →
    let t := edits.foldl (EmevdTagged.step event) (emevdTag event)
    event'.instructions = t.instructions.map Prod.snd ∧ t.ids.Nodup ∧
      List.Forall₂ (EmevdFollowed event t) (t.parameters event) event'.parameters

/-- **The parameters follow their instructions** through any sequence of edits, up to each of its calls, if no call
    increments an index that is the greatest one. -/
theorem emevd_parameters_follow (event : EmevdEvent) (edits : List EmevdEdit) (heap : Heap)
    (hshifts : emevdShiftsThroughout edits event heap = true) :
    ∀ before, before <+: edits → EmevdParametersFollow event before heap := by
  rintro before ⟨after, rfl⟩
  refine ⟨emevdRunEdits_avoids (emevdShiftsThroughout_append hshifts), fun event' heap' hrun => ?_⟩
  have h := (emevdFollows_tag event).run before heap _ _ hrun
  exact ⟨h.instructions, h.nodup, h.parameters⟩

/-- Two instructions, with parameters that point at the second, at the first, and nowhere. -/
def emevdEditSample : EmevdEvent :=
  { id := 50, restBehavior := .default
    instructions := [⟨2000, 1, [1, 0, 0, 0], none⟩, ⟨2001, 4, [], some 3⟩]
    parameters := [⟨1, 0, 0, 4, 0⟩, ⟨0, 0, 4, 4, 1⟩, ⟨1, 4, 8, 1, 2⟩, ⟨2, 0, 0, 1, 3⟩, ⟨-1, 0, 0, 1, 4⟩] }

/-- An insertion in front, a replacement, the removal of the instruction that was the first, and the
    removal of a parameter. -/
def emevdSampleEdits : List EmevdEdit :=
  [.insertInstruction 0 3 4 [9], .replaceInstruction 2 5 6 [], .removeInstructionAt 1,
   .removeParameterAt 0]

theorem emevd_sample_parameters_follow :
    ∃ event', emevdRunEdits emevdSampleEdits emevdEditSample [] = (.ok event', []) ∧
      event'.parameters = [⟨1, 4, 8, 1, 2⟩, ⟨2, 0, 0, 1, 3⟩, ⟨-1, 0, 0, 1, 4⟩] ∧
      List.Forall₂ (EmevdFollowed emevdEditSample
        (emevdSampleEdits.foldl (EmevdTagged.step emevdEditSample) (emevdTag emevdEditSample)))
        [2, 3, 4] event'.parameters := by
  obtain ⟨event', hrun, hparams⟩ : ∃ event',
      emevdRunEdits emevdSampleEdits emevdEditSample [] = (.ok event', []) ∧
        event'.parameters = [⟨1, 4, 8, 1, 2⟩, ⟨2, 0, 0, 1, 3⟩, ⟨-1, 0, 0, 1, 4⟩] :=
    ⟨_, rfl, by decide⟩
  have hfollow := (emevd_parameters_follow emevdEditSample emevdSampleEdits [] (by decide) emevdSampleEdits
    (List.prefix_refl _)).follow event' [] hrun
  exact ⟨event', hrun, hparams, hfollow.2.2⟩

/-- One instruction, and a parameter with the greatest index there is. -/
def emevdMaxIndexSample : EmevdEvent :=
  { emevdEditSample with
    instructions := [⟨2000, 1, [1, 0, 0, 0], none⟩]
    parameters := [⟨Int64.ofNat (2 ^ 63 - 1), 0, 0, 4, 0⟩] }

/-- An insertion in front increments it. -/
theorem emevd_max_index_does_not_follow :
    ¬ EmevdParametersFollow emevdMaxIndexSample [.insertInstruction 0 3 4 [9]] [] :=
  fun h => h.defined (by decide)

end SoulsFormats
