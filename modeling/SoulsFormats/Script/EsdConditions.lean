import SoulsFormats.Core.Result
import SoulsFormats.Library.Descent

set_option autoImplicit false

/-! # Conditions of ESD state machines

The model of how `esd.c` expands a condition: the records of a file are linked by their offsets, and
`esd_clone_condition` copies a record with all that is linked below it into a tree. Allocations succeed. -/

namespace SoulsFormats

/-- `sf_esd_command_call`. -/
structure EsdCommandCall where
  bank : Int32
  id : Int32
  args : List (List UInt8)
deriving DecidableEq

/-- `sf_esd_condition`: the target, the commands, the conditions below and the evaluator. -/
inductive EsdCondition where
  | mk (targetState : Int64) (passCmds : List EsdCommandCall) (subconditions : List EsdCondition)
      (evaluator : List UInt8)

/-- `esd_tmp_condition_t`: a record, with the offset that it stands at. -/
structure EsdTmpCondition where
  offset : Int64
  rawStateOffset : Int64
  rawSubconditionOffsets : List Int64
  passCmds : List EsdCommandCall
  evaluator : List UInt8
deriving DecidableEq

/-- The records of a file; they are counted in an `int32_t`. -/
structure EsdConditionTable where
  records : List EsdTmpCondition
  distinct : (records.map (·.offset)).Nodup
  fits : records.length ≤ INT32_MAX

/-- `esd_find_condition`. -/
def esdFindCondition (conditions : List EsdTmpCondition) (offset : Int64) : Option EsdTmpCondition :=
  conditions.find? (·.offset == offset)

/-- `esd_group_offset_to_id`, over the offsets and the ids of a group's states. -/
def esdGroupOffsetToId (groupStates : List (Int64 × Int64)) (offset : Int64) : Option Int64 :=
  (groupStates.find? (·.1 == offset)).map (·.2)

/-- The target of a record: `-1` is none. -/
def esdTargetState (groupStates : List (Int64 × Int64)) (src : EsdTmpCondition) : Option Int64 :=
  if src.rawStateOffset = -1 then some (-1) else esdGroupOffsetToId groupStates src.rawStateOffset

/-- `esd_clone_command_call`. -/
def esdCloneCommandCall (src : EsdCommandCall) : EsdCommandCall := { bank := src.bank, id := src.id, args := src.args }

/-- `esd_clone_command_list`. -/
def esdCloneCommandList (src : List EsdCommandCall) : List EsdCommandCall := src.map esdCloneCommandCall

section

variable (conditions : List EsdTmpCondition) (groupStates : List (Int64 × Int64))

/-- `esd_clone_condition`. The depth is an `int32_t`, which is counted up for the conditions below. -/
def esdCloneCondition : Nat → Int64 → Nat → Except SfError EsdCondition
  | 0, _, _ => .error .nonTermination
  | fuel + 1, rawOffset, depth =>
    if conditions.length < depth then .error .internal
    else
      match esdFindCondition conditions rawOffset with
      | none => .error .notFound
      | some src =>
        match esdTargetState groupStates src with
        | none => .error .notFound
        | some target => do
          let subconditions ← src.rawSubconditionOffsets.mapM fun offset =>
            if depth = INT32_MAX then .error .undefinedBehaviour else esdCloneCondition fuel offset (depth + 1)
          pure (.mk target (esdCloneCommandList src.passCmds) subconditions src.evaluator)

/-! ## The graph of the records -/

/-- A record is linked below another. -/
def EsdLinks (a b : Int64) : Prop := ∃ src, esdFindCondition conditions a = some src ∧ b ∈ src.rawSubconditionOffsets

/-- A record is found, and its target too. -/
def EsdResolves (a : Int64) : Prop :=
  ∃ src, esdFindCondition conditions a = some src ∧ (esdTargetState groupStates src).isSome

/-- All that is reached is resolved, and nothing of it is below itself. -/
def EsdExpandable (start : Int64) : Prop :=
  (∀ a, Relation.ReflTransGen (EsdLinks conditions) start a → EsdResolves conditions groupStates a) ∧
    ¬ ∃ a, Relation.ReflTransGen (EsdLinks conditions) start a ∧ Relation.TransGen (EsdLinks conditions) a a

/-- A tree is the unfolding of the graph from a record. -/
inductive EsdUnfolds : Int64 → EsdCondition → Prop
  | node {a target : Int64} {src : EsdTmpCondition} {subconditions : List EsdCondition}
      (record : esdFindCondition conditions a = some src) (targetState : esdTargetState groupStates src = some target)
      (below : List.Forall₂ EsdUnfolds src.rawSubconditionOffsets subconditions) :
      EsdUnfolds a (.mk target src.passCmds subconditions src.evaluator)

/-- What the copy of a condition goes through: a record with its links, if the target is found. -/
def esdDescent : Descent Int64 where
  enter a :=
    match esdFindCondition conditions a with
    | none => none
    | some src => (esdTargetState groupStates src).map fun _ => src.rawSubconditionOffsets
  leave _ := true

/-- The copy of a condition goes down into a cycle: each step is a link before which all the links of the record
    lead to conditions that can be expanded. -/
def EsdRunsIntoCycle (start : Int64) : Prop := RunsIntoCycle (esdDescent conditions groupStates).Enters start

end

end SoulsFormats
