import SoulsFormats.Param.Param

set_option autoImplicit false

/-! # Operations on rows

The model of what changes the rows of a parameter: a description is applied, a row is added, cells are set and
rows are copied. An operation that fails leaves the parameter as it is at that point. -/

namespace SoulsFormats

open Bytes Fallible

/-- A parameter, the layout that the description at hand keeps, and the allocator. -/
structure RowState where
  param : Param
  layoutCache : Option FieldLayout
  heap : Heap

abbrev RowM := Fallible RowState SfError

/-- A computation that only asks the allocator. -/
def onAllocator {α : Type} (m : Fallible Heap SfError α) : RowM α :=
  zoom RowState.heap (fun h s => { s with heap := h }) m

/-- A change of the parameter. -/
def updateParam (f : Param → Param) : RowM Unit := update fun s => { s with param := f s.param }

@[simp] theorem updateParam_run (f : Param → Param) (s : RowState) :
    updateParam f s = (.ok (), { s with param := f s.param }) := rfl

@[simp] theorem updateParam_bind_run {α : Type} (f : Param → Param) (g : Unit → RowM α) (s : RowState) :
    (updateParam f >>= g) s = g () { s with param := f s.param } := rfl

/-! ## Applying a description -/

section Applying

variable (os : Win32)

/-- A row without data, which no description is applied to. -/
def ParamRow.isEmpty (row : ParamRow) : Bool := row.dataOffset = 0 && row.data.length = 0

/-- `get_field_layout`. -/
def getFieldLayout (d : Paramdef) : RowM FieldLayout := do
  let s ← state
  match s.layoutCache with
  | some layout => pure layout
  | none => do
    let layout ← onAllocator (buildFieldLayout d)
    update fun s => { s with layoutCache := some layout }
    pure layout

/-- A row gets new cells, or loses those that it has. -/
def Param.setApplied (i : Nat) (applied : Option AppliedCells) (p : Param) : Param :=
  { p with rows := p.rows.modify i fun row => { row with applied := applied } }

/-- The cells of a row, and the block for them. -/
def newCells (bigEndian : Bool) (i : Nat) (data : List UInt8) (layout : FieldLayout) :
    Fallible Heap SfError (List ParamCell) := do
  given (0 < layout.entries.length) () do
    let _ ← Heap.alloc
    pure ()
  readCells os bigEndian i data layout

/-- `sfi_param_apply_paramdef_to_row`, with the row given by its index. -/
def applyParamdefToRow (d : Paramdef) (i : Nat) : RowM Unit := do
  let s ← state
  match s.param.rows[i]? with
  | none => fail .undefinedBehaviour
  | some row =>
    if row.isEmpty then pure ()
    else do
      let layout ← getFieldLayout d
      updateParam (Param.setApplied i none)
      let cells ← onAllocator (newCells os s.param.bigEndian i row.data layout)
      updateParam (Param.setApplied i (some ⟨cells, layout.rowDataSize⟩))

/-- `populate_all_cells`. -/
def populateAllCells (d : Paramdef) : RowM Unit := do
  let s ← state
  forIndexed (fun i _ => applyParamdefToRow os d i) 0 s.param.rows

/-- `param_type_matches`. -/
def paramTypeMatches (p : Param) (d : Paramdef) : Bool := cText p.paramType = cText d.paramType

/-- `data_version_matches`. -/
def dataVersionMatches (p : Param) (d : Paramdef) : Bool := p.paramdefDataVersion = d.dataVersion

/-- The checks of `sf_param_apply_mode_t`. -/
def modeAccepts (p : Param) (d : Paramdef) : Nat → Except SfError Unit
  -- SF_PARAM_APPLY_UNCONDITIONAL
  | 0 => .ok ()
  -- SF_PARAM_APPLY_SOMEWHAT_CAREFUL
  | 1 =>
    if !(cText p.paramType = [] || paramTypeMatches p d) then .error .notFound
    else if !(p.headerlessRows || dataVersionMatches p d) then .error .notFound
    else .ok ()
  -- SF_PARAM_APPLY_CAREFUL
  | 2 =>
    if !paramTypeMatches p d then .error .notFound
    else if !dataVersionMatches p d then .error .notFound
    else if !detectedSizeMatches p.detectedSize d.rowSize then .error .notFound
    else .ok ()
  | _ => .error .invalidArg

/-- `sf_param_apply_paramdef`. -/
def applyParamdef (d : Paramdef) (mode : Nat) : RowM Unit := do
  let s ← state
  lift (modeAccepts s.param d mode)
  populateAllCells os d
  updateParam fun p => { p with appliedParamdef := some d }

end Applying

/-! ## Adding a row -/

section Adding

variable (os : Win32)

/-- The size of a new row: that of the rows of the file, or the one that the description says. -/
def newRowSize (p : Param) (d : Paramdef) : Except SfError Nat :=
  if 0 < p.detectedSize.toInt then
    if INT32_MAX < p.detectedSize.toInt then .error .outOfRange else .ok p.detectedSize.toInt.toNat
  else if d.rowSize.toInt ≤ 0 then .error .invalidState
  else .ok d.rowSize.toInt.toNat

/-- The size of a row in memory. -/
def paramRowStructSize : Nat := 72

/-- What is checked and asked for before a row is added: the description, and the new row. -/
def prepareRow (id : Int32) (name : Option (List UInt8)) : RowM (Paramdef × ParamRow) := do
  let s ← state
  match s.param.appliedParamdef with
  | none => fail .invalidState
  | some d => do
    let rowSize ← lift (newRowSize s.param d)
    let existingDataSize := (s.param.rows.map fun row => row.data.length).sum
    check (existingDataSize ≤ SIZE_MAX) .outOfRange
    check (existingDataSize + rowSize ≤ SIZE_MAX) .outOfRange
    check (s.param.rows.length ≤ SIZE_MAX / paramRowStructSize - 1) .outOfRange
    given name.isSome () do
      let _ ← onAllocator Heap.alloc
      pure ()
    let _ ← onAllocator Heap.alloc
    let _ ← onAllocator Heap.alloc
    pure (d, { id := id, dataOffset := Int64.ofNat existingDataSize, data := List.replicate rowSize 0, name := name })

/-- `repair_cell_parent_links`. -/
def repairCellParentLinks (rows : List ParamRow) : List ParamRow :=
  rows.mapIdx fun i row => { row with
    applied := row.applied.map fun applied =>
      { applied with cells := applied.cells.map fun cell => { cell with parentRow := i } } }

/-- The parameter with a row more. -/
def Param.installRow (row : ParamRow) (p : Param) : Param :=
  { p with
    rows := repairCellParentLinks (p.rows ++ [row])
    detectedSize := if p.detectedSize = -1 then Int64.ofNat row.data.length else p.detectedSize }

/-- `sf_param_add_row_by_id`, with the layout that the applied description keeps. -/
def addRowById (id : Int32) (name : Option (List UInt8)) : RowM Unit := do
  let (d, row) ← prepareRow id name
  let s ← state
  updateParam (Param.installRow row)
  applyParamdefToRow os d s.param.rows.length

end Adding

end SoulsFormats
