import SoulsFormats.Library.Maintains
import SoulsFormats.Core.Tables
import SoulsFormats.Param.CellSetters
import SoulsFormats.Param.FailedOperations

set_option autoImplicit false

/-! # Parent links

A cell leads back to its row by a pointer into the array of the rows, and the setters write where it leads. Every
operation gives new cells the right link and none moves a row, except `sf_param_sort_rows_by_id`: it moves the rows with
their cells and leaves the links as they are. -/

namespace SoulsFormats

open Bytes Fallible BinaryReader

/-! ## Sorting -/

/-- `param_row_cmp`. -/
def paramRowCmp (a b : ParamRow) : Int := if a.id < b.id then -1 else if b.id < a.id then 1 else 0

/-- `sf_param_sort_rows_by_id`. -/
def sortRowsById (qs : Qsort) : RowM Unit := do
  let s ← state
  given (1 < s.param.rows.length) () (updateParam fun p => { p with rows := qs.sort paramRowCmp p.rows })

/-! ## Setting wide texts -/

/-- What `sf_param_cell_set_fixstr_w` keeps of a unit. -/
def utf8OfUnit (u : UInt16) : List UInt8 :=
  if u ≤ 0x7F then [u.toUInt8]
  else if u ≤ 0x7FF then [(0xC0 : UInt8) ||| (u >>> 6 &&& 0x1F).toUInt8, (0x80 : UInt8) ||| (u &&& 0x3F).toUInt8]
  else [(0xE0 : UInt8) ||| (u >>> 12 &&& 0x0F).toUInt8, (0x80 : UInt8) ||| (u >>> 6 &&& 0x3F).toUInt8,
    (0x80 : UInt8) ||| (u &&& 0x3F).toUInt8]

/-- `sf_param_cell_set_fixstr_w`: the units are stored in little-endian order, whatever that of the file is, and twice
    the size of the cell is cleared. -/
def setFixstrW (r c : Nat) (units : List UInt16) : RowM Unit := do
  let cell ← findCell r c
  check (cell.value.kind = .fixstrW) .invalidArg
  let capacity := cellDeclaredSize cell
  check (capacity ≠ 0) .invalidArg
  check (units.length ≤ capacity) .outOfRange
  let s ← state
  let data ← lift (checkCellBacking s.param cell (capacity * 2))
  let data ← lift (fillBytes data cell.byteOffset (capacity * 2) (units.flatMap fun u => leBytes 2 u.toNat))
  updateParam (Param.setRowData cell.parentRow data)
  newBlock (units.length * 4 + 1)
  updateParam (Param.setCellValue r c (.fixstrW (units.flatMap utf8OfUnit)))

/-! ## Calls -/

/-- A call of a setter, or of `sf_param_cell_copy` with a value to copy. -/
inductive CellSetting where
  | s8 (v : Int8) | u8 (v : UInt8) | s16 (v : Int16) | u16 (v : UInt16) | s32 (v : Int32) | u32 (v : UInt32)
  | s64 (v : Int64) | u64 (v : UInt64) | f32 (v : UInt32) | angle32 (v : UInt32) | f64 (v : UInt64) | bool (v : Bool)
  | bytes (bytes : List UInt8) | fixstr (text : List UInt8) | fixstrW (units : List UInt16)
  | copy (value : ParamCellValue)

def CellSetting.run (r c : Nat) : CellSetting → RowM Unit
  | .s8 v => setS8 r c v
  | .u8 v => setU8 r c v
  | .s16 v => setS16 r c v
  | .u16 v => setU16 r c v
  | .s32 v => setS32 r c v
  | .u32 v => setU32 r c v
  | .s64 v => setS64 r c v
  | .u64 v => setU64 r c v
  | .f32 v => setF32 r c v
  | .angle32 v => setAngle32 r c v
  | .f64 v => setF64 r c v
  | .bool v => setBool r c v
  | .bytes data => setBytes r c data
  | .fixstr text => setFixstr r c text
  | .fixstrW units => setFixstrW r c units
  | .copy value => cellCopy r c value

/-- What changes a parameter. -/
inductive ParamCall where
  | applyParamdef (d : Paramdef) (mode : Nat)
  | addRowById (id : Int32) (name : Option (List UInt8))
  | sortRowsById
  | rowCopy (dst src : Nat)
  | set (r c : Nat) (setting : CellSetting)

def ParamCall.run (os : Win32) (qs : Qsort) : ParamCall → RowM Unit
  | .applyParamdef d mode => SoulsFormats.applyParamdef os d mode
  | .addRowById id name => SoulsFormats.addRowById os id name
  | .sortRowsById => SoulsFormats.sortRowsById qs
  | .rowCopy dst src => SoulsFormats.rowCopy dst src
  | .set r c setting => setting.run r c

/-! ## Links -/

/-- Every cell leads to the row that has it. -/
def Param.Linked (p : Param) : Prop :=
  ∀ (i : Nat) (row : ParamRow), p.rows[i]? = some row → ∀ cell ∈ row.cells, cell.parentRow = i

/-- Sorting leaves the rows with cells where they are. -/
def Param.StaysInPlace (qs : Qsort) (p : Param) : Prop :=
  ∀ (i : Nat) (row : ParamRow), (qs.sort paramRowCmp p.rows)[i]? = some row → row.cells ≠ [] → p.rows[i]? = some row

/-- The call is not a sort that moves a row with cells. -/
def ParamCall.KeepsPlaces (qs : Qsort) (p : Param) : ParamCall → Prop
  | .sortRowsById => p.StaysInPlace qs
  | _ => True

/-- What becomes of a parameter that was read, by calls that leave the rows in their places. They may succeed or fail;
    the allocator answers as it likes, and the description may keep a layout or not. -/
inductive ParamRun (os : Win32) (qs : Qsort) : Param → Prop
  | read {data : List UInt8} {flexible : Bool} {heap : Heap} {p : Param}
      (hread : (paramReadFromMemory os flexible data heap).1 = .ok p) : ParamRun os qs p
  | call {p : Param} (hp : ParamRun os qs p) (call : ParamCall) (cache : Option FieldLayout) (heap : Heap)
      (hplaces : call.KeepsPlaces qs p) : ParamRun os qs (call.run os qs ⟨p, cache, heap⟩).2.param

section Links

variable {p p0 : Param} {r : Nat}

theorem ParamRow.cells_of_applied {row : ParamRow} {applied : AppliedCells} (h : row.applied = some applied) :
    row.cells = applied.cells := by
  rw [cells, h]

theorem Param.linked_of_no_cells (h : ∀ row ∈ p.rows, row.applied = none) : p.Linked := by
  intro i row hrow cell hcell
  rw [ParamRow.cells, h row (List.mem_of_getElem? hrow)] at hcell
  exact absurd hcell List.not_mem_nil

/-- A row is changed: the others stay as they are. -/
theorem Param.Linked.modify (h : p.Linked) {f : ParamRow → ParamRow} (i : Nat)
    (hf : ∀ row, p.rows[i]? = some row → ∀ cell ∈ (f row).cells, cell.parentRow = i) :
    ({ p with rows := p.rows.modify i f } : Param).Linked := by
  intro j row hrow cell hcell
  have hrow : (p.rows.modify i f)[j]? = some row := hrow
  by_cases hij : i = j
  · subst hij
    rw [List.getElem?_modify_eq] at hrow
    obtain ⟨row0, hrow0, rfl⟩ := Option.map_eq_some_iff.1 hrow
    exact hf row0 hrow0 cell hcell
  · rw [List.getElem?_modify_ne _ _ hij] at hrow
    exact h j row hrow cell hcell

theorem Param.Linked.setRowData (h : p.Linked) (i : Nat) (data : List UInt8) : (p.setRowData i data).Linked :=
  h.modify i fun row hrow cell hcell => h i row hrow cell hcell

theorem Param.Linked.setCellValue (h : p.Linked) (i c : Nat) (value : ParamCellValue) : (p.setCellValue i c value).Linked := by
  refine h.modify i fun row hrow cell hcell => ?_
  rcases happlied : row.applied with _ | applied
  · simp [ParamRow.cells, happlied] at hcell
  · have hcells : ∀ cell ∈ applied.cells, cell.parentRow = i := fun cell hcell =>
      h i row hrow cell (by rwa [ParamRow.cells_of_applied happlied])
    rw [happlied] at hcell
    obtain ⟨k, hk⟩ := List.mem_iff_getElem?.1 hcell
    have hk : (applied.cells.modify c fun cell => { cell with value := value })[k]? = some cell := hk
    rw [List.getElem?_modify] at hk
    obtain ⟨old, hold, rfl⟩ := Option.map_eq_some_iff.1 hk
    have hlink := hcells old (List.mem_of_getElem? hold)
    split <;> exact hlink

theorem Param.Linked.setApplied (h : p.Linked) (i : Nat) (applied : Option AppliedCells)
    (hcells : ∀ a, applied = some a → ∀ cell ∈ a.cells, cell.parentRow = i) : (p.setApplied i applied).Linked := by
  refine h.modify i fun row _ cell hcell => ?_
  rcases applied with _ | a
  · exact absurd hcell List.not_mem_nil
  · exact hcells a rfl cell hcell

/-- A new array of rows gets all its links anew. -/
theorem Param.linked_installRow (row : ParamRow) (p : Param) : (p.installRow row).Linked := by
  intro i row' hrow cell hcell
  have hrow : (repairCellParentLinks (p.rows ++ [row]))[i]? = some row' := hrow
  rw [repairCellParentLinks, List.getElem?_mapIdx] at hrow
  obtain ⟨old, -, rfl⟩ := Option.map_eq_some_iff.1 hrow
  rcases happlied : old.applied with _ | a
  · simp [ParamRow.cells, happlied] at hcell
  · simp only [ParamRow.cells, happlied, Option.map_some, List.mem_map] at hcell
    obtain ⟨_, -, rfl⟩ := hcell
    rfl

/-- **A sort leaves the links right exactly if it leaves the rows with cells in their places.** -/
theorem Param.linked_sorted_iff (qs : Qsort) (h : p.Linked) :
    ({ p with rows := qs.sort paramRowCmp p.rows } : Param).Linked ↔ p.StaysInPlace qs := by
  constructor
  · intro hsorted i row hrow hne
    obtain ⟨cell, hcell⟩ := List.exists_mem_of_ne_nil _ hne
    obtain ⟨j, hj⟩ := List.mem_iff_getElem?.1 ((qs.perm paramRowCmp p.rows).mem_iff.1 (List.mem_of_getElem? hrow))
    have hi : cell.parentRow = i := hsorted i row hrow cell hcell
    have hij : cell.parentRow = j := h j row hj cell hcell
    rwa [← hi, hij]
  · intro hplaces i row hrow cell hcell
    exact h i row (hplaces i row hrow (List.ne_nil_of_mem hcell)) cell hcell

/-- Rows in the order of their ids, none of which is there twice, stay where they are. -/
theorem Param.staysInPlace_of_ascending (qs : Qsort) (h : p.rows.Pairwise fun a b => a.id.toInt < b.id.toInt) :
    p.StaysInPlace qs := by
  have hcmp : ∀ a b : ParamRow, paramRowCmp a b ≤ 0 ↔ a.id.toInt ≤ b.id.toInt := by
    intro a b
    unfold paramRowCmp
    simp only [Int32.lt_iff_toInt_lt]
    split
    · next hlt => exact ⟨fun _ => hlt.le, fun _ => by decide⟩
    · split
      · next hgt => exact ⟨fun hle => absurd hle (by decide), fun hle => absurd hgt (not_lt.2 hle)⟩
      · next hgt => exact ⟨fun _ => not_lt.1 hgt, fun _ => le_refl _⟩
  have hsorted := qs.sorted paramRowCmp (fun row => row.id.toInt) hcmp p.rows
  have hperm := qs.perm paramRowCmp p.rows
  -- rows with one id are one row
  have hone : ∀ a ∈ p.rows, ∀ b ∈ p.rows, a.id.toInt = b.id.toInt → a = b := by
    intro a ha b hb heq
    obtain ⟨i, hi, rfl⟩ := List.mem_iff_getElem.1 ha
    obtain ⟨j, hj, rfl⟩ := List.mem_iff_getElem.1 hb
    rcases Nat.lt_trichotomy i j with hij | rfl | hij
    · exact absurd heq (List.pairwise_iff_getElem.1 h i j hi hj hij).ne
    · rfl
    · exact absurd heq (List.pairwise_iff_getElem.1 h j i hj hi hij).ne'
  have hsame : qs.sort paramRowCmp p.rows = p.rows := by
    refine List.Perm.eq_of_pairwise (fun a b ha hb hab hba => ?_) hsorted (h.imp fun hlt => hlt.le) hperm
    exact hone a (hperm.mem_iff.1 ha) b hb (le_antisymm hab hba)
  intro i row hrow _
  rwa [hsame] at hrow

end Links

/-! ## Operations -/

section Operations

variable {os : Win32} {qs : Qsort} {p p0 : Param} {r : Nat}

/-- The cells of a row lead to it from the start. -/
theorem returns_readCells (be : Bool) (i : Nat) (data : List UInt8) (layout : FieldLayout) :
    Returns (readCells os be i data layout) fun cells => ∀ cell ∈ cells, cell.parentRow = i := by
  have hloop : ∀ (entries : List FieldLayoutEntry) (t : ReadCells), (∀ cell ∈ t.cells, cell.parentRow = i) →
      Returns (sweep (readCell os be i data) entries t) fun t => ∀ cell ∈ t.cells, cell.parentRow = i := by
    intro entries
    induction entries with
    | nil => exact fun t ht => Returns.pure ht
    | cons entry entries ih =>
        intro t ht
        have hsnoc : ∀ value, ∀ cell ∈ t.cells ++ [initCellFromLayout entry i value], cell.parentRow = i := by
          intro value cell hcell
          rcases List.mem_append.1 hcell with hcell | hcell
          · exact ht cell hcell
          · rw [List.mem_singleton.1 hcell]
            rfl
        have hround : Returns (readCell os be i data entry entries t) fun t => ∀ cell ∈ t.cells, cell.parentRow = i := by
          unfold readCell
          split
          · exact Returns.after fun _ => Returns.pure (hsnoc _)
          · exact Returns.after fun _ => Returns.pure (hsnoc _)
        exact hround.bind ih
  exact (hloop layout.entries {} (by simp)).bind fun t ht => Returns.pure ht

theorem returns_newCells (be : Bool) (i : Nat) (data : List UInt8) (layout : FieldLayout) :
    Returns (newCells os be i data layout) fun cells => ∀ cell ∈ cells, cell.parentRow = i :=
  Returns.after fun _ => returns_readCells be i data layout

theorem keeps_updateParam {I : Param → Prop} {f : Param → Param} (hf : ∀ p, I p → I (f p)) :
    Keeps (fun s : RowState => I s.param) (updateParam f) := fun s hs => hf s.param hs

theorem keeps_onAllocator {α : Type} {I : Param → Prop} (m : Fallible Heap SfError α) :
    Keeps (fun s : RowState => I s.param) (onAllocator m) := fun _ hs => hs

theorem keeps_getFieldLayout {I : Param → Prop} (d : Paramdef) :
    Keeps (fun s : RowState => I s.param) (getFieldLayout d) := by
  refine Keeps.ofState fun s _ => ?_
  split
  · exact Keeps.pure _
  · exact (keeps_onAllocator _).bind fun _ => Keeps.bind (Keeps.update fun _ hs => hs) fun _ => Keeps.pure _

theorem keeps_newBlock {I : Param → Prop} (size : Nat) : Keeps (fun s : RowState => I s.param) (newBlock size) := by
  refine (Keeps.attempt (keeps_onAllocator _)).bind fun outcome => ?_
  rcases outcome with e | _
  · exact Keeps.check _ _
  · exact Keeps.pure _

theorem keeps_prepareRow {I : Param → Prop} (id : Int32) (name : Option (List UInt8)) :
    Keeps (fun s : RowState => I s.param) (prepareRow id name) := by
  intro s hs
  rw [prepareRow_param]
  exact hs

theorem keeps_applyParamdefToRow (d : Paramdef) (i : Nat) :
    Keeps (fun s : RowState => s.param.Linked) (applyParamdefToRow os d i) := by
  refine Keeps.ofState fun s _ => ?_
  split
  · exact Keeps.fail _
  · split
    · exact Keeps.pure _
    · refine (keeps_getFieldLayout d).bind fun layout => ?_
      refine (keeps_updateParam fun p hp => hp.setApplied i none nofun).bind fun _ => ?_
      refine ((keeps_onAllocator _).maintains (Returns.zoom (returns_newCells _ i _ layout))).next fun cells hcells => ?_
      refine keeps_updateParam fun p hp => hp.setApplied i _ fun a ha => ?_
      cases ha
      exact hcells

theorem keeps_applyParamdef (d : Paramdef) (mode : Nat) :
    Keeps (fun s : RowState => s.param.Linked) (applyParamdef os d mode) := by
  refine Keeps.state.bind fun s => (Keeps.lift _).bind fun _ => Keeps.bind ?_ fun _ => keeps_updateParam fun p hp => hp
  exact Keeps.state.bind fun s => Keeps.forIndexed (fun i _ _ => keeps_applyParamdefToRow d i) 0

theorem keeps_addRowById (id : Int32) (name : Option (List UInt8)) :
    Keeps (fun s : RowState => s.param.Linked) (addRowById os id name) := by
  refine (keeps_prepareRow id name).bind fun ⟨d, row⟩ => Keeps.state.bind fun s => ?_
  exact (keeps_updateParam fun p _ => Param.linked_installRow row p).bind fun _ => keeps_applyParamdefToRow d _

/-! ### Setters -/

/-- The links are right, and no row but one is other than it was. -/
def Param.OnlyRow (p0 : Param) (r : Nat) (p : Param) : Prop := p.Linked ∧ ∀ i, i ≠ r → p.rows[i]? = p0.rows[i]?

theorem Param.OnlyRow.refl (h : p.Linked) : p.OnlyRow r p := ⟨h, fun _ _ => rfl⟩

theorem Param.OnlyRow.setRowData (h : p0.OnlyRow r p) (data : List UInt8) : p0.OnlyRow r (p.setRowData r data) :=
  ⟨h.1.setRowData r data, fun i hi => (List.getElem?_modify_ne _ _ hi.symm).trans (h.2 i hi)⟩

theorem Param.OnlyRow.setCellValue (h : p0.OnlyRow r p) (c : Nat) (value : ParamCellValue) :
    p0.OnlyRow r (p.setCellValue r c value) :=
  ⟨h.1.setCellValue r c value, fun i hi => (List.getElem?_modify_ne _ _ hi.symm).trans (h.2 i hi)⟩

/-- A cell that is looked up in a row leads to that row. -/
theorem maintains_findCell (c : Nat) :
    Maintains (fun s : RowState => p0.OnlyRow r s.param) (findCell r c) fun cell => cell.parentRow = r := by
  intro s hs
  rw [findCell, state_bind_run]
  rcases hcell : s.param.cellAt r c with _ | cell
  · exact ⟨hs, nofun⟩
  · refine ⟨hs, fun a ha => ?_⟩
    cases ha
    obtain ⟨row, hrow, hin⟩ := Option.bind_eq_some_iff.1 hcell
    obtain ⟨applied, happlied, hget⟩ := Option.bind_eq_some_iff.1 hin
    refine hs.1 r row hrow cell ?_
    rw [ParamRow.cells_of_applied happlied]
    exact List.mem_of_getElem? hget

theorem keeps_setRowData (cell : ParamCell) (hlink : cell.parentRow = r) (data : List UInt8) :
    Keeps (fun s : RowState => p0.OnlyRow r s.param) (updateParam (Param.setRowData cell.parentRow data)) := by
  rw [hlink]
  exact keeps_updateParam fun p hp => hp.setRowData data

theorem keeps_setCellValue (c : Nat) (value : ParamCellValue) :
    Keeps (fun s : RowState => p0.OnlyRow r s.param) (updateParam (Param.setCellValue r c value)) :=
  keeps_updateParam fun _ hp => hp.setCellValue c value

theorem keeps_setScalar (c : Nat) (kind : ParamCellKind) (raw : UInt64) (byteCount : Nat) (value : ParamCellValue) :
    Keeps (fun s : RowState => p0.OnlyRow r s.param) (setScalar r c kind raw byteCount value) := by
  refine (maintains_findCell c).next fun cell hlink => (Keeps.check _ _).bind fun _ => Keeps.state.bind fun s => ?_
  exact (Keeps.lift _).bind fun data => (keeps_setRowData cell hlink data).bind fun _ => keeps_setCellValue c value

theorem keeps_fillCell (cell : ParamCell) (hlink : cell.parentRow = r) (bytesNeeded : Nat) (bytes : List UInt8) :
    Keeps (fun s : RowState => p0.OnlyRow r s.param) (fillCell cell bytesNeeded bytes) := by
  refine (Keeps.check _ _).bind fun _ => (Keeps.check _ _).bind fun _ => Keeps.state.bind fun s => ?_
  exact (Keeps.lift _).bind fun _ => (Keeps.lift _).bind fun data => keeps_setRowData cell hlink data

theorem keeps_setBytes (c : Nat) (bytes : List UInt8) :
    Keeps (fun s : RowState => p0.OnlyRow r s.param) (setBytes r c bytes) := by
  refine (maintains_findCell c).next fun cell hlink => (Keeps.check _ _).bind fun _ => ?_
  exact (keeps_fillCell cell hlink _ _).bind fun _ => (keeps_newBlock _).bind fun _ => keeps_setCellValue c _

theorem keeps_setFixstr (c : Nat) (text : List UInt8) :
    Keeps (fun s : RowState => p0.OnlyRow r s.param) (setFixstr r c text) := by
  refine (maintains_findCell c).next fun cell hlink => (Keeps.check _ _).bind fun _ => ?_
  exact (keeps_fillCell cell hlink _ _).bind fun _ => (keeps_newBlock _).bind fun _ => keeps_setCellValue c _

theorem keeps_setFixstrW (c : Nat) (units : List UInt16) :
    Keeps (fun s : RowState => p0.OnlyRow r s.param) (setFixstrW r c units) := by
  refine (maintains_findCell c).next fun cell hlink => (Keeps.check _ _).bind fun _ => (Keeps.check _ _).bind fun _ =>
    (Keeps.check _ _).bind fun _ => Keeps.state.bind fun s => (Keeps.lift _).bind fun _ => (Keeps.lift _).bind fun data => ?_
  exact (keeps_setRowData cell hlink data).bind fun _ => (keeps_newBlock _).bind fun _ => keeps_setCellValue c _

theorem keeps_cellCopy (c : Nat) (value : ParamCellValue) :
    Keeps (fun s : RowState => p0.OnlyRow r s.param) (cellCopy r c value) := by
  refine (maintains_findCell c).next fun cell _ => (Keeps.check _ _).bind fun _ => ?_
  cases value with
  | u8Array bytes => exact keeps_setBytes c bytes
  | dummy8Array bytes => exact keeps_setBytes c bytes
  | fixstr text => exact keeps_setFixstr c text
  | fixstrW text => exact keeps_setFixstr c text
  | _ => exact keeps_setScalar c _ _ _ _

/-- A setter of a cell changes the row of the cell only. -/
theorem keeps_cellSetting (c : Nat) (setting : CellSetting) :
    Keeps (fun s : RowState => p0.OnlyRow r s.param) (setting.run r c) := by
  cases setting with
  | bytes bytes => exact keeps_setBytes c bytes
  | fixstr text => exact keeps_setFixstr c text
  | fixstrW units => exact keeps_setFixstrW c units
  | copy value => exact keeps_cellCopy c value
  | _ => exact keeps_setScalar c _ _ _ _

/-- A row that is copied changes the row that it is copied to only. -/
theorem keeps_rowCopy (src : Nat) : Keeps (fun s : RowState => p0.OnlyRow r s.param) (rowCopy r src) := by
  unfold rowCopy
  refine Keeps.ite (fun _ => Keeps.pure ()) fun _ => Keeps.ofState fun s _ => ?_
  split
  · refine (Keeps.check _ _).bind fun _ => Keeps.bind ?_ fun _ => Keeps.forIndexed (fun c cell _ => ?_) 0
    · exact Keeps.given (keeps_updateParam fun p hp => hp.setRowData _)
    · refine (keeps_cellCopy c cell.value).attempt.bind fun outcome => ?_
      split
      · exact Keeps.fail _
      · exact Keeps.pure _
  · exact Keeps.fail _

/-! ## Runs -/

theorem returns_onMemory {α : Type} {Q : α → Prop} {m : ReadM α} (hm : Returns m Q) (data : List UInt8) (be flexible : Bool) :
    Returns (BinaryReader.onMemory data be flexible m) Q := by
  refine Returns.after fun _ => Returns.after fun _ => ?_
  intro heap a heap' hrun
  exact hm.of_fst (congrArg Prod.fst hrun)

theorem returns_readRow (format2d format2e : UInt8) : Returns (readRow os format2d format2e) fun row => row.applied = none :=
  Returns.after fun _ => Returns.after fun _ => Returns.after fun _ => Returns.pure rfl

theorem returns_readRowsData (arena : Bool) (l : List (ParamRow × Nat)) (h : ∀ e ∈ l, e.1.applied = none) :
    Returns (readRowsData arena l) fun rows => ∀ row ∈ rows, row.applied = none := by
  induction l with
  | nil => exact Returns.pure (by simp)
  | cons e l ih =>
      obtain ⟨row, size⟩ := e
      have hnone : row.applied = none := h (row, size) List.mem_cons_self
      have hrow : Returns (readRowData arena row size) fun row => row.applied = none := by
        unfold readRowData
        refine Returns.ite (fun _ => Returns.pure hnone) fun _ => ?_
        exact Returns.after fun _ => Returns.after fun _ => Returns.after fun _ => Returns.pure hnone
      refine hrow.bind fun row hrow => (ih fun e he => h e (List.mem_cons_of_mem _ he)).bind fun rows hrows => ?_
      exact Returns.pure (by simpa using ⟨hrow, hrows⟩)

/-- A parameter has no cells when it has been read. -/
theorem returns_paramRead : Returns (paramRead os) fun p => ∀ row ∈ p.rows, row.applied = none := by
  refine Returns.after fun _ => Returns.after fun _ => Returns.after fun _ => Returns.after fun _ => Returns.after fun _ =>
    Returns.after fun _ => Returns.after fun _ => Returns.after fun _ => Returns.after fun _ => Returns.after fun _ =>
    Returns.after fun _ => Returns.after fun _ => Returns.after fun _ => Returns.after fun _ => Returns.after fun _ =>
    Returns.after fun _ => Returns.after fun _ => Returns.after fun _ => Returns.after fun _ => Returns.after fun _ =>
    Returns.after fun _ => ?_
  refine (returns_readEach (returns_readRow _ _) _).bind fun rows hrows => Returns.after fun _ => ?_
  have hdata : ∀ sizes : List Nat, ∀ e ∈ rows.zip sizes, e.1.applied = none := fun sizes e he =>
    hrows.2 e.1 (List.of_mem_zip he).1
  have hcapture : ∀ stringsOffset, Returns (captureRowData rows stringsOffset) fun rows => ∀ row ∈ rows, row.applied = none :=
    fun _ => Returns.after fun _ => Returns.after fun _ => Returns.after fun sizes => Returns.after fun _ =>
      returns_readRowsData _ _ (hdata sizes)
  exact (hcapture _).bind fun rows hrows => Returns.pure hrows

/-- A sort of at most one row is none. -/
theorem sortRowsById_run (cache : Option FieldLayout) (heap : Heap) :
    (sortRowsById qs ⟨p, cache, heap⟩).2.param =
      if 1 < p.rows.length then { p with rows := qs.sort paramRowCmp p.rows } else p := by
  rw [sortRowsById, state_bind_run]
  by_cases hlen : 1 < p.rows.length
  · simp [given, hlen]
  · simp [given, hlen]

/-- A call leaves the links right exactly if it is not a sort that moves a row with cells. -/
theorem ParamCall.linked_iff (hlinked : p.Linked) (call : ParamCall) (cache : Option FieldLayout) (heap : Heap) :
    (call.run os qs ⟨p, cache, heap⟩).2.param.Linked ↔ call.KeepsPlaces qs p := by
  cases call with
  | applyParamdef d mode => exact iff_of_true (keeps_applyParamdef d mode ⟨p, cache, heap⟩ hlinked) trivial
  | addRowById id name => exact iff_of_true (keeps_addRowById id name ⟨p, cache, heap⟩ hlinked) trivial
  | rowCopy dst src =>
      exact iff_of_true (keeps_rowCopy src ⟨p, cache, heap⟩ (Param.OnlyRow.refl hlinked)).1 trivial
  | set r c setting =>
      exact iff_of_true (keeps_cellSetting c setting ⟨p, cache, heap⟩ (Param.OnlyRow.refl hlinked)).1 trivial
  | sortRowsById =>
      show (SoulsFormats.sortRowsById qs ⟨p, cache, heap⟩).2.param.Linked ↔ p.StaysInPlace qs
      rw [sortRowsById_run]
      split
      · exact Param.linked_sorted_iff qs hlinked
      · next hlen =>
        refine iff_of_true hlinked (Param.staysInPlace_of_ascending qs ?_)
        rcases hrows : p.rows with _ | ⟨row, _ | ⟨row', rest⟩⟩
        · exact List.Pairwise.nil
        · exact List.pairwise_singleton _ _
        · simp [hrows] at hlen

theorem ParamRun.linked (h : ParamRun os qs p) : p.Linked := by
  induction h with
  | read hread => exact Param.linked_of_no_cells ((returns_onMemory returns_paramRead _ _ _).of_fst hread)
  | call _ call cache heap hplaces ih => exact (ParamCall.linked_iff ih call cache heap).2 hplaces

end Operations

/-- **The links**: where no sort has moved a row with cells, every cell leads to the row that has it. The next call
    leaves this so exactly if it is not such a sort; and what sets a cell of a row, or copies to the row, changes no
    other row. -/
theorem parent_links (os : Win32) (qs : Qsort) (p : Param) (hrun : ParamRun os qs p) (cache : Option FieldLayout)
    (heap : Heap) :
    p.Linked ∧
      (∀ call : ParamCall, (call.run os qs ⟨p, cache, heap⟩).2.param.Linked ↔ call.KeepsPlaces qs p) ∧
      ∀ r i, i ≠ r →
        (∀ c (setting : CellSetting), (setting.run r c ⟨p, cache, heap⟩).2.param.rows[i]? = p.rows[i]?) ∧
        ∀ src, (rowCopy r src ⟨p, cache, heap⟩).2.param.rows[i]? = p.rows[i]? := by
  have hlinked := hrun.linked
  refine ⟨hlinked, fun call => ParamCall.linked_iff hlinked call cache heap, fun r i hi => ⟨?_, ?_⟩⟩
  · intro c setting
    exact (keeps_cellSetting c setting ⟨p, cache, heap⟩ (Param.OnlyRow.refl hlinked)).2 i hi
  · intro src
    exact (keeps_rowCopy src ⟨p, cache, heap⟩ (Param.OnlyRow.refl hlinked)).2 i hi

/-- A file of two rows, of one byte each, in the wrong order. -/
def twoRowsFile : List UInt8 :=
  [0x4A, 0, 0, 0, 0x48, 0, 0, 0, 0, 0, 2, 0] ++ List.replicate 0x20 0 ++ [0, 0, 0, 104] ++
    [2, 0, 0, 0, 0x48, 0, 0, 0, 0, 0, 0, 0] ++ [1, 0, 0, 0, 0x49, 0, 0, 0, 0, 0, 0, 0] ++ [0x01, 0x02]

/-- The parameter that the file gives, with cells. -/
def twoRows (p : Param) : Param := ((ParamCall.applyParamdef byteFlags 0).run .ascii .insertion ⟨p, none, []⟩).2.param

/-- Once the rows of the file have cells, the sort that puts them in order leaves links that lead to the wrong rows. -/
theorem twoRowsFile_parent_links :
    ∃ p : Param, (paramReadFromMemory .ascii false twoRowsFile []).1 = .ok p ∧ (twoRows p).Linked ∧
      ¬ (ParamCall.sortRowsById.run .ascii .insertion ⟨twoRows p, none, []⟩).2.param.Linked := by
  have hmoved : (match (paramReadFromMemory .ascii false twoRowsFile []).1 with
      | .ok p =>
        let first := (Qsort.insertion.sort paramRowCmp (twoRows p).rows)[0]?
        first != (twoRows p).rows[0]? && first.any fun row => row.cells != []
      | .error _ => false) = true := by decide +kernel
  rcases hread : (paramReadFromMemory .ascii false twoRowsFile []).1 with e | p
  · rw [hread] at hmoved
    cases hmoved
  · rw [hread] at hmoved
    simp only [Bool.and_eq_true, bne_iff_ne, ne_eq] at hmoved
    obtain ⟨hne, hcells⟩ := hmoved
    obtain ⟨row, hrow, hcells⟩ := (Option.any_eq_true _ _).1 hcells
    have hrun : ParamRun .ascii .insertion (twoRows p) := .call (.read hread) (.applyParamdef byteFlags 0) none [] trivial
    obtain ⟨hlinked, hkept, -⟩ := parent_links .ascii .insertion (twoRows p) hrun none []
    refine ⟨p, rfl, hlinked, fun hsorted => ?_⟩
    -- the row that comes first has cells, and was not first
    have hplaces := (hkept .sortRowsById).1 hsorted
    exact hne (hrow.trans (hplaces 0 row hrow (by simpa using hcells)).symm)

end SoulsFormats
