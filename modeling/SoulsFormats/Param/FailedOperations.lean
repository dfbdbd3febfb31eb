import SoulsFormats.Param.BitAccesses
import SoulsFormats.Param.RowOperations

set_option autoImplicit false

/-! # Operations on rows that fail

Applying a description goes row by row, and a row that cannot be read has lost its cells. A row that was added stays
where the description cannot be applied to it. -/

namespace SoulsFormats

open Bytes Fallible

variable {os : Win32} {d : Paramdef}

/-! ## What must not change -/

/-- What is seen of a row. -/
def ParamRow.view (row : ParamRow) : Int32 × Option (List UInt8) × List UInt8 × Option AppliedCells :=
  (row.id, row.name, row.data, row.applied)

/-- The rows are as they were, and so is the file that is written. -/
def Param.Unchanged (os : Win32) (before after : Param) : Prop :=
  after.rows.map ParamRow.view = before.rows.map ParamRow.view ∧
    ∀ heap, paramWriteToMemory os after heap = paramWriteToMemory os before heap

theorem Param.Unchanged.refl (p : Param) : p.Unchanged os p := ⟨rfl, fun _ => rfl⟩

/-- The operations that may fail. -/
inductive RowOperation where
  | addRow (id : Int32) (name : Option (List UInt8))
  | applyParamdef (d : Paramdef) (mode : Nat)

def RowOperation.run (os : Win32) : RowOperation → RowM Unit
  | addRow id name => addRowById os id name
  | applyParamdef d mode => SoulsFormats.applyParamdef os d mode

/-! ## When nothing changes -/

/-- The layout that is kept, or a new one. -/
def fetchLayout (d : Paramdef) : Option FieldLayout → Fallible Heap SfError FieldLayout
  | some layout => pure layout
  | none => buildFieldLayout d

/-- The rows in front of the one that cannot be read have the cells that their data give, and that row has none. Rows
    without data do not count, and without a layout no row is touched. -/
def ReadsWhatIsThere (os : Win32) (bigEndian : Bool) (d : Paramdef) :
    Nat → List ParamRow → Option FieldLayout → Heap → Prop
  | _, [], _, _ => True
  | i, row :: rest, cache, heap =>
    if row.isEmpty then ReadsWhatIsThere os bigEndian d (i + 1) rest cache heap
    else
      match fetchLayout d cache heap with
      | (.error _, _) => True
      | (.ok layout, heap) =>
        match newCells os bigEndian i row.data layout heap with
        | (.error _, _) => row.applied = none
        | (.ok cells, heap) =>
          row.applied = some ⟨cells, layout.rowDataSize⟩ ∧
            ReadsWhatIsThere os bigEndian d (i + 1) rest (some layout) heap

/-- The operation fails before it touches a row, or reads what is there already. -/
def RowOperation.FailsEarly (os : Win32) (s : RowState) : RowOperation → Prop
  | addRow id name => ∃ e, (prepareRow id name s).1 = .error e
  | applyParamdef d mode =>
    modeAccepts s.param d mode = .ok () → ReadsWhatIsThere os s.param.bigEndian d 0 s.param.rows s.layoutCache s.heap

/-! ## Applying a description -/

theorem getFieldLayout_run (s : RowState) :
    getFieldLayout d s =
      match fetchLayout d s.layoutCache s.heap with
      | (.ok layout, heap) => (.ok layout, { s with layoutCache := some layout, heap := heap })
      | (.error e, heap) => (.error e, { s with heap := heap }) := by
  obtain ⟨p, cache, heap⟩ := s
  rcases cache with _ | layout
  · rw [getFieldLayout, state_bind_run]
    dsimp only [fetchLayout]
    rcases hbuild : buildFieldLayout d heap with ⟨e | layout, heap'⟩
    · rw [bind_error (e := e) (by rw [onAllocator, zoom_run, hbuild])]
    · rw [bind_ok (a := layout) (by rw [onAllocator, zoom_run, hbuild])]
      rfl
  · rfl

theorem Param.setApplied_setApplied (i : Nat) (a b : Option AppliedCells) (p : Param) :
    (p.setApplied i a).setApplied i b = p.setApplied i b := by
  simp only [Param.setApplied, List.modify_modify_eq]
  rfl

theorem applyParamdefToRow_empty {i : Nat} {s : RowState} {row : ParamRow} (hrow : s.param.rows[i]? = some row)
    (hempty : row.isEmpty = true) : applyParamdefToRow os d i s = (.ok (), s) := by
  rw [applyParamdefToRow, state_bind_run, hrow]
  dsimp only
  rw [if_pos hempty, pure_run]

/-- A row loses its cells as soon as there is a layout, and gets new ones if its data can be read. -/
theorem applyParamdefToRow_run (os : Win32) (d : Paramdef) {i : Nat} {s : RowState} {row : ParamRow} (hrow : s.param.rows[i]? = some row)
    (hne : row.isEmpty = false) :
    applyParamdefToRow os d i s =
      match fetchLayout d s.layoutCache s.heap with
      | (.error e, heap) => (.error e, { s with heap := heap })
      | (.ok layout, heap) =>
        match newCells os s.param.bigEndian i row.data layout heap with
        | (.error e, heap) => (.error e, ⟨s.param.setApplied i none, some layout, heap⟩)
        | (.ok cells, heap) => (.ok (), ⟨s.param.setApplied i (some ⟨cells, layout.rowDataSize⟩), some layout, heap⟩) := by
  have hlayout := getFieldLayout_run (d := d) s
  rw [applyParamdefToRow, state_bind_run, hrow]
  dsimp only
  rw [if_neg (by rw [hne]; exact Bool.false_ne_true)]
  rcases hfetch : fetchLayout d s.layoutCache s.heap with ⟨e | layout, heap⟩
  · rw [hfetch] at hlayout
    rw [bind_error hlayout]
  · rw [hfetch] at hlayout
    rw [bind_ok hlayout, updateParam_bind_run]
    dsimp only
    rcases hcells : newCells os s.param.bigEndian i row.data layout heap with ⟨e | cells, heap'⟩
    · rw [bind_error (e := e) (by rw [onAllocator, zoom_run]; dsimp only; rw [hcells])]
    · rw [bind_ok (a := cells) (by rw [onAllocator, zoom_run]; dsimp only; rw [hcells])]
      rw [updateParam_run]
      dsimp only
      rw [Param.setApplied_setApplied]

theorem modify_append_length {α : Type} (before rest : List α) (a : α) (f : α → α) :
    (before ++ a :: rest).modify before.length f = before ++ f a :: rest := by
  induction before with
  | nil => simp
  | cons b before ih => simpa using ih

/-- The row behind those that were done. -/
theorem setApplied_append {before rest : List ParamRow} {row : ParamRow} {p : Param}
    (hrows : p.rows = before ++ row :: rest) (applied : Option AppliedCells) :
    p.setApplied before.length applied = { p with rows := before ++ { row with applied := applied } :: rest } := by
  rw [Param.setApplied, hrows, modify_append_length]

/-- Applying a description that fails leaves the rows as they are exactly if it reads what is there. -/
theorem forIndexed_applyParamdefToRow_error (before rest : List ParamRow) (s : RowState) {s' : RowState} {e : SfError}
    (hrows : s.param.rows = before ++ rest)
    (hrun : forIndexed (fun i _ => applyParamdefToRow os d i) before.length rest s = (.error e, s')) :
    ∃ rest', s'.param = { s.param with rows := before ++ rest' } ∧
      (ReadsWhatIsThere os s.param.bigEndian d before.length rest s.layoutCache s.heap → rest' = rest) ∧
      (rest'.map ParamRow.view = rest.map ParamRow.view →
        ReadsWhatIsThere os s.param.bigEndian d before.length rest s.layoutCache s.heap) := by
  induction rest generalizing before s with
  | nil => cases hrun
  | cons row rest ih =>
      have hrow : s.param.rows[before.length]? = some row := by simp [hrows]
      have hself : s.param = { s.param with rows := before ++ row :: rest } := by rw [← hrows]
      rw [forIndexed] at hrun
      cases hempty : row.isEmpty
      · have hstep := applyParamdefToRow_run os d hrow hempty
        unfold ReadsWhatIsThere
        rw [hempty]
        simp only [Bool.false_eq_true, if_false]
        rcases hfetch : fetchLayout d s.layoutCache s.heap with ⟨err | layout, heap⟩
        · rw [hfetch] at hstep
          rw [bind_error hstep] at hrun
          cases hrun
          exact ⟨row :: rest, hself, fun _ => rfl, fun _ => trivial⟩
        · rw [hfetch] at hstep
          dsimp only at hstep ⊢
          rcases hcells : newCells os s.param.bigEndian before.length row.data layout heap with ⟨err | cells, heap'⟩
          · rw [hcells] at hstep
            rw [bind_error hstep] at hrun
            cases hrun
            refine ⟨{ row with applied := none } :: rest, setApplied_append hrows none, ?_, ?_⟩
            · intro hnone
              rw [← hnone]
            · intro hview
              have happlied : none = row.applied := congrArg (fun v => v.2.2.2) (List.cons.inj hview).1
              exact happlied.symm
          · rw [hcells] at hstep
            dsimp only at hstep
            rw [bind_ok hstep, setApplied_append hrows] at hrun
            -- the row that was read is done, and the rest goes on with the layout
            have hlen : before.length + 1 =
                (before ++ [{ row with applied := some ⟨cells, layout.rowDataSize⟩ }]).length := by simp
            rw [hlen] at hrun
            obtain ⟨rest', hparam, hsame, hview⟩ := ih _ _ (by simp) hrun
            rw [← hlen] at hsame hview
            refine ⟨{ row with applied := some ⟨cells, layout.rowDataSize⟩ } :: rest', ?_, ?_, ?_⟩
            · simpa using hparam
            · rintro ⟨happlied, hrest⟩
              rw [← happlied, hsame hrest]
            · intro hall
              obtain ⟨hhead, htail⟩ := List.cons.inj hall
              have happlied : some (AppliedCells.mk cells layout.rowDataSize) = row.applied :=
                congrArg (fun v => v.2.2.2) hhead
              exact ⟨happlied.symm, hview htail⟩
      · rw [bind_ok (applyParamdefToRow_empty hrow hempty)] at hrun
        have hlen : before.length + 1 = (before ++ [row]).length := by simp
        rw [hlen] at hrun
        obtain ⟨rest', hparam, hsame, hview⟩ := ih _ s (by simp [hrows]) hrun
        rw [← hlen] at hsame hview
        unfold ReadsWhatIsThere
        rw [if_pos hempty]
        refine ⟨row :: rest', by simpa using hparam, fun h => by rw [hsame h], fun hall => ?_⟩
        exact hview (List.cons.inj hall).2

theorem populateAllCells_error {s s' : RowState} {e : SfError} (hrun : populateAllCells os d s = (.error e, s')) :
    s.param.Unchanged os s'.param ↔
      ReadsWhatIsThere os s.param.bigEndian d 0 s.param.rows s.layoutCache s.heap := by
  rw [populateAllCells, state_bind_run] at hrun
  obtain ⟨rest, hparam, hsame, hview⟩ := forIndexed_applyParamdefToRow_error [] s.param.rows s rfl hrun
  rw [List.nil_append] at hparam
  constructor
  · rintro ⟨hrows, -⟩
    rw [hparam] at hrows
    exact hview hrows
  · intro hreads
    rw [hparam, hsame hreads]
    exact Param.Unchanged.refl s.param

theorem applyParamdef_error {mode : Nat} {s s' : RowState} {e : SfError}
    (hrun : applyParamdef os d mode s = (.error e, s')) :
    s.param.Unchanged os s'.param ↔ RowOperation.FailsEarly os s (.applyParamdef d mode) := by
  rw [applyParamdef, state_bind_run] at hrun
  unfold RowOperation.FailsEarly
  rcases hmode : modeAccepts s.param d mode with err | u
  · rw [hmode, bind_error (lift_run _ _)] at hrun
    cases hrun
    refine ⟨fun _ hok => ?_, fun _ => Param.Unchanged.refl s.param⟩
    rw [hmode] at hok
    cases hok
  · rw [hmode, bind_ok (lift_run _ _)] at hrun
    rcases hpopulate : populateAllCells os d s with ⟨err | v, s1⟩
    · rw [bind_error hpopulate] at hrun
      cases hrun
      rw [populateAllCells_error hpopulate]
      exact ⟨fun h _ => h, fun h => h hmode⟩
    · rw [bind_ok hpopulate] at hrun
      cases hrun

/-! ## Adding a row -/

theorem onAllocator_keeps {α : Type} (p : Param) (m : Fallible Heap SfError α) :
    Keeps (fun s : RowState => s.param = p) (onAllocator m) := fun _ hs => hs

/-- What is asked for before a row is added does not touch the parameter. -/
theorem prepareRow_param (id : Int32) (name : Option (List UInt8)) (s : RowState) :
    (prepareRow id name s).2.param = s.param := by
  have hkeeps : Keeps (fun t : RowState => t.param = s.param) (prepareRow id name) := by
    unfold prepareRow
    refine Keeps.state.bind fun t => ?_
    split
    · exact Keeps.fail _
    · refine (Keeps.lift _).bind fun rowSize => (Keeps.check _ _).bind fun _ => (Keeps.check _ _).bind fun _ =>
        (Keeps.check _ _).bind fun _ => Keeps.bind ?_ fun _ => (onAllocator_keeps _ _).bind fun _ =>
          (onAllocator_keeps _ _).bind fun _ => Keeps.pure _
      exact Keeps.given ((onAllocator_keeps _ _).bind fun _ => Keeps.pure _)
  exact hkeeps s rfl

theorem length_setApplied (i : Nat) (applied : Option AppliedCells) (p : Param) :
    (p.setApplied i applied).rows.length = p.rows.length := by
  simp [Param.setApplied]

/-- Applying a description to a row adds no row and takes none. -/
theorem applyParamdefToRow_length (os : Win32) (d : Paramdef) (i : Nat) (s : RowState) :
    (applyParamdefToRow os d i s).2.param.rows.length = s.param.rows.length := by
  rcases hrow : s.param.rows[i]? with _ | row
  · rw [applyParamdefToRow, state_bind_run, hrow]
    rfl
  · cases hempty : row.isEmpty
    · rw [applyParamdefToRow_run os d hrow hempty]
      split
      · rfl
      · split
        · exact length_setApplied i none s.param
        · exact length_setApplied i _ s.param
    · rw [applyParamdefToRow_empty hrow hempty]

theorem length_installRow (row : ParamRow) (p : Param) : (p.installRow row).rows.length = p.rows.length + 1 := by
  simp [Param.installRow, repairCellParentLinks]

theorem addRowById_error {id : Int32} {name : Option (List UInt8)} {s s' : RowState} {e : SfError}
    (hrun : addRowById os id name s = (.error e, s')) :
    s.param.Unchanged os s'.param ↔ RowOperation.FailsEarly os s (.addRow id name) := by
  have hparam := prepareRow_param id name s
  unfold RowOperation.FailsEarly
  rcases hprepare : prepareRow id name s with ⟨err | ⟨d, row⟩, s1⟩
  · rw [addRowById, bind_error hprepare] at hrun
    cases hrun
    rw [hprepare] at hparam
    have hsame : s'.param = s.param := hparam
    rw [hsame]
    exact ⟨fun _ => ⟨e, by rw [hprepare]⟩, fun _ => Param.Unchanged.refl s.param⟩
  · rw [addRowById, bind_ok hprepare] at hrun
    dsimp only at hrun
    rw [state_bind_run, updateParam_bind_run] at hrun
    rw [hprepare] at hparam
    have hsame : s1.param = s.param := hparam
    have hlength := applyParamdefToRow_length os d s1.param.rows.length
      { s1 with param := s1.param.installRow row }
    rw [hrun, length_installRow, hsame] at hlength
    constructor
    · rintro ⟨hrows, -⟩
      have hcount := congrArg List.length hrows
      rw [List.length_map, List.length_map, hlength] at hcount
      omega
    · rintro ⟨err, herr⟩
      rw [hprepare] at herr
      cases herr

/-! ## Operations that fail -/

/-- An operation on rows that fails changes nothing exactly if it fails before it touches a row, or if it reads what
    is there. -/
theorem failed_operation_unchanged_iff (os : Win32) (op : RowOperation) (s s' : RowState) (e : SfError)
    (hrun : op.run os s = (.error e, s')) : s.param.Unchanged os s'.param ↔ op.FailsEarly os s := by
  cases op with
  | addRow id name => exact addRowById_error hrun
  | applyParamdef d mode => exact applyParamdef_error hrun

/-! ## Samples -/

/-- Rows of one byte. -/
def byteRows (bytes : List UInt8) : Param where
  rows := bytes.map fun b => { id := 0, dataOffset := 0x40, data := [b] }
  paramType := []
  bigEndian := false
  format2d := 0
  format2e := 0
  paramdefFormatVersion := 104
  paramdefDataVersion := 0
  unk06 := 0
  detectedSize := 1

/-- The first of three rows cannot be read: a bit is set that no flag stands for. -/
theorem first_row_fails_unchanged :
    (byteRows [0x80, 0x00, 0x01]).Unchanged .ascii
      ((RowOperation.applyParamdef byteFlags 0).run .ascii ⟨byteRows [0x80, 0x00, 0x01], none, []⟩).2.param := by
  have hrun : ((RowOperation.applyParamdef byteFlags 0).run .ascii ⟨byteRows [0x80, 0x00, 0x01], none, []⟩).1 =
      .error .badMagic := by decide +kernel
  exact (failed_operation_unchanged_iff .ascii _ _ _ _ (Prod.ext hrun rfl)).2 fun _ => rfl

/-- The second row cannot be read: the first has got cells by then. -/
theorem second_row_fails_changed :
    ¬ (∀ (os : Win32) (op : RowOperation) (s s' : RowState) (e : SfError),
        op.run os s = (.error e, s') → s.param.Unchanged os s'.param) := by
  intro hall
  have hrun : ((RowOperation.applyParamdef byteFlags 0).run .ascii ⟨byteRows [0x00, 0x80], none, []⟩).1 =
      .error .badMagic := by decide +kernel
  obtain ⟨hrows, -⟩ := hall .ascii _ _ _ _ (Prod.ext hrun rfl)
  revert hrows
  decide +kernel

end SoulsFormats
