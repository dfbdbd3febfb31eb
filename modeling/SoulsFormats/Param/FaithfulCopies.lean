import SoulsFormats.Param.FailedOperations
import SoulsFormats.Param.RowCopy

set_option autoImplicit false

/-! # Which copies of rows are faithful

A row is a copy of another if its cells have the same values and its bytes are the same. The cells get their values
one after another, and each setter may ask for a block, so that the allocator goes from cell to cell. -/

namespace SoulsFormats

open Bytes Fallible

/-! ## What a copy is -/

/-- The values of the cells of a row. -/
def Param.cellValues (p : Param) (i : Nat) : Option (List ParamCellValue) :=
  p.rows[i]?.map fun row => row.cells.map ParamCell.value

/-- The bytes that are made of a row. One without cells has none. -/
def Param.rowBytes (os : Win32) (p : Param) (i : Nat) : Fallible Heap SfError (List UInt8) :=
  match p.rows[i]? with
  | none => fail .undefinedBehaviour
  | some row =>
    match row.applied with
    | none => pure []
    | some applied => rowCellsToBytes os p.bigEndian applied.cells applied.dataSize

structure Param.CopiedFaithfully (os : Win32) (p : Param) (dst src : Nat) : Prop where
  values : p.cellValues dst = p.cellValues src
  bytes : ∀ heap, p.rowBytes os dst heap = p.rowBytes os src heap

/-- A layout of the description. -/
def Paramdef.LaidOut (d : Paramdef) (layout : FieldLayout) : Prop :=
  ∃ heap heap', buildFieldLayout d heap = (.ok layout, heap')

/-- The row has the cells of the description. -/
def Paramdef.AppliedTo (d : Paramdef) (row : ParamRow) : Prop :=
  ∃ layout cells, d.LaidOut layout ∧ row.applied = some ⟨cells, layout.rowDataSize⟩ ∧
    List.Forall₂ ParamCell.LaidBy cells layout.entries

/-! ## When a copy is faithful -/

/-- A setter stores the value as it is. -/
def ParamCellValue.isPlain : ParamCellValue → Bool
  | .b32 v => v = 0 || v = 1
  | _ => true

/-- A cell gets a value as it is, or has it already. -/
def ParamCell.Receives (cell : ParamCell) (p : Param) (value : ParamCellValue) (heap : Heap) : Prop :=
  if cell.takes p value && value.granted heap then value.isPlain = true else cell.value = value

/-- Every cell receives its value, with the blocks that are asked for one after another. -/
def ReceivesAll (p : Param) : List ParamCell → List ParamCellValue → Heap → Prop
  | cell :: cells, value :: values, heap =>
    cell.Receives p value heap ∧ ReceivesAll p cells values (cell.heapAfter p value heap)
  | _, _, _ => True

/-- The cells behind the copies. -/
def copiedCells (p : Param) : List ParamCell → List ParamCellValue → Heap → List ParamCell
  | cell :: cells, value :: values, heap =>
    cell.withValue (cell.copied p value heap) :: copiedCells p cells values (cell.heapAfter p value heap)
  | _, _, _ => []

theorem ParamCellValue.settled_eq_self_iff (value : ParamCellValue) : value.settled = value ↔ value.isPlain = true := by
  cases value
  case b32 v =>
    simp only [settled, isPlain, b32.injEq, Bool.or_eq_true, decide_eq_true_eq, boolWord]
    by_cases hzero : v = 0
    · simp [hzero]
    · have hword : (if (v != 0) = true then (1 : UInt32) else 0) = 1 := by simp [hzero]
      rw [hword]
      simp only [hzero, false_or]
      exact eq_comm
  all_goals simp [settled, isPlain]

theorem ParamCellValue.kind_settled (value : ParamCellValue) : value.settled.kind = value.kind := by
  cases value <;> rfl

theorem ParamCell.copied_eq_iff (cell : ParamCell) (p : Param) (value : ParamCellValue) (heap : Heap) :
    cell.copied p value heap = value ↔ cell.Receives p value heap := by
  unfold copied Receives
  split
  · exact value.settled_eq_self_iff
  · exact Iff.rfl

theorem map_value_copiedCells_iff (p : Param) {cells : List ParamCell} {values : List ParamCellValue} (heap : Heap)
    (hlen : cells.length = values.length) :
    (copiedCells p cells values heap).map ParamCell.value = values ↔ ReceivesAll p cells values heap := by
  induction cells generalizing values heap with
  | nil =>
      obtain rfl : values = [] := List.length_eq_zero_iff.1 hlen.symm
      exact ⟨fun _ => trivial, fun _ => rfl⟩
  | cons cell cells ih =>
      rcases values with _ | ⟨value, values⟩
      · cases hlen
      · rw [copiedCells, List.map_cons, List.cons.injEq, ih _ (Nat.succ.inj hlen)]
        exact and_congr (cell.copied_eq_iff p value heap) Iff.rfl

/-! ## Copying the cells -/

theorem discarded_eq_ok {m : RowM Unit} {s s' : RowState} (h : discarded m s = (.ok (), s')) :
    ∃ r, m s = (r, s') ∧ r ≠ .error .undefinedBehaviour := by
  rw [discarded, bind_ok (attempt_run m s)] at h
  rcases hm : m s with ⟨e | u, t⟩
  · rw [hm] at h
    cases e <;> cases h <;> exact ⟨_, rfl, nofun⟩
  · rw [hm] at h
    cases h
    exact ⟨_, rfl, nofun⟩

/-- The cells are copied one after another. -/
theorem copyCells_run {p0 : Param} {dst size : Nat} {done cells srcs : List ParamCell} {s s' : RowState}
    (hc : Param.Copying p0 s.param dst (done ++ cells) size)
    (hkinds : List.Forall₂ (fun cell src : ParamCell => cell.value.kind = src.value.kind) cells srcs)
    (hrun : forIndexed (fun c cell => discarded (cellCopy dst c cell.value)) done.length srcs s = (.ok (), s')) :
    Param.Copying p0 s'.param dst (done ++ copiedCells p0 cells (srcs.map ParamCell.value) s.heap) size := by
  induction hkinds generalizing done s with
  | nil =>
      cases hrun
      exact hc
  | @cons cell src cells srcs hkind _ ih =>
      rw [forIndexed, bind_eq_ok] at hrun
      obtain ⟨⟨⟩, s1, hcopy, hrun⟩ := hrun
      obtain ⟨r, hcopy, hr⟩ := discarded_eq_ok hcopy
      obtain ⟨hc1, hheap⟩ := copyLeaves_cellCopy hc (by simp) hkind hcopy hr
      rw [modify_append_length] at hc1
      have hlen : done.length + 1 = (done ++ [cell.withValue (cell.copied p0 src.value s.heap)]).length := by simp
      rw [hlen] at hrun
      have hrest := ih (by simpa using hc1) hrun
      rw [hheap] at hrest
      simpa [copiedCells] using hrest

/-- A row that is copied has the cells behind the copies. Other rows keep theirs. -/
theorem rowCopy_eq_ok {dst src : Nat} {s s' : RowState} {dstRow srcRow : ParamRow} {cells srcs : List ParamCell}
    {size size' : Nat} (hne : dst ≠ src) (hdst : s.param.rows[dst]? = some dstRow)
    (hsrc : s.param.rows[src]? = some srcRow) (hcells : dstRow.applied = some ⟨cells, size⟩)
    (hsrcs : srcRow.applied = some ⟨srcs, size'⟩)
    (hkinds : List.Forall₂ (fun cell src : ParamCell => cell.value.kind = src.value.kind) cells srcs)
    (hrun : rowCopy dst src s = (.ok (), s')) :
    Param.Copying s.param s'.param dst (copiedCells s.param cells (srcs.map ParamCell.value) s.heap) size := by
  have hsrcCells : srcRow.cells = srcs := by rw [ParamRow.cells, hsrcs]
  have hinit : Param.Copying s.param s.param dst cells size :=
    ⟨by rw [hdst]; exact hcells, fun _ _ => rfl, fun _ => rfl, rfl⟩
  rw [rowCopy, if_neg hne, state_bind_run, hdst, hsrc] at hrun
  dsimp only at hrun
  rw [bind_eq_ok] at hrun
  obtain ⟨⟨⟩, s1, hcheck, hrun⟩ := hrun
  rw [check_run] at hcheck
  split at hcheck
  · next hsizes =>
      cases hcheck
      rw [hsrcCells] at hrun
      -- the data of the row that is copied have the size of those that they replace
      have hsize : s.param.dataSizeAt dst = some srcRow.data.length := by
        rw [Param.dataSizeAt, hdst, Option.map_some, hsizes.2]
      cases hdata : decide (0 < srcRow.data.length)
      · have hstart : Param.Copying s.param s.param dst ([] ++ cells) size := hinit
        rw [hdata] at hrun
        exact copyCells_run hstart hkinds hrun
      · let t : RowState := { s with param := s.param.setRowData dst srcRow.data }
        have hstart : Param.Copying s.param t.param dst ([] ++ cells) size := hinit.setRowData hsize
        rw [hdata] at hrun
        exact copyCells_run hstart hkinds hrun
  · cases hcheck

/-! ## Cells of one layout -/

/-- A cell but for its row. -/
def ParamCell.unlinked (cell : ParamCell) : ParamCell := { cell with parentRow := 0 }

section Unlinked

variable (os : Win32) (bigEndian : Bool)

/-- What is written of a cell does not depend on its row. -/
theorem writeCell_unlinked (cell : ParamCell) (rest : List ParamCell) (s : WrittenCells) :
    writeCell os bigEndian cell.unlinked (rest.map ParamCell.unlinked) s = writeCell os bigEndian cell rest s := by
  cases rest <;> rfl

theorem sweep_writeCell_unlinked (cells : List ParamCell) (s : WrittenCells) :
    sweep (writeCell os bigEndian) (cells.map ParamCell.unlinked) s = sweep (writeCell os bigEndian) cells s := by
  induction cells generalizing s with
  | nil => rfl
  | cons cell cells ih =>
      rw [List.map_cons, sweep, sweep, writeCell_unlinked]
      simp only [ih]

theorem rowCellsToBytes_unlinked (cells : List ParamCell) (size : Nat) :
    rowCellsToBytes os bigEndian (cells.map ParamCell.unlinked) size = rowCellsToBytes os bigEndian cells size := by
  unfold rowCellsToBytes
  simp only [sweep_writeCell_unlinked]

end Unlinked

section LaidBy

variable {cells cells' : List ParamCell} {entries : List FieldLayoutEntry}

/-- Cells of one layout differ in their rows and values only. -/
theorem map_unlinked_of_laidBy (h : List.Forall₂ ParamCell.LaidBy cells entries)
    (h' : List.Forall₂ ParamCell.LaidBy cells' entries)
    (hvalues : cells.map ParamCell.value = cells'.map ParamCell.value) :
    cells.map ParamCell.unlinked = cells'.map ParamCell.unlinked := by
  induction h generalizing cells' with
  | nil =>
      cases h'
      rfl
  | @cons cell entry cells entries hcell _ ih =>
      rcases h' with _ | ⟨hcell', hrest'⟩
      obtain ⟨hvalue, hvalues⟩ := List.cons.inj hvalues
      rw [List.map_cons, List.map_cons, ih hrest' hvalues]
      obtain ⟨parentRow, value, -, rfl⟩ := hcell
      obtain ⟨parentRow', value', -, rfl⟩ := hcell'
      obtain rfl : value = value' := hvalue
      rfl

theorem kinds_of_laidBy (h : List.Forall₂ ParamCell.LaidBy cells entries)
    (h' : List.Forall₂ ParamCell.LaidBy cells' entries) :
    List.Forall₂ (fun cell src : ParamCell => cell.value.kind = src.value.kind) cells cells' := by
  induction h generalizing cells' with
  | nil =>
      cases h'
      exact List.Forall₂.nil
  | cons hcell _ ih =>
      rcases h' with _ | ⟨hcell', hrest'⟩
      refine List.Forall₂.cons ?_ (ih hrest')
      obtain ⟨parentRow, value, hkind, rfl⟩ := hcell
      obtain ⟨parentRow', value', hkind', rfl⟩ := hcell'
      exact hkind.trans hkind'.symm

theorem ParamCell.LaidBy.withValue {cell : ParamCell} {entry : FieldLayoutEntry} {value : ParamCellValue}
    (h : cell.LaidBy entry) (hkind : value.kind = cell.value.kind) : (cell.withValue value).LaidBy entry := by
  obtain ⟨parentRow, old, hold, rfl⟩ := h
  exact ⟨parentRow, value, hkind.trans hold, rfl⟩

/-- The cells behind the copies are of the layout of the cells before. -/
theorem laidBy_copiedCells (p : Param) (heap : Heap) (h : List.Forall₂ ParamCell.LaidBy cells entries)
    (hkinds : List.Forall₂ (fun cell src : ParamCell => cell.value.kind = src.value.kind) cells cells') :
    List.Forall₂ ParamCell.LaidBy (copiedCells p cells (cells'.map ParamCell.value) heap) entries := by
  induction hkinds generalizing entries heap with
  | nil =>
      cases h
      exact List.Forall₂.nil
  | @cons cell src cells srcs hkind _ ih =>
      rcases h with _ | ⟨hcell, hrest⟩
      refine List.Forall₂.cons (hcell.withValue ?_) (ih _ hrest)
      rw [ParamCell.copied]
      split
      · rw [ParamCellValue.kind_settled, hkind]
      · rfl

end LaidBy

/-- A description has one layout. -/
theorem Paramdef.LaidOut.unique {d : Paramdef} {layout layout' : FieldLayout} (h : d.LaidOut layout)
    (h' : d.LaidOut layout') : layout = layout' := by
  have hof : ∀ {l : FieldLayout}, d.LaidOut l → ∃ s, layoutFields d.versionAware d.fields = .ok s ∧
      l = ⟨s.entries, if 0 < d.rowSize.toInt then d.rowSize.toInt.toNat else s.offset⟩ := by
    rintro l ⟨heap, heap', hl⟩
    obtain ⟨-, heap1, -, hl⟩ := bind_eq_ok.1 hl
    obtain ⟨-, heap2, -, hl⟩ := bind_eq_ok.1 hl
    obtain ⟨s, heap3, hs, hl⟩ := bind_eq_ok.1 hl
    rw [lift_run, Prod.mk.injEq] at hs
    cases hl
    exact ⟨s, hs.1, rfl⟩
  obtain ⟨s, hs, rfl⟩ := hof h
  obtain ⟨s', hs', rfl⟩ := hof h'
  rw [hs] at hs'
  cases hs'
  rfl

/-! ## Rows that a description is applied to -/

section Applying

variable {type : ParamdefDefType} {bitSize arrayLength : Int32} {value : ParamCellValue}

theorem assignIntegralCell_kind {signed : Int64} {raw : UInt64} (hbit : bitSize ≠ -1)
    (h : assignIntegralCell type signed raw = .ok value) : value.kind = cellKindForField type bitSize arrayLength := by
  cases type <;> cases h <;> simp [cellKindForField, ParamCellValue.kind, hbit]

theorem readNonbitCell_kind {os : Win32} {bigEndian : Bool} {data : List UInt8} {offset count : Nat} {heap heap' : Heap}
    (hplain : (type.isBitType && bitSize != -1) = false)
    (h : readNonbitCell os bigEndian type arrayLength data offset count heap = (.ok value, heap')) :
    value.kind = cellKindForField type bitSize arrayLength := by
  obtain ⟨-, heap1, -, h⟩ := bind_eq_ok.1 h
  obtain ⟨-, heap2, -, h⟩ := bind_eq_ok.1 h
  -- a type of bits that is read on its own has no declared size in bits
  have hwhole : type.isBitType = true → bitSize = -1 := fun htype => by simpa [htype] using hplain
  cases type
  case u8 =>
    have hsize := hwhole rfl
    dsimp only at h
    split at h
    · next harray =>
        obtain ⟨v, heap3, -, h⟩ := bind_eq_ok.1 h
        cases h
        simp [cellKindForField, ParamCellValue.kind, hsize, harray]
    · next hsingle =>
        obtain ⟨v, heap3, -, h⟩ := bind_eq_ok.1 h
        cases h
        simp [cellKindForField, ParamCellValue.kind, hsingle]
  case dummy8 =>
    have hsize := hwhole rfl
    obtain ⟨v, heap3, -, h⟩ := bind_eq_ok.1 h
    cases h
    simp [cellKindForField, ParamCellValue.kind, hsize]
  all_goals
    obtain ⟨v, heap3, -, h⟩ := bind_eq_ok.1 h
    cases h
    rfl

/-- An entry says the kind of its cell. -/
structure FieldLayoutEntry.Kinded (e : FieldLayoutEntry) : Prop where
  isBitField : e.isBitField = (e.displayType.isBitType && e.declaredBitSize != -1)
  cellKind : e.cellKind = cellKindForField e.displayType e.declaredBitSize e.arrayLength

theorem layoutFlushBits_kinded {s s' : LayoutState} (hs : ∀ e ∈ s.entries, e.Kinded)
    (h : layoutFlushBits s = .ok s') : ∀ e ∈ s'.entries, e.Kinded := by
  unfold layoutFlushBits at h
  split at h
  · cases h
    exact hs
  · split at h
    · cases h
    · split at h
      · cases h
      · cases h
        exact mem_modify (fun e he => ⟨he.1, he.2⟩) hs _

theorem kinded_append {entries : List FieldLayoutEntry} {entry : FieldLayoutEntry} (hs : ∀ e ∈ entries, e.Kinded)
    (he : entry.Kinded) : ∀ e ∈ entries ++ [entry], e.Kinded := by
  intro e hmem
  rcases List.mem_append.1 hmem with hmem | hmem
  · exact hs e hmem
  · rw [List.mem_singleton.1 hmem]
    exact he

theorem layoutField_kinded {versionAware : Bool} {f : ParamdefField} {s s' : LayoutState}
    (hs : ∀ e ∈ s.entries, e.Kinded) (h : layoutField versionAware s f = .ok s') : ∀ e ∈ s'.entries, e.Kinded := by
  unfold layoutField at h
  split at h
  · cases h
    exact hs
  · split at h
    · next hbit =>
        unfold layoutBitField at h
        split at h
        · cases h
        · split at h
          · cases h
          · obtain ⟨s1, hopen, h⟩ := except_bind_eq_ok.1 h
            cases h
            refine kinded_append ?_ ⟨hbit.symm, rfl⟩
            obtain ⟨-, rfl, -⟩ | ⟨-, s2, hflush, rfl⟩ := layoutOpenWindow_cases hbit hopen
            · exact hs
            · have hs2 : ∀ e ∈ s2.entries, e.Kinded := layoutFlushBits_kinded hs hflush
              exact hs2
    · next hplain =>
        obtain ⟨s1, hflush, h⟩ := except_bind_eq_ok.1 h
        dsimp only at h
        split at h
        · cases h
        · split at h
          · cases h
          · cases h
            exact kinded_append (layoutFlushBits_kinded hs hflush) ⟨(Bool.eq_false_iff.2 hplain).symm, rfl⟩

theorem layoutFold_kinded {versionAware : Bool} {fields : List ParamdefField} {s s' : LayoutState}
    (hs : ∀ e ∈ s.entries, e.Kinded) (h : fields.foldlM (layoutField versionAware) s = .ok s') :
    ∀ e ∈ s'.entries, e.Kinded := by
  induction fields generalizing s with
  | nil =>
      cases h
      exact hs
  | cons f fields ih =>
      rw [List.foldlM_cons, except_bind_eq_ok] at h
      obtain ⟨s1, hf, h⟩ := h
      exact ih (layoutField_kinded hs hf) h

theorem Paramdef.LaidOut.kinded {d : Paramdef} {layout : FieldLayout} (h : d.LaidOut layout) :
    ∀ e ∈ layout.entries, e.Kinded := by
  obtain ⟨heap, heap', hbuild⟩ := h
  obtain ⟨s, hs, hentries⟩ := buildFieldLayout_eq_ok hbuild
  obtain ⟨s1, hfold, hflush⟩ := except_bind_eq_ok.1 hs
  rw [hentries]
  have hinit : ∀ e ∈ ({} : LayoutState).entries, e.Kinded := fun e he => absurd he List.not_mem_nil
  exact layoutFlushBits_kinded (layoutFold_kinded hinit hfold) hflush

/-- A round adds the cell of its entry. -/
theorem readCell_laidBy {os : Win32} {bigEndian : Bool} {parentRow : Nat} {data : List UInt8} {e : FieldLayoutEntry}
    {rest done : List FieldLayoutEntry} {s s' : ReadCells} {heap heap' : Heap} (he : e.Kinded)
    (hs : List.Forall₂ ParamCell.LaidBy s.cells done)
    (h : readCell os bigEndian parentRow data e rest s heap = (.ok s', heap')) :
    List.Forall₂ ParamCell.LaidBy s'.cells (done ++ [e]) := by
  have hbits := he.isBitField
  unfold readCell at h
  split at h
  · next hbit =>
      obtain ⟨⟨value, bits⟩, heap1, hread, h⟩ := bind_eq_ok.1 h
      cases h
      rw [lift_run, Prod.mk.injEq] at hread
      obtain ⟨bits1, -, hread⟩ := except_bind_eq_ok.1 hread.1
      obtain ⟨⟨signed, raw⟩, -, hread⟩ := except_bind_eq_ok.1 hread
      obtain ⟨value1, hassign, hread⟩ := except_bind_eq_ok.1 hread
      rw [hbit, eq_comm, Bool.and_eq_true, bne_iff_ne] at hbits
      split at hread
      · cases hread
      · cases hread
        have hkind : value.kind = e.cellKind := by rw [he.cellKind, assignIntegralCell_kind hbits.2 hassign]
        exact List.rel_append hs (.cons ⟨parentRow, value, hkind, rfl⟩ .nil)
  · next hplain =>
      obtain ⟨value, heap1, hread, h⟩ := bind_eq_ok.1 h
      cases h
      rw [Bool.eq_false_iff.2 hplain, eq_comm] at hbits
      have hkind : value.kind = e.cellKind := by rw [he.cellKind, readNonbitCell_kind hbits hread]
      exact List.rel_append hs (.cons ⟨parentRow, value, hkind, rfl⟩ .nil)

theorem sweep_readCell_laidBy {os : Win32} {bigEndian : Bool} {parentRow : Nat} {data : List UInt8}
    {rest done : List FieldLayoutEntry} {s s' : ReadCells} {heap heap' : Heap} (hrest : ∀ e ∈ rest, e.Kinded)
    (hs : List.Forall₂ ParamCell.LaidBy s.cells done)
    (h : sweep (readCell os bigEndian parentRow data) rest s heap = (.ok s', heap')) :
    List.Forall₂ ParamCell.LaidBy s'.cells (done ++ rest) := by
  induction rest generalizing done s heap with
  | nil =>
      cases h
      simpa using hs
  | cons e rest ih =>
      rw [List.forall_mem_cons] at hrest
      obtain ⟨s1, heap1, hstep, h⟩ := bind_eq_ok.1 h
      simpa using ih hrest.2 (readCell_laidBy hrest.1 hs hstep) h

/-- A row that has data gets the cells of the description. -/
theorem appliedTo_of_apply {os : Win32} {d : Paramdef} {i : Nat} {s s' : RowState} {row : ParamRow}
    (hrow : s.param.rows[i]? = some row) (hdata : row.isEmpty = false)
    (hcache : ∀ layout, s.layoutCache = some layout → d.LaidOut layout)
    (hrun : applyParamdefToRow os d i s = (.ok (), s')) :
    ∃ row', s'.param.rows[i]? = some row' ∧ row'.data = row.data ∧ d.AppliedTo row' := by
  rw [applyParamdefToRow_run os d hrow hdata] at hrun
  rcases hfetch : fetchLayout d s.layoutCache s.heap with ⟨e | layout, heap⟩
  · rw [hfetch] at hrun
    cases hrun
  have hlaid : d.LaidOut layout := by
    rcases hkept : s.layoutCache with _ | kept
    · rw [hkept] at hfetch
      exact ⟨_, _, hfetch⟩
    · rw [hkept] at hfetch
      cases hfetch
      exact hcache layout hkept
  rw [hfetch] at hrun
  dsimp only at hrun
  rcases hcells : newCells os s.param.bigEndian i row.data layout heap with ⟨e | cells, heap'⟩
  · rw [hcells] at hrun
    cases hrun
  rw [hcells] at hrun
  cases hrun
  refine ⟨{ row with applied := some ⟨cells, layout.rowDataSize⟩ }, ?_, rfl, layout, cells, hlaid, rfl, ?_⟩
  · rw [Param.setApplied, List.getElem?_modify_eq, hrow]
    rfl
  · obtain ⟨-, heap1, -, hcells⟩ := bind_eq_ok.1 hcells
    obtain ⟨t, heap2, hsweep, hcells⟩ := bind_eq_ok.1 hcells
    cases hcells
    have hstart : List.Forall₂ ParamCell.LaidBy ({} : ReadCells).cells [] := .nil
    exact sweep_readCell_laidBy hlaid.kinded hstart hsweep

end Applying

/-! ## Faithful copies -/

/-- After a copy between rows with the cells of one description, the rows agree exactly if every cell receives its
value. -/
theorem row_copy_faithful_iff (os : Win32) (d : Paramdef) (dst src : Nat) (s s' : RowState) (dstRow srcRow : ParamRow)
    (hne : dst ≠ src) (hdst : s.param.rows[dst]? = some dstRow) (hsrc : s.param.rows[src]? = some srcRow)
    (hdstApplied : d.AppliedTo dstRow) (hsrcApplied : d.AppliedTo srcRow) (hrun : rowCopy dst src s = (.ok (), s')) :
    s'.param.CopiedFaithfully os dst src ↔
      ReceivesAll s.param dstRow.cells (srcRow.cells.map ParamCell.value) s.heap := by
  obtain ⟨layout, cells, hlayout, hcells, hlaid⟩ := hdstApplied
  obtain ⟨layout', srcs, hlayout', hsrcs, hlaid'⟩ := hsrcApplied
  obtain rfl := hlayout.unique hlayout'
  have hkinds := kinds_of_laidBy hlaid hlaid'
  have hcopied := rowCopy_eq_ok hne hdst hsrc hcells hsrcs hkinds hrun
  have hlaidCopied := laidBy_copiedCells s.param s.heap hlaid hkinds
  have hdstCells : dstRow.cells = cells := by rw [ParamRow.cells, hcells]
  have hsrcCells : srcRow.cells = srcs := by rw [ParamRow.cells, hsrcs]
  have hlen : cells.length = (srcs.map ParamCell.value).length := by rw [List.length_map, hkinds.length_eq]
  rw [hdstCells, hsrcCells, ← map_value_copiedCells_iff s.param s.heap hlen]
  generalize copiedCells s.param cells (srcs.map ParamCell.value) s.heap = copies at hcopied hlaidCopied
  -- the two rows behind the copy
  obtain ⟨dstRow', hdst', hdstApplied'⟩ := Option.bind_eq_some_iff.1 hcopied.cells
  have hother := hcopied.others src (Ne.symm hne)
  rw [hsrc, Option.bind_some, hsrcs] at hother
  obtain ⟨srcRow', hsrc', hsrcApplied'⟩ := Option.bind_eq_some_iff.1 hother
  have hdstValues : s'.param.cellValues dst = some (copies.map ParamCell.value) := by
    rw [Param.cellValues, hdst', Option.map_some, ParamRow.cells, hdstApplied']
  have hsrcValues : s'.param.cellValues src = some (srcs.map ParamCell.value) := by
    rw [Param.cellValues, hsrc', Option.map_some, ParamRow.cells, hsrcApplied']
  constructor
  · intro hfaithful
    exact Option.some.inj (hdstValues.symm.trans (hfaithful.values.trans hsrcValues))
  · intro hvalues
    refine ⟨by rw [hdstValues, hsrcValues, hvalues], fun heap => ?_⟩
    rw [Param.rowBytes, Param.rowBytes, hdst', hsrc']
    dsimp only
    rw [hdstApplied', hsrcApplied']
    dsimp only
    rw [← rowCellsToBytes_unlinked os _ copies, ← rowCellsToBytes_unlinked os _ srcs,
      map_unlinked_of_laidBy hlaidCopied hlaid' hvalues]

/-! ## Samples -/

/-- A row of one byte and one cell. -/
def soleCellRow (entry : FieldLayoutEntry) (i : Nat) (data : UInt8) (value : ParamCellValue) : ParamRow where
  id := 0
  dataOffset := 0x40
  data := [data]
  applied := some ⟨[initCellFromLayout entry i value], 1⟩

/-- Two rows of one cell. -/
def soleCellRows (entry : FieldLayoutEntry) (value : UInt8 → ParamCellValue) : Param :=
  { byteRows [] with rows := [soleCellRow entry 0 0 (value 0), soleCellRow entry 1 1 (value 1)] }

/-- A bit of padding. -/
def solePadding : Paramdef := .bare [.bare .dummy8 1] 1

theorem solePadding_applied (i : Nat) (data : UInt8) :
    solePadding.AppliedTo (soleCellRow (bitEntry (.bare .dummy8 1) { bitLimit := 8 }) i data (.dummy8Bit data)) :=
  ⟨_, _, ⟨[], [], rfl⟩, rfl, .cons ⟨i, .dummy8Bit data, rfl, rfl⟩ .nil⟩

/-- Two bit fields, a word and a float. -/
def mixedFields : Paramdef := .bare [.bare .u8 3, .bare .u8 5, .bare .s16 (-1), .bare .f32 (-1)] 7

def mixedRow (i : Nat) (data : List UInt8) (low high : UInt8) (word : Int16) (float : UInt32) : ParamRow where
  id := Int32.ofNat i
  dataOffset := 0x40
  data := data
  applied := some ⟨[initCellFromLayout (bitEntry (.bare .u8 3) { bitLimit := 8 }) i (.u8 low),
    initCellFromLayout (bitEntry (.bare .u8 5) { bitOffset := 3, bitLimit := 8 }) i (.u8 high),
    initCellFromLayout (plainEntry (.bare .s16 (-1)) 1) i (.s16 word),
    initCellFromLayout (plainEntry (.bare .f32 (-1)) 3) i (.f32 float)], 7⟩

theorem mixedRow_applied (i : Nat) (data : List UInt8) (low high : UInt8) (word : Int16) (float : UInt32) :
    mixedFields.AppliedTo (mixedRow i data low high word float) :=
  ⟨_, _, ⟨[], [], rfl⟩, rfl, .cons ⟨i, .u8 low, rfl, rfl⟩ (.cons ⟨i, .u8 high, rfl, rfl⟩
    (.cons ⟨i, .s16 word, rfl, rfl⟩ (.cons ⟨i, .f32 float, rfl, rfl⟩ .nil)))⟩

def mixedRows : Param :=
  { byteRows [] with
    rows := [mixedRow 0 (List.replicate 7 0) 0 0 0 0,
      mixedRow 1 [0xA5, 0xFE, 0xFF, 0, 0, 0x80, 0x3F] 5 20 (-2) 0x3F800000] }

theorem mixed_row_copied : (rowCopy 0 1 ⟨mixedRows, none, []⟩).2.param.CopiedFaithfully .ascii 0 1 := by
  have hrun : (rowCopy 0 1 ⟨mixedRows, none, []⟩).1 = .ok () := by decide +kernel
  refine (row_copy_faithful_iff .ascii mixedFields 0 1 _ _ _ _ (by decide) rfl rfl (mixedRow_applied ..)
    (mixedRow_applied ..) (Prod.ext hrun rfl)).2 ⟨?_, ?_, ?_, ?_, trivial⟩
  all_goals
    rw [ParamCell.Receives, if_pos (by decide +kernel)]
    rfl

/-- The bit of padding is refused, and the copy succeeds. -/
theorem padding_row_not_copied :
    ¬ (∀ (os : Win32) (d : Paramdef) (dst src : Nat) (s s' : RowState) (dstRow srcRow : ParamRow), dst ≠ src →
        s.param.rows[dst]? = some dstRow → s.param.rows[src]? = some srcRow → d.AppliedTo dstRow → d.AppliedTo srcRow →
        dstRow.data.length = srcRow.data.length → rowCopy dst src s = (.ok (), s') →
        s'.param.CopiedFaithfully os dst src) := by
  intro hall
  have hrun : (rowCopy 0 1 ⟨soleCellRows (bitEntry (.bare .dummy8 1) { bitLimit := 8 }) .dummy8Bit, none, []⟩).1 =
      .ok () := by decide +kernel
  have hfaithful := hall .ascii solePadding 0 1 _ _ _ _ (by decide) rfl rfl (solePadding_applied 0 0)
    (solePadding_applied 1 1) rfl (Prod.ext hrun rfl)
  have hvalues := hfaithful.values
  revert hvalues
  decide +kernel

end SoulsFormats
