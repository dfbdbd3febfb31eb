import SoulsFormats.Param.BitAccesses
import SoulsFormats.Param.CellSetters

set_option autoImplicit false

/-! # Copies of rows

A row is copied cell by cell through the setters, and an error of a setter is not looked at: the cell then keeps its
value. Padding bits and wide texts are refused by the setter that they are handed to, and a truth value is set to 0
or 1. -/

namespace SoulsFormats

open Bytes Fallible

/-! ## What a setter takes -/

/-- A number is stored: in the window of its bits, or in bytes of its own. -/
def ParamCell.takesNumber (cell : ParamCell) (p : Param) (byteCount : Nat) : Bool :=
  if cell.isBitField then 0 < cell.bitSize.toInt && cell.bitLimit != 0 && cell.backed p (cell.bitLimit / 8)
  else cell.backed p byteCount

/-- The setter that a value is handed to takes it, if it gets its block. -/
def ParamCell.takes (cell : ParamCell) (p : Param) : ParamCellValue → Bool
  | .s8 _ | .u8 _ => cell.takesNumber p 1
  | .s16 _ | .u16 _ => cell.takesNumber p 2
  | .s32 _ | .u32 _ | .b32 _ | .f32 _ | .angle32 _ => cell.takesNumber p 4
  | .s64 _ | .u64 _ | .f64 _ => cell.takesNumber p 8
  | .u8Array bytes | .dummy8Array bytes =>
    cellDeclaredSize cell != 0 && bytes.length ≤ cellDeclaredSize cell && cell.backed p bytes.length
  | .fixstr utf8 =>
    cellDeclaredSize cell != 0 && utf8.length ≤ cellDeclaredSize cell && cell.backed p (cellDeclaredSize cell)
  | .dummy8Bit _ | .fixstrW _ => false

namespace ParamCellValue

/-- The size of the block that a setter asks for. -/
def block : ParamCellValue → Option Nat
  | .u8Array bytes | .dummy8Array bytes => some bytes.length
  | .fixstr utf8 => some (utf8.length + 1)
  | _ => none

/-- The setter gets its block, or does without. -/
def granted (value : ParamCellValue) (heap : Heap) : Bool :=
  match value.block with
  | none => true
  | some size => size = 0 || decide heap.Grants

/-- What a setter stores of a value. -/
def settled : ParamCellValue → ParamCellValue
  | .b32 v => .b32 (boolWord (v != 0))
  | v => v

end ParamCellValue

/-- The value that a cell has behind a copy. -/
def ParamCell.copied (cell : ParamCell) (p : Param) (value : ParamCellValue) (heap : Heap) : ParamCellValue :=
  if cell.takes p value && value.granted heap then value.settled else cell.value

/-- The allocator behind a copy. -/
def ParamCell.heapAfter (cell : ParamCell) (p : Param) (value : ParamCellValue) (heap : Heap) : Heap :=
  if cell.takes p value && value.block.isSome then (Heap.alloc heap).2 else heap

def ParamCell.withValue (cell : ParamCell) (value : ParamCellValue) : ParamCell := { cell with value := value }

/-! ## The parameter while a row is copied -/

/-- The row has these cells by now. Other cells and the sizes of all data are as they were. -/
structure Param.Copying (p0 p : Param) (dst : Nat) (cells : List ParamCell) (size : Nat) : Prop where
  cells : (p.rows[dst]?.bind ParamRow.applied) = some ⟨cells, size⟩
  others : ∀ i : Nat, i ≠ dst → (p.rows[i]?.bind ParamRow.applied) = p0.rows[i]?.bind ParamRow.applied
  sizes : ∀ i, p.dataSizeAt i = p0.dataSizeAt i
  bigEndian : p.bigEndian = p0.bigEndian

theorem ParamCell.backed_congr (cell : ParamCell) {p p' : Param} (h : ∀ i, p.dataSizeAt i = p'.dataSizeAt i)
    (bytesNeeded : Nat) : cell.backed p bytesNeeded = cell.backed p' bytesNeeded := by
  rw [backed, backed, h]

section Copying

variable {p0 p : Param} {dst : Nat} {cells : List ParamCell} {size : Nat}

theorem Param.Copying.cellAt (h : Param.Copying p0 p dst cells size) (c : Nat) : p.cellAt dst c = cells[c]? := by
  have hcells := h.cells
  rw [Param.cellAt]
  rcases hrow : p.rows[dst]? with _ | row
  · rw [hrow] at hcells
    cases hcells
  · rw [hrow] at hcells
    have happlied : row.applied = some ⟨cells, size⟩ := hcells
    simp [happlied]

/-- Data of the same size is stored. -/
theorem Param.Copying.setRowData (h : Param.Copying p0 p dst cells size) {r : Nat} {data : List UInt8}
    (hsize : p.dataSizeAt r = some data.length) : Param.Copying p0 (p.setRowData r data) dst cells size := by
  have happlied : ∀ i : Nat, ((p.setRowData r data).rows[i]?.bind ParamRow.applied) = p.rows[i]?.bind ParamRow.applied := by
    intro i
    rw [Param.setRowData, List.getElem?_modify]
    rcases p.rows[i]? with _ | row
    · rfl
    · split <;> rfl
  refine ⟨(happlied dst).trans h.cells, fun i hi => (happlied i).trans (h.others i hi), fun i => ?_, h.bigEndian⟩
  rw [← h.sizes i, Param.dataSizeAt, Param.setRowData]
  by_cases hi : r = i
  · subst hi
    rw [List.getElem?_modify_eq]
    rw [Param.dataSizeAt] at hsize ⊢
    rcases hrow : p.rows[r]? with _ | row
    · rfl
    · rw [hrow] at hsize
      simpa using hsize.symm
  · rw [List.getElem?_modify_ne _ _ hi]
    rfl

/-- A cell of the row gets a value. -/
theorem Param.Copying.setCellValue (h : Param.Copying p0 p dst cells size) (c : Nat) (value : ParamCellValue) :
    Param.Copying p0 (p.setCellValue dst c value) dst (cells.modify c fun cell => cell.withValue value) size := by
  refine ⟨?_, fun i hi => ?_, fun i => ?_, h.bigEndian⟩
  · have hcells := h.cells
    rw [Param.setCellValue, List.getElem?_modify_eq]
    rcases hrow : p.rows[dst]? with _ | row
    · rw [hrow] at hcells
      cases hcells
    · rw [hrow] at hcells
      have happlied : row.applied = some ⟨cells, size⟩ := hcells
      simp [happlied, ParamCell.withValue]
  · rw [← h.others i hi, Param.setCellValue, List.getElem?_modify_ne _ _ (Ne.symm hi)]
  · rw [← h.sizes i, Param.dataSizeAt, Param.setCellValue, List.getElem?_modify, Param.dataSizeAt]
    rcases p.rows[i]? with _ | row
    · rfl
    · split <;> rfl

end Copying

/-! ## Stores -/

section Stores

variable {p : Param} {cell : ParamCell} {data data' : List UInt8} {e : SfError}

theorem checkCellBacking_ok {bytesNeeded : Nat} (h : checkCellBacking p cell bytesNeeded = .ok data) :
    cell.backed p bytesNeeded = true ∧ p.dataSizeAt cell.parentRow = some data.length ∧
      cell.byteOffset + bytesNeeded ≤ data.length := by
  unfold checkCellBacking at h
  split at h
  · cases h
  · next row hrow =>
      split at h
      · next hbacked =>
          cases h
          have hsize : p.dataSizeAt cell.parentRow = some row.data.length := by rw [Param.dataSizeAt, hrow]; rfl
          refine ⟨hbacked, hsize, ?_⟩
          simp only [ParamCell.backed, hsize, Bool.and_eq_true, decide_eq_true_eq] at hbacked
          omega
      · cases h

theorem checkCellBacking_error {bytesNeeded : Nat} (h : checkCellBacking p cell bytesNeeded = .error e) :
    e = .undefinedBehaviour ∨ cell.backed p bytesNeeded = false := by
  unfold checkCellBacking at h
  split at h
  · cases h
    exact Or.inl rfl
  · split at h
    · cases h
    · next hbacked => exact Or.inr (Bool.eq_false_iff.2 hbacked)

theorem storeWord_ok {offset n v : Nat} {bigEndian : Bool} (h : storeWord data offset n v bigEndian = .ok data') :
    data'.length = data.length := by
  unfold storeWord at h
  split at h
  · cases h
  · next hin =>
      cases h
      rw [length_overwrite, length_wordBytes]
      omega

theorem storeWord_error {offset n v : Nat} {bigEndian : Bool} (h : storeWord data offset n v bigEndian = .error e) :
    e = .undefinedBehaviour := by
  unfold storeWord at h
  split at h <;> cases h
  rfl

theorem loadBitWindow_error {offset n : Nat} {bigEndian : Bool} (h : loadBitWindow data offset n bigEndian = .error e) :
    e = .undefinedBehaviour := by
  unfold loadBitWindow loadWord at h
  split at h
  · split at h <;> cases h
    rfl
  · cases h

theorem storeCellBitWindow_ok {offset n : Nat} {v : UInt64} {bigEndian : Bool}
    (h : storeCellBitWindow data offset n v bigEndian = .ok data') : data'.length = data.length := by
  unfold storeCellBitWindow at h
  split at h
  · exact storeWord_ok h
  · cases h
    rfl

theorem storeCellBitWindow_error {offset n : Nat} {v : UInt64} {bigEndian : Bool}
    (h : storeCellBitWindow data offset n v bigEndian = .error e) : e = .undefinedBehaviour := by
  unfold storeCellBitWindow at h
  split at h
  · exact storeWord_error h
  · cases h

/-- A number is stored where the cell takes it, in data of the same size. -/
theorem writeCellBacking_ok {value : UInt64} {byteCount : Nat} (h : writeCellBacking p cell value byteCount = .ok data) :
    cell.takesNumber p byteCount = true ∧ p.dataSizeAt cell.parentRow = some data.length := by
  unfold writeCellBacking at h
  unfold ParamCell.takesNumber
  split at h
  · next hbit =>
      rw [if_pos hbit]
      split at h
      · cases h
      · next hsized =>
          split at h
          · cases h
          · obtain ⟨old, hcheck, h⟩ := except_bind_eq_ok.1 h
            obtain ⟨window, -, h⟩ := except_bind_eq_ok.1 h
            obtain ⟨hbacked, hsize, -⟩ := checkCellBacking_ok hcheck
            rw [not_or] at hsized
            have hpos : 0 < cell.bitSize.toInt := by omega
            rw [storeCellBitWindow_ok h, hbacked, hsize]
            simp only [Bool.and_true, Bool.and_eq_true, decide_eq_true_eq, bne_iff_ne, and_true]
            exact ⟨hpos, hsized.2⟩
  · next hplain =>
      rw [if_neg hplain]
      obtain ⟨old, hcheck, h⟩ := except_bind_eq_ok.1 h
      obtain ⟨hbacked, hsize, -⟩ := checkCellBacking_ok hcheck
      rw [storeWord_ok h]
      exact ⟨hbacked, hsize⟩

theorem writeCellBacking_error {value : UInt64} {byteCount : Nat}
    (h : writeCellBacking p cell value byteCount = .error e) :
    e = .undefinedBehaviour ∨ cell.takesNumber p byteCount = false := by
  unfold writeCellBacking at h
  unfold ParamCell.takesNumber
  split at h
  · next hbit =>
      rw [if_pos hbit]
      split at h
      · next hsized =>
          right
          rcases hsized with hsize | hlimit
          · have hnot : ¬ 0 < cell.bitSize.toInt := by omega
            simp [hnot]
          · simp [hlimit]
      · split at h
        · cases h
          exact Or.inl rfl
        · rcases except_bind_eq_error h with hcheck | ⟨old, -, h⟩
          · rcases checkCellBacking_error hcheck with hub | hbacked
            · exact Or.inl hub
            · exact Or.inr (by rw [hbacked, Bool.and_false])
          · left
            rcases except_bind_eq_error h with hload | ⟨window, -, h⟩
            · exact loadBitWindow_error hload
            · exact storeCellBitWindow_error h
  · next hplain =>
      rw [if_neg hplain]
      rcases except_bind_eq_error h with hcheck | ⟨old, -, h⟩
      · exact checkCellBacking_error hcheck
      · exact Or.inl (storeWord_error h)

end Stores

/-! ## Setters -/

section Setters

variable {p0 : Param} {dst c size : Nat} {cells : List ParamCell} {cell : ParamCell} {s s' : RowState}
  {r : Except SfError Unit} {value : ParamCellValue}

theorem takesNumber_congr (cell : ParamCell) {p p' : Param} (h : ∀ i, p.dataSizeAt i = p'.dataSizeAt i) (n : Nat) :
    cell.takesNumber p n = cell.takesNumber p' n := by
  rw [ParamCell.takesNumber, ParamCell.takesNumber, cell.backed_congr h, cell.backed_congr h]

/-- What a copy leaves of a row and of the allocator. -/
def CopyLeaves (p0 : Param) (dst c size : Nat) (cells : List ParamCell) (cell : ParamCell) (value : ParamCellValue)
    (heap : Heap) (s' : RowState) : Prop :=
  Param.Copying p0 s'.param dst (cells.modify c fun d => d.withValue (cell.copied p0 value heap)) size ∧
    s'.heap = cell.heapAfter p0 value heap

theorem modify_withValue_self (hcell : cells[c]? = some cell) :
    (cells.modify c fun d => d.withValue cell.value) = cells := by
  apply List.ext_getElem?
  intro i
  rw [List.getElem?_modify]
  rcases hi : cells[i]? with _ | d
  · rfl
  · show some (if c = i then d.withValue cell.value else d) = some d
    split
    · next heq =>
        subst heq
        rw [hcell] at hi
        cases hi
        rfl
    · rfl

/-- A value that is not taken leaves the cell. -/
theorem copyLeaves_of_refused {heap : Heap} (hc : Param.Copying p0 s'.param dst cells size)
    (hcell : cells[c]? = some cell) (hrefused : (cell.takes p0 value && value.granted heap) = false)
    (hheap : s'.heap = cell.heapAfter p0 value heap) : CopyLeaves p0 dst c size cells cell value heap s' := by
  refine ⟨?_, hheap⟩
  rw [ParamCell.copied, hrefused, if_neg Bool.false_ne_true, modify_withValue_self hcell]
  exact hc

theorem findCell_run (hc : Param.Copying p0 s.param dst cells size) (hcell : cells[c]? = some cell) :
    findCell dst c s = (.ok cell, s) := by
  rw [findCell, state_bind_run, hc.cellAt, hcell]
  rfl

theorem copyLeaves_setScalar (hc : Param.Copying p0 s.param dst cells size) (hcell : cells[c]? = some cell)
    {kind : ParamCellKind} {raw : UInt64} {n : Nat} (hkind : cell.value.kind = kind)
    (htakes : cell.takes p0 value = cell.takesNumber p0 n) (hblock : value.block = none)
    (hrun : setScalar dst c kind raw n value.settled s = (r, s')) (hr : r ≠ .error .undefinedBehaviour) :
    CopyLeaves p0 dst c size cells cell value s.heap s' := by
  have hheap : s.heap = cell.heapAfter p0 value s.heap := by
    rw [ParamCell.heapAfter, hblock, Option.isSome_none, Bool.and_false, if_neg Bool.false_ne_true]
  have hgranted : value.granted s.heap = true := by rw [ParamCellValue.granted, hblock]
  rw [setScalar, bind_ok (findCell_run hc hcell), check_bind_pos hkind, state_bind_run] at hrun
  rcases hstore : writeCellBacking s.param cell raw n with e | data
  · rw [hstore, bind_error (lift_run _ _)] at hrun
    cases hrun
    rcases writeCellBacking_error hstore with hub | hrefused
    · exact absurd (congrArg Except.error hub) hr
    · rw [takesNumber_congr cell hc.sizes, ← htakes] at hrefused
      exact copyLeaves_of_refused hc hcell (by rw [hrefused, Bool.false_and]) hheap
  · obtain ⟨htaken, hsize⟩ := writeCellBacking_ok hstore
    rw [hstore, bind_ok (lift_run _ _), updateParam_bind_run, updateParam_run] at hrun
    cases hrun
    rw [takesNumber_congr cell hc.sizes, ← htakes] at htaken
    refine ⟨?_, hheap⟩
    rw [ParamCell.copied, htaken, hgranted, Bool.and_self, if_pos rfl]
    exact (hc.setRowData hsize).setCellValue c value.settled

theorem fillBytes_ok {data data' bytes : List UInt8} {offset capacity : Nat}
    (hle : bytes.length ≤ capacity) (h : fillBytes data offset capacity bytes = .ok data') :
    data'.length = data.length := by
  unfold fillBytes at h
  split at h
  · cases h
  · cases h
    rw [length_overwrite, List.length_append, List.length_replicate]
    omega

theorem fillBytes_error {data bytes : List UInt8} {offset capacity : Nat} {e : SfError}
    (h : fillBytes data offset capacity bytes = .error e) : e = .undefinedBehaviour := by
  unfold fillBytes at h
  split at h <;> cases h
  rfl

/-- A block is there, or is not needed, or is refused. -/
theorem newBlock_run (blockSize : Nat) (s : RowState) :
    ∃ res, newBlock blockSize s = (res, { s with heap := (Heap.alloc s.heap).2 }) ∧
      (res = .ok () ∧ (blockSize = 0 ∨ s.heap.Grants) ∨ res = .error .oom ∧ ¬ (blockSize = 0 ∨ s.heap.Grants)) := by
  have hattempt : attempt (onAllocator Heap.alloc) s =
      (.ok (Heap.alloc s.heap).1, { s with heap := (Heap.alloc s.heap).2 }) := rfl
  by_cases hgrants : s.heap.Grants
  · obtain ⟨junk, hjunk⟩ := Heap.alloc_of_grants hgrants
    rw [hjunk] at hattempt
    exact ⟨.ok (), by rw [newBlock, bind_ok hattempt]; rfl, Or.inl ⟨rfl, Or.inr hgrants⟩⟩
  · rw [Heap.alloc_of_not_grants hgrants] at hattempt
    by_cases hzero : blockSize = 0
    · refine ⟨.ok (), ?_, Or.inl ⟨rfl, Or.inl hzero⟩⟩
      rw [newBlock, bind_ok hattempt]
      exact (check_run _ _ _).trans (by rw [if_pos hzero])
    · refine ⟨.error .oom, ?_, Or.inr ⟨rfl, by simp [hzero, hgrants]⟩⟩
      rw [newBlock, bind_ok hattempt]
      exact (check_run _ _ _).trans (by rw [if_neg hzero])

/-- The data under a cell is filled exactly if the cell has room, and its row for what is checked. -/
theorem fillCell_run (cell : ParamCell) (hc : Param.Copying p0 s.param dst cells size) (bytesNeeded : Nat) (bytes : List UInt8) :
    (∃ p, fillCell cell bytesNeeded bytes s = (.ok (), { s with param := p }) ∧ Param.Copying p0 p dst cells size ∧
      (cellDeclaredSize cell != 0 && bytes.length ≤ cellDeclaredSize cell && cell.backed p0 bytesNeeded) = true) ∨
    ∃ e, fillCell cell bytesNeeded bytes s = (.error e, s) ∧ (e = .undefinedBehaviour ∨
      (cellDeclaredSize cell != 0 && bytes.length ≤ cellDeclaredSize cell && cell.backed p0 bytesNeeded) = false) := by
  unfold fillCell
  by_cases hcapacity : cellDeclaredSize cell ≠ 0
  swap
  · right
    rw [check_bind_neg hcapacity]
    rw [ne_eq, Decidable.not_not] at hcapacity
    exact ⟨_, rfl, Or.inr (by rw [hcapacity]; rfl)⟩
  by_cases hfits : bytes.length ≤ cellDeclaredSize cell
  swap
  · right
    rw [check_bind_pos hcapacity, check_bind_neg hfits]
    exact ⟨_, rfl, Or.inr (by rw [decide_eq_false hfits, Bool.and_false, Bool.false_and])⟩
  rw [check_bind_pos hcapacity, check_bind_pos hfits, state_bind_run]
  rcases hcheck : checkCellBacking s.param cell bytesNeeded with e | data
  · right
    rw [bind_error (lift_run _ _)]
    refine ⟨e, rfl, (checkCellBacking_error hcheck).imp id fun hbacked => ?_⟩
    rw [← cell.backed_congr hc.sizes, hbacked, Bool.and_false]
  obtain ⟨hbacked, hsize, -⟩ := checkCellBacking_ok hcheck
  rw [bind_ok (lift_run _ _)]
  rcases hfill : fillBytes data cell.byteOffset (cellDeclaredSize cell) bytes with e | data'
  · right
    rw [bind_error (lift_run _ _)]
    exact ⟨e, rfl, Or.inl (fillBytes_error hfill)⟩
  · left
    rw [bind_ok (lift_run _ _), updateParam_run]
    refine ⟨_, rfl, hc.setRowData (hsize.trans (congrArg some (fillBytes_ok hfits hfill).symm)), ?_⟩
    rw [← cell.backed_congr hc.sizes, hbacked, decide_eq_true hfits]
    simpa using hcapacity

/-- A value with bytes is stored behind its block. -/
theorem copyLeaves_fill (hc : Param.Copying p0 s.param dst cells size) (hcell : cells[c]? = some cell)
    {bytesNeeded blockSize : Nat} {bytes : List UInt8}
    (htakes : cell.takes p0 value =
      (cellDeclaredSize cell != 0 && bytes.length ≤ cellDeclaredSize cell && cell.backed p0 bytesNeeded))
    (hblock : value.block = some blockSize)
    (hrun : (fillCell cell bytesNeeded bytes >>= fun _ => newBlock blockSize >>= fun _ =>
      updateParam (Param.setCellValue dst c value.settled)) s = (r, s'))
    (hr : r ≠ .error .undefinedBehaviour) : CopyLeaves p0 dst c size cells cell value s.heap s' := by
  obtain ⟨p, hfill, hc', htaken⟩ | ⟨e, hfill, hub | hrefused⟩ := fillCell_run cell hc bytesNeeded bytes
  · rw [← htakes] at htaken
    have hheap : (Heap.alloc s.heap).2 = cell.heapAfter p0 value s.heap := by
      rw [ParamCell.heapAfter, htaken, hblock]
      rfl
    rw [bind_ok hfill] at hrun
    obtain ⟨res, hnew, ⟨rfl, hthere⟩ | ⟨rfl, hmissing⟩⟩ := newBlock_run blockSize { s with param := p }
    · have hgranted : value.granted s.heap = true := by simpa [ParamCellValue.granted, hblock] using hthere
      rw [bind_ok hnew, updateParam_run] at hrun
      cases hrun
      refine ⟨?_, hheap⟩
      rw [ParamCell.copied, htaken, hgranted, Bool.and_self, if_pos rfl]
      exact hc'.setCellValue c value.settled
    · have hgranted : value.granted s.heap = false := by simpa [ParamCellValue.granted, hblock] using hmissing
      rw [bind_error hnew] at hrun
      cases hrun
      exact copyLeaves_of_refused hc' hcell (by rw [hgranted, Bool.and_false]) hheap
  · rw [bind_error hfill] at hrun
    cases hrun
    exact absurd (congrArg Except.error hub) hr
  · rw [← htakes] at hrefused
    rw [bind_error hfill] at hrun
    cases hrun
    refine copyLeaves_of_refused hc hcell (by rw [hrefused, Bool.false_and]) ?_
    rw [ParamCell.heapAfter, hrefused, Bool.false_and, if_neg Bool.false_ne_true]

theorem copyLeaves_setBytes (hc : Param.Copying p0 s.param dst cells size) (hcell : cells[c]? = some cell)
    {bytes : List UInt8} (hvalue : value = .u8Array bytes ∨ value = .dummy8Array bytes)
    (hkind : cell.value.kind = value.kind) (hrun : setBytes dst c bytes s = (r, s'))
    (hr : r ≠ .error .undefinedBehaviour) : CopyLeaves p0 dst c size cells cell value s.heap s' := by
  have hisBytes : cell.value.kind.isBytes = true := by
    rw [hkind]
    rcases hvalue with rfl | rfl <;> rfl
  have hsettled : (if cell.value.kind = .u8Array then .u8Array bytes else .dummy8Array bytes) = value.settled := by
    rw [hkind]
    rcases hvalue with rfl | rfl <;> rfl
  rw [setBytes, bind_ok (findCell_run hc hcell), check_bind_pos hisBytes, hsettled] at hrun
  rcases hvalue with rfl | rfl
  · exact copyLeaves_fill hc hcell rfl rfl hrun hr
  · exact copyLeaves_fill hc hcell rfl rfl hrun hr

theorem copyLeaves_setFixstr (hc : Param.Copying p0 s.param dst cells size) (hcell : cells[c]? = some cell)
    {text : List UInt8} (hkind : cell.value.kind = .fixstr) (hrun : setFixstr dst c text s = (r, s'))
    (hr : r ≠ .error .undefinedBehaviour) : CopyLeaves p0 dst c size cells cell (.fixstr text) s.heap s' := by
  rw [setFixstr, bind_ok (findCell_run hc hcell), check_bind_pos hkind] at hrun
  exact copyLeaves_fill hc hcell rfl rfl hrun hr

/-- A setter refuses a kind that it is not for. -/
theorem copyLeaves_of_kind (hc : Param.Copying p0 s.param dst cells size) (hcell : cells[c]? = some cell)
    (htakes : cell.takes p0 value = false) (hsame : s' = s) :
    CopyLeaves p0 dst c size cells cell value s.heap s' := by
  subst hsame
  refine copyLeaves_of_refused hc hcell (by rw [htakes, Bool.false_and]) ?_
  rw [ParamCell.heapAfter, htakes, Bool.false_and, if_neg Bool.false_ne_true]

/-- A cell is copied by the setter that its value is handed to. -/
theorem copyLeaves_cellCopy (hc : Param.Copying p0 s.param dst cells size) (hcell : cells[c]? = some cell)
    (hkind : cell.value.kind = value.kind) (hrun : cellCopy dst c value s = (r, s'))
    (hr : r ≠ .error .undefinedBehaviour) : CopyLeaves p0 dst c size cells cell value s.heap s' := by
  unfold cellCopy at hrun
  rw [bind_ok (findCell_run hc hcell), check_bind_pos hkind] at hrun
  cases value
  case u8Array | dummy8Array => exact copyLeaves_setBytes hc hcell (by simp) hkind hrun hr
  case fixstr => exact copyLeaves_setFixstr hc hcell hkind hrun hr
  case dummy8Bit v =>
    have hwrong : ¬ cell.value.kind = .u8 := by
      rw [hkind]
      exact nofun
    dsimp only at hrun
    rw [setU8, setScalar, bind_ok (findCell_run hc hcell), check_bind_neg hwrong] at hrun
    cases hrun
    exact copyLeaves_of_kind hc hcell rfl rfl
  case fixstrW text =>
    have hwrong : ¬ cell.value.kind = .fixstr := by
      rw [hkind]
      exact nofun
    dsimp only at hrun
    rw [setFixstr, bind_ok (findCell_run hc hcell), check_bind_neg hwrong] at hrun
    cases hrun
    exact copyLeaves_of_kind hc hcell rfl rfl
  all_goals exact copyLeaves_setScalar hc hcell hkind rfl rfl hrun hr

end Setters

end SoulsFormats
