import SoulsFormats.Ac.ParamdbpRoundtrip

set_option autoImplicit false

/-! # DBPPARAM data

The model of the second half of `paramdbp.c`. A param is raw bytes until a schema is applied to it; then it is a cell
for each field of the schema, and only the cells are written. Values are copied as the machine, which is little-endian,
has them: the byte order of the schema is that of its own file. -/

namespace SoulsFormats

open Bytes Fallible

/-! ## Sizes -/

def paramdbpSizeFrom (sz : Nat) : List ParamdbpField → Except SfError Nat
  | [] => .ok sz
  | f :: fields =>
    if sz + dbpTypeSize f.type ≤ INT32_MAX then paramdbpSizeFrom (sz + dbpTypeSize f.type) fields
    else .error .undefinedBehaviour

/-- `sf_paramdbp_calculate_param_size`, whose sum is an `int`. -/
def paramdbpCalculateParamSize (d : Paramdbp) : Except SfError Nat := paramdbpSizeFrom 0 d.fields

/-- What the fields take. -/
def dbpFieldsSize (fields : List ParamdbpField) : Nat := (fields.map fun f => dbpTypeSize f.type).sum

@[simp] theorem dbpFieldsSize_nil : dbpFieldsSize [] = 0 := rfl

@[simp] theorem dbpFieldsSize_cons (f : ParamdbpField) (fields : List ParamdbpField) :
    dbpFieldsSize (f :: fields) = dbpTypeSize f.type + dbpFieldsSize fields := rfl

theorem paramdbpSizeFrom_eq_ok {sz needed : Nat} {fields : List ParamdbpField}
    (h : paramdbpSizeFrom sz fields = .ok needed) : needed = sz + dbpFieldsSize fields := by
  induction fields generalizing sz with
  | nil =>
      cases h
      simp
  | cons f fields ih =>
      rw [paramdbpSizeFrom] at h
      split at h
      · rw [ih h, dbpFieldsSize_cons, Nat.add_assoc]
      · cases h

theorem paramdbpCalculateParamSize_eq_ok {d : Paramdbp} {needed : Nat}
    (h : paramdbpCalculateParamSize d = .ok needed) : needed = dbpFieldsSize d.fields := by
  rw [paramdbpSizeFrom_eq_ok h, Nat.zero_add]

/-! ## The data -/

/-- `sf_dbpparam_cell_t`. -/
structure DbpparamCell where
  field : ParamdbpField
  value : field.type.Value

/-- `sf_dbpparam_t`; it is applied if it has a schema. -/
structure Dbpparam where
  rawBytes : List UInt8
  cells : List DbpparamCell
  dbp : Option Paramdbp

/-- `sf_dbpparam_create`. -/
def dbpparamCreate : Fallible Heap SfError Dbpparam := do
  let _ ← Heap.alloc
  pure ⟨[], [], none⟩

/-- `sf_dbpparam_read_from_memory`. -/
def dbpparamReadFromMemory (data : List UInt8) : Fallible Heap SfError Dbpparam := do
  let p ← dbpparamCreate
  let _ ← given (0 < data.length) [] Heap.alloc
  pure { p with rawBytes := data }

/-- The member of `sf_dbp_value_t` after these bytes have been copied into it. -/
def DbpType.ofBytes : (t : DbpType) → List UInt8 → t.Value
  | .s8, bs => (UInt8.ofNat (leNat bs)).toInt8
  | .u8, bs => UInt8.ofNat (leNat bs)
  | .s16, bs => (UInt16.ofNat (leNat bs)).toInt16
  | .u16, bs => UInt16.ofNat (leNat bs)
  | .s32, bs => (UInt32.ofNat (leNat bs)).toInt32
  | .u32, bs => UInt32.ofNat (leNat bs)
  | .f32, bs => UInt32.ofNat (leNat bs)

/-- The loop of `sf_dbpparam_apply_paramdbp`. -/
def dbpparamReadCells (raw : List UInt8) (ptr : Nat) : List ParamdbpField → Except SfError (List DbpparamCell)
  | [] => .ok []
  | f :: fields =>
    if ptr + dbpTypeSize f.type ≤ raw.length then do
      let cells ← dbpparamReadCells raw (ptr + dbpTypeSize f.type) fields
      .ok (⟨f, f.type.ofBytes ((raw.drop ptr).take (dbpTypeSize f.type))⟩ :: cells)
    else .error .undefinedBehaviour

/-- `sf_dbpparam_apply_paramdbp`; the raw size is cast to `int`. -/
def dbpparamApplyParamdbp (p : Dbpparam) (dbp : Paramdbp) : Fallible Heap SfError Dbpparam := do
  let needed ← lift (paramdbpCalculateParamSize dbp)
  check ((needed : Int) ≤ (Int32.ofNat p.rawBytes.length).toInt) .invalidArg
  let _ ← Heap.alloc
  let cells ← lift (dbpparamReadCells p.rawBytes 0 dbp.fields)
  pure { p with cells, dbp := some dbp }

/-- The loop of `sf_dbpparam_write_to_memory`. -/
def dbpparamWriteCells (buf : List UInt8) (ptr : Nat) : List DbpparamCell → Except SfError (List UInt8)
  | [] => .ok buf
  | c :: cells =>
    if ptr + dbpTypeSize c.field.type ≤ buf.length then
      dbpparamWriteCells (overwrite buf ptr (dbpValueBytes false c.field.type c.value))
        (ptr + dbpTypeSize c.field.type) cells
    else .error .undefinedBehaviour

/-- `sf_dbpparam_write_to_memory`. -/
def dbpparamWriteToMemory (p : Dbpparam) : Fallible Heap SfError (List UInt8) :=
  match p.dbp with
  | none =>
    if p.rawBytes.length = 0 then pure []
    else do
      let _ ← Heap.alloc
      pure p.rawBytes
  | some dbp => do
    let sz ← lift (paramdbpCalculateParamSize dbp)
    if sz = 0 then pure []
    else do
      let junk ← Heap.alloc
      lift (dbpparamWriteCells ((junk ++ List.replicate sz 0).take sz) 0 p.cells)

/-! ## Decoding -/

/-- The bytes that were copied are those the value has. -/
theorem dbpValueBytes_ofBytes (t : DbpType) {bs : List UInt8} (h : bs.length = dbpTypeSize t) :
    dbpValueBytes false t (t.ofBytes bs) = bs := by
  have hback := leBytes_leNat bs
  have hbyte : bs.length = 1 → [UInt8.ofNat (leNat bs)] = bs := by
    intro h1
    rwa [h1] at hback
  have hshort : bs.length = 2 → wordBytes false 2 (UInt16.ofNat (leNat bs)).toNat = bs := by
    intro h2
    rw [UInt16.toNat_ofNat', show (2 : Nat) ^ 16 = 256 ^ 2 from rfl, wordBytes_mod]
    rwa [h2] at hback
  have hlong : bs.length = 4 → wordBytes false 4 (UInt32.ofNat (leNat bs)).toNat = bs := by
    intro h4
    rw [UInt32.toNat_ofNat', show (2 : Nat) ^ 32 = 256 ^ 4 from rfl, wordBytes_mod]
    rwa [h4] at hback
  cases t with
  | s8 => exact hbyte h
  | u8 => exact hbyte h
  | s16 => exact hshort h
  | u16 => exact hshort h
  | s32 => exact hlong h
  | u32 => exact hlong h
  | f32 => exact hlong h

/-- The bytes of a cell. -/
def DbpparamCell.bytes (c : DbpparamCell) : List UInt8 := dbpValueBytes false c.field.type c.value

/-- The cell of the field at `ptr`. -/
def dbpCellAt (raw : List UInt8) (ptr : Nat) (f : ParamdbpField) : DbpparamCell :=
  ⟨f, f.type.ofBytes ((raw.drop ptr).take (dbpTypeSize f.type))⟩

/-- The cells of the fields from `ptr` on. -/
def dbpCellsAt (raw : List UInt8) (ptr : Nat) : List ParamdbpField → List DbpparamCell
  | [] => []
  | f :: fields => dbpCellAt raw ptr f :: dbpCellsAt raw (ptr + dbpTypeSize f.type) fields

theorem bytes_dbpCellAt {raw : List UInt8} {ptr : Nat} {f : ParamdbpField}
    (h : ptr + dbpTypeSize f.type ≤ raw.length) :
    (dbpCellAt raw ptr f).bytes = (raw.drop ptr).take (dbpTypeSize f.type) := by
  refine dbpValueBytes_ofBytes f.type ?_
  rw [List.length_take, List.length_drop]
  omega

theorem holds_dbpCellAt {raw : List UInt8} {ptr : Nat} {f : ParamdbpField}
    (h : ptr + dbpTypeSize f.type ≤ raw.length) : Holds raw ptr (dbpCellAt raw ptr f).bytes := by
  obtain ⟨x, hx, hheld⟩ := exists_holds h
  rwa [bytes_dbpCellAt h, ← hx, hheld.take_drop]

theorem dbpparamReadCells_eq_ok {raw : List UInt8} {ptr : Nat} {fields : List ParamdbpField}
    (h : ptr + dbpFieldsSize fields ≤ raw.length) :
    dbpparamReadCells raw ptr fields = .ok (dbpCellsAt raw ptr fields) := by
  induction fields generalizing ptr with
  | nil => rfl
  | cons f fields ih =>
      rw [dbpFieldsSize_cons] at h
      rw [dbpparamReadCells, if_pos (by omega), ih (by omega)]
      rfl

theorem length_dbpCellsAt (raw : List UInt8) (ptr : Nat) (fields : List ParamdbpField) :
    (dbpCellsAt raw ptr fields).length = fields.length := by
  induction fields generalizing ptr with
  | nil => rfl
  | cons f fields ih => rw [dbpCellsAt, List.length_cons, ih, List.length_cons]

theorem getElem?_dbpCellsAt {raw : List UInt8} {ptr i : Nat} {fields : List ParamdbpField} {f : ParamdbpField}
    (hf : fields[i]? = some f) :
    (dbpCellsAt raw ptr fields)[i]? = some (dbpCellAt raw (ptr + dbpFieldsSize (fields.take i)) f) := by
  induction fields generalizing ptr i with
  | nil => cases hf
  | cons g fields ih =>
      cases i with
      | zero =>
          cases hf
          rfl
      | succ i =>
          rw [List.getElem?_cons_succ] at hf
          rw [dbpCellsAt, List.getElem?_cons_succ, ih hf, List.take_succ_cons, dbpFieldsSize_cons, Nat.add_assoc]

theorem dbpFieldsSize_take_add_le {fields : List ParamdbpField} {i : Nat} {f : ParamdbpField}
    (hf : fields[i]? = some f) : dbpFieldsSize (fields.take i) + dbpTypeSize f.type ≤ dbpFieldsSize fields := by
  induction fields generalizing i with
  | nil => cases hf
  | cons g fields ih =>
      cases i with
      | zero =>
          cases hf
          simp
      | succ i =>
          rw [List.getElem?_cons_succ] at hf
          rw [List.take_succ_cons, dbpFieldsSize_cons, dbpFieldsSize_cons]
          have hrest := ih hf
          omega

/-! ## Encoding -/

/-- The cells follow one another in the buffer. -/
theorem dbpparamWriteCells_dbpCellsAt {raw buf : List UInt8} {ptr : Nat} {fields : List ParamdbpField}
    (hraw : ptr + dbpFieldsSize fields ≤ raw.length) (hbuf : ptr + dbpFieldsSize fields = buf.length)
    (hdone : buf.take ptr = raw.take ptr) :
    dbpparamWriteCells buf ptr (dbpCellsAt raw ptr fields) = .ok (raw.take buf.length) := by
  induction fields generalizing buf ptr with
  | nil =>
      rw [dbpFieldsSize_nil, Nat.add_zero] at hbuf
      rw [dbpCellsAt, dbpparamWriteCells, ← hbuf, ← hdone, hbuf, List.take_length]
  | cons f fields ih =>
      rw [dbpFieldsSize_cons] at hraw hbuf
      have hfit : ptr + dbpTypeSize f.type ≤ raw.length := by omega
      have hbytes : dbpValueBytes false (dbpCellAt raw ptr f).field.type (dbpCellAt raw ptr f).value =
          (raw.drop ptr).take (dbpTypeSize f.type) := bytes_dbpCellAt hfit
      have hlen : ((raw.drop ptr).take (dbpTypeSize f.type)).length = dbpTypeSize f.type := by
        rw [List.length_take, List.length_drop]
        omega
      have hstored : (overwrite buf ptr ((raw.drop ptr).take (dbpTypeSize f.type))).length = buf.length := by
        rw [length_overwrite, hlen]
        omega
      rw [dbpCellsAt, dbpparamWriteCells, if_pos (by show ptr + dbpTypeSize f.type ≤ _; omega), hbytes]
      have hnext := @ih (overwrite buf ptr ((raw.drop ptr).take (dbpTypeSize f.type))) (ptr + dbpTypeSize f.type)
        (by omega) (by omega) ?_
      · rw [hstored] at hnext
        exact hnext
      · have htaken : (buf.take ptr).length = ptr := by
          rw [List.length_take]
          omega
        rw [overwrite, Nat.sub_eq_zero_of_le (by omega), List.replicate_zero, List.append_nil,
          List.take_left' (by rw [List.length_append, htaken, hlen]), hdone, ← List.take_add]

/-! ## Applying a schema -/

/-- Every field has a cell, with the value that in this byte order lies behind the fields before it. -/
def DbpDecodes (big : Bool) (raw : List UInt8) (fields : List ParamdbpField) (cells : List DbpparamCell) : Prop :=
  ∀ (i : Nat) (f : ParamdbpField), fields[i]? = some f →
    ∃ v : f.type.Value, cells[i]? = some ⟨f, v⟩ ∧ Holds raw (dbpFieldsSize (fields.take i)) (dbpValueBytes big f.type v)

theorem dbpDecodes_dbpCellsAt {raw : List UInt8} {fields : List ParamdbpField}
    (h : dbpFieldsSize fields ≤ raw.length) : DbpDecodes false raw fields (dbpCellsAt raw 0 fields) := by
  intro i f hf
  have hle := dbpFieldsSize_take_add_le hf
  have hcell := @getElem?_dbpCellsAt raw 0 _ _ _ hf
  rw [Nat.zero_add] at hcell
  exact ⟨_, hcell, holds_dbpCellAt (by omega)⟩

theorem dbpparamReadFromMemory_eq_ok {data : List UInt8} {heap : Heap} {p : Dbpparam}
    (h : (dbpparamReadFromMemory data heap).1 = .ok p) : p = ⟨data, [], none⟩ := by
  obtain ⟨p0, s1, s2, hcreate, h1⟩ := bind_fst_eq_ok h
  obtain ⟨junk, s0, -, hp0⟩ := bind_eq_ok.1 hcreate
  obtain ⟨junk', s3, -, h2⟩ := bind_eq_ok.1 h1
  cases hp0
  cases h2
  rfl

/-- A cast to `int` never makes a size greater. -/
theorem toInt_ofNat_le (n : Nat) : (Int32.ofNat n).toInt ≤ n := by
  rw [Int32.toInt_ofNat', Int.bmod_def, show Int32.size = 4294967296 from rfl]
  split <;> omega

/-- Applying a schema fails before a byte is read, or reads the bytes of all its fields. -/
theorem dbpparamApplyParamdbp_run {p : Dbpparam} {d : Paramdbp} {needed : Nat}
    (hsize : paramdbpCalculateParamSize d = .ok needed) (heap : Heap) :
    (dbpparamApplyParamdbp p d heap).1 = .error .invalidArg ∨ (dbpparamApplyParamdbp p d heap).1 = .error .oom ∨
      dbpFieldsSize d.fields ≤ p.rawBytes.length ∧ (dbpparamApplyParamdbp p d heap).1 =
        .ok { p with cells := dbpCellsAt p.rawBytes 0 d.fields, dbp := some d } := by
  have hneeded := paramdbpCalculateParamSize_eq_ok hsize
  unfold dbpparamApplyParamdbp
  rw [hsize, bind_ok (lift_run _ _)]
  by_cases henough : (needed : Int) ≤ (Int32.ofNat p.rawBytes.length).toInt
  · rw [check_bind_pos henough]
    have hraw : dbpFieldsSize d.fields ≤ p.rawBytes.length := by
      have hcast := toInt_ofNat_le p.rawBytes.length
      omega
    have hcells : dbpparamReadCells p.rawBytes 0 d.fields = .ok (dbpCellsAt p.rawBytes 0 d.fields) :=
      dbpparamReadCells_eq_ok (by omega)
    rcases halloc : Heap.alloc heap with ⟨_ | junk, heap'⟩
    · obtain ⟨rfl, -⟩ := Heap.alloc_error halloc
      rw [bind_error halloc]
      exact .inr (.inl rfl)
    · rw [bind_ok halloc, hcells]
      exact .inr (.inr ⟨hraw, rfl⟩)
  · rw [check_bind_neg henough]
    exact .inl rfl

theorem dbpparamApplyParamdbp_eq_ok {p p' : Dbpparam} {d : Paramdbp} {heap : Heap}
    (h : (dbpparamApplyParamdbp p d heap).1 = .ok p') :
    paramdbpCalculateParamSize d = .ok (dbpFieldsSize d.fields) ∧ dbpFieldsSize d.fields ≤ p.rawBytes.length ∧
      p' = { p with cells := dbpCellsAt p.rawBytes 0 d.fields, dbp := some d } := by
  obtain ⟨needed, s1, -, hneeded, -⟩ := bind_fst_eq_ok h
  have hsize : paramdbpCalculateParamSize d = .ok needed := congrArg Prod.fst hneeded
  rcases dbpparamApplyParamdbp_run (p := p) hsize heap with herror | herror | ⟨hraw, hok⟩
  · rw [h] at herror
    cases herror
  · rw [h] at herror
    cases herror
  · rw [h] at hok
    rw [hsize, paramdbpCalculateParamSize_eq_ok hsize]
    exact ⟨rfl, hraw, Except.ok.inj hok⟩

/-- What has not been applied is written as it was read. -/
theorem dbpparamWriteToMemory_raw (data : List UInt8) {heap : Heap} (hheap : heap.Calm) :
    (dbpparamWriteToMemory ⟨data, [], none⟩ heap).1 = .ok data := by
  obtain ⟨junk, heap', halloc, -⟩ := Heap.alloc_calm hheap
  unfold dbpparamWriteToMemory
  simp only
  by_cases hempty : data.length = 0
  · rw [if_pos hempty, List.eq_nil_of_length_eq_zero hempty]
    rfl
  · rw [if_neg hempty, bind_ok halloc]
    rfl

/-- What has been applied is written as far as its fields go. -/
theorem dbpparamWriteToMemory_applied {data : List UInt8} {d : Paramdbp}
    (hsize : paramdbpCalculateParamSize d = .ok (dbpFieldsSize d.fields))
    (hraw : dbpFieldsSize d.fields ≤ data.length) {heap : Heap} (hheap : heap.Calm) :
    (dbpparamWriteToMemory ⟨data, dbpCellsAt data 0 d.fields, some d⟩ heap).1 =
      .ok (data.take (dbpFieldsSize d.fields)) := by
  obtain ⟨junk, heap', halloc, -⟩ := Heap.alloc_calm hheap
  unfold dbpparamWriteToMemory
  simp only
  rw [hsize, bind_ok (lift_run _ _)]
  by_cases hempty : dbpFieldsSize d.fields = 0
  · rw [if_pos hempty, hempty, List.take_zero]
    rfl
  · have hlen : ((junk ++ List.replicate (dbpFieldsSize d.fields) 0).take (dbpFieldsSize d.fields)).length =
        dbpFieldsSize d.fields := by
      rw [List.length_take, List.length_append, List.length_replicate]
      omega
    have hwritten := @dbpparamWriteCells_dbpCellsAt data
      ((junk ++ List.replicate (dbpFieldsSize d.fields) 0).take (dbpFieldsSize d.fields)) 0 d.fields (by omega) (by omega)
      (by simp)
    rw [if_neg hempty, bind_ok halloc, lift_run, hwritten, hlen]

/-- **Applying a schema decodes every field where it lies, whatever byte order the schema has, without reading beyond
the data, and what is written afterwards is the data as far as the fields go.** -/
theorem dbpparam_apply_decodes (data : List UInt8) (d : Paramdbp) (heap heap' : Heap) (p : Dbpparam)
    (h : (dbpparamReadFromMemory data heap).1 = .ok p) :
    (∀ needed, paramdbpCalculateParamSize d = .ok needed →
      (dbpparamApplyParamdbp p d heap').1 ≠ .error .undefinedBehaviour) ∧
    (∀ final : Heap, final.Calm → (dbpparamWriteToMemory p final).1 = .ok data) ∧
    ∀ p', (dbpparamApplyParamdbp p d heap').1 = .ok p' →
      dbpFieldsSize d.fields ≤ data.length ∧ p'.cells.length = d.fields.length ∧ DbpDecodes false data d.fields p'.cells ∧
        ∀ final : Heap, final.Calm → (dbpparamWriteToMemory p' final).1 = .ok (data.take (dbpFieldsSize d.fields)) := by
  obtain rfl := dbpparamReadFromMemory_eq_ok h
  refine ⟨fun needed hsize => ?_, fun final hfinal => dbpparamWriteToMemory_raw data hfinal, fun p' happly => ?_⟩
  · rcases dbpparamApplyParamdbp_run (p := ⟨data, [], none⟩) hsize heap' with herror | herror | ⟨-, hok⟩
    · simp [herror]
    · simp [herror]
    · simp [hok]
  · obtain ⟨hsize, hraw, rfl⟩ := dbpparamApplyParamdbp_eq_ok happly
    exact ⟨hraw, length_dbpCellsAt data 0 d.fields, dbpDecodes_dbpCellsAt hraw,
      fun final hfinal => dbpparamWriteToMemory_applied hsize hraw hfinal⟩

/-! ## Fixed definitions -/

def dbpShortField : ParamdbpField := ⟨.s16, none, none, 0, 1, -32768, 32767⟩

def dbpByteField : ParamdbpField := ⟨.u8, none, none, 1, 1, 0, 255⟩

/-- A big-endian schema decodes little-endian data. -/
theorem dbpparam_apply_native :
    ∃ p p', (dbpparamReadFromMemory [0xF4, 0x01, 42] []).1 = .ok p ∧
      (dbpparamApplyParamdbp p ⟨true, [dbpShortField, dbpByteField], 8⟩ []).1 = .ok p' ∧
      DbpDecodes false [0xF4, 0x01, 42] [dbpShortField, dbpByteField] p'.cells ∧
      (dbpparamWriteToMemory p' []).1 = .ok [0xF4, 0x01, 42] := by
  refine ⟨⟨[0xF4, 0x01, 42], [], none⟩, _, rfl, rfl, ?_⟩
  obtain ⟨-, -, happlied⟩ := dbpparam_apply_decodes [0xF4, 0x01, 42] ⟨true, [dbpShortField, dbpByteField], 8⟩ [] [] _ rfl
  obtain ⟨-, -, hdecodes, hwrite⟩ := happlied _ rfl
  exact ⟨hdecodes, hwrite [] Heap.calm_nil⟩

/-- Big-endian data is taken for little-endian data, and the byte behind the only field is lost. -/
theorem dbpparam_apply_swaps_and_cuts :
    (∃ p p', (dbpparamReadFromMemory [0x01, 0xF4] []).1 = .ok p ∧
      (dbpparamApplyParamdbp p ⟨true, [dbpShortField], 8⟩ []).1 = .ok p' ∧
      ¬ DbpDecodes true [0x01, 0xF4] [dbpShortField] p'.cells) ∧
    ∃ p p', (dbpparamReadFromMemory [1, 2] []).1 = .ok p ∧ (dbpparamWriteToMemory p []).1 = .ok [1, 2] ∧
      (dbpparamApplyParamdbp p ⟨true, [dbpByteField], 8⟩ []).1 = .ok p' ∧
      (dbpparamWriteToMemory p' []).1 = .ok [1] := by
  constructor
  · refine ⟨⟨[0x01, 0xF4], [], none⟩, _, rfl, rfl, fun hdecodes => ?_⟩
    obtain ⟨v, hv, hheld⟩ := hdecodes 0 dbpShortField rfl
    cases hv
    exact absurd hheld.take_drop (by decide)
  · exact ⟨⟨[1, 2], [], none⟩, _, rfl, rfl, rfl, rfl⟩

end SoulsFormats
