import SoulsFormats.Param.ParamImage

set_option autoImplicit false

/-! # Reading back parameter files

What `param_write` has written is read back, except for the formats whose start of the data the reader looks for in
another place than the writer puts it. What comes back is written as the same bytes again. -/

namespace SoulsFormats

open Bytes Fallible BinaryReader

/-! ## What comes back -/

namespace Param

/-- The reader looks for the start of the data where the writer has put it. A start of 32 bits is announced by one
    flag for the reader and by two for the writer; in little-endian order the low half of one of 64 bits does. -/
def StartAgrees (p : Param) : Prop :=
  p.hasIntOffsets = true → hasFlag p.format2d paramFlag01 = true ∨ p.hasLongOffsets = true ∧ p.bigEndian = false

/-- A row as it is read back when its data stand at `start`. -/
def rereadRow (start : Nat) (row : ParamRow) : ParamRow where
  id := row.id
  dataOffset := Int64.ofNat start
  data := row.data
  name := if row.name.getD [] = [] then none else some (row.name.getD [])

/-- Rows whose data stand one after another. -/
def rereadRows : Nat → List ParamRow → List ParamRow
  | _, [] => []
  | start, row :: rest => rereadRow start row :: rereadRows (start + row.data.length) rest

/-- The header of a row, before its data are read. -/
def head (row : ParamRow) : ParamRow := { row with data := [] }

/-- A parameter as it is read back. -/
def reread (p : Param) (size : Int64) : Param :=
  { rows := rereadRows p.dataStart p.rows, paramType := p.paramType, bigEndian := p.bigEndian, format2d := p.format2d,
    format2e := p.format2e, paramdefFormatVersion := p.paramdefFormatVersion,
    paramdefDataVersion := p.paramdefDataVersion, unk06 := p.unk06, detectedSize := size }

/-- The same header, and rows with the same ids, names and data; a missing name is an empty one. -/
structure SameContent (p q : Param) : Prop where
  header : (p.bigEndian, p.format2d, p.format2e, p.paramdefFormatVersion, p.paramdefDataVersion, p.unk06)
    = (q.bigEndian, q.format2d, q.format2e, q.paramdefFormatVersion, q.paramdefDataVersion, q.unk06)
  type : p.paramType = q.paramType
  rows : List.Forall₂ (fun r s => r.id = s.id ∧ r.name.getD [] = s.name.getD [] ∧ r.data = s.data) p.rows q.rows

variable {p : Param} {start : Nat} {rows : List ParamRow}

@[simp] theorem rereadRow_name (start : Nat) (row : ParamRow) : (rereadRow start row).name.getD [] = row.name.getD [] := by
  simp only [rereadRow]
  split <;> simp_all

@[simp] theorem length_rereadRows (start : Nat) (rows : List ParamRow) : (rereadRows start rows).length = rows.length := by
  induction rows generalizing start with
  | nil => rfl
  | cons row rest ih => simp [rereadRows, ih]

theorem rereadRows_getElem? (start : Nat) (rows : List ParamRow) (i : Nat) : (rereadRows start rows)[i]?
    = rows[i]?.map fun row => rereadRow (start + ((rows.take i).map fun row => row.data.length).sum) row := by
  induction rows generalizing start i with
  | nil => rfl
  | cons row rest ih =>
      cases i with
      | zero => simp [rereadRows]
      | succ i => simp [rereadRows, ih, Nat.add_assoc]

theorem sameContent_reread (p : Param) (size : Int64) : (p.reread size).SameContent p := by
  refine ⟨rfl, rfl, ?_⟩
  show List.Forall₂ _ (rereadRows p.dataStart p.rows) p.rows
  generalize p.dataStart = start
  induction p.rows generalizing start with
  | nil => exact .nil
  | cons row rest ih => exact .cons ⟨rfl, rereadRow_name start row, rfl⟩ (ih _)

end Param

open Param

/-! ## It is written as before -/

section Again

open BinaryWriter

theorem forIndexed_rereadRows {f g : Nat → ParamRow → WriteM Unit} (rows : List ParamRow)
    (h : ∀ row ∈ rows, ∀ i start, f i (rereadRow start row) = g i row) (i start : Nat) :
    forIndexed f i (rereadRows start rows) = forIndexed g i rows := by
  induction rows generalizing i start with
  | nil => rfl
  | cons row rest ih =>
      simp only [rereadRows, forIndexed]
      rw [h row List.mem_cons_self, ih fun r hr => h r (List.mem_cons_of_mem _ hr)]

theorem writeRowNamesFrom_rereadRows (os : Win32) (p : Param) (size : Int64) (rows : List ParamRow) (i start : Nat)
    (before : List (List UInt8 × Nat)) :
    writeRowNamesFrom os (p.reread size) i (rereadRows start rows) before = writeRowNamesFrom os p i rows before := by
  induction rows generalizing i start before with
  | nil => rfl
  | cons row rest ih =>
      simp only [rereadRows, writeRowNamesFrom, rereadRow_name]
      refine bind_congr fun offset => bind_congr fun _ => ih _ _ _

/-- **What was read back is written as what it was read from.** -/
theorem paramWriteToMemory_reread {os : Win32} {p : Param} (hplain : ∀ row ∈ p.rows, row.applied = none) (size : Int64) :
    paramWriteToMemory os (p.reread size) = paramWriteToMemory os p := by
  have hheaders : forIndexed (writeRowHeader (p.reread size)) 0 (p.reread size).rows = forIndexed (writeRowHeader p) 0 p.rows :=
    forIndexed_rereadRows p.rows (fun _ _ _ _ => rfl) 0 _
  have hrows : forIndexed (writeRow os (p.reread size)) 0 (p.reread size).rows = forIndexed (writeRow os p) 0 p.rows := by
    refine forIndexed_rereadRows p.rows (fun row hrow i start => ?_) 0 _
    simp only [writeRow, writeRowBytes, hplain row hrow]
    rfl
  have hnames : writeRowNames os (p.reread size) = writeRowNames os p := by
    have hfrom := writeRowNamesFrom_rereadRows os p size p.rows 0 p.dataStart []
    exact bind_congr fun _ => congrArg (· >>= fun _ => writeI16 0) hfrom
  have hlength : (p.reread size).rows.length = p.rows.length := length_rereadRows _ _
  have hwrite : paramWrite os (p.reread size) = paramWrite os p := by
    unfold paramWrite
    rw [hheaders, hrows, hnames, hlength]
    rfl
  exact congrArg (writeToMemory p.bigEndian) hwrite

end Again

/-! ## Reading -/

section Reading

variable {os : Win32} {p : Param} {B : List UInt8} {flex : Bool} {steps : List Nat}

theorem Reads.seekAbs {β : Type} {mem : List UInt8} {pos : Nat} {be long : Bool} {b : β} {c2 : Cursor} {t : Int} {q : Nat}
    {f : Unit → ReadM β} (htq : t = q) (hq : q ≤ mem.length) (hf : Reads (f ()) ⟨mem, q, be, long, steps, flex⟩ b c2) :
    Reads (seekAbs t >>= f) ⟨mem, pos, be, long, steps, flex⟩ b c2 := Reads.seek htq hq hf

/-! ### The type -/

theorem parses_paddedText {n : Nat} {fill : UInt8} {t : List UInt8} (hn : 0 < n) (ht : os.Fits .shiftJis t)
    (hlen : (os.encoded .shiftJis t).length ≤ n) (hshort : n ≤ INT32_MAX) (c : Cursor) :
    Parses (readFixStr os n) c (paddedText os n fill t) t := by
  intro hheld
  have hnul : ∀ b ∈ os.encoded .shiftJis t, b ≠ 0 := ht.noNul'
  -- the terminator is in the field unless the text fills it
  have hcut : cText (paddedText os n fill t) = os.encoded .shiftJis t := by
    have hpos : ∀ b ∈ os.encoded .shiftJis t, decide (b ≠ 0) = true := fun b hb => by simpa using hnul b hb
    rcases Nat.lt_or_eq_of_le hlen with hlt | rfl
    · have htake : (os.encoded .shiftJis t ++ [0]).take n = os.encoded .shiftJis t ++ [0] :=
        List.take_of_length_le (by rw [List.length_append]; exact hlt)
      rw [paddedText, htake, cText, List.append_assoc, List.takeWhile_append_of_pos hpos]
      simp
    · rw [paddedText, List.take_left', cText, List.takeWhile_append_of_pos hpos]
      · simp
      · rfl
  unfold readFixStr
  rw [if_neg hn.ne']
  refine reads_alloc _ fun _ => ?_
  have hbytes := parses_bytes c (paddedText os n fill t) hheld
  rw [length_paddedText] at hbytes
  rw [length_paddedText]
  refine hbytes.bind ?_
  rw [hcut]
  exact reads_onHeap (mbcsToUtf8_steady os _ _) (granted_mbcsToUtf8 ht (hlen.trans hshort)) _

/-- Behind the data, the type is always stored as a Shift-JIS text that can be read back. -/
theorem Param.TypeFits.textFits (hos : os.AsciiCompatible) (h : p.TypeFits os) (hfield : p.hasTypeField = false) :
    TextFits os false p.paramType := by
  unfold Param.TypeFits at h
  split at h
  · exact TextFits.plain hos h
  · next hoffset =>
      split at h
      · exact h
      · next hwide =>
          rw [Param.hasTypeField_iff.2 ⟨hoffset, hwide⟩] at hfield
          cases hfield

/-- The type is read, and the reader stands behind its field. -/
theorem reads_readParamTypeOf (hos : os.AsciiCompatible) (hfits : p.TypeFits os) (himage : ParamImage os p B)
    (hB : B.length < 2 ^ 63) :
    Reads (readParamTypeOf os p.format2d) ⟨B, 12, p.bigEndian, false, steps, flex⟩ (some p.paramType)
      ⟨B, 44, p.bigEndian, false, steps, flex⟩ := by
  have htype := himage.type
  have hflags : 48 ≤ B.length := himage.flags.le
  have hstart : 0 < p.stringsOffset := Nat.lt_of_lt_of_le (by decide) (p.le_dataAt _)
  have hbehind : p.hasTypeField = false → p.stringsOffset < B.length := by
    intro hfield
    have hle := (htype.text hfield).le
    have hpos : 0 < (storedText os false p.bigEndian p.paramType).length := length_storedText_pos
    omega
  have hhere : 44 ≤ B.length := (by decide : 44 ≤ 48).trans hflags
  unfold readParamTypeOf
  split
  · next h =>
      have hfield : p.hasTypeField = false := by simp [Param.hasTypeField, Param.hasOffsetParamType, h]
      obtain ⟨hzero, hpad⟩ := htype.zeros h
      have hoffset := htype.offset hfield
      rw [Param.typeAt, Param.typeWidth, Param.hasOffsetParamType, if_pos h, if_pos h] at hoffset
      have hlt := hbehind hfield
      have hvalue : (Int64.ofNat p.stringsOffset).toInt = p.stringsOffset := Int64.toInt_ofNat_of_lt (by omega)
      have hzeros : Reads (readEach (BinaryReader.assertU8 [0]) (List.replicate 0x14 (0 : UInt8)).length)
          ⟨B, 24, p.bigEndian, false, steps, flex⟩ (List.replicate 0x14 0) ⟨B, 44, p.bigEndian, false, steps, flex⟩ := by
        refine reads_readEach_at (fun i => ⟨B, 24 + i, p.bigEndian, false, steps, flex⟩) _ fun i a ha => ?_
        rw [List.getElem?_replicate] at ha
        split at ha
        · cases ha
          exact Reads.last (Reads.assertU8 (hpad.of_replicate i (k := 1) (by omega)) List.mem_cons_self (Reads.pure _ _))
        · cases ha
      refine Reads.assertI32 (v := 0) hzero List.mem_cons_self (Reads.i64Nat hoffset (hzeros.bind ?_))
      unfold readParamTypeAt
      refine Reads.state fun r hr => ?_
      have hlen : r.length = B.length := congrArg (fun c => c.mem.length) hr
      rw [hvalue, hlen, if_neg (by omega)]
      exact (reads_getShiftJis (hfits.textFits hos hfield) (htype.text hfield) hhere).bind (Reads.pure _ _)
  · next h =>
      split
      · next h' =>
          have hfield : p.hasTypeField = false := by
            have hnot : ¬ p.hasTypeField = true := fun hf => (Param.hasTypeField_iff.1 hf).2 h'
            exact Bool.eq_false_iff.2 hnot
          have hoffset := htype.offset hfield
          rw [Param.typeAt, Param.typeWidth, Param.hasOffsetParamType, if_neg h, if_neg h] at hoffset
          have hlt := hbehind hfield
          have hvalue : (UInt32.ofNat p.stringsOffset).toNat = p.stringsOffset :=
            UInt32.toNat_ofNat_of_lt' himage.strings_lt
          refine Reads.bind ?_ (Reads.pure _ _)
          refine Reads.position (Reads.u32Nat hoffset (Reads.state fun r hr => ?_))
          have hlen : r.length = B.length := congrArg (fun c => c.mem.length) hr
          rw [hvalue, hlen, if_pos ⟨hstart, hlt⟩]
          have hpos : 16 ≤ B.length := by omega
          exact (reads_getShiftJis (hfits.textFits hos hfield) (htype.text hfield) hpos).bind
            (Reads.seekAbs rfl hhere (Reads.pure _ _))
      · next h' =>
          unfold Param.TypeFits at hfits
          rw [Param.hasOffsetParamType, if_neg h, Param.hasIntOffsets, Param.hasLongOffsets, if_neg h'] at hfits
          have hfield : p.hasTypeField = true := Param.hasTypeField_iff.2 ⟨h, h'⟩
          have hparse : Parses (readFixStr os 0x20) ⟨B, 12, p.bigEndian, false, steps, flex⟩
              (paddedText os 0x20 p.typePad p.paramType) p.paramType :=
            parses_paddedText (by decide) hfits.1 hfits.2 (by decide) _
          have hread := hparse (htype.field hfield)
          rw [length_paddedText] at hread
          exact hread.bind (Reads.pure _ _)

/-! ### The start of the data -/

/-- Behind the flags stands the start of the data as a word of 32 bits, and twelve zeros. -/
theorem ParamImage.start32 (himage : ParamImage os p B) (hagrees : p.StartAgrees) (hint : p.hasIntOffsets = true) :
    Holds B 48 (wordBytes p.bigEndian 4 p.dataStart) ∧ Holds B 52 (List.replicate 12 0) := by
  obtain ⟨hstart, -, hrest⟩ := himage.start
  by_cases hintStart : p.hasIntStart = true
  · have hlate : p.startsLate = true := by simp [Param.startsLate, hintStart]
    rw [Param.startAt, if_pos hlate, Param.startWidth, if_pos hintStart] at hstart
    have hzeros := hrest hlate
    rw [Param.startWidth, if_pos hintStart] at hzeros
    exact ⟨hstart, hzeros⟩
  · have hflag : ¬ hasFlag p.format2d paramFlag01 = true := by
      intro h
      apply hintStart
      rw [Param.hasIntStart, h, Bool.true_and]
      exact hint
    obtain ⟨hlong, hlittle⟩ := (hagrees hint).resolve_left hflag
    have hlate : p.startsLate = true := by simp [Param.startsLate, hlong]
    rw [Param.startAt, if_pos hlate, Param.startWidth, if_neg hintStart, if_pos hlong, hlittle] at hstart
    have hzeros := hrest hlate
    rw [Param.startWidth, if_neg hintStart, if_pos hlong] at hzeros
    -- in little-endian order the low half comes first, and the high half is zero
    have hlt : p.dataStart < 2 ^ 32 := (Nat.le_add_right _ _).trans_lt himage.strings_lt
    have hhigh : p.dataStart / 256 ^ 4 = 0 := Nat.div_eq_of_lt hlt
    rw [wordBytes_false_add 4 4, hhigh, wordBytes_zero, holds_append, length_wordBytes] at hstart
    rw [hlittle]
    refine ⟨hstart.1, ?_⟩
    have hsplit : List.replicate 12 (0 : UInt8) = List.replicate 4 0 ++ List.replicate 8 0 := rfl
    rw [hsplit]
    exact holds_append.2 ⟨hstart.2, hzeros⟩

theorem Param.startsLate_of_agrees (hagrees : p.StartAgrees) :
    p.startsLate = true ↔ p.hasIntOffsets = true ∨ p.hasLongOffsets = true := by
  constructor
  · intro h
    rcases Bool.or_eq_true_iff.1 h with h | h
    · exact .inl (Bool.and_eq_true_iff.1 h).2
    · exact .inr h
  · rintro (hint | hlong)
    · rcases hagrees hint with hflag | ⟨hlong, -⟩
      · simp [Param.startsLate, Param.hasIntStart, hflag, show hasFlag p.format2d paramIntDataOffset = true from hint]
      · simp [Param.startsLate, hlong]
    · simp [Param.startsLate, hlong]

/-- A start that does not fit into 31 bits comes back negative. -/
theorem int32_start (n : Nat) (hn : n < 2 ^ 32) : (Int32.ofNat n).toInt < 0 ∨ (Int32.ofNat n).toInt = n := by
  by_cases hlt : n < 2 ^ 31
  · exact .inr (int32_toInt_ofNat (Nat.le_sub_one_of_lt hlt))
  · left
    rw [Int32.toInt_ofNat', Int.bmod_def]
    simp only [Int32.size]
    split <;> omega

theorem reads_readDataStart (himage : ParamImage os p B) (hagrees : p.StartAgrees) {short : Nat}
    (hshort : p.startsLate = false → short = p.dataStart) :
    ∃ start : Int, (start < 0 ∨ start = p.dataStart) ∧ Reads (readDataStart p.format2d short)
      ⟨B, 44, p.bigEndian, false, steps, flex⟩ start ⟨B, p.rowAt 0, p.bigEndian, false, steps, flex⟩ := by
  have hlt : p.dataStart < 2 ^ 32 := (Nat.le_add_right _ _).trans_lt himage.strings_lt
  have hflags : 48 ≤ B.length := himage.flags.le
  have hlate := Param.startsLate_of_agrees hagrees
  rw [Param.rowAt_zero]
  have hintFlag : hasFlag p.format2d paramIntDataOffset = p.hasIntOffsets := rfl
  have hlongFlag : hasFlag p.format2d paramLongDataOffset = p.hasLongOffsets := rfl
  rw [readDataStart, hintFlag, hlongFlag]
  by_cases hint : p.hasIntOffsets = true
  · obtain ⟨hstart, hzeros⟩ := himage.start32 hagrees hint
    have hzero : ∀ i, i + 4 ≤ 12 → Holds B (52 + i) (wordBytes p.bigEndian 4 (0 : Int32).toUInt32.toNat) := by
      intro i hi
      have hword : wordBytes p.bigEndian 4 (0 : Int32).toUInt32.toNat = List.replicate 4 0 := wordBytes_zero _ 4
      rw [hword]
      exact hzeros.of_replicate i hi
    refine ⟨_, int32_start _ hlt, ?_⟩
    rw [if_pos (hlate.2 (.inl hint)), if_pos hint]
    refine Reads.seekAbs rfl ((by decide : 44 ≤ 48).trans hflags) (Reads.skip hflags (Reads.i32Nat hstart ?_))
    refine Reads.assertI32 (hzero 0 (by decide)) List.mem_cons_self ?_
    refine Reads.assertI32 (hzero 4 (by decide)) List.mem_cons_self ?_
    exact Reads.assertI32 (hzero 8 (by decide)) List.mem_cons_self (Reads.pure _ _)
  · by_cases hlong : p.hasLongOffsets = true
    · have hintStart : ¬ p.hasIntStart = true := fun h => hint (Bool.and_eq_true_iff.1 h).2
      obtain ⟨hstart, -, hrest⟩ := himage.start
      have hzeros := hrest (hlate.2 (.inr hlong))
      rw [Param.startAt, if_pos (hlate.2 (.inr hlong)), Param.startWidth, if_neg hintStart, if_pos hlong] at hstart
      rw [Param.startWidth, if_neg hintStart, if_pos hlong] at hzeros
      have hzero : Holds B 56 (wordBytes p.bigEndian 8 (0 : Int64).toUInt64.toNat) := by
        have hword : wordBytes p.bigEndian 8 (0 : Int64).toUInt64.toNat = List.replicate 8 0 := wordBytes_zero _ 8
        rwa [hword]
      have hvalue : (Int64.ofNat p.dataStart).toInt = p.dataStart := Int64.toInt_ofNat_of_lt (by omega)
      refine ⟨_, .inr hvalue, ?_⟩
      rw [if_pos (hlate.2 (.inr hlong)), if_neg hint, if_pos hlong]
      exact Reads.seekAbs rfl ((by decide : 44 ≤ 48).trans hflags) (Reads.skip hflags (Reads.i64Nat hstart
        (Reads.assertI64 hzero List.mem_cons_self (Reads.pure _ _))))
    · have hearly : ¬ p.startsLate = true := fun h => (hlate.1 h).elim hint hlong
      refine ⟨p.dataStart, .inr rfl, ?_⟩
      rw [if_neg hearly, if_neg hint, if_neg hlong, hshort (Bool.eq_false_iff.2 hearly)]
      exact Reads.seekAbs rfl ((by decide : 44 ≤ 48).trans hflags) (Reads.skip hflags (Reads.pure _ _))

/-- The data start behind the headers of the rows. -/
theorem reads_rejectUnnamedOrHeaderlessRows {start : Int} (hstart : start < 0 ∨ start = p.dataStart) :
    Reads (rejectUnnamedOrHeaderlessRows start p.rows.length (rowHeaderSize p.format2d))
      ⟨B, p.rowAt 0, p.bigEndian, false, steps, flex⟩ () ⟨B, p.rowAt 0, p.bigEndian, false, steps, flex⟩ := by
  unfold rejectUnnamedOrHeaderlessRows
  refine Reads.ite (fun _ => Reads.pure _ _) fun h => ?_
  obtain rfl := hstart.resolve_left fun hneg => h (.inr hneg)
  have hrows : p.dataStart = p.rowAt 0 + p.rows.length * rowHeaderSize p.format2d
      + if decide (p.format2d = paramFlag01) then 0x20 else 0 := by
    rw [Param.dataStart, Param.rowAt_zero, Param.rowAt]
  refine Reads.position (Reads.check (by omega) (Reads.last (Reads.check ?_ (Reads.pure _ _))))
  omega

/-! ### The headers of the rows -/

theorem reads_readRowName {i : Nat} {row : ParamRow} {n pos : Nat} (hname : ParamNameAt os p B i (row.name.getD []) n)
    (hfits : TextFits os p.hasUnicodeRowNames (row.name.getD [])) (hpos : pos ≤ B.length) (start : Nat) :
    Reads (readRowName os p.format2e n) ⟨B, pos, p.bigEndian, false, steps, flex⟩ (rereadRow start row).name
      ⟨B, pos, p.bigEndian, false, steps, flex⟩ := by
  unfold readRowName
  refine Reads.state fun r hr => ?_
  have hlen : r.length = B.length := congrArg (fun c => c.mem.length) hr
  rw [hlen]
  simp only [rereadRow]
  by_cases hempty : row.name.getD [] = []
  · have hn : (n : Int) = 0 := by
      rw [hname.absent hempty]
      rfl
    rw [if_pos hempty, if_pos (.inl hn)]
    exact Reads.pure _ _
  · obtain ⟨hpositive, htext⟩ := hname.text hempty
    have hle := htext.le
    have hstored : 0 < (storedText os p.hasUnicodeRowNames p.bigEndian (row.name.getD [])).length := length_storedText_pos
    rw [if_neg hempty, if_neg (by omega)]
    have hwide : hasFlag p.format2e paramUnicodeRowNames = p.hasUnicodeRowNames := rfl
    rw [hwide]
    have hget := reads_getText (c := ⟨B, pos, p.bigEndian, false, steps, flex⟩) hfits htext hpos
    refine Reads.check (by omega) ?_
    split
    · next hw =>
        rw [if_pos hw] at hget
        exact hget.bind (Reads.pure _ _)
    · next hw =>
        rw [if_neg hw] at hget
        exact hget.bind (Reads.pure _ _)

/-- The offsets of a row, each of them in the width of the format. -/
theorem reads_readRowOffsets {i n : Nat} {row : ParamRow} {name : List UInt8} (hrow : ParamRowAt p B i row)
    (hname : ParamNameAt os p B i name n) (hoffset : p.dataAt i < 2 ^ 63) (hn : n < 2 ^ 63) :
    Reads (readRowOffsets p.format2d) ⟨B, p.rowAt i + 4, p.bigEndian, false, steps, flex⟩
      (Int64.ofNat (p.dataAt i), (n : Int)) ⟨B, p.rowAt (i + 1), p.bigEndian, false, steps, flex⟩ := by
  have hlongFlag : hasFlag p.format2d paramLongDataOffset = p.hasLongOffsets := rfl
  have hintFlag : hasFlag p.format2d paramIntDataOffset = p.hasIntOffsets := rfl
  have hdata := hrow.offset
  have htext := hname.offset
  have hrange := hrow.fits
  have hend := htext.le
  have hmax : INT32_MAX = 2 ^ 31 - 1 := rfl
  rw [length_wordBytes] at hend
  rw [Param.rowAt_succ, rowHeaderSize, readRowOffsets, hlongFlag, hintFlag]
  rw [Param.offsetAt, Param.offsetWidth] at hdata
  rw [Param.nameAt, Param.nameWidth] at htext hend
  rw [Param.OffsetFits] at hrange
  by_cases hlong : p.hasLongOffsets = true
  · rw [if_pos hlong] at hdata htext hend ⊢
    rw [if_pos hlong] at hdata htext hend ⊢
    -- four bytes of padding, and both offsets as 64 bits
    have hvalue : (Int64.ofNat n).toInt = n := Int64.toInt_ofNat_of_lt hn
    have hskip : p.rowAt i + 4 + 4 ≤ B.length := (Nat.add_le_add_left (by decide : 8 ≤ 16 + 8) _).trans (by omega)
    refine Reads.skip hskip (Reads.i64Nat hdata (Reads.i64Nat htext ?_))
    rw [hvalue]
    exact Reads.pure _ _
  · have hn32 : (UInt32.ofNat n).toNat = n := UInt32.toNat_ofNat_of_lt' (hname.fits (Bool.eq_false_iff.2 hlong))
    rw [if_neg hlong] at hdata htext hend hrange ⊢
    rw [if_neg hlong] at hdata htext hend ⊢
    by_cases hint : p.hasIntOffsets = true
    · rw [if_pos hint] at hdata hrange ⊢
      have hvalue : (Int32.ofNat (p.dataAt i)).toInt64 = Int64.ofNat (p.dataAt i) := by
        rw [← Int64.toInt_inj, Int32.toInt_toInt64, int32_toInt_ofNat hrange, Int64.toInt_ofNat_of_lt hoffset]
      refine Reads.i32Nat hdata (Reads.u32Nat htext ?_)
      rw [hvalue, hn32]
      exact Reads.pure _ _
    · rw [if_neg hint] at hdata hrange ⊢
      -- the writer fills up an offset of 16 bits with two bytes
      have hvalue : (UInt16.ofNat (p.dataAt i)).toNat = p.dataAt i := UInt16.toNat_ofNat_of_lt' hrange
      have hskip : p.rowAt i + 4 + 2 + 2 ≤ B.length := by omega
      refine Reads.u16Nat hdata (Reads.skip hskip (Reads.u32Nat htext ?_))
      rw [hvalue, hn32]
      exact Reads.pure _ _

theorem reads_readRow {i : Nat} {row : ParamRow} (himage : ParamImage os p B) (hfits : p.Fits os) (hB : B.length < 2 ^ 63)
    (hrow : p.rows[i]? = some row) :
    Reads (readRow os p.format2d p.format2e) ⟨B, p.rowAt i, p.bigEndian, false, steps, flex⟩
      (head (rereadRow (p.dataAt i) row)) ⟨B, p.rowAt (i + 1), p.bigEndian, false, steps, flex⟩ := by
  have hat := himage.rows i row hrow
  obtain ⟨n, hname⟩ := himage.names i row hrow
  have hoffset : p.dataAt i < 2 ^ 63 := (Nat.le_add_right _ _).trans (hat.data.le) |>.trans_lt hB
  have hn : n < 2 ^ 63 := by
    by_cases hempty : row.name.getD [] = []
    · rw [hname.absent hempty]
      decide
    · exact (Nat.le_add_right _ _).trans ((hname.text hempty).2.le) |>.trans_lt hB
  have hend : p.rowAt (i + 1) ≤ B.length := by
    have hle := hname.offset.le
    rw [length_wordBytes, Param.nameAt, Param.nameWidth] at hle
    rw [Param.rowAt_succ, rowHeaderSize]
    simp only [Param.hasLongOffsets] at hle
    cases hlong : hasFlag p.format2d paramLongDataOffset <;> simp only [hlong] at hle ⊢ <;> exact hle
  have hread : Reads (readRowName os p.format2e n) ⟨B, p.rowAt (i + 1), p.bigEndian, false, steps, flex⟩
      (rereadRow (p.dataAt i) row).name ⟨B, p.rowAt (i + 1), p.bigEndian, false, steps, flex⟩ :=
    reads_readRowName hname (hfits.names row (List.mem_of_getElem? hrow)) hend _
  exact Reads.i32 hat.id ((reads_readRowOffsets hat hname hoffset hn).bind (hread.bind (Reads.pure _ _)))

theorem Param.headAt {i : Nat} {row : ParamRow} (h : ((rereadRows p.dataStart p.rows).map head)[i]? = some row) :
    ∃ r, p.rows[i]? = some r ∧ row = head (rereadRow (p.dataAt i) r) := by
  rw [List.getElem?_map, rereadRows_getElem?] at h
  rcases hrow : p.rows[i]? with _ | r
  · simp [hrow] at h
  · rw [hrow] at h
    exact ⟨r, rfl, (Option.some.inj h).symm⟩

theorem reads_rows (himage : ParamImage os p B) (hfits : p.Fits os) (hB : B.length < 2 ^ 63) :
    Reads (readEach (readRow os p.format2d p.format2e) p.rows.length) ⟨B, p.rowAt 0, p.bigEndian, false, steps, flex⟩
      ((rereadRows p.dataStart p.rows).map head) ⟨B, p.rowAt p.rows.length, p.bigEndian, false, steps, flex⟩ := by
  have h := reads_readEach_at (m := readRow os p.format2d p.format2e)
    (fun i => ⟨B, p.rowAt i, p.bigEndian, false, steps, flex⟩) ((rereadRows p.dataStart p.rows).map head)
    fun i row hrow => by
      obtain ⟨r, hr, rfl⟩ := Param.headAt hrow
      exact reads_readRow himage hfits hB hr
  rwa [List.length_map, length_rereadRows] at h

/-! ### The data -/

theorem Param.stringsOffset_eq (p : Param) :
    p.stringsOffset = p.dataStart + (p.rows.map fun row => row.data.length).sum := by
  rw [Param.stringsOffset, Param.dataAt, List.take_length]

theorem rereadRows_offsets {start limit : Nat} {rows : List ParamRow}
    (hlimit : start + (rows.map fun row => row.data.length).sum ≤ limit) (hsmall : limit < 2 ^ 63) :
    ∀ row ∈ (rereadRows start rows).map head, 0 ≤ row.dataOffset.toInt ∧ row.dataOffset.toInt ≤ limit := by
  induction rows generalizing start with
  | nil => simp [rereadRows]
  | cons row rest ih =>
      rw [List.map_cons, List.sum_cons] at hlimit
      have hvalue : (Int64.ofNat start).toInt = start := Int64.toInt_ofNat_of_lt (by omega)
      simp only [rereadRows, List.map_cons, List.mem_cons, forall_eq_or_imp]
      refine ⟨?_, ih (by omega)⟩
      simp only [head, rereadRow, hvalue]
      omega

theorem reads_detectSize {start limit : Nat} {rows : List ParamRow}
    (hlimit : start + (rows.map fun row => row.data.length).sum ≤ limit) (hsmall : limit < 2 ^ 62) (c : Cursor) :
    ∃ size, Reads (detectSize ((rereadRows start rows).map head) limit) c size c := by
  have hoffsets := rereadRows_offsets hlimit (hsmall.trans (by decide))
  rcases hrows : (rereadRows start rows).map head with _ | ⟨first, _ | ⟨second, rest⟩⟩
  · exact ⟨_, Reads.pure _ _⟩
  · rw [hrows] at hoffsets
    obtain ⟨hfirst, -⟩ := hoffsets first (by simp)
    obtain ⟨-, hfirst'⟩ := hoffsets first (by simp)
    exact ⟨_, (reads_int64Add (by omega) c).bind (Reads.pure _ _)⟩
  · rw [hrows] at hoffsets
    obtain ⟨hfirst, hfirst'⟩ := hoffsets first (by simp)
    obtain ⟨hsecond, hsecond'⟩ := hoffsets second (by simp)
    exact ⟨_, (reads_int64Add (by omega) c).bind (Reads.pure _ _)⟩

/-- A row ends where the next one starts, the last one where the texts start. -/
theorem rowDataSizes_cons {length total start stop : Nat} {strings : Int} {row : ParamRow} {rest : List ParamRow}
    {sizes : List Nat} (hstart : row.dataOffset.toInt = start)
    (hstop : (rest.head?.elim strings fun next => next.dataOffset.toInt) = stop) (hle : start ≤ stop)
    (hlength : stop ≤ length) (htotal : total + (stop - start) ≤ SIZE_MAX)
    (hrest : rowDataSizes length strings rest (total + (stop - start)) = .ok sizes) :
    rowDataSizes length strings (row :: rest) total = .ok ((stop - start) :: sizes) := by
  have hsize : ((stop : Int) - start).toNat = stop - start := by omega
  cases rest with
  | nil =>
      have hstop' : strings = stop := hstop
      subst hstop'
      rw [rowDataSizes.eq_def]
      simp only [hstart, hsize]
      rw [if_neg (by omega), if_neg (by omega), hrest]
      rfl
  | cons next rest =>
      have hstop' : next.dataOffset.toInt = stop := hstop
      rw [rowDataSizes.eq_def]
      simp only [hstart, hstop', hsize]
      rw [if_neg (by omega), if_neg (by omega), hrest]
      rfl

theorem rereadRows_first (start : Nat) {length : Nat} (rows : List ParamRow) (hsmall : length < 2 ^ 63)
    (hlength : start + (rows.map fun row => row.data.length).sum ≤ length) :
    (((rereadRows start rows).map head).head?.elim ((start + (rows.map fun row => row.data.length).sum : Nat) : Int)
      fun next => next.dataOffset.toInt) = start := by
  cases rows with
  | nil => rfl
  | cons row rest => exact Int64.toInt_ofNat_of_lt (by omega)

theorem rowDataSizes_rereadRows {length start strings : Nat} (rows : List ParamRow) (total : Nat)
    (hstrings : strings = start + (rows.map fun row => row.data.length).sum) (hlength : strings ≤ length)
    (hsmall : length < 2 ^ 63) (htotal : total ≤ start) :
    rowDataSizes length strings ((rereadRows start rows).map head) total = .ok (rows.map fun row => row.data.length) := by
  induction rows generalizing start total with
  | nil => rfl
  | cons row rest ih =>
      rw [List.map_cons, List.sum_cons, ← Nat.add_assoc] at hstrings
      have hmax : SIZE_MAX = 2 ^ 64 - 1 := rfl
      have hvalue : (Int64.ofNat start).toInt = start := Int64.toInt_ofNat_of_lt (by omega)
      have hrest : rowDataSizes length strings ((rereadRows (start + row.data.length) rest).map head)
          (total + row.data.length) = .ok (rest.map fun row => row.data.length) := ih _ hstrings (by omega)
      have hfirst := rereadRows_first (start + row.data.length) rest hsmall (by omega)
      rw [← hstrings] at hfirst
      have hsize : start + row.data.length - start = row.data.length := Nat.add_sub_cancel_left _ _
      have hstep : rowDataSizes length strings
          (head (rereadRow start row) :: (rereadRows (start + row.data.length) rest).map head) total
          = .ok ((start + row.data.length - start) :: rest.map fun row => row.data.length) :=
        rowDataSizes_cons hvalue hfirst (Nat.le_add_right _ _) (by omega) (by omega) (by rw [hsize]; exact hrest)
      rwa [hsize] at hstep

theorem reads_readRowData (arena : Bool) {start : Nat} (pos : Nat) {row : ParamRow} (hdata : Holds B start row.data)
    (hB : B.length < 2 ^ 63) :
    ∃ stop, Reads (readRowData arena (head (rereadRow start row)) row.data.length) ⟨B, pos, p.bigEndian, false, steps, flex⟩
      (rereadRow start row) ⟨B, stop, p.bigEndian, false, steps, flex⟩ := by
  have hle := hdata.le
  have hvalue : (Int64.ofNat start).toInt = start := Int64.toInt_ofNat_of_lt (by omega)
  unfold readRowData
  by_cases hempty : row.data.length = 0
  · have hsame : head (rereadRow start row) = rereadRow start row := by
      simp [head, rereadRow, List.length_eq_zero_iff.1 hempty]
    rw [if_pos hempty, hsame]
    exact ⟨pos, Reads.pure _ _⟩
  · rw [if_neg hempty]
    refine ⟨start + row.data.length, ?_⟩
    refine (reads_givenAlloc _ _).bind (Reads.seekAbs hvalue (by omega) (Reads.bytes hdata rfl ?_))
    exact Reads.pure _ _

theorem reads_readRowsData (arena : Bool) {start : Nat} (pos : Nat) (rows : List ParamRow)
    (hdata : ∀ i row, rows[i]? = some row →
      Holds B (start + ((rows.take i).map fun row => row.data.length).sum) row.data) (hB : B.length < 2 ^ 63) :
    ∃ stop, Reads (readRowsData arena (((rereadRows start rows).map head).zip (rows.map fun row => row.data.length)))
      ⟨B, pos, p.bigEndian, false, steps, flex⟩ (rereadRows start rows) ⟨B, stop, p.bigEndian, false, steps, flex⟩ := by
  induction rows generalizing start pos with
  | nil => exact ⟨pos, Reads.pure _ _⟩
  | cons row rest ih =>
      have hfirst : Holds B start row.data := hdata 0 row rfl
      have hnext : ∀ i r, rest[i]? = some r →
          Holds B (start + row.data.length + ((rest.take i).map fun row => row.data.length).sum) r.data := by
        intro i r hr
        have hat := hdata (i + 1) r (by simpa using hr)
        rwa [List.take_succ_cons, List.map_cons, List.sum_cons, ← Nat.add_assoc] at hat
      obtain ⟨mid, hrow⟩ : ∃ mid, Reads (readRowData arena (head (rereadRow start row)) row.data.length)
          ⟨B, pos, p.bigEndian, false, steps, flex⟩ (rereadRow start row) ⟨B, mid, p.bigEndian, false, steps, flex⟩ :=
        reads_readRowData arena pos hfirst hB
      obtain ⟨stop, hrest⟩ := ih mid hnext
      exact ⟨stop, hrow.bind (hrest.bind (Reads.pure _ _))⟩

theorem reads_captureRowData (himage : ParamImage os p B) (hB : B.length < 2 ^ 63) {pos : Nat} :
    ∃ stop, Reads (captureRowData ((rereadRows p.dataStart p.rows).map head) p.stringsOffset)
      ⟨B, pos, p.bigEndian, false, steps, flex⟩ (rereadRows p.dataStart p.rows)
      ⟨B, stop, p.bigEndian, false, steps, flex⟩ := by
  have hend := p.stringsOffset_eq
  have hstart : 0 < p.stringsOffset := Nat.lt_of_lt_of_le (by decide) (p.le_dataAt _)
  have hle := himage.strings_le
  have hsizes := rowDataSizes_rereadRows p.rows 0 hend hle hB (Nat.zero_le _)
  unfold captureRowData
  obtain ⟨stop, hrows⟩ : ∃ stop, Reads (readRowsData
      (decide (paramRowArenaMinRows ≤ ((rereadRows p.dataStart p.rows).map head).length ∧
        0 < (p.rows.map fun row => row.data.length).sum))
      (((rereadRows p.dataStart p.rows).map head).zip (p.rows.map fun row => row.data.length)))
      ⟨B, pos, p.bigEndian, false, steps, flex⟩ (rereadRows p.dataStart p.rows)
      ⟨B, stop, p.bigEndian, false, steps, flex⟩ :=
    reads_readRowsData _ pos p.rows (fun i row hrow => (himage.rows i row hrow).data) hB
  refine ⟨stop, Reads.state fun r hr => Reads.check ?_ ?_⟩
  · have hlen : r.length = B.length := congrArg (fun c => c.mem.length) hr
    omega
  · have hlen : r.length = B.length := congrArg (fun c => c.mem.length) hr
    rw [hlen, hsizes]
    exact (Reads.pure _ _).bind ((reads_givenAlloc _ _).bind hrows)

/-! ### The file -/

/-- The word behind the offset of the texts: the start of the data where the format has 16 bits for it. -/
theorem ParamImage.shortStart (himage : ParamImage os p B) :
    ∃ short : UInt16, Holds B 4 (wordBytes p.bigEndian 2 short.toNat) ∧
      (p.startsLate = false → short.toNat = p.dataStart) := by
  have hflags : 48 ≤ B.length := himage.flags.le
  by_cases hlate : p.startsLate = true
  · obtain ⟨bytes, hlen, hat⟩ : ∃ x : List UInt8, x.length = 2 ∧ Holds B 4 x :=
      exists_holds ((by decide : 4 + 2 ≤ 48).trans hflags)
    have hvalue : (UInt16.ofNat (wordNat p.bigEndian bytes)).toNat = wordNat p.bigEndian bytes := by
      have hlt := wordNat_lt p.bigEndian bytes
      rw [hlen] at hlt
      exact UInt16.toNat_ofNat_of_lt' hlt
    have hword := wordBytes_wordNat p.bigEndian bytes
    rw [hlen] at hword
    refine ⟨UInt16.ofNat (wordNat p.bigEndian bytes), ?_, fun h => by rw [hlate] at h; cases h⟩
    rwa [hvalue, hword]
  · obtain ⟨hstart, hfits, -⟩ := himage.start
    have hearly : p.startsLate = false := Bool.eq_false_iff.2 hlate
    have hwidth : p.startWidth = 2 := by
      obtain ⟨hint, hlong⟩ := Bool.or_eq_false_iff.1 hearly
      rw [Param.startWidth, hint, hlong]
      rfl
    rw [Param.startAt, if_neg hlate, hwidth] at hstart
    have hvalue : (UInt16.ofNat p.dataStart).toNat = p.dataStart := UInt16.toNat_ofNat_of_lt' (hfits hearly)
    exact ⟨_, by rwa [hvalue], fun _ => hvalue⟩

/-- `param_read` comes to stand behind the type. -/
theorem leads_paramRead (hos : os.AsciiCompatible) (himage : ParamImage os p B) (hfits : p.Fits os) (hB : B.length < 2 ^ 63)
    {short : UInt16} (hshort : Holds B 4 (wordBytes p.bigEndian 2 short.toNat)) :
    Leads (paramRead os) ⟨B, 0, false, false, [], flex⟩ (do
      let start ← readDataStart p.format2d short.toNat
      let rowsStart ← peek position
      rejectUnnamedOrHeaderlessRows start p.rows.length (rowHeaderSize p.format2d)
      given (0 < p.rows.length) () do
        let _ ← onHeap Heap.alloc
        pure ()
      seekAbs rowsStart
      let rows ← readEach (readRow os p.format2d p.format2e) p.rows.length
      let detectedSize ← detectSize rows p.stringsOffset
      let rows ← captureRowData rows p.stringsOffset
      pure { p.reread detectedSize with rows := rows })
      ⟨B, 44, p.bigEndian, false, [], flex⟩ := by
  have hflags := himage.flags
  have hflagsLe : 48 ≤ B.length := hflags.le
  have hhead : ∀ a b c d : UInt8, [a, b, c, d] = [a] ++ ([b] ++ ([c] ++ [d])) := fun _ _ _ _ => rfl
  rw [hhead, holds_append, holds_append, holds_append] at hflags
  obtain ⟨hendian, h2d, h2e, hversion⟩ := hflags
  have hcount : (UInt16.ofNat p.rows.length).toNat = p.rows.length := UInt16.toNat_ofNat_of_lt' himage.count
  have hstrings : (UInt32.ofNat p.stringsOffset).toNat = p.stringsOffset := UInt32.toNat_ofNat_of_lt' himage.strings_lt
  have horder : decide ((if p.bigEndian = true then (0xFF : UInt8) else 0x00) = 0xFF) = p.bigEndian := by
    cases p.bigEndian <;> rfl
  have hmark : (if p.bigEndian = true then (0xFF : UInt8) else 0x00) = 0 ∨
      (if p.bigEndian = true then (0xFF : UInt8) else 0x00) = 0xFF := by
    cases p.bigEndian
    · exact .inl rfl
    · exact .inr rfl
  unfold paramRead
  have hseek : Reads (seekAbs 0x2C) ⟨B, 0, false, false, [], flex⟩ () ⟨B, 44, false, false, [], flex⟩ :=
    Reads.last (Reads.seekAbs rfl ((by decide : 44 ≤ 48).trans hflagsLe) (Reads.pure _ _))
  refine hseek.leads ((Reads.last (Reads.u8 hendian (Reads.pure _ _))).leads (Leads.check hmark ?_))
  refine (Reads.setBigEndian _ _).leads ?_
  rw [horder]
  refine (Reads.last (Reads.u8 h2d (Reads.pure _ _))).leads ?_
  refine (Reads.last (Reads.u8 h2e (Reads.pure _ _))).leads ?_
  refine (Reads.last (Reads.u8 hversion (Reads.pure _ _))).leads (Leads.room true fun _ => ?_)
  -- with the byte order known, the header is read from its front
  refine (Reads.last (Reads.seekAbs rfl (Nat.zero_le _) (Reads.pure _ _))).leads ?_
  refine (Reads.last (Reads.u32Nat himage.strings (Reads.pure _ _))).leads ?_
  refine (Reads.last (Reads.u16 hshort (Reads.pure _ _))).leads ?_
  refine (Reads.last (Reads.i16 himage.unk06 (Reads.pure _ _))).leads ?_
  refine (Reads.last (Reads.i16 himage.version (Reads.pure _ _))).leads ?_
  refine (Reads.last (Reads.u16Nat himage.rowCount (Reads.pure _ _))).leads ?_
  rw [hcount, hstrings]
  refine (reads_readParamTypeOf hos hfits.type himage hB).leads ((Reads.pure _ _).leads ?_)
  exact Leads.refl _ _

theorem reads_paramRead (hos : os.AsciiCompatible) (himage : ParamImage os p B) (hfits : p.Fits os) (hagrees : p.StartAgrees)
    (hB : B.length < 2 ^ 62) :
    ∃ size stop, Reads (paramRead os) ⟨B, 0, false, false, [], flex⟩ (p.reread size)
      ⟨B, stop, p.bigEndian, false, [], flex⟩ := by
  have hlong : B.length < 2 ^ 63 := hB.trans (by decide)
  obtain ⟨short, hshort, hearly⟩ := himage.shortStart
  have hlead : Leads _ ⟨B, 0, false, false, [], flex⟩ _ _ := leads_paramRead hos himage hfits hlong hshort
  obtain ⟨start, hstart, hreadStart⟩ := reads_readDataStart himage hagrees hearly
  have hend := p.stringsOffset_eq
  have hstringsLe := himage.strings_le
  obtain ⟨size, hsize⟩ := reads_detectSize hend.ge (by omega) ⟨B, p.rowAt p.rows.length, p.bigEndian, false, [], flex⟩
  obtain ⟨stop, hdata⟩ := reads_captureRowData himage hlong
  have hrowsStart : p.rowAt 0 ≤ B.length := by
    have hle : p.rowAt 0 ≤ p.dataStart := by
      rw [Param.rowAt_zero, Param.dataStart, Param.rowAt]
      omega
    omega
  -- the start of the data, the headers of the rows, and what they lead to
  refine ⟨size, stop, hlead.reads (hreadStart.bind (Reads.position ?_))⟩
  refine (reads_rejectUnnamedOrHeaderlessRows hstart).bind ((reads_givenAlloc _ _).bind (Reads.seekAbs rfl hrowsStart ?_))
  exact (reads_rows himage hfits hlong).bind (hsize.bind (hdata.bind (Reads.pure _ _)))

/-! ### A start that is looked for in the wrong place -/

/-- A strict reader refuses a word that is not the one it expects. -/
theorem refuses_assertZero {β : Type} {pos n : Nat} {be long : Bool} {f : Int32 → ReadM β}
    (h : Holds B pos (wordBytes be 4 n)) (hpos : 0 < n) (hn : n < 2 ^ 32) : Refuses (BinaryReader.assertI32 [0] >>= f) ⟨B, pos, be, long, steps, false⟩ := by
  refine Refuses.bind ?_
  have hread : Reads readI32 ⟨B, pos, be, long, steps, false⟩ (Int32.ofNat n) ⟨B, pos + 4, be, long, steps, false⟩ :=
    Reads.last (Reads.i32Nat h (Reads.pure _ _))
  have hne : ¬ Int32.ofNat n ∈ [(0 : Int32)] := by
    intro hmem
    have hzero : (Int32.ofNat n).toInt = 0 := congrArg Int32.toInt (List.mem_singleton.1 hmem)
    rw [Int32.toInt_ofNat', Int.bmod_def] at hzero
    simp only [Int32.size] at hzero
    split at hzero <;> omega
  refine Leads.refuses (Leads.check (by decide) (hread.leads (Leads.refl _ _))) ?_
  intro r hr hcalm a ha
  have hflex : r.isFlexible = false := congrArg Cursor.isFlexible hr
  rw [state_bind_run, hflex] at ha
  exact refuses_check hne r hr hcalm a ha

/-- Where the start of the data is not where the reader looks for it, something stands there that is not zero. -/
theorem ParamImage.notZero (himage : ParamImage os p B) (hrows : p.rows ≠ []) (hagrees : ¬ p.StartAgrees) :
    p.hasIntOffsets = true ∧ ∃ n, 0 < n ∧ n < 2 ^ 32 ∧ Holds B 52 (wordBytes p.bigEndian 4 n) := by
  rw [Param.StartAgrees, Classical.not_imp] at hagrees
  obtain ⟨hint, hnot⟩ := hagrees
  obtain ⟨hflag, hword⟩ := not_or.1 hnot
  have hintStart : p.hasIntStart = false := by
    rw [Param.hasIntStart, Bool.eq_false_iff.2 hflag]
    rfl
  refine ⟨hint, ?_⟩
  by_cases hlong : p.hasLongOffsets = true
  · -- the low half of a start of 64 bits in big-endian order
    have hbig : p.bigEndian = true := by
      cases hbe : p.bigEndian with
      | true => rfl
      | false => exact absurd ⟨hlong, hbe⟩ hword
    have hlate : p.startsLate = true := by rw [Param.startsLate, hlong, Bool.or_true]
    have hstart := himage.start.start
    rw [Param.startAt, if_pos hlate, Param.startWidth, hintStart, if_neg (by decide), if_pos hlong, hbig,
      wordBytes_true_add 4 4, holds_append, length_wordBytes] at hstart
    refine ⟨p.dataStart, ?_, (Nat.le_add_right _ _).trans_lt himage.strings_lt, ?_⟩
    · rw [← p.dataAt_zero]
      exact Nat.lt_of_lt_of_le (by decide) (p.le_dataAt 0)
    · rw [hbig]
      exact hstart.2
  · -- the offset of the data of the first row
    obtain ⟨row, rest, hcons⟩ := List.exists_cons_of_ne_nil hrows
    obtain ⟨-, hoffset, hfits, -⟩ := himage.rows 0 row (by rw [hcons]; rfl)
    have hearly : p.startsLate = false := by
      rw [Param.startsLate, hintStart, Bool.eq_false_iff.2 hlong]
      rfl
    rw [Param.offsetAt, Param.offsetWidth, if_neg hlong, if_neg hlong, if_pos hint, Param.rowAt_zero, hearly] at hoffset
    rw [Param.OffsetFits, if_neg hlong, if_pos hint] at hfits
    have hmax : INT32_MAX = 2 ^ 31 - 1 := rfl
    exact ⟨p.dataAt 0, Nat.lt_of_lt_of_le (by decide) (p.le_dataAt 0), by omega, hoffset⟩

theorem refuses_paramRead (hos : os.AsciiCompatible) (himage : ParamImage os p B) (hfits : p.Fits os)
    (hB : B.length < 2 ^ 63) (hrows : p.rows ≠ []) (hagrees : ¬ p.StartAgrees) :
    Refuses (paramRead os) ⟨B, 0, false, false, [], false⟩ := by
  obtain ⟨hint, n, hpos, hn, hat⟩ := himage.notZero hrows hagrees
  obtain ⟨short, hshort, -⟩ := himage.shortStart
  have hlead : Leads _ ⟨B, 0, false, false, [], false⟩ _ _ := leads_paramRead hos himage hfits hB hshort
  have hflags : 48 ≤ B.length := himage.flags.le
  have hle := hat.le
  rw [length_wordBytes] at hle
  -- whatever is read as the start, the word behind it is not zero
  obtain ⟨bytes, hlen, hword⟩ : ∃ x : List UInt8, x.length = 4 ∧ Holds B 48 x :=
    exists_holds ((by decide : 48 + 4 ≤ 52 + 4).trans hle)
  have hvalue := wordBytes_wordNat p.bigEndian bytes
  rw [hlen] at hvalue
  rw [← hvalue] at hword
  have hintFlag : hasFlag p.format2d paramIntDataOffset = true := hint
  refine hlead.refuses (Refuses.bind ?_)
  unfold readDataStart
  refine (Reads.last (Reads.seekAbs rfl ((by decide : 44 ≤ 48).trans hflags) (Reads.pure _ _))).refuses ?_
  refine (Reads.last (Reads.skip hflags (Reads.pure _ _))).refuses ?_
  rw [if_pos hintFlag]
  exact (Reads.last (Reads.i32Nat hword (Reads.pure _ _))).refuses (refuses_assertZero hat hpos hn)

end Reading

/-! ## The round trip -/

/-- **What was written comes back**, with the content it had, and is written as the same file again, where the reader
    finds the start of the data; and otherwise a strict reader takes no file with rows. -/
theorem param_file_round_trips {os : Win32} (hos : os.AsciiCompatible) {p : Param} (hfits : p.Fits os) {heap heap' : Heap}
    {out : List UInt8} (hcalm : heap'.Calm) (hwrite : (paramWriteToMemory os p heap).1 = .ok out)
    (hsize : out.length < 2 ^ 62) :
    (p.StartAgrees → ∀ flexible, ∃ q, (paramReadFromMemory os flexible out heap').1 = .ok q ∧ q.SameContent p ∧
      paramWriteToMemory os q = paramWriteToMemory os p) ∧
    (p.rows ≠ [] → ¬ p.StartAgrees → ∀ q, (paramReadFromMemory os false out heap').1 ≠ .ok q) := by
  obtain ⟨st, -, himage, -, -⟩ := (puts_paramWrite hos hfits).toMemory nofun hwrite
  constructor
  · intro hagrees flexible
    obtain ⟨size, stop, hread⟩ := reads_paramRead hos himage hfits hagrees hsize
    obtain ⟨_, hrun, -⟩ := BinaryReader.onMemory_ok hread hcalm
    exact ⟨p.reread size, congrArg Prod.fst hrun, sameContent_reread p size, paramWriteToMemory_reread hfits.unapplied size⟩
  · intro hrows hagrees q
    have hlong : out.length < 2 ^ 63 := hsize.trans (by decide)
    exact BinaryReader.onMemory_refuses (refuses_paramRead hos himage hfits hlong hrows hagrees) hcalm q

/-- A file with two rows and offsets of 32 bits; only the first row has a name. -/
def paramSample (format2d : UInt8) : Param where
  rows := [{ id := 10, data := [1, 2, 3, 4], name := some [97] }, { id := 20, data := [5, 6, 7, 8] }]
  paramType := [80]
  bigEndian := false
  format2d := format2d
  format2e := 0
  paramdefFormatVersion := 0xCC
  paramdefDataVersion := 1
  unk06 := 0
  detectedSize := 4

/-- The sample as a file. -/
def paramSampleFile (format2d : UInt8) : List UInt8 :=
  (paramWriteToMemory .ascii (paramSample format2d) []).1.toOption.getD []

theorem paramSample_round_trips :
    (∃ q, (paramReadFromMemory .ascii false (paramSampleFile 0x83) []).1 = .ok q ∧ q.SameContent (paramSample 0x83) ∧
      paramWriteToMemory .ascii q = paramWriteToMemory .ascii (paramSample 0x83)) ∧
    ∀ q, (paramReadFromMemory .ascii false (paramSampleFile 0x82) []).1 ≠ .ok q := by
  have hplain : Win32.isPlain [97] = true ∧ Win32.isPlain [] = true := by decide
  have hrowNames : ∀ row ∈ (paramSample 0x83).rows, TextFits .ascii false (row.name.getD []) := by
    simp only [paramSample, List.forall_mem_cons]
    exact ⟨TextFits.plain Win32.ascii_compatible ⟨hplain.1, by decide⟩,
      TextFits.plain Win32.ascii_compatible ⟨hplain.2, by decide⟩, by simp⟩
  have hfits : (paramSample 0x83).Fits .ascii := ⟨by decide, (if_pos (by decide)).mpr (by decide), hrowNames⟩
  have hfits' : (paramSample 0x82).Fits .ascii := ⟨by decide, (if_pos (by decide)).mpr (by decide), hrowNames⟩
  have hwrite : (paramWriteToMemory .ascii (paramSample 0x83) []).1 = .ok (paramSampleFile 0x83) := by decide +kernel
  have hwrite' : (paramWriteToMemory .ascii (paramSample 0x82) []).1 = .ok (paramSampleFile 0x82) := by decide +kernel
  obtain ⟨hback, -⟩ := param_file_round_trips Win32.ascii_compatible hfits Heap.calm_nil hwrite (by decide +kernel)
  obtain ⟨-, hrefused⟩ := param_file_round_trips Win32.ascii_compatible hfits' Heap.calm_nil hwrite' (by decide +kernel)
  exact ⟨hback (fun _ => .inl (by decide)) false, hrefused (by decide) fun h => absurd (h (by decide)) (by decide)⟩

end SoulsFormats
