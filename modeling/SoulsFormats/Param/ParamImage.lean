import SoulsFormats.Core.Tables
import SoulsFormats.Param.Param

set_option autoImplicit false

/-! # Where a parameter file holds what

What `param_write` puts into the file: the header, the headers of the rows, their data one after another, the type
where the format keeps it there, and the names. A name that occurs again is not written again. -/

namespace SoulsFormats

open Bytes Fallible

/-! ## Where everything stands -/

namespace Param

variable (p : Param)

/-- The start of the data stands behind the flags. -/
def startsLate : Bool := p.hasIntStart || p.hasLongOffsets

def startAt : Nat := if p.startsLate then 48 else 4

def startWidth : Nat := if p.hasIntStart then 4 else if p.hasLongOffsets then 8 else 2

/-- The type stands in the header, and not behind the data. -/
def hasTypeField : Bool := !p.hasOffsetParamType && !p.hasIntOffsets && !p.hasLongOffsets

def typeAt : Nat := if p.hasOffsetParamType then 16 else 12

def typeWidth : Nat := if p.hasOffsetParamType then 8 else 4

/-- Where the header of the `i`-th row stands, and in it the offsets of its data and of its name. -/
def rowAt (i : Nat) : Nat := (if p.startsLate then 64 else 48) + i * rowHeaderSize p.format2d

def offsetAt (i : Nat) : Nat := p.rowAt i + if p.hasLongOffsets then 8 else 4

def nameAt (i : Nat) : Nat := p.rowAt i + if p.hasLongOffsets then 16 else 8

def offsetWidth : Nat := if p.hasLongOffsets then 8 else if p.hasIntOffsets then 4 else 2

def nameWidth : Nat := if p.hasLongOffsets then 8 else 4

/-- Where the data start. -/
def dataStart : Nat := p.rowAt p.rows.length + if decide (p.format2d = paramFlag01) then 0x20 else 0

/-- Where the data of the `i`-th row stand. -/
def dataAt (i : Nat) : Nat := p.dataStart + ((p.rows.take i).map fun row => row.data.length).sum

/-- Where the data end. -/
def stringsOffset : Nat := p.dataAt p.rows.length

theorem rowAt_zero : p.rowAt 0 = if p.startsLate then 64 else 48 := by simp [rowAt]

theorem rowAt_succ (i : Nat) : p.rowAt (i + 1) = p.rowAt i + rowHeaderSize p.format2d := by
  rw [rowAt, rowAt, Nat.succ_mul, Nat.add_assoc]

theorem dataAt_zero : p.dataAt 0 = p.dataStart := by simp [dataAt]

variable {p} in
theorem dataAt_succ {i : Nat} {row : ParamRow} (hrow : p.rows[i]? = some row) :
    p.dataAt (i + 1) = p.dataAt i + row.data.length := by
  simp [dataAt, List.take_add_one, hrow, Nat.add_assoc]

theorem le_rowAt (i : Nat) : 48 ≤ p.rowAt i := by
  have hstart : 48 ≤ if p.startsLate then 64 else 48 := by split <;> decide
  exact hstart.trans (Nat.le_add_right _ _)

theorem le_dataAt (i : Nat) : 48 ≤ p.dataAt i :=
  (p.le_rowAt p.rows.length).trans ((Nat.le_add_right _ _).trans (Nat.le_add_right _ _))

/-! ## What can be stored -/

/-- The type comes back from the encoding that the format stores it in. -/
def TypeFits (os : Win32) : Prop :=
  if p.hasOffsetParamType then Win32.isPlain p.paramType = true ∧ p.paramType.length ≤ INT32_MAX
  else if p.hasIntOffsets ∨ p.hasLongOffsets then TextFits os false p.paramType
  else os.Fits .shiftJis p.paramType ∧ (os.encoded .shiftJis p.paramType).length ≤ 0x20

/-- No description is applied to a row, and the texts come back from their encodings. -/
structure Fits (os : Win32) : Prop where
  unapplied : ∀ row ∈ p.rows, row.applied = none
  type : p.TypeFits os
  names : ∀ row ∈ p.rows, TextFits os p.hasUnicodeRowNames (row.name.getD [])

/-- The offset of the data of a row is in the range that the writer checks. -/
def OffsetFits (v : Nat) : Prop := if p.hasLongOffsets then True else if p.hasIntOffsets then v ≤ INT32_MAX else v < 2 ^ 16

end Param

/-- The bytes of a text in a field of `n` bytes that is filled up with `fill`. -/
def paddedText (os : Win32) (n : Nat) (fill : UInt8) (t : List UInt8) : List UInt8 :=
  (os.encoded .shiftJis t ++ [0]).take n ++ List.replicate (n - (os.encoded .shiftJis t ++ [0]).length) fill

theorem length_paddedText (os : Win32) (n : Nat) (fill : UInt8) (t : List UInt8) :
    (paddedText os n fill t).length = n := by
  simp [paddedText]
  omega

/-- What pads the type in its field. -/
def Param.typePad (p : Param) : UInt8 := if hasFlag p.format2d paramFlag01 then 0x20 else 0x00

/-! ## The image -/

/-- The name of a row stands at `n`; a row without a name has 0 there. -/
structure ParamNameAt (os : Win32) (p : Param) (B : List UInt8) (i : Nat) (name : List UInt8) (n : Nat) : Prop where
  offset : Holds B (p.nameAt i) (wordBytes p.bigEndian p.nameWidth n)
  fits : p.hasLongOffsets = false → n < 2 ^ 32
  absent : name = [] → n = 0
  text : name ≠ [] → 0 < n ∧ Holds B n (storedText os p.hasUnicodeRowNames p.bigEndian name)

/-- The header of the `i`-th row and its data. -/
structure ParamRowAt (p : Param) (B : List UInt8) (i : Nat) (row : ParamRow) : Prop where
  id : Holds B (p.rowAt i) (wordBytes p.bigEndian 4 row.id.toUInt32.toNat)
  offset : Holds B (p.offsetAt i) (wordBytes p.bigEndian p.offsetWidth (p.dataAt i))
  fits : p.OffsetFits (p.dataAt i)
  data : Holds B (p.dataAt i) row.data

/-- The type, in its field or behind the data. -/
structure ParamTypeAt (os : Win32) (p : Param) (B : List UInt8) : Prop where
  zeros : p.hasOffsetParamType = true → Holds B 12 (wordBytes p.bigEndian 4 0) ∧ Holds B 24 (List.replicate 0x14 0)
  field : p.hasTypeField = true → Holds B 12 (paddedText os 0x20 p.typePad p.paramType)
  offset : p.hasTypeField = false → Holds B p.typeAt (wordBytes p.bigEndian p.typeWidth p.stringsOffset)
  text : p.hasTypeField = false → Holds B p.stringsOffset (storedText os false p.bigEndian p.paramType)

/-- The start of the data. -/
structure ParamStartAt (p : Param) (B : List UInt8) : Prop where
  start : Holds B p.startAt (wordBytes p.bigEndian p.startWidth p.dataStart)
  fits : p.startsLate = false → p.dataStart < 2 ^ 16
  rest : p.startsLate = true → Holds B (48 + p.startWidth) (List.replicate (16 - p.startWidth) 0)

/-- What a parameter file holds. -/
structure ParamImage (os : Win32) (p : Param) (B : List UInt8) : Prop where
  count : p.rows.length < 2 ^ 16
  strings : Holds B 0 (wordBytes p.bigEndian 4 p.stringsOffset)
  strings_lt : p.stringsOffset < 2 ^ 32
  strings_le : p.stringsOffset ≤ B.length
  start : ParamStartAt p B
  unk06 : Holds B 6 (wordBytes p.bigEndian 2 p.unk06.toUInt16.toNat)
  version : Holds B 8 (wordBytes p.bigEndian 2 p.paramdefDataVersion.toUInt16.toNat)
  rowCount : Holds B 10 (wordBytes p.bigEndian 2 p.rows.length)
  type : ParamTypeAt os p B
  flags : Holds B 44 [if p.bigEndian then 0xFF else 0x00, p.format2d, p.format2e, p.paramdefFormatVersion]
  rows : ∀ i row, p.rows[i]? = some row → ParamRowAt p B i row
  names : ∀ i row, p.rows[i]? = some row → ∃ n, ParamNameAt os p B i (row.name.getD []) n

/-! ## The slots -/

/-- What is filled in later. -/
inductive ParamSlot where
  | rowOffset
  | nameOffset
  | dataStart
  | stringsOffset
  | paramTypeOffset

def paramLabels (p : Param) : BinaryWriter.Labels ParamSlot where
  base
    | .rowOffset => "RowOffset"
    | .nameOffset => "NameOffset"
    | .dataStart => "DataStart"
    | .stringsOffset => "StringsOffset"
    | .paramTypeOffset => "ParamTypeOffset"
  kind
    | .rowOffset => if p.hasLongOffsets then .i64 else if p.hasIntOffsets then .i32 else .u16
    | .nameOffset => if p.hasLongOffsets then .i64 else .u32
    | .dataStart => if p.hasIntStart then .u32 else if p.hasLongOffsets then .i64 else .u16
    | .stringsOffset => .u32
    | .paramTypeOffset => if p.hasOffsetParamType then .i64 else .u32
  noDigits := by
    intro a
    cases a <;> decide
  inj := by
    intro a b h
    cases a <;> cases b <;> first | rfl | exact absurd h (by decide)

/-- Where a slot is reserved. -/
def paramAddr (p : Param) : ParamSlot → Option Nat → Nat
  | .rowOffset, i => p.offsetAt (i.getD 0)
  | .nameOffset, i => p.nameAt (i.getD 0)
  | .dataStart, _ => p.startAt
  | .stringsOffset, _ => 0
  | .paramTypeOffset, _ => p.typeAt

abbrev paramSlots (p : Param) : BinaryWriter.FileSlots (ParamSlot × Option Nat) := (paramLabels p).slots (paramAddr p)

/-! ## Writing -/

section Writing

open BinaryWriter

variable {os : Win32} {p : Param} {pos : Nat} {be : Bool}

/-! ## Fields whose width the format chooses -/

section Fields

variable {β : Type} {Q : β → Stand → Prop} {G : β → Stand → List UInt8 → Prop} {f : Unit → WriteM β}

/-- A slot that is reserved in one kind or another. -/
theorem Puts.reserved {k : Scalar} {name : List UInt8} {width : Nat} (a : ParamSlot) (i : Option Nat)
    (hname : (paramSlots p).key (a, i) = (name, (paramLabels p).kind a)) (hkind : (paramLabels p).kind a = scalarKind false k)
    (hwidth : kindWidth (scalarKind false k) = width) (haddr : paramAddr p a i = pos)
    (hf : Puts (paramSlots p) (f ()) ⟨pos + width, be, false⟩ Q G) :
    Puts (paramSlots p) (reserveScalar k name >>= f) ⟨pos, be, false⟩ Q G :=
  Puts.reserve (a, i) (by rw [hname, hkind]) haddr (by rwa [hwidth])

/-- A number is put where a slot of one kind or another was reserved. -/
theorem Puts.filled {k : Scalar} {name : List UInt8} {width value : Nat} {v : k.Value} (a : ParamSlot) (i : Option Nat)
    (hname : (paramSlots p).key (a, i) = (name, (paramLabels p).kind a)) (hkind : (paramLabels p).kind a = scalarKind false k)
    (hbytes : scalarBytes be false k v = wordBytes be width value)
    (hf : Puts (paramSlots p) (f ()) ⟨pos, be, false⟩ Q
      fun u st B => Holds B (paramAddr p a i) (wordBytes be width value) → G u st B) :
    Puts (paramSlots p) (fillScalar k name v >>= f) ⟨pos, be, false⟩ Q G :=
  Puts.fill (a, i) (by rw [hname, hkind]) (by rwa [hbytes])

theorem paramSlots_dataStart : (paramSlots p).key (.dataStart, none) = (cstr "DataStart", (paramLabels p).kind .dataStart) :=
  (paramLabels p).key_none _ _ _

theorem Puts.reserveRowOffset (i : Nat) (haddr : p.offsetAt i = pos)
    (hf : Puts (paramSlots p) (f ()) ⟨pos + p.offsetWidth, be, false⟩ Q G) :
    Puts (paramSlots p) (reserveRowOffset p i >>= f) ⟨pos, be, false⟩ Q G := by
  unfold SoulsFormats.reserveRowOffset
  rw [Param.offsetWidth] at hf
  split
  · next h =>
      rw [if_pos h] at hf
      exact Puts.reserved .rowOffset (some i) rfl (if_pos h) rfl haddr hf
  · next h =>
      rw [if_neg h] at hf
      split
      · next h' =>
          rw [if_pos h'] at hf
          exact Puts.reserved .rowOffset (some i) rfl ((if_neg h).trans (if_pos h')) rfl haddr hf
      · next h' =>
          rw [if_neg h'] at hf
          exact Puts.reserved .rowOffset (some i) rfl ((if_neg h).trans (if_neg h')) rfl haddr hf

theorem Puts.fillRowOffset (i value : Nat)
    (hf : p.OffsetFits value → Puts (paramSlots p) (f ()) ⟨pos, be, false⟩ Q
      fun u st B => Holds B (p.offsetAt i) (wordBytes be p.offsetWidth value) → G u st B) :
    Puts (paramSlots p) (fillRowOffset p i value >>= f) ⟨pos, be, false⟩ Q G := by
  unfold SoulsFormats.fillRowOffset
  rw [Param.OffsetFits, Param.offsetWidth] at hf
  split
  · next h =>
      rw [if_pos h, if_pos h] at hf
      exact Puts.filled .rowOffset (some i) rfl (if_pos h) (scalarBytes_i64_ofNat _ _ _) (hf trivial)
  · next h =>
      rw [if_neg h, if_neg h] at hf
      split
      · next h' =>
          rw [if_pos h', if_pos h'] at hf
          rw [bind_assoc]
          exact Puts.check fun hfits => Puts.filled .rowOffset (some i) rfl
            ((if_neg h).trans (if_pos h')) (wordBytes_i32 _ _) (hf hfits)
      · next h' =>
          rw [if_neg h', if_neg h'] at hf
          rw [bind_assoc]
          exact Puts.check fun hfits => Puts.filled .rowOffset (some i) rfl
            ((if_neg h).trans (if_neg h')) (wordBytes_u16 _ _) (hf hfits)

theorem Puts.reserveNameOffset (i : Nat) (haddr : p.nameAt i = pos)
    (hf : Puts (paramSlots p) (f ()) ⟨pos + p.nameWidth, be, false⟩ Q G) :
    Puts (paramSlots p) (reserveNameOffset p i >>= f) ⟨pos, be, false⟩ Q G := by
  unfold SoulsFormats.reserveNameOffset
  rw [Param.nameWidth] at hf
  split
  · next h =>
      rw [if_pos h] at hf
      exact Puts.reserved .nameOffset (some i) rfl (if_pos h) rfl haddr hf
  · next h =>
      rw [if_neg h] at hf
      exact Puts.reserved .nameOffset (some i) rfl (if_neg h) rfl haddr hf

theorem Puts.fillNameOffset (i value : Nat)
    (hf : (p.hasLongOffsets = false → value < 2 ^ 32) → Puts (paramSlots p) (f ()) ⟨pos, be, false⟩ Q
      fun u st B => Holds B (p.nameAt i) (wordBytes be p.nameWidth value) → G u st B) :
    Puts (paramSlots p) (fillNameOffset p i value >>= f) ⟨pos, be, false⟩ Q G := by
  unfold SoulsFormats.fillNameOffset
  rw [Param.nameWidth] at hf
  split
  · next h =>
      rw [if_pos h] at hf
      refine Puts.filled .nameOffset (some i) rfl (if_pos h) (scalarBytes_i64_ofNat _ _ _) (hf fun h' => ?_)
      exact absurd h (by simp [h'])
  · next h =>
      rw [if_neg h] at hf
      rw [bind_assoc]
      exact Puts.check fun hfits => Puts.filled .nameOffset (some i) rfl (if_neg h) (wordBytes_u32 _ _)
        (hf fun _ => hfits)

/-- The start of the data, which is behind the flags if the format keeps it there. -/
theorem puts_writeShortStart : Puts (paramSlots p) (writeShortStart p) ⟨4, be, false⟩
    (fun _ st => st = ⟨6, be, false⟩) fun _ _ _ => True := by
  unfold writeShortStart
  refine Puts.ite (fun _ => Puts.last (Puts.i16 (Puts.done rfl fun _ _ => trivial))) fun h => ?_
  obtain ⟨hint, hlong⟩ := not_or.1 h
  have haddr : p.startAt = 4 := by simp [Param.startAt, Param.startsLate, hint, hlong]
  have hkind : (paramLabels p).kind .dataStart = .u16 := (if_neg hint).trans (if_neg hlong)
  exact Puts.last (Puts.reserved (k := .u16) .dataStart none paramSlots_dataStart hkind rfl haddr
    (Puts.done rfl fun _ => trivial))

theorem puts_writeLongStart : Puts (paramSlots p) (writeLongStart p) ⟨48, be, false⟩
    (fun _ st => st = ⟨p.rowAt 0, be, false⟩) fun _ _ B =>
      p.startsLate = true → Holds B (48 + p.startWidth) (List.replicate (16 - p.startWidth) 0) := by
  have hword : ∀ be : Bool, wordBytes be 4 (0 : Int32).toUInt32.toNat = List.replicate 4 0 := by decide
  have hlongWord : ∀ be : Bool, wordBytes be 8 (0 : Int64).toUInt64.toNat = List.replicate 8 0 := by decide
  have haddr : p.startsLate = true → paramAddr p .dataStart none = 48 := fun h => if_pos h
  rw [Param.rowAt_zero]
  unfold writeLongStart
  split
  · next h =>
      have hlate : p.startsLate = true := by simp [Param.startsLate, h]
      rw [if_pos hlate, Param.startWidth, if_pos h]
      refine Puts.reserved (k := .u32) .dataStart none paramSlots_dataStart (if_pos h) (rfl : _ = 4) (haddr hlate) ?_
      refine Puts.i32 (Puts.i32 (Puts.last (Puts.i32 (Puts.done rfl fun B h3 h2 h1 _ => ?_))))
      rw [hword] at h1 h2 h3
      have hzeros : List.replicate (16 - 4) (0 : UInt8)
          = List.replicate 4 0 ++ (List.replicate 4 0 ++ List.replicate 4 0) := rfl
      rw [hzeros]
      exact holds_append.2 ⟨h1, holds_append.2 ⟨h2, h3⟩⟩
  · next h =>
      split
      · next h' =>
          have hlate : p.startsLate = true := by simp [Param.startsLate, h']
          rw [if_pos hlate, Param.startWidth, if_neg h, if_pos h']
          refine Puts.reserved (k := .i64) .dataStart none paramSlots_dataStart ((if_neg h).trans (if_pos h')) (rfl : _ = 8)
            (haddr hlate) ?_
          refine Puts.last (Puts.i64 (Puts.done rfl fun B hz _ => ?_))
          rwa [hlongWord] at hz
      · next h' =>
          have hlate : ¬ p.startsLate = true := by simp [Param.startsLate, h, h']
          rw [if_neg hlate]
          exact Puts.done rfl fun _ h => absurd h hlate

theorem Puts.fillDataStart (value : Nat)
    (hf : (p.startsLate = false → value < 2 ^ 16) → Puts (paramSlots p) (f ()) ⟨pos, be, false⟩ Q
      fun u st B => Holds B p.startAt (wordBytes be p.startWidth value) → G u st B) :
    Puts (paramSlots p) (fillDataStart p value >>= f) ⟨pos, be, false⟩ Q G := by
  unfold SoulsFormats.fillDataStart
  rw [Param.startWidth, Param.startsLate] at hf
  split
  · next h =>
      rw [if_pos h] at hf
      rw [bind_assoc]
      exact Puts.check fun _ => Puts.filled .dataStart none paramSlots_dataStart (if_pos h) (wordBytes_u32 _ _)
        (hf fun h' => absurd h' (by simp [h]))
  · next h =>
      rw [if_neg h] at hf
      split
      · next h' =>
          rw [if_pos h'] at hf
          exact Puts.filled .dataStart none paramSlots_dataStart ((if_neg h).trans (if_pos h'))
            (scalarBytes_i64_ofNat _ _ _) (hf fun h'' => absurd h'' (by simp [h']))
      · next h' =>
          rw [if_neg h'] at hf
          rw [bind_assoc]
          exact Puts.check fun hfits => Puts.filled .dataStart none paramSlots_dataStart ((if_neg h).trans (if_neg h'))
            (wordBytes_u16 _ _) (hf fun _ => hfits)

end Fields

/-! ## The type -/

theorem Puts.paddedStr {β : Type} {Q : β → Stand → Prop} {G : β → Stand → List UInt8 → Prop} {f : Unit → WriteM β}
    {n : Nat} {fill : UInt8} {t : List UInt8} (hn : 0 < n) (ht : ∀ b ∈ t, b ≠ 0)
    (hf : Puts (paramSlots p) (f ()) ⟨pos + n, be, false⟩ Q
      fun u st B => Holds B pos (paddedText os n fill t) → G u st B) :
    Puts (paramSlots p) (writeFixStr os (some t) n fill >>= f) ⟨pos, be, false⟩ Q G := by
  refine Puts.emits (x := paddedText os n fill t) (fun w hw => ?_) (by rwa [length_paddedText])
  refine ⟨_, emitsAt_writeFixStrImpl hw.atEnd.inv.ready (fun _ => utf8ToMbcs_steady os .shiftJis) (some t) n fill,
    fun bs hbs => ?_⟩
  rw [if_neg hn.ne', Option.bind_eq_some_iff] at hbs
  obtain ⟨raw, hraw, hbs⟩ := hbs
  have hstored : raw = os.encoded .shiftJis t ++ [0] := granted_utf8ToMbcs ht hraw
  rw [← Option.some.inj hbs, hstored, paddedText]

/-- An ASCII text is stored as it is, terminator included. -/
theorem Puts.asciiText {β : Type} {Q : β → Stand → Prop} {G : β → Stand → List UInt8 → Prop} {f : Unit → WriteM β}
    {t : List UInt8} (hos : os.AsciiCompatible) (ht : Win32.isPlain t = true)
    (hf : Puts (paramSlots p) (f ()) ⟨pos + (storedText os false be t).length, be, false⟩ Q
      fun u st B => Holds B pos (storedText os false be t) → G u st B) :
    Puts (paramSlots p) (writeAscii os (some t) true >>= f) ⟨pos, be, false⟩ Q G := by
  obtain ⟨hascii, hnul⟩ := Win32.isPlain_iff.1 ht
  refine Puts.emits (fun w hw => ?_) hf
  refine ⟨_, emitsAt_writeStr hw.atEnd.inv.ready (fun _ => utf8ToMbcs_steady os .usAscii) (some t) true,
    fun bs hbs => ?_⟩
  have hstored : bs = os.encoded .usAscii t ++ [0] := granted_utf8ToMbcs hnul hbs
  rw [hstored, hos.encoded hascii, storedText, if_neg Bool.false_ne_true, hos.encoded hascii]

/-- A label that ends in digits is one with a number. -/
theorem paramSlots_typeOffset32 :
    (paramSlots p).key (.paramTypeOffset, some 32) = (cstr "ParamTypeOffset32", (paramLabels p).kind .paramTypeOffset) := by
  have hlabel : label "ParamTypeOffset" 32 = cstr "ParamTypeOffset32" := by decide
  rw [← hlabel]
  rfl

theorem Param.hasTypeField_iff : p.hasTypeField = true ↔
    ¬ p.hasOffsetParamType = true ∧ ¬ (p.hasIntOffsets = true ∨ p.hasLongOffsets = true) := by
  simp [Param.hasTypeField, and_assoc]

theorem Param.TypeFits.noNul (h : p.TypeFits os) : ∀ b ∈ p.paramType, b ≠ 0 := by
  unfold Param.TypeFits at h
  split at h
  · exact (Win32.isPlain_iff.1 h.1).2
  · split at h
    · exact h.noNul
    · exact h.1.noNul

theorem puts_writeParamType (hfits : p.TypeFits os) : Puts (paramSlots p) (writeParamType os p) ⟨12, be, false⟩
    (fun _ st => st = ⟨44, be, false⟩) fun _ _ B =>
      (p.hasOffsetParamType = true → Holds B 12 (wordBytes be 4 0) ∧ Holds B 24 (List.replicate 0x14 0)) ∧
      (p.hasTypeField = true → Holds B 12 (paddedText os 0x20 p.typePad p.paramType)) := by
  unfold writeParamType
  split
  · next h =>
      have hfield : ¬ p.hasTypeField = true := by simp [Param.hasTypeField, h]
      refine Puts.i32 (Puts.reserved (k := .i64) .paramTypeOffset none ((paramLabels p).key_none _ _ _)
        (if_pos h) (rfl : _ = 8) (if_pos h) (Puts.last (Puts.pattern (Puts.done rfl fun B hpad hzero => ?_))))
      exact ⟨fun _ => ⟨hzero, hpad⟩, fun h' => absurd h' hfield⟩
  · next h =>
      split
      · next h' =>
          have hfield : ¬ p.hasTypeField = true := fun hf => (Param.hasTypeField_iff.1 hf).2 h'
          refine Puts.reserved (k := .u32) .paramTypeOffset (some 32) paramSlots_typeOffset32 (if_neg h) (rfl : _ = 4) (if_neg h)
            (Puts.last (Puts.pattern (Puts.done rfl fun B _ => ?_)))
          exact ⟨fun h'' => absurd h'' h, fun h'' => absurd h'' hfield⟩
      · refine Puts.last (Puts.paddedStr (by decide) hfits.noNul (Puts.done rfl fun B hpadded => ?_))
        exact ⟨fun h'' => absurd h'' h, fun _ => hpadded⟩

theorem puts_writeLateParamType (hos : os.AsciiCompatible) (hfits : p.TypeFits os) :
    Puts (paramSlots p) (writeLateParamType os p) ⟨p.stringsOffset, be, false⟩
      (fun _ st => ∃ pos, p.stringsOffset ≤ pos ∧ st = ⟨pos, be, false⟩) fun _ _ B =>
        p.hasTypeField = false → Holds B p.typeAt (wordBytes be p.typeWidth p.stringsOffset) ∧
          Holds B p.stringsOffset (storedText os false be p.paramType) := by
  have hnul := hfits.noNul
  refine Puts.position ?_
  unfold Param.typeAt Param.typeWidth
  unfold Param.TypeFits at hfits
  split
  · next h =>
      rw [if_pos h] at hfits
      refine Puts.filled (k := .i64) .paramTypeOffset none ((paramLabels p).key_none _ _ _) (if_pos h)
        (scalarBytes_i64_ofNat _ _ _) (Puts.last (Puts.asciiText hos hfits.1 ?_))
      refine Puts.done ⟨_, Nat.le_add_right _ _, rfl⟩ fun B htext hoffset _ => ⟨?_, htext⟩
      rwa [paramAddr, Param.typeAt, if_pos h] at hoffset
  · next h =>
      rw [if_neg h] at hfits
      split
      · refine Puts.check fun _ => Puts.filled (k := .u32) .paramTypeOffset (some 32) paramSlots_typeOffset32 (if_neg h)
          (wordBytes_u32 _ _) (Puts.last (Puts.shiftJis hnul ?_))
        refine Puts.done ⟨_, Nat.le_add_right _ _, rfl⟩ fun B htext hoffset _ => ⟨?_, htext⟩
        rwa [paramAddr, Param.typeAt, if_neg h] at hoffset
      · next h' =>
          refine Puts.done ⟨_, Nat.le_refl _, rfl⟩ fun B hfield => ?_
          rw [Param.hasTypeField_iff.2 ⟨h, h'⟩] at hfield
          cases hfield

/-! ## The rows -/

theorem puts_writeRowHeader (i : Nat) (row : ParamRow) :
    Puts (paramSlots p) (writeRowHeader p i row) ⟨p.rowAt i, be, false⟩ (fun _ st => st = ⟨p.rowAt (i + 1), be, false⟩)
      fun _ _ B => Holds B (p.rowAt i) (wordBytes be 4 row.id.toUInt32.toNat) := by
  have hlong : p.hasLongOffsets = hasFlag p.format2d paramLongDataOffset := rfl
  have hoffset : p.offsetAt i = p.rowAt i + 4 + if p.hasLongOffsets then 4 else 0 := by
    rw [Param.offsetAt]
    split <;> rfl
  have hname : p.nameAt i = p.rowAt i + 4 + (if p.hasLongOffsets then 4 else 0) + p.offsetWidth
      + if !p.hasLongOffsets && !p.hasIntOffsets then 2 else 0 := by
    rw [Param.nameAt, Param.offsetWidth]
    cases p.hasLongOffsets <;> cases p.hasIntOffsets <;> rfl
  have hnext : p.rowAt (i + 1) = p.nameAt i + p.nameWidth := by
    rw [Param.rowAt_succ, Param.nameAt, Param.nameWidth, rowHeaderSize, ← hlong]
    cases p.hasLongOffsets <;> rfl
  refine Puts.i32 (Puts.given (n := 4) (F := fun _ => True)
    (fun _ => Puts.last (Puts.i32 (Puts.done rfl fun _ _ => trivial))) ?_)
  refine Puts.reserveRowOffset i hoffset (Puts.given (n := 2) (F := fun _ => True)
    (fun _ => Puts.last (Puts.u16 (Puts.done rfl fun _ _ => trivial))) ?_)
  refine Puts.last (Puts.reserveNameOffset i hname ?_)
  rw [hnext, ← hname]
  exact Puts.done rfl fun B _ _ hid => hid

theorem puts_writeRow {i : Nat} {row : ParamRow} (hrow : p.rows[i]? = some row) (hplain : row.applied = none) :
    Puts (paramSlots p) (writeRow os p i row) ⟨p.dataAt i, be, false⟩ (fun _ st => st = ⟨p.dataAt (i + 1), be, false⟩)
      fun _ _ B => p.OffsetFits (p.dataAt i) ∧ Holds B (p.offsetAt i) (wordBytes be p.offsetWidth (p.dataAt i)) ∧
        Holds B (p.dataAt i) row.data := by
  refine Puts.position (Puts.fillRowOffset i _ fun hfits => ?_)
  unfold writeRowBytes
  rw [hplain, Param.dataAt_succ hrow]
  have hdata : Puts (paramSlots p) (given (decide (0 < row.data.length)) () (writeBytes row.data)) ⟨p.dataAt i, be, false⟩
      (fun _ st => st = ⟨p.dataAt i + row.data.length, be, false⟩) fun _ _ B => Holds B (p.dataAt i) row.data := by
    rcases hempty : row.data with _ | ⟨b, rest⟩
    · exact Puts.here (Puts.done rfl fun B hle => holds_nil.2 hle)
    · exact Puts.last (Puts.bytes (Puts.done rfl fun B hB => hB))
  exact hdata.mono fun _ _ _ B hB hoffset => ⟨hfits, hoffset, hB⟩

/-! ## The names -/

/-- A name that was written, and where. -/
def NameHeld (os : Win32) (p : Param) (be : Bool) (B : List UInt8) (e : List UInt8 × Nat) : Prop :=
  e.1 ≠ [] → 0 < e.2 ∧ Holds B e.2 (storedText os p.hasUnicodeRowNames be e.1)

theorem findPreviousNameOffset_mem {name : List UInt8} {before : List (List UInt8 × Nat)} {offset : Nat}
    (hname : ∀ b ∈ name, b ≠ 0) (hbefore : ∀ e ∈ before, ∀ b ∈ e.1, b ≠ 0)
    (h : findPreviousNameOffset name before = some offset) : (name, offset) ∈ before := by
  induction before with
  | nil => cases h
  | cons e before ih =>
      obtain ⟨other, found⟩ := e
      have hother : ∀ b ∈ other, b ≠ 0 := hbefore _ List.mem_cons_self
      rw [findPreviousNameOffset, cText_eq_self hname, cText_eq_self hother] at h
      split at h
      · next heq =>
          cases h
          rw [heq]
          exact List.mem_cons_self
      · exact List.mem_cons_of_mem _ (ih (fun e he => hbefore e (List.mem_cons_of_mem _ he)) h)

theorem puts_writeNewName {name : List UInt8} (hname : ∀ b ∈ name, b ≠ 0) (hpos : 0 < pos) :
    Puts (paramSlots p) (writeNewName os p name) ⟨pos, be, false⟩
      (fun _ st => ∃ pos' > 0, st = ⟨pos', be, false⟩) fun offset _ B => NameHeld os p be B (name, offset) := by
  refine Puts.position ?_
  have hmore : ∀ x : List UInt8, 0 < pos + x.length := fun x => Nat.lt_of_lt_of_le hpos (Nat.le_add_right _ _)
  split
  · next hwide =>
      refine Puts.utf16 hname (Puts.done ⟨_, hmore _, rfl⟩ fun B hB _ => ⟨hpos, ?_⟩)
      rwa [hwide]
  · next hwide =>
      refine Puts.shiftJis hname (Puts.done ⟨_, hmore _, rfl⟩ fun B hB _ => ⟨hpos, ?_⟩)
      rwa [Bool.eq_false_iff.2 hwide]

theorem puts_writeRowName {name : List UInt8} {before : List (List UInt8 × Nat)} (hname : ∀ b ∈ name, b ≠ 0)
    (hbefore : ∀ e ∈ before, ∀ b ∈ e.1, b ≠ 0) (hpos : 0 < pos) :
    Puts (paramSlots p) (writeRowName os p name before) ⟨pos, be, false⟩
      (fun offset st => (name = [] → offset = 0) ∧ ∃ pos' > 0, st = ⟨pos', be, false⟩) fun offset _ B =>
        (∀ e ∈ before, NameHeld os p be B e) → NameHeld os p be B (name, offset) := by
  unfold writeRowName
  rw [cText_eq_self hname]
  split
  · next hempty => exact Puts.done ⟨fun _ => rfl, pos, hpos, rfl⟩ fun B _ hne => absurd hempty hne
  · next hne =>
      have hnew : Puts (paramSlots p) (writeNewName os p name) ⟨pos, be, false⟩
          (fun offset st => (name = [] → offset = 0) ∧ ∃ pos' > 0, st = ⟨pos', be, false⟩) fun offset _ B =>
            (∀ e ∈ before, NameHeld os p be B e) → NameHeld os p be B (name, offset) :=
        (puts_writeNewName hname hpos).conseq fun offset st hst => ⟨⟨fun h => absurd h hne, hst⟩, fun B hB _ => hB⟩
      split
      · exact hnew
      · exact hnew
      · next offset _ hfound =>
          have hmem := findPreviousNameOffset_mem hname hbefore hfound
          exact Puts.done ⟨fun h => absurd h hne, pos, hpos, rfl⟩ fun B hheld => hheld _ hmem

/-- The names of the rows, one after another: what was written before is where it was noted. -/
theorem puts_writeRowNamesFrom (rest : List ParamRow) (hnames : ∀ row ∈ rest, ∀ b ∈ row.name.getD [], b ≠ 0)
    (i pos : Nat) (before : List (List UInt8 × Nat)) (hbefore : ∀ e ∈ before, ∀ b ∈ e.1, b ≠ 0) (hpos : 0 < pos) :
    Puts (paramSlots p) (writeRowNamesFrom os p i rest before) ⟨pos, p.bigEndian, false⟩
      (fun _ st => ∃ pos', st = ⟨pos', p.bigEndian, false⟩) fun _ _ B =>
        (∀ e ∈ before, NameHeld os p p.bigEndian B e) → ∀ k row, rest[k]? = some row →
          ∃ n, ParamNameAt os p B (i + k) (row.name.getD []) n := by
  induction rest generalizing i pos before with
  | nil => exact Puts.done ⟨pos, rfl⟩ fun B _ k row hrow => by simp at hrow
  | cons row rest ih =>
      have hname := hnames row List.mem_cons_self
      refine (puts_writeRowName hname hbefore hpos).seq fun offset st hst => ?_
      obtain ⟨habsent, pos', hpos', rfl⟩ := hst
      refine Puts.fillNameOffset i offset fun hfits => ?_
      refine (ih (fun r hr => hnames r (List.mem_cons_of_mem _ hr)) (i + 1) pos' _ ?_ hpos').conseq fun _ st hst =>
        ⟨hst, fun B hrest hoffset hheld hall k r hr => ?_⟩
      · intro e he
        rcases List.mem_append.1 he with he | he
        · exact hbefore e he
        · rw [List.mem_singleton.1 he]
          exact hname
      · have hthis := hheld hall
        cases k with
        | zero =>
            cases hr
            exact ⟨offset, hoffset, hfits, habsent, hthis⟩
        | succ k =>
            have hall' : ∀ e ∈ before ++ [(row.name.getD [], offset)], NameHeld os p p.bigEndian B e := by
              intro e he
              rcases List.mem_append.1 he with he | he
              · exact hall e he
              · rw [List.mem_singleton.1 he]
                exact hthis
            have hnext := hrest hall' k r (by simpa using hr)
            rwa [Nat.add_right_comm, Nat.add_assoc] at hnext

/-! ## The whole file -/

/-- **What is written is the image.** -/
theorem puts_paramWrite (hos : os.AsciiCompatible) (hfits : p.Fits os) :
    Puts (paramSlots p) (paramWrite os p) ⟨0, p.bigEndian, false⟩ (fun _ _ => True) fun _ _ B => ParamImage os p B := by
  refine Puts.check fun hcount => Puts.setBigEndian (Puts.reserveU32 (.stringsOffset, none)
    ((paramLabels p).key_none _ _ _) rfl ?_)
  refine puts_writeShortStart.seq fun _ st hst => ?_
  subst hst
  refine Puts.i16 (Puts.i16 (Puts.u16 ((puts_writeParamType hfits.type).seq fun _ st hst => ?_)))
  subst hst
  refine Puts.u8 (Puts.u8 (Puts.u8 (Puts.u8 (puts_writeLongStart.seq fun _ st hst => ?_))))
  subst hst
  refine (puts_forIndexed (fun i st => st = ⟨p.rowAt i, p.bigEndian, false⟩) p.rows
    (fun i row st _ hst => by subst hst; exact puts_writeRowHeader i row) rfl).seq fun _ st hst => ?_
  subst hst
  refine Puts.given (n := 0x20) (F := fun _ => True) (fun _ => Puts.last (Puts.pattern (Puts.done rfl fun _ _ => trivial))) ?_
  refine Puts.position (Puts.fillDataStart _ fun hstart => ?_)
  refine (puts_forIndexed (fun i st => st = ⟨p.dataAt i, p.bigEndian, false⟩) p.rows (fun i row st hrow hst => by
    subst hst
    exact puts_writeRow hrow (hfits.unapplied row (List.mem_of_getElem? hrow))) (by rw [p.dataAt_zero]; rfl)).seq
    fun _ st hst => ?_
  subst hst
  refine Puts.here (Puts.position (Puts.check fun hstrings => Puts.fillU32 (.stringsOffset, none)
    ((paramLabels p).key_none _ _ _) ?_))
  refine (puts_writeLateParamType hos hfits.type).seq fun _ st hst => ?_
  obtain ⟨pos, hpos, rfl⟩ := hst
  have hstart' := p.le_dataAt p.rows.length
  refine Puts.alloc fun _ => (puts_writeRowNamesFrom p.rows (fun row hrow => (hfits.names row hrow).noNul) 0 pos [] (by simp)
    (by rw [Param.stringsOffset] at hpos; omega)).seq fun _ st hst => ?_
  obtain ⟨pos', rfl⟩ := hst
  refine Puts.last (Puts.i16 (Puts.done trivial fun B _ hnames hlate hstringsAt hle hdata hstartAt _ hheaders hrest
    hformat h2e h2d hendian htype hrowCount hversion hunk _ => ?_))
  have hrow : ∀ i row, p.rows[i]? = some row → ParamRowAt p B i row := by
    intro i row hrow
    obtain ⟨hoffset, hat, hdata⟩ := hdata i row hrow
    exact ⟨hheaders i row hrow, hat, hoffset, hdata⟩
  have hname : ∀ i row, p.rows[i]? = some row → ∃ n, ParamNameAt os p B i (row.name.getD []) n := by
    intro i row hrow
    have hname := hnames (by simp) i row hrow
    rwa [Nat.zero_add] at hname
  rw [wordBytes_u32] at hstringsAt
  rw [wordBytes_u16] at hrowCount
  have hflags : Holds B 44 [if p.bigEndian then 0xFF else 0x00, p.format2d, p.format2e, p.paramdefFormatVersion] :=
    holds_append (x := [_]) |>.2
      ⟨hendian, holds_append (x := [_]) |>.2 ⟨h2d, holds_append (x := [_]) |>.2 ⟨h2e, hformat⟩⟩⟩
  exact
    { count := hcount
      strings := hstringsAt
      strings_lt := hstrings
      strings_le := hle
      start := ⟨hstartAt, hstart, hrest⟩
      unk06 := hunk
      version := hversion
      rowCount := hrowCount
      type := ⟨htype.1, htype.2, fun h => (hlate h).1, fun h => (hlate h).2⟩
      flags := hflags
      rows := hrow
      names := hname }

end Writing

end SoulsFormats
