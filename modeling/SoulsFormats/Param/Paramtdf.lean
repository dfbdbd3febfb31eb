import Mathlib.Data.List.DropRight
import SoulsFormats.Param.Paramdef

set_option autoImplicit false

/-! # PARAMTDF texts

The model of `paramtdf.c`: a text of lines, the first with a name, the second with an integer type, the others with
a named value each. `strtol` and `strtoul` are the ones of the platform, where `long` has 32 bits, in the C locale. -/

namespace SoulsFormats

open Fallible

/-- `sf_paramtdf_type_t`. -/
inductive ParamtdfType where
  | s8 | u8 | s16 | u16 | s32 | u32
deriving DecidableEq, Repr

/-- `sf_paramtdf_entry`; a missing name is not an empty one. -/
structure ParamtdfEntry where
  name : Option (List UInt8)
  value : Int
deriving DecidableEq

/-- `sf_paramtdf`. -/
structure Paramtdf where
  name : List UInt8
  type : ParamtdfType
  entries : List ParamtdfEntry
deriving DecidableEq

/-! ## Texts and numbers -/

def QUOTE : UInt8 := 0x22

/-- `trim_quotes`. -/
def trimQuotes (s : List UInt8) : List UInt8 := (s.dropWhile (· == QUOTE)).rdropWhile (· == QUOTE)

/-- `type_to_name`. -/
def typeToName : ParamtdfType → List UInt8
  | .s8 => cstr "s8"
  | .u8 => cstr "u8"
  | .s16 => cstr "s16"
  | .u16 => cstr "u16"
  | .s32 => cstr "s32"
  | .u32 => cstr "u32"

/-- `parse_type`. -/
def parseType (s : List UInt8) : Option ParamtdfType :=
  if s = cstr "s8" then some .s8
  else if s = cstr "u8" then some .u8
  else if s = cstr "s16" then some .s16
  else if s = cstr "u16" then some .u16
  else if s = cstr "s32" then some .s32
  else if s = cstr "u32" then some .u32
  else none

def ParamtdfType.signed : ParamtdfType → Bool
  | .s8 | .s16 | .s32 => true
  | .u8 | .u16 | .u32 => false

/-- The bounds of `value_in_range`. -/
def ParamtdfType.lowest : ParamtdfType → Int
  | .s8 => -2 ^ 7
  | .s16 => -2 ^ 15
  | .s32 => -2 ^ 31
  | .u8 | .u16 | .u32 => 0

def ParamtdfType.highest : ParamtdfType → Int
  | .s8 => 2 ^ 7 - 1
  | .u8 => 2 ^ 8 - 1
  | .s16 => 2 ^ 15 - 1
  | .u16 => 2 ^ 16 - 1
  | .s32 => 2 ^ 31 - 1
  | .u32 => 2 ^ 32 - 1

/-- `value_in_range`. -/
def valueInRange (type : ParamtdfType) (value : Int) : Bool := type.lowest ≤ value && value ≤ type.highest

/-- `strtol` where it sets no `ERANGE`. -/
def strtolInRange (s : List UInt8) : Option (Int × List UInt8) := do
  let (negative, n, rest) ← scanLong s
  let v := signedValue negative n
  if -2 ^ 31 ≤ v ∧ v ≤ 2 ^ 31 - 1 then some (v, rest) else none

/-- `strtoul` where it sets no `ERANGE`. A minus sign negates in `unsigned long`. -/
def strtoulInRange (s : List UInt8) : Option (Int × List UInt8) := do
  let (negative, n, rest) ← scanLong s
  if n ≤ 2 ^ 32 - 1 then some (signedValue negative n % 2 ^ 32, rest) else none

/-- A value that is followed by nothing. -/
def parsedToEnd : Option (Int × List UInt8) → Option Int
  | some (v, []) => some v
  | _ => none

/-- `parse_value`. Before an unsigned number only blanks and tabs are skipped to look for a minus sign. -/
def parseValue (s : List UInt8) (type : ParamtdfType) : Option Int := do
  let s := cText s
  if s = [] then none
  else if type.signed then do
    let v ← parsedToEnd (strtolInRange s)
    if valueInRange type v then some v else none
  else if (s.dropWhile fun b => b == 0x20 || b == 0x09).head? = some 0x2D then none
  else do
    let v ← parsedToEnd (strtoulInRange s)
    if valueInRange type v then some v else none

/-! ## Reading -/

def isNewline (b : UInt8) : Bool := b == 0x0D || b == 0x0A

/-- `next_nonempty_line`: the line, and what is behind it. -/
def nextNonemptyLine (data : List UInt8) : Option (List UInt8 × List UInt8) :=
  let data := data.dropWhile isNewline
  if data = [] then none
  else some (data.takeWhile fun b => !isNewline b, data.dropWhile fun b => !isNewline b)

/-- The lines that `next_nonempty_line` finds one after another; a byte at least is taken each time. -/
def nonemptyLines : Nat → List UInt8 → List (List UInt8)
  | 0, _ => []
  | fuel + 1, data =>
    match nextNonemptyLine data with
    | none => []
    | some (line, rest) => line :: nonemptyLines fuel rest

def paramtdfLines (data : List UInt8) : List (List UInt8) := nonemptyLines (data.length + 1) data

/-- `dup_slice`. -/
def dupSlice (s : List UInt8) : Fallible Heap SfError (List UInt8) := do
  let _ ← Heap.alloc
  pure s

/-- The name of an entry: nothing at all before the comma is a missing name. -/
def paramtdfReadName (raw : List UInt8) : Fallible Heap SfError (Option (List UInt8)) :=
  if raw = [] then pure none
  else do
    let name ← dupSlice (trimQuotes raw)
    pure (some name)

/-- One entry of `sf_paramtdf_read_from_text`. -/
def paramtdfReadEntry (type : ParamtdfType) (line : List UInt8) : Fallible Heap SfError ParamtdfEntry := do
  check (line.contains 0x2C = true) .invalidArg
  let nameRaw := line.takeWhile (· != 0x2C)
  let valueRaw := (line.dropWhile (· != 0x2C)).tail
  let name ← paramtdfReadName nameRaw
  let valueText ← dupSlice (trimQuotes valueRaw)
  match parseValue valueText type with
  | none => fail .outOfRange
  | some value => pure { name := name, value := value }

/-- The loop over the entries' lines, with room for `expected` of them. -/
def paramtdfReadEntries (type : ParamtdfType) (expected : Nat) :
    List (List UInt8) → List ParamtdfEntry → Fallible Heap SfError (List ParamtdfEntry)
  | [], entries => pure entries
  | line :: lines, entries => do
    check (entries.length < expected) .internal
    let entry ← paramtdfReadEntry type line
    paramtdfReadEntries type expected lines (entries ++ [entry])

/-- `sf_paramtdf_read_from_text`. -/
def paramtdfReadFromText (text : List UInt8) : Fallible Heap SfError Paramtdf := do
  let totalLines := (paramtdfLines text).length
  check (2 ≤ totalLines) .truncated
  let _ ← Heap.alloc
  match paramtdfLines text with
  | nameLine :: typeLine :: lines => do
    let name ← dupSlice (trimQuotes nameLine)
    match parseType (trimQuotes typeLine) with
    | none => fail .invalidArg
    | some type => do
      let expected := totalLines - 2
      let _ ← given (0 < expected) [] Heap.alloc
      let entries ← paramtdfReadEntries type expected lines []
      pure { name := name, type := type, entries := entries }
  | _ => fail .truncated

/-! ## Writing -/

/-- `format_value`. `%llu` is given the value of an unsigned type as an `unsigned long long`. -/
def formatValue (type : ParamtdfType) (value : Int) : List UInt8 :=
  if type.signed then (if value < 0 then 0x2D :: decimal value.natAbs else decimal value.natAbs)
  else decimal (value % 2 ^ 64).toNat

def CRLF : List UInt8 := [0x0D, 0x0A]

/-- A text in quotes. -/
def quoted (s : List UInt8) : List UInt8 := QUOTE :: (s ++ [QUOTE])

/-- The line of an entry, without its end. -/
def entryLine (type : ParamtdfType) (entry : ParamtdfEntry) : List UInt8 :=
  (match entry.name with
    | none => []
    | some name => quoted (cText name)) ++ 0x2C :: quoted (formatValue type entry.value)

/-- The text that `sf_paramtdf_write_to_text` puts together. -/
def paramtdfText (tdf : Paramtdf) : List UInt8 :=
  quoted (cText tdf.name) ++ CRLF ++ (quoted (typeToName tdf.type) ++ CRLF
    ++ tdf.entries.flatMap fun entry => entryLine tdf.type entry ++ CRLF)

/-- The size that is added up before the text is allocated; `buf` of `format_value` has 32 bytes. -/
def paramtdfSize (type : ParamtdfType) : List ParamtdfEntry → Nat → Except SfError Nat
  | [], total => .ok total
  | entry :: entries, total =>
    if 32 ≤ (formatValue type entry.value).length then .error .internal
    else if SIZE_MAX < total + (entryLine type entry).length + 2 then .error .oom
    else paramtdfSize type entries (total + (entryLine type entry).length + 2)

/-- `sf_paramtdf_write_to_text`. -/
def paramtdfWriteToText (tdf : Paramtdf) : Fallible Heap SfError (List UInt8) := do
  let nameLen := (cText tdf.name).length
  check (nameLen ≤ SIZE_MAX - 4) .oom
  let _ ← lift (paramtdfSize tdf.type tdf.entries (nameLen + 4 + ((typeToName tdf.type).length + 4)))
  let _ ← Heap.alloc
  pure (paramtdfText tdf)

end SoulsFormats
