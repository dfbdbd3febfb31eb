import SoulsFormats.Core.Xml
import SoulsFormats.Param.Paramtdf

set_option autoImplicit false

/-! # TAE templates

A template says for the events of a TAE file, bank by bank, which parameters they have. It is read from an XML
document; a bank can be based on another one, whose events it takes over. -/

namespace SoulsFormats

open Bytes Fallible

/-- `sf_tae_format_t`. -/
inductive TaeFormat where
  | ds1
  | sotfs
  | ds3
  | sdt
  | des
  | desr
deriving DecidableEq, Repr

/-- `sf_tae_param_type_t`. -/
inductive TaeParamType where
  | b
  | u8
  | x8
  | s8
  | u16
  | x16
  | s16
  | u32
  | x32
  | s32
  | u64
  | x64
  | s64
  | f32
  | f32grad
  | f64
  | aob
deriving DecidableEq, Repr

/-- `sfi_param_byte_count`. -/
def TaeParamType.byteCount (aobLength : Int32) : TaeParamType → Int
  | .b | .u8 | .x8 | .s8 => 1
  | .u16 | .x16 | .s16 => 2
  | .u32 | .x32 | .s32 | .f32 => 4
  | .u64 | .x64 | .s64 | .f32grad | .f64 => 8
  | .aob => aobLength.toInt

/-- `sf_tae_enum_entry_t`. -/
structure TaeEnumEntry where
  name : List UInt8
  value : Int64
deriving DecidableEq, Repr

/-- A value for a parameter, where there is one, has as many bytes as the type says. -/
def ValueSized (type : TaeParamType) (aobLength : Int32) (value : Option (List UInt8)) : Prop :=
  ∀ bytes ∈ value, 0 < type.byteCount aobLength ∧ bytes.length = type.byteCount aobLength

/-- `sf_tae_param_template_t`, whose `has_assert` and `has_default` say whether there are bytes. -/
structure TaeParamTemplate where
  type : TaeParamType
  name : List UInt8
  nameGroup : Option (List UInt8)
  key : List UInt8
  aobLength : Int32
  assertBytes : Option (List UInt8)
  defaultBytes : Option (List UInt8)
  enumEntries : List TaeEnumEntry
  assert_sized : ValueSized type aobLength assertBytes
  default_sized : ValueSized type aobLength defaultBytes
deriving DecidableEq

/-- `sf_tae_event_template_t`. -/
structure TaeEventTemplate where
  id : Int32
  name : List UInt8
  params : List TaeParamTemplate
  totalByteCount : Int32
deriving DecidableEq

/-- `sf_tae_bank_template_t`. -/
structure TaeBankTemplate where
  id : Int64
  name : List UInt8
  events : List TaeEventTemplate
deriving DecidableEq

/-- `sf_tae_template_t`. -/
structure TaeTemplate where
  game : TaeFormat
  banks : List TaeBankTemplate
deriving DecidableEq

/-- `sf_tae_template_find_bank`. -/
def taeTemplateFindBank (t : TaeTemplate) (bankId : Int64) : Option TaeBankTemplate :=
  t.banks.find? fun b => b.id = bankId

/-- `sf_tae_bank_template_find_event`. -/
def taeBankTemplateFindEvent (b : TaeBankTemplate) (eventId : Int32) : Option TaeEventTemplate :=
  b.events.find? fun e => e.id = eventId

/-! ## Numbers in texts -/

/-- The value of a digit, in a base up to 16. -/
def digitValue (b : UInt8) : Nat :=
  if isDigit b then b.toNat - 0x30
  else if 0x61 ≤ b ∧ b ≤ 0x66 then b.toNat - 0x57
  else if 0x41 ≤ b ∧ b ≤ 0x46 then b.toNat - 0x37
  else 16

/-- In base 16 a number may say `0x`. -/
def dropHexPrefix (base : Nat) (s : List UInt8) : List UInt8 :=
  match s with
  | z :: x :: d :: rest =>
    if base = 16 ∧ z = 0x30 ∧ (x = 0x78 ∨ x = 0x58) ∧ digitValue d < base then d :: rest else s
  | _ => s

/-- What `strtoll` and `strtoull` recognize in a base: whether there is a minus sign, the digits' number, and where
    the text goes on. Without a digit nothing is recognized. -/
def scanNumber (base : Nat) (s : List UInt8) : Option (Bool × Nat × List UInt8) :=
  let (negative, s) := takeSign (s.dropWhile isSpace)
  let s := dropHexPrefix base s
  let digits := s.takeWhile fun b => digitValue b < base
  if digits = [] then none
  else some (negative, digits.foldl (fun n d => n * base + digitValue d) 0, s.dropWhile fun b => digitValue b < base)

/-- `sfi_parse_end`: only white space is left. -/
def parseEnd (s : List UInt8) : Bool := s.all isSpace

/-- `sfi_parse_i64_base`. -/
def parseI64Base (text : List UInt8) (base : Nat) : Option Int64 := do
  let (negative, n, rest) ← scanNumber base text
  let v := signedValue negative n
  if -2 ^ 63 ≤ v ∧ v ≤ 2 ^ 63 - 1 ∧ parseEnd rest then some (Int64.ofInt v) else none

/-- `sfi_parse_u64_base`. A minus sign is refused. -/
def parseU64Base (text : List UInt8) (base : Nat) : Option UInt64 := do
  if (text.dropWhile isSpace).head? = some 0x2D then none
  else
    let (_, n, rest) ← scanNumber base text
    if n ≤ 2 ^ 64 - 1 ∧ parseEnd rest then some (UInt64.ofNat n) else none

/-- `sfi_parse_i32`. -/
def parseI32 (text : List UInt8) : Option Int32 := do
  let v ← parseI64Base text 10
  if -2 ^ 31 ≤ v.toInt ∧ v.toInt ≤ INT32_MAX then some v.toInt32 else none

/-- `sfi_parse_i64`. -/
def parseI64 (text : List UInt8) : Option Int64 := parseI64Base text 10

/-- `sfi_str_iequal`. -/
def strIequal (a b : List UInt8) : Bool :=
  a.map (fun c => if 0x41 ≤ c ∧ c ≤ 0x5A then c + 0x20 else c) =
    b.map (fun c => if 0x41 ≤ c ∧ c ≤ 0x5A then c + 0x20 else c)

/-- `sfi_parse_bool_value`. -/
def parseBoolValue (text : List UInt8) : Option Bool :=
  if strIequal text (cstr "true") ∨ text = cstr "1" then some true
  else if strIequal text (cstr "false") ∨ text = cstr "0" then some false
  else none

/-- `strtof` and `strtod`: the bits of the number, and the text behind it. They find nothing where there is no number
    or where it is out of range. -/
structure FloatText where
  strtof : List UInt8 → Option (UInt32 × List UInt8)
  strtod : List UInt8 → Option (UInt64 × List UInt8)

/-- `sfi_parse_f32`. -/
def parseF32 (libc : FloatText) (text : List UInt8) : Option UInt32 := do
  let (bits, rest) ← libc.strtof text
  if parseEnd rest then some bits else none

/-- `sfi_parse_f64`. -/
def parseF64 (libc : FloatText) (text : List UInt8) : Option UInt64 := do
  let (bits, rest) ← libc.strtod text
  if parseEnd rest then some bits else none

/-- What `snprintf` prints for `%lld`. -/
def printI64 (v : Int64) : List UInt8 :=
  if v.toInt < 0 then 0x2D :: decimal v.toInt.natAbs else decimal v.toInt.toNat

/-- What `snprintf` prints for `%02X`. -/
def printHex2 (v : Nat) : List UInt8 :=
  let digits := (Nat.toDigits 16 v).map fun c => UInt8.ofNat c.toUpper.toNat
  List.replicate (2 - digits.length) 0x30 ++ digits

/-! ## Values of parameters -/

/-- `strtoul` to base 16, for an `unsigned long` of 32 bits, where it sets no `ERANGE`. -/
def strtoulHex (s : List UInt8) : Option (Nat × List UInt8) := do
  let (negative, n, rest) ← scanNumber 16 s
  if n ≤ 2 ^ 32 - 1 then some (((signedValue negative n) % 2 ^ 32).toNat, rest) else none

/-- `sfi_parse_aob`, for so many bytes that are still missing. Every round but the last takes a character. -/
def parseAob : Nat → List UInt8 → Nat → Option (List UInt8)
  | 0, _, _ => none
  | fuel + 1, text, missing =>
    let p := text.dropWhile isSpace
    if p = [] then if missing = 0 then some [] else none
    else
      match missing with
      | 0 => none
      | missing + 1 => do
        let (v, rest) ← strtoulHex p
        if 255 < v ∨ rest.head?.any fun c => !isSpace c then none
        else (UInt8.ofNat v :: ·) <$> parseAob fuel rest missing

/-- An integer for a parameter of `n` bytes, within its range. -/
def intValue (n : Nat) (low high : Int) (v : Option Int) : Option (List UInt8) := do
  let v ← v
  if low ≤ v ∧ v ≤ high then some (leBytes n (v % 2 ^ 64).toNat) else none

/-- `sfi_parse_param_bytes`. A text that names an entry stands for the entry's value. -/
def parseParamBytes (libc : FloatText) (type : TaeParamType) (aobLength : Int32) (entries : List TaeEnumEntry)
    (text : List UInt8) : Option (List UInt8) :=
  let text := match entries.find? fun e => e.name = text with
    | some e => printI64 e.value
    | none => text
  let unsigned (base : Nat) : Option Int := (parseU64Base text base).map fun v => (v.toNat : Int)
  let signed : Option Int := (parseI64Base text 10).map Int64.toInt
  match type with
  | .b => (parseBoolValue text).map fun b => [if b then 1 else 0]
  | .u8 => intValue 1 0 (2 ^ 8 - 1) (unsigned 10)
  | .x8 => intValue 1 0 (2 ^ 8 - 1) (unsigned 16)
  | .s8 => intValue 1 (-2 ^ 7) (2 ^ 7 - 1) signed
  | .u16 => intValue 2 0 (2 ^ 16 - 1) (unsigned 10)
  | .x16 => intValue 2 0 (2 ^ 16 - 1) (unsigned 16)
  | .s16 => intValue 2 (-2 ^ 15) (2 ^ 15 - 1) signed
  | .u32 => intValue 4 0 (2 ^ 32 - 1) (unsigned 10)
  | .x32 => intValue 4 0 (2 ^ 32 - 1) (unsigned 16)
  | .s32 => intValue 4 (-2 ^ 31) (2 ^ 31 - 1) signed
  | .u64 => intValue 8 0 (2 ^ 64 - 1) (unsigned 10)
  | .x64 => intValue 8 0 (2 ^ 64 - 1) (unsigned 16)
  | .s64 => intValue 8 (-2 ^ 63) (2 ^ 63 - 1) signed
  | .f32 => (parseF32 libc text).map fun bits => leBytes 4 bits.toNat
  | .f32grad =>
    let first := text.takeWhile (· ≠ 0x7C)
    if first.length = text.length ∨ first.length = 0 ∨ 64 ≤ first.length then none
    else do
      let a ← parseF32 libc first
      let b ← parseF32 libc (text.drop (first.length + 1))
      some (leBytes 4 a.toNat ++ leBytes 4 b.toNat)
  | .f64 => (parseF64 libc text).map fun bits => leBytes 8 bits.toNat
  | .aob => if aobLength.toInt < 0 then none else parseAob (text.length + 1) text aobLength.toInt.toNat

theorem intValue_length {n : Nat} {low high : Int} {v : Option Int} {bytes : List UInt8}
    (h : intValue n low high v = some bytes) : bytes.length = n := by
  unfold intValue at h
  rw [Option.bind_eq_bind, Option.bind_eq_some_iff] at h
  obtain ⟨v, -, h⟩ := h
  split at h
  · cases h
    simp
  · cases h

theorem parseAob_length {fuel missing : Nat} {text bytes : List UInt8} (h : parseAob fuel text missing = some bytes) :
    bytes.length = missing := by
  induction fuel generalizing missing text bytes with
  | zero => cases h
  | succ fuel ih =>
      unfold parseAob at h
      dsimp only at h
      split at h
      · split at h
        · next hmissing =>
            cases h
            exact hmissing.symm
        · cases h
      · split at h
        · cases h
        · next missing =>
            rw [Option.bind_eq_bind, Option.bind_eq_some_iff] at h
            obtain ⟨⟨v, rest⟩, -, h⟩ := h
            dsimp only at h
            split at h
            · cases h
            · obtain ⟨more, hmore, rfl⟩ := Option.map_eq_some_iff.1 h
              rw [List.length_cons, ih hmore]

/-- A value that is accepted has as many bytes as the type says. -/
theorem parseParamBytes_length {libc : FloatText} {type : TaeParamType} {aobLength : Int32}
    {entries : List TaeEnumEntry} {text bytes : List UInt8}
    (h : parseParamBytes libc type aobLength entries text = some bytes) :
    (bytes.length : Int) = type.byteCount aobLength := by
  unfold parseParamBytes at h
  dsimp only at h
  generalize (match entries.find? fun e => e.name = text with
    | some e => printI64 e.value
    | none => text) = text at h
  cases type with
  | b =>
      obtain ⟨v, -, rfl⟩ := Option.map_eq_some_iff.1 h
      rfl
  | f32 =>
      obtain ⟨v, -, rfl⟩ := Option.map_eq_some_iff.1 h
      simp [TaeParamType.byteCount]
  | f64 =>
      obtain ⟨v, -, rfl⟩ := Option.map_eq_some_iff.1 h
      simp [TaeParamType.byteCount]
  | f32grad =>
      dsimp only at h
      split at h
      · cases h
      · rw [Option.bind_eq_bind, Option.bind_eq_some_iff] at h
        obtain ⟨a, -, h⟩ := h
        rw [Option.bind_eq_some_iff] at h
        obtain ⟨b, -, h⟩ := h
        cases h
        simp [TaeParamType.byteCount]
  | aob =>
      dsimp only at h
      split at h
      · cases h
      · rw [parseAob_length h, TaeParamType.byteCount]
        omega
  | u8 | x8 | s8 | u16 | x16 | s16 | u32 | x32 | s32 | u64 | x64 | s64 => rw [intValue_length h]; rfl

end SoulsFormats
