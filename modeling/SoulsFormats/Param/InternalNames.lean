import SoulsFormats.Library.Trimming
import SoulsFormats.Archive.Bnd2
import SoulsFormats.Param.BitAccesses
import SoulsFormats.Param.ParamtdfText

set_option autoImplicit false

/-! # Internal names

In a file, the internal name of a field says its size in bits or its length too, as in `flags:3` or `pad[4]`. The writer
puts the suffix there and the reader takes it off again. -/

namespace SoulsFormats

open Fallible

/-! ## The last occurrence of a character -/

section Splitting

variable {c : UInt8} {s before behind : List UInt8}

theorem splitLast_append (before : List UInt8) (h : c ∉ behind) : splitLast c (before ++ c :: behind) = some (before, behind) := by
  have hback : ((before ++ c :: behind).reverse.takeWhile (· ≠ c)).reverse = behind := by
    have hall : ∀ b ∈ behind.reverse, (decide (b ≠ c)) = true := by
      intro b hb
      have hne : b ≠ c := fun hbc => h (hbc ▸ List.mem_reverse.1 hb)
      simpa using hne
    rw [List.reverse_append, List.reverse_cons, List.append_assoc, List.takeWhile_append_of_pos hall]
    simp
  have hlen : (before ++ c :: behind).length - behind.length - 1 = before.length := by
    rw [List.length_append, List.length_cons]
    omega
  simp only [splitLast, hback, hlen]
  rw [if_pos (by simp), List.take_left]

theorem splitLast_eq_some : splitLast c s = some (before, behind) ↔ s = before ++ c :: behind ∧ c ∉ behind := by
  constructor
  · intro h
    have hmem : c ∈ s.reverse := by
      by_contra hmem
      rw [splitLast, if_neg (by simpa using hmem)] at h
      cases h
    obtain ⟨xs, ys, hrev, hxs⟩ := List.eq_append_cons_of_mem hmem
    have hs : s = ys.reverse ++ c :: xs.reverse := by
      rw [← List.reverse_reverse s, hrev]
      simp
    have hnot : c ∉ xs.reverse := by simpa using hxs
    rw [hs, splitLast_append _ hnot] at h
    cases h
    exact ⟨hs, hnot⟩
  · rintro ⟨rfl, h⟩
    exact splitLast_append before h

theorem splitLast_eq_none : splitLast c s = none ↔ c ∉ s := by
  unfold splitLast
  split
  · next h => simp [h]
  · next h => simp [h]

end Splitting

/-! ## Numbers -/

/-- The number is recognized, whatever follows it but a digit. -/
theorem strtol_decimalInt {v : Int} (hlow : -2 ^ 31 ≤ v) (hhigh : v ≤ INT32_MAX) (rest : List UInt8)
    (hrest : ∀ b ∈ rest.head?, isDigit b = false) : strtol (decimalInt v ++ rest) = some (v, rest) := by
  have hclamp : max (-2 ^ 31) (min v (INT32_MAX : Int)) = v := by omega
  by_cases hneg : v < 0
  · have hvalue : signedValue true v.natAbs = v := by
      rw [signedValue, if_pos rfl]
      omega
    rw [strtol, decimalInt, if_pos hneg, List.cons_append, scanLong_minus _ _ hrest]
    simp only [Option.bind_eq_bind, Option.bind_some, hvalue, hclamp]
  · have hvalue : signedValue false v.natAbs = v := by
      rw [signedValue, if_neg (by decide)]
      omega
    rw [strtol, decimalInt, if_neg hneg, scanLong_decimal _ _ hrest]
    simp only [Option.bind_eq_bind, Option.bind_some, hvalue, hclamp]

/-- A text that has digits to its end ends in a digit. -/
theorem digit_of_digits {s t : List UInt8} (hsuffix : t <:+ s) (hne : t.takeWhile isDigit ≠ [])
    (hend : t.dropWhile isDigit = []) : ∀ b ∈ s.getLast?, isDigit b = true := by
  have ht : t ≠ [] := by
    rintro rfl
    exact hne rfl
  obtain ⟨front, rfl⟩ := hsuffix
  rw [List.getLast?_append_of_ne_nil _ ht]
  intro b hb
  exact List.dropWhile_eq_nil_iff.1 hend b (List.mem_of_getLast? hb)

theorem takeSign_suffix (s : List UInt8) : (takeSign s).2 <:+ s := by
  cases s with
  | nil => exact List.suffix_refl _
  | cons b s =>
      rw [takeSign]
      split
      · exact List.suffix_cons b s
      · split
        · exact List.suffix_cons b s
        · exact List.suffix_refl _

theorem digit_of_strtol {s : List UInt8} {v : Int} (h : strtol s = some (v, [])) : ∀ b ∈ s.getLast?, isDigit b = true := by
  obtain ⟨⟨negative, n, rest⟩, hscan, hvalue⟩ := Option.bind_eq_some_iff.1 h
  obtain rfl : rest = [] := (Prod.mk.inj (Option.some.inj hvalue)).2
  unfold scanLong at hscan
  dsimp only at hscan
  split at hscan
  · cases hscan
  · next hne =>
      have hend := (Prod.mk.inj (Prod.mk.inj (Option.some.inj hscan)).2).2
      exact digit_of_digits ((takeSign_suffix _).trans (List.dropWhile_suffix _)) hne hend

/-! ## Suffixes -/

/-- The text that `make_internal_name` makes. -/
def internalNameText (field : ParamdefField) : List UInt8 :=
  if field.bitSize ≠ -1 then field.internalName ++ 0x3A :: decimalInt field.bitSize.toInt
  else if field.displayType.isArray then field.internalName ++ 0x5B :: (decimalInt field.arrayLength.toInt ++ [0x5D])
  else field.internalName

/-- `make_internal_name`. `snprintf` has no count for a text that is too long. -/
def makeInternalName (field : ParamdefField) : Fallible Heap SfError (List UInt8) := do
  given (field.bitSize ≠ -1 || field.displayType.isArray) ()
    (check ((internalNameText field).length ≤ INT32_MAX) .internal)
  let _ ← Heap.alloc
  pure (internalNameText field)

/-- The name says the size and the length of the field to a reader that has found some length before. A suffix can cut an
    array of bytes, and not lengthen it. -/
def ParamdefField.NameReadable (field : ParamdefField) (length : Int32) : Prop :=
  if field.bitSize ≠ -1 then 0 ≤ field.bitSize.toInt ∧ length = field.arrayLength
  else if field.displayType.isArray then
    0 < field.arrayLength.toInt ∧
      ((field.displayType = .u8 ∨ field.displayType = .dummy8) → field.arrayLength.toInt ≤ length.toInt)
  else parseBitSuffix field.internalName = none ∧ length = field.arrayLength

instance (field : ParamdefField) (length : Int32) : Decidable (field.NameReadable length) := by
  unfold ParamdefField.NameReadable
  infer_instance

theorem not_mem_decimalInt {c : UInt8} (v : Int) (hminus : c ≠ 0x2D) (hdigit : isDigit c = false) : c ∉ decimalInt v := by
  have hdecimal : c ∉ decimal v.natAbs := by
    intro hmem
    rw [isDigit_of_mem_decimal c hmem] at hdigit
    cases hdigit
  unfold decimalInt
  split
  · simp [hminus, hdecimal]
  · exact hdecimal

theorem parseBitSuffix_text (name : List UInt8) {v : Int} (hlow : -2 ^ 31 ≤ v) (hhigh : v ≤ INT32_MAX) :
    parseBitSuffix (name ++ 0x3A :: decimalInt v) = if 0 ≤ v then some (name, Int32.ofInt v) else none := by
  have hsplit := splitLast_append name (not_mem_decimalInt (c := 0x3A) v (by decide) (by decide))
  have hnumber := strtol_decimalInt hlow hhigh [] nofun
  rw [List.append_nil] at hnumber
  simp only [parseBitSuffix, hsplit, hnumber]
  simp [hhigh]

/-- A name that ends in a bracket says no size in bits. -/
theorem parseBitSuffix_bracket (s : List UInt8) : parseBitSuffix (s ++ [0x5D]) = none := by
  unfold parseBitSuffix
  split
  · rfl
  · next before behind hsplit =>
    obtain ⟨hs, -⟩ := splitLast_eq_some.1 hsplit
    split
    · next bits hbits =>
      -- the bracket is not part of a number
      have hlast : (0x5D : UInt8) ∈ behind.getLast? := by
        have hends := congrArg List.getLast? hs
        rw [List.getLast?_concat, List.getLast?_append_of_ne_nil _ (List.cons_ne_nil _ _)] at hends
        cases behind with
        | nil => cases hends
        | cons b behind =>
            rw [List.getLast?_cons_cons] at hends
            exact hends.symm
      have hdigit := digit_of_strtol hbits _ hlast
      cases hdigit
    · rfl

theorem parseArraySuffix_text (name : List UInt8) {v : Int} (hlow : -2 ^ 31 ≤ v) (hhigh : v ≤ INT32_MAX) :
    parseArraySuffix (name ++ 0x5B :: (decimalInt v ++ [0x5D])) = if 0 < v then some (name, Int32.ofInt v) else none := by
  have hnot : (0x5B : UInt8) ∉ decimalInt v ++ [0x5D] := by
    simpa using not_mem_decimalInt (c := 0x5B) v (by decide) (by decide)
  have hsplit := splitLast_append name hnot
  have hnumber := strtol_decimalInt hlow hhigh [0x5D] (by simp [isDigit])
  have hlen : ¬ ((name ++ 0x5B :: (decimalInt v ++ [0x5D])).length < 3 ∨
      (name ++ 0x5B :: (decimalInt v ++ [0x5D])).getLast? ≠ some 0x5D) := by
    have hpos : 0 < (decimalInt v).length := by
      refine List.length_pos_iff.2 fun hnil => ?_
      unfold decimalInt at hnil
      split at hnil
      · cases hnil
      · exact decimal_ne_nil _ hnil
    rw [← List.cons_append, ← List.append_assoc, List.getLast?_concat]
    simp
    omega
  rw [parseArraySuffix, if_neg hlen]
  simp only [hsplit, hnumber]
  simp [hhigh]

/-- Where no suffix says a size, none is read. -/
theorem parseInternalName_size (type : ParamdefDefType) {name : List UInt8} (h : parseBitSuffix name = none)
    (arrayLength : Int32) : (parseInternalName type name arrayLength).2.1 = -1 := by
  rw [parseInternalName, h]
  dsimp only
  split
  · split
    · split
      · rfl
      · split <;> rfl
    · rfl
  · rfl

/-- A size that is read is not negative. -/
theorem nonneg_of_parseBitSuffix {name before : List UInt8} {bits : Int32} (h : parseBitSuffix name = some (before, bits)) :
    0 ≤ bits.toInt := by
  unfold parseBitSuffix at h
  split at h
  · cases h
  · split at h
    · next n _ =>
      split at h
      · next hn =>
        cases h
        rw [Int32.toInt_ofInt_of_le (by omega) (by have : INT32_MAX = 2 ^ 31 - 1 := rfl; omega)]
        exact hn.1
      · cases h
    · cases h

/-- The length of an array that a suffix is read for. -/
theorem parseInternalName_array {type : ParamdefDefType} (harray : type.isArray = true) {name before : List UInt8}
    {named : Int32} (hbits : parseBitSuffix name = none) (hsuffix : parseArraySuffix name = some (before, named))
    (length : Int32) : parseInternalName type name length = (before, -1, named) ↔
      ((type = .u8 ∨ type = .dummy8) → named.toInt ≤ length.toInt) := by
  rw [parseInternalName, hbits]
  simp only [harray, if_true, hsuffix]
  have hsame : length = named ↔ length.toInt = named.toInt := Int32.toInt_inj.symm
  by_cases hbytes : type = .u8 ∨ type = .dummy8
  · have hnot : ¬ (named ≠ length ∧ type ≠ .u8 ∧ type ≠ .dummy8) := by
      rintro ⟨-, hu8, hdummy⟩
      exact hbytes.elim hu8 hdummy
    rw [if_neg hnot]
    split
    · next hlt => exact iff_of_true rfl fun _ => hlt.le
    · next hge =>
        simp only [Prod.mk.injEq, true_and, hsame]
        exact ⟨fun h _ => h.ge, fun h => le_antisymm (not_lt.1 hge) (h hbytes)⟩
  · refine iff_of_true ?_ fun h => absurd h hbytes
    obtain ⟨hu8, hdummy⟩ := not_or.1 hbytes
    by_cases hdiffers : named = length
    · rw [if_neg fun h => h.1 hdiffers, hdiffers]
      split <;> rfl
    · rw [if_pos ⟨hdiffers, hu8, hdummy⟩]

/-- **Internal names**: what the writer says of a field is read back exactly if the name can say it to the reader: a size
    in bits that is not negative, a length that is positive, or nothing where the name itself does not look like one
    with a size. -/
theorem internal_name_read_back_iff (field : ParamdefField) (length : Int32) (heap : Heap) (text : List UInt8)
    (hmake : (makeInternalName field heap).1 = .ok text) :
    parseInternalName field.displayType text length =
      (field.internalName, field.bitSize, field.arrayLength) ↔ field.NameReadable length := by
  have htext : text = internalNameText field := by
    obtain ⟨_, _, _, _, hrest⟩ := bind_fst_eq_ok hmake
    obtain ⟨_, _, -, hpure⟩ := bind_eq_ok.1 hrest
    cases hpure
    rfl
  have hbits := field.bitSize.le_toInt
  have hbits' := field.bitSize.toInt_lt
  have hlength := field.arrayLength.le_toInt
  have hlength' := field.arrayLength.toInt_lt
  have hmax : INT32_MAX = 2 ^ 31 - 1 := rfl
  subst htext
  unfold internalNameText ParamdefField.NameReadable
  by_cases hsize : field.bitSize ≠ -1
  · rw [if_pos hsize, if_pos hsize, parseInternalName, parseBitSuffix_text _ (by omega) (by omega)]
    by_cases hpos : 0 ≤ field.bitSize.toInt
    · simp [hpos]
    · have hno : parseBitSuffix (field.internalName ++ 0x3A :: decimalInt field.bitSize.toInt) = none := by
        rw [parseBitSuffix_text _ (by omega) (by omega), if_neg hpos]
      have hread := parseInternalName_size field.displayType hno length
      rw [parseInternalName, parseBitSuffix_text _ (by omega) (by omega)] at hread
      refine iff_of_false (fun h => ?_) fun h => hpos h.1
      rw [h] at hread
      exact hsize hread
  · have hnone : field.bitSize = -1 := not_not.1 hsize
    rw [if_neg hsize, if_neg hsize]
    by_cases harray : field.displayType.isArray = true
    · rw [if_pos harray, if_pos harray]
      have hno : parseBitSuffix (field.internalName ++ 0x5B :: (decimalInt field.arrayLength.toInt ++ [0x5D])) = none := by
        rw [← List.cons_append, ← List.append_assoc]
        exact parseBitSuffix_bracket _
      have hsuffix := parseArraySuffix_text field.internalName (v := field.arrayLength.toInt) (by omega) (by omega)
      rw [Int32.ofInt_toInt] at hsuffix
      by_cases hpos : 0 < field.arrayLength.toInt
      · rw [if_pos hpos] at hsuffix
        rw [hnone, parseInternalName_array harray hno hsuffix, and_iff_right hpos]
      · rw [if_neg hpos] at hsuffix
        rw [parseInternalName, hno]
        simp [harray, hsuffix, hpos]
    · rw [if_neg harray, if_neg harray, parseInternalName]
      rcases hparse : parseBitSuffix field.internalName with _ | ⟨before, bits⟩
      · simp [harray, hnone]
      · refine iff_of_false (fun h => ?_) fun h => nomatch h.1
        have hneg : bits = -1 := (congrArg (fun l => l.2.1) h).trans hnone
        have hpos := nonneg_of_parseBitSuffix hparse
        rw [hneg] at hpos
        exact absurd hpos (by decide)

/-- A text of 16 bytes in a field for which a reader has found 32, and three bits that are called `flags`. -/
theorem sized_names_read_back :
    parseInternalName .fixstr (cstr "title[16]") 32 = (cstr "title", -1, 16) ∧
      parseInternalName .u8 (cstr "flags:3") 1 = (cstr "flags", 3, 1) :=
  ⟨(internal_name_read_back_iff
      { ParamdefField.bare .fixstr (-1) with internalName := cstr "title", arrayLength := 16 } 32 [] (cstr "title[16]")
      (by decide +kernel)).2 (by decide),
    (internal_name_read_back_iff { ParamdefField.bare .u8 3 with internalName := cstr "flags" } 1 [] (cstr "flags:3")
      (by decide +kernel)).2 (by decide)⟩

end SoulsFormats
