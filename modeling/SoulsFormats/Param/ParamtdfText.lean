import Mathlib.Data.Bool.AllAny
import SoulsFormats.Library.Trimming
import SoulsFormats.Param.Paramtdf

set_option autoImplicit false

/-! # Writing and reading PARAMTDF texts

What is read from a text comes back from the text that is written for it. What a value text denotes is the integer
with its sign; `strtoul` takes a minus sign too, so that not every value that is accepted is the one denoted. -/

namespace SoulsFormats

open Fallible

/-! ## Quotes -/

/-- No quote at either end. -/
def Trimmed (s : List UInt8) : Prop := s.head? ≠ some QUOTE ∧ s.getLast? ≠ some QUOTE

theorem trimmed_trimQuotes (s : List UInt8) : Trimmed (trimQuotes s) := by
  unfold trimQuotes
  generalize hdrop : s.dropWhile (· == QUOTE) = t
  have hhead : t.head? ≠ some QUOTE := by
    intro h
    have hnot := List.head?_dropWhile_not (· == QUOTE) s
    rw [hdrop, h] at hnot
    simp at hnot
  constructor
  · intro h
    have hprefix : (t.rdropWhile (· == QUOTE)) <+: t := List.rdropWhile_prefix ..
    obtain ⟨rest, hrest⟩ := hprefix
    cases hr : t.rdropWhile (· == QUOTE) with
    | nil => simp [hr] at h
    | cons b r =>
        rw [hr] at h hrest
        rw [← hrest] at hhead
        exact hhead h
  · intro h
    have hne : t.rdropWhile (· == QUOTE) ≠ [] := by
      rintro hnil
      simp [hnil] at h
    have hlast := List.rdropWhile_last_not (· == QUOTE) t hne
    rw [List.getLast?_eq_getLast_of_ne_nil hne, Option.some.injEq] at h
    simp [h] at hlast

theorem trimQuotes_quoted {s : List UInt8} (h : Trimmed s) : trimQuotes (quoted s) = s := by
  obtain ⟨hhead, hlast⟩ := h
  unfold trimQuotes quoted
  rw [List.dropWhile_cons_of_pos (by simp)]
  cases s with
  | nil => rfl
  | cons b s =>
      have hb : b ≠ QUOTE := fun hb => hhead (by rw [hb]; rfl)
      rw [List.cons_append, List.dropWhile_cons_of_neg (by simpa using hb), ← List.cons_append,
        List.rdropWhile_concat_pos _ _ _ (by simp), List.rdropWhile_eq_self_iff.2]
      intro hne
      rw [List.getLast?_eq_getLast_of_ne_nil hne] at hlast
      simpa using hlast

theorem mem_of_mem_trimQuotes {s : List UInt8} {b : UInt8} (h : b ∈ trimQuotes s) : b ∈ s :=
  (List.dropWhile_sublist _).mem ((List.rdropWhile_prefix ..).sublist.mem h)

/-! ## Lines -/

/-- What a line of a text is: some bytes, none of which ends it. -/
def IsLine (line : List UInt8) : Prop := line ≠ [] ∧ ∀ b ∈ line, isNewline b = false

theorem nextNonemptyLine_eq_some {data line rest : List UInt8} (h : nextNonemptyLine data = some (line, rest)) :
    IsLine line ∧ (∀ b ∈ line, b ∈ data) ∧ (∀ b ∈ rest, b ∈ data) := by
  rw [nextNonemptyLine] at h
  split at h
  · cases h
  · next hne =>
      have hnot := List.head?_dropWhile_not isNewline data
      have hsub : ∀ b ∈ data.dropWhile isNewline, b ∈ data := fun b hb => (List.dropWhile_sublist _).mem hb
      obtain ⟨b, s, hbs⟩ := List.exists_cons_of_ne_nil hne
      cases h
      refine ⟨⟨?_, ?_⟩, ?_, ?_⟩
      · rw [hbs] at hnot ⊢
        simp only [List.head?_cons] at hnot
        rw [List.takeWhile_cons_of_pos (by simp [hnot])]
        simp
      · intro c hc
        simpa using List.mem_takeWhile_imp hc
      · exact fun c hc => hsub c ((List.takeWhile_sublist _).mem hc)
      · exact fun c hc => hsub c ((List.dropWhile_sublist _).mem hc)

theorem nonemptyLines_spec {fuel : Nat} {data line : List UInt8} (h : line ∈ nonemptyLines fuel data) :
    IsLine line ∧ ∀ b ∈ line, b ∈ data := by
  induction fuel generalizing data with
  | zero => exact absurd h List.not_mem_nil
  | succ fuel ih =>
      rw [nonemptyLines] at h
      split at h
      · exact absurd h List.not_mem_nil
      · next first rest hnext =>
          obtain ⟨hline, hmem, hrest⟩ := nextNonemptyLine_eq_some hnext
          rcases List.mem_cons.1 h with rfl | h
          · exact ⟨hline, hmem⟩
          · obtain ⟨hline', hmem'⟩ := ih h
            exact ⟨hline', fun b hb => hrest b (hmem' b hb)⟩

/-- Lines with their ends, behind bytes that end lines. -/
theorem nonemptyLines_ended {lines : List (List UInt8)} (hlines : ∀ line ∈ lines, IsLine line) {fuel : Nat}
    (hfuel : lines.length < fuel) {ends : List UInt8} (hends : ∀ b ∈ ends, isNewline b = true) :
    nonemptyLines fuel (ends ++ lines.flatMap (· ++ CRLF)) = lines := by
  induction lines generalizing fuel ends with
  | nil =>
      obtain ⟨fuel, rfl⟩ : ∃ k, fuel = k + 1 := ⟨fuel - 1, by omega⟩
      have hnone : nextNonemptyLine ends = none := by
        rw [nextNonemptyLine, if_pos (List.dropWhile_eq_nil_iff.2 hends)]
      simp [nonemptyLines, hnone]
  | cons line lines ih =>
      obtain ⟨fuel, rfl⟩ : ∃ k, fuel = k + 1 := ⟨fuel - 1, by omega⟩
      obtain ⟨hne, hnot⟩ := hlines line List.mem_cons_self
      obtain ⟨b, s, rfl⟩ := List.exists_cons_of_ne_nil hne
      have hb := hnot b List.mem_cons_self
      have hcr : isNewline 0x0D = true := rfl
      have hnext : nextNonemptyLine (ends ++ ((b :: s) :: lines).flatMap (· ++ CRLF)) =
          some (b :: s, CRLF ++ lines.flatMap (· ++ CRLF)) := by
        have hstop : (b :: s) ++ CRLF ++ lines.flatMap (· ++ CRLF) =
            (b :: s) ++ 0x0D :: (0x0A :: lines.flatMap (· ++ CRLF)) := by simp [CRLF]
        rw [nextNonemptyLine, List.flatMap_cons, List.dropWhile_append_of_pos hends, List.append_assoc,
          List.cons_append, List.dropWhile_cons_of_neg (by simp [hb]), if_neg (by simp), ← List.cons_append,
          ← List.append_assoc, hstop,
          List.takeWhile_append_of_pos (by simpa using hnot), List.dropWhile_append_of_pos (by simpa using hnot),
          List.takeWhile_cons_of_neg (by simp [hcr]), List.dropWhile_cons_of_neg (by simp [hcr]), List.append_nil]
        rfl
      rw [nonemptyLines, hnext]
      dsimp only
      rw [ih (fun l hl => hlines l (List.mem_cons_of_mem _ hl)) (by simpa using hfuel)]
      exact List.all_eq_true.1 rfl

theorem length_le_flatMap_lines (lines : List (List UInt8)) :
    lines.length ≤ (lines.flatMap (· ++ CRLF)).length := by
  induction lines with
  | nil => exact le_rfl
  | cons line lines ih =>
      rw [List.flatMap_cons, List.length_append, List.length_append, List.length_cons]
      have hcrlf : CRLF.length = 2 := rfl
      omega

theorem paramtdfLines_ended {lines : List (List UInt8)} (hlines : ∀ line ∈ lines, IsLine line) :
    paramtdfLines (lines.flatMap (· ++ CRLF)) = lines := by
  have hle := length_le_flatMap_lines lines
  have hended := @nonemptyLines_ended lines hlines _ (Nat.lt_succ_of_le hle) [] nofun
  exact hended

/-! ## Numbers -/

/-- The integer that a text denotes: white space, a sign or none, and digits up to its end. -/
def denotedInt (s : List UInt8) : Option Int :=
  match scanLong s with
  | some (negative, n, []) => some (signedValue negative n)
  | _ => none

theorem digitsValue_decimal (n : Nat) : digitsValue (decimal n) = n := by
  have hdigits : ∀ (l : List Char) (init : Nat), (∀ c ∈ l, c.isDigit) →
      (l.map fun c => UInt8.ofNat c.toNat).foldl (fun n d => n * 10 + (d.toNat - 0x30)) init =
        Nat.ofDigitChars 10 l init := by
    intro l
    induction l with
    | nil => intro init _; rfl
    | cons c l ih =>
        intro init hl
        have hdigit := hl c List.mem_cons_self
        have hsmall : c.toNat < 256 := by
          simp only [Char.isDigit, Bool.and_eq_true, decide_eq_true_eq, UInt32.le_iff_toNat_le] at hdigit
          exact lt_of_le_of_lt hdigit.2 (by decide)
        rw [List.map_cons, List.foldl_cons, ih _ fun d hd => hl d (List.mem_cons_of_mem _ hd),
          UInt8.toNat_ofNat_of_lt' hsmall, Nat.ofDigitChars_cons, Nat.mul_comm]
        rfl
  rw [digitsValue, decimal, hdigits _ _ fun c hc => Nat.isDigit_of_mem_toDigits (by decide) (by decide) hc]
  exact Nat.ofDigitChars_ten_toDigits

theorem exists_decimal_cons (n : Nat) : ∃ b s, decimal n = b :: s ∧ isDigit b = true := by
  obtain ⟨b, s, hbs⟩ := List.exists_cons_of_ne_nil (decimal_ne_nil n)
  exact ⟨b, s, hbs, isDigit_of_mem_decimal b (by rw [hbs]; exact List.mem_cons_self)⟩

/-- A digit is none of the bytes that mean something else in a text. -/
theorem digit_plain {b : UInt8} (h : isDigit b = true) :
    isSpace b = false ∧ b ≠ 0x2D ∧ b ≠ 0x2B ∧ b ≠ 0x2C ∧ b ≠ QUOTE ∧ b ≠ 0 ∧ isNewline b = false := by
  have hne : ∀ c : UInt8, isDigit c = false → b ≠ c := by
    rintro c hc rfl
    rw [h] at hc
    cases hc
  have hle : 48 ≤ b.toNat := by
    simp only [isDigit, Bool.and_eq_true, decide_eq_true_eq, UInt8.le_iff_toNat_le] at h
    exact h.1
  have hspace : ¬ b ≤ 0x0D := by
    rw [UInt8.le_iff_toNat_le]
    exact fun hb => absurd (hle.trans hb) (by decide)
  refine ⟨?_, hne _ rfl, hne _ rfl, hne _ rfl, hne _ rfl, hne _ rfl, ?_⟩
  · simp [isSpace, hne 0x20 rfl, hspace]
  · simp [isNewline, hne 0x0D rfl, hne 0x0A rfl]

/-- The digits that a sign, which may be missing, stands before. -/
theorem scanLong_signed (sign rest : List UInt8) {negative : Bool} {n : Nat}
    (hspace : (sign ++ (decimal n ++ rest)).dropWhile isSpace = sign ++ (decimal n ++ rest))
    (hsign : takeSign (sign ++ (decimal n ++ rest)) = (negative, decimal n ++ rest))
    (hrest : ∀ b ∈ rest.head?, isDigit b = false) : scanLong (sign ++ (decimal n ++ rest)) = some (negative, n, rest) := by
  obtain ⟨htake, hdrop⟩ := Trimming.span_append (p := isDigit) (w := decimal n) (t := rest) isDigit_of_mem_decimal hrest
  rw [scanLong, hspace, hsign]
  dsimp only
  rw [htake, hdrop, if_neg (decimal_ne_nil n), digitsValue_decimal]

theorem scanLong_decimal (n : Nat) (rest : List UInt8) (hrest : ∀ b ∈ rest.head?, isDigit b = false) :
    scanLong (decimal n ++ rest) = some (false, n, rest) := by
  obtain ⟨b, s, hbs, hdigit⟩ := exists_decimal_cons n
  obtain ⟨hspace, hminus, hplus, -⟩ := digit_plain hdigit
  refine scanLong_signed [] rest ?_ ?_ hrest
  · rw [List.nil_append, hbs, List.cons_append, List.dropWhile_cons_of_neg (by simp [hspace])]
  · rw [List.nil_append, hbs, List.cons_append, takeSign, if_neg hminus, if_neg hplus]

theorem scanLong_minus (n : Nat) (rest : List UInt8) (hrest : ∀ b ∈ rest.head?, isDigit b = false) :
    scanLong (0x2D :: (decimal n ++ rest)) = some (true, n, rest) :=
  scanLong_signed [0x2D] rest rfl rfl hrest

/-- What `scanLong` recognizes in the text of a value. -/
theorem scanLong_formatValue {type : ParamtdfType} {v : Int} (h : valueInRange type v = true) :
    ∃ negative n, scanLong (formatValue type v) = some (negative, n, []) ∧ signedValue negative n = v ∧
      (type.signed = false → negative = false) := by
  have hdecimal : ∀ n, scanLong (decimal n) = some (false, n, []) := fun n => by
    simpa using scanLong_decimal n [] nofun
  have hminus : ∀ n, scanLong (0x2D :: decimal n) = some (true, n, []) := fun n => by
    simpa using scanLong_minus n [] nofun
  simp only [valueInRange, Bool.and_eq_true, decide_eq_true_eq] at h
  unfold formatValue
  split
  · next hsigned =>
      split
      · exact ⟨true, v.natAbs, hminus _, by simp only [signedValue, if_true]; omega, by simp [hsigned]⟩
      · exact ⟨false, v.natAbs, hdecimal _, by simp [signedValue]; omega, fun _ => rfl⟩
  · next hunsigned =>
      have hbounds : 0 ≤ v ∧ v < 2 ^ 64 := by
        cases type <;> simp_all [ParamtdfType.lowest, ParamtdfType.highest, ParamtdfType.signed] <;> omega
      refine ⟨false, _, hdecimal _, ?_, fun _ => rfl⟩
      rw [Int.emod_eq_of_lt hbounds.1 hbounds.2]
      simp [signedValue]
      omega

/-- Nothing in the text of a value ends a line, a name or the text. -/
theorem formatValue_plain (type : ParamtdfType) (v : Int) :
    ∀ b ∈ formatValue type v, b ≠ 0x2C ∧ b ≠ QUOTE ∧ b ≠ 0 ∧ isNewline b = false := by
  have hdecimal : ∀ n, ∀ b ∈ decimal n, b ≠ 0x2C ∧ b ≠ QUOTE ∧ b ≠ 0 ∧ isNewline b = false := by
    intro n b hb
    obtain ⟨-, -, -, hcomma, hquote, hnul, hline⟩ := digit_plain (isDigit_of_mem_decimal b hb)
    exact ⟨hcomma, hquote, hnul, hline⟩
  unfold formatValue
  split
  · split
    · intro b hb
      rcases List.mem_cons.1 hb with rfl | hb
      · decide
      · exact hdecimal _ b hb
    · exact hdecimal _
  · exact hdecimal _

theorem formatValue_ne_nil (type : ParamtdfType) (v : Int) : formatValue type v ≠ [] := by
  unfold formatValue
  split
  · split
    · simp
    · exact decimal_ne_nil _
  · exact decimal_ne_nil _

theorem valueInRange_bounds {type : ParamtdfType} {v : Int} (h : valueInRange type v = true) :
    (type.signed = true → -2 ^ 31 ≤ v ∧ v ≤ 2 ^ 31 - 1) ∧ (type.signed = false → 0 ≤ v ∧ v ≤ 2 ^ 32 - 1) := by
  simp only [valueInRange, Bool.and_eq_true, decide_eq_true_eq] at h
  cases type <;> simp_all [ParamtdfType.lowest, ParamtdfType.highest, ParamtdfType.signed] <;> omega

theorem strtolInRange_eq {s rest : List UInt8} {negative : Bool} {n : Nat} (h : scanLong s = some (negative, n, rest))
    (hfits : -2 ^ 31 ≤ signedValue negative n ∧ signedValue negative n ≤ 2 ^ 31 - 1) :
    strtolInRange s = some (signedValue negative n, rest) := by
  rw [strtolInRange, h]
  exact if_pos hfits

theorem strtoulInRange_eq {s rest : List UInt8} {negative : Bool} {n : Nat} (h : scanLong s = some (negative, n, rest))
    (hfits : n ≤ 2 ^ 32 - 1) : strtoulInRange s = some (signedValue negative n % 2 ^ 32, rest) := by
  rw [strtoulInRange, h]
  exact if_pos hfits

/-- `parse_value` of a text that the C string functions see in full. -/
theorem parseValue_eq {s : List UInt8} (hs : ∀ b ∈ s, b ≠ 0) (hne : s ≠ []) (type : ParamtdfType) :
    parseValue s type =
      if type.signed then (parsedToEnd (strtolInRange s)).bind fun v => if valueInRange type v then some v else none
      else if (s.dropWhile fun b => b == 0x20 || b == 0x09).head? = some 0x2D then none
      else (parsedToEnd (strtoulInRange s)).bind fun v => if valueInRange type v then some v else none := by
  rw [parseValue, cText_eq_self hs, if_neg hne]
  rfl

/-- A value that is written is read back. -/
theorem parseValue_formatValue {type : ParamtdfType} {v : Int} (h : valueInRange type v = true) :
    parseValue (formatValue type v) type = some v := by
  obtain ⟨negative, n, hscan, rfl, hunsigned⟩ := scanLong_formatValue h
  obtain ⟨hlong, hulong⟩ := valueInRange_bounds h
  rw [parseValue_eq (fun b hb => (formatValue_plain type _ b hb).2.2.1) (formatValue_ne_nil type _)]
  cases hsigned : type.signed with
  | true =>
      rw [if_pos rfl, strtolInRange_eq hscan (hlong hsigned)]
      exact if_pos h
  | false =>
      obtain rfl := hunsigned hsigned
      obtain ⟨hlow, hhigh⟩ := hulong hsigned
      have hn : signedValue false n = n := rfl
      rw [hn] at hlow hhigh h
      have hmod : signedValue false n % 2 ^ 32 = n := by
        rw [hn, Int.emod_eq_of_lt hlow (by omega)]
      have hhead : ((formatValue type n).dropWhile fun b => b == 0x20 || b == 0x09).head? ≠ some 0x2D := by
        obtain ⟨b, s, hbs, hdigit⟩ := exists_decimal_cons ((n : Int) % 2 ^ 64).toNat
        obtain ⟨-, hminus, -⟩ := digit_plain hdigit
        have hblank : (b == 0x20 || b == 0x09) = false := by
          rw [Bool.or_eq_false_iff]
          constructor <;> rw [beq_eq_false_iff_ne] <;> rintro rfl <;> cases hdigit
        rw [formatValue, hsigned, if_neg Bool.false_ne_true, hbs, List.dropWhile_cons_of_neg (by simp [hblank])]
        simpa using hminus
      rw [if_neg Bool.false_ne_true, hn, if_neg hhead, ← hn, strtoulInRange_eq hscan (by omega), hmod]
      exact if_pos h

/-- What the value of an accepted text is. -/
theorem parseValue_eq_some {type : ParamtdfType} {s : List UInt8} {v : Int} (hs : ∀ b ∈ s, b ≠ 0)
    (h : parseValue s type = some v) :
    valueInRange type v = true ∧ ∃ n, denotedInt s = some n ∧ (type.signed = true → v = n) ∧ (0 ≤ n → v = n) := by
  by_cases hne : s = []
  · subst hne
    cases h
  rw [parseValue_eq hs hne] at h
  cases hsigned : type.signed with
  | true =>
      rw [hsigned, if_pos rfl] at h
      cases hscan : scanLong s with
      | none => simp [strtolInRange, hscan, parsedToEnd] at h
      | some r =>
          obtain ⟨negative, n, rest⟩ := r
          by_cases hfits : -2 ^ 31 ≤ signedValue negative n ∧ signedValue negative n ≤ 2 ^ 31 - 1
          · rw [strtolInRange_eq hscan hfits] at h
            cases rest with
            | cons b rest => cases h
            | nil =>
                simp only [parsedToEnd, Option.bind_some, Option.ite_none_right_eq_some,
                  Option.some.injEq] at h
                obtain ⟨hrange, rfl⟩ := h
                exact ⟨hrange, _, by rw [denotedInt, hscan], fun _ => rfl, fun _ => rfl⟩
          · rw [strtolInRange, hscan] at h
            simp only [Option.bind_eq_bind, Option.bind_some, if_neg hfits, parsedToEnd] at h
            cases h
  | false =>
      rw [hsigned, if_neg Bool.false_ne_true] at h
      split at h
      · cases h
      · cases hscan : scanLong s with
        | none => simp [strtoulInRange, hscan, parsedToEnd] at h
        | some r =>
            obtain ⟨negative, n, rest⟩ := r
            by_cases hfits : n ≤ 2 ^ 32 - 1
            · rw [strtoulInRange_eq hscan hfits] at h
              cases rest with
              | cons b rest => cases h
              | nil =>
                  simp only [parsedToEnd, Option.bind_some, Option.ite_none_right_eq_some,
                    Option.some.injEq] at h
                  obtain ⟨hrange, rfl⟩ := h
                  refine ⟨hrange, _, by rw [denotedInt, hscan], nofun, fun hpos => ?_⟩
                  refine Int.emod_eq_of_lt hpos ?_
                  unfold signedValue
                  split <;> omega
            · rw [strtoulInRange, hscan] at h
              simp only [Option.bind_eq_bind, Option.bind_some, if_neg hfits, parsedToEnd] at h
              cases h

/-! ## Reading -/

/-- The text of the value in a line. -/
def valueText (line : List UInt8) : List UInt8 := trimQuotes (line.dropWhile (· != 0x2C)).tail

/-- The name in a line, which is missing if the comma comes first. -/
def nameText (line : List UInt8) : Option (List UInt8) :=
  if line.takeWhile (· != 0x2C) = [] then none else some (trimQuotes (line.takeWhile (· != 0x2C)))

/-- What a line is read as. -/
structure EntryOf (type : ParamtdfType) (line : List UInt8) (entry : ParamtdfEntry) : Prop where
  comma : line.contains 0x2C = true
  name : entry.name = nameText line
  value : parseValue (valueText line) type = some entry.value

theorem paramtdfReadEntry_eq_ok {type : ParamtdfType} {line : List UInt8} {entry : ParamtdfEntry} {heap heap' : Heap}
    (h : paramtdfReadEntry type line heap = (.ok entry, heap')) : EntryOf type line entry := by
  unfold paramtdfReadEntry at h
  obtain ⟨⟨⟩, h1, hcomma, h⟩ := bind_eq_ok.1 h
  obtain ⟨name, h2, hname, h⟩ := bind_eq_ok.1 h
  obtain ⟨text, h3, htext, h⟩ := bind_eq_ok.1 h
  obtain ⟨junk, h4, -, hpure⟩ := bind_eq_ok.1 htext
  cases hpure
  have hnameText : name = nameText line := by
    unfold paramtdfReadName at hname
    unfold nameText
    split at hname
    · next hnil =>
        rw [if_pos hnil]
        cases hname
        rfl
    · next hsome =>
        rw [if_neg hsome]
        obtain ⟨raw, h5, hraw, hpure⟩ := bind_eq_ok.1 hname
        obtain ⟨_, h6, -, hpure'⟩ := bind_eq_ok.1 hraw
        cases hpure
        cases hpure'
        rfl
  rw [check_run] at hcomma
  split at hcomma
  · next hcontains =>
      cases hvalue : parseValue (trimQuotes (line.dropWhile (· != 0x2C)).tail) type with
      | none =>
          rw [hvalue] at h
          cases h
      | some v =>
          rw [hvalue] at h
          cases h
          exact ⟨hcontains, hnameText, hvalue⟩
  · cases hcomma

theorem paramtdfReadEntries_eq_ok {type : ParamtdfType} {expected : Nat} {lines : List (List UInt8)}
    {entries entries' : List ParamtdfEntry} {heap heap' : Heap}
    (h : paramtdfReadEntries type expected lines entries heap = (.ok entries', heap')) :
    ∃ read, entries' = entries ++ read ∧ List.Forall₂ (EntryOf type) lines read := by
  induction lines generalizing entries heap with
  | nil =>
      cases h
      exact ⟨[], (List.append_nil _).symm, .nil⟩
  | cons line lines ih =>
      rw [paramtdfReadEntries] at h
      obtain ⟨⟨⟩, h1, -, h⟩ := bind_eq_ok.1 h
      obtain ⟨entry, h2, hentry, h⟩ := bind_eq_ok.1 h
      obtain ⟨read, rfl, hread⟩ := ih h
      exact ⟨entry :: read, by simp, .cons (paramtdfReadEntry_eq_ok hentry) hread⟩

/-- What a text is read as. -/
structure TextOf (tdf : Paramtdf) (nameLine typeLine : List UInt8) (lines : List (List UInt8)) : Prop where
  name : tdf.name = trimQuotes nameLine
  type : parseType (trimQuotes typeLine) = some tdf.type
  entries : List.Forall₂ (EntryOf tdf.type) lines tdf.entries

theorem paramtdfReadFromText_eq_ok {text : List UInt8} {tdf : Paramtdf} {heap heap' : Heap}
    (h : paramtdfReadFromText text heap = (.ok tdf, heap')) :
    ∃ nameLine typeLine lines, paramtdfLines text = nameLine :: typeLine :: lines ∧
      TextOf tdf nameLine typeLine lines := by
  unfold paramtdfReadFromText at h
  obtain ⟨⟨⟩, h1, -, h⟩ := bind_eq_ok.1 h
  obtain ⟨_, h2, -, h⟩ := bind_eq_ok.1 h
  rcases hlines : paramtdfLines text with _ | ⟨nameLine, _ | ⟨typeLine, lines⟩⟩ <;> rw [hlines] at h
  · cases h
  · cases h
  · obtain ⟨name, h3, hname, hafter⟩ := bind_eq_ok.1 h
    obtain ⟨_, h4, -, hpure⟩ := bind_eq_ok.1 hname
    cases hpure
    cases htype : parseType (trimQuotes typeLine) with
    | none =>
        rw [htype] at hafter
        cases hafter
    | some type =>
        rw [htype] at hafter
        obtain ⟨_, h5, -, hafter⟩ := bind_eq_ok.1 hafter
        obtain ⟨entries, h6, hentries, hpure⟩ := bind_eq_ok.1 hafter
        cases hpure
        obtain ⟨read, rfl, hread⟩ := paramtdfReadEntries_eq_ok hentries
        exact ⟨nameLine, typeLine, lines, rfl, rfl, htype, by simpa using hread⟩

theorem dupSlice_calm (s : List UInt8) {heap : Heap} (hcalm : heap.Calm) :
    ∃ heap', dupSlice s heap = (.ok s, heap') ∧ heap'.Calm := by
  obtain ⟨junk, heap', halloc, hcalm'⟩ := Heap.alloc_calm hcalm
  exact ⟨heap', by rw [dupSlice, bind_ok halloc]; rfl, hcalm'⟩

theorem paramtdfReadEntry_of {type : ParamtdfType} {line : List UInt8} {entry : ParamtdfEntry}
    (h : EntryOf type line entry) {heap : Heap} (hcalm : heap.Calm) :
    ∃ heap', paramtdfReadEntry type line heap = (.ok entry, heap') ∧ heap'.Calm := by
  have hname : ∃ h1, paramtdfReadName (line.takeWhile (· != 0x2C)) heap = (.ok (nameText line), h1) ∧ h1.Calm := by
    unfold paramtdfReadName nameText
    split
    · exact ⟨heap, rfl, hcalm⟩
    · obtain ⟨h1, hdup, hcalm1⟩ := dupSlice_calm (trimQuotes (line.takeWhile (· != 0x2C))) hcalm
      exact ⟨h1, by rw [bind_ok hdup]; rfl, hcalm1⟩
  obtain ⟨h1, hname, hcalm1⟩ := hname
  obtain ⟨h2, htext, hcalm2⟩ := dupSlice_calm (valueText line) hcalm1
  refine ⟨h2, ?_, hcalm2⟩
  have hvalue := h.value
  rw [valueText] at hvalue htext
  rw [paramtdfReadEntry, check_bind_pos h.comma, bind_ok hname, bind_ok htext, hvalue]
  obtain ⟨name, value⟩ := entry
  rw [← h.name]
  rfl

theorem paramtdfReadEntries_of {type : ParamtdfType} {expected : Nat} {lines : List (List UInt8)}
    {read : List ParamtdfEntry} (h : List.Forall₂ (EntryOf type) lines read) {entries : List ParamtdfEntry}
    (hexpected : entries.length + lines.length ≤ expected) {heap : Heap} (hcalm : heap.Calm) :
    ∃ heap', paramtdfReadEntries type expected lines entries heap = (.ok (entries ++ read), heap') := by
  induction h generalizing entries heap with
  | nil => exact ⟨heap, by rw [paramtdfReadEntries, List.append_nil]; rfl⟩
  | @cons line entry lines read hentry hrest ih =>
      rw [List.length_cons] at hexpected
      obtain ⟨h1, hrun, hcalm1⟩ := paramtdfReadEntry_of hentry hcalm
      obtain ⟨h2, hrun2⟩ := @ih (entries ++ [entry]) (by simp; omega) h1 hcalm1
      refine ⟨h2, ?_⟩
      rw [paramtdfReadEntries, check_bind_pos (by omega), bind_ok hrun, hrun2, List.append_assoc, List.singleton_append]

/-- Where every request is granted, a text of such lines is read. -/
theorem paramtdfReadFromText_of {text nameLine typeLine : List UInt8} {lines : List (List UInt8)} {tdf : Paramtdf}
    (hlines : paramtdfLines text = nameLine :: typeLine :: lines) (h : TextOf tdf nameLine typeLine lines)
    {heap : Heap} (hcalm : heap.Calm) : (paramtdfReadFromText text heap).1 = .ok tdf := by
  obtain ⟨_, h1, halloc, hcalm1⟩ := Heap.alloc_calm hcalm
  obtain ⟨h2, hname, hcalm2⟩ := dupSlice_calm (trimQuotes nameLine) hcalm1
  have hgiven : ∃ junk h3, given (decide (0 < lines.length)) [] Heap.alloc h2 = (.ok junk, h3) ∧ h3.Calm := by
    unfold given
    split
    · exact Heap.alloc_calm hcalm2
    · exact ⟨[], h2, rfl, hcalm2⟩
  obtain ⟨_, h3, hgiven, hcalm3⟩ := hgiven
  obtain ⟨h4, hentries⟩ := @paramtdfReadEntries_of _ lines.length _ _ h.entries [] (by simp) h3 hcalm3
  unfold paramtdfReadFromText
  have hexpected : (nameLine :: typeLine :: lines).length - 2 = lines.length := by simp
  rw [hlines, check_bind_pos (by simp), bind_ok halloc]
  dsimp only
  rw [bind_ok hname, h.type]
  dsimp only
  rw [hexpected, bind_ok hgiven, bind_ok hentries, ← h.name, List.nil_append]
  rfl

/-! ## The round trip -/

theorem parseType_typeToName (type : ParamtdfType) : parseType (typeToName type) = some type := by
  cases type <;> decide

theorem typeToName_plain (type : ParamtdfType) :
    ∀ b ∈ typeToName type, b ≠ QUOTE ∧ isNewline b = false := by
  cases type <;> exact List.all_iff_forall_prop.1 rfl

theorem trimmed_of_plain {s : List UInt8} (h : ∀ b ∈ s, b ≠ QUOTE) : Trimmed s := by
  constructor
  · intro hhead
    exact h QUOTE (List.mem_of_mem_head? hhead) rfl
  · intro hlast
    exact h QUOTE (List.mem_of_getLast? hlast) rfl

theorem isLine_quoted {s : List UInt8} (h : ∀ b ∈ s, isNewline b = false) : IsLine (quoted s) := by
  refine ⟨by simp [quoted], ?_⟩
  intro b hb
  have hquote : isNewline QUOTE = false := rfl
  simp only [quoted, List.mem_cons, List.mem_append, List.not_mem_nil, or_false] at hb
  rcases hb with rfl | hb | rfl
  · exact hquote
  · exact h b hb
  · exact hquote

/-- An entry that its own line is read as: nothing in its name ends the name or the text. -/
structure Writable (type : ParamtdfType) (entry : ParamtdfEntry) : Prop where
  trimmed : ∀ name ∈ entry.name, Trimmed name
  plain : ∀ name ∈ entry.name, ∀ b ∈ name, b ≠ 0x2C ∧ b ≠ 0 ∧ isNewline b = false
  inRange : valueInRange type entry.value = true

section

variable {type : ParamtdfType} {entry : ParamtdfEntry}

/-- What stands before the comma of an entry's line. -/
def nameField (entry : ParamtdfEntry) : List UInt8 :=
  match entry.name with
  | none => []
  | some name => quoted (cText name)

theorem nameField_some {name : List UInt8} (h : ∀ b ∈ name, b ≠ 0) (v : Int) :
    nameField ⟨some name, v⟩ = quoted name := by
  change quoted (cText name) = quoted name
  rw [cText_eq_self h]

theorem entryLine_eq (type : ParamtdfType) (entry : ParamtdfEntry) :
    entryLine type entry = nameField entry ++ 0x2C :: quoted (formatValue type entry.value) := rfl

theorem Writable.nameField_plain (h : Writable type entry) :
    ∀ b ∈ nameField entry, b ≠ 0x2C ∧ isNewline b = false := by
  obtain ⟨name, value⟩ := entry
  cases name with
  | none => exact nofun
  | some name =>
      have hplain := h.plain name rfl
      rw [nameField_some fun b hb => (hplain b hb).2.1]
      intro b hb
      simp only [quoted, List.mem_cons, List.mem_append, List.not_mem_nil, or_false] at hb
      rcases hb with rfl | hb | rfl
      · decide
      · exact ⟨(hplain b hb).1, (hplain b hb).2.2⟩
      · decide

theorem Writable.isLine (h : Writable type entry) : IsLine (entryLine type entry) := by
  refine ⟨by simp [entryLine_eq], ?_⟩
  intro b hb
  rw [entryLine_eq, List.mem_append, List.mem_cons] at hb
  rcases hb with hb | rfl | hb
  · exact (h.nameField_plain b hb).2
  · rfl
  · exact (isLine_quoted fun c hc => (formatValue_plain type _ c hc).2.2.2).2 b hb

/-- The line of an entry is read as the entry. -/
theorem Writable.entryOf (h : Writable type entry) : EntryOf type (entryLine type entry) entry := by
  have hbefore : ∀ b ∈ nameField entry, (b != 0x2C) = true := fun b hb => by simpa using (h.nameField_plain b hb).1
  have htake : (entryLine type entry).takeWhile (· != 0x2C) = nameField entry := by
    rw [entryLine_eq, List.takeWhile_append_of_pos hbefore, List.takeWhile_cons_of_neg (by simp), List.append_nil]
  have hdrop : (entryLine type entry).dropWhile (· != 0x2C) = 0x2C :: quoted (formatValue type entry.value) := by
    rw [entryLine_eq, List.dropWhile_append_of_pos hbefore, List.dropWhile_cons_of_neg (by simp)]
  refine ⟨by simp [entryLine_eq], ?_, ?_⟩
  · rw [nameText, htake]
    obtain ⟨name, value⟩ := entry
    cases name with
    | none => rfl
    | some name =>
        rw [nameField_some fun b hb => (h.plain name rfl b hb).2.1, if_neg (by simp [quoted]),
          trimQuotes_quoted (h.trimmed name rfl)]
  · have htrim : Trimmed (formatValue type entry.value) :=
      trimmed_of_plain fun b hb => (formatValue_plain type _ b hb).2.1
    rw [valueText, hdrop, List.tail_cons, trimQuotes_quoted htrim]
    exact parseValue_formatValue h.inRange

end

/-- A file that comes back from its own text. -/
structure WritableTdf (tdf : Paramtdf) : Prop where
  trimmed : Trimmed tdf.name
  plain : ∀ b ∈ tdf.name, b ≠ 0 ∧ isNewline b = false
  entries : ∀ entry ∈ tdf.entries, Writable tdf.type entry

section

variable {tdf : Paramtdf}

theorem paramtdfText_eq (h : WritableTdf tdf) : paramtdfText tdf =
    (quoted tdf.name :: quoted (typeToName tdf.type) :: tdf.entries.map (entryLine tdf.type)).flatMap (· ++ CRLF) := by
  rw [paramtdfText, cText_eq_self fun b hb => (h.plain b hb).1, List.flatMap_cons, List.flatMap_cons, List.flatMap_map]

theorem WritableTdf.lines (h : WritableTdf tdf) : paramtdfLines (paramtdfText tdf) =
    quoted tdf.name :: quoted (typeToName tdf.type) :: tdf.entries.map (entryLine tdf.type) := by
  rw [paramtdfText_eq h]
  refine paramtdfLines_ended ?_
  intro line hline
  simp only [List.mem_cons, List.mem_map] at hline
  rcases hline with rfl | rfl | ⟨entry, hentry, rfl⟩
  · exact isLine_quoted fun b hb => (h.plain b hb).2
  · exact isLine_quoted fun b hb => (typeToName_plain tdf.type b hb).2
  · exact (h.entries entry hentry).isLine

theorem WritableTdf.textOf (h : WritableTdf tdf) : TextOf tdf (quoted tdf.name) (quoted (typeToName tdf.type))
    (tdf.entries.map (entryLine tdf.type)) := by
  refine ⟨(trimQuotes_quoted h.trimmed).symm, ?_, ?_⟩
  · rw [trimQuotes_quoted (trimmed_of_plain fun b hb => (typeToName_plain tdf.type b hb).1), parseType_typeToName]
  · rw [List.forall₂_map_left_iff, List.forall₂_same]
    exact fun entry hentry => (h.entries entry hentry).entryOf

/-- The text that is written for it is read as the file. -/
theorem WritableTdf.read (h : WritableTdf tdf) {heap : Heap} (hcalm : heap.Calm) :
    (paramtdfReadFromText (paramtdfText tdf) heap).1 = .ok tdf :=
  paramtdfReadFromText_of h.lines h.textOf hcalm

theorem paramtdfWriteToText_eq_ok {out : List UInt8} {heap heap' : Heap}
    (h : paramtdfWriteToText tdf heap = (.ok out, heap')) : out = paramtdfText tdf := by
  unfold paramtdfWriteToText at h
  obtain ⟨⟨⟩, h1, -, h⟩ := bind_eq_ok.1 h
  obtain ⟨size, h2, -, h⟩ := bind_eq_ok.1 h
  obtain ⟨junk, h3, -, hpure⟩ := bind_eq_ok.1 h
  cases hpure
  rfl

theorem length_formatValue {type : ParamtdfType} {v : Int} (h : valueInRange type v = true) :
    (formatValue type v).length < 32 := by
  obtain ⟨hlong, hulong⟩ := valueInRange_bounds h
  have hdecimal : ∀ n, n < 10 ^ 20 → (decimal n).length ≤ 20 := by
    intro n hn
    rw [decimal, List.length_map]
    exact (Nat.length_toDigits_le_iff (by decide) (by decide)).2 hn
  unfold formatValue
  split
  · next hsigned =>
      have hsmall := hdecimal v.natAbs (by have := hlong hsigned; omega)
      split
      · rw [List.length_cons]
        omega
      · omega
  · have hmod : (v % 2 ^ 64).toNat < 10 ^ 20 := by omega
    have hsmall := hdecimal _ hmod
    omega

theorem paramtdfSize_ok {type : ParamtdfType} {entries : List ParamtdfEntry}
    (hentries : ∀ entry ∈ entries, valueInRange type entry.value = true) {total : Nat}
    (hsize : total + (entries.flatMap fun entry => entryLine type entry ++ CRLF).length ≤ SIZE_MAX) :
    ∃ size, paramtdfSize type entries total = .ok size := by
  induction entries generalizing total with
  | nil => exact ⟨total, rfl⟩
  | cons entry entries ih =>
      have hcrlf : CRLF.length = 2 := rfl
      rw [List.flatMap_cons, List.length_append, List.length_append] at hsize
      have hvalue := length_formatValue (hentries entry List.mem_cons_self)
      rw [paramtdfSize, if_neg (by omega), if_neg (by omega)]
      exact ih (fun e he => hentries e (List.mem_cons_of_mem _ he)) (by omega)

/-- A text that the address space has room for is written. -/
theorem WritableTdf.writes (h : WritableTdf tdf) (hsize : (paramtdfText tdf).length ≤ SIZE_MAX) {heap : Heap}
    (hcalm : heap.Calm) : (paramtdfWriteToText tdf heap).1 = .ok (paramtdfText tdf) := by
  have hcrlf : CRLF.length = 2 := rfl
  simp only [paramtdfText, quoted, List.length_append, List.length_cons, List.length_nil] at hsize
  obtain ⟨size, hok⟩ := @paramtdfSize_ok tdf.type tdf.entries (fun e he => (h.entries e he).inRange)
    ((cText tdf.name).length + 4 + ((typeToName tdf.type).length + 4)) (by omega)
  obtain ⟨junk, heap', halloc, -⟩ := Heap.alloc_calm hcalm
  unfold paramtdfWriteToText
  rw [check_bind_pos (by omega), hok, bind_ok (lift_run _ _), bind_ok halloc]
  rfl

end

/-- The lines of the entries. -/
def entryLines (text : List UInt8) : List (List UInt8) := (paramtdfLines text).drop 2

/-- What is asked of a text that is read as `tdf`: it comes back from the text that is written for it, and each
    value is the integer of its line and one of the declared type. -/
structure FaithfullyRead (text : List UInt8) (tdf : Paramtdf) : Prop where
  writes : ∀ heap : Heap, heap.Calm → (paramtdfText tdf).length ≤ SIZE_MAX →
    ∃ out, (paramtdfWriteToText tdf heap).1 = .ok out
  roundTrip : ∀ heap out heap', paramtdfWriteToText tdf heap = (.ok out, heap') →
    ∀ heap2 : Heap, heap2.Calm → (paramtdfReadFromText out heap2).1 = .ok tdf
  values : List.Forall₂ (fun line entry => denotedInt (valueText line) = some entry.value) (entryLines text) tdf.entries
  inRange : ∀ entry ∈ tdf.entries, valueInRange tdf.type entry.value = true

/-- No value of an unsigned type is negative. -/
def NoNegativeUnsigned (text : List UInt8) (type : ParamtdfType) : Prop :=
  type.signed = true ∨ ∀ line ∈ entryLines text, ∀ n, denotedInt (valueText line) = some n → 0 ≤ n

/-- An entry that was read is one that can be written. -/
theorem EntryOf.writable {type : ParamtdfType} {line : List UInt8} {entry : ParamtdfEntry}
    (h : EntryOf type line entry) (hline : IsLine line) (hnul : ∀ b ∈ line, b ≠ 0) : Writable type entry := by
  have hvalue : ∀ b ∈ valueText line, b ≠ 0 := by
    intro b hb
    exact hnul b ((List.dropWhile_sublist _).mem (List.mem_of_mem_tail (mem_of_mem_trimQuotes hb)))
  refine ⟨?_, ?_, (parseValue_eq_some hvalue h.value).1⟩
  · rw [h.name, nameText]
    split
    · exact fun name hname => absurd hname (Option.not_mem_none name)
    · rintro name ⟨⟩
      exact trimmed_trimQuotes _
  · rw [h.name, nameText]
    split
    · exact fun name hname => absurd hname (Option.not_mem_none name)
    · rintro name ⟨⟩ b hb
      have hbefore := mem_of_mem_trimQuotes hb
      have hmem := (List.takeWhile_sublist _).mem hbefore
      exact ⟨by simpa using List.mem_takeWhile_imp hbefore, hnul b hmem, hline.2 b hmem⟩

/-- A text without NUL bytes is read faithfully exactly if no value of an unsigned type denotes a negative
    integer. -/
theorem paramtdf_faithful_iff (text : List UInt8) (hnul : ∀ b ∈ text, b ≠ 0) (tdf : Paramtdf) (heap heap' : Heap)
    (hread : paramtdfReadFromText text heap = (.ok tdf, heap')) :
    FaithfullyRead text tdf ↔ NoNegativeUnsigned text tdf.type := by
  obtain ⟨nameLine, typeLine, lines, hlines, hentries⟩ := paramtdfReadFromText_eq_ok hread
  have hline : ∀ line ∈ nameLine :: typeLine :: lines, IsLine line ∧ ∀ b ∈ line, b ≠ 0 := by
    intro line hmem
    rw [← hlines] at hmem
    obtain ⟨hline, hsub⟩ := nonemptyLines_spec hmem
    exact ⟨hline, fun b hb => hnul b (hsub b hb)⟩
  have hentryLines : entryLines text = lines := by
    rw [entryLines, hlines]
    rfl
  have hin : ∀ line ∈ lines, IsLine line ∧ ∀ b ∈ line, b ≠ 0 := fun line hmem =>
    hline line (List.mem_cons_of_mem _ (List.mem_cons_of_mem _ hmem))
  have hvalueNul : ∀ line ∈ lines, ∀ b ∈ valueText line, b ≠ 0 := fun line hmem b hb =>
    (hin line hmem).2 b ((List.dropWhile_sublist _).mem (List.mem_of_mem_tail (mem_of_mem_trimQuotes hb)))
  have hwritable : WritableTdf tdf := by
    obtain ⟨hnameLine, hnameNul⟩ := hline nameLine List.mem_cons_self
    refine ⟨by rw [hentries.name]; exact trimmed_trimQuotes _, ?_, ?_⟩
    · rw [hentries.name]
      exact fun b hb => ⟨hnameNul b (mem_of_mem_trimQuotes hb), hnameLine.2 b (mem_of_mem_trimQuotes hb)⟩
    · intro entry hentry
      obtain ⟨i, hi, rfl⟩ := List.mem_iff_getElem.1 hentry
      have hlen := hentries.entries.length_eq
      have hof := hentries.entries.get (by omega) hi
      exact hof.writable (hin _ (List.getElem_mem _)).1 (hin _ (List.getElem_mem _)).2
  have hlen := hentries.entries.length_eq
  constructor
  · intro hfaithful
    by_cases hsigned : tdf.type.signed = true
    · exact Or.inl hsigned
    · right
      rw [hentryLines]
      intro line hmem n hn
      obtain ⟨i, hi, rfl⟩ := List.mem_iff_getElem.1 hmem
      have hvalues := hfaithful.values
      rw [hentryLines] at hvalues
      have hvalue := hvalues.get hi (by omega)
      simp only [List.get_eq_getElem] at hvalue
      rw [hn, Option.some.injEq] at hvalue
      have hrange := (valueInRange_bounds (hfaithful.inRange _ (List.getElem_mem (by omega : i < _)))).2
      rw [hvalue]
      exact (hrange (by simpa using hsigned)).1
  · intro hnegative
    refine ⟨fun heap hcalm hsize => ⟨_, hwritable.writes hsize hcalm⟩, ?_, ?_, fun entry hentry =>
      (hwritable.entries entry hentry).inRange⟩
    · intro heap1 out heap1' hout heap2 hcalm
      rw [paramtdfWriteToText_eq_ok hout]
      exact hwritable.read hcalm
    · rw [hentryLines, List.forall₂_iff_get]
      refine ⟨hlen, ?_⟩
      intro i hi hi'
      have hmem : lines.get ⟨i, hi⟩ ∈ lines := List.getElem_mem _
      obtain ⟨-, n, hn, hsigned, hpos⟩ := parseValue_eq_some (hvalueNul _ hmem) (hentries.entries.get hi hi').value
      rw [hn, Option.some.injEq, eq_comm]
      rcases hnegative with htype | hnegative
      · exact hsigned htype
      · rw [hentryLines] at hnegative
        exact hpos (hnegative _ hmem n hn)

/-- A name, a type and two entries, one without a name. -/
def sampleText : List UInt8 := cstr "\"T\"\n\"u8\"\n\"a\",\"7\"\n,\"200\"\n"

def sampleTdf : Paramtdf :=
  { name := cstr "T", type := .u8, entries := [{ name := some (cstr "a"), value := 7 }, { name := none, value := 200 }] }

theorem sampleText_faithful : FaithfullyRead sampleText sampleTdf := by
  have hlines : entryLines sampleText = [cstr "\"a\",\"7\"", cstr ",\"200\""] := by decide +kernel
  have hvalues : denotedInt (valueText (cstr "\"a\",\"7\"")) = some 7 ∧ denotedInt (valueText (cstr ",\"200\"")) = some 200 := by
    decide +kernel
  refine (paramtdf_faithful_iff sampleText (List.all_iff_forall_prop.1 rfl) sampleTdf []
    (paramtdfReadFromText sampleText []).2 (Prod.ext (by decide +kernel) rfl)).2 (.inr ?_)
  rw [hlines]
  intro line hline n hn
  rcases List.mem_pair.1 hline with rfl | rfl
  · rw [hvalues.1, Option.some.injEq] at hn
    omega
  · rw [hvalues.2, Option.some.injEq] at hn
    omega

/-- A vertical tab hides the minus sign from `parse_value`, not from `strtoul`. -/
def negativeText : List UInt8 := cstr "\"T\"\n\"u32\"\na," ++ 0x0B :: cstr "-1\n"

def negativeTdf : Paramtdf :=
  { name := cstr "T", type := .u32, entries := [{ name := some (cstr "a"), value := 2 ^ 32 - 1 }] }

theorem negativeText_not_faithful :
    (paramtdfReadFromText negativeText []).1 = .ok negativeTdf ∧ ¬ FaithfullyRead negativeText negativeTdf := by
  refine ⟨by decide +kernel, ?_⟩
  intro hfaithful
  have hlines : entryLines negativeText = [cstr "a," ++ 0x0B :: cstr "-1"] := by decide +kernel
  have hvalues := hfaithful.values
  rw [hlines] at hvalues
  cases hvalues with
  | cons hvalue _ =>
      have hdenoted : denotedInt (valueText (cstr "a," ++ 0x0B :: cstr "-1")) = some (-1) := by decide +kernel
      rw [hdenoted] at hvalue
      cases hvalue

end SoulsFormats
