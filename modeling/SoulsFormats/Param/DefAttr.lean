import SoulsFormats.Library.Trimming
import SoulsFormats.Param.InternalNames

set_option autoImplicit false

/-! # Def attributes

The model of `sfi_parse_def_attr`: the text that declares a field in an XML description, such as `u8 flags:3 = 1` or
`s16 pad[4]`. What it accepts is told by a grammar: blanks may stand anywhere between the parts, the last equals sign
starts the default, and a suffix that is no number belongs to the name. -/

namespace SoulsFormats

open Fallible Trimming

/-! ## Parsing -/

/-- `sfi_def_parts_t`, with what was not found left out. -/
structure DefParts where
  type : List UInt8
  name : List UInt8
  default : Option (List UInt8) := none
  bitSize : Option Int32 := none
  arrayLength : Option Int32 := none
deriving DecidableEq

/-- What `sfi_skip_ws` and `sfi_skip_ws_back` skip. -/
def isBlank (b : UInt8) : Bool := b = 0x20 || b = 0x09

/-- `sfi_parse_int32_substr`. The number is copied to a buffer of 16 bytes. -/
def parseInt32Substr (s : List UInt8) : Option Int32 :=
  if s = [] ∨ 16 ≤ s.length then none else (parsedToEnd (strtolInRange s)).map Int32.ofInt

/-- The suffix of a name, a length or a size in bits, and what is left of the name. A name that ends in a bracket is
    not looked at for a size. -/
def splitSuffix (region : List UInt8) : List UInt8 × Option Int32 × Option Int32 :=
  if region.getLast? = some 0x5D then
    match splitLast 0x5B region with
    | some (before, behind) =>
      -- a bracket at the start of the name is not found
      if before = [] then (region, none, none)
      else
        match parseInt32Substr (trim isBlank behind.dropLast) with
        | some length => (before.rdropWhile isBlank, none, some length)
        | none => (region, none, none)
    | none => (region, none, none)
  else
    match splitLast 0x3A region with
    | some (before, behind) =>
      match parseInt32Substr (trim isBlank behind) with
      | some bits => (before.rdropWhile isBlank, some bits, none)
      | none => (region, none, none)
    | none => (region, none, none)

/-- The default behind the last equals sign, and what stands before it. -/
def splitDefault (s : List UInt8) : Except SfError (List UInt8 × Option (List UInt8)) :=
  match splitLast 0x3D s with
  | none => .ok (s, none)
  | some (before, behind) =>
    if trim isBlank behind = [] then .error .badMagic
    else .ok (before.rdropWhile isBlank, some (trim isBlank behind))

/-- `sfi_parse_def_attr` behind the type. -/
def parseDefRest (type s : List UInt8) : Fallible Heap SfError DefParts := do
  let (region, default) ← lift (splitDefault s)
  let suffix := splitSuffix region
  check (suffix.1 ≠ []) .badMagic
  let _ ← Heap.alloc
  pure ⟨type, suffix.1, default, suffix.2.1, suffix.2.2⟩

/-- `sfi_parse_def_attr`, of a text without NUL. -/
def parseDefAttr (text : List UInt8) : Fallible Heap SfError DefParts := do
  let s := trim isBlank text
  check (s ≠ []) .badMagic
  let rest := (s.dropWhile fun b => !isBlank b).dropWhile isBlank
  check (rest ≠ []) .badMagic
  parseDefRest (s.takeWhile fun b => !isBlank b) rest

/-! ## The grammar -/

/-- A number of at most 15 bytes, in the range of `int32_t`. -/
def SpellsInt32 (s : List UInt8) (n : Int32) : Prop := s.length < 16 ∧ denotedInt s = some n.toInt

/-- A name, blanks, and a length in brackets. -/
def ArraySuffix (region name : List UInt8) (length : Int32) : Prop :=
  ∃ w inside, region = name ++ w ++ 0x5B :: (inside ++ [0x5D]) ∧ name ≠ [] ∧ EndsBare isBlank name ∧ Padding isBlank w ∧
    0x5B ∉ inside ∧ SpellsInt32 (trim isBlank inside) length

/-- A name, which may be missing, blanks, and a size behind a colon. -/
def BitSuffix (region name : List UInt8) (bits : Int32) : Prop :=
  ∃ w behind, region = name ++ w ++ 0x3A :: behind ∧ EndsBare isBlank name ∧ Padding isBlank w ∧ 0x3A ∉ behind ∧
    SpellsInt32 (trim isBlank behind) bits

/-- A name with a suffix, or one without. -/
inductive NameSpelling (region : List UInt8) : List UInt8 → Option Int32 → Option Int32 → Prop
  | array {name : List UInt8} {length : Int32} (h : ArraySuffix region name length) :
      NameSpelling region name none (some length)
  | bits {name : List UInt8} {bits : Int32} (hne : name ≠ []) (h : BitSuffix region name bits) :
      NameSpelling region name (some bits) none
  | plain (hne : region ≠ []) (harray : ∀ name length, ¬ ArraySuffix region name length)
      (hbits : ∀ name bits, ¬ BitSuffix region name bits) : NameSpelling region region none none

/-- What stands before and behind the last equals sign. -/
inductive DefaultSpelling : List UInt8 → List UInt8 → Option (List UInt8) → Prop
  | missing {region : List UInt8} (hno : 0x3D ∉ region) : DefaultSpelling region region none
  | present {region w w' value : List UInt8} (hregion : EndsBare isBlank region) (hw : Padding isBlank w)
      (hw' : Padding isBlank w') (hne : value ≠ []) (hstart : StartsBare isBlank value) (hno : 0x3D ∉ value) :
      DefaultSpelling (region ++ w ++ 0x3D :: (w' ++ value)) region (some value)

/-- A text that declares a field. -/
inductive DefSpelling : List UInt8 → DefParts → Prop
  | field {w1 w2 w3 type rest region name : List UInt8} {default : Option (List UInt8)} {bitSize arrayLength : Option Int32}
      (hw1 : Padding isBlank w1) (htype : type ≠ []) (hblank : ∀ b ∈ type, isBlank b = false) (hw2 : Padding isBlank w2)
      (hsep : w2 ≠ []) (hw3 : Padding isBlank w3) (hstart : StartsBare isBlank rest) (hend : EndsBare isBlank rest)
      (hdefault : DefaultSpelling rest region default) (hname : NameSpelling region name bitSize arrayLength) :
      DefSpelling (w1 ++ (type ++ (w2 ++ rest)) ++ w3) ⟨type, name, default, bitSize, arrayLength⟩

/-! ## Numbers -/

theorem parseInt32Substr_eq_some {s : List UInt8} {n : Int32} : parseInt32Substr s = some n ↔ SpellsInt32 s n := by
  have hlow := n.le_toInt
  have hhigh := n.toInt_lt
  unfold parseInt32Substr SpellsInt32 denotedInt
  rcases hscan : scanLong s with _ | ⟨negative, m, rest⟩
  · simp [strtolInRange, hscan, parsedToEnd]
  · have hne : s ≠ [] := by
      rintro rfl
      cases hscan
    by_cases hfits : -2 ^ 31 ≤ signedValue negative m ∧ signedValue negative m ≤ 2 ^ 31 - 1
    · rw [strtolInRange_eq hscan hfits]
      have hof : Int32.ofInt (signedValue negative m) = n ↔ signedValue negative m = n.toInt := by
        rw [← Int32.toInt_inj, Int32.toInt_ofInt_of_le (by omega) (by omega)]
      cases rest with
      | nil => by_cases hlen : s.length < 16 <;> simp [parsedToEnd, hne, hlen, hof]
      | cons b rest => simp [parsedToEnd]
    · have hout : strtolInRange s = none := by
        rw [strtolInRange, hscan]
        simp only [Option.bind_eq_bind, Option.bind_some, if_neg hfits]
      cases rest with
      | nil =>
          simp only [hout, parsedToEnd, Option.map_none, ite_self, reduceCtorEq, Option.some.injEq, false_iff, not_and]
          intro _ heq
          omega
      | cons b rest => simp [hout, parsedToEnd]

/-- What is read as a number ends in a digit. -/
theorem SpellsInt32.last_digit {s : List UInt8} {n : Int32} (h : SpellsInt32 s n) :
    s ≠ [] ∧ ∀ b ∈ s.getLast?, isDigit b = true := by
  obtain ⟨-, h⟩ := h
  unfold denotedInt at h
  split at h
  · next negative m hscan =>
    constructor
    · rintro rfl
      cases hscan
    · unfold scanLong at hscan
      have hsign : (takeSign (s.dropWhile isSpace)).2 <:+ s.dropWhile isSpace := by
        cases hs : s.dropWhile isSpace with
        | nil => exact List.suffix_refl _
        | cons b t =>
            rw [takeSign]
            split
            · exact List.suffix_cons b t
            · split
              · exact List.suffix_cons b t
              · exact List.suffix_refl _
      dsimp only at hscan
      split at hscan
      · cases hscan
      · next hne =>
        have hend := (Prod.mk.inj (Prod.mk.inj (Option.some.inj hscan)).2).2
        exact digit_of_digits (hsign.trans (List.dropWhile_suffix _)) hne hend
  · cases h

/-! ## Suffixes of a name -/

section Suffixes

variable {region name : List UInt8} {n : Int32}

theorem splitSuffix_array (h : ArraySuffix region name n) : splitSuffix region = (name, none, some n) := by
  obtain ⟨w, inside, rfl, hne, hend, hw, hno, hnumber⟩ := h
  have hlast : (name ++ w ++ 0x5B :: (inside ++ [0x5D])).getLast? = some 0x5D := by
    rw [← List.cons_append, ← List.append_assoc, List.getLast?_concat]
  have hsplit := splitLast_append (c := 0x5B) (name ++ w) (show 0x5B ∉ inside ++ [0x5D] by simpa using hno)
  have hbefore : ¬ name ++ w = [] := fun hnil => hne (List.append_eq_nil_iff.1 hnil).1
  rw [splitSuffix, if_pos hlast, hsplit]
  simp only [if_neg hbefore, List.dropLast_concat, parseInt32Substr_eq_some.2 hnumber, rdropWhile_padded hw hend]

theorem splitSuffix_bits (h : BitSuffix region name n) : splitSuffix region = (name, some n, none) := by
  obtain ⟨w, behind, rfl, hend, hw, hno, hnumber⟩ := h
  obtain ⟨hne, hdigit⟩ := hnumber.last_digit
  have hbehind : behind ≠ [] := by
    rintro rfl
    exact hne rfl
  have hlast : ¬ (name ++ w ++ 0x3A :: behind).getLast? = some 0x5D := by
    intro hlast
    rw [List.getLast?_append_of_ne_nil _ (List.cons_ne_nil _ _), List.getLast?_cons_of_ne_nil hbehind] at hlast
    have hbracket := hdigit _ (getLast?_trim (p := isBlank) (Option.mem_def.2 hlast) (by decide))
    cases hbracket
  rw [splitSuffix, if_neg hlast, splitLast_append _ hno]
  simp only [parseInt32Substr_eq_some.2 hnumber, rdropWhile_padded hw hend]

/-- A suffix is found, or the name stays as it is. -/
theorem splitSuffix_cases (hstart : StartsBare isBlank region) :
    splitSuffix region = (region, none, none) ∨
      (∃ name n, splitSuffix region = (name, none, some n) ∧ ArraySuffix region name n) ∨
      ∃ name n, splitSuffix region = (name, some n, none) ∧ BitSuffix region name n := by
  unfold splitSuffix
  split
  · next hlast =>
    split
    · next before behind hsplit =>
      obtain ⟨hregion, hno⟩ := splitLast_eq_some.1 hsplit
      split
      · exact Or.inl rfl
      · next hne =>
        split
        · next length hnumber =>
          refine Or.inr (Or.inl ⟨_, _, rfl, ?_⟩)
          obtain ⟨w, hbefore, hw⟩ := exists_padding_back isBlank before
          -- the bracket that ends the region is behind the other one
          have hclose : behind.dropLast ++ [0x5D] = behind := by
            rw [hregion, List.getLast?_append_of_ne_nil _ (List.cons_ne_nil _ _)] at hlast
            cases behind with
            | nil => cases hlast
            | cons b behind => exact List.dropLast_append_getLast? _ (by rwa [List.getLast?_cons_cons] at hlast)
          refine ⟨w, behind.dropLast, ?_, ?_, endsBare_rdropWhile _ _, hw, ?_, parseInt32Substr_eq_some.1 hnumber⟩
          · rw [← hbefore, hclose, hregion]
          · intro hnil
            rw [hnil, List.nil_append] at hbefore
            cases before with
            | nil => exact hne rfl
            | cons b before =>
                have hbare : isBlank b = false := hstart b (by rw [hregion]; rfl)
                rw [hw b (by rw [← hbefore]; exact List.mem_cons_self)] at hbare
                cases hbare
          · intro hmem
            exact hno (List.dropLast_subset _ hmem)
        · exact Or.inl rfl
    · exact Or.inl rfl
  · split
    · next before behind hsplit =>
      obtain ⟨hregion, hno⟩ := splitLast_eq_some.1 hsplit
      split
      · next bits hnumber =>
        obtain ⟨w, hbefore, hw⟩ := exists_padding_back isBlank before
        refine Or.inr (Or.inr ⟨_, _, rfl, w, behind, ?_, endsBare_rdropWhile _ _, hw, hno, parseInt32Substr_eq_some.1 hnumber⟩)
        rw [← hbefore, hregion]
      · exact Or.inl rfl
    · exact Or.inl rfl

theorem splitSuffix_iff (hstart : StartsBare isBlank region) {bits length : Option Int32} :
    splitSuffix region = (name, bits, length) ∧ name ≠ [] ↔ NameSpelling region name bits length := by
  constructor
  · rintro ⟨hsplit, hne⟩
    rcases splitSuffix_cases hstart with hplain | ⟨name', n, hfound, harray⟩ | ⟨name', n, hfound, hbits⟩
    · rw [hplain] at hsplit
      cases hsplit
      refine .plain hne (fun name n h => ?_) fun name n h => ?_
      · rw [splitSuffix_array h] at hplain
        cases hplain
      · rw [splitSuffix_bits h] at hplain
        cases hplain
    · rw [hfound] at hsplit
      cases hsplit
      exact .array harray
    · rw [hfound] at hsplit
      cases hsplit
      exact .bits hne hbits
  · intro h
    cases h with
    | array h =>
        refine ⟨splitSuffix_array h, ?_⟩
        obtain ⟨_, _, -, hne, -⟩ := h
        exact hne
    | bits hne h => exact ⟨splitSuffix_bits h, hne⟩
    | plain hne harray hbits =>
        rcases splitSuffix_cases hstart with hplain | ⟨name', n, -, h⟩ | ⟨name', n, -, h⟩
        · exact ⟨hplain, hne⟩
        · exact absurd h (harray name' n)
        · exact absurd h (hbits name' n)

end Suffixes

/-! ## Defaults -/

theorem splitDefault_iff {s region : List UInt8} {default : Option (List UInt8)} (hend : EndsBare isBlank s) :
    splitDefault s = .ok (region, default) ↔ DefaultSpelling s region default := by
  unfold splitDefault
  constructor
  · intro h
    split at h
    · next hnone =>
      cases h
      exact .missing (splitLast_eq_none.1 hnone)
    · next before behind hsplit =>
      obtain ⟨rfl, hno⟩ := splitLast_eq_some.1 hsplit
      split at h
      · cases h
      · next hne =>
        cases h
        have hbare : EndsBare isBlank behind := hend.of_suffix ⟨before ++ [0x3D], by simp⟩
        rw [trim_of_endsBare hbare] at hne ⊢
        obtain ⟨w, hbefore, hw⟩ := exists_padding_back isBlank before
        obtain ⟨w', hbehind, hw'⟩ := exists_padding isBlank behind
        have hvalue : 0x3D ∉ behind.dropWhile isBlank := fun hmem => hno ((List.dropWhile_sublist _).mem hmem)
        have hspelled := DefaultSpelling.present (endsBare_rdropWhile isBlank before) hw hw' hne
          (startsBare_dropWhile isBlank behind) hvalue
        rwa [← hbefore, ← hbehind] at hspelled
  · intro h
    cases h with
    | missing hno => rw [splitLast_eq_none.2 hno]
    | @present region w w' value hregion hw hw' hne hstart hno =>
        have hno' : 0x3D ∉ w' ++ value := by
          intro hmem
          rcases List.mem_append.1 hmem with hmem | hmem
          · have hblank := hw' _ hmem
            cases hblank
          · exact hno hmem
        have hbare : EndsBare isBlank value := hend.of_suffix ⟨region ++ w ++ 0x3D :: w', by simp⟩
        have htrim : trim isBlank (w' ++ value) = value := by
          have hpadded := trim_padded hw' padding_nil hstart hbare
          rwa [List.append_nil] at hpadded
        rw [splitLast_append _ hno']
        simp only [htrim, if_neg hne, rdropWhile_padded hw hregion]

theorem DefaultSpelling.ne_nil {s region : List UInt8} {default : Option (List UInt8)} (h : DefaultSpelling s region default)
    (hne : region ≠ []) : s ≠ [] := by
  cases h with
  | missing hno => exact hne
  | present hregion hw hw' hvalue hstart hno => simp

/-- The name starts where what was split starts. -/
theorem DefaultSpelling.startsBare {s region : List UInt8} {default : Option (List UInt8)}
    (h : DefaultSpelling s region default) (hs : StartsBare isBlank s) : StartsBare isBlank region := by
  cases h with
  | missing hno => exact hs
  | @present region w w' value hregion hw hw' hvalue hstart hno =>
      exact hs.initial ⟨w ++ 0x3D :: (w' ++ value), by simp⟩

theorem NameSpelling.ne_nil {region name : List UInt8} {bits length : Option Int32} (h : NameSpelling region name bits length) :
    region ≠ [] := by
  cases h with
  | array h =>
      obtain ⟨w, inside, rfl, -⟩ := h
      simp
  | bits hne h =>
      obtain ⟨w, behind, rfl, -⟩ := h
      simp
  | plain hne harray hbits => exact hne

/-! ## What is accepted -/

section Accepting

variable {heap : Heap}

theorem parseDefRest_iff (type : List UInt8) {s : List UInt8} (hcalm : heap.Calm) (hstart : StartsBare isBlank s)
    (hend : EndsBare isBlank s) (parts : DefParts) :
    (parseDefRest type s heap).1 = .ok parts ↔ parts.type = type ∧
      ∃ region, DefaultSpelling s region parts.default ∧ NameSpelling region parts.name parts.bitSize parts.arrayLength := by
  obtain ⟨junk, heap', halloc, -⟩ := Heap.alloc_calm hcalm
  unfold parseDefRest
  rcases hdefault : splitDefault s with e | ⟨region, default⟩
  · refine iff_of_false nofun ?_
    rintro ⟨-, region, hspelled, -⟩
    rw [(splitDefault_iff hend).2 hspelled] at hdefault
    cases hdefault
  · have hspelled := (splitDefault_iff hend).1 hdefault
    have hregion := hspelled.startsBare hstart
    rw [bind_ok (lift_run _ _)]
    dsimp only
    by_cases hne : (splitSuffix region).1 ≠ []
    · rw [check_bind_pos hne, bind_ok halloc]
      constructor
      · intro h
        cases h
        exact ⟨rfl, region, hspelled, (splitSuffix_iff hregion).1 ⟨rfl, hne⟩⟩
      · rintro ⟨htype, region', hspelled', hname⟩
        obtain ⟨type', name', default', bits', length'⟩ := parts
        have hsame := hdefault.symm.trans ((splitDefault_iff hend).2 hspelled')
        cases hsame
        rw [((splitSuffix_iff hregion).2 hname).1, show type' = type from htype]
        rfl
    · rw [check_bind_neg hne]
      refine iff_of_false nofun ?_
      rintro ⟨-, region', hspelled', hname⟩
      have hsame := hdefault.symm.trans ((splitDefault_iff hend).2 hspelled')
      cases hsame
      obtain ⟨hfound, hne'⟩ := (splitSuffix_iff hregion).2 hname
      rw [hfound] at hne
      exact hne hne'

theorem parseDefRest_error {type s : List UInt8} {e : SfError} (hcalm : heap.Calm)
    (h : (parseDefRest type s heap).1 = .error e) : e = .badMagic := by
  obtain ⟨junk, heap', halloc, -⟩ := Heap.alloc_calm hcalm
  unfold parseDefRest at h
  rcases hdefault : splitDefault s with e' | ⟨region, default⟩
  · rw [hdefault] at h
    cases h
    unfold splitDefault at hdefault
    split at hdefault
    · cases hdefault
    · split at hdefault
      · cases hdefault
        rfl
      · cases hdefault
  · rw [hdefault, bind_ok (lift_run _ _)] at h
    dsimp only at h
    by_cases hne : (splitSuffix region).1 ≠ []
    · rw [check_bind_pos hne, bind_ok halloc] at h
      cases h
    · rw [check_bind_neg hne] at h
      cases h
      rfl

/-- How a text that is trimmed falls into a type, blanks and a rest. -/
theorem type_split {s : List UInt8} (hs : s ≠ []) (hstart : StartsBare isBlank s)
    (hrest : (s.dropWhile fun b => !isBlank b).dropWhile isBlank ≠ []) :
    ∃ w, s = s.takeWhile (fun b => !isBlank b) ++ (w ++ (s.dropWhile fun b => !isBlank b).dropWhile isBlank) ∧
      s.takeWhile (fun b => !isBlank b) ≠ [] ∧ Padding isBlank w ∧ w ≠ [] := by
  obtain ⟨w, hw, hblank⟩ := exists_padding isBlank (s.dropWhile fun b => !isBlank b)
  refine ⟨w, ?_, ?_, hblank, ?_⟩
  · rw [← hw, List.takeWhile_append_dropWhile]
  · cases s with
    | nil => exact absurd rfl hs
    | cons b s =>
        have hb : isBlank b = false := hstart b rfl
        simp [hb]
  · rintro rfl
    -- the first byte behind the type is a blank
    rw [List.nil_append] at hw
    obtain ⟨b, rest, hcons⟩ := List.exists_cons_of_ne_nil hrest
    have hbare := startsBare_dropWhile isBlank (s.dropWhile fun b => !isBlank b) b (by rw [hcons]; rfl)
    have hnot := startsBare_dropWhile (fun b => !isBlank b) s b (by rw [hw, hcons]; rfl)
    simp [hbare] at hnot

theorem parseDefAttr_error {text : List UInt8} {e : SfError} (hcalm : heap.Calm)
    (h : (parseDefAttr text heap).1 = .error e) : e = .badMagic := by
  unfold parseDefAttr at h
  dsimp only at h
  by_cases hne : trim isBlank text ≠ []
  · rw [check_bind_pos hne] at h
    by_cases hrest : ((trim isBlank text).dropWhile fun b => !isBlank b).dropWhile isBlank ≠ []
    · rw [check_bind_pos hrest] at h
      exact parseDefRest_error hcalm h
    · rw [check_bind_neg hrest] at h
      cases h
      rfl
  · rw [check_bind_neg hne] at h
    cases h
    rfl

/-- The text of a spelled field falls into the parts that it was made of. -/
theorem DefSpelling.trim_split {w1 w2 w3 type rest : List UInt8} (hw1 : Padding isBlank w1) (htype : type ≠ [])
    (hblank : ∀ b ∈ type, isBlank b = false) (hw2 : Padding isBlank w2) (hsep : w2 ≠ []) (hw3 : Padding isBlank w3)
    (hstart : StartsBare isBlank rest) (hend : EndsBare isBlank rest) (hrest : rest ≠ []) :
    let s := trim isBlank (w1 ++ (type ++ (w2 ++ rest)) ++ w3)
    s ≠ [] ∧ s.takeWhile (fun b => !isBlank b) = type ∧ (s.dropWhile fun b => !isBlank b).dropWhile isBlank = rest := by
  have hbareType : StartsBare isBlank type := fun b hb => hblank b (List.mem_of_mem_head? hb)
  have htrim : trim isBlank (w1 ++ (type ++ (w2 ++ rest)) ++ w3) = type ++ (w2 ++ rest) := by
    refine trim_padded hw1 hw3 (startsBare_append hbareType htype _) ?_
    rw [← List.append_assoc]
    exact endsBare_append hend hrest _
  have hstop : StartsBare (fun b => !isBlank b) (w2 ++ rest) := by
    obtain ⟨b, w, rfl⟩ := List.exists_cons_of_ne_nil hsep
    intro c hc
    cases hc
    simp [hw2 b List.mem_cons_self]
  have hpad : Padding (fun b => !isBlank b) type := fun b hb => by simp [hblank b hb]
  obtain ⟨htake, hdrop⟩ := span_append hpad hstop
  rw [htrim]
  refine ⟨by simp [htype], htake, ?_⟩
  rw [hdrop]
  exact dropWhile_padded hw2 hstart

/-- **Def attributes**: a text that declares a field, and no other, is accepted, and its parts are the ones that it
    spells. Any other text is refused as malformed. -/
theorem def_attr_accepted_iff (text : List UInt8) (heap : Heap) (hcalm : heap.Calm) :
    (∀ parts, (parseDefAttr text heap).1 = .ok parts ↔ DefSpelling text parts) ∧
      ((∀ parts, ¬ DefSpelling text parts) → (parseDefAttr text heap).1 = .error .badMagic) := by
  have haccepted : ∀ parts, (parseDefAttr text heap).1 = .ok parts ↔ DefSpelling text parts := by
    intro parts
    constructor
    · intro h
      unfold parseDefAttr at h
      dsimp only at h
      by_cases hne : trim isBlank text ≠ []
      · rw [check_bind_pos hne] at h
        by_cases hrest : ((trim isBlank text).dropWhile fun b => !isBlank b).dropWhile isBlank ≠ []
        · rw [check_bind_pos hrest] at h
          obtain ⟨w1, w3, htext, hw1, hw3⟩ := exists_paddings isBlank text
          obtain ⟨w2, hsplit, htype, hw2, hsep⟩ := type_split hne (startsBare_trim isBlank text) hrest
          have hbare := startsBare_dropWhile isBlank ((trim isBlank text).dropWhile fun b => !isBlank b)
          have hend : EndsBare isBlank (((trim isBlank text).dropWhile fun b => !isBlank b).dropWhile isBlank) :=
            (endsBare_trim isBlank text).of_suffix ((List.dropWhile_suffix _).trans (List.dropWhile_suffix _))
          obtain ⟨hparts, region, hdefault, hname⟩ := (parseDefRest_iff _ hcalm hbare hend parts).1 h
          have hblank : ∀ b ∈ (trim isBlank text).takeWhile (fun b => !isBlank b), isBlank b = false := fun b hb => by
            simpa using List.mem_takeWhile_imp hb
          have hspelled := DefSpelling.field hw1 htype hblank hw2 hsep hw3 hbare hend hdefault hname
          rw [← hsplit, ← htext, ← hparts] at hspelled
          exact hspelled
        · rw [check_bind_neg hrest] at h
          cases h
      · rw [check_bind_neg hne] at h
        cases h
    · intro h
      cases h with
      | @field w1 w2 w3 type rest region name default bits length hw1 htype hblank hw2 hsep hw3 hstart hend hdefault hname =>
          obtain ⟨hne, htake, hdrop⟩ := DefSpelling.trim_split hw1 htype hblank hw2 hsep hw3 hstart hend
            (hdefault.ne_nil hname.ne_nil)
          unfold parseDefAttr
          dsimp only
          rw [check_bind_pos hne, htake, hdrop, check_bind_pos (hdefault.ne_nil hname.ne_nil)]
          exact (parseDefRest_iff type hcalm hstart hend _).2 ⟨rfl, region, hdefault, hname⟩
  refine ⟨haccepted, fun hnone => ?_⟩
  rcases hrun : (parseDefAttr text heap).1 with e | parts
  · rw [parseDefAttr_error hcalm hrun]
  · exact absurd ((haccepted parts).1 hrun) (hnone parts)

/-- A size in bits and a default, with blanks between all parts. -/
theorem flags_attr_accepted : DefSpelling (cstr " u8  flags : 3 = 1\t") ⟨cstr "u8", cstr "flags", some (cstr "1"), some 3, none⟩ := by
  have hrun : (parseDefAttr (cstr " u8  flags : 3 = 1\t") []).1 =
      .ok ⟨cstr "u8", cstr "flags", some (cstr "1"), some 3, none⟩ := by decide +kernel
  exact ((def_attr_accepted_iff _ [] Heap.calm_nil).1 _).1 hrun

end Accepting

end SoulsFormats
