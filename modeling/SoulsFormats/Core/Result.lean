import Mathlib.Data.List.Sort
import Mathlib.Data.List.TakeWhile
import SoulsFormats.Library.Fallible
import SoulsFormats.Library.Bytes

set_option autoImplicit false

/-! # Result codes, C strings, `qsort` and the allocator

`SfError` is the non-zero part of `sf_result_t`. The allocator is the only part of the environment
that decides a result: `Heap` lists its answers to the requests still to come, so that a statement
over every `Heap` covers every pattern of failing allocations. -/

namespace SoulsFormats

/-- The error codes of `sf_result_t`; `SF_OK` is the success case of `Except`. The last two are no
    codes: a C run that reaches them has no result. -/
inductive SfError where
  | invalidArg
  | oom
  | io
  | badMagic
  | unsupportedVersion
  | truncated
  | outOfRange
  | decompress
  | oodleNotFound
  | crypto
  | notFound
  | alreadyExists
  | invalidState
  | unsupported
  | internal
  | undefinedBehaviour
  | nonTermination
deriving DecidableEq, Repr

/-- `SIZE_MAX` of a 64-bit target. -/
def SIZE_MAX : Nat := 2 ^ 64 - 1

/-- `INT32_MAX`. -/
def INT32_MAX : Nat := 2 ^ 31 - 1

/-- `UINT32_MAX`. -/
def UINT32_MAX : Nat := 2 ^ 32 - 1

/-- The bytes of a C string literal, without its terminator. -/
def cstr (s : String) : List UInt8 := s.toList.map fun c => UInt8.ofNat c.toNat

/-- What `strlen` and `strcmp` see of a buffer: the bytes before the first NUL. -/
def cText (s : List UInt8) : List UInt8 := s.takeWhile (· ≠ 0)

theorem cText_eq_self {s : List UInt8} (h : ∀ b ∈ s, b ≠ 0) : cText s = s := by
  rw [cText, List.takeWhile_eq_self_iff]
  intro b hb
  simpa using h b hb

/-- What `snprintf` prints for `%zu` and for `%d` of a number that is not negative. -/
def decimal (n : Nat) : List UInt8 := (Nat.toDigits 10 n).map fun c => UInt8.ofNat c.toNat

/-- A name with a number, such as `"Offset%zu"`. -/
def label (base : String) (n : Nat) : List UInt8 := cstr base ++ decimal n

theorem decimal_inj {m n : Nat} (h : decimal m = decimal n) : m = n := by
  have hback : ∀ n, (decimal n).map (fun b => Char.ofNat b.toNat) = Nat.toDigits 10 n := by
    intro n
    rw [decimal, List.map_map]
    refine (List.map_congr_left fun c hc => ?_).trans (List.map_id _)
    have hdigit := Nat.isDigit_of_mem_toDigits (by decide) (by decide) hc
    have hsmall : c.toNat < 256 := by
      simp only [Char.isDigit, Bool.and_eq_true, decide_eq_true_eq, UInt32.le_iff_toNat_le] at hdigit
      exact lt_of_le_of_lt hdigit.2 (by decide)
    simp only [Function.comp_apply, UInt8.toNat_ofNat_of_lt' hsmall, Char.ofNat_toNat, id_eq]
  have hdigits : Nat.toDigits 10 m = Nat.toDigits 10 n := by rw [← hback m, h, hback n]
  have hvalue := congrArg (fun cs => Nat.ofDigitChars 10 cs 0) hdigits
  simpa only [Nat.ofDigitChars_ten_toDigits] using hvalue

/-- A digit of `%X`. -/
def hexDigit (c : Char) : UInt8 := UInt8.ofNat c.toUpper.toNat

/-- The number that hexadecimal digits spell. -/
def hexValue (bs : List UInt8) : Nat :=
  bs.foldl (fun v b => 16 * v + (if b < 0x3A then b.toNat - 0x30 else b.toNat - 0x37)) 0

theorem hexValue_digits (n : Nat) : hexValue ((Nat.toDigits 16 n).map hexDigit) = n := by
  have hdigit : ∀ d < 16, hexValue [hexDigit (Nat.digitChar d)] = d := by decide
  induction n using Nat.strongRecOn with
  | ind n ih =>
      by_cases hn : n < 16
      · rw [Nat.toDigits_of_lt_base hn]
        exact hdigit n hn
      · rw [Nat.toDigits_of_base_le (by decide) (by omega)]
        have hhigh := ih (n / 16) (by omega)
        have hlow := hdigit (n % 16) (Nat.mod_lt _ (by decide))
        simp only [hexValue, List.map_append, List.map_cons, List.map_nil, List.foldl_append, List.foldl_cons,
          List.foldl_nil] at hhigh hlow ⊢
        rw [hhigh]
        omega

/-- A decimal digit. -/
def isDigit (b : UInt8) : Bool := 0x30 ≤ b && b ≤ 0x39

theorem isDigit_eq_false_of_any {o : Option UInt8} (h : o.any isDigit = false) :
    ∀ b ∈ o, isDigit b = false := by
  rintro b ⟨⟩
  exact h

theorem isDigit_of_mem_decimal {n : Nat} : ∀ b ∈ decimal n, isDigit b = true := by
  intro b hb
  obtain ⟨c, hc, rfl⟩ := List.mem_map.1 hb
  have hdigit := Nat.isDigit_of_mem_toDigits (by decide) (by decide) hc
  simp only [Char.isDigit, Bool.and_eq_true, decide_eq_true_eq, UInt32.le_iff_toNat_le] at hdigit
  have hlow : 48 ≤ c.toNat := hdigit.1
  have hhigh : c.toNat ≤ 57 := hdigit.2
  simp only [isDigit, Bool.and_eq_true, decide_eq_true_eq, UInt8.le_iff_toNat_le,
    UInt8.toNat_ofNat']
  have h48 : (48 : UInt8).toNat = 48 := rfl
  have h57 : (57 : UInt8).toNat = 57 := rfl
  omega

theorem decimal_ne_nil (n : Nat) : decimal n ≠ [] := by
  rw [decimal, Ne, List.map_eq_nil_iff]
  exact Nat.toDigits_ne_nil

/-- A number ends where the digits end. -/
theorem decimal_append_inj {m n : Nat} {x y : List UInt8} (hx : ∀ b ∈ x.head?, isDigit b = false)
    (hy : ∀ b ∈ y.head?, isDigit b = false) (h : decimal m ++ x = decimal n ++ y) :
    m = n ∧ x = y := by
  have htake : ∀ (k : Nat) (z : List UInt8), (∀ b ∈ z.head?, isDigit b = false) →
      (decimal k ++ z).takeWhile isDigit = decimal k := by
    intro k z hz
    rw [List.takeWhile_append_of_pos isDigit_of_mem_decimal]
    rcases z with _ | ⟨b, z⟩
    · simp
    · rw [List.takeWhile_cons_of_neg (by simp [hz b rfl]), List.append_nil]
  have hdec : decimal m = decimal n := by rw [← htake m x hx, h, htake n y hy]
  exact ⟨decimal_inj hdec, by rw [hdec] at h; exact List.append_cancel_left h⟩

theorem label_inj {base : String} {m n : Nat} (h : label base m = label base n) : m = n :=
  decimal_inj (List.append_cancel_left h)

/-- `qsort`, which does not say in what order it leaves equal elements: some way to permute a list
    into an order that a comparison function consistent with a key describes. -/
structure Qsort where
  sort : {α : Type} → (α → α → Int) → List α → List α
  perm : ∀ {α : Type} (compare : α → α → Int) (l : List α), (sort compare l).Perm l
  sorted : ∀ {α : Type} (compare : α → α → Int) (key : α → Int),
    (∀ a b, compare a b ≤ 0 ↔ key a ≤ key b) →
    ∀ l, (sort compare l).Pairwise fun a b => key a ≤ key b

/-- The stable sort by insertion. -/
def Qsort.insertion : Qsort where
  sort compare l := l.insertionSort fun a b => compare a b ≤ 0
  perm _ l := List.perm_insertionSort _ l
  sorted := by
    intro α compare key hkey l
    have htotal : Std.Total fun a b => compare a b ≤ 0 := by
      refine ⟨fun a b => ?_⟩
      rw [hkey, hkey]
      exact le_total _ _
    have htrans : IsTrans α fun a b => compare a b ≤ 0 := by
      refine ⟨fun a b c => ?_⟩
      rw [hkey, hkey, hkey]
      exact le_trans
    exact (List.pairwise_insertionSort _ l).imp fun h => (hkey _ _).1 h

/-- The answers of the allocator to the requests to come: `none` refuses, `some junk` grants a block
    that holds `junk`. When the list is used up every request is granted. -/
abbrev Heap := List (Option (List UInt8))

namespace Heap

/-- One request to the allocator; the value is what the granted block holds. -/
def alloc : Fallible Heap SfError (List UInt8)
  | [] => (.ok [], [])
  | some junk :: rest => (.ok junk, rest)
  | none :: rest => (.error .oom, rest)

/-- The next request is granted. -/
def Grants (h : Heap) : Prop := ∀ rest, h ≠ none :: rest

/-- Every request is granted. -/
def Calm (h : Heap) : Prop := none ∉ h

instance (h : Heap) : Decidable h.Grants :=
  match h with
  | [] => isTrue fun _ => nofun
  | some _ :: _ => isTrue fun _ => nofun
  | none :: rest => isFalse fun hg => hg rest rfl

theorem calm_nil : Calm [] := List.not_mem_nil

theorem Calm.grants {h : Heap} (hc : h.Calm) : h.Grants := by
  rintro rest rfl
  exact hc List.mem_cons_self

theorem alloc_nil : alloc [] = (.ok [], []) := rfl

theorem alloc_of_grants {h : Heap} (hg : h.Grants) : ∃ junk, (alloc h).1 = .ok junk := by
  match h with
  | [] => exact ⟨[], rfl⟩
  | some junk :: _ => exact ⟨junk, rfl⟩
  | none :: rest => exact absurd rfl (hg rest)

theorem alloc_of_not_grants {h : Heap} (hg : ¬ h.Grants) : (alloc h).1 = .error .oom := by
  match h with
  | [] => exact absurd (fun _ => nofun) hg
  | some _ :: _ => exact absurd (fun _ => nofun) hg
  | none :: _ => rfl

theorem alloc_calm {h : Heap} (hc : h.Calm) : ∃ junk h', alloc h = (.ok junk, h') ∧ h'.Calm := by
  match h with
  | [] => exact ⟨[], [], rfl, calm_nil⟩
  | some junk :: rest => exact ⟨junk, rest, rfl, fun hmem => hc (List.mem_cons_of_mem _ hmem)⟩
  | none :: rest => exact absurd List.mem_cons_self hc

theorem alloc_keeps : Fallible.Keeps Calm alloc := by
  intro h hcalm
  obtain ⟨junk, h', halloc, hcalm'⟩ := alloc_calm hcalm
  rwa [halloc]

/-- What a request does not change. -/
class Kept (I : Heap → Prop) : Prop where
  keeps : Fallible.Keeps I alloc

instance : Kept Calm := ⟨alloc_keeps⟩

/-- An allocator that grants everything from now on goes on like that. -/
instance : Kept fun h => h = [] := ⟨by rintro _ rfl; rfl⟩

/-- A request fails only as a refusal, and leaves a calm heap calm. -/
theorem alloc_error {h h' : Heap} {e : SfError} (hrun : alloc h = (.error e, h')) :
    e = .oom ∧ ¬ h.Calm := by
  match h with
  | [] => cases hrun
  | some _ :: _ => cases hrun
  | none :: _ =>
      cases hrun
      exact ⟨rfl, fun hc => hc List.mem_cons_self⟩

end Heap

end SoulsFormats
