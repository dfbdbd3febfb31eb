import SoulsFormats.Core.Result

set_option autoImplicit false

/-! # Code pages

The conversions of `sf_encoding.h`, as `encoding_win32.c` computes them from the two Win32
functions. What Win32 converts is a parameter (`Win32`); what is done around it — the empty input,
the lengths checked, the terminator, the byte order of the code units — is the code of this library.
A conversion asks the allocator for its buffers, so it runs over the `Heap`. -/

namespace SoulsFormats

open Bytes Fallible

/-- The code pages the library converts with: `CP_UTF8`, 20127 and 932. -/
inductive CodePage where
  | utf8
  | usAscii
  | shiftJis
deriving DecidableEq, Repr

/-- The two Win32 conversions. A return value of 0 (input that is invalid or does not fit) is the
    empty list; every call to `MultiByteToWideChar` passes `MB_ERR_INVALID_CHARS`. -/
structure Win32 where
  MultiByteToWideChar : CodePage → List UInt8 → List UInt16
  WideCharToMultiByte : CodePage → List UInt16 → List UInt8

/-- The conversions on ASCII text, where the three code pages agree; everything else is refused. -/
def Win32.ascii : Win32 where
  MultiByteToWideChar _ bs := if bs.all fun b => decide (b < 0x80) then bs.map UInt8.toUInt16 else []
  WideCharToMultiByte _ us := if us.all fun u => decide (u < 0x80) then us.map UInt16.toUInt8 else []

/-- The conversions on ASCII text and the letter U+0E01 (Thai Ko Kai), for which the other code pages have
    no character: they store a question mark. -/
def Win32.questionMark : Win32 where
  MultiByteToWideChar cp bs :=
    if cp = .utf8 ∧ bs = [0xE0, 0xB8, 0x81] then [0x0E01]
    else Win32.ascii.MultiByteToWideChar cp bs
  WideCharToMultiByte cp us :=
    if us = [0x0E01] then (if cp = .utf8 then [0xE0, 0xB8, 0x81] else [0x3F])
    else Win32.ascii.WideCharToMultiByte cp us

/-! ## UTF-16 code units -/

/-- The code units a byte string holds; a trailing odd byte is dropped. -/
def codeUnits (big : Bool) : List UInt8 → List UInt16
  | a :: b :: rest => UInt16.ofNat (wordNat big [a, b]) :: codeUnits big rest
  | _ => []

/-- The bytes of a list of code units. -/
def unitBytes (big : Bool) (us : List UInt16) : List UInt8 :=
  us.flatMap fun u => wordBytes big 2 u.toNat

/-- The in-place swap of `sf_utf8_to_utf16be`. -/
def swapPairs : List UInt8 → List UInt8
  | a :: b :: rest => b :: a :: swapPairs rest
  | rest => rest

@[simp] theorem unitBytes_nil (big : Bool) : unitBytes big [] = [] := rfl

theorem unitBytes_cons (big : Bool) (u : UInt16) (us : List UInt16) :
    unitBytes big (u :: us) = wordBytes big 2 u.toNat ++ unitBytes big us := rfl

@[simp] theorem length_unitBytes (big : Bool) (us : List UInt16) :
    (unitBytes big us).length = 2 * us.length := by
  induction us with
  | nil => rfl
  | cons u us ih =>
      rw [unitBytes_cons, List.length_append, ih, length_wordBytes, List.length_cons]
      omega

/-- The two bytes of a code unit. -/
theorem wordBytes_two (big : Bool) (v : Nat) :
    wordBytes big 2 v = if big then [UInt8.ofNat (v / 256), UInt8.ofNat v]
      else [UInt8.ofNat v, UInt8.ofNat (v / 256)] := by
  cases big <;> rfl

theorem codeUnits_wordBytes_append (big : Bool) (u : UInt16) (rest : List UInt8) :
    codeUnits big (wordBytes big 2 u.toNat ++ rest) = u :: codeUnits big rest := by
  have hword := wordNat_wordBytes big 2 u.toNat
  have hu : u.toNat % 256 ^ 2 = u.toNat := Nat.mod_eq_of_lt u.toNat_lt
  rw [hu] at hword
  rw [wordBytes_two] at hword ⊢
  cases big <;>
    simp only [if_true, if_false, Bool.false_eq_true, List.cons_append, List.nil_append,
      codeUnits] at hword ⊢ <;>
    rw [hword, UInt16.ofNat_toNat]

theorem codeUnits_unitBytes (big : Bool) (us : List UInt16) :
    codeUnits big (unitBytes big us) = us := by
  induction us with
  | nil => rfl
  | cons u us ih => rw [unitBytes_cons, codeUnits_wordBytes_append, ih]

theorem swapPairs_unitBytes (us : List UInt16) :
    swapPairs (unitBytes false us) = unitBytes true us := by
  induction us with
  | nil => rfl
  | cons u us ih =>
      rw [unitBytes_cons, unitBytes_cons, wordBytes_two, wordBytes_two, ← ih]
      rfl

/-! ## Decoding to UTF-8 -/

section Decoding

variable (os : Win32)

def mbcsToUtf8 (cp : CodePage) (input : List UInt8) : Fallible Heap SfError (List UInt8) :=
  if input.length = 0 then do
    let _ ← Heap.alloc
    pure []
  else do
    check (input.length ≤ INT32_MAX) .outOfRange
    let wbuf := os.MultiByteToWideChar cp input
    check (0 < wbuf.length) .invalidArg
    let _ ← Heap.alloc
    let out := os.WideCharToMultiByte .utf8 wbuf
    check (0 < out.length) .invalidArg
    let _ ← Heap.alloc
    pure out

def utf16ToUtf8 (bigEndian : Bool) (input : List UInt8) : Fallible Heap SfError (List UInt8) := do
  let wsrc := codeUnits bigEndian input
  if wsrc.length = 0 then do
    let _ ← Heap.alloc
    pure []
  else do
    check (wsrc.length ≤ INT32_MAX) .outOfRange
    -- only the byte-swapped copy of a big-endian input needs a buffer of its own
    if bigEndian then do
      let _ ← Heap.alloc
    let out := os.WideCharToMultiByte .utf8 wsrc
    check (0 < out.length) .invalidArg
    let _ ← Heap.alloc
    pure out

/-- Bytes from 0x80 on become a question mark; the fast path of the source copies the others too. -/
def asciiToUtf8 (input : List UInt8) : Fallible Heap SfError (List UInt8) :=
  if input.length = 0 then do
    let _ ← Heap.alloc
    pure []
  else do
    check (input.length ≠ SIZE_MAX) .outOfRange
    let _ ← Heap.alloc
    pure (input.map fun b => if b < 0x80 then b else 0x3F)

def shiftJisToUtf8 : List UInt8 → Fallible Heap SfError (List UInt8) := mbcsToUtf8 os .shiftJis

def utf16leToUtf8 : List UInt8 → Fallible Heap SfError (List UInt8) := utf16ToUtf8 os false

def utf16beToUtf8 : List UInt8 → Fallible Heap SfError (List UInt8) := utf16ToUtf8 os true

end Decoding

/-! ## Encoding from UTF-8 -/

section Encoding

variable (os : Win32)

def utf8ToWide (utf8 : List UInt8) : Fallible Heap SfError (List UInt16) :=
  if utf8.length = 0 then pure []
  else do
    check (utf8.length ≤ INT32_MAX) .outOfRange
    let wbuf := os.MultiByteToWideChar .utf8 utf8
    check (0 < wbuf.length) .invalidArg
    let _ ← Heap.alloc
    pure wbuf

/-- `utf8_to_mbcs`. A null pointer stands for the empty string. -/
def utf8ToMbcs (cp : CodePage) (utf8 : Option (List UInt8)) (terminate : Bool) :
    Fallible Heap SfError (List UInt8) := do
  let wbuf ← utf8ToWide os (cText (utf8.getD []))
  let mb := if 0 < wbuf.length then os.WideCharToMultiByte cp wbuf else []
  check (0 < wbuf.length → 0 < mb.length) .invalidArg
  let _ ← Heap.alloc
  pure (mb ++ if terminate then [0] else [])

def utf8ToAscii : Option (List UInt8) → Bool → Fallible Heap SfError (List UInt8) :=
  utf8ToMbcs os .usAscii

def utf8ToShiftJis : Option (List UInt8) → Bool → Fallible Heap SfError (List UInt8) :=
  utf8ToMbcs os .shiftJis

def utf8ToUtf16le (utf8 : Option (List UInt8)) (terminate : Bool) :
    Fallible Heap SfError (List UInt8) := do
  let wbuf ← utf8ToWide os (cText (utf8.getD []))
  let _ ← Heap.alloc
  pure (unitBytes false wbuf ++ if terminate then [0, 0] else [])

def utf8ToUtf16be (utf8 : Option (List UInt8)) (terminate : Bool) :
    Fallible Heap SfError (List UInt8) := do
  let le ← utf8ToUtf16le os utf8 terminate
  pure (swapPairs le)

end Encoding

/-! ## The allocator decides only whether a conversion succeeds -/

/-- What a conversion returns where every request is granted. -/
def granted {α : Type} (m : Fallible Heap SfError α) : Option α :=
  match (m []).1 with
  | .ok a => some a
  | .error _ => none

/-- The computation returns the same value under every heap that lets it succeed, and every calm heap
    does. -/
structure Steady {α : Type} (m : Fallible Heap SfError α) : Prop where
  granted_of_ok : ∀ {h h' : Heap} {a : α}, m h = (.ok a, h') → granted m = some a
  ok_of_granted : ∀ {h : Heap} {a : α}, granted m = some a → h.Calm →
    ∃ h', m h = (.ok a, h') ∧ h'.Calm

section Steady

variable {α β : Type}

theorem granted_eq_some {m : Fallible Heap SfError α} {a : α} :
    granted m = some a ↔ ∃ h, m [] = (.ok a, h) := by
  rw [granted]
  rcases hrun : m [] with ⟨_ | b, h⟩
  · simp
  · simp

theorem Steady.pure (a : α) : Steady (Pure.pure a : Fallible Heap SfError α) := by
  constructor
  · intro h h' b hrun
    cases hrun
    rfl
  · intro h b hb hcalm
    cases hb
    exact ⟨h, rfl, hcalm⟩

theorem Steady.fail (e : SfError) : Steady (Fallible.fail e : Fallible Heap SfError α) := by
  constructor
  · intro h h' b hrun
    cases hrun
  · intro h b hb
    cases hb

theorem Steady.bind {m : Fallible Heap SfError α} {f : α → Fallible Heap SfError β}
    (hm : Steady m) (hf : ∀ a, Steady (f a)) : Steady (m >>= f) := by
  constructor
  · intro h h' b hrun
    obtain ⟨a, h1, hma, hfa⟩ := bind_eq_ok.1 hrun
    obtain ⟨g, hg, hcalm⟩ := hm.ok_of_granted (hm.granted_of_ok hma) Heap.calm_nil
    obtain ⟨g', hg', -⟩ := (hf a).ok_of_granted ((hf a).granted_of_ok hfa) hcalm
    exact granted_eq_some.2 ⟨g', by rw [bind_ok hg, hg']⟩
  · intro h b hb hcalm
    obtain ⟨g, hg⟩ := granted_eq_some.1 hb
    obtain ⟨a, h1, hma, hfa⟩ := bind_eq_ok.1 hg
    obtain ⟨h2, hm2, hcalm2⟩ := hm.ok_of_granted (hm.granted_of_ok hma) hcalm
    obtain ⟨h3, hf3, hcalm3⟩ := (hf a).ok_of_granted ((hf a).granted_of_ok hfa) hcalm2
    exact ⟨h3, by rw [bind_ok hm2, hf3], hcalm3⟩

theorem Steady.check_bind {c : Prop} [Decidable c] {e : SfError} {m : Fallible Heap SfError α}
    (hm : Steady m) : Steady (Fallible.check c e >>= fun _ => m) := by
  by_cases hc : c
  · have heq : (Fallible.check c e >>= fun _ => m) = m := funext fun h => check_bind_pos hc e _ h
    rwa [heq]
  · have heq : (Fallible.check c e >>= fun _ => m) = Fallible.fail e :=
      funext fun h => check_bind_neg hc e _ h
    rw [heq]
    exact Steady.fail e

/-- The junk an allocation returns is not looked at. -/
theorem Steady.alloc_bind {m : Fallible Heap SfError α} (hm : Steady m) :
    Steady (Heap.alloc >>= fun _ => m) := by
  constructor
  · intro h h' a hrun
    obtain ⟨junk, h1, -, hma⟩ := bind_eq_ok.1 hrun
    obtain ⟨g, hg, -⟩ := hm.ok_of_granted (hm.granted_of_ok hma) Heap.calm_nil
    exact granted_eq_some.2 ⟨g, by rw [bind_ok (Heap.alloc_nil), hg]⟩
  · intro h a ha hcalm
    obtain ⟨g, hg⟩ := granted_eq_some.1 ha
    rw [bind_ok Heap.alloc_nil] at hg
    obtain ⟨junk, h1, halloc, hcalm1⟩ := Heap.alloc_calm hcalm
    obtain ⟨h2, hm2, hcalm2⟩ := hm.ok_of_granted (granted_eq_some.2 ⟨g, hg⟩) hcalm1
    exact ⟨h2, by rw [bind_ok halloc, hm2], hcalm2⟩

theorem Steady.ite {c : Prop} [Decidable c] {m n : Fallible Heap SfError α} (hm : Steady m)
    (hn : Steady n) : Steady (if c then m else n) := by
  split
  · exact hm
  · exact hn

theorem mbcsToUtf8_steady (os : Win32) (cp : CodePage) (input : List UInt8) :
    Steady (mbcsToUtf8 os cp input) := by
  refine Steady.ite (Steady.pure _).alloc_bind ?_
  exact Steady.check_bind (Steady.check_bind (Steady.check_bind (Steady.pure _).alloc_bind).alloc_bind)

theorem utf16ToUtf8_steady (os : Win32) (bigEndian : Bool) (input : List UInt8) :
    Steady (utf16ToUtf8 os bigEndian input) := by
  refine Steady.ite (Steady.pure _).alloc_bind (Steady.check_bind ?_)
  have hrest : Steady (do
      let out := os.WideCharToMultiByte .utf8 (codeUnits bigEndian input)
      Fallible.check (0 < out.length) .invalidArg
      let _ ← Heap.alloc
      Pure.pure out) :=
    Steady.check_bind (Steady.pure _).alloc_bind
  exact Steady.ite hrest.alloc_bind hrest

theorem asciiToUtf8_steady (input : List UInt8) : Steady (asciiToUtf8 input) :=
  Steady.ite (Steady.pure _).alloc_bind (Steady.check_bind (Steady.pure _).alloc_bind)

theorem utf8ToWide_steady (os : Win32) (utf8 : List UInt8) : Steady (utf8ToWide os utf8) :=
  Steady.ite (Steady.pure _) (Steady.check_bind (Steady.check_bind (Steady.pure _).alloc_bind))

theorem utf8ToMbcs_steady (os : Win32) (cp : CodePage) (utf8 : Option (List UInt8)) (term : Bool) :
    Steady (utf8ToMbcs os cp utf8 term) :=
  (utf8ToWide_steady os _).bind fun _ => Steady.check_bind (Steady.pure _).alloc_bind

theorem utf8ToUtf16le_steady (os : Win32) (utf8 : Option (List UInt8)) (term : Bool) :
    Steady (utf8ToUtf16le os utf8 term) :=
  (utf8ToWide_steady os _).bind fun _ => (Steady.pure _).alloc_bind

theorem utf8ToUtf16be_steady (os : Win32) (utf8 : Option (List UInt8)) (term : Bool) :
    Steady (utf8ToUtf16be os utf8 term) :=
  (utf8ToUtf16le_steady os utf8 term).bind fun _ => Steady.pure _

end Steady

/-! ## Texts that survive the conversion -/

namespace Win32

variable (os : Win32)

/-- The code units of a UTF-8 text. -/
def units (t : List UInt8) : List UInt16 := if t = [] then [] else os.MultiByteToWideChar .utf8 t

/-- The UTF-8 text of code units. -/
def ofUnits (us : List UInt16) : List UInt8 :=
  if us = [] then [] else os.WideCharToMultiByte .utf8 us

/-- A UTF-8 text in a code page. -/
def encoded (cp : CodePage) (t : List UInt8) : List UInt8 :=
  if os.units t = [] then [] else os.WideCharToMultiByte cp (os.units t)

/-- The UTF-8 text of bytes in a code page. -/
def decoded (cp : CodePage) (x : List UInt8) : List UInt8 :=
  if x = [] then [] else os.ofUnits (os.MultiByteToWideChar cp x)

/-- The code pages extend ASCII. -/
structure AsciiCompatible : Prop where
  widen : ∀ cp t, (∀ b ∈ t, b < 0x80) → os.MultiByteToWideChar cp t = t.map UInt8.toUInt16
  narrow : ∀ cp (t : List UInt8), (∀ b ∈ t, b < 0x80) →
    os.WideCharToMultiByte cp (t.map UInt8.toUInt16) = t

/-- The text can be stored in a code page: it comes back, and neither form has a NUL inside. -/
structure Fits (cp : CodePage) (t : List UInt8) : Prop where
  noNul : ∀ b ∈ t, b ≠ 0
  noNul' : ∀ b ∈ os.encoded cp t, b ≠ 0
  back : os.decoded cp (os.encoded cp t) = t

/-- The text can be stored as UTF-16. -/
structure Fits16 (t : List UInt8) : Prop where
  noNul : ∀ b ∈ t, b ≠ 0
  noNul' : ∀ u ∈ os.units t, u ≠ 0
  back : os.ofUnits (os.units t) = t

variable {os} {cp : CodePage} {t : List UInt8}

/-- A text of ASCII characters without a NUL. -/
def isPlain (t : List UInt8) : Bool := t.all fun b => decide (b < 0x80) && decide (b ≠ 0)

theorem isPlain_iff {t : List UInt8} :
    isPlain t = true ↔ (∀ b ∈ t, b < 0x80) ∧ ∀ b ∈ t, b ≠ 0 := by
  simp only [isPlain, List.all_eq_true, Bool.and_eq_true, decide_eq_true_eq]
  exact ⟨fun h => ⟨fun b hb => (h b hb).1, fun b hb => (h b hb).2⟩,
    fun h b hb => ⟨h.1 b hb, h.2 b hb⟩⟩

theorem toUInt16_ne_zero {b : UInt8} (h : b ≠ 0) : b.toUInt16 ≠ 0 := by
  intro h0
  apply h
  rw [← UInt8.toNat_inj]
  have hn := congrArg UInt16.toNat h0
  simpa using hn

theorem AsciiCompatible.units (h : os.AsciiCompatible) (ht : ∀ b ∈ t, b < 0x80) :
    os.units t = t.map UInt8.toUInt16 := by
  unfold Win32.units
  split
  · next h0 => rw [h0, List.map_nil]
  · exact h.widen _ t ht

theorem AsciiCompatible.encoded (h : os.AsciiCompatible) (ht : ∀ b ∈ t, b < 0x80) :
    os.encoded cp t = t := by
  rw [Win32.encoded, h.units ht]
  split
  · next h0 => rw [List.map_eq_nil_iff.1 h0]
  · exact h.narrow cp t ht

theorem ascii_compatible : ascii.AsciiCompatible := by
  constructor
  · intro cp t ht
    have hall : (t.all fun b => decide (b < 0x80)) = true := by simpa using ht
    simp only [ascii]
    rw [if_pos hall]
  · intro cp t ht
    have hunits : ∀ u ∈ t.map UInt8.toUInt16, u < 0x80 := by
      intro u hu
      obtain ⟨b, hb, rfl⟩ := List.mem_map.1 hu
      have hlt := ht b hb
      rw [UInt16.lt_iff_toNat_lt, UInt8.toNat_toUInt16]
      rw [UInt8.lt_iff_toNat_lt] at hlt
      exact hlt
    have hback : ascii.WideCharToMultiByte cp (t.map UInt8.toUInt16)
        = (t.map UInt8.toUInt16).map UInt16.toUInt8 := by
      have hall : ((t.map UInt8.toUInt16).all fun u => decide (u < 0x80)) = true :=
        List.all_eq_true.2 fun u hu => decide_eq_true (hunits u hu)
      simp only [ascii]
      rw [if_pos hall]
    have hid : UInt16.toUInt8 ∘ UInt8.toUInt16 = id := funext UInt8.toUInt8_toUInt16
    rw [hback, List.map_map, hid, List.map_id]

theorem questionMark_compatible : questionMark.AsciiCompatible := by
  constructor
  · intro cp t ht
    have hne : ¬ (cp = .utf8 ∧ t = [0xE0, 0xB8, 0x81]) := by
      rintro ⟨-, rfl⟩
      exact absurd (ht 0xE0 List.mem_cons_self) (by decide)
    simp only [questionMark]
    rw [if_neg hne]
    exact ascii_compatible.widen cp t ht
  · intro cp t ht
    have hne : t.map UInt8.toUInt16 ≠ [0x0E01] := by
      intro h
      obtain ⟨b, rfl, hb⟩ := List.map_eq_singleton_iff.1 h
      have hlt := UInt8.lt_iff_toNat_lt.1 (ht b List.mem_cons_self)
      have hnat := congrArg UInt16.toNat hb
      rw [UInt8.toNat_toUInt16] at hnat
      change b.toNat < 128 at hlt
      change b.toNat = 3585 at hnat
      omega
    simp only [questionMark]
    rw [if_neg hne]
    exact ascii_compatible.narrow cp t ht

/-- A NUL-free ASCII text can be stored in every code page. -/
theorem AsciiCompatible.fits (h : os.AsciiCompatible) (ht : ∀ b ∈ t, b < 0x80)
    (hnul : ∀ b ∈ t, b ≠ 0) : os.Fits cp t := by
  refine ⟨hnul, by rw [h.encoded ht]; exact hnul, ?_⟩
  rw [h.encoded ht, Win32.decoded, h.widen cp t ht, ofUnits]
  split
  · next h0 => rw [h0]
  · next hne =>
      rw [if_neg (by rwa [List.map_eq_nil_iff]), h.narrow _ t ht]

/-- A NUL-free ASCII text can be stored as UTF-16. -/
theorem AsciiCompatible.fits16 (h : os.AsciiCompatible) (ht : ∀ b ∈ t, b < 0x80)
    (hnul : ∀ b ∈ t, b ≠ 0) : os.Fits16 t := by
  refine ⟨hnul, ?_, ?_⟩
  · rw [h.units ht]
    intro u hu
    obtain ⟨b, hb, rfl⟩ := List.mem_map.1 hu
    exact fun h0 => hnul b hb (UInt8.toUInt16_inj.1 h0)
  · rw [h.units ht, ofUnits]
    split
    · next h0 => rw [List.map_eq_nil_iff.1 h0]
    · exact h.narrow _ t ht

end Win32

section Conversions

variable {os : Win32} {cp : CodePage} {t bs : List UInt8}

theorem utf8ToWide_eq_ok {h h' : Heap} {us : List UInt16}
    (hrun : utf8ToWide os t h = (.ok us, h')) : us = os.units t := by
  unfold utf8ToWide at hrun
  unfold Win32.units
  split at hrun
  · next h0 =>
      cases hrun
      rw [if_pos (List.length_eq_zero_iff.1 h0)]
  · next h0 =>
      rw [if_neg (fun ht => h0 (by rw [ht]; rfl))]
      obtain ⟨_, h1, -, hrun⟩ := bind_eq_ok.1 hrun
      obtain ⟨_, h2, -, hrun⟩ := bind_eq_ok.1 hrun
      obtain ⟨_, h3, -, hrun⟩ := bind_eq_ok.1 hrun
      cases hrun
      rfl

/-- What a successful conversion to a code page stores. -/
theorem granted_utf8ToMbcs {term : Bool} (ht : ∀ b ∈ t, b ≠ 0)
    (h : granted (utf8ToMbcs os cp (some t) term) = some bs) :
    bs = os.encoded cp t ++ if term then [0] else [] := by
  obtain ⟨g, hrun⟩ := granted_eq_some.1 h
  rw [utf8ToMbcs, Option.getD_some, cText_eq_self ht] at hrun
  obtain ⟨us, h1, hwide, hrun⟩ := bind_eq_ok.1 hrun
  obtain ⟨_, h2, -, hrun⟩ := bind_eq_ok.1 hrun
  obtain ⟨_, h3, -, hrun⟩ := bind_eq_ok.1 hrun
  cases hrun
  rw [utf8ToWide_eq_ok hwide, Win32.encoded]
  by_cases hus : os.units t = []
  · simp [hus]
  · rw [if_neg hus, if_pos (List.length_pos_iff.2 hus)]

theorem granted_utf8ToUtf16 {be term : Bool} (ht : ∀ b ∈ t, b ≠ 0)
    (h : granted (if be then utf8ToUtf16be os (some t) term else utf8ToUtf16le os (some t) term)
      = some bs) :
    bs = unitBytes be (os.units t) ++ if term then [0, 0] else [] := by
  have hle : ∀ {g g' : Heap} {x : List UInt8}, utf8ToUtf16le os (some t) term g = (.ok x, g') →
      x = unitBytes false (os.units t) ++ if term then [0, 0] else [] := by
    intro g g' x hrun
    rw [utf8ToUtf16le, Option.getD_some, cText_eq_self ht] at hrun
    obtain ⟨us, h1, hwide, hrun⟩ := bind_eq_ok.1 hrun
    obtain ⟨_, h2, -, hrun⟩ := bind_eq_ok.1 hrun
    cases hrun
    rw [utf8ToWide_eq_ok hwide]
  obtain ⟨g, hrun⟩ := granted_eq_some.1 h
  cases be with
  | false => exact hle hrun
  | true =>
      obtain ⟨x, h1, hx, hrun⟩ := bind_eq_ok.1 hrun
      cases hrun
      rw [hle hx]
      -- the terminator is one more unit
      cases term with
      | false => simp only [Bool.false_eq_true, if_false, List.append_nil, swapPairs_unitBytes]
      | true =>
          have hzero : ∀ big us, unitBytes big us ++ [0, 0] = unitBytes big (us ++ [0]) := by
            intro big us
            cases big <;> simp [unitBytes, wordBytes, leBytes]
          simp only [if_true, hzero, swapPairs_unitBytes]

/-- A text with code units is widened. -/
theorem utf8ToWide_nil (hunits : t ≠ [] → os.units t ≠ []) (hlen : t.length ≤ INT32_MAX) :
    utf8ToWide os t [] = (.ok (os.units t), []) := by
  unfold utf8ToWide
  by_cases h0 : t = []
  · rw [if_pos (by rw [h0]; rfl), Win32.units, if_pos h0]
    rfl
  · have hwide := List.length_pos_iff.2 (hunits h0)
    have hne : ¬ t.length = 0 := fun hz => h0 (List.length_eq_zero_iff.1 hz)
    rw [Win32.units, if_neg h0] at hwide ⊢
    rw [if_neg hne, check_bind_pos hlen, check_bind_pos hwide, bind_ok Heap.alloc_nil]
    rfl

/-- A text that fits is converted. -/
theorem granted_utf8ToMbcs_fits (hfits : os.Fits cp t) (hlen : t.length ≤ INT32_MAX) (term : Bool) :
    granted (utf8ToMbcs os cp (some t) term) = some (os.encoded cp t ++ if term then [0] else []) := by
  have hback := hfits.back
  -- nothing that is decoded from an empty encoding is not empty
  have henc : t ≠ [] → os.encoded cp t ≠ [] := by
    intro h0 hempty
    rw [hempty, Win32.decoded, if_pos rfl] at hback
    exact h0 hback.symm
  have hunits : t ≠ [] → os.units t ≠ [] := fun h0 hempty => henc h0 (by rw [Win32.encoded, if_pos hempty])
  rw [granted_eq_some]
  refine ⟨[], ?_⟩
  rw [utf8ToMbcs, Option.getD_some, cText_eq_self hfits.noNul, bind_ok (utf8ToWide_nil hunits hlen)]
  by_cases hus : os.units t = []
  · rw [hus, Win32.encoded, if_pos hus, if_neg (by simp), check_bind_pos (by simp), bind_ok Heap.alloc_nil]
    rfl
  · have h0 : t ≠ [] := fun h0 => hus (by rw [Win32.units, if_pos h0])
    have hmb := List.length_pos_iff.2 (henc h0)
    rw [Win32.encoded, if_neg hus] at hmb ⊢
    rw [if_pos (List.length_pos_iff.2 hus), check_bind_pos (fun _ => hmb), bind_ok Heap.alloc_nil]
    rfl

theorem granted_utf8ToUtf16_fits (be : Bool) (hfits : os.Fits16 t) (hlen : t.length ≤ INT32_MAX) (term : Bool) :
    granted (if be then utf8ToUtf16be os (some t) term else utf8ToUtf16le os (some t) term)
      = some (unitBytes be (os.units t) ++ if term then [0, 0] else []) := by
  have hback := hfits.back
  have hunits : t ≠ [] → os.units t ≠ [] := by
    intro h0 hempty
    rw [hempty, Win32.ofUnits, if_pos rfl] at hback
    exact h0 hback.symm
  have hle : utf8ToUtf16le os (some t) term []
      = (.ok (unitBytes false (os.units t) ++ if term then [0, 0] else []), []) := by
    rw [utf8ToUtf16le, Option.getD_some, cText_eq_self hfits.noNul, bind_ok (utf8ToWide_nil hunits hlen),
      bind_ok Heap.alloc_nil]
    rfl
  have hrun : ∃ bs, granted (if be then utf8ToUtf16be os (some t) term else utf8ToUtf16le os (some t) term)
      = some bs := by
    cases be with
    | false => exact ⟨_, granted_eq_some.2 ⟨[], hle⟩⟩
    | true => exact ⟨_, granted_eq_some.2 ⟨[], bind_ok hle _⟩⟩
  obtain ⟨bs, hbs⟩ := hrun
  rw [hbs, granted_utf8ToUtf16 hfits.noNul hbs]

theorem granted_utf16ToUtf8 {be : Bool} (ht : os.Fits16 t) (hlen : (os.units t).length ≤ INT32_MAX) :
    granted (utf16ToUtf8 os be (unitBytes be (os.units t))) = some t := by
  have hback := ht.back
  rw [granted_eq_some]
  unfold utf16ToUtf8
  rw [codeUnits_unitBytes]
  by_cases hus : os.units t = []
  · rw [hus, Win32.ofUnits, if_pos rfl] at hback
    rw [hus, ← hback]
    exact ⟨[], rfl⟩
  · have hne : ¬ (os.units t).length = 0 := fun h0 => hus (List.length_eq_zero_iff.1 h0)
    rw [Win32.ofUnits, if_neg hus] at hback
    have hpos : 0 < (os.WideCharToMultiByte .utf8 (os.units t)).length := by
      rw [hback, List.length_pos_iff]
      intro ht0
      exact hus (by rw [Win32.units, if_pos ht0])
    rw [if_neg hne, check_bind_pos hlen]
    cases be with
    | false =>
        simp only [Bool.false_eq_true, if_false]
        rw [check_bind_pos hpos, bind_ok Heap.alloc_nil, hback]
        exact ⟨[], rfl⟩
    | true =>
        simp only [if_true]
        rw [bind_ok Heap.alloc_nil, check_bind_pos hpos, bind_ok Heap.alloc_nil, hback]
        exact ⟨[], rfl⟩

theorem granted_mbcsToUtf8 (ht : os.Fits cp t) (hlen : (os.encoded cp t).length ≤ INT32_MAX) :
    granted (mbcsToUtf8 os cp (os.encoded cp t)) = some t := by
  have hback := ht.back
  rw [granted_eq_some]
  unfold mbcsToUtf8
  by_cases henc : os.encoded cp t = []
  · rw [henc, Win32.decoded, if_pos rfl] at hback
    rw [henc, ← hback]
    exact ⟨[], rfl⟩
  · have hne : ¬ (os.encoded cp t).length = 0 := fun h0 => henc (List.length_eq_zero_iff.1 h0)
    have ht0 : t ≠ [] := by
      rintro rfl
      exact henc (by simp [Win32.encoded, Win32.units])
    rw [Win32.decoded, if_neg henc, Win32.ofUnits] at hback
    split at hback
    · exact absurd hback.symm ht0
    · next hwide =>
        have hpos : 0 < (os.MultiByteToWideChar cp (os.encoded cp t)).length :=
          List.length_pos_iff.2 hwide
        have hpos' : 0 < (os.WideCharToMultiByte .utf8
            (os.MultiByteToWideChar cp (os.encoded cp t))).length := by
          rw [hback]
          exact List.length_pos_iff.2 ht0
        rw [if_neg hne, check_bind_pos hlen, check_bind_pos hpos, bind_ok Heap.alloc_nil,
          check_bind_pos hpos', bind_ok Heap.alloc_nil, hback]
        exact ⟨[], rfl⟩

end Conversions

end SoulsFormats
