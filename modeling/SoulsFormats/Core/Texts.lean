import SoulsFormats.Core.FinalBytes
import SoulsFormats.Core.ReaderSpec

set_option autoImplicit false

/-! # Texts in a file

Many formats store a text in one of two ways: as UTF-16 in the byte order of the file, or in Shift-JIS.
`storedText` is what stands in the file then, terminator included; a text that fits is written as its
`storedText` and read back from it. -/

namespace SoulsFormats

open Bytes Fallible BinaryReader BinaryWriter

/-- The bytes of a text, terminator included. -/
def storedText (os : Win32) (wide be : Bool) (t : List UInt8) : List UInt8 :=
  if wide then unitBytes be (os.units t) ++ [0, 0] else os.encoded .shiftJis t ++ [0]

/-- The text can be stored: it comes back from the encoding, and the conversions, which count in `int`,
    can count what they store. -/
structure TextFits (os : Win32) (wide : Bool) (t : List UInt8) : Prop where
  fits : if wide then os.Fits16 t else os.Fits .shiftJis t
  short : (if wide then (os.units t).length else (os.encoded .shiftJis t).length) ≤ INT32_MAX

/-- The bytes of a text in a field of `n` bytes. -/
def fixedText (os : Win32) (n : Nat) (t : List UInt8) : List UInt8 :=
  os.encoded .shiftJis t ++ List.replicate (n - (os.encoded .shiftJis t).length) 0

variable {os : Win32} {wide be : Bool} {t : List UInt8}

theorem length_fixedText {n : Nat} (hlen : (os.encoded .shiftJis t).length ≤ n) :
    (fixedText os n t).length = n := by
  rw [fixedText, List.length_append, List.length_replicate]
  omega

theorem TextFits.noNul (h : TextFits os wide t) : ∀ b ∈ t, b ≠ 0 := by
  have hfits := h.fits
  rcases wide with _ | _
  · exact Win32.Fits.noNul hfits
  · exact Win32.Fits16.noNul hfits

/-- A NUL-free ASCII text can be stored either way. -/
theorem TextFits.ascii (hos : os.AsciiCompatible) (ht : ∀ b ∈ t, b < 0x80) (hnul : ∀ b ∈ t, b ≠ 0)
    (hlen : t.length ≤ INT32_MAX) : TextFits os wide t := by
  rcases wide with _ | _
  · exact ⟨hos.fits ht hnul, by simpa [hos.encoded ht] using hlen⟩
  · exact ⟨hos.fits16 ht hnul, by simpa [hos.units ht] using hlen⟩

theorem TextFits.plain (hos : os.AsciiCompatible) (ht : Win32.isPlain t = true ∧ t.length ≤ INT32_MAX) :
    TextFits os wide t :=
  .ascii hos (Win32.isPlain_iff.1 ht.1).1 (Win32.isPlain_iff.1 ht.1).2 ht.2

theorem length_storedText_pos : 0 < (storedText os wide be t).length := by
  unfold storedText
  split <;> simp

theorem TextFits.length_le (h : TextFits os wide t) :
    (storedText os wide be t).length ≤ 2 ^ 32 := by
  have hshort := h.short
  have hmax : INT32_MAX = 2 ^ 31 - 1 := rfl
  unfold storedText
  rcases wide with _ | _
  · simp only [Bool.false_eq_true, if_false] at hshort
    simp only [Bool.false_eq_true, if_false, List.length_append, List.length_cons, List.length_nil]
    omega
  · simp only [if_true] at hshort
    simp only [if_true, List.length_append, length_unitBytes, List.length_cons, List.length_nil]
    omega

/-- A text that stands in a file is short. -/
theorem textFits_of_holds (wide : Bool) {B : List UInt8} {p : Nat}
    (hfit : if wide then os.Fits16 t else os.Fits .shiftJis t) (hheld : Holds B p (storedText os wide be t))
    (hB : B.length ≤ INT32_MAX) : TextFits os wide t := by
  refine ⟨hfit, ?_⟩
  have hle := hheld.le
  cases wide with
  | false =>
      simp only [storedText, Bool.false_eq_true, if_false, List.length_append] at hle ⊢
      omega
  | true =>
      simp only [storedText, if_true, List.length_append, length_unitBytes] at hle ⊢
      omega

/-! ## Writing -/

section Writing

variable {w : BinaryWriter}

theorem emitsAt_writeUtf16 (ht : ∀ b ∈ t, b ≠ 0) (hw : w.Ready) :
    ∃ o, EmitsAt w (writeUtf16 os (some t) true) o ∧
      ∀ bs, o = some bs → bs = storedText os true w.bigEndian t := by
  refine ⟨_, emitsAt_writeStr hw (utf16Encode_steady os) (some t) true, fun bs hbs => ?_⟩
  have hgranted : granted (if w.bigEndian then utf8ToUtf16be os (some t) true
      else utf8ToUtf16le os (some t) true) = some bs := by
    rw [← hbs, utf16Encode]
    rcases w.bigEndian <;> rfl
  exact granted_utf8ToUtf16 ht hgranted

theorem writeUtf16_spec (ht : ∀ b ∈ t, b ≠ 0) (hw : w.Ready) :
    Post (writeUtf16 os (some t) true) w fun _ w' =>
      Wrote (storedText os true w.bigEndian t) w w' := by
  intro a w' hrun
  obtain ⟨o, hemits, ho⟩ := emitsAt_writeUtf16 ht hw
  obtain ⟨bs, hbs, hwrote⟩ := hemits.wrote hrun
  rwa [ho bs hbs] at hwrote

theorem emitsAt_writeShiftJis (ht : ∀ b ∈ t, b ≠ 0) (hw : w.Ready) :
    ∃ o, EmitsAt w (writeShiftJis os (some t) true) o ∧
      ∀ bs, o = some bs → bs = storedText os false w.bigEndian t :=
  ⟨_, emitsAt_writeStr hw (fun _ => utf8ToMbcs_steady os .shiftJis) (some t) true,
    fun _ hbs => granted_utf8ToMbcs ht hbs⟩

theorem writeShiftJis_spec (ht : ∀ b ∈ t, b ≠ 0) (hw : w.Ready) :
    Post (writeShiftJis os (some t) true) w fun _ w' =>
      Wrote (storedText os false w.bigEndian t) w w' := by
  intro a w' hrun
  obtain ⟨o, hemits, ho⟩ := emitsAt_writeShiftJis ht hw
  obtain ⟨bs, hbs, hwrote⟩ := hemits.wrote hrun
  rwa [ho bs hbs] at hwrote

theorem emitsAt_writeFixStr {n : Nat} (hn : 0 < n) (ht : ∀ b ∈ t, b ≠ 0)
    (hlen : (os.encoded .shiftJis t).length ≤ n) (hw : w.Ready) :
    ∃ o, EmitsAt w (writeFixStr os (some t) n 0) o ∧ ∀ bs, o = some bs → bs = fixedText os n t := by
  refine ⟨_, emitsAt_writeFixStrImpl hw (fun _ => utf8ToMbcs_steady os .shiftJis) (some t) n 0,
    fun bs hbs => ?_⟩
  rw [if_neg hn.ne', Option.bind_eq_some_iff] at hbs
  obtain ⟨raw, hraw, hbs⟩ := hbs
  have hstored : raw = os.encoded .shiftJis t ++ [0] := granted_utf8ToMbcs ht hraw
  rw [← Option.some.inj hbs, hstored, fixedText]
  -- the terminator is in the field unless the text fills it
  by_cases hfull : (os.encoded .shiftJis t).length = n
  · rw [List.take_append_of_le_length hfull.ge, List.take_of_length_le hfull.le]
    simp [hfull]
  · obtain ⟨k, hk⟩ : ∃ k, n = (os.encoded .shiftJis t).length + 1 + k :=
      ⟨n - ((os.encoded .shiftJis t).length + 1), by omega⟩
    rw [List.take_of_length_le (by simp; omega), List.append_assoc, hk]
    congr 1
    have hrest : (os.encoded .shiftJis t).length + 1 + k - (os.encoded .shiftJis t ++ [0]).length = k := by
      simp
    have hall : (os.encoded .shiftJis t).length + 1 + k - (os.encoded .shiftJis t).length = k + 1 := by
      omega
    rw [hrest, hall, List.replicate_succ]
    rfl

end Writing

/-! ## Reading -/

theorem parses_readFixStr {n : Nat} (hn : 0 < n) (ht : os.Fits .shiftJis t)
    (hlen : (os.encoded .shiftJis t).length ≤ n) (hshort : n ≤ INT32_MAX) (c : Cursor) :
    Parses (readFixStr os n) c (fixedText os n t) t := by
  intro hheld
  have hcut : cText (fixedText os n t) = os.encoded .shiftJis t := by
    rw [fixedText, cText, List.takeWhile_append_of_pos fun b hb => by simpa using ht.noNul' b hb]
    rcases n - (os.encoded .shiftJis t).length with _ | k
    · simp
    · simp [List.replicate_succ]
  unfold readFixStr
  rw [if_neg hn.ne']
  refine reads_alloc _ fun _ => ?_
  have hbytes := parses_bytes c (fixedText os n t) hheld
  rw [length_fixedText hlen] at hbytes
  rw [length_fixedText hlen]
  refine hbytes.bind ?_
  rw [hcut]
  exact reads_onHeap (mbcsToUtf8_steady os _ _) (granted_mbcsToUtf8 ht (hlen.trans hshort)) _

theorem parses_readUtf16 (ht : TextFits os true t) (c : Cursor) :
    Parses (readUtf16 os) c (storedText os true c.bigEndian t) t := by
  have hfits : os.Fits16 t := ht.fits
  have hflatten : ((os.units t).map fun u => wordBytes c.bigEndian 2 u.toNat).flatten
      = unitBytes c.bigEndian (os.units t) := by
    rw [unitBytes, List.flatMap_def]
  have hstored : storedText os true c.bigEndian t = ((os.units t).map fun u =>
      wordBytes c.bigEndian 2 u.toNat).flatten ++ List.replicate 2 0 := by
    rw [hflatten]
    rfl
  have hdecode : utf16Decode os c.bigEndian = utf16ToUtf8 os c.bigEndian := by
    rcases c.bigEndian <;> rfl
  rw [hstored]
  refine parses_strTerminated (by decide) _ ?_ ?_ c ?_ ?_
  · intro x hx
    obtain ⟨u, -, rfl⟩ := List.mem_map.1 hx
    exact length_wordBytes ..
  · -- only the unit 0 is stored as two zero bytes
    intro x hx heq
    obtain ⟨u, hu, rfl⟩ := List.mem_map.1 hx
    have hnat := congrArg (wordNat c.bigEndian) heq
    have hzeros : wordNat c.bigEndian (List.replicate 2 0) = 0 := by rcases c.bigEndian <;> rfl
    have hword : u.toNat % 256 ^ 2 = u.toNat := Nat.mod_eq_of_lt u.toNat_lt
    rw [wordNat_wordBytes, hzeros, hword] at hnat
    exact hfits.noNul' u hu (UInt16.toNat_inj.1 hnat)
  · show Steady (utf16Decode os c.bigEndian _)
    rw [hdecode]
    exact utf16ToUtf8_steady os _ _
  · show granted (utf16Decode os c.bigEndian _) = some t
    rw [hdecode, hflatten]
    exact granted_utf16ToUtf8 hfits ht.short

theorem parses_readShiftJis (ht : TextFits os false t) (c : Cursor) :
    Parses (readShiftJis os) c (storedText os false c.bigEndian t) t := by
  have hfits : os.Fits .shiftJis t := ht.fits
  have hflatten : ((os.encoded .shiftJis t).map fun b => [b]).flatten = os.encoded .shiftJis t := by
    rw [← List.flatMap_def]
    exact List.flatMap_singleton' _
  have hstored : storedText os false c.bigEndian t
      = ((os.encoded .shiftJis t).map fun b => [b]).flatten ++ List.replicate 1 0 := by
    rw [hflatten]
    rfl
  rw [hstored]
  refine parses_strTerminated (by decide) _ ?_ ?_ c (mbcsToUtf8_steady os _ _) ?_
  · intro x hx
    obtain ⟨b, -, rfl⟩ := List.mem_map.1 hx
    rfl
  · intro x hx heq
    obtain ⟨b, hb, rfl⟩ := List.mem_map.1 hx
    exact hfits.noNul' b hb (List.cons.inj heq).1
  · rw [hflatten]
    exact granted_mbcsToUtf8 hfits ht.short

/-- The getter of the encoding reads the text that is stored at its offset. -/
theorem reads_getText {c : Cursor} (ht : TextFits os wide t) {p : Nat}
    (hheld : Holds c.mem p (storedText os wide c.bigEndian t)) (hpos : c.pos ≤ c.mem.length) :
    Reads (if wide then getUtf16 os p else getShiftJis os p) c t c := by
  have hle := hheld.le
  rcases wide with _ | _
  · exact reads_get (by omega) hpos
      (parses_readShiftJis ht { c with pos := p, steps := c.pos :: c.steps } hheld)
  · exact reads_get (by omega) hpos
      (parses_readUtf16 ht { c with pos := p, steps := c.pos :: c.steps } hheld)

theorem reads_getShiftJis {c : Cursor} (ht : TextFits os false t) {p : Nat}
    (hheld : Holds c.mem p (storedText os false c.bigEndian t)) (hpos : c.pos ≤ c.mem.length) :
    Reads (getShiftJis os p) c t c := reads_getText ht hheld hpos

theorem reads_getUtf16 {c : Cursor} (ht : TextFits os true t) {p : Nat}
    (hheld : Holds c.mem p (storedText os true c.bigEndian t)) (hpos : c.pos ≤ c.mem.length) :
    Reads (getUtf16 os p) c t c := reads_getText ht hheld hpos

/-! ## Any stored text

A text that does not come back from its encoding is still read as something, and what it is read as depends
on its bytes alone. -/

/-- The value of a computation is settled: it succeeds with it, or there is none. -/
def Settles {α : Type} (m : ReadM α) (c : Cursor) (o : Option α) : Prop :=
  match o with
  | some a => ∃ stop, Reads m c a { c with pos := stop }
  | none => Refuses m c

/-- The same of a computation that comes back to where it was. -/
def SettlesAt {α : Type} (m : ReadM α) (c : Cursor) (o : Option α) : Prop :=
  match o with
  | some a => Reads m c a c
  | none => Refuses m c

/-- The units before the first that is zero. -/
def unitsBeforeNul (width : Nat) (us : List (List UInt8)) : List (List UInt8) :=
  us.takeWhile fun u => u ≠ List.replicate width 0

theorem holds_unitsBeforeNul {width : Nat} {us : List (List UInt8)} {data : List UInt8} {p : Nat}
    (h : Holds data p (us.flatten ++ List.replicate width 0)) :
    Holds data p ((unitsBeforeNul width us).flatten ++ List.replicate width 0) := by
  have hsplit := List.takeWhile_append_dropWhile (p := fun u => u ≠ List.replicate width 0) (l := us)
  rw [← hsplit, List.flatten_append, List.append_assoc, holds_append] at h
  refine holds_append.2 ⟨h.1, ?_⟩
  cases hrest : us.dropWhile fun u => u ≠ List.replicate width 0 with
  | nil =>
      rw [hrest] at h
      exact h.2
  | cons u rest =>
      have hzero : u = List.replicate width 0 := by
        have hhead := List.head?_dropWhile_not (fun u => u ≠ List.replicate width 0) us
        rw [hrest] at hhead
        simpa using hhead
      rw [hrest, hzero, List.flatten_cons, List.append_assoc] at h
      exact (holds_append.1 h.2).1

/-- A terminated string is read as what its units decode to. -/
theorem strTerminated_settles {width : Nat} (hwidth : 0 < width) {decode : Bool → Decode}
    (hdecode : ∀ be bs, Steady (decode be bs)) (us : List (List UInt8))
    (hlen : ∀ u ∈ us, u.length = width) (c : Cursor)
    (hheld : Holds c.mem c.pos (us.flatten ++ List.replicate width 0)) :
    Settles (readStrTerminated width decode) c
      (granted (decode c.bigEndian (unitsBeforeNul width us).flatten)) := by
  have hheld' := holds_unitsBeforeNul hheld
  have hunits : ∀ u ∈ unitsBeforeNul width us, u.length = width := fun u hu =>
    hlen u (List.takeWhile_subset _ hu)
  have hnonzero : ∀ u ∈ unitsBeforeNul width us, u ≠ List.replicate width 0 := fun u hu => by
    simpa using List.mem_takeWhile_imp hu
  cases hgranted : granted (decode c.bigEndian (unitsBeforeNul width us).flatten) with
  | some text =>
      exact ⟨_, parses_strTerminated hwidth _ hunits hnonzero c (hdecode _ _) hgranted hheld'⟩
  | none =>
      intro r hr hcalm text hok
      obtain ⟨_, r1, halloc, hrun⟩ := bind_eq_ok.1 (Prod.ext hok rfl :
        readStrTerminated width decode r = (.ok text, (readStrTerminated width decode r).2))
      rw [state_bind_run] at hrun
      obtain ⟨buf, r2, hloop, hrun⟩ := bind_eq_ok.1 hrun
      have hr1 : r1.cursor = c ∧ r1.heap.Calm := by
        obtain ⟨junk, h, hheap, hcalm1⟩ := Heap.alloc_calm hcalm
        rw [BinaryReader.onHeap, zoom_run, hheap] at halloc
        cases halloc
        exact ⟨hr, hcalm1⟩
      have hfuel : (unitsBeforeNul width us).length < r1.length - r1.position + 1 := by
        have hle := hheld'.le
        have hmem : r1.stream.mem = c.mem := congrArg Cursor.mem hr1.1
        have hpos : r1.stream.memPos = c.pos := congrArg Cursor.pos hr1.1
        have hcount : (unitsBeforeNul width us).length ≤ (unitsBeforeNul width us).length * width :=
          Nat.le_mul_of_pos_right _ hwidth
        have hsum : (unitsBeforeNul width us).flatten.length
            = (unitsBeforeNul width us).length * width := by
          rw [List.length_flatten, List.map_congr_left hunits, List.map_const', List.sum_replicate_nat]
        simp only [BinaryReader.length, BinaryReader.position, IStream.length, hmem, hpos]
        rw [List.length_append, hsum] at hle
        omega
      obtain ⟨r3, hloop', -, -⟩ := parses_terminated _ hunits hnonzero _ 64 [] hfuel c hheld' r1 hr1.1 hr1.2
      rw [hloop] at hloop'
      cases hloop'
      have hbe : r1.bigEndian = c.bigEndian := congrArg Cursor.bigEndian hr1.1
      rw [hbe, BinaryReader.onHeap, zoom_run, Prod.mk.injEq, List.nil_append] at hrun
      have hvalue := (hdecode _ _).granted_of_ok (Prod.ext hrun.1 rfl)
      rw [hgranted] at hvalue
      cases hvalue

/-- A getter gets what its `read` is settled to read at the offset. -/
theorem Settles.get {α : Type} {m : ReadM α} {c : Cursor} {o : Option α} {p : Nat}
    (hp : p ≤ c.mem.length) (hpos : c.pos ≤ c.mem.length)
    (h : Settles m { c with pos := p, steps := c.pos :: c.steps } o) : SettlesAt (defineGet p m) c o := by
  cases o with
  | some a =>
      obtain ⟨stop, hread⟩ := h
      exact reads_get hp hpos hread
  | none =>
      refine (reads_stepIn hp).refuses fun r hr hcalm a hok => ?_
      rw [attempt_bind_run, attempt_bind_run] at hok
      rcases hrun : (m r).1 with e | b
      · rw [hrun] at hok
        cases hok
      · exact h r hr hcalm b hrun

/-- **What a stored text is read as depends on nothing but its bytes.** -/
theorem getText_settles (os : Win32) (wide be : Bool) (t : List UInt8) :
    ∃ o : Option (List UInt8), ∀ (c : Cursor) (p : Nat), Holds c.mem p (storedText os wide be t) →
      c.bigEndian = be → c.pos ≤ c.mem.length →
      SettlesAt (if wide then getUtf16 os p else getShiftJis os p) c o := by
  cases wide with
  | true =>
      let us := (os.units t).map fun u => wordBytes be 2 u.toNat
      refine ⟨granted (utf16Decode os be (unitsBeforeNul 2 us).flatten), fun c p hheld hbe hpos => ?_⟩
      have hstored : storedText os true be t = us.flatten ++ List.replicate 2 0 := by
        rw [storedText, if_pos rfl, unitBytes, List.flatMap_def]
        rfl
      have hsteady : ∀ be bs, Steady (utf16Decode os be bs) := by
        intro be bs
        cases be <;> exact utf16ToUtf8_steady os _ _
      rw [hstored] at hheld
      have hle := hheld.le
      have hsettles := strTerminated_settles (by decide) hsteady us (fun x hx => by
        obtain ⟨u, -, rfl⟩ := List.mem_map.1 hx
        exact length_wordBytes ..) { c with pos := p, steps := c.pos :: c.steps } hheld
      rw [← hbe]
      subst hbe
      exact hsettles.get (by omega) hpos
  | false =>
      let us := (os.encoded .shiftJis t).map fun b => [b]
      refine ⟨granted (shiftJisToUtf8 os (unitsBeforeNul 1 us).flatten), fun c p hheld _ hpos => ?_⟩
      have hstored : storedText os false be t = us.flatten ++ List.replicate 1 0 := by
        have hflatten : us.flatten = os.encoded .shiftJis t := by
          show ((os.encoded .shiftJis t).map fun b => [b]).flatten = _
          rw [← List.flatMap_def]
          exact List.flatMap_singleton' _
        rw [hflatten]
        rfl
      rw [hstored] at hheld
      have hle := hheld.le
      have hsettles := strTerminated_settles (by decide) (fun _ => mbcsToUtf8_steady os .shiftJis) us
        (fun x hx => by
          obtain ⟨b, -, rfl⟩ := List.mem_map.1 hx
          rfl) { c with pos := p, steps := c.pos :: c.steps } hheld
      exact hsettles.get (by omega) hpos

end SoulsFormats
