import SoulsFormats.Core.Sequential
import SoulsFormats.Map.MsbWalk

set_option autoImplicit false

/-! # A chain of lists that is written is read again

The lists stand one behind the other, and each of them is known by where it stands: its table of offsets is behind its
first 16 bytes, its name behind the table, its entries behind the name. What an entry consists of may depend on where it
is. -/

namespace SoulsFormats

open Bytes Fallible BinaryWriter

/-! ## Names

The names are converted to UTF-16 with `MB_ERR_INVALID_CHARS`, so that a name that is written is valid UTF-8. -/

/-- Valid UTF-8 comes back from UTF-16. -/
structure Win32.Utf8Exact (os : Win32) : Prop where
  back : ∀ t, os.MultiByteToWideChar .utf8 t ≠ [] →
    os.WideCharToMultiByte .utf8 (os.MultiByteToWideChar .utf8 t) = t
  noNul : ∀ t, (∀ b ∈ t, b ≠ 0) → ∀ u ∈ os.MultiByteToWideChar .utf8 t, u ≠ 0
  length_le : ∀ t, (os.MultiByteToWideChar .utf8 t).length ≤ t.length

theorem Win32.ascii_utf8Exact : Win32.ascii.Utf8Exact := by
  constructor
  · intro t ht
    simp only [Win32.ascii] at ht ⊢
    split at ht
    · next hall =>
        rw [if_pos hall]
        rw [List.all_eq_true] at hall
        have hascii := Win32.ascii_compatible.narrow .utf8 t fun b hb => of_decide_eq_true (hall b hb)
        simpa only [Win32.ascii] using hascii
    · exact absurd rfl ht
  · intro t ht u hu
    simp only [Win32.ascii] at hu
    split at hu
    · obtain ⟨b, hb, rfl⟩ := List.mem_map.1 hu
      exact Win32.toUInt16_ne_zero (ht b hb)
    · cases hu
  · intro t
    simp only [Win32.ascii]
    split
    · rw [List.length_map]
    · exact Nat.zero_le _

variable {os : Win32}

theorem returns_writeUtf16 {t : List UInt8} (ht : ∀ b ∈ t, b ≠ 0) :
    Returns (writeUtf16 os (some t) true) fun _ => t.length ≤ INT32_MAX ∧ (t ≠ [] → os.units t ≠ []) := by
  have hwide : Returns (utf8ToWide os t) fun _ => t.length ≤ INT32_MAX ∧ (t ≠ [] → os.units t ≠ []) := by
    unfold utf8ToWide
    refine Returns.ite (fun h0 => ?_) fun h0 => ?_
    · rw [List.length_eq_zero_iff] at h0
      subst h0
      exact Returns.pure ⟨Nat.zero_le _, fun h => absurd rfl h⟩
    · refine Returns.check fun hlen => Returns.check fun hunits => Returns.after fun _ => Returns.pure ⟨hlen, fun hne => ?_⟩
      rwa [Win32.units, if_neg hne, ← List.length_pos_iff]
  have hle : Returns (utf8ToUtf16le os (some t) true) fun _ => t.length ≤ INT32_MAX ∧ (t ≠ [] → os.units t ≠ []) := by
    unfold utf8ToUtf16le
    rw [Option.getD_some, cText_eq_self ht]
    exact hwide.bind fun _ h => (Returns.trivial _).mono fun _ _ => h
  have hencode (be : Bool) : Returns (utf16Encode os be (some t) true) fun _ =>
      t.length ≤ INT32_MAX ∧ (t ≠ [] → os.units t ≠ []) := by
    unfold utf16Encode
    split
    · exact hle.bind fun _ h => (Returns.trivial _).mono fun _ _ => h
    · exact hle
  refine Returns.after fun _ => Returns.after fun w => ?_
  have honHeap : Returns (BinaryWriter.onHeap (utf16Encode os w.bigEndian (some t) true)) fun _ =>
      t.length ≤ INT32_MAX ∧ (t ≠ [] → os.units t ≠ []) := by
    unfold BinaryWriter.onHeap BinaryWriter.onStream
    exact (hencode w.bigEndian).zoom.zoom
  exact honHeap.bind fun _ h => (Returns.trivial _).mono fun _ _ => h

theorem Win32.Utf8Exact.textFits (hos : os.Utf8Exact) {t : List UInt8} (ht : ∀ b ∈ t, b ≠ 0)
    (hlen : t.length ≤ INT32_MAX) (hunits : t ≠ [] → os.units t ≠ []) : TextFits os true t := by
  refine ⟨⟨ht, fun u hu => ?_, ?_⟩, ?_⟩
  · rw [Win32.units] at hu
    split at hu
    · cases hu
    · exact hos.noNul t ht u hu
  · rw [Win32.ofUnits]
    by_cases h0 : t = []
    · rw [if_pos (by rw [Win32.units, if_pos h0]), h0]
    · have hne := hunits h0
      rw [if_neg hne]
      rw [Win32.units, if_neg h0] at hne ⊢
      exact hos.back t hne
  · simp only [if_true]
    rw [Win32.units]
    split
    · exact Nat.zero_le _
    · exact (hos.length_le t).trans hlen

/-! ## Names of slots -/

theorem length_decimal_le {n k : Nat} (hk : 0 < k) (hn : n < 10 ^ k) : (decimal n).length ≤ k := by
  rw [decimal, List.length_map]
  exact (Nat.length_toDigits_le_iff (by decide) hk).2 hn

theorem snprintf_eq {size : Nat} {text : List UInt8} (h : text.length < size) : snprintf size text = text :=
  List.take_of_length_le (by omega)

/-- The slots of the lists: the offset of the name and that of an entry, and that of the next list. -/
inductive MsbSlot where
  | name (i : Nat)
  | entry (i k : Nat)
  | next (i : Nat)
deriving DecidableEq

/-- The name of a slot, behind that of the next list. -/
def MsbSlot.suffix : MsbSlot → List UInt8
  | .name _ => cstr "Name"
  | .entry _ k => label "Entry" k
  | .next _ => []

def MsbSlot.list : MsbSlot → Nat
  | .name i => i
  | .entry i _ => i
  | .next i => i

/-- The first character tells the kinds of slots apart. -/
def MsbSlot.initial : MsbSlot → Option UInt8
  | .name _ => some 0x4E
  | .entry _ _ => some 0x45
  | .next _ => none

theorem MsbSlot.suffix_head (s : MsbSlot) : s.suffix.head? = s.initial := by
  cases s with
  | name i => rfl
  | entry i k =>
      rw [suffix, label, List.head?_append_of_ne_nil _ (by decide)]
      rfl
  | next i => rfl

theorem MsbSlot.suffix_noDigit (s : MsbSlot) : ∀ b ∈ s.suffix.head?, isDigit b = false := by
  rw [suffix_head]
  cases s with
  | name i => exact isDigit_eq_false_of_any rfl
  | entry i k => exact isDigit_eq_false_of_any rfl
  | next i => exact nofun

theorem MsbSlot.suffix_inj {s s' : MsbSlot} (hlist : s.list = s'.list) (h : s.suffix = s'.suffix) : s = s' := by
  have hinitial : s.initial = s'.initial := by rw [← suffix_head, h, suffix_head]
  cases s with
  | name i =>
      cases s' with
      | name j => exact congrArg MsbSlot.name hlist
      | entry j k => cases hinitial
      | next j => cases hinitial
  | entry i k =>
      cases s' with
      | name j => cases hinitial
      | entry j l =>
          cases hlist
          exact congrArg (MsbSlot.entry i) (label_inj h)
      | next j => cases hinitial
  | next i =>
      cases s' with
      | name j => cases hinitial
      | entry j k => cases hinitial
      | next j => exact congrArg MsbSlot.next hlist

/-- The slots of a file, each with where it is. -/
def msbSlots (format : MsbFormat) (addr : MsbSlot → Nat) : FileSlots MsbSlot where
  key s := (label format.base s.list ++ s.suffix, .i64)
  addr := addr
  key_inj := by
    intro s s' h
    have hname := congrArg Prod.fst h
    simp only [label, List.append_assoc] at hname
    obtain ⟨hlist, hsuffix⟩ := decimal_append_inj s.suffix_noDigit s'.suffix_noDigit (List.append_cancel_left hname)
    exact MsbSlot.suffix_inj hlist hsuffix

section

variable {format : MsbFormat} {addr : MsbSlot → Nat} {i k : Nat}

theorem length_label_format_le (hi : i < MSB_MAX_LISTS) : (label format.base i).length ≤ 31 := by
  have hdigits := @length_decimal_le i 2 (by decide) (hi.trans (by decide))
  have hbase := format.short
  rw [label, List.length_append]
  omega

theorem key_name (hi : i < MSB_MAX_LISTS) :
    (msbSlots format addr).key (.name i) = (msbNameKey (label format.base i), .i64) := by
  have hlen := @length_label_format_le format i hi
  have hname : (cstr "Name").length = 4 := by decide
  rw [msbNameKey, snprintf_eq (by
    rw [List.length_append, hname]
    exact Nat.lt_of_le_of_lt (Nat.add_le_add_right hlen 4) (by decide))]
  rfl

theorem key_entry (hi : i < MSB_MAX_LISTS) (hk : k ≤ INT32_MAX) :
    (msbSlots format addr).key (.entry i k) = (msbEntryKey (label format.base i) k, .i64) := by
  have hlen := @length_label_format_le format i hi
  have hdigits := @length_decimal_le k 10 (by decide) (Nat.lt_of_le_of_lt hk (by decide))
  have hentry : (label "Entry" k).length ≤ 15 := by
    have hword : (cstr "Entry").length = 5 := by decide
    rw [label, List.length_append, hword]
    omega
  rw [msbEntryKey, snprintf_eq (by
    rw [List.length_append]
    exact Nat.lt_of_le_of_lt (Nat.add_le_add hlen hentry) (by decide))]
  rfl

theorem key_next : (msbSlots format addr).key (.next i) = (label format.base i, .i64) := by
  simp [msbSlots, MsbSlot.suffix, MsbSlot.list]

theorem key_next_fill (hi : i < MSB_MAX_LISTS) :
    (msbSlots format addr).key (.next i) = (snprintf 32 (label format.base i), .i64) := by
  rw [snprintf_eq (Nat.lt_succ_of_le (length_label_format_le hi)), key_next]

end

/-! ## Entries -/

/-- A function that writes entries: an entry is written behind what is there, in full, and no slot stays open. What its
    bytes are may depend on its number and on where it is. -/
structure MsbEntryWriter (be : Bool) (ε : Type) where
  write : ε → Nat → WriteM Unit
  body : ε → Nat → Nat → List UInt8
  appends : ∀ e k (w w' : BinaryWriter), AtEnd (fun _ => False) w → w.bigEndian = be → w.varintLong = false →
    write e k w = (.ok (), w') →
    Extends (fun _ => False) w w' (fun B => Holds B w.position (body e k w.position)) ∧
      w'.position = w.position + (body e k w.position).length

/-- Entries that are byte strings. -/
def MsbEntryWriter.bytes (be : Bool) : MsbEntryWriter be (List UInt8) where
  write e _ := writeBytes e
  body e _ _ := e
  appends := by
    intro e _ w w' hw _ _ hrun
    obtain ⟨bs, hbs, hwrote⟩ := (emitsAt_writeBytes hw.inv.ready e).wrote hrun
    cases hbs
    exact ⟨hw.extends hwrote, hwrote.position⟩

namespace MsbEntryWriter

variable {be : Bool} {ε : Type} (W : MsbEntryWriter be ε)

/-- Where the entries are, from the `k`-th on, which is at `p`. -/
def positions : Nat → Nat → List ε → List Nat
  | _, _, [] => []
  | k, p, e :: es => p :: positions (k + 1) (p + (W.body e k p).length) es

/-- Where the entries end. -/
def stop : Nat → Nat → List ε → Nat
  | _, p, [] => p
  | k, p, e :: es => stop (k + 1) (p + (W.body e k p).length) es

/-- The entries stand in the file, from the `k`-th on, which is at `p`. -/
def Stored (B : List UInt8) : Nat → Nat → List ε → Prop
  | _, _, [] => True
  | k, p, e :: es => Holds B p (W.body e k p) ∧ Stored B (k + 1) (p + (W.body e k p).length) es

/-- The offsets of the entries stand in their slots, from the `k`-th slot on. -/
def Noted (be : Bool) (B : List UInt8) (table : Nat) : Nat → List Nat → Prop
  | _, [] => True
  | k, p :: ps => Holds B (table + 8 * k) (wordBytes be 8 p) ∧ Noted be B table (k + 1) ps

@[simp] theorem length_positions (k p : Nat) (es : List ε) : (W.positions k p es).length = es.length := by
  induction es generalizing k p with
  | nil => rfl
  | cons e es ih => simp [positions, ih]

theorem le_stop (k p : Nat) (es : List ε) : p ≤ W.stop k p es := by
  induction es generalizing k p with
  | nil => exact Nat.le_refl p
  | cons e es ih => exact (Nat.le_add_right _ _).trans (ih _ _)

theorem le_of_stored {B : List UInt8} {k p : Nat} {es : List ε} (h : W.Stored B k p es) :
    ∀ q ∈ W.positions k p es, q ≤ B.length := by
  induction es generalizing k p with
  | nil => exact nofun
  | cons e es ih =>
      intro q hq
      rcases List.mem_cons.1 hq with rfl | hq
      · exact (Nat.le_add_right _ _).trans h.1.le
      · exact ih h.2 q hq

/-- The words of the table, one behind the other. -/
theorem Noted.holds {B : List UInt8} {table k : Nat} {ps : List Nat} (h : Noted be B table k ps)
    (hle : table + 8 * k ≤ B.length) : Holds B (table + 8 * k) (ps.flatMap (wordBytes be 8)) := by
  induction ps generalizing k with
  | nil => exact holds_nil.2 hle
  | cons p ps ih =>
      have hfirst := h.1.le
      rw [length_wordBytes] at hfirst
      rw [List.flatMap_cons, holds_append, length_wordBytes]
      exact ⟨h.1, ih h.2 hfirst⟩

end MsbEntryWriter

/-! ## Lists -/

namespace MsbList

variable {be : Bool} {ε : Type}

/-- The slot of the next list, behind the table of the offsets. -/
def nextAt (start : Nat) (list : MsbList ε) : Nat := start + 16 + 8 * list.entries.length

def nameAt (start : Nat) (list : MsbList ε) : Nat := list.nextAt start + 8

/-- The first entry is behind the name, at a multiple of 8. -/
def entriesAt (os : Win32) (be : Bool) (start : Nat) (list : MsbList ε) : Nat :=
  list.nameAt start + (storedText os true be list.typeName).length +
    padLength (list.nameAt start + (storedText os true be list.typeName).length) 8

variable (os : Win32) (W : MsbEntryWriter be ε)

/-- Where the entries of a list are. -/
def entryPositions (start : Nat) (list : MsbList ε) : List Nat := W.positions 0 (list.entriesAt os be start) list.entries

def stop (start : Nat) (list : MsbList ε) : Nat := W.stop 0 (list.entriesAt os be start) list.entries

/-- A list stands in the file, apart from the offset of the next one. -/
structure StoredAt (B : List UInt8) (start : Nat) (list : MsbList ε) : Prop where
  count : list.entries.length ≤ INT32_MAX - 1
  name : TextFits os true list.typeName
  version : Holds B start (wordBytes be 4 list.version.toUInt32.toNat)
  offsetCount : Holds B (start + 4) (wordBytes be 4 (Int32.ofNat list.entries.length + 1).toUInt32.toNat)
  nameOffset : Holds B (start + 8) (wordBytes be 8 (list.nameAt start))
  offsets : MsbEntryWriter.Noted be B (start + 16) 0 (list.entryPositions os W start)
  text : Holds B (list.nameAt start) (storedText os true be list.typeName)
  entries : W.Stored B 0 (list.entriesAt os be start) list.entries

/-- The slots of a list are where they belong. -/
structure SlotsAt (addr : MsbSlot → Nat) (i start : Nat) (list : MsbList ε) : Prop where
  name : addr (.name i) = start + 8
  entry : ∀ k, addr (.entry i k) = start + 16 + 8 * k
  next : addr (.next i) = list.nextAt start

end MsbList

section

variable {be : Bool} {ε : Type} {W : MsbEntryWriter be ε} {format : MsbFormat} {addr : MsbSlot → Nat} {i k p start : Nat}
  {es : List ε}

theorem puts_entry (e : ε) :
    Puts (msbSlots format addr) (W.write e k) ⟨p, be, false⟩
      (fun _ st => st = ⟨p + (W.body e k p).length, be, false⟩) fun _ _ B => Holds B p (W.body e k p) := by
  rintro w w' ⟨⟩ hw hrun
  obtain ⟨hext, hpos⟩ := W.appends e k w w' hw.atEnd hw.bigEndian hw.varintLong hrun
  rw [hw.pos] at hext hpos
  refine ⟨⟨p + (W.body e k p).length, be, false⟩, ⟨hext.atEnd, hpos, hext.bigEndian.trans hw.bigEndian,
    hext.varintLong.trans hw.varintLong, False.elim, ?_⟩, rfl, hext.final⟩
  rw [hext.reserved]
  exact hw.slots

theorem puts_reserveEntries (hi : i < MSB_MAX_LISTS) (haddr : ∀ k, addr (.entry i k) = start + 8 * k)
    (hcount : k + es.length ≤ INT32_MAX) :
    Puts (msbSlots format addr) (forIndexed (fun k _ => reserveI64 (msbEntryKey (label format.base i) k)) k es)
      ⟨start + 8 * k, be, false⟩ (fun _ st => st = ⟨start + 8 * (k + es.length), be, false⟩) fun _ _ _ => True := by
  induction es generalizing k with
  | nil => exact Puts.done rfl fun _ => trivial
  | cons e es ih =>
      rw [List.length_cons] at hcount
      rw [forIndexed]
      refine Puts.reserveI64 (.entry i k) (key_entry hi (by omega)) (haddr k) ?_
      have hrest := @ih (k + 1) (by omega)
      rw [List.length_cons, Nat.add_comm es.length 1, ← Nat.add_assoc k 1]
      exact hrest

theorem puts_fillEntries (hi : i < MSB_MAX_LISTS) (haddr : ∀ k, addr (.entry i k) = start + 8 * k)
    (hcount : k + es.length ≤ INT32_MAX) :
    Puts (msbSlots format addr)
      (forIndexed (fun k e => do
        let pos ← peek BinaryWriter.position
        fillI64 (msbEntryKey (label format.base i) k) (Int64.ofNat pos)
        W.write e k) k es)
      ⟨p, be, false⟩ (fun _ st => st = ⟨W.stop k p es, be, false⟩)
      fun _ _ B => MsbEntryWriter.Noted be B start k (W.positions k p es) ∧ W.Stored B k p es := by
  induction es generalizing k p with
  | nil => exact Puts.done rfl fun _ => ⟨trivial, trivial⟩
  | cons e es ih =>
      rw [List.length_cons] at hcount
      simp only [forIndexed, bind_assoc]
      refine Puts.position (Puts.fillI64 (.entry i k) (key_entry hi (by omega)) ?_)
      refine (puts_entry e).seq fun _ st hst => ?_
      subst hst
      refine (@ih (k + 1) _ (by omega)).mono fun _ _ _ B hrest hbody hslot => ?_
      have hword := scalarBytes_i64_ofNat be false p
      rw [scalarBytes] at hword
      change Holds B (addr (.entry i k)) _ at hslot
      rw [hword, haddr] at hslot
      exact ⟨⟨hslot, hrest.1⟩, hbody, hrest.2⟩

/-- What the success of a step shows can be used for the step itself. -/
theorem Puts.knowing {σ α β : Type} {S : FileSlots σ} {m : WriteM α} {f : α → WriteM β} {st : Stand} {P : β → Stand → Prop}
    {F : β → Stand → List UInt8 → Prop} {q : Prop} (hm : Returns m fun _ => q) (h : q → Puts S (m >>= f) st P F) :
    Puts S (m >>= f) st P F := by
  intro w w' v hw hrun
  obtain ⟨a, w1, hm1, -⟩ := bind_eq_ok.1 hrun
  exact h (hm w a w1 hm1) w w' v hw hrun

theorem puts_msbEntryListWrite (hos : os.Utf8Exact) {list : MsbList ε} (hi : i < MSB_MAX_LISTS)
    (hname : ∀ b ∈ list.typeName, b ≠ 0) (hslots : list.SlotsAt addr i start) :
    Puts (msbSlots format addr)
      (msbEntryListWrite os list.version list.typeName (label format.base i) list.entries W.write)
      ⟨start, be, false⟩ (fun _ st => st = ⟨list.stop os W start, be, false⟩)
      fun _ _ B => list.StoredAt os W B start := by
  have haddr (k : Nat) : addr (.entry i k) = start + 16 + 8 * k := hslots.entry k
  have hmax : INT32_MAX = 2 ^ 31 - 1 := rfl
  unfold msbEntryListWrite
  refine Puts.check fun hcount => Puts.i32 (Puts.i32 ?_)
  refine Puts.reserveI64 (.name i) (key_name hi) (by exact hslots.name) ?_
  have hreserve : Puts (msbSlots format addr)
      (forIndexed (fun k _ => reserveI64 (msbEntryKey (label format.base i) k)) 0 list.entries)
      ⟨start + 16 + 8 * 0, be, false⟩ (fun _ st => st = ⟨start + 16 + 8 * (0 + list.entries.length), be, false⟩)
      fun _ _ _ => True := puts_reserveEntries hi haddr (by omega)
  refine hreserve.seq fun _ st hst => ?_
  subst hst
  rw [Nat.zero_add]
  refine Puts.reserveI64 (.next i) key_next hslots.next ?_
  refine Puts.position (Puts.fillI64 (.name i) (key_name hi) ?_)
  refine Puts.knowing (returns_writeUtf16 hname) fun htext => ?_
  refine Puts.utf16 hname (Puts.pad (by decide) ?_)
  have hfill : Puts (msbSlots format addr)
      (forIndexed (fun k e => do
        let pos ← peek BinaryWriter.position
        fillI64 (msbEntryKey (label format.base i) k) (Int64.ofNat pos)
        W.write e k) 0 list.entries)
      ⟨list.entriesAt os be start, be, false⟩ (fun _ st => st = ⟨list.stop os W start, be, false⟩)
      fun _ _ B => MsbEntryWriter.Noted be B (start + 16) 0 (list.entryPositions os W start) ∧
        W.Stored B 0 (list.entriesAt os be start) list.entries := puts_fillEntries hi haddr (by omega)
  refine hfill.mono fun _ _ _ B hentries htype hoffset _ hcountWord hversion => ?_
  have hword := scalarBytes_i64_ofNat be false (list.nameAt start)
  rw [scalarBytes] at hword
  change Holds B (addr (.name i)) (wordBytes be 8 (Int64.ofNat (list.nameAt start)).toUInt64.toNat) at hoffset
  rw [hword, hslots.name] at hoffset
  exact ⟨hcount, hos.textFits hname htext.1 htext.2, hversion, hcountWord, hoffset, hentries.1, htype, hentries.2⟩

end

/-! ## Chains -/

section

variable {be : Bool} {ε : Type} (os : Win32) (W : MsbEntryWriter be ε)

/-- The start of the next list, or zero behind the last one. -/
def msbNextOffset (start : Nat) : List (MsbList ε) → Nat
  | [] => 0
  | _ :: _ => start

/-- The lists stand in the file one behind the other, each with the offset of the next one. -/
def MsbChainStored (B : List UInt8) : Nat → List (MsbList ε) → Prop
  | _, [] => True
  | start, list :: rest =>
    list.StoredAt os W B start ∧
      Holds B (list.nextAt start) (wordBytes be 8 (msbNextOffset (list.stop os W start) rest)) ∧
      MsbChainStored B (list.stop os W start) rest

/-- The slots of all lists are where they belong, from the `i`-th list on. -/
def MsbChainSlots (addr : MsbSlot → Nat) : Nat → Nat → List (MsbList ε) → Prop
  | _, _, [] => True
  | i, start, list :: rest => list.SlotsAt addr i start ∧ MsbChainSlots addr (i + 1) (list.stop os W start) rest

/-- Where the `i`-th list starts. -/
def msbListAt (lists : List (MsbList ε)) (i : Nat) : Nat := (lists.take i).foldl (fun p list => list.stop os W p) 16

/-- Where the slots of some lists are. -/
def msbAddr (lists : List (MsbList ε)) : MsbSlot → Nat
  | .name i => msbListAt os W lists i + 8
  | .entry i k => msbListAt os W lists i + 16 + 8 * k
  | .next i => (lists[i]?.elim 0 fun list => list.nextAt (msbListAt os W lists i))

variable {os W}

theorem msbChainSlots_msbAddr (lists : List (MsbList ε)) :
    MsbChainSlots os W (msbAddr os W lists) 0 16 lists := by
  suffices h : ∀ (rest : List (MsbList ε)) (i : Nat), lists.drop i = rest →
      MsbChainSlots os W (msbAddr os W lists) i (msbListAt os W lists i) rest from h lists 0 rfl
  intro rest
  induction rest with
  | nil => exact fun _ _ => trivial
  | cons list rest ih =>
      intro i hdrop
      have hlist : lists[i]? = some list := by
        rw [← Nat.add_zero i, ← List.getElem?_drop, hdrop]
        rfl
      have hnext : msbListAt os W lists (i + 1) = list.stop os W (msbListAt os W lists i) := by
        rw [msbListAt, List.take_add_one, hlist, List.foldl_append]
        rfl
      have hrest := ih (i + 1) (by rw [← List.drop_drop, hdrop]; rfl)
      rw [hnext] at hrest
      refine ⟨⟨rfl, fun _ => rfl, ?_⟩, hrest⟩
      rw [msbAddr, hlist]
      rfl

variable {format : MsbFormat} {addr : MsbSlot → Nat}

theorem puts_msbFillNextParam {i q v p : Nat} (hi : i < MSB_MAX_LISTS) (hq : addr (.next i) = q) {α : Type}
    {f : Unit → WriteM α} {Q : α → Stand → Prop} {G : α → Stand → List UInt8 → Prop}
    (hf : Puts (msbSlots format addr) (f ()) ⟨p, be, false⟩ Q fun u st B => Holds B q (wordBytes be 8 v) → G u st B) :
    Puts (msbSlots format addr) (msbFillNextParam format i (Int64.ofNat v) >>= f) ⟨p, be, false⟩ Q G := by
  refine Puts.fillI64 (.next i) (key_next_fill hi) (hf.mono fun _ _ _ B hG hslot => hG ?_)
  have hword := scalarBytes_i64_ofNat be false v
  rw [scalarBytes] at hword
  change Holds B (addr (.next i)) _ at hslot
  rwa [hword, hq] at hslot

/-- The loop over the lists, from the `i`-th on: it fills the slot of the list before with the start of the next one. -/
theorem puts_msbWriteLists (hos : os.Utf8Exact) {lists : List (MsbList ε)} {i p q : Nat}
    (hi : i + lists.length ≤ MSB_MAX_LISTS) (hnames : ∀ list ∈ lists, ∀ b ∈ list.typeName, b ≠ 0)
    (hslots : MsbChainSlots os W addr i p lists) (hq : 0 < i → addr (.next (i - 1)) = q) :
    Puts (msbSlots format addr) (msbWriteLists os format W.write i lists) ⟨p, be, false⟩ (fun _ _ => True)
      fun _ _ B => (0 < i → Holds B q (wordBytes be 8 (msbNextOffset p lists))) ∧ MsbChainStored os W B p lists := by
  induction lists generalizing i p q with
  | nil =>
      rw [msbWriteLists]
      by_cases h0 : 0 < i
      · rw [given, if_pos (by simpa using h0)]
        rw [List.length_nil] at hi
        exact (puts_msbFillNextParam (by omega) (hq h0) (Puts.done trivial fun B hslot => ⟨fun _ => hslot, trivial⟩)).last
      · rw [given, if_neg (by simpa using h0)]
        exact Puts.done trivial fun B => ⟨fun h => absurd h h0, trivial⟩
  | cons list rest ih =>
      rw [List.length_cons] at hi
      have hrest := @ih (i + 1) (list.stop os W p) (list.nextAt p) (by omega)
        (fun l hl => hnames l (List.mem_cons_of_mem _ hl)) hslots.2 fun _ => hslots.1.next
      have hwrite := (puts_msbEntryListWrite hos (by omega) (hnames list List.mem_cons_self) hslots.1).seq
        (f := fun _ => msbWriteLists os format W.write (i + 1) rest) (Q := fun _ _ => True)
        (G := fun _ _ B => MsbChainStored os W B p (list :: rest)) (by
          intro _ st hst
          subst hst
          exact hrest.mono fun _ _ _ B hB hlist => ⟨hlist, hB.1 (Nat.succ_pos i), hB.2⟩)
      rw [msbWriteLists]
      refine Puts.position ?_
      by_cases h0 : 0 < i
      · rw [given, if_pos (by simpa using h0)]
        exact puts_msbFillNextParam (by omega) (hq h0) (hwrite.mono fun _ _ _ B hB hslot => ⟨fun _ => hslot, hB⟩)
      · rw [given, if_neg (by simpa using h0)]
        exact hwrite.mono fun _ _ _ B hB => ⟨fun h => absurd h h0, hB⟩

/-- The header of the file. -/
structure MsbHeaderStored (be : Bool) (B : List UInt8) : Prop where
  magic : Holds B 0 (cstr "MSB ")
  version : Holds B 4 (wordBytes be 4 (1 : Int32).toUInt32.toNat)
  size : Holds B 8 (wordBytes be 4 (0x10 : Int32).toUInt32.toNat)
  bigEndian : Holds B 12 [if false then 1 else 0]
  bitBigEndian : Holds B 13 [if false then 1 else 0]
  encoding : Holds B 14 [1]
  last : Holds B 15 [0xFF]

theorem puts_msbWrite (hascii : os.AsciiCompatible) (hos : os.Utf8Exact) {lists : List (MsbList ε)}
    (hlists : lists.length ≤ MSB_MAX_LISTS) (hnames : ∀ list ∈ lists, ∀ b ∈ list.typeName, b ≠ 0) :
    Puts (msbSlots format (msbAddr os W lists)) (msbWrite os format W.write lists) ⟨0, be, false⟩ (fun _ _ => True)
      fun _ _ B => MsbHeaderStored be B ∧ MsbChainStored os W B 16 lists := by
  have hchain : Puts (msbSlots format (msbAddr os W lists)) (msbWriteLists os format W.write 0 lists) ⟨16, be, false⟩
      (fun _ _ => True) fun _ _ B =>
        (0 < 0 → Holds B 0 (wordBytes be 8 (msbNextOffset 16 lists))) ∧ MsbChainStored os W B 16 lists :=
    puts_msbWriteLists hos (by omega) hnames (msbChainSlots_msbAddr lists) nofun
  unfold msbWrite msbCommonWriteHeader
  simp only [bind_assoc]
  refine Puts.ascii hascii (by decide) (Puts.i32 (Puts.i32 (Puts.bool (Puts.bool (Puts.u8 (Puts.u8 ?_))))))
  exact hchain.mono fun _ _ _ B hB hlast hencoding hbit hbig hsize hversion hmagic =>
    ⟨⟨hmagic, hversion, hsize, hbig, hbit, hencoding, hlast⟩, hB.2⟩

end

/-! ## Reading back -/

section

open BinaryReader Built

variable {be : Bool} {ε : Type} (os : Win32) (W : MsbEntryWriter be ε)

/-- What the reader reports of a list. -/
def MsbList.header (start : Nat) (list : MsbList ε) : MsbListHeader :=
  ⟨some list.typeName, Int32.ofNat list.entries.length, Int64.ofNat (start + 16)⟩

def msbHeaders : Nat → List (MsbList ε) → List MsbListHeader
  | _, [] => []
  | start, list :: rest => list.header start :: msbHeaders (list.stop os W start) rest

/-- Where the entries of the lists are. -/
def msbEntryPositions : Nat → List (MsbList ε) → List (List Nat)
  | _, [] => []
  | start, list :: rest => list.entryPositions os W start :: msbEntryPositions (list.stop os W start) rest

variable {os W} {B : List UInt8} {pos start : Nat} {long flex : Bool} {steps : List Nat}

theorem int64_toInt_of_lt {p : Nat} (h : p < 2 ^ 63) : (Int64.ofNat p).toInt = p := Int64.toInt_ofNat_of_lt h

theorem reads_msbCommonAssertHeader (h : MsbHeaderStored be B) :
    Reads msbCommonAssertHeader ⟨B, 0, be, long, steps, flex⟩ () ⟨B, 16, be, long, steps, flex⟩ := by
  unfold msbCommonAssertHeader
  refine Reads.ascii h.magic (Reads.assertI32 h.version (by decide) (Reads.assertI32 h.size (by decide) ?_))
  refine Reads.assertBool h.bigEndian (by decide) (Reads.assertBool h.bitBigEndian (by decide) ?_)
  exact Reads.assertU8 h.encoding (by decide) (Reads.assertU8 h.last (by decide) (Reads.pure _ _))

theorem reads_msbReadListHeader {list : MsbList ε} (h : list.StoredAt os W B start) {next : Nat}
    (hnext : Holds B (list.nextAt start) (wordBytes be 8 next)) (hB : B.length < 2 ^ 63) :
    Reads (msbReadListHeader os) ⟨B, start, be, long, steps, flex⟩ (list.header start, Int64.ofNat next)
      ⟨B, list.nameAt start, be, long, steps, flex⟩ := by
  have hmax : INT32_MAX = 2 ^ 31 - 1 := rfl
  have hcount := h.count
  have hle := hnext.le
  have htext := h.text.le
  rw [length_wordBytes] at hle
  have hint : (Int32.ofNat list.entries.length).toInt = list.entries.length := int32_toInt_ofNat (by omega)
  have hsum : (Int32.ofNat list.entries.length + 1).toInt = list.entries.length + 1 := by
    have hadd : Int32.ofNat list.entries.length + 1 = Int32.ofNat (list.entries.length + 1) :=
      (Int32.ofNat_add _ 1).symm
    rw [hadd]
    exact int32_toInt_ofNat (by omega)
  have hi64 (p v : Nat) (hv : Holds B p (wordBytes be 8 v)) :
      Holds B p (wordBytes be 8 (Int64.ofNat v).toUInt64.toNat) := by
    have hword := scalarBytes_i64_ofNat be false v
    rw [scalarBytes] at hword
    rwa [hword]
  unfold msbReadListHeader
  refine Reads.i32 h.version (Reads.i32 h.offsetCount (Reads.i64 (hi64 _ _ h.nameOffset) ?_))
  refine Reads.check (by omega) (Reads.position ?_)
  have hskip : (Int32.ofNat list.entries.length + 1 - 1).toInt * 8 = ((8 * list.entries.length : Nat) : Int) := by
    rw [Int32.add_sub_cancel, hint]
    omega
  rw [hskip]
  refine Reads.skip (by simp only [MsbList.nextAt] at hle; omega) (Reads.i64 (hi64 _ _ hnext) ?_)
  rw [int64_toInt_of_lt (by omega)]
  have hpos : list.nextAt start + 8 ≤ B.length := hle
  refine (reads_getUtf16 h.name h.text hpos).bind ?_
  rw [Int32.add_sub_cancel]
  exact Reads.pure _ _

theorem take_set_succ {α : Type} {l : List α} {i : Nat} (a : α) (h : i < l.length) :
    (l.set i a).take (i + 1) = l.take i ++ [a] := by
  rw [List.take_add_one, List.getElem?_set_self h, List.take_set_of_le le_rfl]
  rfl

/-- The walk comes to the end of the chain, and reports its lists in order. -/
theorem msbReadLists_reads {lists : List (MsbList ε)} (hne : lists ≠ []) (h : MsbChainStored os W B start lists)
    (hB : B.length < 2 ^ 63) {fuel : Nat} (hfuel : lists.length ≤ fuel) {b : Built BinaryReader MsbFrame}
    (hb : b.source.cursor = ⟨B, start, be, long, [], flex⟩) (hcalm : b.source.heap.Calm) (hfits : b.object.Fits)
    (hcount : b.object.count + lists.length ≤ MSB_MAX_LISTS) :
    ∃ b' pos', msbReadLists os fuel b = (.ok (), b') ∧ b'.source.cursor = ⟨B, pos', be, long, [], flex⟩ ∧
      b'.source.heap.Calm ∧
      b'.object.store.layout.reported = b.object.layout.lists.take b.object.count ++ msbHeaders os W start lists := by
  induction lists generalizing start fuel b with
  | nil => exact absurd rfl hne
  | cons list rest ih =>
      rw [List.length_cons] at hfuel hcount
      obtain ⟨fuel, rfl⟩ : ∃ k, fuel = k + 1 := ⟨fuel - 1, by omega⟩
      have hless : b.object.count < MSB_MAX_LISTS := by omega
      obtain ⟨hlist, hnext, hrest⟩ := h
      obtain ⟨r, hread, hcursor, hcalm'⟩ := reads_msbReadListHeader hlist hnext hB b.source hb hcalm
      have htake : (b.object.add (list.header start)).layout.lists.take (b.object.count + 1) =
          b.object.layout.lists.take b.object.count ++ [list.header start] :=
        take_set_succ _ (hless.trans_eq hfits.length.symm)
      rw [msbReadLists_list hless hread, msbAfterList]
      cases rest with
      | nil =>
          have hzero : Int64.ofNat (msbNextOffset (list.stop os W start) ([] : List (MsbList ε))) = 0 := rfl
          rw [if_pos hzero]
          exact ⟨⟨r, b.object.add (list.header start), b.log ++ [b.object.access]⟩, list.nameAt start, rfl, hcursor,
            hcalm', htake⟩
      | cons list' rest =>
          have hstop := hrest.1.version.le
          have hpos : 0 < list.stop os W start := by
            have := W.le_stop 0 (list.entriesAt os be start) list.entries
            simp only [MsbList.stop, MsbList.entriesAt, MsbList.nameAt, MsbList.nextAt] at this ⊢
            omega
          have hint : (Int64.ofNat (list.stop os W start)).toInt = list.stop os W start := int64_toInt_of_lt (by omega)
          have hne0 : Int64.ofNat (list.stop os W start) ≠ 0 := by
            intro h0
            rw [h0] at hint
            have h0' : (0 : Int64).toInt = 0 := rfl
            omega
          have hin : list.stop os W start ≤ B.length := by omega
          have hfuel' : (list' :: rest).length ≤ fuel := by omega
          obtain ⟨r', hseek, hcursor', hcalm''⟩ :=
            reads_seek (c := ⟨B, list.nameAt start, be, long, [], flex⟩) hint hin r hcursor hcalm'
          rw [msbNextOffset, if_neg hne0, reading_bind_ok hseek]
          obtain ⟨b', pos', hrun, hsource, hcalmb, hreported⟩ := ih (List.cons_ne_nil _ _) hrest hfuel'
            (b := ⟨r', b.object.add (list.header start), b.log ++ [b.object.access]⟩) hcursor' hcalm''
            (hfits.add hless _) (by simp only [MsbFrame.add, List.length_cons] at hcount ⊢; omega)
          refine ⟨b', pos', hrun, hsource, hcalmb, hreported.trans ?_⟩
          rw [MsbFrame.add] at htake ⊢
          rw [htake, List.append_assoc]
          rfl

theorem reads_entryOffsets {ps : List Nat} {p : Nat} (hps : Holds B p (ps.flatMap (wordBytes be 8)))
    (hlt : ∀ q ∈ ps, q < 2 ^ 63) (hcount : ps.length ≤ INT32_MAX) (name : Option (List UInt8)) :
    Reads (msbReadEntryOffsets name (Int32.ofNat ps.length)) ⟨B, p, be, long, steps, flex⟩ (ps.map Int64.ofNat)
      ⟨B, p + 8 * ps.length, be, long, steps, flex⟩ := by
  have hlen : (ps.flatMap (wordBytes be 8)).length = ps.length * 8 :=
    length_flatMap_const ps fun _ _ => length_wordBytes ..
  have hwords := @orderedWords_of_flatMap be 8 ps fun q hq => (hlt q hq).trans (by decide)
  have h := (parses_array 8 ps.length (hcount.trans (by decide)) _ hlen ⟨B, p, be, long, steps, flex⟩).map
    fun ws => ws.map fun v => (UInt64.ofNat v).toInt64
  rw [hwords] at h
  have hreads := h hps
  rw [Cursor.advance, hlen, Nat.mul_comm] at hreads
  rw [msbReadEntryOffsets, int32_toInt_ofNat hcount]
  exact hreads

/-- At the data offset of every list, the offsets of its entries are found. -/
theorem reads_msbIterLists {lists : List (MsbList ε)} (h : MsbChainStored os W B start lists) (hB : B.length < 2 ^ 63) :
    ∃ pos', Reads (msbIterLists msbReadEntryOffsets (msbHeaders os W start lists)) ⟨B, pos, be, long, steps, flex⟩
      ((msbEntryPositions os W start lists).map fun ps => ps.map Int64.ofNat) ⟨B, pos', be, long, steps, flex⟩ := by
  induction lists generalizing start pos with
  | nil => exact ⟨pos, Reads.pure _ _⟩
  | cons list rest ih =>
      obtain ⟨hlist, hnext, hrest⟩ := h
      have hle := hnext.le
      simp only [MsbList.nextAt] at hle
      have hlength : (list.entryPositions os W start).length = list.entries.length := W.length_positions _ _ _
      have hmax : INT32_MAX = 2 ^ 31 - 1 := rfl
      have hcount := hlist.count
      have htable : Holds B (start + 16) ((list.entryPositions os W start).flatMap (wordBytes be 8)) :=
        hlist.offsets.holds (by omega)
      have hlt : ∀ q ∈ list.entryPositions os W start, q < 2 ^ 63 := by
        intro q hq
        exact Nat.lt_of_le_of_lt (W.le_of_stored hlist.entries q hq) hB
      obtain ⟨pos', htail⟩ := @ih (start + 16 + 8 * list.entries.length) (list.stop os W start) hrest
      refine ⟨pos', ?_⟩
      have hoffsets := @reads_entryOffsets be B long flex steps _ _ htable hlt (by omega) (some list.typeName)
      rw [hlength] at hoffsets
      refine Reads.seek (int64_toInt_of_lt (by omega)) (by omega) (hoffsets.bind (htail.bind (Reads.pure _ _)))

/-! ## The whole file -/

/-- The entries of a list stand where its offsets say, each with the bytes that its function writes there. -/
def MsbEntriesAt (W : MsbEntryWriter be ε) (out : List UInt8) (list : MsbList ε) (ps : List Nat) : Prop :=
  ps.length = list.entries.length ∧
    ∀ k e p, list.entries[k]? = some e → ps[k]? = some p → Holds out p (W.body e k p)

/-- What is read of a file with these lists: their names and numbers of entries in order, and at the data offset of each
    one the offsets of its entries. -/
structure MsbChainRead (os : Win32) (W : MsbEntryWriter be ε) (lists : List (MsbList ε)) (flexible : Bool)
    (out : List UInt8) : Prop where
  reported : ∀ heap frame log, heap.Calm → ∃ b, msbCommonReadHeader os (MSB_MAX_LISTS + 1)
      ⟨BinaryReader.create out be flexible heap, frame, log⟩ = (.ok (), b) ∧
    b.object.layout.reported.map (fun h => (h.name, h.entryCount)) =
      lists.map (fun list => (some list.typeName, Int32.ofNat list.entries.length)) ∧
    (msbCommonIterLists b.object.layout msbReadEntryOffsets b.source).1 =
      .ok ((msbEntryPositions os W 16 lists).map fun ps => ps.map Int64.ofNat)
  positions : List.Forall₂ (MsbEntriesAt W out) lists (msbEntryPositions os W 16 lists)

theorem MsbEntryWriter.Stored.entriesAt {k p : Nat} {es : List ε} (h : W.Stored B k p es) :
    ∀ j e q, es[j]? = some e → (W.positions k p es)[j]? = some q → Holds B q (W.body e (k + j) q) := by
  induction es generalizing k p with
  | nil => exact nofun
  | cons e es ih =>
      intro j e' q he hq
      cases j with
      | zero =>
          cases he
          cases hq
          exact h.1
      | succ j =>
          have hrest := ih h.2 j e' q he hq
          rwa [Nat.add_assoc, Nat.add_comm 1] at hrest

theorem msbEntriesAt_of_stored {lists : List (MsbList ε)} (h : MsbChainStored os W B start lists) :
    List.Forall₂ (MsbEntriesAt W B) lists (msbEntryPositions os W start lists) := by
  induction lists generalizing start with
  | nil => exact .nil
  | cons list rest ih =>
      refine .cons ⟨W.length_positions _ _ _, fun k e p he hp => ?_⟩ (ih h.2.2)
      have hbody := MsbEntryWriter.Stored.entriesAt h.1.entries k e p he hp
      rwa [Nat.zero_add] at hbody

theorem map_msbHeaders (start : Nat) (lists : List (MsbList ε)) :
    (msbHeaders os W start lists).map (fun h => (h.name, h.entryCount)) =
      lists.map fun list => (some list.typeName, Int32.ofNat list.entries.length) := by
  induction lists generalizing start with
  | nil => rfl
  | cons list rest ih => simp [msbHeaders, MsbList.header, ih]

theorem msbChainRead_of_stored {lists : List (MsbList ε)} (hne : lists ≠ []) (hlists : lists.length ≤ MSB_MAX_LISTS)
    (hheader : MsbHeaderStored be B) (h : MsbChainStored os W B 16 lists) (hB : B.length < 2 ^ 63) (flexible : Bool) :
    MsbChainRead os W lists flexible B := by
  refine ⟨fun heap frame log hcalm => ?_, msbEntriesAt_of_stored h⟩
  have hfuel : lists.length ≤ MSB_MAX_LISTS + 1 := hlists.trans (Nat.le_succ _)
  generalize MSB_MAX_LISTS + 1 = fuel at hfuel
  obtain ⟨r, hrun, hcursor, hcalm'⟩ := reads_msbCommonAssertHeader hheader
    (BinaryReader.create B be flexible heap) rfl hcalm
  have hcount : (MsbFrame.start be).count + lists.length ≤ MSB_MAX_LISTS := by
    rw [MsbFrame.start, Nat.zero_add]
    exact hlists
  obtain ⟨b', pos', hwalk, hcursor', hcalm'', hreported⟩ := msbReadLists_reads hne h hB hfuel
    (b := ⟨r, .start be, log⟩) hcursor hcalm' (MsbFrame.fits_start be) hcount
  have hheaders : b'.object.store.layout.reported = msbHeaders os W 16 lists := by
    rw [hreported]
    rfl
  obtain ⟨pos'', hiter⟩ := @reads_msbIterLists be ε os W B pos' 16 false flexible [] lists h hB
  obtain ⟨r', hresult, -⟩ := hiter _ hcursor' hcalm''
  have hread : msbCommonReadHeader os fuel ⟨BinaryReader.create B be flexible heap, frame, log⟩ =
      msbWalk os fuel ⟨r, .start be, log⟩ :=
    @msbCommonReadHeader_accepted os ⟨BinaryReader.create B be flexible heap, frame, log⟩ r hrun fuel
  refine ⟨{ b' with object := b'.object.store }, hread.trans (msbWalk_ok hwalk), ?_, ?_⟩
  · dsimp only
    rw [hheaders, map_msbHeaders]
  · rw [msbCommonIterLists]
    dsimp only
    rw [hheaders, hresult]

/-- The walk along the lists ends for all data, after no more lists than there may be and with no list if it fails; and a
    chain of at least one list that is written is walked exactly. -/
theorem msb_chain_walked (os : Win32) (hascii : os.AsciiCompatible) (hos : os.Utf8Exact) :
    (∀ (b : Built BinaryReader MsbFrame) (fuel : Nat), MSB_MAX_LISTS < fuel → MsbHeaderEnds os b fuel) ∧
      ∀ {be : Bool} {ε : Type} (W : MsbEntryWriter be ε) (format : MsbFormat) (lists : List (MsbList ε)) (heap : Heap)
        (out : List UInt8) (flexible : Bool), lists ≠ [] → lists.length ≤ MSB_MAX_LISTS →
        (∀ list ∈ lists, ∀ b ∈ list.typeName, b ≠ 0) →
        (writeToMemory be (msbWrite os format W.write lists) heap).1 = .ok out → out.length < 2 ^ 63 →
        MsbChainRead os W lists flexible out := by
  refine ⟨fun b fuel hfuel => msbCommonReadHeader_ends os b hfuel, ?_⟩
  intro be ε W format lists heap out flexible hne hlists hnames hok hlength
  obtain ⟨st, -, ⟨hheader, hchain⟩, -⟩ := (@puts_msbWrite be ε os W format hascii hos lists hlists hnames).toMemory
    False.elim hok
  exact msbChainRead_of_stored hne hlists hheader hchain hlength flexible

/-- Two lists, of which the second is empty. -/
def sampleMsbLists : List (MsbList (List UInt8)) :=
  [⟨35, cstr "MODEL_PARAM_ST", [[1, 2, 3], [4]]⟩, ⟨35, cstr "EVENT_PARAM_ST", []⟩]

def sampleMsb : List UInt8 :=
  match (writeToMemory false (msbWrite .ascii .msbs (MsbEntryWriter.bytes false).write sampleMsbLists) []).1 with
  | .ok out => out
  | .error _ => []

theorem sampleMsb_walked : MsbChainRead .ascii (MsbEntryWriter.bytes false) sampleMsbLists false sampleMsb :=
  (msb_chain_walked .ascii Win32.ascii_compatible Win32.ascii_utf8Exact).2 (MsbEntryWriter.bytes false) .msbs
    sampleMsbLists [] sampleMsb false (by decide) (by decide) (by simp [sampleMsbLists, cstr]) (by decide +kernel) (by decide +kernel)

/-- The header alone is written where there is no list, and is not accepted. -/
theorem empty_chain_not_walked :
    ∃ out, (writeToMemory false (msbWrite .ascii .msbs (MsbEntryWriter.bytes false).write []) []).1 = .ok out ∧
      ¬ MsbChainRead .ascii (MsbEntryWriter.bytes false) [] false out := by
  refine ⟨cstr "MSB " ++ [1, 0, 0, 0, 0x10, 0, 0, 0, 0, 0, 1, 0xFF], by decide +kernel, fun h => ?_⟩
  obtain ⟨b, hrun, -⟩ := h.reported [] ⟨0, .blank⟩ [] Heap.calm_nil
  have hfails : (msbCommonReadHeader .ascii (MSB_MAX_LISTS + 1) ⟨BinaryReader.create
      (cstr "MSB " ++ [1, 0, 0, 0, 0x10, 0, 0, 0, 0, 0, 1, 0xFF]) false false [], ⟨0, .blank⟩, []⟩).1 =
      .error .truncated := by decide +kernel
  rw [hrun] at hfails
  cases hfails

end

end SoulsFormats
