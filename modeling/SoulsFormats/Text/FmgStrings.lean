import Mathlib.Data.List.Forall2
import SoulsFormats.Core.FinalBytes
import SoulsFormats.Text.Fmg

set_option autoImplicit false

/-! # The strings of an FMG

Both ways to emit the strings leave, for every entry, an offset at which the final file holds the
entry's text; `TextAt` is that fact about one entry. The fast path for ASCII stores what the conversion
would have stored, and the table of the deduplicating writer always has an empty slot. -/

namespace SoulsFormats

open Bytes Fallible OpenAddressing BinaryWriter

variable {os : Win32} {unicode : Bool} {X : Nat → Prop} {w w' : BinaryWriter}

/-- The bytes of a text in the file, terminator included. -/
def fmgStored (os : Win32) (unicode be : Bool) (t : List UInt8) : List UInt8 :=
  if unicode then unitBytes be (os.units t) ++ [0, 0] else os.encoded .shiftJis t ++ [0]

/-- The text can be stored in the encoding of the container. -/
def FmgFits (os : Win32) (unicode : Bool) (t : List UInt8) : Prop :=
  if unicode then os.Fits16 t else os.Fits .shiftJis t

theorem FmgFits.noNul {t : List UInt8} (h : FmgFits os unicode t) : ∀ b ∈ t, b ≠ 0 := by
  cases unicode
  · exact Win32.Fits.noNul h
  · exact Win32.Fits16.noNul h

theorem fmgTextIsAscii_iff {t : List UInt8} (ht : ∀ b ∈ t, b ≠ 0) :
    fmgTextIsAscii t = true ↔ ∀ b ∈ t, b < 0x80 := by
  rw [fmgTextIsAscii, cText_eq_self ht, List.all_eq_true]
  simp only [decide_eq_true_eq]

theorem unitBytes_ascii (be : Bool) (t : List UInt8) :
    (t.flatMap fun p => if be then [0, p] else [p, 0]) = unitBytes be (t.map UInt8.toUInt16) := by
  induction t with
  | nil => rfl
  | cons b t ih =>
      have hhigh : b.toNat / 256 = 0 := Nat.div_eq_of_lt b.toNat_lt
      have hword : wordBytes be 2 b.toUInt16.toNat = if be then [0, b] else [b, 0] := by
        rw [wordBytes_two, UInt8.toNat_toUInt16, hhigh, UInt8.ofNat_toNat]
        rfl
      rw [List.flatMap_cons, ih, List.map_cons, unitBytes_cons, hword]

/-- **Writing one string stores it**, by the fast path or by the conversion. -/
theorem writeOneString_spec (hos : os.AsciiCompatible) {t : List UInt8} (ht : ∀ b ∈ t, b ≠ 0)
    (hw : w.Ready) :
    Post (writeOneString os unicode t) w fun _ w' =>
      Wrote (fmgStored os unicode w.bigEndian t) w w' := by
  intro a w' hrun
  rw [writeOneString, state_bind_run] at hrun
  unfold fmgStored
  by_cases hascii : fmgTextIsAscii t = true
  · rw [if_pos hascii] at hrun
    rw [fmgTextIsAscii_iff ht] at hascii
    cases unicode with
    | true =>
        rw [if_pos rfl] at hrun ⊢
        rw [fmgWriteUtf16Ascii, cText_eq_self ht, unitBytes_ascii, ← hos.units hascii] at hrun
        obtain ⟨_, w1, hcheck, hrun⟩ := bind_eq_ok.1 hrun
        have hw1 : w1 = w := by
          rw [check_run] at hcheck
          split at hcheck <;> cases hcheck
          rfl
        subst hw1
        have hemits : EmitsAt w1 (writeBytes (unitBytes w1.bigEndian (os.units t) ++ [0, 0]))
            (some (unitBytes w1.bigEndian (os.units t) ++ [0, 0])) := emitsAt_writeBytes hw _
        split at hrun
        · exact (emitsAt_alloc fun g => emitsAt_writeBytes (w :=
            { w1 with stream := { w1.stream with heap := g } }) hw _).post a w' hrun
        · exact hemits.post a w' hrun
    | false =>
        rw [if_neg (by decide)] at hrun ⊢
        rw [fmgWriteSjisAscii, cText_eq_self ht] at hrun
        rw [hos.encoded hascii]
        exact (emitsAt_writeBytes hw _).post a w' hrun
  · rw [if_neg hascii] at hrun
    cases unicode with
    | true =>
        rw [if_pos rfl] at hrun ⊢
        obtain ⟨bs, hbs, hwrote⟩ :=
          (emitsAt_writeStr hw (utf16Encode_steady os) (some t) true).wrote hrun
        have hgranted : granted (if w.bigEndian then utf8ToUtf16be os (some t) true
            else utf8ToUtf16le os (some t) true) = some bs := by
          rw [← hbs, utf16Encode]
          cases w.bigEndian <;> rfl
        rw [granted_utf8ToUtf16 ht hgranted] at hwrote
        exact hwrote
    | false =>
        rw [if_neg (by decide)] at hrun ⊢
        obtain ⟨bs, hbs, hwrote⟩ :=
          (emitsAt_writeStr hw (fun _ => utf8ToMbcs_steady os .shiftJis) (some t) true).wrote hrun
        rw [granted_utf8ToMbcs ht hbs] at hwrote
        exact hwrote

/-- The offset of an entry leads to its text: 0 for a deleted one, and where the text stands for any
    other, the empty text included. -/
def TextAt (os : Win32) (unicode be : Bool) (B : List UInt8) (off : Int64) :
    Option (List UInt8) → Prop
  | none => off = 0
  | some t => ∃ p, 0 < p ∧ off = Int64.ofNat p ∧ Holds B p (fmgStored os unicode be t)

/-- What the emission of the strings is to leave behind. -/
abbrev StringsAt (os : Win32) (unicode be : Bool) (offsets : List Int64) (view : List FmgEntry)
    (B : List UInt8) : Prop :=
  List.Forall₂ (fun off (v : FmgEntry) => TextAt os unicode be B off v.textUtf8) offsets view

theorem fmgEmitStringsSimple_spec (hos : os.AsciiCompatible) (view : List FmgEntry)
    (hfit : ∀ v ∈ view, ∀ t, v.textUtf8 = some t → ∀ b ∈ t, b ≠ 0) (hw : AtEnd X w)
    (hpos : 0 < w.position) :
    Post (fmgEmitStringsSimple os unicode view) w fun offsets w' =>
      Extends X w w' (StringsAt os unicode w.bigEndian offsets view) := by
  induction view generalizing w with
  | nil =>
      intro offsets w' hrun
      cases hrun
      exact Extends.refl hw fun B _ => List.Forall₂.nil
  | cons v view ih =>
      intro offsets w' hrun
      have hfit' := fun v' hv' => hfit v' (List.mem_cons_of_mem v hv')
      rw [fmgEmitStringsSimple] at hrun
      cases htext : v.textUtf8 with
      | none =>
          simp only [htext] at hrun
          obtain ⟨offs, w1, hrest, hpure⟩ := bind_eq_ok.1 hrun
          cases hpure
          exact (ih hfit' hw hpos _ _ hrest).mono fun B h => .cons (by rw [htext]; rfl) h
      | some t =>
          simp only [htext] at hrun
          rw [peek_bind_run] at hrun
          obtain ⟨_, w1, hstr, hrun⟩ := bind_eq_ok.1 hrun
          obtain ⟨offs, w2, hrest, hpure⟩ := bind_eq_ok.1 hrun
          cases hpure
          have hwrote := writeOneString_spec hos (hfit v List.mem_cons_self t htext) hw.inv.ready
            _ _ hstr
          have hext := hw.extends hwrote
          have hstrings := ih hfit' hext.atEnd (lt_of_lt_of_le hpos hext.position_le) _ _ hrest
          rw [hext.bigEndian] at hstrings
          refine (hext.trans hstrings).mono fun B h => .cons ?_ h.2
          rw [htext]
          exact ⟨w.position, hpos, rfl, h.1⟩

/-! ## The deduplicating writer -/

/-- Where the walk for a text starts. -/
def dedupHome (t : List UInt8) : Nat := (fmgTextHash t).toNat

/-- The table holds each text once, under its hash, and has room for `n` more. -/
structure DedupOk (slots : List (Slot FmgDedupSlot)) (n : Nat) : Prop where
  sound : Sound FmgDedupSlot.text dedupHome slots
  masks : Masks (slots.length - 1) slots.length
  hashed : ∀ s, .occupied s ∈ slots → s.hash = fmgTextHash s.text ∧ ∀ b ∈ s.text, b ≠ 0
  room : usedCount slots + n < slots.length

theorem fmgDedupStrings_spec (hos : os.AsciiCompatible) (view : List FmgEntry)
    (slots : List (Slot FmgDedupSlot))
    (hfit : ∀ v ∈ view, ∀ t, v.textUtf8 = some t → ∀ b ∈ t, b ≠ 0)
    (hslots : DedupOk slots view.length) (hw : AtEnd X w) (hpos : 0 < w.position) :
    Post (fmgDedupStrings os unicode view slots) w fun offsets w' =>
      Extends X w w' fun B =>
        (∀ s, .occupied s ∈ slots → TextAt os unicode w.bigEndian B s.offset (some s.text)) →
        StringsAt os unicode w.bigEndian offsets view B := by
  induction view generalizing w slots with
  | nil =>
      intro offsets w' hrun
      cases hrun
      exact Extends.refl hw fun B _ _ => List.Forall₂.nil
  | cons v view ih =>
      intro offsets w' hrun
      have hfit' := fun v' hv' => hfit v' (List.mem_cons_of_mem v hv')
      have hroom := hslots.room
      rw [List.length_cons] at hroom
      have hslots' : DedupOk slots view.length := ⟨hslots.sound, hslots.masks, hslots.hashed, by omega⟩
      rw [fmgDedupStrings] at hrun
      cases htext : v.textUtf8 with
      | none =>
          simp only [htext] at hrun
          obtain ⟨offs, w1, hrest, hpure⟩ := bind_eq_ok.1 hrun
          cases hpure
          exact (ih slots hfit' hslots' hw hpos _ _ hrest).mono fun B h hs =>
            .cons (by rw [htext]; rfl) (h hs)
      | some t =>
          simp only [htext] at hrun
          have ht := hfit v List.mem_cons_self t htext
          -- on this table the comparison of the walk compares texts
          have hsame : ∀ s, .occupied s ∈ slots →
              ((s.hash == fmgTextHash t && cText s.text == cText t) = true ↔ s.text = t) := by
            intro s hs
            obtain ⟨hhash, hnul⟩ := hslots.hashed s hs
            rw [cText_eq_self hnul, cText_eq_self ht, Bool.and_eq_true, beq_iff_eq, beq_iff_eq, hhash]
            exact ⟨And.right, fun heq => ⟨by rw [heq], heq⟩⟩
          obtain ⟨k, hlookup, hend⟩ := hslots.sound.lookup_or_store hslots.masks hsame (by omega)
          have hwalk : lookup slots (slots.length - 1)
              (fun s => s.hash == fmgTextHash t && cText s.text == cText t) slots.length
              ((fmgTextHash t).toNat &&& (slots.length - 1)) = some k := hlookup
          rw [hwalk] at hrun
          rcases hend with ⟨s, hk, hkey⟩ | ⟨hk, -, hstore⟩
          · simp only [hk] at hrun
            obtain ⟨offs, w1, hrest, hpure⟩ := bind_eq_ok.1 hrun
            cases hpure
            refine (ih slots hfit' hslots' hw hpos _ _ hrest).mono fun B h hs => .cons ?_ (h hs)
            rw [htext, ← hkey]
            exact hs s (List.mem_of_getElem? hk)
          · simp only [hk] at hrun
            rw [peek_bind_run] at hrun
            obtain ⟨_, w1, hstr, hrun⟩ := bind_eq_ok.1 hrun
            obtain ⟨offs, w2, hrest, hpure⟩ := bind_eq_ok.1 hrun
            cases hpure
            let s : FmgDedupSlot := ⟨fmgTextHash t, Int64.ofNat w.position, t⟩
            obtain ⟨hsound, hmem, hused⟩ := hstore s rfl
            have hset : DedupOk (slots.set k (.occupied s)) view.length := by
              refine ⟨hsound, by rw [List.length_set]; exact hslots.masks, fun s' hs' => ?_, ?_⟩
              · rcases (hmem s').1 hs' with rfl | hs'
                · exact ⟨rfl, ht⟩
                · exact hslots.hashed s' hs'
              · rw [hused, List.length_set]
                omega
            have hext := hw.extends (writeOneString_spec hos ht hw.inv.ready _ _ hstr)
            have hstrings := ih _ hfit' hset hext.atEnd (lt_of_lt_of_le hpos hext.position_le) _ _ hrest
            rw [hext.bigEndian] at hstrings
            refine (hext.trans hstrings).mono fun B h hs => ?_
            have hnew : TextAt os unicode w.bigEndian B (Int64.ofNat w.position) (some t) :=
              ⟨w.position, hpos, rfl, h.1⟩
            refine .cons (by rw [htext]; exact hnew) (h.2 fun s' hs' => ?_)
            rcases (hmem s').1 hs' with rfl | hs'
            · exact hnew
            · exact hs s' hs'

/-- The size of the table is a power of two, and at least twice the number of entries. -/
theorem fmgDedupCap_spec {need : Nat} (fuel cap cap' : Nat) (hcap : ∃ k, cap = 2 ^ k)
    (hrun : fmgDedupCap need fuel cap = some cap') :
    (∃ k, cap' = 2 ^ k) ∧ need ≤ cap' ∧ cap ≤ cap' := by
  induction fuel generalizing cap with
  | zero => cases hrun
  | succ fuel ih =>
      rw [fmgDedupCap] at hrun
      split at hrun
      · split at hrun
        · cases hrun
        · obtain ⟨k, rfl⟩ := hcap
          obtain ⟨hpow, hneed, hle⟩ := ih (2 ^ k * 2) ⟨k + 1, by rw [Nat.pow_succ]⟩ hrun
          exact ⟨hpow, hneed, by omega⟩
      · cases hrun
        exact ⟨hcap, by omega, le_rfl⟩

/-- **Either way of emitting the strings leads every entry to its text.** -/
theorem fmgEmitStrings_spec (hos : os.AsciiCompatible) (fmg : Fmg) (view : List FmgEntry)
    (hfit : ∀ v ∈ view, ∀ t, v.textUtf8 = some t → ∀ b ∈ t, b ≠ 0) (hw : AtEnd X w)
    (hpos : 0 < w.position) :
    Post (fmgEmitStrings os fmg view) w fun offsets w' =>
      Extends X w w' (StringsAt os fmg.unicode w.bigEndian offsets view) := by
  unfold fmgEmitStrings
  cases fmg.reuseOffsets with
  | false => exact fmgEmitStringsSimple_spec hos view hfit hw hpos
  | true =>
      intro offsets w' hrun
      rw [if_pos rfl, fmgEmitStringsDedup] at hrun
      cases hcap : fmgDedupCap (view.length * 2) 65 16 with
      | none =>
          rw [hcap] at hrun
          cases hrun
      | some cap =>
          rw [hcap] at hrun
          obtain ⟨_, w1, halloc, hrun⟩ := bind_eq_ok.1 hrun
          have hext := hw.extends (post_onHeap hw.inv.ready Heap.alloc _ _ halloc)
          obtain ⟨⟨k, hk⟩, hneed, hlarge⟩ := fmgDedupCap_spec 65 16 cap ⟨4, rfl⟩ hcap
          have hempty : ∀ s, .occupied s ∉ List.replicate cap (Slot.empty : Slot FmgDedupSlot) := by
            intro s hs
            simp at hs
          have hslots : DedupOk (List.replicate cap .empty) view.length := by
            refine ⟨sound_replicate (by omega), ?_, fun s hs => absurd hs (hempty s), ?_⟩
            · rw [List.length_replicate, hk]
              exact masks_two_pow k
            · have hused : usedCount (List.replicate cap (Slot.empty : Slot FmgDedupSlot)) = 0 := by
                simp [usedCount, List.countP_replicate, Slot.used]
              rw [hused, List.length_replicate]
              omega
          have hstrings := fmgDedupStrings_spec hos view _ hfit hslots hext.atEnd
            (lt_of_lt_of_le hpos hext.position_le) _ _ hrun
          rw [hext.bigEndian] at hstrings
          exact (hext.trans hstrings).mono fun B h => h.2 fun s hs => absurd hs (hempty s)

end SoulsFormats
