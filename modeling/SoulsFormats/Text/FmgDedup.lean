import SoulsFormats.Text.FmgRoundtrip

set_option autoImplicit false

/-! # Deduplicated strings are plain strings

The deduplicating writer keeps a table of the texts it has stored. `DedupPlaced` says where their offsets
are: below the position, and different for different texts, since every text takes at least the bytes of
its terminator. With the invariant of the table (`DedupOk`) this gives the offset table entry by entry. -/

namespace SoulsFormats

open Bytes Fallible OpenAddressing BinaryWriter

variable {os : Win32} {unicode : Bool} {X : Nat → Prop} {w w' : BinaryWriter}

/-! ## The table along the loop -/

/-- The comparison of the walk. -/
def sameText (text : List UInt8) (slot : FmgDedupSlot) : Bool :=
  slot.hash == fmgTextHash text && cText slot.text == cText text

/-- The loop of `fmgDedupStrings`, with the table it leaves. -/
def fmgDedupTable (os : Win32) (unicode : Bool) :
    List FmgEntry → List (Slot FmgDedupSlot) → WriteM (List Int64 × List (Slot FmgDedupSlot))
  | [], slots => pure ([], slots)
  | v :: view, slots =>
    match v.textUtf8 with
    | none => do
      let (offsets, slots') ← fmgDedupTable os unicode view slots
      pure (0 :: offsets, slots')
    | some text =>
      let h := fmgTextHash text
      let mask := slots.length - 1
      match lookup slots mask (sameText text) slots.length (h.toNat &&& mask) with
      | none => fail .nonTermination
      | some k =>
        match slots[k]? with
        | some (.occupied slot) => do
          let (offsets, slots') ← fmgDedupTable os unicode view slots
          pure (slot.offset :: offsets, slots')
        | _ => do
          let pos ← peek position
          writeOneString os unicode text
          let (offsets, slots') ← fmgDedupTable os unicode view
            (slots.set k (.occupied ⟨h, Int64.ofNat pos, text⟩))
          pure (Int64.ofNat pos :: offsets, slots')

/-- The loop goes on from the table that it has left. -/
theorem fmgDedupStrings_append (view rest : List FmgEntry) (slots : List (Slot FmgDedupSlot)) :
    fmgDedupStrings os unicode (view ++ rest) slots =
      fmgDedupTable os unicode view slots >>= fun r =>
        fmgDedupStrings os unicode rest r.2 >>= fun offsets => pure (r.1 ++ offsets) := by
  induction view generalizing slots with
  | nil => simp [fmgDedupTable]
  | cons v view ih =>
      rw [List.cons_append, fmgDedupStrings, fmgDedupTable]
      cases htext : v.textUtf8 with
      | none => simp [ih]
      | some t =>
          have hsame : (fun s : FmgDedupSlot => s.hash == fmgTextHash t && cText s.text == cText t)
              = sameText t := rfl
          simp only [hsame]
          cases lookup slots (slots.length - 1) (sameText t) slots.length
              ((fmgTextHash t).toNat &&& (slots.length - 1)) with
          | none => rfl
          | some k =>
              simp only
              rcases slots[k]? with _ | _ | _ | s
              · simp [ih, bind_assoc]
              · simp [ih, bind_assoc]
              · simp [ih, bind_assoc]
              · simp [ih]

/-- The comparison of the walk compares texts. -/
theorem DedupOk.same {slots : List (Slot FmgDedupSlot)} {n : Nat} (h : DedupOk slots n)
    {t : List UInt8} (ht : ∀ b ∈ t, b ≠ 0) (s : FmgDedupSlot) (hs : .occupied s ∈ slots) :
    sameText t s = true ↔ s.text = t := by
  obtain ⟨hhash, hnul⟩ := h.hashed s hs
  rw [sameText, cText_eq_self hnul, cText_eq_self ht, Bool.and_eq_true, beq_iff_eq, beq_iff_eq, hhash]
  exact ⟨And.right, fun heq => ⟨by rw [heq], heq⟩⟩

/-- A table with room has an empty slot, and the walk for any text ends. -/
theorem DedupOk.walk {slots : List (Slot FmgDedupSlot)} {n : Nat} (h : DedupOk slots n) :
    .empty ∈ slots ∧ ∀ t : List UInt8, (∀ b ∈ t, b ≠ 0) →
      lookup slots (slots.length - 1) (sameText t) slots.length
        ((fmgTextHash t).toNat &&& (slots.length - 1)) ≠ none := by
  have hroom := h.room
  refine ⟨empty_mem_of_usedCount_lt (by omega), fun t ht => ?_⟩
  obtain ⟨k, hlookup, -⟩ := h.sound.lookup_spec h.masks (h.same ht)
  have hwalk : lookup slots (slots.length - 1) (sameText t) slots.length
      ((fmgTextHash t).toNat &&& (slots.length - 1)) = some k := hlookup
  rw [hwalk]
  exact Option.some_ne_none k

/-! ## The offsets in the table -/

/-- The texts of the table are stored below `pos`, each at a place of its own. -/
structure DedupPlaced (slots : List (Slot FmgDedupSlot)) (pos : Nat) : Prop where
  placed : ∀ s, .occupied s ∈ slots → ∃ p, p < pos ∧ s.offset = Int64.ofNat p
  apart : ∀ s s', .occupied s ∈ slots → .occupied s' ∈ slots → s.offset = s'.offset → s.text = s'.text

/-- The offset of an entry, as the table has it. -/
def Recorded (slots : List (Slot FmgDedupSlot)) (off : Int64) (v : FmgEntry) : Prop :=
  match v.textUtf8 with
  | none => off = 0
  | some t => ∃ s, .occupied s ∈ slots ∧ s.text = t ∧ s.offset = off

theorem ofNat_inj_of_le {p q : Nat} (hp : p ≤ SIZE_MAX) (hq : q ≤ SIZE_MAX)
    (h : Int64.ofNat p = Int64.ofNat q) : p = q := by
  have hmax : SIZE_MAX = 2 ^ 64 - 1 := rfl
  have hword := congrArg (fun v => v.toUInt64.toNat) h
  have hnat : ∀ n : Nat, (Int64.ofNat n).toUInt64.toNat = n % 2 ^ 64 := fun n => by
    rw [Int64.toUInt64_ofNat', UInt64.toNat_ofNat']
  simp only [hnat] at hword
  omega

/-- A text stored at the position gets an offset that the table does not have yet. -/
theorem DedupPlaced.store {slots slots' : List (Slot FmgDedupSlot)} {pos pos' : Nat}
    (h : DedupPlaced slots pos) {s : FmgDedupSlot} (hoff : s.offset = Int64.ofNat pos)
    (hmem : ∀ s', .occupied s' ∈ slots' ↔ s' = s ∨ .occupied s' ∈ slots) (hlt : pos < pos')
    (hmax : pos ≤ SIZE_MAX) : DedupPlaced slots' pos' := by
  have hnew : ∀ s', .occupied s' ∈ slots → s'.offset ≠ s.offset := by
    intro s' hs' heq
    obtain ⟨p, hp, hpoff⟩ := h.placed s' hs'
    rw [hpoff, hoff] at heq
    have hpos := ofNat_inj_of_le (by omega) hmax heq
    omega
  constructor
  · intro s' hs'
    rcases (hmem s').1 hs' with rfl | hs'
    · exact ⟨pos, hlt, hoff⟩
    · obtain ⟨p, hp, hpoff⟩ := h.placed s' hs'
      exact ⟨p, by omega, hpoff⟩
  · intro s1 s2 h1 h2 heq
    rcases (hmem s1).1 h1 with rfl | h1 <;> rcases (hmem s2).1 h2 with rfl | h2
    · rfl
    · exact absurd heq.symm (hnew s2 h2)
    · exact absurd heq (hnew s1 h1)
    · exact h.apart s1 s2 h1 h2 heq

/-- **The loop keeps the table in order**: it has room for the texts to come, its offsets are apart, and
    the offset of every entry is the one the table has for its text. -/
theorem fmgDedupTable_spec (hos : os.AsciiCompatible) (view : List FmgEntry)
    (slots : List (Slot FmgDedupSlot)) (n : Nat)
    (hview : ∀ v ∈ view, ∀ t, v.textUtf8 = some t → ∀ b ∈ t, b ≠ 0)
    (hslots : DedupOk slots (view.length + n)) (hw : AtEnd X w) (hplaced : DedupPlaced slots w.position) :
    Post (fmgDedupTable os unicode view slots) w fun r w' =>
      AtEnd X w' ∧ DedupOk r.2 n ∧ DedupPlaced r.2 w'.position ∧
        (∀ s, .occupied s ∈ slots → .occupied s ∈ r.2) ∧ List.Forall₂ (Recorded r.2) r.1 view := by
  induction view generalizing w slots with
  | nil =>
      intro r w' hrun
      cases hrun
      rw [List.length_nil, Nat.zero_add] at hslots
      exact ⟨hw, hslots, hplaced, fun s hs => hs, .nil⟩
  | cons v view ih =>
      intro r w' hrun
      have hview' := fun v' hv' => hview v' (List.mem_cons_of_mem v hv')
      have hroom := hslots.room
      rw [List.length_cons] at hroom
      have hslots' : DedupOk slots (view.length + n) :=
        ⟨hslots.sound, hslots.masks, hslots.hashed, by omega⟩
      rw [fmgDedupTable] at hrun
      cases htext : v.textUtf8 with
      | none =>
          simp only [htext] at hrun
          obtain ⟨⟨offs, slots1⟩, w1, hrest, hpure⟩ := bind_eq_ok.1 hrun
          cases hpure
          obtain ⟨hend, hok, hpl, hkept, hrec⟩ := ih slots hview' hslots' hw hplaced _ _ hrest
          exact ⟨hend, hok, hpl, hkept, .cons (by rw [Recorded, htext]) hrec⟩
      | some t =>
          simp only [htext] at hrun
          have ht := hview v List.mem_cons_self t htext
          obtain ⟨k, hlookup, hend⟩ :=
            hslots.sound.lookup_or_store hslots.masks (hslots.same ht) (by omega)
          have hwalk : lookup slots (slots.length - 1) (sameText t) slots.length
              ((fmgTextHash t).toNat &&& (slots.length - 1)) = some k := hlookup
          rw [hwalk] at hrun
          rcases hend with ⟨s, hk, hkey⟩ | ⟨hk, -, hstore⟩
          · -- the text is in the table
            simp only [hk] at hrun
            obtain ⟨⟨offs, slots1⟩, w1, hrest, hpure⟩ := bind_eq_ok.1 hrun
            cases hpure
            obtain ⟨hatEnd, hok, hpl, hkept, hrec⟩ := ih slots hview' hslots' hw hplaced _ _ hrest
            refine ⟨hatEnd, hok, hpl, hkept, .cons ?_ hrec⟩
            rw [Recorded, htext]
            exact ⟨s, hkept s (List.mem_of_getElem? hk), hkey, rfl⟩
          · -- the text is stored at the position
            simp only [hk] at hrun
            rw [peek_bind_run] at hrun
            obtain ⟨_, w1, hstr, hrun⟩ := bind_eq_ok.1 hrun
            obtain ⟨⟨offs, slots1⟩, w2, hrest, hpure⟩ := bind_eq_ok.1 hrun
            cases hpure
            let s : FmgDedupSlot := ⟨fmgTextHash t, Int64.ofNat w.position, t⟩
            obtain ⟨hsound, hmem, hused⟩ := hstore s rfl
            have hset : DedupOk (slots.set k (.occupied s)) (view.length + n) := by
              refine ⟨hsound, by rw [List.length_set]; exact hslots.masks, fun s' hs' => ?_, ?_⟩
              · rcases (hmem s').1 hs' with rfl | hs'
                · exact ⟨rfl, ht⟩
                · exact hslots.hashed s' hs'
              · rw [hused, List.length_set]
                omega
            have hwrote := writeOneString_spec hos ht hw.inv.ready _ _ hstr
            have hext := hw.extends hwrote
            have hpos : w.position < w1.position := by
              have hlen : 0 < (fmgStored os unicode w.bigEndian t).length := by
                unfold fmgStored
                split <;> simp
              rw [hwrote.position]
              omega
            have hmax : w.position ≤ SIZE_MAX := by
              rw [hw.position]
              exact hw.inv.fits
            obtain ⟨hatEnd, hok, hpl, hkept, hrec⟩ := ih _ hview' hset hext.atEnd
              (hplaced.store rfl hmem hpos hmax) _ _ hrest
            refine ⟨hatEnd, hok, hpl, fun s' hs' => hkept s' ((hmem s').2 (.inr hs')), .cons ?_ hrec⟩
            rw [Recorded, htext]
            exact ⟨s, hkept s ((hmem s).2 (.inl rfl)), rfl, rfl⟩

/-- The offsets alone. -/
theorem fmgDedupStrings_eq (view : List FmgEntry) (slots : List (Slot FmgDedupSlot)) :
    fmgDedupStrings os unicode view slots =
      fmgDedupTable os unicode view slots >>= fun r => pure r.1 := by
  have h : fmgDedupStrings os unicode (view ++ []) slots =
      fmgDedupTable os unicode view slots >>= fun r =>
        fmgDedupStrings os unicode [] r.2 >>= fun offsets => pure (r.1 ++ offsets) :=
    fmgDedupStrings_append view [] slots
  rw [List.append_nil] at h
  rw [h]
  simp [fmgDedupStrings]

/-- The table that the emission starts from. -/
theorem dedupOk_replicate {n cap : Nat} (hcap : fmgDedupCap (n * 2) 65 16 = some cap) :
    DedupOk (List.replicate cap .empty) n ∧ ∀ pos, DedupPlaced (List.replicate cap .empty) pos := by
  obtain ⟨⟨k, hk⟩, hneed, hlarge⟩ := fmgDedupCap_spec 65 16 cap ⟨4, rfl⟩ hcap
  have hempty : ∀ s, .occupied s ∉ List.replicate cap (Slot.empty : Slot FmgDedupSlot) := by
    intro s hs
    simp at hs
  refine ⟨⟨sound_replicate (by omega), ?_, fun s hs => absurd hs (hempty s), ?_⟩, fun pos =>
    ⟨fun s hs => absurd hs (hempty s), fun s s' hs => absurd hs (hempty s)⟩⟩
  · rw [List.length_replicate, hk]
    exact masks_two_pow k
  · have hused : usedCount (List.replicate cap (Slot.empty : Slot FmgDedupSlot)) = 0 := by
      simp [usedCount, List.countP_replicate, Slot.used]
    rw [hused, List.length_replicate]
    omega

/-! ## What a reader finds behind the offsets -/

section Reading

open BinaryReader

/-- The reader of a text comes to a settled result, whatever file it stands in. -/
theorem fmgReadText_settles (os : Win32) (unicode be : Bool) (text : Option (List UInt8)) :
    ∃ o : Option (Option (List UInt8)), ∀ (c : Cursor) (off : Int64),
      TextAt os unicode be c.mem off text → c.bigEndian = be → c.pos ≤ c.mem.length →
      c.mem.length < 2 ^ 63 → SettlesAt (fmgReadText os unicode off.toInt) c o := by
  cases text with
  | none =>
      refine ⟨some none, fun c off hoff _ _ _ => ?_⟩
      have hzero : off = 0 := hoff
      subst hzero
      exact Reads.pure _ _
  | some t =>
      obtain ⟨o, ho⟩ := getText_settles os unicode be t
      refine ⟨o.map some, fun c off hoff hbe hpos hshort => ?_⟩
      obtain ⟨p, hp, rfl, hheld⟩ := hoff
      have hle := hheld.le
      have hint : (Int64.ofNat p).toInt = p := Int64.toInt_ofNat_of_lt (by omega)
      have hget := ho c p hheld hbe hpos
      rw [hint, fmgReadText, if_pos (by omega)]
      cases unicode <;> cases o with
      | none => exact Refuses.bind hget
      | some a => exact Reads.bind hget (Reads.pure _ _)

/-- A settled computation reads nothing else. -/
theorem SettlesAt.reads_iff {α : Type} {m : ReadM α} {c : Cursor} {o : Option α} (h : SettlesAt m c o)
    (a : α) : Reads m c a c ↔ o = some a := by
  let r : BinaryReader := ⟨⟨c.mem, c.pos⟩, c.bigEndian, c.varintLong, c.steps, 0, c.isFlexible, []⟩
  constructor
  · intro hread
    obtain ⟨r', hrun, -⟩ := hread r rfl Heap.calm_nil
    cases o with
    | none => exact absurd (by rw [hrun]) (h r rfl Heap.calm_nil a)
    | some b =>
        obtain ⟨r'', hrun', -⟩ := h r rfl Heap.calm_nil
        rw [hrun] at hrun'
        cases hrun'
        rfl
  · rintro rfl
    exact h

/-- The offset tables of two files lead a reader to the same entries. -/
def SameEntries (os : Win32) (unicode be : Bool) (B B' : List UInt8) (offsets offsets' : List Int64) :
    Prop :=
  List.Forall₂ (fun off off' => ∀ c c' : Cursor, c.mem = B → c'.mem = B' → c.bigEndian = be →
    c'.bigEndian = be → c.pos ≤ B.length → c'.pos ≤ B'.length →
    ∀ text, Reads (fmgReadText os unicode off.toInt) c text c ↔
      Reads (fmgReadText os unicode off'.toInt) c' text c') offsets offsets'

theorem StringsAt.sameEntries {be : Bool} {B B' : List UInt8} {offsets offsets' : List Int64}
    {view : List FmgEntry} (h : StringsAt os unicode be offsets view B)
    (h' : StringsAt os unicode be offsets' view B') (hB : B.length < 2 ^ 63) (hB' : B'.length < 2 ^ 63) :
    SameEntries os unicode be B B' offsets offsets' := by
  induction h generalizing offsets' with
  | nil =>
      cases h'
      exact .nil
  | @cons off v offs view htext _ ih =>
      rcases h' with _ | ⟨htext', hrest'⟩
      refine .cons (fun c c' hc hc' hbe hbe' hpos hpos' text => ?_) (ih hrest')
      obtain ⟨o, ho⟩ := fmgReadText_settles os unicode be v.textUtf8
      subst hc hc'
      rw [(ho c _ htext hbe hpos hB).reads_iff, (ho c' _ htext' hbe' hpos' hB').reads_iff]

end Reading

/-! ## Success -/

/-- What `writeOneString` stores, if the text can be converted. -/
def fmgOneString (os : Win32) (unicode be : Bool) (t : List UInt8) : Option (List UInt8) :=
  if fmgTextIsAscii t then
    if unicode then
      if (cText t).length ≤ SIZE_MAX / 2 - 1 then
        some (((cText t).flatMap fun p => if be then [0, p] else [p, 0]) ++ [0, 0])
      else none
    else some (cText t ++ [0])
  else if unicode then granted (utf16Encode os be (some t) true)
  else granted (utf8ToShiftJis os (some t) true)

theorem emitsAt_writeOneString (hw : w.Ready) (t : List UInt8) :
    EmitsAt w (writeOneString os unicode t) (fmgOneString os unicode w.bigEndian t) := by
  have hstate : EmitsAt w (if fmgTextIsAscii t then
      if unicode then fmgWriteUtf16Ascii w.bigEndian t else fmgWriteSjisAscii t
      else if unicode then writeUtf16 os (some t) true else writeShiftJis os (some t) true)
      (fmgOneString os unicode w.bigEndian t) := by
    unfold fmgOneString
    by_cases hascii : fmgTextIsAscii t = true
    · rw [if_pos hascii, if_pos hascii]
      cases unicode with
      | true =>
          rw [if_pos rfl, if_pos rfl]
          refine emitsAt_check fun _ => ?_
          simp only
          split
          · exact emitsAt_alloc fun g => emitsAt_writeBytes (w :=
              { w with stream := { w.stream with heap := g } }) hw _
          · exact emitsAt_writeBytes hw _
      | false =>
          rw [if_neg (by decide), if_neg (by decide)]
          exact emitsAt_writeBytes hw _
    · rw [if_neg hascii, if_neg hascii]
      cases unicode with
      | true => exact emitsAt_writeStr hw (utf16Encode_steady os) (some t) true
      | false => exact emitsAt_writeStr hw (fun _ => utf8ToMbcs_steady os .shiftJis) (some t) true
  exact hstate.congr (by rw [writeOneString, state_bind_run])

/-- **Where every text can be written, the table loses none.** The loop over the table stands nowhere behind
    the plain loop, so what fits there fits here. -/
theorem fmgDedupTable_succeeds (view : List FmgEntry)
    (slots : List (Slot FmgDedupSlot)) {offsets : List Int64} {w1 w1' : BinaryWriter}
    (hview : ∀ v ∈ view, ∀ t, v.textUtf8 = some t → ∀ b ∈ t, b ≠ 0)
    (hsimple : fmgEmitStringsSimple os unicode view w1 = (.ok offsets, w1')) (hready1 : w1.Ready)
    (hready : w.Ready) (hbe : w.bigEndian = w1.bigEndian) (hle : w.position ≤ w1.position)
    (hcalm : w.stream.heap.Calm) (hslots : DedupOk slots view.length) :
    ∃ r w', fmgDedupTable os unicode view slots w = (.ok r, w') := by
  induction view generalizing w w1 w1' slots offsets with
  | nil => exact ⟨_, _, rfl⟩
  | cons v view ih =>
      have hview' := fun v' hv' => hview v' (List.mem_cons_of_mem v hv')
      have hroom := hslots.room
      rw [List.length_cons] at hroom
      have hslots' : DedupOk slots view.length := ⟨hslots.sound, hslots.masks, hslots.hashed, by omega⟩
      rw [fmgEmitStringsSimple] at hsimple
      rw [fmgDedupTable]
      cases htext : v.textUtf8 with
      | none =>
          simp only [htext] at hsimple ⊢
          obtain ⟨offs, w2, hrest, -⟩ := bind_eq_ok.1 hsimple
          obtain ⟨r, w', hrun⟩ := ih slots hview' hrest hready1 hready hbe hle hcalm hslots'
          exact ⟨_, w', by rw [bind_ok hrun]; rfl⟩
      | some t =>
          simp only [htext] at hsimple ⊢
          have ht := hview v List.mem_cons_self t htext
          rw [peek_bind_run] at hsimple
          obtain ⟨_, w2, hstr, hsimple⟩ := bind_eq_ok.1 hsimple
          obtain ⟨offs, w3, hrest, -⟩ := bind_eq_ok.1 hsimple
          obtain ⟨x, hx, hwrote⟩ := (emitsAt_writeOneString hready1 t).wrote hstr
          have hready2 : w2.Ready := ⟨hwrote.wf, by rw [hwrote.rest]; exact hready1.2⟩
          have hbe2 : w2.bigEndian = w1.bigEndian := hwrote.bigEndian
          have hpos2 := hwrote.position
          obtain ⟨k, hlookup, hend⟩ :=
            hslots.sound.lookup_or_store hslots.masks (hslots.same ht) (by omega)
          have hwalk : lookup slots (slots.length - 1) (sameText t) slots.length
              ((fmgTextHash t).toNat &&& (slots.length - 1)) = some k := hlookup
          rw [hwalk]
          rcases hend with ⟨s, hk, -⟩ | ⟨hk, -, hstore⟩
          · simp only [hk]
            obtain ⟨r, w', hrun⟩ := ih slots hview' hrest hready2 hready (hbe.trans hbe2.symm)
              (by omega) hcalm hslots'
            exact ⟨_, w', by rw [bind_ok hrun]; rfl⟩
          · simp only [hk]
            rw [peek_bind_run]
            obtain ⟨hsound, hmem, hused⟩ := hstore ⟨fmgTextHash t, Int64.ofNat w.position, t⟩ rfl
            have hset : DedupOk (slots.set k
                (.occupied ⟨fmgTextHash t, Int64.ofNat w.position, t⟩)) view.length := by
              refine ⟨hsound, by rw [List.length_set]; exact hslots.masks, fun s' hs' => ?_, ?_⟩
              · rcases (hmem s').1 hs' with rfl | hs'
                · exact ⟨rfl, ht⟩
                · exact hslots.hashed s' hs'
              · rw [hused, List.length_set]
                omega
            obtain ⟨w2', hrun2, hwrote2, hcalm2⟩ := (emitsAt_writeOneString hready t).succeeds
              (by rw [hbe]; exact hx) hcalm (fun hne => by
                have hfits := hwrote.fits hne
                omega)
            obtain ⟨r, w', hrun⟩ := ih _ hview' hrest hready2
              ⟨hwrote2.wf, by rw [hwrote2.rest]; exact hready.2⟩
              (by rw [hwrote2.bigEndian, hbe, hbe2]) (by rw [hwrote2.position]; omega) hcalm2 hset
            exact ⟨_, w', by rw [bind_ok hrun2, bind_ok hrun]; rfl⟩

/-- The loop that sizes the table is the one that sizes the list of entries. -/
theorem fmgDedupCap_eq_entriesCap (need fuel cap : Nat) :
    fmgDedupCap need fuel cap = entriesCap need fuel cap := by
  induction fuel generalizing cap with
  | zero => rfl
  | succ fuel ih => rw [fmgDedupCap, entriesCap, ih]

/-! ## The two emissions agree -/

/-- The table of the emission after the first `n` entries. -/
def fmgDedupTableAt (os : Win32) (unicode : Bool) (view : List FmgEntry) (n : Nat) :
    WriteM (List (Slot FmgDedupSlot)) :=
  match fmgDedupCap (view.length * 2) 65 16 with
  | none => fail .outOfRange
  | some cap => do
    let _ ← onHeap Heap.alloc
    let r ← fmgDedupTable os unicode (view.take n) (List.replicate cap .empty)
    pure r.2

/-- What an offset table is for a view: 0 for the deleted texts alone, one offset for one text, and every
    other offset the place of its text. -/
structure OffsetTable (os : Win32) (unicode be : Bool) (view : List FmgEntry) (offsets : List Int64)
    (B : List UInt8) : Prop where
  null : List.Forall₂ (fun off (v : FmgEntry) => off = 0 ↔ v.textUtf8 = none) offsets view
  shared : ∀ (i j : Nat) off off' (v v' : FmgEntry), offsets[i]? = some off → offsets[j]? = some off' →
    view[i]? = some v → view[j]? = some v' → (off = off' ↔ v.textUtf8 = v'.textUtf8)
  leads : StringsAt os unicode be offsets view B

/-- An offset that leads to a text in a file of addressable size is not 0. -/
theorem TextAt.null_iff {be : Bool} {B : List UInt8} {off : Int64} {text : Option (List UInt8)}
    (h : TextAt os unicode be B off text) (hB : B.length ≤ SIZE_MAX) : off = 0 ↔ text = none := by
  cases text with
  | none => exact ⟨fun _ => rfl, fun _ => h⟩
  | some t =>
      obtain ⟨p, hp, rfl, hheld⟩ := h
      have hle := hheld.le
      constructor
      · intro hzero
        have hp0 : p = 0 := ofNat_inj_of_le (by omega) (by omega) hzero
        omega
      · intro hnone
        cases hnone

/-- Offsets that a table has recorded are equal exactly where the texts are. -/
theorem recorded_eq_iff {slots : List (Slot FmgDedupSlot)} {pos : Nat} (hplaced : DedupPlaced slots pos)
    (hsound : Sound FmgDedupSlot.text dedupHome slots) {off off' : Int64} {v v' : FmgEntry}
    (h : Recorded slots off v) (h' : Recorded slots off' v') (hnull : off = 0 ↔ v.textUtf8 = none)
    (hnull' : off' = 0 ↔ v'.textUtf8 = none) : off = off' ↔ v.textUtf8 = v'.textUtf8 := by
  cases htext : v.textUtf8 with
  | none =>
      rw [hnull.2 htext, eq_comm, hnull', eq_comm]
  | some t =>
      cases htext' : v'.textUtf8 with
      | none =>
          have hoff' := hnull'.2 htext'
          have hne : off ≠ 0 := fun hzero => by
            rw [hnull.1 hzero] at htext
            cases htext
          rw [hoff']
          exact ⟨fun heq => absurd heq hne, fun heq => by cases heq⟩
      | some t' =>
          rw [Recorded, htext] at h
          rw [Recorded, htext'] at h'
          obtain ⟨s, hs, rfl, rfl⟩ := h
          obtain ⟨s', hs', rfl, rfl⟩ := h'
          constructor
          · intro heq
            rw [hplaced.apart s s' hs hs' heq]
          · intro heq
            rw [hsound.eq_of_key hs hs' (Option.some.inj heq)]

/-- What the deduplicating emission leaves is an offset table for its view. -/
theorem fmgEmitStringsDedup_table (hos : os.AsciiCompatible) (view : List FmgEntry)
    (hview : ∀ v ∈ view, ∀ t, v.textUtf8 = some t → ∀ b ∈ t, b ≠ 0) (hw : AtEnd X w)
    (hpos : 0 < w.position) :
    Post (fmgEmitStringsDedup os unicode view) w fun offsets w' =>
      OffsetTable os unicode w.bigEndian view offsets w'.content := by
  intro offsets w' hrun
  rw [fmgEmitStringsDedup] at hrun
  cases hcap : fmgDedupCap (view.length * 2) 65 16 with
  | none =>
      rw [hcap] at hrun
      cases hrun
  | some cap =>
      rw [hcap] at hrun
      obtain ⟨_, w1, halloc, hrun⟩ := bind_eq_ok.1 hrun
      have hext := hw.extends (post_onHeap hw.inv.ready Heap.alloc _ _ halloc)
      obtain ⟨hok, hplaced⟩ := dedupOk_replicate hcap
      have hstrings := fmgDedupStrings_spec hos view _ hview hok hext.atEnd
        (lt_of_lt_of_le hpos hext.position_le) _ _ hrun
      rw [fmgDedupStrings_eq] at hrun
      obtain ⟨r, w2, htable, hpure⟩ := bind_eq_ok.1 hrun
      cases hpure
      obtain ⟨hatEnd, hok', hplaced', -, hrec⟩ :=
        fmgDedupTable_spec hos view _ 0 hview hok hext.atEnd (hplaced _) _ _ htable
      have hleads : StringsAt os unicode w.bigEndian r.1 view w'.content := by
        have h := (hstrings.final _ (becomes_self hstrings.atEnd)).2 fun s hs => by simp at hs
        rwa [hext.bigEndian] at h
      have hfits : w'.content.length ≤ SIZE_MAX := by
        rw [BinaryWriter.content, OStream.length_content hatEnd.inv.ready.1]
        exact hatEnd.inv.fits
      have hnull := hleads.imp fun off v h => TextAt.null_iff h hfits
      refine ⟨hnull, fun i j off off' v v' hi hj hvi hvj => ?_, hleads⟩
      have hentry : ∀ (R : Int64 → FmgEntry → Prop), List.Forall₂ R r.1 view →
          ∀ (n : Nat) off v, r.1[n]? = some off → view[n]? = some v → R off v := by
        intro R hall n off v hoff hv
        obtain ⟨hn, rfl⟩ := List.getElem?_eq_some_iff.1 hoff
        obtain ⟨hn', rfl⟩ := List.getElem?_eq_some_iff.1 hv
        exact hall.get hn hn'
      exact recorded_eq_iff hplaced' hok'.sound (hentry _ hrec i off v hi hvi) (hentry _ hrec j off' v' hj hvj)
        (hentry _ hnull i off v hi hvi) (hentry _ hnull j off' v' hj hvj)

/-- **Deduplicated and plain emission agree.** Behind the header, for texts without a NUL inside: every table
    the emission comes to has an empty slot, so every walk over it ends; the offsets it leaves are 0 for
    the deleted texts alone, equal exactly for equal texts, and lead to the encoded texts; a reader finds
    behind them what it finds behind the plain offsets; and where the plain emission succeeds, so does
    this one if no allocation is refused. -/
theorem fmg_emit_strings_dedup_agrees (os : Win32) (hos : os.AsciiCompatible) (unicode : Bool)
    (view : List FmgEntry) (hview : ∀ v ∈ view, ∀ t, v.textUtf8 = some t → ∀ b ∈ t, b ≠ 0)
    (X : Nat → Prop) (w : BinaryWriter) (hw : AtEnd X w) (hpos : 0 < w.position) :
    (∀ n, Post (fmgDedupTableAt os unicode view n) w fun slots _ =>
      .empty ∈ slots ∧ ∀ t : List UInt8, (∀ b ∈ t, b ≠ 0) →
        lookup slots (slots.length - 1) (sameText t) slots.length
          ((fmgTextHash t).toNat &&& (slots.length - 1)) ≠ none) ∧
    (Post (fmgEmitStringsDedup os unicode view) w fun offsets w' =>
      OffsetTable os unicode w.bigEndian view offsets w'.content ∧
        Post (fmgEmitStringsSimple os unicode view) w fun offsets' w'' =>
          w'.content.length < 2 ^ 63 → w''.content.length < 2 ^ 63 →
            SameEntries os unicode w.bigEndian w'.content w''.content offsets offsets') ∧
    (view.length ≤ INT32_MAX → w.stream.heap.Calm →
      ∀ offsets' w'', fmgEmitStringsSimple os unicode view w = (.ok offsets', w'') →
        ∃ offsets w', fmgEmitStringsDedup os unicode view w = (.ok offsets, w')) := by
  refine ⟨fun n slots w' hrun => ?_, fun offsets w' hrun => ?_, fun hcount hcalm offsets' w'' hrun => ?_⟩
  · rw [fmgDedupTableAt] at hrun
    cases hcap : fmgDedupCap (view.length * 2) 65 16 with
    | none =>
        rw [hcap] at hrun
        cases hrun
    | some cap =>
        rw [hcap] at hrun
        obtain ⟨_, w1, halloc, hrun⟩ := bind_eq_ok.1 hrun
        obtain ⟨r, w2, htable, hpure⟩ := bind_eq_ok.1 hrun
        cases hpure
        have hext := hw.extends (post_onHeap hw.inv.ready Heap.alloc _ _ halloc)
        obtain ⟨hok, hplaced⟩ := dedupOk_replicate hcap
        have hroom := hok.room
        have htake : (view.take n).length ≤ view.length := by simp
        have hok' : DedupOk (List.replicate cap .empty) ((view.take n).length + 0) :=
          ⟨hok.sound, hok.masks, hok.hashed, by omega⟩
        exact (fmgDedupTable_spec hos (view.take n) _ 0 (fun v hv => hview v (List.mem_of_mem_take hv)) hok'
          hext.atEnd (hplaced _) _ _ htable).2.1.walk
  · have htable := fmgEmitStringsDedup_table hos view hview hw hpos _ _ hrun
    refine ⟨htable, fun offsets' w'' hsimple hB hB' => ?_⟩
    have hplain := fmgEmitStringsSimple_spec hos view hview hw hpos _ _ hsimple
    exact htable.leads.sameEntries (hplain.final _ (becomes_self hplain.atEnd)).2 hB hB'
  · have hmax : INT32_MAX = 2 ^ 31 - 1 := rfl
    obtain ⟨cap, hcap⟩ := entriesCap_ok (view.length * 2) (by omega) 64 16 (by omega)
    rw [← fmgDedupCap_eq_entriesCap] at hcap
    obtain ⟨junk, heap, halloc, hcalm'⟩ := Heap.alloc_calm hcalm
    have hheap : onHeap Heap.alloc w = (.ok junk, { w with stream := { w.stream with heap := heap } }) := by
      rw [onHeap, onStream, zoom_run, zoom_run, halloc]
    let w1 : BinaryWriter := { w with stream := { w.stream with heap := heap } }
    have hready : w1.Ready := hw.inv.ready
    obtain ⟨r, w', htable⟩ := fmgDedupTable_succeeds view _ hview hrun hw.inv.ready hready rfl le_rfl
      hcalm' (dedupOk_replicate hcap).1
    rw [fmgEmitStringsDedup, hcap]
    simp only
    rw [bind_ok hheap, fmgDedupStrings_eq, bind_ok htable]
    exact ⟨_, _, rfl⟩

/-- Two entries share a text and one is deleted. -/
theorem fmg_shared_text_agrees :
    (fmgEmitStringsDedup .ascii true [⟨1, some [65]⟩, ⟨2, none⟩, ⟨3, some [65]⟩]
      (BinaryWriter.writeBytes [7] (BinaryWriter.create false [])).2).1 = .ok [1, 0, 1] ∧
    Post (fmgEmitStringsDedup .ascii true [⟨1, some [65]⟩, ⟨2, none⟩, ⟨3, some [65]⟩])
      (BinaryWriter.writeBytes [7] (BinaryWriter.create false [])).2 fun offsets w' =>
        OffsetTable .ascii true false [⟨1, some [65]⟩, ⟨2, none⟩, ⟨3, some [65]⟩] offsets w'.content := by
  refine ⟨by decide +kernel, ?_⟩
  have hend : AtEnd (fun _ => False) (BinaryWriter.writeBytes [7] (BinaryWriter.create false [])).2 :=
    ((atEnd_create false []).wrote ((emitsAt_writeBytes (atEnd_create false []).inv.ready [7]).post () _
      (by rfl))).1
  exact ((fmg_emit_strings_dedup_agrees .ascii Win32.ascii_compatible true
    [⟨1, some [65]⟩, ⟨2, none⟩, ⟨3, some [65]⟩] (by simp) _ _ hend (by decide +kernel)).2.1).mono
    fun _ _ h => h.1

end SoulsFormats
