import Mathlib.Logic.Function.Basic
import SoulsFormats.Core.WriterSpec

set_option autoImplicit false

/-! # The table of reservations is a finite map

`reserved w` is the map from names and kinds to positions that the slots of a writer hold. The
invariant `ResOk` keeps the open-addressing table sound under reservations, fills and growth, and each
operation is, on the map, what its name says: `reservations_refine_map` states it over whole runs. -/

namespace SoulsFormats

open Bytes Fallible OpenAddressing

/-- What a reservation is found under. -/
abbrev ResKey := List UInt8 × SfresKind

def SfresEntry.key (s : SfresEntry) : ResKey := (s.name, s.kind)

/-- Where the walks for a key start. -/
def resHome (k : ResKey) : Nat := (sfresHash k.1).toNat

/-- The slots of an allocated table. -/
structure TableOk (slots : List SfresSlot) : Prop where
  sound : Sound SfresEntry.key resHome slots
  size : ∃ k, slots.length = 2 ^ k
  hashed : ∀ s, .occupied s ∈ slots → s.nameHash = sfresHash s.name
  large : 16 ≤ slots.length
  load : usedCount slots * 10 ≤ slots.length * 7

theorem TableOk.masks {slots : List SfresSlot} (h : TableOk slots) :
    Masks (slots.length - 1) slots.length := by
  obtain ⟨k, hk⟩ := h.size
  rw [hk]
  exact masks_two_pow k

/-- On slots that store the right hashes the comparison of the walks compares keys. -/
theorem matches_iff {slots : List SfresSlot}
    (hashed : ∀ s, .occupied s ∈ slots → s.nameHash = sfresHash s.name) (name : List UInt8)
    (kind : SfresKind) (s : SfresEntry) (hs : .occupied s ∈ slots) :
    s.matches (sfresHash name) kind name = true ↔ s.key = (name, kind) := by
  simp only [SfresEntry.matches, SfresEntry.key, Bool.and_eq_true, beq_iff_eq, Prod.mk.injEq]
  constructor
  · rintro ⟨⟨-, hkind⟩, hname⟩
    exact ⟨hname, hkind⟩
  · rintro ⟨hname, hkind⟩
    exact ⟨⟨by rw [hashed s hs, hname], hkind⟩, hname⟩

theorem pairwise_keys {slots : List SfresSlot} (h : Sound SfresEntry.key resHome slots) :
    (entries slots).Pairwise fun a b => a.key ≠ b.key := by
  rw [entries, List.pairwise_filterMap, List.pairwise_iff_getElem]
  intro i j hi hj hij a ha b hb hkey
  have hslot : ∀ (s : SfresSlot) (e : SfresEntry), s.entry? = some e → s = .occupied e := by
    intro s e he
    cases s with
    | empty => cases he
    | tombstone => cases he
    | occupied e' =>
        cases he
        rfl
  have hia := hslot _ a ha
  have hjb := hslot _ b hb
  have heq := h.distinct i j a b (by rw [List.getElem?_eq_getElem hi, hia])
    (by rw [List.getElem?_eq_getElem hj, hjb]) hkey
  omega

/-! ## Rehashing -/

/-- One entry of the old table goes into the new one. -/
theorem sfresProbeInsert_absent {slots : List SfresSlot} (h : Sound SfresEntry.key resHome slots)
    (hmask : Masks (slots.length - 1) slots.length)
    (hashed : ∀ s, .occupied s ∈ slots → s.nameHash = sfresHash s.name) {a : SfresEntry}
    (habsent : ∀ b, .occupied b ∈ slots → b.key ≠ a.key)
    (hroom : usedCount slots + 1 < slots.length) :
    ∃ i s, sfresProbeInsert slots (sfresHash a.name) a.kind a.name = some (.free i) ∧
      slots[i]? = some s ∧ (s = .tombstone ∨ s = .empty) ∧
      Sound SfresEntry.key resHome (slots.set i (.occupied a)) ∧
      (∀ b, .occupied b ∈ slots.set i (.occupied a) ↔ b = a ∨ .occupied b ∈ slots) ∧
      usedCount (slots.set i (.occupied a)) + s.used.toNat = usedCount slots + 1 ∧
      liveCount (slots.set i (.occupied a)) = liveCount slots + 1 :=
  h.insert_absent hmask (fun b hb => matches_iff hashed a.name a.kind b hb) habsent hroom

/-- The rehash moves every entry of the old slots into the new ones and leaves no tombstone. -/
theorem sfresRehash_spec (old slots : List SfresSlot)
    (hold : (entries old).Pairwise fun a b => a.key ≠ b.key)
    (hashedOld : ∀ s ∈ entries old, s.nameHash = sfresHash s.name)
    (h : Sound SfresEntry.key resHome slots) (hmask : Masks (slots.length - 1) slots.length)
    (hashed : ∀ s, .occupied s ∈ slots → s.nameHash = sfresHash s.name)
    (hdisj : ∀ a ∈ entries old, ∀ b, .occupied b ∈ slots → b.key ≠ a.key)
    (hroom : usedCount slots + (entries old).length < slots.length) :
    ∃ slots', sfresRehash old slots = some slots' ∧ slots'.length = slots.length ∧
      Sound SfresEntry.key resHome slots' ∧
      (∀ b, .occupied b ∈ slots' ↔ .occupied b ∈ slots ∨ b ∈ entries old) ∧
      usedCount slots' ≤ usedCount slots + (entries old).length ∧
      liveCount slots' = liveCount slots + (entries old).length := by
  induction old generalizing slots with
  | nil => exact ⟨slots, rfl, rfl, h, fun b => by simp [entries], by simp [entries], rfl⟩
  | cons s rest ih =>
      cases s with
      | empty => exact ih slots hold hashedOld h hmask hashed hdisj hroom
      | tombstone => exact ih slots hold hashedOld h hmask hashed hdisj hroom
      | occupied a =>
          have hentries : entries (.occupied a :: rest) = a :: entries rest := rfl
          rw [hentries] at hold hashedOld hdisj hroom ⊢
          rw [List.length_cons] at hroom ⊢
          obtain ⟨i, s, hrun, hi, -, hsound, hmem, hused, hlive⟩ :=
            sfresProbeInsert_absent h hmask hashed (hdisj a List.mem_cons_self) (by omega)
          obtain ⟨hfirst, hold'⟩ := List.pairwise_cons.1 hold
          have hhash := hashedOld a List.mem_cons_self
          obtain ⟨slots', hrest, hlen, hsound', hmem', hused', hlive'⟩ := ih
            (slots.set i (.occupied a)) hold' (fun b hb => hashedOld b (List.mem_cons_of_mem a hb))
            hsound (by rwa [List.length_set])
            (fun b hb => by
              rcases (hmem b).1 hb with rfl | hb
              · exact hhash
              · exact hashed b hb)
            (fun b hb c hc => by
              rcases (hmem c).1 hc with rfl | hc
              · exact hfirst b hb
              · exact hdisj b (List.mem_cons_of_mem a hb) c hc)
            (by rw [List.length_set]; omega)
          refine ⟨slots', ?_, by rw [hlen, List.length_set], hsound', fun b => ?_, by omega, by omega⟩
          · rw [sfresRehash, hhash, hrun]
            exact hrest
          · rw [hmem', hmem, List.mem_cons]
            tauto

namespace BinaryWriter

/-! ## The map -/

/-- The table of a writer and its two counters. -/
structure ResOk (w : BinaryWriter) : Prop where
  table : w.resSlots = [] ∨ TableOk w.resSlots
  used : w.resUsed = usedCount w.resSlots
  live : w.resLive = liveCount w.resSlots

/-- The position a key is reserved at. -/
def reserved (w : BinaryWriter) (k : ResKey) : Option Nat :=
  ((entries w.resSlots).find? fun s => s.key = k).map SfresEntry.pos

variable {w : BinaryWriter}

theorem reserved_eq_none {k : ResKey} :
    w.reserved k = none ↔ ∀ s, .occupied s ∈ w.resSlots → s.key ≠ k := by
  simp only [reserved, Option.map_eq_none_iff, List.find?_eq_none, mem_entries, decide_eq_true_eq]

theorem ResOk.reserved_eq_some (hw : w.ResOk) {k : ResKey} {p : Nat} :
    w.reserved k = some p ↔ ∃ s, .occupied s ∈ w.resSlots ∧ s.key = k ∧ s.pos = p := by
  constructor
  · intro h
    obtain ⟨s, hfind, hpos⟩ := Option.map_eq_some_iff.1 h
    exact ⟨s, mem_entries.1 (List.mem_of_find?_eq_some hfind),
      by simpa using List.find?_some hfind, hpos⟩
  · rintro ⟨s, hs, hkey, hpos⟩
    rcases hfind : (entries w.resSlots).find? fun s => s.key = k with _ | s'
    · rw [List.find?_eq_none] at hfind
      exact absurd (by simpa using hkey) (hfind s (mem_entries.2 hs))
    · have hs' : .occupied s' ∈ w.resSlots := mem_entries.1 (List.mem_of_find?_eq_some hfind)
      have hkey' : s'.key = k := by simpa using List.find?_some hfind
      rcases hw.table with hnil | htable
      · rw [hnil] at hs
        cases hs
      · have hsame := htable.sound.eq_of_key hs hs' (hkey.trans hkey'.symm)
        rw [reserved, hfind, ← hpos, hsame]
        rfl

/-- Two tables with the same entries hold the same map. -/
theorem reserved_congr {w' : BinaryWriter} (hw : w.ResOk) (hw' : w'.ResOk)
    (h : ∀ s, .occupied s ∈ w'.resSlots ↔ .occupied s ∈ w.resSlots) : w'.reserved = w.reserved := by
  funext k
  rcases hr : w.reserved k with _ | p
  · rw [reserved_eq_none] at hr ⊢
    exact fun s hs => hr s ((h s).1 hs)
  · rw [hw.reserved_eq_some] at hr
    obtain ⟨s, hs, hkey, hpos⟩ := hr
    exact hw'.reserved_eq_some.2 ⟨s, (h s).2 hs, hkey, hpos⟩

theorem reserved_of_slots {w' : BinaryWriter} (h : w'.resSlots = w.resSlots) :
    w'.reserved = w.reserved := by
  funext k
  rw [reserved, reserved, h]

theorem ResOk.of_slots {w' : BinaryWriter} (hw : w.ResOk) (hslots : w'.resSlots = w.resSlots)
    (hused : w'.resUsed = w.resUsed) (hlive : w'.resLive = w.resLive) : w'.ResOk := by
  refine ⟨?_, ?_, ?_⟩
  · rw [hslots]
    exact hw.table
  · rw [hslots, hused]
    exact hw.used
  · rw [hslots, hlive]
    exact hw.live

/-- The number of live reservations is zero exactly for the empty map. -/
theorem ResOk.resLive_eq_zero (hw : w.ResOk) : w.resLive = 0 ↔ ∀ k, w.reserved k = none := by
  rw [hw.live, liveCount, List.countP_eq_zero]
  constructor
  · intro h k
    rw [reserved_eq_none]
    intro s hs
    exact absurd rfl (h _ hs)
  · intro h s hs
    cases s with
    | empty => simp [Slot.entry?]
    | tombstone => simp [Slot.entry?]
    | occupied a => exact absurd rfl (reserved_eq_none.1 (h a.key) a hs)

/-! ## Looking up and removing -/

/-- The lookup of `fill` finds the slot of a live key and reports any other as not found. -/
theorem reservationsFind_spec (hw : w.ResOk) (name : List UInt8) (kind : SfresKind) :
    (∃ i s, reservationsFind name kind w = (.ok (i, s), w) ∧ w.resSlots[i]? = some (.occupied s) ∧
      s.key = (name, kind)) ∨
    (reservationsFind name kind w = (.error .notFound, w) ∧ w.reserved (name, kind) = none) := by
  rw [reservationsFind, state_bind_run]
  rcases hw.table with hnil | htable
  · have hcap : ¬ w.resCap ≠ 0 := by rw [resCap, hnil]; simp
    rw [check_bind_neg hcap]
    exact .inr ⟨rfl, reserved_eq_none.2 fun s hs => by rw [hnil] at hs; cases hs⟩
  · have hcap : w.resCap ≠ 0 := by
      rw [resCap]
      exact fun h => htable.sound.ne_nil (List.length_eq_zero_iff.1 h)
    rw [check_bind_pos hcap]
    obtain ⟨i, hlookup, hend⟩ := htable.sound.lookup_spec htable.masks
      (fun a ha => matches_iff htable.hashed name kind a ha)
    have hprobe : sfresProbeLookup w.resSlots (sfresHash name) kind name = some i := hlookup
    rw [hprobe]
    rcases hend with ⟨s, hi, hkey⟩ | ⟨hi, habsent⟩
    · simp only [hi]
      exact .inl ⟨i, s, rfl, hi, hkey⟩
    · simp only [hi]
      exact .inr ⟨rfl, reserved_eq_none.2 habsent⟩

/-- Burying the slot of a key removes the key from the map, and nothing else. -/
theorem ResOk.bury (hw : w.ResOk) {i : Nat} {s : SfresEntry} (w' : BinaryWriter)
    (hi : w.resSlots[i]? = some (.occupied s))
    (hslots : w'.resSlots = w.resSlots.set i .tombstone) (hused : w'.resUsed = w.resUsed)
    (hlive : w'.resLive = w.resLive - 1) :
    w'.ResOk ∧ w'.reserved = Function.update w.reserved s.key none := by
  rcases hw.table with hnil | htable
  · rw [hnil] at hi
    simp at hi
  obtain ⟨hsound, hmem⟩ := htable.sound.bury hi
  have hused' := usedCount_set (.tombstone : SfresSlot) hi
  have hlive' := liveCount_set (.tombstone : SfresSlot) hi
  have htrue : (Slot.used (.occupied s : SfresSlot)).toNat = 1 := rfl
  have htomb : (Slot.used (.tombstone : SfresSlot)).toNat = 1 := rfl
  have hsome : (Slot.entry? (.occupied s : SfresSlot)).isSome.toNat = 1 := rfl
  have hnone : (Slot.entry? (.tombstone : SfresSlot)).isSome.toNat = 0 := rfl
  have hok : w'.ResOk := by
    refine ⟨.inr ⟨?_, ?_, ?_, ?_, ?_⟩, ?_, ?_⟩
    · rw [hslots]
      exact hsound
    · rw [hslots, List.length_set]
      exact htable.size
    · rw [hslots]
      exact fun b hb => htable.hashed b ((hmem b).1 hb).1
    · rw [hslots, List.length_set]
      exact htable.large
    · have hload := htable.load
      rw [hslots, List.length_set]
      omega
    · rw [hslots, hused, hw.used]
      omega
    · rw [hslots, hlive, hw.live]
      omega
  refine ⟨hok, ?_⟩
  funext k
  by_cases hk : k = s.key
  · rw [hk, Function.update_self, reserved_eq_none]
    intro b hb hkey
    rw [hslots] at hb
    exact ((hmem b).1 hb).2 hkey
  · rw [Function.update_of_ne hk]
    rcases hr : w.reserved k with _ | p
    · rw [reserved_eq_none] at hr ⊢
      intro b hb
      rw [hslots] at hb
      exact hr b ((hmem b).1 hb).1
    · rw [hw.reserved_eq_some] at hr
      obtain ⟨b, hb, hkey, hpos⟩ := hr
      refine hok.reserved_eq_some.2 ⟨b, ?_, hkey, hpos⟩
      rw [hslots]
      exact (hmem b).2 ⟨hb, fun h => hk (hkey.symm.trans h)⟩

/-- `reservations_pop` of a live key takes it out of the map. -/
theorem reservationsPop_spec (hw : w.ResOk) {name : List UInt8} {kind : SfresKind} {p : Nat}
    (hp : w.reserved (name, kind) = some p) :
    ∃ w', reservationsPop name kind w = (.ok p, w') ∧
      w' = { w with resSlots := w'.resSlots, resLive := w'.resLive } ∧ w'.ResOk ∧
      w'.reserved = Function.update w.reserved (name, kind) none ∧ w'.resCap = w.resCap := by
  rcases reservationsFind_spec hw name kind with ⟨i, s, hfind, hi, hkey⟩ | ⟨-, hnone⟩
  · have hpos : s.pos = p := by
      have hs := (hw.reserved_eq_some (p := s.pos)).2 ⟨s, List.mem_of_getElem? hi, hkey, rfl⟩
      rw [hp] at hs
      exact (Option.some.inj hs).symm
    let w' := { w with resSlots := w.resSlots.set i .tombstone, resLive := w.resLive - 1 }
    obtain ⟨hok, hmap⟩ := hw.bury w' hi rfl rfl rfl
    refine ⟨w', ?_, rfl, hok, by rw [hmap, hkey], ?_⟩
    · rw [reservationsPop, bind_ok hfind]
      simp only [update_bind_run, pure_run, hpos]
      rfl
    · simp [w', resCap]
  · rw [hp] at hnone
    cases hnone

/-! ## Reserving -/

/-- `w'` is `w` after an operation on the table: the stream has at most asked its allocator. -/
structure TableStep (w w' : BinaryWriter) : Prop where
  rest : w' = { w with
    stream := { w.stream with heap := w'.stream.heap }
    resSlots := w'.resSlots
    resUsed := w'.resUsed
    resLive := w'.resLive }
  calm : w.stream.heap.Calm → w'.stream.heap.Calm
  ok : w'.ResOk

theorem TableStep.content {w' : BinaryWriter} (h : TableStep w w') : w'.content = w.content := by
  rw [h.rest]
  rfl

theorem TableStep.position {w' : BinaryWriter} (h : TableStep w w') : w'.position = w.position := by
  rw [h.rest]
  rfl

theorem TableStep.step {w1 w2 : BinaryWriter} (h : TableStep w w1)
    (hrest : w2 = { w1 with
      stream := { w1.stream with heap := w2.stream.heap }
      resSlots := w2.resSlots
      resUsed := w2.resUsed
      resLive := w2.resLive })
    (hcalm : w1.stream.heap.Calm → w2.stream.heap.Calm) (hok : w2.ResOk) : TableStep w w2 :=
  ⟨by rw [hrest, h.rest], fun hc => hcalm (h.calm hc), hok⟩

/-- After at most `n` reservations the table is small: it grows by doubling, and only when the slots
    in use fill seven tenths of it. -/
def Sized (n : Nat) (w : BinaryWriter) : Prop := w.resUsed ≤ n ∧ w.resCap ≤ 16 * (n + 1)

theorem onHeap_alloc_cases (w : BinaryWriter) :
    (∃ junk h, onHeap Heap.alloc w = (.ok junk, { w with stream := { w.stream with heap := h } }) ∧
      (w.stream.heap.Calm → h.Calm)) ∨
    (∃ h, onHeap Heap.alloc w = (.error .oom, { w with stream := { w.stream with heap := h } }) ∧
      ¬ w.stream.heap.Calm) := by
  rcases halloc : Heap.alloc w.stream.heap with ⟨e | junk, h⟩
  · obtain ⟨rfl, hcalm⟩ := Heap.alloc_error halloc
    exact .inr ⟨h, by rw [onHeap, onStream, zoom_run, zoom_run, halloc], hcalm⟩
  · refine .inl ⟨junk, h, by rw [onHeap, onStream, zoom_run, zoom_run, halloc], fun hc => ?_⟩
    obtain ⟨junk', h', halloc', hcalm⟩ := Heap.alloc_calm hc
    rw [halloc] at halloc'
    cases halloc'
    exact hcalm

/-- Growing keeps the map; afterwards the table is allocated and no tombstone is left in it. -/
theorem sfresTableGrow_spec (hw : w.ResOk) {newCap : Nat} (hsize : ∃ k, newCap = 2 ^ k)
    (hlarge : 16 ≤ newCap) (hroom : liveCount w.resSlots * 10 ≤ newCap * 7) :
    ∃ w', TableStep w w' ∧ w'.reserved = w.reserved ∧
      ((sfresTableGrow newCap w = (.ok (), w') ∧ TableOk w'.resSlots ∧ w'.resCap = newCap ∧
          w'.resUsed = liveCount w.resSlots) ∨
        (sfresTableGrow newCap w = (.error .oom, w') ∧ ¬ w.stream.heap.Calm ∧
          w'.resSlots = w.resSlots ∧ w'.resUsed = w.resUsed)) := by
  obtain ⟨k, hk⟩ := hsize
  have hpos : 0 < newCap := by
    rw [hk]
    exact Nat.two_pow_pos k
  rcases onHeap_alloc_cases w with ⟨junk, h, halloc, hcalm⟩ | ⟨h, halloc, hcalm⟩
  · -- every entry of the old table goes into a fresh one
    have hfresh : usedCount (List.replicate newCap (.empty : SfresSlot)) = 0 := by
      simp [usedCount, List.countP_replicate, Slot.used]
    have hnone : ∀ b, .occupied b ∉ List.replicate newCap (.empty : SfresSlot) := by
      intro b hb
      simp at hb
    have hlive : (entries w.resSlots).length = liveCount w.resSlots := by
      rw [entries, liveCount, List.length_filterMap_eq_countP]
    have hold : (entries w.resSlots).Pairwise (fun a b => a.key ≠ b.key) ∧
        ∀ s ∈ entries w.resSlots, s.nameHash = sfresHash s.name := by
      rcases hw.table with hnil | htable
      · rw [hnil]
        exact ⟨List.Pairwise.nil, fun s hs => by cases hs⟩
      · exact ⟨pairwise_keys htable.sound, fun s hs => htable.hashed s (mem_entries.1 hs)⟩
    have hmask : Masks ((List.replicate newCap (.empty : SfresSlot)).length - 1)
        (List.replicate newCap (.empty : SfresSlot)).length := by
      rw [List.length_replicate, hk]
      exact masks_two_pow k
    obtain ⟨slots, hrehash, hlen, hsound, hmem, hused, hliv⟩ := sfresRehash_spec w.resSlots
      (List.replicate newCap .empty) hold.1 hold.2 (sound_replicate hpos) hmask
      (fun s hs => absurd hs (hnone s)) (fun a _ b hb => absurd hb (hnone b))
      (by rw [hfresh, List.length_replicate, hlive]; omega)
    rw [hfresh] at hused
    have hliv0 : liveCount (List.replicate newCap (.empty : SfresSlot)) = 0 := by
      simp [liveCount, List.countP_replicate, Slot.entry?]
    rw [hliv0] at hliv
    rw [List.length_replicate] at hlen
    have hle := liveCount_le_usedCount slots
    have hmem' : ∀ b, .occupied b ∈ slots ↔ .occupied b ∈ w.resSlots := by
      intro b
      rw [hmem, mem_entries]
      exact ⟨fun h => h.resolve_left (hnone b), .inr⟩
    let w' : BinaryWriter :=
      { w with
        stream := { w.stream with heap := h }
        resSlots := slots
        resUsed := w.resLive }
    have htable : TableOk slots := by
      refine ⟨hsound, ⟨k, by rw [hlen, hk]⟩, fun s hs => ?_, by omega, by rw [hlen]; omega⟩
      exact hold.2 s (mem_entries.2 ((hmem' s).1 hs))
    have hok : w'.ResOk := by
      refine ⟨.inr htable, ?_, ?_⟩
      · show w.resLive = usedCount slots
        rw [hw.live]
        omega
      · show w.resLive = liveCount slots
        rw [hw.live]
        omega
    refine ⟨w', ⟨rfl, hcalm, hok⟩, reserved_congr hw hok hmem', .inl ⟨?_, htable, hlen, hw.live⟩⟩
    rw [sfresTableGrow, bind_ok halloc, state_bind_run]
    simp only [hrehash]
    rfl
  · let w' : BinaryWriter := { w with stream := { w.stream with heap := h } }
    refine ⟨w', ⟨rfl, fun hc => absurd hc hcalm, hw.of_slots rfl rfl rfl⟩, reserved_of_slots rfl,
      .inr ⟨?_, hcalm, rfl, rfl⟩⟩
    rw [sfresTableGrow, bind_error halloc]

/-- The resizing leaves the map alone, and where it succeeds a slot to spare. -/
theorem reservationsResize_spec (hw : w.ResOk) :
    ∃ w', TableStep w w' ∧ w'.reserved = w.reserved ∧ (∀ n, Sized n w → Sized n w') ∧
      ((reservationsResize w = (.ok (), w') ∧ TableOk w'.resSlots ∧
          (w'.resUsed + 1) * 10 ≤ w'.resCap * 7) ∨
        (reservationsResize w = (.error .oom, w') ∧ ¬ w.stream.heap.Calm) ∨
        (reservationsResize w = (.error .outOfRange, w') ∧ SIZE_MAX < w.resCap * 2)) := by
  have hlive := liveCount_le_usedCount w.resSlots
  have hused := hw.used
  rw [reservationsResize, state_bind_run]
  by_cases hcap : w.resCap = 0
  · have hnil : w.resSlots = [] := List.length_eq_zero_iff.1 hcap
    have hzero : liveCount w.resSlots = 0 := by rw [hnil]; rfl
    have hzero' : w.resUsed = 0 := by rw [hused, hnil]; rfl
    obtain ⟨w', hstep, hmap, hgrow⟩ := sfresTableGrow_spec hw ⟨4, rfl⟩ (le_refl 16) (by omega)
    rw [if_pos hcap]
    refine ⟨w', hstep, hmap, fun n hn => ?_, ?_⟩
    · rcases hgrow with ⟨-, -, hcap', hused'⟩ | ⟨-, -, hslots', hused'⟩
      · exact ⟨by omega, by omega⟩
      · exact ⟨by omega, by rw [resCap, hslots']; exact hn.2⟩
    · rcases hgrow with ⟨hrun, htable, hcap', hused'⟩ | ⟨hrun, hcalm, -, -⟩
      · exact .inl ⟨hrun, htable, by omega⟩
      · exact .inr (.inl ⟨hrun, hcalm⟩)
  · rw [if_neg hcap]
    have htable : TableOk w.resSlots :=
      hw.table.resolve_left fun hnil => hcap (by rw [resCap, hnil]; rfl)
    have hload := htable.load
    by_cases hfull : w.resCap * 7 < (w.resUsed + 1) * 10
    · rw [if_pos hfull]
      by_cases hfit : w.resCap * 2 ≤ SIZE_MAX
      · obtain ⟨k, hk⟩ := htable.size
        have hdouble : ∃ k, w.resCap * 2 = 2 ^ k := ⟨k + 1, by rw [resCap, hk, Nat.pow_succ]⟩
        have hcaplen : w.resCap = w.resSlots.length := rfl
        have hlarge := htable.large
        obtain ⟨w', hstep, hmap, hgrow⟩ := sfresTableGrow_spec hw hdouble (by omega) (by omega)
        rw [check_bind_pos hfit]
        refine ⟨w', hstep, hmap, fun n hn => ?_, ?_⟩
        · have hn1 := hn.1
          rcases hgrow with ⟨-, -, hcap', hused'⟩ | ⟨-, -, hslots', hused'⟩
          · exact ⟨by omega, by omega⟩
          · exact ⟨by omega, by rw [resCap, hslots']; exact hn.2⟩
        · rcases hgrow with ⟨hrun, htable', hcap', hused'⟩ | ⟨hrun, hcalm, -, -⟩
          · exact .inl ⟨hrun, htable', by omega⟩
          · exact .inr (.inl ⟨hrun, hcalm⟩)
      · rw [check_bind_neg hfit]
        exact ⟨w, ⟨rfl, id, hw⟩, rfl, fun n hn => hn, .inr (.inr ⟨rfl, by omega⟩)⟩
    · rw [if_neg hfull]
      exact ⟨w, ⟨rfl, id, hw⟩, rfl, fun n hn => hn, .inl ⟨rfl, htable, by omega⟩⟩

/-- Storing a new entry into the slot its insertion found adds its key to the map. -/
theorem ResOk.store (hw : w.ResOk) (htable : TableOk w.resSlots)
    (hroom : (w.resUsed + 1) * 10 ≤ w.resCap * 7) {name : List UInt8} (pos : Nat)
    {kind : SfresKind} (habsent : w.reserved (name, kind) = none) :
    ∃ i, sfresProbeInsert w.resSlots (sfresHash name) kind name = some (.free i) ∧
      ∀ w' : BinaryWriter,
        w'.resSlots = w.resSlots.set i (.occupied ⟨name, pos, sfresHash name, kind⟩) →
        w'.resUsed = (if w.resSlots[i]? = some .tombstone then w.resUsed else w.resUsed + 1) →
        w'.resLive = w.resLive + 1 →
        w'.ResOk ∧ w'.reserved = Function.update w.reserved (name, kind) (some pos) := by
  have hcap : w.resCap = w.resSlots.length := rfl
  have hused := hw.used
  have hlarge := htable.large
  let a : SfresEntry := ⟨name, pos, sfresHash name, kind⟩
  obtain ⟨i, s, hrun, hi, hkind, hsound, hmem, hused', hlive'⟩ :=
    sfresProbeInsert_absent htable.sound htable.masks htable.hashed (a := a)
      (reserved_eq_none.1 habsent) (by omega)
  refine ⟨i, hrun, fun w' hslots hresUsed hresLive => ?_⟩
  change w'.resSlots = w.resSlots.set i (.occupied a) at hslots
  have hcount : w'.resUsed = usedCount w'.resSlots := by
    rw [hslots, hresUsed, hi]
    rcases hkind with rfl | rfl
    · have htrue : (Slot.used (.tombstone : SfresSlot)).toNat = 1 := rfl
      rw [if_pos rfl]
      omega
    · have hfalse : (Slot.used (.empty : SfresSlot)).toNat = 0 := rfl
      rw [if_neg (by simp)]
      omega
  have hok : w'.ResOk := by
    refine ⟨.inr ⟨by rw [hslots]; exact hsound, ?_, ?_, ?_, ?_⟩, hcount, ?_⟩
    · rw [hslots, List.length_set]
      exact htable.size
    · rw [hslots]
      intro b hb
      rcases (hmem b).1 hb with rfl | hb
      · rfl
      · exact htable.hashed b hb
    · rw [hslots, List.length_set]
      exact hlarge
    · rw [← hcount, hresUsed, hslots, List.length_set]
      split <;> omega
    · rw [hslots, hresLive, hw.live]
      omega
  refine ⟨hok, ?_⟩
  funext k
  by_cases hk : k = (name, kind)
  · rw [hk, Function.update_self]
    refine hok.reserved_eq_some.2 ⟨a, ?_, rfl, rfl⟩
    rw [hslots]
    exact (hmem a).2 (.inl rfl)
  · rw [Function.update_of_ne hk]
    rcases hr : w.reserved k with _ | p
    · rw [reserved_eq_none] at hr ⊢
      intro b hb
      rw [hslots] at hb
      rcases (hmem b).1 hb with rfl | hb
      · exact fun h => hk h.symm
      · exact hr b hb
    · rw [hw.reserved_eq_some] at hr
      obtain ⟨b, hb, hkey, hpos⟩ := hr
      refine hok.reserved_eq_some.2 ⟨b, ?_, hkey, hpos⟩
      rw [hslots]
      exact (hmem b).2 (.inr hb)

/-- The ways in which a call that should reserve a key can fail: the key is live, the allocator
    refuses, or a size does not fit a `size_t`. -/
inductive ReserveError (w : BinaryWriter) (k : ResKey) : SfError → Prop where
  | live (h : w.reserved k ≠ none) : ReserveError w k .alreadyExists
  | refused (h : ¬ w.stream.heap.Calm) : ReserveError w k .oom
  | tooManySlots (h : SIZE_MAX < w.resCap * 2) : ReserveError w k .outOfRange
  | tooFar (h : SIZE_MAX < w.position + kindWidth k.2) : ReserveError w k .outOfRange

/-- What is left to do once the table has room. -/
theorem reservationsPush_resized {w w1 : BinaryWriter} (name : List UInt8) (pos : Nat) (kind : SfresKind)
    (hrun : reservationsResize w = (.ok (), w1)) :
    reservationsPush name pos kind w = (do
      let w ← state
      let hash := sfresHash name
      match sfresProbeInsert w.resSlots hash kind name with
      | none => fail .nonTermination
      | some (.found _) => fail .alreadyExists
      | some (.free idx) => do
        let _ ← onHeap Heap.alloc
        update fun w =>
          { w with
            resSlots := w.resSlots.set idx (.occupied ⟨name, pos, hash, kind⟩)
            resUsed := if w.resSlots[idx]? = some .tombstone then w.resUsed else w.resUsed + 1
            resLive := w.resLive + 1 } : WriteM Unit) w1 := bind_ok hrun _

theorem reservationsPush_spec (hw : w.ResOk) (name : List UInt8) (pos : Nat) (kind : SfresKind) :
    ∃ w', TableStep w w' ∧ (∀ n, Sized n w → Sized (n + 1) w') ∧
      ((reservationsPush name pos kind w = (.ok (), w') ∧ w.reserved (name, kind) = none ∧
          w'.reserved = Function.update w.reserved (name, kind) (some pos)) ∨
        (∃ e, reservationsPush name pos kind w = (.error e, w') ∧ w'.reserved = w.reserved ∧
          ReserveError w (name, kind) e)) := by
  have hsized : ∀ n w', Sized n w' → Sized (n + 1) w' := fun n w' hn =>
    ⟨by have := hn.1; omega, by have := hn.2; omega⟩
  obtain ⟨w1, hstep, hmap, hgrow, hcases⟩ := reservationsResize_spec hw
  rcases hcases with ⟨hrun, htable, hroom⟩ | ⟨hrun, hcalm⟩ | ⟨hrun, hbig⟩
  · rw [reservationsPush_resized name pos kind hrun, state_bind_run]
    rcases hlive : w.reserved (name, kind) with _ | p
    · -- the key is not live: a free slot is found, and the name is duplicated
      have hlive1 : w1.reserved (name, kind) = none := by rw [hmap, hlive]
      obtain ⟨i, hprobe, hstore⟩ := hstep.ok.store htable hroom pos hlive1
      simp only [hprobe]
      rcases onHeap_alloc_cases w1 with ⟨junk, h, halloc, hcalm⟩ | ⟨h, halloc, hcalm⟩
      · let w2 : BinaryWriter :=
          { w1 with
            stream := { w1.stream with heap := h }
            resSlots := w1.resSlots.set i (.occupied ⟨name, pos, sfresHash name, kind⟩)
            resUsed := if w1.resSlots[i]? = some .tombstone then w1.resUsed else w1.resUsed + 1
            resLive := w1.resLive + 1 }
        obtain ⟨hok, hmap'⟩ := hstore w2 rfl rfl rfl
        refine ⟨w2, hstep.step rfl hcalm hok, fun n hn => ?_, .inl ⟨?_, trivial, by rw [hmap', hmap]⟩⟩
        · obtain ⟨h1, h2⟩ := hgrow n hn
          refine ⟨?_, ?_⟩
          · simp only [w2]
            split <;> omega
          · simp only [resCap, w2, List.length_set] at h2 ⊢
            omega
        · rw [bind_ok halloc, update_run]
      · let w2 : BinaryWriter := { w1 with stream := { w1.stream with heap := h } }
        refine ⟨w2, hstep.step rfl (fun hc => absurd hc hcalm) (hstep.ok.of_slots rfl rfl rfl),
          fun n hn => hsized n _ (hgrow n hn), .inr ⟨.oom, ?_, ?_, ?_⟩⟩
        · rw [bind_error halloc]
        · rw [← hmap]
          exact reserved_of_slots rfl
        · exact .refused fun hc => hcalm (hstep.calm hc)
    · -- the key is live: its slot is found
      obtain ⟨s, hs, hkey, -⟩ := hstep.ok.reserved_eq_some.1 ((congrFun hmap _).trans hlive)
      have hspec := htable.sound.insertAt_spec htable.masks
        (fun a ha => matches_iff htable.hashed name kind a ha)
      rcases hspec with ⟨i, a, hprobe, -, -⟩ | ⟨i, d, -, -, habsent, -⟩
      · have hprobe' : sfresProbeInsert w1.resSlots (sfresHash name) kind name = some (.found i) :=
          hprobe
        simp only [hprobe']
        refine ⟨w1, hstep, fun n hn => hsized n _ (hgrow n hn),
          .inr ⟨.alreadyExists, rfl, hmap, .live ?_⟩⟩
        rw [hlive]
        exact Option.some_ne_none p
      · exact absurd hkey (habsent s hs)
  · exact ⟨w1, hstep, fun n hn => hsized n _ (hgrow n hn),
      .inr ⟨.oom, by rw [reservationsPush, bind_error hrun], hmap, .refused hcalm⟩⟩
  · exact ⟨w1, hstep, fun n hn => hsized n _ (hgrow n hn),
      .inr ⟨.outOfRange, by rw [reservationsPush, bind_error hrun], hmap, .tooManySlots hbig⟩⟩

/-! ## The calls -/

/-- The invariant of a writer between calls: it is open, its table is sound, and every reserved slice
    lies inside the content. -/
structure Inv (w : BinaryWriter) : Prop where
  ready : w.Ready
  res : w.ResOk
  fits : w.length ≤ SIZE_MAX
  inside : ∀ k p, w.reserved k = some p → p + kindWidth k.2 ≤ w.length

/-- Byte order, varint width and the saved positions. -/
def settings (w : BinaryWriter) : Bool × Bool × List Nat := (w.bigEndian, w.varintLong, w.steps)

theorem kindWidth_pos (kind : SfresKind) : 0 < kindWidth kind := by cases kind <;> decide

theorem kindWidth_le (kind : SfresKind) : kindWidth kind ≤ 8 := by cases kind <;> decide

/-- A placeholder is one write. -/
theorem writePattern_error (hw : w.Ready) {kind : SfresKind} {v : UInt8} {e : SfError}
    {w' : BinaryWriter} (hrun : writePattern (kindWidth kind) v w = (.error e, w')) :
    (∃ h, w' = { w with stream := { w.stream with heap := h } }) ∧
      (e = .oom ∧ ¬ w.stream.heap.Calm ∨ e = .outOfRange ∧ SIZE_MAX < w.position + kindWidth kind) := by
  have hpos := kindWidth_pos kind
  have hle := kindWidth_le kind
  have hchunks : BinaryReader.chunkSizes 256 (kindWidth kind) = [kindWidth kind] := by
    rw [BinaryReader.chunkSizes, Nat.div_eq_of_lt (by omega), Nat.mod_eq_of_lt (by omega),
      if_neg (by omega)]
    rfl
  rw [writePattern, bind_ok (writerOpen_ok hw), hchunks, writeChunks] at hrun
  rcases hwrite : OStream.write (List.replicate (kindWidth kind) v) w.stream with ⟨e' | u, s'⟩
  · obtain ⟨⟨h, rfl⟩, hcases⟩ := OStream.write_error hwrite
    have hzoom : onStream (OStream.write (List.replicate (kindWidth kind) v)) w
        = (.error e', { w with stream := { w.stream with heap := h } }) := by
      rw [onStream, zoom_run, hwrite]
    rw [bind_error hzoom] at hrun
    cases hrun
    rw [List.length_replicate] at hcases
    exact ⟨⟨h, rfl⟩, hcases⟩
  · have hzoom : onStream (OStream.write (List.replicate (kindWidth kind) v)) w
        = (.ok u, { w with stream := s' }) := by
      rw [onStream, zoom_run, hwrite]
    rw [bind_ok hzoom] at hrun
    cases hrun

/-- A writer that is open reserves, and takes the entry back if the placeholder does not fit. -/
theorem reserveScalar_opened (hw : w.Ready) (k : Scalar) (name : List UInt8) :
    reserveScalar k name w = (do
      reservationsPush name w.position (scalarKind w.varintLong k)
      let e ← attempt (writePattern (kindWidth (scalarKind w.varintLong k)) 0xFE)
      match e with
      | .ok () => pure ()
      | .error err => do
        let _ ← attempt (reservationsPop name (scalarKind w.varintLong k))
        fail err : WriteM Unit) w := by
  rw [reserveScalar, bind_ok (writerOpen_ok hw), state_bind_run, reserveKind, bind_ok (writerOpen_ok hw)]
  exact peek_bind_run _ _ _

/-- **A reservation succeeds exactly for a key that is not live**, unless the allocator or the size of
    the file is in the way. It then maps the key to the position and writes the placeholder there. -/
theorem reserveScalar_spec (hw : w.Inv) (k : Scalar) (name : List UInt8) :
    ∃ w', w'.Inv ∧ w'.settings = w.settings ∧ (∀ n, Sized n w → Sized (n + 1) w') ∧
      ((reserveScalar k name w = (.ok (), w') ∧
          w.reserved (name, scalarKind w.varintLong k) = none ∧
          w'.reserved = Function.update w.reserved (name, scalarKind w.varintLong k)
            (some w.position) ∧
          w'.content = overwrite w.content w.position
            (List.replicate (kindWidth (scalarKind w.varintLong k)) 0xFE) ∧
          w'.position = w.position + kindWidth (scalarKind w.varintLong k) ∧
          w'.position ≤ SIZE_MAX) ∨
        (∃ e, reserveScalar k name w = (.error e, w') ∧ w'.reserved = w.reserved ∧
          w'.content = w.content ∧ w'.position = w.position ∧
          ReserveError w (name, scalarKind w.varintLong k) e)) := by
  let kind := scalarKind w.varintLong k
  have hwidth : 0 < kindWidth kind := kindWidth_pos kind
  rw [reserveScalar_opened hw.ready k name]
  obtain ⟨w1, hstep, hsized, hpush⟩ := reservationsPush_spec hw.res name w.position kind
  have hready : w1.Ready := by
    rw [Ready, hstep.rest]
    exact hw.ready
  have hlen : w1.length = w.length := by
    rw [hstep.rest]
    rfl
  have hset : w1.settings = w.settings := by
    rw [hstep.rest]
    rfl
  rcases hpush with ⟨hrun, hfree, hmap⟩ | ⟨e, hrun, hmap, herr⟩
  · rw [bind_ok hrun, attempt_bind_run]
    rcases hpat : writePattern (kindWidth kind) 0xFE w1 with ⟨e | u, w2⟩
    · -- the placeholder did not fit: the new entry is taken out again
      obtain ⟨⟨h, rfl⟩, hcases⟩ := writePattern_error hready hpat
      let w2 : BinaryWriter := { w1 with stream := { w1.stream with heap := h } }
      have hok2 : w2.ResOk := hstep.ok.of_slots rfl rfl rfl
      have hsame : w2.reserved = w1.reserved := reserved_of_slots rfl
      have hlive2 : w2.reserved (name, kind) = some w.position := by
        rw [hsame, hmap, Function.update_self]
      obtain ⟨w3, hpop, hrest3, hok3, hmap3, hcap3⟩ := reservationsPop_spec hok2 hlive2
      have hback : w3.reserved = w.reserved := by
        rw [hmap3, hsame, hmap, Function.update_idem, Function.update_eq_self_iff]
        exact hfree.symm
      have hused3 : w3.resUsed = w1.resUsed := by rw [hrest3]
      refine ⟨w3, ⟨?_, hok3, ?_, ?_⟩, ?_, fun n hn => ?_, .inr ⟨e, ?_, hback, ?_, ?_, ?_⟩⟩
      · rw [Ready, hrest3]
        exact hready
      · rw [hrest3]
        exact hlen ▸ hw.fits
      · intro k' p hp
        rw [hback] at hp
        rw [hrest3]
        exact hlen ▸ hw.inside k' p hp
      · rw [← hset, hrest3]
        rfl
      · obtain ⟨h1, h2⟩ := hsized n hn
        exact ⟨by rw [hused3]; exact h1, by rw [hcap3]; exact h2⟩
      · simp only [attempt_bind_run, fail_run]
        rw [show reservationsPop name kind { w1 with stream := { w1.stream with heap := h } }
          = (.ok w.position, w3) from hpop]
      · rw [hrest3, ← hstep.content]
        rfl
      · rw [hrest3, ← hstep.position]
        rfl
      · rcases hcases with ⟨rfl, hcalm⟩ | ⟨rfl, hfar⟩
        · exact .refused fun hc => hcalm (hstep.calm hc)
        · refine .tooFar ?_
          rw [hstep.position] at hfar
          exact hfar
    · have hwrote := (emitsAt_writePattern hready (kindWidth kind) 0xFE).post u w2 hpat
      have hne : List.replicate (kindWidth kind) (0xFE : UInt8) ≠ [] := by
        rw [← List.length_pos_iff, List.length_replicate]
        exact hwidth
      have hmap2 : w2.reserved = Function.update w.reserved (name, kind) (some w.position) := by
        rw [reserved_of_slots hwrote.resSlots, hmap]
      have hpos2 : w2.position = w.position + kindWidth kind := by
        rw [hwrote.position, List.length_replicate, hstep.position]
      have hfit2 : w.position + kindWidth kind ≤ SIZE_MAX := by
        have hfit := hwrote.fits hne
        rwa [List.length_replicate, hstep.position] at hfit
      have hlen2 : w2.length = max w.length (w.position + kindWidth kind) := by
        rw [hwrote.length hready.1, if_neg hne, List.length_replicate, hstep.position, hlen]
      refine ⟨w2, ⟨hwrote.ready hready, ?_, ?_, ?_⟩, ?_, fun n hn => ?_,
        .inl ⟨rfl, hfree, hmap2, ?_, hpos2, by rw [hpos2]; exact hfit2⟩⟩
      · exact hstep.ok.of_slots hwrote.resSlots hwrote.resUsed hwrote.resLive
      · have hfits := hw.fits
        rw [hlen2]
        omega
      · intro k' p hp
        rw [hmap2] at hp
        rw [hlen2]
        by_cases hk : k' = (name, kind)
        · rw [hk, Function.update_self, Option.some.injEq] at hp
          rw [hk, ← hp]
          exact Nat.le_max_right _ _
        · rw [Function.update_of_ne hk] at hp
          exact (hw.inside k' p hp).trans (Nat.le_max_left _ _)
      · rw [← hset, settings, hwrote.bigEndian, hwrote.varintLong, hwrote.steps]
        rfl
      · obtain ⟨h1, h2⟩ := hsized n hn
        exact ⟨by rw [hwrote.resUsed]; exact h1, by rw [resCap, hwrote.resSlots]; exact h2⟩
      · rw [hwrote.content, if_neg hne, hstep.content, hstep.position]
  · rw [bind_error hrun]
    refine ⟨w1, ⟨hready, hstep.ok, by rw [hlen]; exact hw.fits, fun k' p hp => ?_⟩, hset, hsized,
      .inr ⟨e, rfl, hmap, hstep.content, hstep.position, herr⟩⟩
    rw [hmap] at hp
    rw [hlen]
    exact hw.inside k' p hp

theorem stepsPush_cases (w : BinaryWriter) (pos : Nat) :
    ∃ h, (w.stream.heap.Calm → h.Calm) ∧
      ((∃ c, stepsPush pos w = (.ok (), { w with
          stream := { w.stream with heap := h }
          steps := pos :: w.steps
          stepsCap := c })) ∨
        (stepsPush pos w = (.error .oom, { w with stream := { w.stream with heap := h } }) ∧
          ¬ w.stream.heap.Calm)) := by
  rw [stepsPush, state_bind_run]
  by_cases hfull : w.steps.length = w.stepsCap
  · rw [if_pos hfull]
    rcases onHeap_alloc_cases w with ⟨junk, h, halloc, hcalm⟩ | ⟨h, halloc, hcalm⟩
    · exact ⟨h, hcalm, .inl ⟨_, by rw [bind_ok halloc]; rfl⟩⟩
    · exact ⟨h, fun hc => absurd hc hcalm, .inr ⟨by rw [bind_error halloc], hcalm⟩⟩
  · rw [if_neg hfull]
    exact ⟨w.stream.heap, id, .inl ⟨w.stepsCap, rfl⟩⟩

/-- A step-in to a slice of the file saves the position and moves; it fails only for want of memory. -/
theorem stepIn_cases (hw : w.Ready) (pos : Nat) :
    ∃ h, (w.stream.heap.Calm → h.Calm) ∧
      ((∃ c, stepIn pos w = (.ok (), { w with
          stream := { w.stream with heap := h, memPos := pos }
          steps := w.position :: w.steps
          stepsCap := c })) ∨
        (stepIn pos w = (.error .oom, { w with stream := { w.stream with heap := h } }) ∧
          ¬ w.stream.heap.Calm)) := by
  obtain ⟨h, hcalm, hcases⟩ := stepsPush_cases w w.position
  refine ⟨h, hcalm, ?_⟩
  rw [stepIn, bind_ok (writerOpen_ok hw), peek_bind_run]
  rcases hcases with ⟨c, hrun⟩ | ⟨hrun, hno⟩
  · refine .inl ⟨c, ?_⟩
    rw [bind_ok hrun, onStream, zoom_run, OStream.seek, check_bind_pos (Int.natCast_nonneg pos)]
    rfl
  · exact .inr ⟨by rw [bind_error hrun], hno⟩

theorem stepOut_ok (hw : w.Ready) {pos : Nat} {rest : List Nat} (hsteps : w.steps = pos :: rest) :
    stepOut w = (.ok (), { w with
      stream := { w.stream with memPos := pos }
      steps := rest }) := by
  rw [stepOut, bind_ok (writerOpen_ok hw), state_bind_run, hsteps]
  simp only [update_bind_run, onStream, zoom_run]
  rw [OStream.seek, check_bind_pos (Int.natCast_nonneg pos)]
  rfl

/-- A writer that is open and finds the key writes at its position. -/
theorem fillScalar_found (hw : w.Ready) (k : Scalar) {name : List UInt8} (v : k.Value) {pos : Nat}
    (hpeek : reservationsPeek name (scalarKind w.varintLong k) w = (.ok pos, w)) :
    fillScalar k name v w = (do
      stepIn pos
      let e ← attempt (writeScalar k v)
      let e2 ← attempt stepOut
      match e, e2 with
      | .error err, _ => fail err
      | .ok _, .error err => fail err
      | .ok _, .ok _ => do
        let _ ← attempt (reservationsPop name (scalarKind w.varintLong k))
        pure () : WriteM Unit) w := by
  rw [fillScalar, bind_ok (writerOpen_ok hw), state_bind_run]
  exact bind_ok hpeek _

/-- **A fill succeeds exactly for a live key**, unless the allocator refuses its step-in. It then
    overwrites the slice the key was reserved at, removes the key and leaves everything else. -/
theorem fillScalar_spec (hw : w.Inv) (k : Scalar) (name : List UInt8) (v : k.Value) :
    ∃ w', w'.Inv ∧ w'.settings = w.settings ∧ (∀ n, Sized n w → Sized n w') ∧
      w'.position = w.position ∧ w'.length = w.length ∧
      ((∃ p, fillScalar k name v w = (.ok (), w') ∧
          w.reserved (name, scalarKind w.varintLong k) = some p ∧
          w'.reserved = Function.update w.reserved (name, scalarKind w.varintLong k) none ∧
          w'.content = overwrite w.content p (scalarBytes w.bigEndian w.varintLong k v)) ∨
        (∃ e, fillScalar k name v w = (.error e, w') ∧ w'.reserved = w.reserved ∧
          w'.content = w.content ∧
          (e = .notFound ∧ w.reserved (name, scalarKind w.varintLong k) = none ∨
            e = .oom ∧ ¬ w.stream.heap.Calm))) := by
  let kind := scalarKind w.varintLong k
  rcases reservationsFind_spec hw.res name kind with ⟨i, s, hfind, hi, hkey⟩ | ⟨hfind, hnone⟩
  · have hlive : w.reserved (name, kind) = some s.pos :=
      hw.res.reserved_eq_some.2 ⟨s, List.mem_of_getElem? hi, hkey, rfl⟩
    have hpeek : reservationsPeek name kind w = (.ok s.pos, w) := by
      rw [reservationsPeek, bind_ok hfind]
      rfl
    rw [fillScalar_found hw.ready k v hpeek]
    obtain ⟨h, hcalm, ⟨c, hin⟩ | ⟨hin, hno⟩⟩ := stepIn_cases hw.ready s.pos
    · rw [bind_ok hin, attempt_bind_run]
      let w1 : BinaryWriter := { w with
        stream := { w.stream with heap := h, memPos := s.pos }
        steps := w.position :: w.steps
        stepsCap := c }
      have hready1 : w1.Ready := hw.ready
      have hinside := hw.inside _ _ hlive
      have hlen : (scalarBytes w.bigEndian w.varintLong k v).length = kindWidth kind :=
        length_scalarBytes _ _ k v
      -- the slice lies inside the block, so the write cannot fail
      obtain ⟨s', hwrite⟩ := OStream.write_inside (s := w1.stream)
        (scalarBytes w.bigEndian w.varintLong k v)
        (by
          have hwf := hw.ready.1
          rw [hlen]
          simp only [OStream.WellFormed] at hwf
          exact hinside.trans hwf)
        (by rw [hlen]; exact hinside.trans hw.fits)
      have hrun : writeScalar k v w1 = (.ok (), { w1 with stream := s' }) := by
        rw [writeScalar_eq hready1, onStream, zoom_run]
        rw [show OStream.write (scalarBytes w1.bigEndian w1.varintLong k v) w1.stream = (.ok (), s')
          from hwrite]
      have hwrote := (emitsAt_writeScalar hready1 k v).post _ _ hrun
      have hsteps : ({ w1 with stream := s' } : BinaryWriter).steps = w.position :: w.steps := rfl
      have hout := stepOut_ok (hwrote.ready hready1) hsteps
      let w3 : BinaryWriter := { w1 with
        stream := { s' with memPos := w.position }
        steps := w.steps }
      have hok3 : w3.ResOk := hw.res.of_slots rfl rfl rfl
      have hmap3 : w3.reserved = w.reserved := reserved_of_slots rfl
      have hlive3 : w3.reserved (name, kind) = some s.pos := by rw [hmap3, hlive]
      obtain ⟨w4, hpop, hrest4, hok4, hmap4, hcap4⟩ := reservationsPop_spec hok3 hlive3
      have hcontent : w4.content
          = overwrite w.content s.pos (scalarBytes w.bigEndian w.varintLong k v) := by
        have h := hwrote.content
        rw [if_neg (scalarBytes_ne_nil _ _ k v)] at h
        rw [hrest4]
        exact h
      have hwf4 : w4.stream.WellFormed := by
        rw [hrest4]
        exact hwrote.wf
      have hlen4 : w4.length = w.length := by
        rw [← length_content hwf4, hcontent, length_overwrite, length_content hw.ready.1, hlen]
        exact Nat.max_eq_left hinside
      have hused4 : w4.resUsed = w.resUsed := by rw [hrest4]
      refine ⟨w4, ⟨⟨hwf4, ?_⟩, hok4, by rw [hlen4]; exact hw.fits, ?_⟩, ?_, fun n hn => ?_, ?_,
        hlen4, .inl ⟨s.pos, ?_, hlive, by rw [hmap4, hmap3], hcontent⟩⟩
      · rw [hrest4]
        exact hw.ready.2
      · intro k' p hp
        rw [hmap4, hmap3] at hp
        rw [hlen4]
        by_cases hk : k' = (name, kind)
        · rw [hk, Function.update_self] at hp
          cases hp
        · rw [Function.update_of_ne hk] at hp
          exact hw.inside k' p hp
      · rw [hrest4]
        rfl
      · exact ⟨by rw [hused4]; exact hn.1, by rw [hcap4]; exact hn.2⟩
      · rw [hrest4]
        rfl
      · rw [show writeScalar k v { w with
            stream := { w.stream with heap := h, memPos := s.pos }
            steps := w.position :: w.steps
            stepsCap := c } = (.ok (), { w1 with stream := s' }) from hrun]
        rw [attempt_bind_run, hout]
        simp only [attempt_bind_run, pure_run]
        rw [show (reservationsPop name kind w3) = (.ok s.pos, w4) from hpop]
    · rw [bind_error hin]
      let w1 : BinaryWriter := { w with stream := { w.stream with heap := h } }
      have hmap1 : w1.reserved = w.reserved := reserved_of_slots rfl
      refine ⟨w1, ⟨hw.ready, hw.res.of_slots rfl rfl rfl, hw.fits, fun k' p hp => ?_⟩, rfl,
        fun n hn => hn, rfl, rfl, .inr ⟨.oom, rfl, hmap1, rfl, .inr ⟨rfl, hno⟩⟩⟩
      rw [hmap1] at hp
      exact hw.inside k' p hp
  · refine ⟨w, hw, rfl, fun n hn => hn, rfl, rfl, .inr ⟨.notFound, ?_, rfl, rfl, .inl ⟨rfl, hnone⟩⟩⟩
    have hpeek : reservationsPeek name kind w = (.error .notFound, w) := by
      rw [reservationsPeek, bind_error hfind]
    rw [fillScalar, bind_ok (writerOpen_ok hw.ready), state_bind_run]
    exact bind_error hpeek _

/-! ## Runs -/

/-- The map a call is to leave behind, by whether it succeeded: a reservation adds the key at the
    position of the writer, a fill removes it. -/
def WriterCall.onMap (c : WriterCall) (w : BinaryWriter) (succeeded : Bool)
    (m : ResKey → Option Nat) : ResKey → Option Nat :=
  match c, succeeded with
  | reserve k name, true =>
    Function.update m (name, scalarKind w.varintLong k) (some w.position)
  | fill k name _, true => Function.update m (name, scalarKind w.varintLong k) none
  | _, _ => m

/-- A writer and a finite map through a list of calls; the caller goes on after a failed one. -/
def runWithMap (os : Win32) : List WriterCall → BinaryWriter → (ResKey → Option Nat) →
    BinaryWriter × (ResKey → Option Nat)
  | [], w, m => (w, m)
  | c :: rest, w, m => runWithMap os rest (c.run os w).2 (c.onMap w (c.run os w).1.isOk m)

/-- What a step leaves alone. -/
def SameFile (w₀ w : BinaryWriter) : Prop :=
  w.stream.mem = w₀.stream.mem ∧ w.stream.memSize = w₀.stream.memSize ∧
    w.resSlots = w₀.resSlots ∧ w.resUsed = w₀.resUsed ∧ w.resLive = w₀.resLive ∧
    w.closed = w₀.closed

theorem writerOpen_sameFile (w₀ : BinaryWriter) : Keeps (SameFile w₀) writerOpen :=
  Keeps.state.bind fun _ => Keeps.check _ _

theorem seek_sameFile (w₀ : BinaryWriter) (pos : Int) :
    Keeps (SameFile w₀) (onStream (OStream.seek pos)) := by
  intro w hw
  have hseek : OStream.seek pos w.stream = (if 0 ≤ pos
      then (.ok (), { w.stream with memPos := pos.toNat }) else (.error .invalidArg, w.stream)) := by
    by_cases hpos : 0 ≤ pos
    · rw [OStream.seek, check_bind_pos hpos, if_pos hpos]
      rfl
    · rw [OStream.seek, check_bind_neg hpos, if_neg hpos]
  rw [onStream, zoom_run, hseek]
  split <;> exact hw

theorem stepIn_sameFile (w₀ : BinaryWriter) (pos : Int) : Keeps (SameFile w₀) (stepIn pos) := by
  have hpush : ∀ p, Keeps (SameFile w₀) (stepsPush p) := by
    intro p
    have halloc : Keeps (SameFile w₀) (onHeap Heap.alloc) := fun _ hw => hw
    refine Keeps.state.bind fun _ => Keeps.ite (fun _ => ?_) fun _ => Keeps.update fun _ hw => hw
    exact halloc.bind fun _ => Keeps.bind (Keeps.update fun _ hw => hw) fun _ =>
      Keeps.update fun _ hw => hw
  exact (writerOpen_sameFile w₀).bind fun _ => (Keeps.peek _).bind fun _ =>
    (hpush _).bind fun _ => seek_sameFile w₀ pos

theorem stepOut_sameFile (w₀ : BinaryWriter) : Keeps (SameFile w₀) stepOut := by
  refine (writerOpen_sameFile w₀).bind fun _ => Keeps.state.bind fun w => ?_
  cases w.steps with
  | nil => exact Keeps.fail _
  | cons pos rest => exact (Keeps.update fun _ hw => hw).bind fun _ => seek_sameFile w₀ pos

theorem Inv.sameFile (hw : w.Inv) {w' : BinaryWriter} (h : SameFile w w') :
    w'.Inv ∧ w'.reserved = w.reserved ∧ ∀ n, Sized n w → Sized n w' := by
  obtain ⟨hmem, hsize, hslots, hused, hlive, hclosed⟩ := h
  have hmap := reserved_of_slots hslots
  have hlen : w'.length = w.length := hsize
  refine ⟨⟨⟨?_, hclosed.trans hw.ready.2⟩, hw.res.of_slots hslots hused hlive, ?_, ?_⟩, hmap, ?_⟩
  · have hwf := hw.ready.1
    simp only [OStream.WellFormed, OStream.memCap] at hwf ⊢
    rwa [hmem, hsize]
  · rw [hlen]
    exact hw.fits
  · intro k p hp
    rw [hmap] at hp
    rw [hlen]
    exact hw.inside k p hp
  · intro n hn
    exact ⟨by rw [hused]; exact hn.1, by rw [resCap, hslots]; exact hn.2⟩

theorem Inv.grown (hw : w.Inv) {w' : BinaryWriter} (h : Grown w w') :
    w'.Inv ∧ w'.reserved = w.reserved ∧ ∀ n, Sized n w → Sized n w' := by
  have hslots : w'.resSlots = w.resSlots := by rw [h.rest]
  have hused : w'.resUsed = w.resUsed := by rw [h.rest]
  have hlive : w'.resLive = w.resLive := by rw [h.rest]
  have hmap := reserved_of_slots hslots
  refine ⟨⟨⟨h.wf, ?_⟩, hw.res.of_slots hslots hused hlive, h.fits hw.fits, ?_⟩, hmap, ?_⟩
  · rw [h.rest]
    exact hw.ready.2
  · intro k p hp
    rw [hmap] at hp
    exact (hw.inside k p hp).trans h.length_le
  · intro n hn
    exact ⟨by rw [hused]; exact hn.1, by rw [resCap, hslots]; exact hn.2⟩

/-- One call keeps the invariant and changes the map as `onMap` says. -/
theorem WriterCall.run_spec (os : Win32) (c : WriterCall) (hw : w.Inv) :
    (c.run os w).2.Inv ∧ (c.run os w).2.reserved = c.onMap w (c.run os w).1.isOk w.reserved ∧
      ∀ n, Sized n w → Sized (n + 1) (c.run os w).2 := by
  have hsucc : ∀ n w', Sized n w' → Sized (n + 1) w' := fun n w' hn =>
    ⟨by have := hn.1; omega, by have := hn.2; omega⟩
  by_cases hwrite : c.IsWrite
  · obtain ⟨hinv, hmap, hsized⟩ := hw.grown (c.grown os hwrite w (Grown.refl hw.ready.1))
    refine ⟨hinv, ?_, fun n hn => hsucc n _ (hsized n hn)⟩
    rw [hmap]
    cases c <;> first | rfl | exact hwrite.elim
  · have hsame : ∀ w', SameFile w w' → w'.Inv ∧ w'.reserved = w.reserved ∧
        ∀ n, Sized n w → Sized (n + 1) w' := fun w' h =>
      let ⟨hinv, hmap, hsized⟩ := hw.sameFile h
      ⟨hinv, hmap, fun n hn => hsucc n _ (hsized n hn)⟩
    cases c with
    | stepIn pos => exact hsame _ (stepIn_sameFile w pos w ⟨rfl, rfl, rfl, rfl, rfl, rfl⟩)
    | stepOut => exact hsame _ (stepOut_sameFile w w ⟨rfl, rfl, rfl, rfl, rfl, rfl⟩)
    | setBigEndian be => exact hsame _ ⟨rfl, rfl, rfl, rfl, rfl, rfl⟩
    | setVarintLong l => exact hsame _ ⟨rfl, rfl, rfl, rfl, rfl, rfl⟩
    | reserve k name =>
        obtain ⟨w', hinv, -, hsized, ⟨hrun, -, hmap, -⟩ | ⟨e, hrun, hmap, -⟩⟩ :=
          reserveScalar_spec hw k name
        · rw [run, hrun]
          exact ⟨hinv, hmap, hsized⟩
        · rw [run, hrun]
          exact ⟨hinv, hmap, hsized⟩
    | fill k name v =>
        obtain ⟨w', hinv, -, hsized, -, -, ⟨p, hrun, -, hmap, -⟩ | ⟨e, hrun, hmap, -⟩⟩ :=
          fillScalar_spec hw k name v
        · rw [run, hrun]
          exact ⟨hinv, hmap, fun n hn => hsucc n _ (hsized n hn)⟩
        · rw [run, hrun]
          exact ⟨hinv, hmap, fun n hn => hsucc n _ (hsized n hn)⟩
    | _ => exact absurd trivial hwrite

theorem createOver_inv {s : OStream} (hempty : s.memSize = 0) (be : Bool) :
    (createOver s be).Inv := by
  have hwf : s.memSize ≤ s.memCap := by omega
  have hlen : s.memSize ≤ SIZE_MAX := by omega
  refine ⟨⟨hwf, rfl⟩, ⟨.inl rfl, rfl, rfl⟩, hlen, fun k p hp => ?_⟩
  cases hp

theorem create_inv (be : Bool) (heap : Heap) : (create be heap).Inv := createOver_inv rfl be

/-- Over a whole run the table holds exactly the map. -/
theorem runWithMap_spec (os : Win32) (cs : List WriterCall) (n : Nat) (hw : w.Inv)
    (hn : Sized n w) :
    (runWithMap os cs w w.reserved).1.Inv ∧
      (runWithMap os cs w w.reserved).1.reserved = (runWithMap os cs w w.reserved).2 ∧
      Sized (n + cs.length) (runWithMap os cs w w.reserved).1 := by
  induction cs generalizing w n with
  | nil => exact ⟨hw, rfl, hn⟩
  | cons c rest ih =>
      obtain ⟨hinv, hmap, hsized⟩ := c.run_spec os hw
      have hrest := ih (n + 1) hinv (hsized n hn)
      rw [hmap] at hrest
      rw [runWithMap, List.length_cons, show n + (rest.length + 1) = n + 1 + rest.length by omega]
      exact hrest

/-- **The table of reservations refines a finite map.** After any run of calls the slots hold the map
    that the reservations and fills so far describe. A reservation then succeeds exactly if its key is
    not in the map, a fill exactly if it is, and the fill writes at the position of the latest
    reservation; what else can fail is the allocator, or a size that does not fit. No probe walk runs
    for ever, and the writer can be finished exactly if the map is empty. -/
theorem reservations_refine_map (os : Win32) (be : Bool) (heap : Heap) (cs : List WriterCall) :
    let s := runWithMap os cs (create be heap) fun _ => none
    let w := s.1
    let m := s.2
    w.reserved = m ∧
    (∀ (k : Scalar) (name : List UInt8),
      let key := (name, scalarKind w.varintLong k)
      let r := (reserveScalar k name w).1
      (r = .ok () ∧ m key = none) ∨ (r = .error .alreadyExists ∧ m key ≠ none) ∨
        (r = .error .oom ∧ ¬ w.stream.heap.Calm) ∨
        (r = .error .outOfRange ∧
          (SIZE_MAX < w.position + kindWidth key.2 ∨ SIZE_MAX < 32 * (cs.length + 1)))) ∧
    (∀ (k : Scalar) (name : List UInt8) (v : k.Value),
      let key := (name, scalarKind w.varintLong k)
      let r := fillScalar k name v w
      (∃ p, r.1 = .ok () ∧ m key = some p ∧
          r.2.content = overwrite w.content p (scalarBytes w.bigEndian w.varintLong k v)) ∨
        (r.1 = .error .notFound ∧ m key = none) ∨
        (r.1 = .error .oom ∧ ¬ w.stream.heap.Calm)) ∧
    ((finish w).1 = .ok () ↔ ∀ key, m key = none) := by
  intro s w m
  obtain ⟨hinv, hmap, hsized⟩ := runWithMap_spec os cs 0 (create_inv be heap)
    (show Sized 0 (create be heap) from ⟨Nat.le_refl _, Nat.zero_le _⟩)
  have hempty : (create be heap).reserved = fun _ => none := rfl
  rw [hempty] at hinv hmap hsized
  change w.Inv at hinv
  change w.reserved = m at hmap
  change Sized (0 + cs.length) w at hsized
  refine ⟨hmap, fun k name => ?_, fun k name v => ?_, ?_⟩
  · intro key r
    obtain ⟨w', -, -, -, ⟨hrun, hfree, -⟩ | ⟨e, hrun, -, -, -, herr⟩⟩ :=
      reserveScalar_spec hinv k name
    · exact .inl ⟨congrArg Prod.fst hrun, by rw [← hmap]; exact hfree⟩
    · have hr : r = .error e := congrArg Prod.fst hrun
      rw [hr, ← hmap]
      cases herr with
      | live h => exact .inr (.inl ⟨rfl, h⟩)
      | refused h => exact .inr (.inr (.inl ⟨rfl, h⟩))
      | tooManySlots h =>
          have hcap := hsized.2
          exact .inr (.inr (.inr ⟨rfl, .inr (by omega)⟩))
      | tooFar h => exact .inr (.inr (.inr ⟨rfl, .inl h⟩))
  · intro key r
    obtain ⟨w', -, -, -, -, -, ⟨p, hrun, hlive, -, hcontent⟩ | ⟨e, hrun, -, -, herr⟩⟩ :=
      fillScalar_spec hinv k name v
    · refine .inl ⟨p, congrArg Prod.fst hrun, by rw [← hmap]; exact hlive, ?_⟩
      have hr : r.2 = w' := congrArg Prod.snd hrun
      rw [hr, hcontent]
    · have hr : r.1 = .error e := congrArg Prod.fst hrun
      rw [hr, ← hmap]
      rcases herr with ⟨rfl, hnone⟩ | ⟨rfl, hcalm⟩
      · exact .inr (.inl ⟨rfl, hnone⟩)
      · exact .inr (.inr ⟨rfl, hcalm⟩)
  · rw [← hmap, ← hinv.res.resLive_eq_zero, finish, state_bind_run]
    by_cases hlive : 0 < w.resLive
    · rw [check_bind_neg (not_not.2 hlive)]
      simp only [reduceCtorEq, false_iff]
      omega
    · rw [check_bind_pos hlive]
      simp only [update_run, true_iff]
      omega

end BinaryWriter

end SoulsFormats
