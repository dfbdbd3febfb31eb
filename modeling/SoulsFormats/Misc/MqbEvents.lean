import Mathlib.Data.List.Dedup
import SoulsFormats.Library.Returns
import SoulsFormats.Misc.MqbLayout

set_option autoImplicit false

/-! # Who owns the events of a cutscene

The timelines of a cut name its events by their offsets. Nothing keeps two entries from naming one event, or an
event from being named by none, and then it has two owners or no owner. The events form a tree exactly if the
tables, as they stand in the file, are right. -/

namespace SoulsFormats

open Bytes Fallible Rdr MqbFile

variable {f : MqbFile} {α β : Type}

/-! ## The events and the timelines of a cut -/

/-- An event has the address that it is decoded at. -/
theorem spans_mqbReadEvent (p : Nat) : Spans f p (f.eventEnd p) mqbReadEvent fun e => e.address = p :=
  Spans.pos ((spans_mqbReadEventAt p).bind fun _ _ => Spans.pure rfl)

/-- What an entry of a table is made into: the event with this address. -/
theorem spans_findEvent (total : Int32) (known : List MqbEventRef) (off p : Nat) :
    Spans f p p (findEvent total known off) fun e => e.address = off ∧ e ∈ known := by
  refine Spans.check fun _ => ?_
  rcases hfind : known.find? (fun e => e.address = off) with _ | e
  · rw [hfind]
    exact Spans.fail _
  · rw [hfind]
    exact Spans.pure ⟨by simpa using List.find?_some hfind, List.mem_of_find?_eq_some hfind⟩

theorem map_eq_of_forall₂ {g : α → Nat} {h : Nat → Nat} {l : List Nat} {l' : List α}
    (hall : List.Forall₂ (fun q a => g a = h q) l l') : l'.map g = l.map h := by
  induction hall with
  | nil => rfl
  | cons hqa _ ih => rw [List.map_cons, List.map_cons, hqa, ih]

theorem flatMap_eq_of_forall₂ {g : α → List Nat} {h : Nat → List Nat} {l : List Nat} {l' : List α}
    (hall : List.Forall₂ (fun q a => g a = h q) l l') : l'.flatMap g = l.flatMap h := by
  induction hall with
  | nil => rfl
  | cons hqa _ ih => rw [List.flatMap_cons, List.flatMap_cons, hqa, ih]

theorem forall_of_forall₂ {P : α → Prop} {l : List Nat} {l' : List α} (hall : List.Forall₂ (fun _ a => P a) l l') :
    ∀ a ∈ l', P a := by
  induction hall with
  | nil => simp
  | cons ha _ ih => exact List.forall_mem_cons.2 ⟨ha, ih⟩

/-- A timeline has the events that its table names. -/
theorem spans_mqbReadTimelineAt {version : MqbVersion} (hlong : f.long = decide (version = .darkSouls2Scholar))
    (total : Int32) (known : List MqbEventRef) (p : Nat) :
    Spans f p (p + f.timelineSize) (mqbReadTimelineAt total known version) fun t =>
      t.events.map (·.address) = f.eventTable p ∧ ∀ e ∈ t.events, e ∈ known := by
  refine (spans_alloc p).bind fun _ _ => (spans_readVar p).bind fun eventsOffset hoffset => ?_
  refine (spans_readI32 (p + f.varSize)).bind fun eventCount hcount => ?_
  have hflag : Spans f (p + f.varSize + 4) (p + f.varSize + if f.long then 8 else 4)
      (given (decide (version = .darkSouls2Scholar)) () (assertI32 0)) fun _ => True := by
    rw [← hlong]
    refine Spans.given (fun h => ?_) fun h => ?_
    · rw [h]
      exact spans_assertI32 0 _
    · rw [h]
      exact ⟨rfl, trivial⟩
  refine hflag.bind fun _ _ => (spans_readVar _).bind fun parameterOffset _ => (spans_readI32 _).bind
    fun parameterCount _ => (spans_readI32 _).bind fun unk10 _ => Spans.pos (Spans.jump ?_)
  have hend : p + f.varSize + (if f.long then 8 else 4) + f.varSize + 4 + 4 = p + f.timelineSize := by
    unfold varSize timelineSize
    split <;> rfl
  rw [hend]
  refine (spans_readGrown (s := (· + f.varSize)) (Q := fun q e => e.address = f.var q ∧ e ∈ known) spans_alloc
    (fun q i room hroom => ?_) _ _ _ eventsOffset).bind fun events hevents => Spans.jump ?_
  · refine (spans_readVar q).bind fun off hoff => (spans_findEvent total known off _).bind fun e he => ?_
    exact (hroom _).bind fun _ _ => Spans.pure (hoff ▸ he)
  · refine Spans.aside (Spans.stays (spans_mqbReadParameters parameterCount)) fun _ => Spans.pure ⟨?_, ?_⟩
    · rw [eventTable, count, ← hoffset, ← hcount]
      exact map_eq_of_forall₂ (hevents.imp fun _ _ h => h.1)
    · exact forall_of_forall₂ (hevents.imp fun _ _ h => h.2)

/-- What is known of a cut that is read at `p`, and of the events that are decoded for it. -/
structure CutAt (f : MqbFile) (p : Nat) (c : MqbCut × List MqbEventRef) : Prop where
  events : c.2.map (·.address) = f.events p
  tables : c.1.walk.map (·.address) = f.eventTables p
  named : ∀ e ∈ c.1.walk, e ∈ c.2

theorem spans_mqbReadCut {version : MqbVersion} (hlong : f.long = decide (version = .darkSouls2Scholar))
    {room : RdrM Unit} (hroom : ∀ q, Spans f q q room fun _ => True) (p : Nat) :
    Spans f p (f.cutEnd p) (mqbReadCut version room) (CutAt f p) := by
  refine (hroom p).bind fun _ _ => (spans_alloc p).bind fun _ _ => (spans_alloc p).bind fun _ _ => ?_
  refine (spans_readFixstrW (by decide) p).bind fun name _ => (spans_readI32 (p + 0x40)).bind fun eventCount hcount => ?_
  refine (spans_readI32 _).bind fun unk44 _ => (spans_readI32 _).bind fun duration _ => (spans_assertI32 0 _).bind
    fun _ _ => (spans_readI32 (p + 0x50)).bind fun timelineCount htimelines => ?_
  have hbefore : Spans f (p + 0x54) (p + if f.long then 0x58 else 0x54)
      (given (decide (version = .darkSouls2Scholar)) () (assertI32 0)) fun _ => True := by
    rw [← hlong]
    refine Spans.given (fun h => ?_) fun h => ?_
    · rw [h]
      exact spans_assertI32 0 _
    · rw [h]
      exact ⟨rfl, trivial⟩
  have hbehind : Spans f (p + (if f.long then 0x58 else 0x54) + f.varSize) (p + 0x60)
      (given (decide (version ≠ .darkSouls2Scholar)) () (assertI64 0)) fun _ => True := by
    rw [decide_not, ← hlong, varSize]
    refine Spans.given (fun h => ?_) fun h => ?_
    · rw [show f.long = false by simpa using h]
      exact spans_assertI64 0 _
    · rw [show f.long = true by simpa using h]
      exact ⟨rfl, trivial⟩
  refine hbefore.bind fun _ _ => (spans_readVar _).bind fun timelinesOffset hoffset => hbehind.bind fun _ _ => ?_
  refine Spans.bind (P := fun _ => True) (Spans.given (fun _ => spans_alloc _) fun _ => ⟨rfl, trivial⟩) fun _ _ => ?_
  refine (spans_readEach spans_mqbReadEvent _ (p + 0x60)).bind fun events hevents => Spans.pos (Spans.jump ?_)
  refine (spans_readGrown (s := (· + f.timelineSize)) (Q := fun q (t : MqbTimeline) =>
    t.events.map (·.address) = f.eventTable q ∧ ∀ e ∈ t.events, e ∈ events) spans_alloc (fun q i room hroom => ?_) _ _ _
    timelinesOffset).bind fun timelines hread => Spans.jump ?_
  · refine (spans_mqbReadTimelineAt hlong eventCount events q).bind fun t ht => ?_
    exact (hroom _).bind fun _ _ => Spans.pure ht
  · rw [cutEnd, count, ← hcount]
    refine Spans.pure ⟨?_, ?_, ?_⟩
    · rw [MqbFile.events, count, ← hcount, ← List.map_id (List.iterate _ _ _)]
      exact map_eq_of_forall₂ hevents
    · rw [eventTables, count, ← htimelines, ← hoffset, MqbCut.walk, List.map_flatMap]
      exact flatMap_eq_of_forall₂ (hread.imp fun _ _ h => h.1)
    · intro e he
      obtain ⟨t, ht, het⟩ := List.mem_flatMap.1 he
      exact forall_of_forall₂ (hread.imp fun _ _ h => h.2) t ht e het

/-! ## The file -/

/-- What a read that starts at `p` returns, wherever it ends. -/
def Gives (f : MqbFile) (p : Nat) (m : RdrM α) (Q : α → Prop) : Prop :=
  ∀ r, f.Of r → r.pos = p → Post m r fun a _ => Q a

variable {m : RdrM α} {k : α → RdrM β} {P Q : α → Prop} {R : β → Prop} {p q : Nat}

theorem Gives.bind (hm : Spans f p q m P) (hk : ∀ a, P a → Gives f q (k a) R) : Gives f p (m >>= k) R :=
  fun r hr hp => (hm r hr hp).bind fun a r' h => hk a h.1 r' h.2.1 h.2.2

theorem Gives.check {c : Prop} [Decidable c] {e : SfError} {k : Unit → RdrM β} (hk : c → Gives f p (k ()) R) :
    Gives f p (Fallible.check c e >>= k) R :=
  fun r hr hp => (Post.check fun hc => ⟨hc, rfl⟩ : Post (Fallible.check c e) r fun _ r' => c ∧ r' = r).bind
    fun _ _ h => h.2 ▸ hk h.1 r hr hp

theorem Gives.setBe {be : Bool} {k : Unit → RdrM β} (hk : Gives { f with be := be } p (k ()) R) :
    Gives f p ((update fun r => { r with be := be }) >>= k) R :=
  fun r hr hp => hk { r with be := be } ⟨hr.1, rfl, hr.2.2⟩ hp

theorem Gives.setLong {long : Bool} {k : Unit → RdrM β} (hk : Gives { f with long := long } p (k ()) R) :
    Gives f p ((update fun r => { r with var64 := long }) >>= k) R :=
  fun r hr hp => hk { r with var64 := long } ⟨hr.1, hr.2.1, rfl⟩ hp

theorem Gives.of_returns (h : Returns m Q) : Gives f p m Q := fun r _ _ => h r

/-- What is known of a file that is read, and of the events that are decoded for its cuts. -/
def FileAt (f : MqbFile) (m : Mqb × List (List MqbEventRef)) : Prop :=
  ∃ cuts, m.1.cuts = cuts.map Prod.fst ∧ m.2 = cuts.map Prod.snd ∧ List.Forall₂ (CutAt f) f.cuts cuts

theorem gives_mqbRead (bytes : List UInt8) :
    Gives { data := bytes, be := false, long := false } 4 mqbRead (FileAt (ofBytes bytes)) := by
  have hbyte : ∀ n, ((bytes.drop n).take 1).headD 0 = bytes.getD n 0 := by
    intro n
    rw [List.headD_eq_head?_getD, List.head?_take, if_neg (by decide), List.head?_drop, List.getD_eq_getElem?_getD]
  refine Gives.bind (spans_readU8 4) fun endian hendian => Gives.check fun _ => Gives.setBe ?_
  refine Gives.bind (spans_readU8 5) fun _ _ => Gives.check fun _ => Gives.bind (spans_readU8 6) fun long hlong => ?_
  refine Gives.check fun _ => Gives.bind (spans_readU8 7) fun _ _ => Gives.check fun _ => ?_
  refine Gives.bind (spans_readU32 8) fun versionU _ => Gives.bind (spans_readI32 12) fun headerSize hheader => ?_
  rcases MqbVersion.ofCode versionU with _ | version
  · exact Gives.of_returns (Returns.fail _)
  refine Gives.check fun hsize => Gives.check fun hscholar => Gives.setLong ?_
  -- from here on the reader is one of the file that the header describes
  have hfile : ({ data := bytes, be := decide (endian = 0xFF), long := decide (version = .darkSouls2Scholar) } : MqbFile) =
      ofBytes bytes := by
    rw [ofBytes, ← hbyte, ← hbyte, ← hendian, ← hlong, decide_eq_decide.2 hscholar]
  have hlongFile : (ofBytes bytes).long = decide (version = .darkSouls2Scholar) := by rw [← hfile]
  have hheader : (mqbHeaderSize version).toInt.toNat = (ofBytes bytes).count 12 := by
    rw [← hsize, hheader, ← hfile]
    rfl
  simp only
  rw [hfile]
  refine Gives.bind (spans_alloc 16) fun _ _ => Gives.bind (spans_alloc 16) fun _ _ => Gives.bind (spans_alloc 16)
    fun _ _ => Gives.bind (spans_readVar 16) fun pathsOffset _ => Gives.bind (spans_mqbReadExtra hlongFile) fun _ _ => ?_
  rw [hheader]
  refine Gives.bind (spans_readFixstrW (by decide) _) fun name _ => Gives.bind (spans_readU32 _) fun framerate _ => ?_
  refine Gives.bind (spans_readI32 ((ofBytes bytes).count 12 + 0x44)) fun resourceCount hresources => ?_
  refine Gives.bind (spans_readI32 ((ofBytes bytes).count 12 + 0x48)) fun cutCount hcuts => ?_
  refine Gives.bind (spans_readI32 _) fun _ _ => Gives.bind (spans_readEach (Q := fun _ _ => True) (spans_assertI32 0) 4 _)
    fun _ _ => ?_
  refine Gives.bind (spans_readGrown (Q := fun _ _ => True) spans_alloc
    (fun p i room hroom => spans_mqbReadResource i hroom p) _ _ _ ((ofBytes bytes).count 12 + 0x60)) fun resources _ => ?_
  refine Gives.bind (spans_readGrown (Q := CutAt (ofBytes bytes)) spans_alloc
    (fun p i room hroom => spans_mqbReadCut hlongFile hroom p) _ _ _ _) fun cuts hall => Gives.of_returns ?_
  rw [hresources, hcuts] at hall
  exact Returns.after fun _ => Returns.after fun paths => Returns.after fun be => Returns.pure ⟨cuts, rfl, rfl, hall⟩

/-! ## Ownership -/

/-- The events decoded for a cut and its timelines form a tree: each event is at exactly one position of one
    timeline, so that a walk meets each of them once, and `cut_event_count` is how many there are. -/
structure MqbCut.OwnsOnce (c : MqbCut) (decoded : List MqbEventRef) : Prop where
  once : ∀ e ∈ decoded, (c.walk.map (·.address)).count e.address = 1
  walk : (c.walk.map (·.address)).Perm (decoded.map (·.address))
  count : cutEventCount c = (decoded.map (·.address)).dedup.length

/-- No two entries of the event tables of the cut at `p` say the same, and they leave out no place where one of its
    events stands. -/
def MqbFile.NamesOnce (f : MqbFile) (p : Nat) : Prop := (f.eventTables p).Nodup ∧ f.events p ⊆ f.eventTables p

instance (f : MqbFile) (p : Nat) : Decidable (f.NamesOnce p) := inferInstanceAs (Decidable (_ ∧ _))

theorem cutEventCount_eq (c : MqbCut) : cutEventCount c = c.walk.length := by
  simp [cutEventCount, MqbCut.walk, List.length_flatMap]

theorem CutAt.ownsOnce_iff {c : MqbCut × List MqbEventRef} (h : CutAt f p c) : c.1.OwnsOnce c.2 ↔ f.NamesOnce p := by
  have hnodup := f.nodup_events p
  have hnamed : f.eventTables p ⊆ f.events p := by
    rw [← h.tables, ← h.events]
    exact List.map_subset _ h.named
  constructor
  · intro howns
    have hperm := howns.walk
    rw [h.tables, h.events] at hperm
    exact ⟨hperm.nodup_iff.2 hnodup, hperm.symm.subset⟩
  · rintro ⟨honce, hall⟩
    have hperm : (f.eventTables p).Perm (f.events p) :=
      (List.perm_ext_iff_of_nodup honce hnodup).2 fun a => ⟨fun ha => hnamed ha, fun ha => hall ha⟩
    refine ⟨fun e he => ?_, ?_, ?_⟩
    · rw [h.tables]
      exact List.count_eq_one_of_mem honce (hall (h.events ▸ List.mem_map_of_mem he))
    · rw [h.tables, h.events]
      exact hperm
    · rw [cutEventCount_eq, ← List.length_map (f := (·.address)), h.tables, h.events, hnodup.dedup, hperm.length_eq]

/-- **The events of an accepted file form a tree exactly if** in every cut the event tables of the timelines, as they
    stand in the file, name the place of each event once. -/
theorem mqb_events_form_tree_iff (bytes : List UInt8) (heap : Heap) (m : Mqb) (decoded : List (List MqbEventRef))
    (hread : mqbReadFromMemory bytes heap = .ok (m, decoded)) :
    List.Forall₂ MqbCut.OwnsOnce m.cuts decoded ↔
      ∀ p ∈ (MqbFile.ofBytes bytes).cuts, (MqbFile.ofBytes bytes).NamesOnce p := by
  unfold mqbReadFromMemory at hread
  split at hread
  · obtain ⟨cuts, hm, hdecoded, hall⟩ := gives_mqbRead bytes _ ⟨rfl, rfl, rfl⟩ rfl _ _ (Prod.ext hread rfl)
    simp only at hm hdecoded
    rw [hm, hdecoded, List.forall₂_map_left_iff, List.forall₂_map_right_iff, List.forall₂_same]
    clear hm hdecoded
    generalize (MqbFile.ofBytes bytes).cuts = places at hall
    induction hall with
    | nil => simp
    | cons hcut _ ih => rw [List.forall_mem_cons, List.forall_mem_cons, hcut.ownsOnce_iff, ih]
  · cases hread

/-- A cut with one event, which both of its timelines name. -/
def mqbSharedEvent : List UInt8 :=
  let words := fun l : List Nat => l.flatMap (wordBytes false 4)
  let header := cstr "MQB " ++ words [0, 0x94, 0x14, 336] ++ List.replicate 0x40 0 ++ words [0, 0, 1, 0, 0, 0, 0, 0]
  let cut := List.replicate 0x40 0 ++ words [1, 0, 0, 0, 2, 292, 0, 0]
  let event := words (List.replicate 20 0)
  let timeline := words [332, 1, 0, 0, 0]
  header ++ cut ++ event ++ timeline ++ timeline ++ words [212] ++ [0, 0]

/-- The event of this file. -/
def mqbShared : MqbEventRef := ⟨212, ⟨0, 0, 0, 0, 0, 0, 0, 0, 0, 0, [], []⟩⟩

theorem mqb_shared_event_read : mqbReadFromMemory mqbSharedEvent [] =
    .ok (⟨.darkSouls2, false, [], 0, [], [], [⟨[], 0, 0, [⟨0, [mqbShared], []⟩, ⟨0, [mqbShared], []⟩]⟩]⟩, [[mqbShared]]) := by
  decide +kernel

theorem mqb_events_do_not_form_tree :
    ¬ ∀ bytes heap m decoded, mqbReadFromMemory bytes heap = .ok (m, decoded) →
      List.Forall₂ MqbCut.OwnsOnce m.cuts decoded := by
  intro h
  have htree := h _ _ _ _ mqb_shared_event_read
  obtain ⟨hcut, -⟩ := List.forall₂_cons.1 htree
  have honce := hcut.once mqbShared List.mem_cons_self
  revert honce
  decide

/-- A cut with one event, which its timeline names. -/
def mqbOwnedEvent : List UInt8 :=
  let words := fun l : List Nat => l.flatMap (wordBytes false 4)
  let header := cstr "MQB " ++ words [0, 0x94, 0x14, 316] ++ List.replicate 0x40 0 ++ words [0, 0, 1, 0, 0, 0, 0, 0]
  let cut := List.replicate 0x40 0 ++ words [1, 0, 0, 0, 1, 292, 0, 0]
  header ++ cut ++ words (List.replicate 20 0) ++ words [312, 1, 0, 0, 0] ++ words [212] ++ [0, 0]

theorem mqb_owned_event_read : mqbReadFromMemory mqbOwnedEvent [] =
    .ok (⟨.darkSouls2, false, [], 0, [], [], [⟨[], 0, 0, [⟨0, [mqbShared], []⟩]⟩]⟩, [[mqbShared]]) := by
  decide +kernel

theorem mqb_owned_event_forms_tree :
    List.Forall₂ MqbCut.OwnsOnce [⟨[], 0, 0, [⟨0, [mqbShared], []⟩]⟩] [[mqbShared]] :=
  (mqb_events_form_tree_iff mqbOwnedEvent [] _ _ mqb_owned_event_read).2 (by decide +kernel)

end SoulsFormats
