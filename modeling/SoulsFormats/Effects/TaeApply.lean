import SoulsFormats.Effects.TaeTemplate
import SoulsFormats.Library.Walk

set_option autoImplicit false

/-! # Applying a TAE template

`sf_tae_apply_template` gives the events of a file the sizes that a template says. It does so while it goes through
them, and stops at an event that it cannot treat; the events before it keep their new sizes. -/

namespace SoulsFormats

open Fallible

/-- `sf_tae_event_t`: the first `parametersSize` bytes of the block that was allocated are the parameters. -/
structure TaeEvent where
  type : Int32
  parameters : List UInt8
  parametersSize : Nat
  stored : parametersSize ≤ parameters.length
deriving DecidableEq

/-- `sf_tae_animation_t`. -/
structure TaeAnimation where
  events : List (Option TaeEvent)
deriving DecidableEq

/-- `sf_tae_t`. -/
structure Tae where
  format : TaeFormat
  eventBank : Int64
  animations : List (Option TaeAnimation)
deriving DecidableEq

namespace TaeEvent

/-- The parameter bytes of an event. -/
def bytes (ev : TaeEvent) : List UInt8 := ev.parameters.take ev.parametersSize

@[simp] theorem bytes_length (ev : TaeEvent) : ev.bytes.length = ev.parametersSize := by
  simp [bytes, ev.stored]

end TaeEvent

/-- The events of a file, in the order of the loops. -/
def Tae.events (t : Tae) : List TaeEvent :=
  t.animations.flatMap fun anim => anim.toList.flatMap fun anim => anim.events.flatMap Option.toList

/-- `tae_find_event_template`. -/
def taeFindEventTemplate (tmpl : TaeTemplate) (eventBank : Int64) (eventType : Int32) (validateBank : Bool) :
    Option TaeEventTemplate :=
  if validateBank then (taeTemplateFindBank tmpl eventBank).bind fun bank => taeBankTemplateFindEvent bank eventType
  else tmpl.banks.findSome? fun bank => taeBankTemplateFindEvent bank eventType

/-- `tae_resize_event_parameters`. -/
def taeResizeEventParameters (requiredSize : Nat) : Fallible (TaeEvent × Heap) SfError Unit := fun (ev, heap) =>
  if h : requiredSize ≤ ev.parametersSize then
    (.ok (), { ev with parametersSize := requiredSize, stored := h.trans ev.stored }, heap)
  else
    match Heap.alloc heap with
    | (.error e, heap) => (.error e, ev, heap)
    | (.ok _, heap) =>
      -- `realloc` keeps the old bytes, `memset` writes all the others
      let newBytes := ev.bytes ++ List.replicate (requiredSize - ev.parametersSize) 0
      (.ok (), { ev with parameters := newBytes, parametersSize := requiredSize, stored := by simp [newBytes]; omega },
        heap)

section

variable (tmpl : TaeTemplate) (validateBank strict : Bool)

/-- What the loops of `sf_tae_apply_template` do for an event. -/
def taeApplyToEvent (eventBank : Int64) : Fallible (TaeEvent × Heap) SfError Unit := fun (ev, heap) =>
  match taeFindEventTemplate tmpl eventBank ev.type validateBank with
  | none => if strict then (.error .badMagic, ev, heap) else (.ok (), ev, heap)
  | some evTmpl =>
    if evTmpl.totalByteCount.toInt < 0 then (.error .outOfRange, ev, heap)
    else taeResizeEventParameters evTmpl.totalByteCount.toInt.toNat (ev, heap)

/-- The loops of `sf_tae_apply_template`. -/
def taeApplyToEvents (eventBank : Int64) : Fallible (Tae × Heap) SfError Unit :=
  within Tae.animations (fun animations t => { t with animations := animations }) <|
    walk <| optionally <|
      within TaeAnimation.events (fun events anim => { anim with events := events }) <|
        walk <| optionally <| taeApplyToEvent tmpl validateBank strict eventBank

/-- `sf_tae_apply_template`. -/
def sfTaeApplyTemplate : Fallible (Tae × Heap) SfError Unit := do
  let (t, _) ← state
  check (tmpl.game = t.format) .badMagic
  check (validateBank → (taeTemplateFindBank tmpl t.eventBank).isSome) .badMagic
  taeApplyToEvents tmpl validateBank strict t.eventBank

end

/-! ## What is asked of it -/

section

variable (tmpl : TaeTemplate) (eventBank : Int64) (validateBank : Bool)

/-- An event that the template describes has the size that the template says, with the old bytes and then zeros;
    another one is as it was. -/
def Fitted (old new : TaeEvent) : Prop :=
  match taeFindEventTemplate tmpl eventBank old.type validateBank with
  | none => new = old
  | some evTmpl =>
    new.type = old.type ∧ (new.parametersSize : Int) = evTmpl.totalByteCount.toInt ∧
      new.bytes = old.bytes.take new.parametersSize ++ List.replicate (new.parametersSize - old.parametersSize) 0

variable (strict : Bool)

/-- All or nothing: an error leaves the bytes of every event, success gives every event its size. -/
structure AppliesWhole (t : Tae) (heap : Heap) : Prop where
  failed : AllOrNothing (fun t => t.events.map TaeEvent.bytes) (sfTaeApplyTemplate tmpl validateBank strict) (t, heap)
  applied : ∀ t' heap', sfTaeApplyTemplate tmpl validateBank strict (t, heap) = (.ok (), t', heap') →
    List.Forall₂ (Fitted tmpl t.eventBank validateBank) t.events t'.events

/-! ## Where the loops stop -/

/-- The event has to grow. -/
def Grows (ev : TaeEvent) : Prop :=
  ∃ evTmpl, taeFindEventTemplate tmpl eventBank ev.type validateBank = some evTmpl ∧
    (ev.parametersSize : Int) < evTmpl.totalByteCount.toInt

/-- The event has the size that the template says, if it says one. -/
def Sized (ev : TaeEvent) : Prop :=
  ∀ evTmpl, taeFindEventTemplate tmpl eventBank ev.type validateBank = some evTmpl →
    (ev.parametersSize : Int) = evTmpl.totalByteCount.toInt

instance (ev : TaeEvent) : Decidable (Grows tmpl eventBank validateBank ev) :=
  match h : taeFindEventTemplate tmpl eventBank ev.type validateBank with
  | none => isFalse fun ⟨_, hsome, _⟩ => by simp [h] at hsome
  | some evTmpl => decidable_of_iff ((ev.parametersSize : Int) < evTmpl.totalByteCount.toInt) (by simp [Grows, h])

/-- The loops stop at an event: it is not described, in strict mode; its size is negative; or it has to grow and is
    refused. -/
def Stops (ev : TaeEvent) (heap : Heap) : Prop :=
  match taeFindEventTemplate tmpl eventBank ev.type validateBank with
  | none => strict
  | some evTmpl => evTmpl.totalByteCount.toInt < 0 ∨ Grows tmpl eventBank validateBank ev ∧ ¬ heap.Grants

/-- What is left of the allocator's answers: each event that grows takes one. -/
def heapBehind : List TaeEvent → Heap → Heap
  | [], heap => heap
  | ev :: evs, heap =>
    heapBehind evs (if Grows tmpl eventBank validateBank ev then (Heap.alloc heap).2 else heap)

/-- The loops come to what is behind these events. -/
def ComesBehind (heap : Heap) : List TaeEvent → Prop
  | [] => True
  | ev :: evs => ¬ Stops tmpl eventBank validateBank strict ev heap ∧
      ComesBehind (heapBehind tmpl eventBank validateBank [ev] heap) evs

end

/-! ## One event -/

section

variable {tmpl : TaeTemplate} {eventBank : Int64} {validateBank strict : Bool}

/-- An event that is fitted keeps its bytes exactly if it has its size already. -/
theorem Fitted.bytes_eq_iff {old new : TaeEvent} (h : Fitted tmpl eventBank validateBank old new) :
    new.bytes = old.bytes ↔ Sized tmpl eventBank validateBank old := by
  unfold Fitted at h
  unfold Sized
  cases hfind : taeFindEventTemplate tmpl eventBank old.type validateBank with
  | none =>
      rw [hfind] at h
      simp [h]
  | some evTmpl =>
      rw [hfind] at h
      obtain ⟨-, hsize, hbytes⟩ := h
      constructor
      · rintro hsame _ ⟨⟩
        have hlength := congrArg List.length hsame
        rw [TaeEvent.bytes_length, TaeEvent.bytes_length] at hlength
        rw [← hsize, hlength]
      · intro hsized
        have hlength : new.parametersSize = old.parametersSize := by
          have := hsized evTmpl rfl
          omega
        rw [hbytes, hlength, List.take_of_length_le (by simp)]
        simp

theorem taeResizeEventParameters_shrink {ev : TaeEvent} {n : Nat} (h : n ≤ ev.parametersSize) (heap : Heap) :
    ∃ ev', taeResizeEventParameters n (ev, heap) = (.ok (), ev', heap) ∧ ev'.type = ev.type ∧ ev'.parametersSize = n ∧
      ev'.bytes = ev.bytes.take n := by
  unfold taeResizeEventParameters
  simp only [dif_pos h]
  refine ⟨_, rfl, rfl, rfl, ?_⟩
  simp [TaeEvent.bytes, List.take_take, h]

theorem taeResizeEventParameters_grow {ev : TaeEvent} {n : Nat} (h : ev.parametersSize < n) {heap : Heap}
    (hgrants : heap.Grants) :
    ∃ ev', taeResizeEventParameters n (ev, heap) = (.ok (), ev', (Heap.alloc heap).2) ∧ ev'.type = ev.type ∧
      ev'.parametersSize = n ∧ ev'.bytes = ev.bytes ++ List.replicate (n - ev.parametersSize) 0 := by
  obtain ⟨junk, hjunk⟩ := Heap.alloc_of_grants hgrants
  have halloc : Heap.alloc heap = (.ok junk, (Heap.alloc heap).2) := Prod.ext hjunk rfl
  unfold taeResizeEventParameters
  simp only [dif_neg (by omega : ¬ n ≤ ev.parametersSize)]
  rw [halloc]
  refine ⟨_, rfl, rfl, rfl, ?_⟩
  rw [TaeEvent.bytes]
  refine List.take_of_length_le ?_
  simp
  omega

theorem taeResizeEventParameters_refused {ev : TaeEvent} {n : Nat} (h : ev.parametersSize < n) {heap : Heap}
    (hrefused : ¬ heap.Grants) :
    taeResizeEventParameters n (ev, heap) = (.error .oom, ev, (Heap.alloc heap).2) := by
  have halloc : Heap.alloc heap = (.error .oom, (Heap.alloc heap).2) :=
    Prod.ext (Heap.alloc_of_not_grants hrefused) rfl
  unfold taeResizeEventParameters
  simp only [dif_neg (by omega : ¬ n ≤ ev.parametersSize)]
  rw [halloc]

/-- An event at which the loops stop is left as it is. -/
theorem taeApplyToEvent_of_stops {ev : TaeEvent} {heap : Heap}
    (h : Stops tmpl eventBank validateBank strict ev heap) :
    ∃ e heap', taeApplyToEvent tmpl validateBank strict eventBank (ev, heap) = (.error e, ev, heap') := by
  unfold Stops at h
  unfold taeApplyToEvent
  cases hfind : taeFindEventTemplate tmpl eventBank ev.type validateBank with
  | none =>
      rw [hfind] at h
      exact ⟨.badMagic, heap, by simp only [hfind]; rw [if_pos h]⟩
  | some evTmpl =>
      rw [hfind] at h
      by_cases hnegative : evTmpl.totalByteCount.toInt < 0
      · exact ⟨.outOfRange, heap, by simp only [hfind]; rw [if_pos hnegative]⟩
      · obtain ⟨⟨evTmpl', hfind', hgrows⟩, hrefused⟩ := h.resolve_left hnegative
        rw [hfind] at hfind'
        cases hfind'
        refine ⟨.oom, (Heap.alloc heap).2, ?_⟩
        simp only [hfind]
        rw [if_neg hnegative]
        exact taeResizeEventParameters_refused (by omega) hrefused

/-- Any other event is fitted. -/
theorem taeApplyToEvent_of_not_stops {ev : TaeEvent} {heap : Heap}
    (h : ¬ Stops tmpl eventBank validateBank strict ev heap) :
    ∃ ev', taeApplyToEvent tmpl validateBank strict eventBank (ev, heap) =
        (.ok (), ev', heapBehind tmpl eventBank validateBank [ev] heap) ∧
      Fitted tmpl eventBank validateBank ev ev' := by
  unfold Stops at h
  unfold taeApplyToEvent Fitted
  simp only [heapBehind]
  cases hfind : taeFindEventTemplate tmpl eventBank ev.type validateBank with
  | none =>
      rw [hfind] at h
      have hsame : ¬ Grows tmpl eventBank validateBank ev := by simp [Grows, hfind]
      exact ⟨ev, by simp only [if_neg hsame, if_neg h], rfl⟩
  | some evTmpl =>
      rw [hfind] at h
      simp only [not_or, not_and, not_not] at h
      obtain ⟨hpos, hgranted⟩ := h
      simp only [if_neg hpos]
      by_cases hshrink : evTmpl.totalByteCount.toInt.toNat ≤ ev.parametersSize
      · have hsame : ¬ Grows tmpl eventBank validateBank ev := by
          rintro ⟨evTmpl', hfind', hgrows⟩
          rw [hfind] at hfind'
          cases hfind'
          omega
        obtain ⟨ev', hrun, htype, hsize, hbytes⟩ := taeResizeEventParameters_shrink hshrink heap
        refine ⟨ev', by rw [hrun, if_neg hsame], htype, by omega, ?_⟩
        rw [hbytes, hsize, Nat.sub_eq_zero_of_le hshrink, List.replicate_zero, List.append_nil]
      · have hgrows : Grows tmpl eventBank validateBank ev := ⟨evTmpl, hfind, by omega⟩
        obtain ⟨ev', hrun, htype, hsize, hbytes⟩ :=
          taeResizeEventParameters_grow (Nat.lt_of_not_le hshrink) (hgranted hgrows)
        refine ⟨ev', by rw [hrun, if_pos hgrows], htype, by omega, ?_⟩
        rw [hbytes, hsize, List.take_of_length_le (by rw [TaeEvent.bytes_length]; omega)]

theorem taeApplyToEvent_error_iff {ev : TaeEvent} {heap : Heap} :
    (∃ e, (taeApplyToEvent tmpl validateBank strict eventBank (ev, heap)).1 = .error e) ↔
      Stops tmpl eventBank validateBank strict ev heap := by
  constructor
  · rintro ⟨e, he⟩
    by_contra hgoes
    obtain ⟨ev', hrun, -⟩ := taeApplyToEvent_of_not_stops hgoes
    rw [hrun] at he
    cases he
  · intro hstops
    obtain ⟨e, heap', hrun⟩ := taeApplyToEvent_of_stops hstops
    exact ⟨e, by rw [hrun]⟩

/-! ## The loops -/

theorem walk_of_comesBehind {evs : List TaeEvent} {heap : Heap}
    (h : ComesBehind tmpl eventBank validateBank strict heap evs) :
    ∃ evs', walk (taeApplyToEvent tmpl validateBank strict eventBank) (evs, heap) =
        (.ok (), evs', heapBehind tmpl eventBank validateBank evs heap) ∧
      List.Forall₂ (Fitted tmpl eventBank validateBank) evs evs' := by
  induction evs generalizing heap with
  | nil => exact ⟨[], rfl, .nil⟩
  | cons ev evs ih =>
      obtain ⟨ev', hrun, hfitted⟩ := taeApplyToEvent_of_not_stops h.1
      obtain ⟨evs', hwalk, hall⟩ := ih h.2
      exact ⟨ev' :: evs', by rw [walk_cons_ok hrun, hwalk]; rfl, .cons hfitted hall⟩

theorem comesBehind_of_walk {evs evs' : List TaeEvent} {heap heap' : Heap}
    (h : walk (taeApplyToEvent tmpl validateBank strict eventBank) (evs, heap) = (.ok (), evs', heap')) :
    ComesBehind tmpl eventBank validateBank strict heap evs := by
  induction evs generalizing evs' heap with
  | nil => trivial
  | cons ev evs ih =>
      have hgoes : ¬ Stops tmpl eventBank validateBank strict ev heap := by
        intro hstops
        obtain ⟨e, heap1, hrun⟩ := taeApplyToEvent_of_stops hstops
        rw [walk_cons_error hrun] at h
        cases h
      obtain ⟨ev', hrun, -⟩ := taeApplyToEvent_of_not_stops hgoes
      rw [walk_cons_ok hrun, Prod.mk.injEq, Prod.mk.injEq] at h
      exact ⟨hgoes, ih (Prod.ext h.1 (Prod.ext rfl h.2.2))⟩

/-- The loops go through the events of the file. -/
theorem taeApplyToEvents_walks :
    Walks (taeApplyToEvent tmpl validateBank strict eventBank) Tae.events
      (taeApplyToEvents tmpl validateBank strict eventBank) := by
  have hevents := (Walks.optionally (taeApplyToEvent tmpl validateBank strict eventBank)).list
  have hanims := (hevents.within TaeAnimation.events (fun events anim => { anim with events := events })
    fun _ _ => rfl).option.list
  exact hanims.within Tae.animations (fun animations t => { t with animations := animations }) fun _ _ => rfl

/-- Events that are fitted have their old bytes exactly if they have their sizes. -/
theorem map_bytes_eq_iff {evs evs' : List TaeEvent} (h : List.Forall₂ (Fitted tmpl eventBank validateBank) evs evs') :
    evs'.map TaeEvent.bytes = evs.map TaeEvent.bytes ↔ ∀ ev ∈ evs, Sized tmpl eventBank validateBank ev := by
  induction h with
  | nil => simp
  | cons hfitted _ ih => simp [hfitted.bytes_eq_iff, ih]

/-- The loops do all or nothing exactly if the events before the one at which they stop have their sizes. -/
theorem allOrNothing_taeApplyToEvents_iff (t : Tae) (heap : Heap) :
    AllOrNothing (fun t => t.events.map TaeEvent.bytes) (taeApplyToEvents tmpl validateBank strict eventBank)
        (t, heap) ↔
      ∀ before ev after, t.events = before ++ ev :: after →
        ComesBehind tmpl eventBank validateBank strict heap before →
        Stops tmpl eventBank validateBank strict ev (heapBehind tmpl eventBank validateBank before heap) →
        ∀ x ∈ before, Sized tmpl eventBank validateBank x := by
  rw [taeApplyToEvents_walks.allOrNothing_iff, allOrNothing_walk_iff]
  · constructor
    · intro h before ev after hsplit hbehind hstops
      obtain ⟨before', hwalk, hfitted⟩ := walk_of_comesBehind hbehind
      exact (map_bytes_eq_iff hfitted).1
        (h before ev after before' _ hsplit hwalk (taeApplyToEvent_error_iff.2 hstops))
    · intro h before ev after before' heap1 hsplit hwalk herror
      have hbehind := comesBehind_of_walk hwalk
      obtain ⟨evs', hwalk', hfitted⟩ := walk_of_comesBehind hbehind
      rw [hwalk] at hwalk'
      cases hwalk'
      exact (map_bytes_eq_iff hfitted).2 (h before ev after hsplit hbehind (taeApplyToEvent_error_iff.1 herror))
  · intro ev heap ev' heap' e hrun
    obtain ⟨e', heap1, hrun'⟩ := taeApplyToEvent_of_stops (taeApplyToEvent_error_iff.1 ⟨e, by rw [hrun]⟩)
    rw [hrun] at hrun'
    cases hrun'
    rfl

end

/-! ## The function -/

section

variable {tmpl : TaeTemplate} {validateBank strict : Bool}

/-- The template is for the format, and has the bank that is asked for. -/
def Admitted (tmpl : TaeTemplate) (validateBank : Bool) (t : Tae) : Prop :=
  tmpl.game = t.format ∧ (validateBank → (taeTemplateFindBank tmpl t.eventBank).isSome)

theorem sfTaeApplyTemplate_of_admitted {t : Tae} (h : Admitted tmpl validateBank t) (heap : Heap) :
    sfTaeApplyTemplate tmpl validateBank strict (t, heap) =
      taeApplyToEvents tmpl validateBank strict t.eventBank (t, heap) := by
  unfold sfTaeApplyTemplate
  rw [state_bind_run]
  simp only [check_bind_pos h.1, check_bind_pos h.2]

theorem sfTaeApplyTemplate_of_not_admitted {t : Tae} (h : ¬ Admitted tmpl validateBank t) (heap : Heap) :
    sfTaeApplyTemplate tmpl validateBank strict (t, heap) = (.error .badMagic, t, heap) := by
  unfold sfTaeApplyTemplate
  rw [state_bind_run]
  dsimp only
  by_cases hgame : tmpl.game = t.format
  · rw [check_bind_pos hgame, check_bind_neg fun hbank => h ⟨hgame, hbank⟩]
  · rw [check_bind_neg hgame]

/-- A template that is applied fits every event. -/
theorem sfTaeApplyTemplate_fits {t t' : Tae} {heap heap' : Heap}
    (h : sfTaeApplyTemplate tmpl validateBank strict (t, heap) = (.ok (), t', heap')) :
    List.Forall₂ (Fitted tmpl t.eventBank validateBank) t.events t'.events := by
  have hadmitted : Admitted tmpl validateBank t := by
    by_contra hnot
    rw [sfTaeApplyTemplate_of_not_admitted hnot] at h
    cases h
  rw [sfTaeApplyTemplate_of_admitted hadmitted] at h
  have hwalk := @taeApplyToEvents_walks tmpl t.eventBank validateBank strict t heap
  rw [h] at hwalk
  obtain ⟨evs', hwalk', hfitted⟩ := walk_of_comesBehind (comesBehind_of_walk hwalk)
  rw [hwalk] at hwalk'
  cases hwalk'
  exact hfitted

end

/-- A template is applied as a whole or not at all exactly if it is refused at once, or the events before the one at
    which the loops stop have their sizes already. -/
theorem appliesWhole_iff (tmpl : TaeTemplate) (validateBank strict : Bool) (t : Tae) (heap : Heap) :
    AppliesWhole tmpl validateBank strict t heap ↔
      (Admitted tmpl validateBank t → ∀ before ev after, t.events = before ++ ev :: after →
        ComesBehind tmpl t.eventBank validateBank strict heap before →
        Stops tmpl t.eventBank validateBank strict ev (heapBehind tmpl t.eventBank validateBank before heap) →
        ∀ x ∈ before, Sized tmpl t.eventBank validateBank x) := by
  constructor
  · intro h hadmitted
    rw [← allOrNothing_taeApplyToEvents_iff]
    intro e he
    rw [← sfTaeApplyTemplate_of_admitted hadmitted] at he ⊢
    exact h.failed e he
  · intro h
    refine ⟨?_, fun t' heap' => sfTaeApplyTemplate_fits⟩
    intro e he
    by_cases hadmitted : Admitted tmpl validateBank t
    · rw [sfTaeApplyTemplate_of_admitted hadmitted] at he ⊢
      exact (allOrNothing_taeApplyToEvents_iff t heap).2 (h hadmitted) e he
    · rw [sfTaeApplyTemplate_of_not_admitted hadmitted]

/-- A template that describes events of type 0, with four bytes. -/
def oneEventTemplate : TaeTemplate where
  game := .ds3
  banks := [TaeBankTemplate.mk 0 (cstr "TAE3") [TaeEventTemplate.mk 0 (cstr "JumpTable") [] 4]]

/-- A file with an event of type 0 that has eight bytes, and one of type 1 behind it. -/
def twoEventTae : Tae where
  format := .ds3
  eventBank := 0
  animations := [some ⟨[some ⟨0, List.replicate 8 7, 8, by decide⟩, some ⟨1, [], 0, by decide⟩]⟩]

theorem twoEventTae_not_appliesWhole : ¬ AppliesWhole oneEventTemplate true true twoEventTae [] := by
  intro h
  have hfailed := h.failed .badMagic (by decide)
  exact absurd hfailed (by decide)

end SoulsFormats
