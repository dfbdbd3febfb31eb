import Mathlib.Data.List.Forall2
import Mathlib.Logic.Relation
import SoulsFormats.Effects.TaeTemplateRead
import SoulsFormats.Library.Returns

set_option autoImplicit false

/-! # Banks that are based on others

A bank has its own events, and those of the banks it is based on, directly or not, where no nearer bank has an event of
the same id. The reader makes one pass over the banks; whether it gives every bank all its events depends on the order
of the banks in the document. -/

namespace SoulsFormats

open Fallible Relation

/-! ## Computations that only make requests -/

namespace Heap

variable {α β : Type} {m : Fallible Heap SfError α} {a : α} {b : β}

/-- `m` fails whatever the allocator does. -/
def Fails (m : Fallible Heap SfError α) : Prop := ∀ heap, ∃ e heap', m heap = (.error e, heap')

/-- `m` yields `a`, or fails because a request was refused. -/
def Requests (m : Fallible Heap SfError α) (a : α) : Prop :=
  ∀ heap, (∃ heap', m heap = (.ok a, heap') ∧ (heap.Calm → heap'.Calm)) ∨
    ¬ heap.Calm ∧ ∃ e heap', m heap = (.error e, heap')

theorem Fails.attempt_bind {f : Except SfError α → Fallible Heap SfError β} (h : ∀ x, Fails (f x)) :
    Fails (attempt m >>= f) :=
  fun heap => h (m heap).1 (m heap).2

theorem Fails.lift_bind {x : Except SfError α} {f : α → Fallible Heap SfError β} (h : ∀ a, Fails (f a)) :
    Fails (lift x >>= f) := by
  intro heap
  cases x with
  | error e => exact ⟨e, heap, rfl⟩
  | ok a => exact h a heap

theorem Fails.lift_error_bind (e : SfError) (f : α → Fallible Heap SfError β) :
    Fails (lift (.error e) >>= f) :=
  fun heap => ⟨e, heap, rfl⟩

theorem Requests.pure (a : α) : Requests (Pure.pure a) a := fun heap => Or.inl ⟨heap, rfl, id⟩

theorem Requests.bind {f : α → Fallible Heap SfError β} (hm : Requests m a) (hf : Requests (f a) b) :
    Requests (m >>= f) b := by
  intro heap
  rcases hm heap with ⟨heap1, hrun, hcalm⟩ | ⟨hrefused, e, heap1, hrun⟩
  · rcases hf heap1 with ⟨heap2, hrun', hcalm'⟩ | ⟨hrefused, hfail⟩
    · exact Or.inl ⟨heap2, by rw [bind_ok hrun, hrun'], fun hc => hcalm' (hcalm hc)⟩
    · exact Or.inr ⟨fun hc => hrefused (hcalm hc), by rw [bind_ok hrun]; exact hfail⟩
  · exact Or.inr ⟨hrefused, e, heap1, by rw [bind_error hrun]⟩

theorem Requests.alloc_bind {f : List UInt8 → Fallible Heap SfError β} (hf : ∀ junk, Requests (f junk) b) :
    Requests (Heap.alloc >>= f) b := by
  intro heap
  match heap with
  | [] => exact hf [] []
  | none :: rest => exact Or.inr ⟨fun hc => hc List.mem_cons_self, .oom, rest, rfl⟩
  | some junk :: rest =>
      rcases hf junk rest with ⟨heap', hrun, hcalm⟩ | ⟨hrefused, hfail⟩
      · exact Or.inl ⟨heap', hrun, fun hc => hcalm fun hmem => hc (List.mem_cons_of_mem _ hmem)⟩
      · exact Or.inr ⟨fun hc => hrefused fun hmem => hc (List.mem_cons_of_mem _ hmem), hfail⟩

/-- A failure that is only noticed later is a failure. -/
theorem Requests.attempt_bind {f : Except SfError α → Fallible Heap SfError β} (hm : Requests m a)
    (hok : Requests (f (.ok a)) b) (herror : ∀ e, Fails (f (.error e))) : Requests (attempt m >>= f) b := by
  intro heap
  rw [attempt_bind_run]
  rcases hm heap with ⟨heap1, hrun, hcalm⟩ | ⟨hrefused, e, heap1, hrun⟩
  · rw [hrun]
    rcases hok heap1 with ⟨heap2, hrun', hcalm'⟩ | ⟨hrefused, hfail⟩
    · exact Or.inl ⟨heap2, hrun', fun hc => hcalm' (hcalm hc)⟩
    · exact Or.inr ⟨fun hc => hrefused (hcalm hc), hfail⟩
  · rw [hrun]
    exact Or.inr ⟨hrefused, herror e heap1⟩

/-- A request that is only made under a condition. -/
theorem Requests.alloc_if {c : Prop} [Decidable c] (hm : Requests m a) :
    Requests (if c then Heap.alloc >>= fun _ => m else m) a := by
  split
  · exact Requests.alloc_bind fun _ => hm
  · exact hm

/-- What `m` yields, if it yields something. -/
theorem Requests.eq {heap heap' : Heap} {a' : α} (h : Requests m a) (hrun : m heap = (.ok a', heap')) : a' = a := by
  rcases h heap with ⟨heap1, hrun', -⟩ | ⟨-, e, heap1, hrun'⟩
  · rw [hrun'] at hrun
    cases hrun
    rfl
  · rw [hrun'] at hrun
    cases hrun

end Heap

open Heap

/-! ## Copies are equal to what they are copies of -/

theorem strdup_requests (s : List UInt8) : Requests (strdup s) s := Requests.alloc_bind fun _ => Requests.pure s

theorem sfiCloneEntries_requests (entries : List TaeEnumEntry) : Requests (sfiCloneEntries entries) entries := by
  induction entries with
  | nil => exact Requests.pure _
  | cons entry rest ih => exact (strdup_requests _).bind (ih.bind (Requests.pure _))

theorem nameGroup_requests (nameGroup : Option (List UInt8)) :
    Requests (match nameGroup with
      | some group => some <$> strdup group
      | none => pure none) nameGroup := by
  cases nameGroup with
  | none => exact Requests.pure _
  | some group => exact (strdup_requests group).bind (Requests.pure _)

theorem sfiCloneParam_requests (src : TaeParamTemplate) : Requests (sfiCloneParam src) src := by
  refine Requests.alloc_bind fun _ => ?_
  refine (strdup_requests src.name).attempt_bind ?_ ?_
  · refine (nameGroup_requests src.nameGroup).attempt_bind ?_ ?_
    · refine (strdup_requests src.key).attempt_bind ?_ ?_
      · refine Requests.alloc_if (Requests.alloc_if (Requests.alloc_if ?_))
        exact (sfiCloneEntries_requests _).bind (Requests.pure _)
      · exact fun e => .lift_bind fun _ => .lift_bind fun _ => .lift_error_bind e _
    · exact fun e => .attempt_bind fun _ => .lift_bind fun _ => .lift_error_bind e _
  · exact fun e => .attempt_bind fun _ => .attempt_bind fun _ => .lift_error_bind e _

theorem sfiCloneParams_requests (params : List TaeParamTemplate) : Requests (sfiCloneParams params) params := by
  induction params with
  | nil => exact Requests.pure _
  | cons src rest ih => exact (sfiCloneParam_requests src).bind (ih.bind (Requests.pure _))

theorem sfiCloneEvent_requests (src : TaeEventTemplate) : Requests (sfiCloneEvent src) src :=
  Requests.alloc_bind fun _ => (strdup_requests _).bind <| Requests.alloc_if <|
    (sfiCloneParams_requests _).bind (Requests.pure _)

theorem sfiCloneEvents_requests (events : List TaeEventTemplate) : Requests (sfiCloneEvents events) events := by
  induction events with
  | nil => exact Requests.pure _
  | cons src rest ih => exact (sfiCloneEvent_requests src).bind (ih.bind (Requests.pure _))

/-- A bank with the events that it lacks of another one. -/
def inheriting (dst src : TaeBankTemplate) : TaeBankTemplate :=
  { dst with events := dst.events ++ missingEvents dst src }

theorem sfiInherit_requests (dst src : TaeBankTemplate) : Requests (sfiInherit dst src) (inheriting dst src) := by
  unfold sfiInherit
  split
  · next hnone =>
      have hsame : inheriting dst src = dst := by simp [inheriting, hnone]
      rw [hsame]
      exact Requests.pure dst
  · exact Requests.alloc_bind fun _ => (sfiCloneEvents_requests _).bind (Requests.pure _)

/-! ## The pass -/

section

variable (done : List TaeBankTemplate) (b : TaeBankElement) (rest : List TaeBankElement)

/-- The bank that a bank takes events from, as it is when it is that bank's turn. -/
def consulted : Option TaeBankTemplate :=
  (done ++ b.bank :: rest.map TaeBankElement.bank).find? fun src => src.id = b.reference

/-- What the pass makes of a bank. -/
def passed : TaeBankTemplate :=
  if b.reference = -1 then b.bank else ((consulted done b rest).map (inheriting b.bank)).getD b.bank

end

/-- What the pass makes of the banks behind those that are done. -/
def onePass (done : List TaeBankTemplate) : List TaeBankElement → List TaeBankTemplate
  | [] => []
  | b :: rest => passed done b rest :: onePass (done ++ [passed done b rest]) rest

/-- Every reference is to a bank of the document. -/
def ReferencesResolve (elements : List TaeBankElement) : Prop :=
  ∀ b ∈ elements, ∀ id, b.basedOn = some id → id ≠ -1 → ∃ a ∈ elements, a.bank.id = id

instance (elements : List TaeBankElement) : Decidable (ReferencesResolve elements) :=
  decidable_of_iff ((elements.all fun b => b.basedOn.all fun id => id == -1 || elements.any fun a => a.bank.id == id) = true)
    (by simp [ReferencesResolve, Option.all_eq_true, or_iff_not_imp_left])

@[simp] theorem passed_id (done : List TaeBankTemplate) (b : TaeBankElement) (rest : List TaeBankElement) :
    (passed done b rest).id = b.bank.id := by
  unfold passed
  split
  · rfl
  · cases consulted done b rest <;> rfl

theorem TaeBankElement.basedOn_of_reference {b : TaeBankElement} (h : b.reference ≠ -1) :
    b.basedOn = some b.reference := by
  unfold TaeBankElement.reference at h ⊢
  cases hbased : b.basedOn with
  | none => simp [hbased] at h
  | some id => rfl

theorem sfiResolveFrom_requests {done : List TaeBankTemplate} {rest : List TaeBankElement}
    (h : ∀ b ∈ rest, b.reference ≠ -1 →
      b.reference ∈ done.map TaeBankTemplate.id ++ rest.map fun a => a.bank.id) :
    Requests (sfiResolveFrom done rest) (done ++ onePass done rest) := by
  induction rest generalizing done with
  | nil =>
      rw [onePass, List.append_nil]
      exact Requests.pure done
  | cons b rest ih =>
      have hrest (d : TaeBankTemplate) (hd : d.id = b.bank.id) :
          Requests (sfiResolveFrom (done ++ [d]) rest) (done ++ [d] ++ onePass (done ++ [d]) rest) := by
        refine ih fun a ha hmarked => ?_
        simpa [hd] using h a (List.mem_cons_of_mem b ha) hmarked
      have hd := passed_id done b rest
      rw [sfiResolveFrom, onePass]
      split
      · next hmarked =>
          have hpassed : passed done b rest = b.bank := by rw [passed, if_pos hmarked]
          rw [hpassed]
          simpa using hrest b.bank rfl
      · next hmarked =>
          have hfound : (consulted done b rest).isSome := by
            rw [consulted, List.find?_isSome]
            have hin := h b List.mem_cons_self hmarked
            simp only [List.mem_append, List.mem_map] at hin
            rcases hin with ⟨src, hsrc, hid⟩ | ⟨a, ha, hid⟩
            · exact ⟨src, by simp [hsrc], by simp [hid]⟩
            · refine ⟨a.bank, ?_, by simp [hid]⟩
              rcases List.mem_cons.1 ha with rfl | ha
              · simp
              · simpa using Or.inr (Or.inr ⟨a, ha, rfl⟩)
          obtain ⟨src, hsrc⟩ := Option.isSome_iff_exists.1 hfound
          have hpassed : passed done b rest = inheriting b.bank src := by
            rw [passed, if_neg hmarked, hsrc]
            rfl
          rw [consulted] at hsrc
          rw [hsrc, hpassed]
          have hbehind := hrest (inheriting b.bank src) rfl
          rw [List.append_assoc] at hbehind
          exact (sfiInherit_requests b.bank src).bind hbehind

/-- The pass over the banks of a document. -/
theorem sfiResolveBasedOn_requests {elements : List TaeBankElement} (h : ReferencesResolve elements) :
    Requests (sfiResolveBasedOn elements) (onePass [] elements) := by
  refine sfiResolveFrom_requests fun b hb hmarked => ?_
  obtain ⟨a, ha, hid⟩ := h b hb _ (TaeBankElement.basedOn_of_reference hmarked) hmarked
  simp only [List.map_nil, List.nil_append, List.mem_map]
  exact ⟨a, ha, hid⟩

/-! ## Inheritance -/

/-- A bank has an event of an id of its own. -/
def TaeBankElement.Defines (b : TaeBankElement) (id : Int32) : Prop := ∃ o ∈ b.bank.events, o.id = id

section

variable (elements : List TaeBankElement)

/-- `a` is the bank that `b` is based on. -/
def BasedOn (b a : TaeBankElement) : Prop := a ∈ elements ∧ b.basedOn = some a.bank.id

/-- A bank has its own events, and what the bank it is based on has of events whose ids it does not have. -/
inductive Inherits : TaeBankElement → TaeEventTemplate → Prop
  | own {b : TaeBankElement} {e : TaeEventTemplate} (h : e ∈ b.bank.events) : Inherits b e
  | base {b a : TaeBankElement} {e : TaeEventTemplate} (hbase : BasedOn elements b a) (hnew : ¬ b.Defines e.id)
      (h : Inherits a e) : Inherits b e

/-- What is asked of the banks that are read: each has the events that it should have, each id once. -/
def Inherited (banks : List TaeBankTemplate) : Prop :=
  List.Forall₂ (fun b d => d.id = b.bank.id ∧ d.name = b.bank.name ∧ (d.events.map TaeEventTemplate.id).Nodup ∧
    ∀ e, e ∈ d.events ↔ Inherits elements b e) elements banks

/-- The banks along the chain of references. -/
def Ancestor (b a : TaeBankElement) : Prop := ReflTransGen (BasedOn elements) b a

/-- One pass suffices: a bank that is based on a later one has nothing to take from the banks behind that one, and a
    bank that is based on the bank -1 has nothing to take at all. -/
structure OnePassSuffices : Prop where
  marked : ∀ b ∈ elements, b.basedOn = some (-1) → ∀ a, Ancestor elements b a → ∀ e ∈ a.bank.events, b.Defines e.id
  later : ∀ before b after p, elements = before ++ b :: after → p ∈ after → b.basedOn = some p.bank.id →
    p.bank.id ≠ -1 → ∀ a, Ancestor elements b a → ∀ e ∈ a.bank.events, b.Defines e.id ∨ p.Defines e.id

/-- What the document guarantees: no id is used twice. -/
structure DistinctIds : Prop where
  banks : (elements.map fun b => b.bank.id).Nodup
  events : ∀ b ∈ elements, (b.bank.events.map TaeEventTemplate.id).Nodup

end

section

variable {elements : List TaeBankElement} {b a p : TaeBankElement} {e : TaeEventTemplate}

theorem taeBankTemplateFindEvent_isNone {d : TaeBankTemplate} {id : Int32} :
    (taeBankTemplateFindEvent d id).isNone ↔ ∀ o ∈ d.events, o.id ≠ id := by
  simp [taeBankTemplateFindEvent]

theorem mem_missingEvents {src : TaeBankTemplate} :
    e ∈ missingEvents b.bank src ↔ e ∈ src.events ∧ ¬ b.Defines e.id := by
  rw [missingEvents, List.mem_filter, taeBankTemplateFindEvent_isNone]
  simp [TaeBankElement.Defines]

/-- Taking over what is missing uses no id twice. -/
theorem inheriting_nodup {src : TaeBankTemplate} (hb : (b.bank.events.map TaeEventTemplate.id).Nodup)
    (hsrc : (src.events.map TaeEventTemplate.id).Nodup) :
    ((inheriting b.bank src).events.map TaeEventTemplate.id).Nodup := by
  rw [inheriting, List.map_append, List.nodup_append']
  refine ⟨hb, hsrc.sublist (List.filter_sublist.map _), ?_⟩
  intro id hown hmissing
  obtain ⟨o, ho, rfl⟩ := List.mem_map.1 hown
  obtain ⟨e, he, hid⟩ := List.mem_map.1 hmissing
  exact (mem_missingEvents.1 he).2 ⟨o, ho, hid.symm⟩

theorem DistinctIds.eq_of_id (h : DistinctIds elements) (ha : a ∈ elements) (hp : p ∈ elements)
    (hid : a.bank.id = p.bank.id) : a = p :=
  List.inj_on_of_nodup_map h.banks ha hp hid

/-- What a bank inherits is an event of an ancestor. -/
theorem Inherits.ancestor (h : Inherits elements b e) : ∃ a, Ancestor elements b a ∧ e ∈ a.bank.events := by
  induction h with
  | own h => exact ⟨_, .refl, h⟩
  | base hbase _ _ ih =>
      obtain ⟨a, ha, he⟩ := ih
      exact ⟨a, ha.head hbase, he⟩

/-- A bank has an event for every id that an ancestor has. -/
theorem Ancestor.inherits (h : Ancestor elements b a) (he : e ∈ a.bank.events) :
    ∃ e', Inherits elements b e' ∧ e'.id = e.id := by
  induction h using ReflTransGen.head_induction_on with
  | refl => exact ⟨e, .own he, rfl⟩
  | @head b c hbase _ ih =>
      obtain ⟨e', hinherits, hid⟩ := ih
      by_cases hdefines : b.Defines e'.id
      · obtain ⟨o, ho, hoid⟩ := hdefines
        exact ⟨o, .own ho, hoid.trans hid⟩
      · exact ⟨e', .base hbase hdefines hinherits, hid⟩

/-- A bank whose ancestors have no ids that it does not have inherits nothing. -/
theorem inherits_iff_own (h : ∀ a, Ancestor elements b a → ∀ e ∈ a.bank.events, b.Defines e.id) :
    Inherits elements b e ↔ e ∈ b.bank.events := by
  refine ⟨fun hinherits => ?_, Inherits.own⟩
  cases hinherits with
  | own h => exact h
  | base hbase hnew hinherits =>
      obtain ⟨a, ha, he⟩ := hinherits.ancestor
      exact absurd (h a (ha.head hbase) e he) hnew

theorem inherits_iff_base (hids : DistinctIds elements) (hp : BasedOn elements b p) :
    Inherits elements b e ↔ e ∈ b.bank.events ∨ Inherits elements p e ∧ ¬ b.Defines e.id := by
  constructor
  · intro hinherits
    cases hinherits with
    | own h => exact Or.inl h
    | base hbase hnew hinherits =>
        have hid := hbase.2.symm.trans hp.2
        rw [hids.eq_of_id hbase.1 hp.1 (Option.some.inj hid)] at hinherits
        exact Or.inr ⟨hinherits, hnew⟩
  · rintro (h | ⟨hinherits, hnew⟩)
    · exact .own h
    · exact .base hp hnew hinherits

/-- Nor is there anything behind the base, if its ancestors have no ids that it and the bank do not have. -/
theorem inherits_base_iff_own (hp : BasedOn elements b p)
    (h : ∀ a, Ancestor elements b a → ∀ e ∈ a.bank.events, b.Defines e.id ∨ p.Defines e.id)
    (hnew : ¬ b.Defines e.id) : Inherits elements p e ↔ e ∈ p.bank.events := by
  refine ⟨fun hinherits => ?_, Inherits.own⟩
  cases hinherits with
  | own h => exact h
  | base hbase hnew' hinherits =>
      obtain ⟨a, ha, he⟩ := hinherits.ancestor
      rcases h a ((ha.head hbase).head hp) e he with hdefines | hdefines
      · exact absurd hdefines hnew
      · exact absurd hdefines hnew'

/-! ## What the pass gives a bank -/

section

variable {done : List TaeBankTemplate} {rest : List TaeBankElement}

theorem passed_of_marked (h : b.reference = -1) : passed done b rest = b.bank := by
  rw [passed, if_pos h]

theorem passed_of_consulted {src : TaeBankTemplate} (h : b.reference ≠ -1) (hsrc : consulted done b rest = some src) :
    passed done b rest = inheriting b.bank src := by
  rw [passed, if_neg h, hsrc]
  rfl

/-- The only bank of an id is the one that is found. -/
theorem consulted_eq_some (src : TaeBankTemplate)
    (hnodup : (done.map TaeBankTemplate.id ++ b.bank.id :: rest.map fun a => a.bank.id).Nodup)
    (hsrc : src ∈ done ++ b.bank :: rest.map TaeBankElement.bank) (hid : src.id = b.reference) :
    consulted done b rest = some src := by
  obtain ⟨found, hfound⟩ : ∃ found, consulted done b rest = some found := by
    rw [← Option.isSome_iff_exists, consulted, List.find?_isSome]
    exact ⟨src, hsrc, by simp [hid]⟩
  rw [hfound, Option.some.injEq]
  have hfoundid : found.id = b.reference := by simpa using List.find?_some hfound
  have hall : ((done ++ b.bank :: rest.map TaeBankElement.bank).map TaeBankTemplate.id).Nodup := by
    simpa [Function.comp_def] using hnodup
  exact List.inj_on_of_nodup_map hall (List.mem_of_find?_eq_some hfound) hsrc (hfoundid.trans hid.symm)

/-- The events that a bank with a base has after the pass. -/
theorem mem_inheriting {src : TaeBankTemplate} :
    e ∈ (inheriting b.bank src).events ↔ e ∈ b.bank.events ∨ e ∈ src.events ∧ ¬ b.Defines e.id := by
  rw [inheriting, List.mem_append, mem_missingEvents]

/-- The pass up to a bank, that bank, and the pass behind it. -/
theorem onePass_append (before : List TaeBankElement) (done : List TaeBankTemplate) :
    ∃ pre, onePass done (before ++ b :: rest) =
        pre ++ passed (done ++ pre) b rest :: onePass (done ++ pre ++ [passed (done ++ pre) b rest]) rest ∧
      pre.map TaeBankTemplate.id = before.map fun a => a.bank.id := by
  induction before generalizing done with
  | nil => exact ⟨[], by simp [onePass], rfl⟩
  | cons c before ih =>
      obtain ⟨pre, hpass, hids⟩ := ih (done ++ [passed done c (before ++ b :: rest)])
      refine ⟨passed done c (before ++ b :: rest) :: pre, ?_, by simp [hids]⟩
      rw [List.cons_append, onePass, hpass]
      simp

end

/-- What is asked of one bank. -/
def Complete (elements : List TaeBankElement) (b : TaeBankElement) (d : TaeBankTemplate) : Prop :=
  d.id = b.bank.id ∧ d.name = b.bank.name ∧ (d.events.map TaeEventTemplate.id).Nodup ∧
    ∀ e, e ∈ d.events ↔ Inherits elements b e

theorem Complete.own (hids : DistinctIds elements) (hb : b ∈ elements)
    (h : ∀ a, Ancestor elements b a → ∀ e ∈ a.bank.events, b.Defines e.id) : Complete elements b b.bank :=
  ⟨rfl, rfl, hids.events b hb, fun _ => (inherits_iff_own h).symm⟩

/-- If one pass suffices, a bank is complete after it, provided that those before it are. -/
theorem complete_passed (hids : DistinctIds elements) (hresolve : ReferencesResolve elements)
    (hone : OnePassSuffices elements) {before rest : List TaeBankElement} {done : List TaeBankTemplate}
    (hsplit : elements = before ++ b :: rest) (hdone : List.Forall₂ (Complete elements) before done) :
    Complete elements b (passed done b rest) := by
  have hb : b ∈ elements := by simp [hsplit]
  by_cases hmarked : b.reference = -1
  · rw [passed_of_marked hmarked]
    cases hbased : b.basedOn with
    | some id =>
        have hid : id = -1 := by simpa [TaeBankElement.reference, hbased] using hmarked
        subst hid
        exact .own hids hb (hone.marked b hb hbased)
    | none =>
        refine .own hids hb fun a ha e he => ?_
        -- there is no other bank along the chain
        rcases ha.cases_head with rfl | ⟨c, hbase, -⟩
        · exact ⟨e, he, rfl⟩
        · simp [BasedOn, hbased] at hbase
  have hbased := TaeBankElement.basedOn_of_reference hmarked
  obtain ⟨p, hp, hpid⟩ := hresolve b hb _ hbased hmarked
  have hbase : BasedOn elements b p := ⟨hp, by rw [hbased, hpid]⟩
  have hdoneids : done.map TaeBankTemplate.id = before.map fun a => a.bank.id := by
    clear hsplit
    induction hdone with
    | nil => rfl
    | cons h _ ih => simp [h.1, ih]
  have hnodup : (done.map TaeBankTemplate.id ++ b.bank.id :: rest.map fun a => a.bank.id).Nodup := by
    have := hids.banks
    rw [hsplit] at this
    simpa [hdoneids] using this
  rw [hsplit, List.mem_append, List.mem_cons] at hp
  rcases hp with hbefore | rfl | hlater
  · -- the base is complete already
    obtain ⟨d, hd, hcomplete⟩ : ∃ d ∈ done, Complete elements p d := by
      obtain ⟨i, hi, rfl⟩ := List.mem_iff_getElem.1 hbefore
      have hi' : i < done.length := by rw [← hdone.length_eq]; exact hi
      exact ⟨done[i], List.getElem_mem hi', hdone.get hi hi'⟩
    have hconsulted := consulted_eq_some d hnodup (by simp [hd]) (hcomplete.1.trans hpid)
    rw [passed_of_consulted hmarked hconsulted]
    refine ⟨rfl, rfl, inheriting_nodup (hids.events b hb) hcomplete.2.2.1, fun e => ?_⟩
    rw [mem_inheriting, inherits_iff_base hids hbase, hcomplete.2.2.2 e]
  · -- a bank that is based on itself
    have hconsulted := consulted_eq_some p.bank hnodup (by simp) hpid
    rw [passed_of_consulted hmarked hconsulted]
    have hnone : missingEvents p.bank p.bank = [] := by
      rw [List.eq_nil_iff_forall_not_mem]
      intro e he
      exact (mem_missingEvents.1 he).2 ⟨e, (mem_missingEvents.1 he).1, rfl⟩
    have hsame : inheriting p.bank p.bank = p.bank := by simp [inheriting, hnone]
    rw [hsame]
    refine .own hids hb fun a ha => ?_
    have hself : a = p := by
      induction ha with
      | refl => rfl
      | tail _ hstep ih =>
          subst ih
          exact hids.eq_of_id hstep.1 hb (Option.some.inj (hstep.2.symm.trans hbase.2))
    subst hself
    exact fun e he => ⟨e, he, rfl⟩
  · -- a later base has its own events only
    have hconsulted := consulted_eq_some p.bank hnodup
      (by simpa using Or.inr (Or.inr ⟨p, hlater, rfl⟩)) hpid
    rw [passed_of_consulted hmarked hconsulted]
    have hp : p ∈ elements := hbase.1
    refine ⟨rfl, rfl, inheriting_nodup (hids.events b hb) (hids.events p hp), fun e => ?_⟩
    have hreach := hone.later before b rest p hsplit hlater hbase.2 (by rwa [hpid])
    rw [mem_inheriting, inherits_iff_base hids hbase]
    refine or_congr_right (and_congr_left fun hnew => ?_)
    exact (inherits_base_iff_own hbase hreach hnew).symm

theorem onePass_complete (hids : DistinctIds elements) (hresolve : ReferencesResolve elements)
    (hone : OnePassSuffices elements) {before rest : List TaeBankElement} {done : List TaeBankTemplate}
    (hsplit : elements = before ++ rest) (hdone : List.Forall₂ (Complete elements) before done) :
    List.Forall₂ (Complete elements) rest (onePass done rest) := by
  induction rest generalizing before done with
  | nil => exact .nil
  | cons b rest ih =>
      have hb := complete_passed hids hresolve hone hsplit hdone
      have hdone' := List.rel_append hdone (.cons hb .nil)
      exact .cons hb (ih (by simp [hsplit]) hdone')

/-- What the pass makes of a bank is complete, if all that it makes is. -/
theorem complete_of_onePass {before rest : List TaeBankElement} (hsplit : elements = before ++ b :: rest)
    (h : List.Forall₂ (Complete elements) elements (onePass [] elements)) :
    ∃ pre, pre.map TaeBankTemplate.id = (before.map fun a => a.bank.id) ∧ Complete elements b (passed pre b rest) := by
  obtain ⟨pre, hpass, hpreids⟩ := @onePass_append b rest before []
  rw [List.nil_append] at hpass
  refine ⟨pre, hpreids, ?_⟩
  have hlength : before.length = pre.length := by simpa using (congrArg List.length hpreids).symm
  have hleft : elements[before.length]? = some b := by simp [hsplit]
  have hright : (onePass [] elements)[before.length]? = some (passed pre b rest) := by
    rw [hsplit, hpass, hlength]
    simp
  obtain ⟨hi, hleft⟩ := List.getElem?_eq_some_iff.1 hleft
  obtain ⟨hj, hright⟩ := List.getElem?_eq_some_iff.1 hright
  have hget := h.get hi hj
  simp only [List.get_eq_getElem] at hget
  rwa [hleft, hright] at hget

/-- The pass makes every bank complete exactly if one pass suffices. -/
theorem inherited_onePass_iff (hids : DistinctIds elements) (hresolve : ReferencesResolve elements) :
    Inherited elements (onePass [] elements) ↔ OnePassSuffices elements := by
  constructor
  · intro h
    refine ⟨?_, ?_⟩
    · intro b hb hbased a ha e he
      obtain ⟨before, rest, hsplit⟩ := List.append_of_mem hb
      obtain ⟨pre, -, hcomplete⟩ := complete_of_onePass hsplit h
      have hmarked : b.reference = -1 := by simp [TaeBankElement.reference, hbased]
      rw [passed_of_marked hmarked] at hcomplete
      obtain ⟨e', hinherits, hid⟩ := ha.inherits he
      exact ⟨e', (hcomplete.2.2.2 e').2 hinherits, hid⟩
    · intro before b rest p hsplit hp hbased hpid a ha e he
      obtain ⟨pre, hpreids, hcomplete⟩ := complete_of_onePass hsplit h
      have hreference : b.reference = p.bank.id := by simp [TaeBankElement.reference, hbased]
      have hnodup : (pre.map TaeBankTemplate.id ++ b.bank.id :: rest.map fun a => a.bank.id).Nodup := by
        have := hids.banks
        rw [hsplit] at this
        simpa [hpreids] using this
      have hconsulted := consulted_eq_some p.bank hnodup
        (by simpa using Or.inr (Or.inr ⟨p, hp, rfl⟩)) hreference.symm
      rw [passed_of_consulted (by rwa [hreference]) hconsulted] at hcomplete
      obtain ⟨e', hinherits, hid⟩ := ha.inherits he
      rw [← hid]
      rcases mem_inheriting.1 ((hcomplete.2.2.2 e').2 hinherits) with hown | ⟨hbase, -⟩
      · exact Or.inl ⟨e', hown, rfl⟩
      · exact Or.inr ⟨e', hbase, rfl⟩
  · intro hone
    exact onePass_complete hids hresolve hone rfl .nil

end

/-! ## Documents -/

section

variable {ν : Type} {xml : XmlLibrary ν} {libc : FloatText}

theorem nodup_append_singleton {α β : Type} {key : α → β} {l : List α} {a : α} (hl : (l.map key).Nodup)
    (ha : ∀ o ∈ l, key o ≠ key a) : ((l ++ [a]).map key).Nodup := by
  rw [List.map_append, List.nodup_append']
  refine ⟨hl, by simp, ?_⟩
  intro k hk hka
  obtain ⟨o, ho, rfl⟩ := List.mem_map.1 hk
  exact ha o ho (by simpa using hka)

/-- The events that are read have different ids. -/
theorem sfiParseEvents_returns (nodes : List ν) {events : List TaeEventTemplate}
    (h : (events.map TaeEventTemplate.id).Nodup) :
    Returns (sfiParseEvents xml libc nodes events) fun r => (r.map TaeEventTemplate.id).Nodup := by
  induction nodes generalizing events with
  | nil => exact Returns.pure h
  | cons child rest ih =>
      refine Returns.ite (fun _ => Returns.after fun e => ?_) fun _ => ih h
      exact Returns.check fun hnew => ih (nodup_append_singleton h hnew)

theorem sfiParseBank_returns (node : ν) :
    Returns (sfiParseBank xml libc node) fun b => (b.bank.events.map TaeEventTemplate.id).Nodup := by
  unfold sfiParseBank
  refine Returns.after fun idText => Returns.after fun name => Returns.after fun _ => Returns.after fun id =>
    Returns.after fun name => Returns.after fun basedOn => ?_
  have hrest : Returns (do
      let events ← sfiParseEvents xml libc (xml.children node) []
      pure { bank := { id := id, name := name, events := events }, basedOn := basedOn })
      fun b : TaeBankElement => (b.bank.events.map TaeEventTemplate.id).Nodup :=
    (sfiParseEvents_returns (xml.children node) (by simp)).bind fun events hevents => Returns.pure hevents
  exact Returns.ite (fun _ => Returns.after fun _ => hrest) fun _ => hrest

theorem sfiParseBanks_returns (nodes : List ν) {banks : List TaeBankElement} (h : DistinctIds banks) :
    Returns (sfiParseBanks xml libc nodes banks) DistinctIds := by
  induction nodes generalizing banks with
  | nil => exact Returns.pure h
  | cons child rest ih =>
      refine Returns.ite (fun _ => ?_) fun _ => ih h
      refine (sfiParseBank_returns child).bind fun b hb => Returns.check fun hnew => ih ⟨?_, ?_⟩
      · exact nodup_append_singleton h.banks hnew
      · intro a ha
        rcases List.mem_append.1 ha with ha | ha
        · exact h.events a ha
        · rw [List.mem_singleton.1 ha]
          exact hb

/-- No id is used twice in a document that is read. -/
theorem sfiBankElements_returns (tree : ν) :
    Returns (sfiBankElements xml libc tree) fun r => DistinctIds r.2 := by
  unfold sfiBankElements
  refine Returns.after fun root => Returns.after fun game => Returns.after fun _ => Returns.after fun format => ?_
  have hrest : Returns (do
      let elements ← sfiParseBanks xml libc (xml.children root) []
      pure (format, elements)) fun r => DistinctIds r.2 :=
    (sfiParseBanks_returns (xml.children root) ⟨by simp, by simp⟩).bind fun elements h => Returns.pure h
  refine Returns.ite (fun _ => ?_) fun _ => hrest
  exact Returns.after fun _ => Returns.after fun _ => Returns.after fun _ => Returns.after fun _ => hrest

/-- The bank elements of a document. -/
def documentBanks {ν : Type} (xml : XmlLibrary ν) (libc : FloatText) (xmlText : List UInt8) :
    Fallible Heap SfError (TaeFormat × List TaeBankElement) := do
  let tree ← loadDocument xml xmlText
  sfiBankElements xml libc tree

theorem sfTaeTemplateReadFromMemory_eq (xmlText : List UInt8) :
    sfTaeTemplateReadFromMemory xml libc xmlText = (do
      let (game, elements) ← documentBanks xml libc xmlText
      let banks ← sfiResolveBasedOn elements
      pure { game := game, banks := banks }) := by
  unfold sfTaeTemplateReadFromMemory documentBanks sfiTemplateFromTree
  rw [bind_assoc]

end

/-- A document is read, unless the allocator refuses, and its banks have what they inherit exactly if one pass over them
    suffices. -/
theorem taeTemplate_inherited_iff {ν : Type} {xml : XmlLibrary ν} {libc : FloatText} {xmlText : List UInt8}
    {heap heap1 : Heap} {game : TaeFormat} {elements : List TaeBankElement}
    (hbanks : documentBanks xml libc xmlText heap = (.ok (game, elements), heap1))
    (hresolve : ReferencesResolve elements) :
    (heap1.Calm → ∃ t heap2, sfTaeTemplateReadFromMemory xml libc xmlText heap = (.ok t, heap2)) ∧
      ∀ t heap2, sfTaeTemplateReadFromMemory xml libc xmlText heap = (.ok t, heap2) →
        (Inherited elements t.banks ↔ OnePassSuffices elements) := by
  have hids : DistinctIds elements := by
    obtain ⟨tree, heap0, -, helements⟩ := bind_eq_ok.1 hbanks
    exact sfiBankElements_returns tree heap0 _ heap1 helements
  have hpass := sfiResolveBasedOn_requests hresolve
  rw [sfTaeTemplateReadFromMemory_eq, bind_ok hbanks]
  refine ⟨fun hcalm => ?_, fun t heap2 hrun => ?_⟩
  · rcases hpass heap1 with ⟨heap2, hrun, -⟩ | ⟨hrefused, -⟩
    · exact ⟨_, _, bind_ok hrun _⟩
    · exact absurd hcalm hrefused
  · obtain ⟨banks, heap3, hrun', hpure⟩ := bind_eq_ok.1 hrun
    cases hpure
    rw [hpass.eq hrun']
    exact inherited_onePass_iff hids hresolve

/-- Three banks, each based on the next; only the last one has an event. -/
def chainText : List UInt8 :=
  cstr ("<event_template game=\"DS3\"><bank id=\"0\" name=\"a\" basedon=\"1\"/>" ++
    "<bank id=\"1\" name=\"b\" basedon=\"2\"/><bank id=\"2\" name=\"c\"><event id=\"5\" name=\"e\"/></bank>" ++
    "</event_template>")

def chainTree : XmlNode :=
  .element (cstr "event_template") [(cstr "game", cstr "DS3")] [
    .element (cstr "bank") [(cstr "id", cstr "0"), (cstr "name", cstr "a"), (cstr "basedon", cstr "1")] [],
    .element (cstr "bank") [(cstr "id", cstr "1"), (cstr "name", cstr "b"), (cstr "basedon", cstr "2")] [],
    .element (cstr "bank") [(cstr "id", cstr "2"), (cstr "name", cstr "c")] [
      .element (cstr "event") [(cstr "id", cstr "5"), (cstr "name", cstr "e")] []]]

/-- A library that loads this one document. -/
def loadChain : XmlLibrary XmlNode := XmlNode.library fun text => if text = chainText then some chainTree else none

/-- No numbers with a point are in the document. -/
def noFloats : FloatText where
  strtof _ := none
  strtod _ := none

def chainEvent : TaeEventTemplate := TaeEventTemplate.mk 5 (cstr "e") [] 0

def chainElements : List TaeBankElement :=
  [⟨⟨0, cstr "a", []⟩, some 1⟩, ⟨⟨1, cstr "b", []⟩, some 2⟩, ⟨⟨2, cstr "c", [chainEvent]⟩, none⟩]

def chainTemplate : TaeTemplate where
  game := .ds3
  banks := [⟨0, cstr "a", []⟩, ⟨1, cstr "b", [chainEvent]⟩, ⟨2, cstr "c", [chainEvent]⟩]

theorem documentBanks_chain : documentBanks loadChain noFloats chainText [] = (.ok (.ds3, chainElements), []) := by
  decide +kernel

theorem readFromMemory_chain :
    sfTaeTemplateReadFromMemory loadChain noFloats chainText [] = (.ok chainTemplate, []) := by
  decide +kernel

/-- The first bank does not have the event. -/
theorem chain_not_inherited :
    sfTaeTemplateReadFromMemory loadChain noFloats chainText [] = (.ok chainTemplate, []) ∧
      ¬ Inherited chainElements chainTemplate.banks := by
  refine ⟨readFromMemory_chain, fun hinherited => ?_⟩
  cases hinherited with
  | cons hfirst _ =>
      have hlast : Inherits chainElements ⟨⟨2, cstr "c", [chainEvent]⟩, none⟩ chainEvent := .own (by simp)
      have hmiddle : Inherits chainElements ⟨⟨1, cstr "b", []⟩, some 2⟩ chainEvent :=
        .base ⟨by simp [chainElements], rfl⟩ (by rintro ⟨o, ho, -⟩; cases ho) hlast
      have hevent : Inherits chainElements ⟨⟨0, cstr "a", []⟩, some 1⟩ chainEvent :=
        .base ⟨by simp [chainElements], rfl⟩ (by rintro ⟨o, ho, -⟩; cases ho) hmiddle
      have hmem := (hfirst.2.2.2 chainEvent).2 hevent
      cases hmem

theorem taeTemplate_inherited_iff_chain :
    Inherited chainElements chainTemplate.banks ↔ OnePassSuffices chainElements :=
  (taeTemplate_inherited_iff documentBanks_chain (by simp [ReferencesResolve, chainElements])).2 _ _ readFromMemory_chain

end SoulsFormats
