import SoulsFormats.Core.Making
import SoulsFormats.Core.Tables
import SoulsFormats.Effects.FfxdlseRoundtrip
import SoulsFormats.Library.Achieves

set_option autoImplicit false

/-! # FFXDLSE files

The writer collects the classes that an effect needs before it writes anything. Where the allocator grants
everything, only a trigger without an evaluator or a file that is too large keep an effect from being written. What
is written is read back, and what was read is written back. -/

namespace SoulsFormats

open Bytes Fallible

/-! ## The classes that an effect needs -/

section Classes

variable {cn cn' : FfxClassNames} {name : List UInt8}

/-- The table has the class. -/
def FfxClassNames.Has (cn : FfxClassNames) (name : List UInt8) : Prop := (cn.indexOf name).isSome

/-- One table has every class of another. -/
def FfxClassNames.Within (cn cn' : FfxClassNames) : Prop := ∀ name, cn.Has name → cn'.Has name

theorem FfxClassNames.Within.trans {cn1 cn2 cn3 : FfxClassNames} (h : cn1.Within cn2) (h' : cn2.Within cn3) :
    cn1.Within cn3 := fun name hname => h' name (h name hname)

theorem FfxClassNames.has_iff : cn.Has name ↔ ∃ n ∈ cn.names, cText n = cText name := by
  simp [Has, indexOf, List.findIdx?_isSome]

theorem cText_cText (s : List UInt8) : cText (cText s) = cText s :=
  cText_eq_self fun b hb => by simpa using List.mem_takeWhile_imp hb

theorem FfxClassNames.within_appended (cn : FfxClassNames) (name : List UInt8) : cn.Within (cn.appended name) := by
  intro other hother
  obtain ⟨n, hn, heq⟩ := has_iff.1 hother
  exact has_iff.2 ⟨n, List.mem_append_left _ hn, heq⟩

theorem FfxClassNames.achieves_add (cn : FfxClassNames) (name : List UInt8) :
    Achieves Heap.Calm (cn.add name) fun cn' => cn.Within cn' ∧ cn'.Has name := by
  refine Achieves.ite (fun h => Achieves.pure ⟨fun _ hother => hother, h⟩) fun _ => ?_
  have halloc : Achieves Heap.Calm Heap.alloc fun _ => True := fun h hh => by
    obtain ⟨junk, h', hrun, hcalm⟩ := Heap.alloc_calm hh
    exact ⟨junk, h', hrun, hcalm, trivial⟩
  refine halloc.bind fun _ _ h hh => ?_
  obtain ⟨h', hrun, hcalm⟩ := (cn.appendOwned_steady (cText name)).ok_of_granted (cn.granted_appendOwned _) hh
  refine ⟨_, h', hrun, hcalm, within_appended _ _, has_iff.2 ⟨cText name, ?_, cText_cText name⟩⟩
  exact List.mem_append_right _ (List.mem_singleton_self _)

/-- What the collecting of one thing achieves: nothing is lost, and what it needs is there. -/
abbrev Collects (m : Fallible Heap SfError FfxClassNames) (cn : FfxClassNames) (P : FfxClassNames → Prop) : Prop :=
  Achieves Heap.Calm m fun cn' => cn.Within cn' ∧ P cn'

theorem Collects.bind {m : Fallible Heap SfError FfxClassNames} {f : FfxClassNames → Fallible Heap SfError FfxClassNames}
    {P Q : FfxClassNames → Prop} (hm : Collects m cn P) (hf : ∀ cn', P cn' → Collects (f cn') cn' Q) :
    Collects (m >>= f) cn Q :=
  Achieves.bind hm fun cn' h => (hf cn' h.2).mono fun _ h' => ⟨h.1.trans h'.1, h'.2⟩

theorem collects_copy (names : List (List UInt8)) (cn : FfxClassNames) : Collects (cn.copy names) cn fun _ => True := by
  induction names generalizing cn with
  | nil => exact Achieves.pure ⟨fun _ h => h, trivial⟩
  | cons name names ih => exact Collects.bind (cn.achieves_add name) fun cn' _ => ih cn'

theorem collects_each {α : Type} {collect : FfxClassNames → α → Fallible Heap SfError FfxClassNames}
    {P : α → FfxClassNames → Prop} (hmono : ∀ a cn cn', FfxClassNames.Within cn cn' → P a cn → P a cn') (l : List α)
    (h : ∀ cn, ∀ a ∈ l, Collects (collect cn a) cn (P a)) (cn : FfxClassNames) :
    Collects (collectEach collect cn l) cn fun cn' => ∀ a ∈ l, P a cn' := by
  induction l generalizing cn with
  | nil => exact Achieves.pure ⟨fun _ h => h, nofun⟩
  | cons a l ih =>
      refine Achieves.bind (h cn a List.mem_cons_self) fun cn1 h1 => ?_
      refine (ih (fun cn b hb => h cn b (List.mem_cons_of_mem a hb)) cn1).mono fun cn2 h2 => ?_
      exact ⟨h1.1.trans h2.1, List.forall_mem_cons.2 ⟨hmono a cn1 cn2 h2.1 h1.2, h2.2⟩⟩

theorem collects_eval (ev : FfxEvaluatable) (cn : FfxClassNames) :
    Collects (collectEval cn ev) cn fun cn' => cn'.Has CN_EVAL := by
  induction ev generalizing cn with
  | constant => exact cn.achieves_add _
  | arg => exact cn.achieves_add _
  | leaf => exact cn.achieves_add _
  | binary opcode typeField left right ihleft ihright =>
      exact Collects.bind (cn.achieves_add _) fun cn1 _ => Collects.bind (ihright cn1) fun cn2 _ => ihleft cn2
  | not typeField operand ih => exact Collects.bind (cn.achieves_add _) fun cn1 _ => ih cn1

/-- The table has the classes of a parameter list, and so on. -/
def FfxParamList.Known (pl : FfxParamList) (cn : FfxClassNames) : Prop :=
  cn.Has CN_PARAM_LIST ∧ (0 < pl.params.length → cn.Has CN_PARAM)

def FfxAction.Known (a : FfxAction) (cn : FfxClassNames) : Prop := cn.Has CN_ACTION ∧ a.paramList.Known cn

def FfxTrigger.Known (t : FfxTrigger) (cn : FfxClassNames) : Prop :=
  cn.Has CN_TRIGGER ∧ cn.Has CN_EVAL ∧ t.evaluator.isSome

def FfxState.Known (s : FfxState) (cn : FfxClassNames) : Prop :=
  cn.Has CN_STATE ∧ (∀ a ∈ s.actions, a.Known cn) ∧ ∀ t ∈ s.triggers, t.Known cn

structure FfxEffect.Known (e : FfxEffect) (cn : FfxClassNames) : Prop where
  effect : cn.Has CN_EFFECT
  dlvector : cn.Has CN_DLVECTOR
  paramList1 : e.paramList1.Known cn
  paramList2 : e.paramList2.Known cn
  stateMap : cn.Has CN_STATE_MAP
  states : ∀ s ∈ e.stateMap.states, s.Known cn
  resourceSet : cn.Has CN_RESOURCE_SET

theorem FfxParamList.Known.mono {pl : FfxParamList} (hw : cn.Within cn') (h : pl.Known cn) : pl.Known cn' :=
  ⟨hw _ h.1, fun hne => hw _ (h.2 hne)⟩

theorem FfxAction.Known.mono {a : FfxAction} (hw : cn.Within cn') (h : a.Known cn) : a.Known cn' :=
  ⟨hw _ h.1, h.2.mono hw⟩

theorem FfxTrigger.Known.mono {t : FfxTrigger} (hw : cn.Within cn') (h : t.Known cn) : t.Known cn' :=
  ⟨hw _ h.1, hw _ h.2.1, h.2.2⟩

theorem FfxState.Known.mono {s : FfxState} (hw : cn.Within cn') (h : s.Known cn) : s.Known cn' :=
  ⟨hw _ h.1, fun a ha => (h.2.1 a ha).mono hw, fun t ht => (h.2.2 t ht).mono hw⟩

theorem collects_paramList (pl : FfxParamList) (cn : FfxClassNames) : Collects (collectParamList cn pl) cn pl.Known := by
  refine Achieves.bind (cn.achieves_add CN_PARAM_LIST) fun cn1 h1 => Achieves.ite (fun _ => ?_) fun hnone => ?_
  · exact (cn1.achieves_add CN_PARAM).mono fun cn2 h2 => ⟨h1.1.trans h2.1, h2.1 _ h1.2, fun _ => h2.2⟩
  · exact Achieves.pure ⟨h1.1, h1.2, fun hsome => absurd hsome hnone⟩

theorem collects_action (a : FfxAction) (cn : FfxClassNames) : Collects (collectAction cn a) cn a.Known := by
  refine Achieves.bind (cn.achieves_add CN_ACTION) fun cn1 h1 => ?_
  exact (collects_paramList a.paramList cn1).mono fun cn2 h2 => ⟨h1.1.trans h2.1, h2.1 _ h1.2, h2.2⟩

theorem collects_trigger {t : FfxTrigger} (hev : t.evaluator.isSome) (cn : FfxClassNames) :
    Collects (collectTrigger cn t) cn t.Known := by
  obtain ⟨ev, hev⟩ := Option.isSome_iff_exists.1 hev
  refine Achieves.bind (cn.achieves_add CN_TRIGGER) fun cn1 h1 => ?_
  rw [hev]
  refine (collects_eval ev cn1).mono fun cn2 h2 => ⟨h1.1.trans h2.1, h2.1 _ h1.2, h2.2, by rw [hev]; rfl⟩

theorem collects_state {s : FfxState} (hev : ∀ t ∈ s.triggers, t.evaluator.isSome) (cn : FfxClassNames) :
    Collects (collectState cn s) cn s.Known := by
  refine Achieves.bind (cn.achieves_add CN_STATE) fun cn1 h1 => ?_
  refine Achieves.bind (collects_each (P := FfxAction.Known) (fun _ _ _ => FfxAction.Known.mono) s.actions
    (fun cn a _ => collects_action a cn) cn1) fun cn2 h2 => ?_
  refine (collects_each (P := FfxTrigger.Known) (fun _ _ _ => FfxTrigger.Known.mono) s.triggers
    (fun cn t ht => collects_trigger (hev t ht) cn) cn2).mono fun cn3 h3 => ?_
  exact ⟨h1.1.trans (h2.1.trans h3.1), h3.1 _ (h2.1 _ h1.2), fun a ha => (h2.2 a ha).mono h3.1, h3.2⟩

/-- No trigger lacks an evaluator. -/
def FfxEffect.Evaluated (e : FfxEffect) : Prop := ∀ s ∈ e.stateMap.states, ∀ t ∈ s.triggers, t.evaluator.isSome

theorem collects_classes (ffx : Ffxdlse) (hev : ffx.effect.Evaluated) :
    Collects (collectClasses ffx) .init ffx.effect.Known := by
  refine Collects.bind (collects_copy ffx.classNames.names .init) fun cn0 _ => ?_
  refine Achieves.bind (cn0.achieves_add CN_EFFECT) fun cn1 h1 => ?_
  refine Achieves.bind (cn1.achieves_add CN_DLVECTOR) fun cn2 h2 => ?_
  refine Achieves.bind (collects_paramList ffx.effect.paramList1 cn2) fun cn3 h3 => ?_
  refine Achieves.bind (collects_paramList ffx.effect.paramList2 cn3) fun cn4 h4 => ?_
  refine Achieves.bind (cn4.achieves_add CN_STATE_MAP) fun cn5 h5 => ?_
  refine Achieves.bind (collects_each (P := FfxState.Known) (fun _ _ _ => FfxState.Known.mono) _
    (fun cn s hs => collects_state (hev s hs) cn) cn5) fun cn6 h6 => ?_
  refine Achieves.bind (cn6.achieves_add CN_RESOURCE_SET) fun cn7 h7 => ?_
  refine (cn7.achieves_add CN_DLVECTOR).mono fun cn8 h8 => ?_
  -- what was found on the way is in every later table
  have h68 := h7.1.trans h8.1
  have h58 := h6.1.trans h68
  have h48 := h5.1.trans h58
  have h38 := h4.1.trans h48
  have h28 := h3.1.trans h38
  have h18 := h2.1.trans h28
  exact ⟨h1.1.trans h18, h18 _ h1.2, h8.2, h3.2.mono h38, h4.2.mono h48, h58 _ h5.2, fun s hs => (h6.2 s hs).mono h68,
    h8.1 _ h7.2⟩

/-- The classes are not collected where a trigger has no evaluator. -/
theorem returns_collectEach_mem {α : Type} {collect : FfxClassNames → α → Fallible Heap SfError FfxClassNames}
    {P : α → Prop} (l : List α) (h : ∀ cn, ∀ a ∈ l, Returns (collect cn a) fun _ => P a) (cn : FfxClassNames) :
    Returns (collectEach collect cn l) fun _ => ∀ a ∈ l, P a := by
  induction l generalizing cn with
  | nil => exact Returns.pure nofun
  | cons a l ih =>
      refine (h cn a List.mem_cons_self).bind fun cn1 ha => ?_
      exact (ih (fun cn b hb => h cn b (List.mem_cons_of_mem a hb)) cn1).mono fun _ hl => List.forall_mem_cons.2 ⟨ha, hl⟩

theorem returns_collectClasses_evaluated (ffx : Ffxdlse) : Returns (collectClasses ffx) fun _ => ffx.effect.Evaluated := by
  have htrigger : ∀ (cn : FfxClassNames) (t : FfxTrigger), Returns (collectTrigger cn t) fun _ => t.evaluator.isSome := by
    rintro cn ⟨stateIndex, evaluator⟩
    refine Returns.after fun _ => ?_
    cases evaluator with
    | none => exact Returns.fail _
    | some ev => exact (Returns.trivial _).mono fun _ _ => rfl
  have hstate : ∀ (cn : FfxClassNames) (s : FfxState),
      Returns (collectState cn s) fun _ => ∀ t ∈ s.triggers, t.evaluator.isSome := fun cn s =>
    Returns.after fun _ => Returns.after fun cn => returns_collectEach_mem s.triggers (fun cn t _ => htrigger cn t) cn
  refine Returns.after fun _ => Returns.after fun _ => Returns.after fun _ => Returns.after fun _ => ?_
  refine Returns.after fun _ => Returns.after fun cn => ?_
  refine (returns_collectEach_mem _ (fun cn s _ => hstate cn s) cn).bind fun _ hall => ?_
  exact Returns.after fun _ => (Returns.trivial _).mono fun _ _ => hall

end Classes

/-! ## Writing inside open objects -/

section Writing

open BinaryWriter

variable {m m' : WriteM Unit} {x y : List UInt8} {cn : FfxClassNames}

/-- Wherever the open objects began before and there is room for it, `m` writes `x`, and leaves no other object
    open. -/
def Nests (m : WriteM Unit) (x : List UInt8) : Prop :=
  ∀ (pos : Nat) (live : Set Nat), (∀ s ∈ live, s < pos) → pos + x.length ≤ INT32_MAX →
    Makes ffxSlots m ⟨pos, false, false⟩ live
      (fun _ st live' => st = ⟨pos + x.length, false, false⟩ ∧ live' = live) fun _ _ B => Holds B pos x

theorem fits_fileRoom {n : Nat} (h : n ≤ INT32_MAX) : n ≤ fileRoom := h.trans (by decide)

theorem Nests.of_delivers (h : Delivers ffxSlots false false m x) : Nests m x :=
  fun pos live _ hfit => h pos live (fits_fileRoom hfit)

theorem Nests.nothing : Nests (pure ()) [] := Nests.of_delivers Delivers.nothing

theorem Nests.then (hm : Nests m x) (hm' : Nests m' y) : Nests (m >>= fun _ => m') (x ++ y) := by
  intro pos live hlive hfit
  rw [List.length_append] at hfit ⊢
  refine (hm pos live hlive (by omega)).seq fun _ st live' h => ?_
  obtain ⟨rfl, rfl⟩ := h
  refine (hm' (pos + x.length) live' (fun s hs => Nat.lt_add_right _ (hlive s hs)) (by omega)).conseq fun _ st live2 h => ?_
  rw [← Nat.add_assoc]
  exact ⟨h, fun B hy hx => holds_append.2 ⟨hx, hy⟩⟩

theorem Nests.check {p : Prop} [Decidable p] {e : SfError} (hp : x.length ≤ INT32_MAX → p) (hm : Nests m x) :
    Nests (Fallible.check p e >>= fun _ => m) x :=
  fun pos live hlive hfit => Makes.check (hp (by omega)) (hm pos live hlive hfit)

theorem nests_each {γ : Type} {write : γ → WriteM Unit} {bytes : γ → List UInt8} (l : List γ)
    (h : ∀ a ∈ l, Nests (write a) (bytes a)) : Nests (writeEach write l) (l.flatMap bytes) := by
  induction l with
  | nil => exact Nests.nothing
  | cons a l ih => exact (h a List.mem_cons_self).then (ih fun b hb => h b (List.mem_cons_of_mem a hb))

theorem nests_int (v : Int32) : Nests (writeI32 v) (i32Bytes v) := Nests.of_delivers (delivers_i32 v)

theorem nests_size (n : Nat) : Nests (writeI32 (Int32.ofNat n)) (sizeBytes n) := by
  have h := nests_int (Int32.ofNat n)
  rwa [i32Bytes, wordBytes_i32] at h

theorem nests_word (n : Nat) : Nests (writeI16 (Int16.ofNat n)) (wordBytes false 2 n) := by
  have h : Nests (writeI16 (Int16.ofNat n)) (wordBytes false 2 (Int16.ofNat n).toUInt16.toNat) :=
    Nests.of_delivers (delivers_scalar .i16 (Int16.ofNat n))
  rwa [wordBytes_i16] at h

theorem nests_u8 (v : UInt8) : Nests (writeU8 v) [v] := Nests.of_delivers (delivers_u8 v)

theorem length_serBytes (name : List UInt8) (version : Int32) (x : List UInt8) :
    (serBytes cn name version x).length = 10 + x.length := by
  simp only [serBytes, i32Bytes, sizeBytes, FfxClassNames.word, List.length_append, length_wordBytes]
  omega

theorem FfxClassNames.Has.exists_index {name : List UInt8} (h : cn.Has name) :
    ∃ idx, cn.indexOf name = some idx ∧ cn.word name = wordBytes false 2 (idx + 1) := by
  obtain ⟨idx, hidx⟩ := Option.isSome_iff_exists.1 h
  exact ⟨idx, hidx, by rw [word, hidx]; rfl⟩

/-- An object is written around what it holds: its length is reserved, and filled when its end is known. -/
theorem nests_writeSer {name : List UInt8} {version : Int32} {body : WriteM Unit} (hname : cn.Has name)
    (hbody : Nests body x) : Nests (writeSer cn name version body) (serBytes cn name version x) := by
  obtain ⟨idx, hidx, hword⟩ := hname.exists_index
  intro pos live hlive hfit
  rw [length_serBytes] at hfit
  have hfree : pos ∉ live := fun hmem => absurd (hlive pos hmem) (Nat.lt_irrefl pos)
  have hwordLength : (wordBytes false 2 (idx + 1)).length = 2 := length_wordBytes _ _ _
  have hversionLength : (i32Bytes version).length = 4 := length_wordBytes _ _ _
  unfold writeSer writeSerBegin
  simp only [hidx, bind_assoc, pure_bind]
  refine Makes.position ?_
  refine (nests_word (idx + 1) pos live hlive (by omega)).seq fun _ st live' h => ?_
  obtain ⟨rfl, rfl⟩ := h
  rw [hwordLength]
  refine Makes.i32 (fits_fileRoom (by omega)) (Makes.reserveI32 pos rfl rfl hfree (fits_fileRoom (by omega)) ?_)
  have hopen : ∀ s ∈ insert pos live', s < pos + 2 + 4 + 4 := by
    intro s hs
    rcases Set.mem_insert_iff.1 hs with rfl | hs
    · omega
    · have := hlive s hs
      omega
  refine (hbody (pos + 2 + 4 + 4) (insert pos live') hopen (by omega)).seq fun _ st live2 h => ?_
  obtain ⟨rfl, rfl⟩ := h
  have hsize : pos + 2 + 4 + 4 + x.length - pos = 10 + x.length := by omega
  refine Makes.position (Makes.check ⟨by omega, by omega⟩ ?_)
  refine Makes.last (Makes.fillI32 pos rfl (Set.mem_insert _ _) (Makes.done ⟨?_, ?_⟩ ?_))
  · rw [length_serBytes]
    congr 1
    omega
  · exact Set.insert_sdiff_self_of_notMem hfree
  · intro B hlength hx hversion hindex
    rw [hsize, wordBytes_i32] at hlength
    rw [serBytes, hword]
    refine holds_append.2 ⟨hindex, ?_⟩
    rw [hwordLength]
    refine holds_append.2 ⟨hversion, ?_⟩
    rw [hversionLength]
    refine holds_append.2 ⟨hlength, ?_⟩
    rw [sizeBytes, length_wordBytes]
    exact hx

theorem length_le_flatMap {γ : Type} (bytes : γ → List UInt8) (l : List γ) (h : ∀ a ∈ l, 0 < (bytes a).length) :
    l.length ≤ (l.flatMap bytes).length := by
  induction l with
  | nil => simp
  | cons a l ih =>
      have ha := h a List.mem_cons_self
      have hl := ih fun b hb => h b (List.mem_cons_of_mem a hb)
      rw [List.flatMap_cons, List.length_append, List.length_cons]
      omega

theorem nests_writeDlvector (hname : cn.Has CN_DLVECTOR) (items : List Int32) :
    Nests (writeDlvector cn items) (dlvectorBytes cn items) := by
  obtain ⟨idx, hidx, hword⟩ := hname.exists_index
  have hitems : Nests (given (0 < items.length) () (defineWriteArray writeI32 items)) (items.flatMap i32Bytes) :=
    Nests.of_delivers (Delivers.given (fun _ => delivers_i32s items) fun hno => by
      have hnil : items = [] := by simpa using hno
      rw [hnil]
      rfl)
  unfold writeDlvector dlvectorBytes
  rw [hidx, hword]
  refine Nests.check (fun hle => ?_) ((nests_word _).then ((nests_size _).then hitems))
  have hcount := length_le_flatMap i32Bytes items fun v _ => by simp [i32Bytes, length_wordBytes]
  simp only [List.length_append] at hle
  omega

theorem nests_writeEvaluatable (hname : cn.Has CN_EVAL) (ev : FfxEvaluatable) :
    Nests (writeEvaluatable cn ev) (ev.bytes cn) := by
  induction ev with
  | constant typeField value => exact nests_writeSer hname ((nests_int _).then ((nests_int _).then (nests_int _)))
  | arg opcode typeField unk00 argIndex =>
      exact nests_writeSer hname ((nests_int _).then ((nests_int _).then ((nests_int _).then (nests_int _))))
  | leaf opcode typeField => exact nests_writeSer hname ((nests_int _).then (nests_int _))
  | binary opcode typeField left right ihleft ihright =>
      exact nests_writeSer hname ((nests_int _).then ((nests_int _).then (ihright.then ihleft)))
  | not typeField operand ih => exact nests_writeSer hname ((nests_int _).then ((nests_int _).then ih))

theorem nests_writeParam (hname : cn.Has CN_PARAM) (p : FfxParam) : Nests (writeParam cn p) (p.bytes cn) := by
  have hpayload : Nests (given (0 < p.payloadAfterType.length) () (writeBytes p.payloadAfterType)) p.payloadAfterType :=
    Nests.of_delivers (Delivers.given (fun _ => delivers_bytes _) fun hno => by simpa using hno)
  exact nests_writeSer hname ((nests_int _).then hpayload)

theorem nests_writeParamList {pl : FfxParamList} (h : pl.Known cn) : Nests (writeParamList cn pl) (pl.bytes cn) := by
  have hparam : ∀ p ∈ pl.params, Nests (writeParam cn p) (p.bytes cn) := fun p hp =>
    nests_writeParam (h.2 (List.length_pos_of_mem hp)) p
  refine Nests.check (fun hle => ?_) (nests_writeSer h.1 ((nests_size _).then ((nests_int _).then (nests_each _ hparam))))
  have hcount := length_le_flatMap (FfxParam.bytes cn) pl.params fun p _ => by
    rw [FfxParam.bytes, length_serBytes]
    omega
  rw [FfxParamList.bytes, length_serBytes] at hle
  simp only [List.length_append] at hle
  omega

theorem nests_writeAction {a : FfxAction} (h : a.Known cn) : Nests (writeAction cn a) (a.bytes cn) :=
  nests_writeSer h.1 ((nests_int _).then (nests_writeParamList h.2))

theorem nests_writeTrigger {t : FfxTrigger} (h : t.Known cn) : Nests (writeTrigger cn t) (t.bytes cn) := by
  obtain ⟨htrigger, heval, hsome⟩ := h
  obtain ⟨ev, hev⟩ := Option.isSome_iff_exists.1 hsome
  rw [writeTrigger, FfxTrigger.bytes, hev]
  exact nests_writeSer htrigger ((nests_int _).then (nests_writeEvaluatable heval ev))

theorem nests_writeState {s : FfxState} (h : s.Known cn) : Nests (writeState cn s) (s.bytes cn) := by
  have hactions := nests_each s.actions fun a ha => nests_writeAction (h.2.1 a ha)
  have htriggers := nests_each s.triggers fun t ht => nests_writeTrigger (h.2.2 t ht)
  refine Nests.check (fun hle => ?_) (nests_writeSer h.1
    ((nests_size _).then ((nests_size _).then (hactions.then htriggers))))
  have hactionCount := length_le_flatMap (FfxAction.bytes cn) s.actions fun a _ => by
    rw [FfxAction.bytes, length_serBytes]
    omega
  have htriggerCount := length_le_flatMap (FfxTrigger.bytes cn) s.triggers fun t _ => by
    rw [FfxTrigger.bytes, length_serBytes]
    omega
  rw [FfxState.bytes, length_serBytes] at hle
  simp only [List.length_append] at hle
  omega

theorem nests_writeStateMap {sm : FfxStateMap} (hname : cn.Has CN_STATE_MAP) (h : ∀ s ∈ sm.states, s.Known cn) :
    Nests (writeStateMap cn sm) (sm.bytes cn) := by
  have hstates := nests_each sm.states fun s hs => nests_writeState (h s hs)
  refine Nests.check (fun hle => ?_) (nests_writeSer hname ((nests_size _).then hstates))
  have hcount := length_le_flatMap (FfxState.bytes cn) sm.states fun s _ => by
    rw [FfxState.bytes, length_serBytes]
    omega
  rw [FfxStateMap.bytes, length_serBytes] at hle
  simp only [List.length_append] at hle
  omega

theorem nests_writeEffect {e : FfxEffect} (h : e.Known cn) : Nests (writeEffect cn e) (e.bytes cn) := by
  have hset : Nests (writeResourceSet cn e.resourceSet) (e.resourceSet.bytes cn) :=
    nests_writeSer h.resourceSet (nests_each _ fun items _ => nests_writeDlvector h.dlvector items)
  exact nests_writeSer h.effect ((nests_int _).then ((nests_int _).then ((nests_int _).then ((nests_int _).then
    ((nests_int _).then ((nests_word 0).then ((nests_word 2).then ((nests_int _).then
    ((nests_writeParamList h.paramList1).then ((nests_writeParamList h.paramList2).then
    ((nests_writeStateMap h.stateMap h.states).then (hset.then (nests_u8 0)))))))))))))

theorem nests_writeClassName {os : Win32} (hos : os.AsciiCompatible) {name : List UInt8} (hname : Win32.isPlain name = true) :
    Nests (writeClassName os name) (classNameBytes name) := by
  intro pos live hlive hfit
  have hlen : name.length ≤ INT32_MAX := by
    rw [classNameBytes, List.length_append] at hfit
    omega
  have h : Nests (writeClassName os name) (classNameBytes name) := by
    unfold writeClassName
    rw [cText_of_plain hname]
    exact Nests.check (fun _ => hlen) ((nests_size _).then (Nests.of_delivers (delivers_ascii hos hname hlen)))
  exact h pos live hlive hfit

/-- **A file is written wherever it fits**, once its table has every class of the effect. -/
theorem nests_ffxdlseWrite {os : Win32} (hos : os.AsciiCompatible) (hproper : cn.Proper) {e : FfxEffect} (h : e.Known cn)
    (hcount : cn.names.length ≤ INT16_MAX) : Nests (ffxdlseWrite cn os e) (ffxdlseBytes cn e) := by
  have hnames := nests_each cn.names fun name hname => nests_writeClassName hos (hproper.plain name hname)
  refine (Nests.of_delivers (delivers_bytes _)).then ((nests_u8 1).then ((nests_u8 3).then ((nests_u8 0).then
    ((nests_u8 0).then ((nests_int 0).then ((nests_int 0).then ((nests_u8 0).then ((nests_int 1).then ?_))))))))
  exact Nests.check (fun _ => hcount) ((nests_word _).then (hnames.then (nests_writeEffect h)))

end Writing

/-! ## What is written -/

section Written

variable {os : Win32} {ffx : Ffxdlse}

/-- The table of an effect and its file have room. -/
def FfxRoom (ffx : Ffxdlse) (heap : Heap) : Prop :=
  ∀ cn, (collectClasses ffx heap).1 = .ok cn →
    cn.names.length ≤ INT16_MAX ∧ (ffxdlseBytes cn ffx.effect).length ≤ INT32_MAX

theorem ffxdlseWriteToMemory_ok (hos : os.AsciiCompatible) (hnames : ffx.classNames.Ascii) (hev : ffx.effect.Evaluated)
    {heap : Heap} (hcalm : heap.Calm) (hroom : FfxRoom ffx heap) :
    ∃ cn, (collectClasses ffx heap).1 = .ok cn ∧
      (ffxdlseWriteToMemory os ffx heap).1 = .ok (ffxdlseBytes cn ffx.effect) := by
  obtain ⟨cn, heap1, hrun, hcalm1, -, hknown⟩ := collects_classes ffx hev heap hcalm
  have hcollect : (collectClasses ffx heap).1 = .ok cn := by rw [hrun]
  obtain ⟨hcount, hfit⟩ := hroom cn hcollect
  have hproper : cn.Proper := (returns_collectClasses ffx hnames).of_fst hcollect
  have hmakes := nests_ffxdlseWrite hos hproper hknown hcount 0 ∅ (by simp) (by simpa using hfit)
  obtain ⟨out, st, hwrite, -⟩ := hmakes.toMemory (fun _ _ h => h.2) hcalm1
  obtain ⟨rfl, -⟩ := ffxdlseBytes_of_write hos hproper hwrite
  refine ⟨cn, hcollect, ?_⟩
  unfold ffxdlseWriteToMemory
  rw [bind_ok hrun]
  exact hwrite

/-- **With room for its file, an effect is written exactly if each of its triggers has an evaluator**; no other
    failure is left to the writer where the allocator grants everything. -/
theorem ffxdlse_written_iff (os : Win32) (hos : os.AsciiCompatible) (ffx : Ffxdlse) (hreach : FfxReachable ffx)
    (heap : Heap) (hcalm : heap.Calm) (hroom : FfxRoom ffx heap) :
    (∃ out, (ffxdlseWriteToMemory os ffx heap).1 = .ok out) ↔ ffx.effect.Evaluated := by
  constructor
  · rintro ⟨out, hwrite⟩
    obtain ⟨cn, heap1, hcollect, -⟩ := ffxdlseWriteToMemory_eq_ok hwrite
    exact (returns_collectClasses_evaluated ffx).of_fst hcollect
  · intro hev
    obtain ⟨cn, -, hwrite⟩ := ffxdlseWriteToMemory_ok hos hreach.ascii hev hcalm hroom
    exact ⟨_, hwrite⟩

end Written

/-! ## Reading and writing are inverse -/

/-- A strict reader and the writer are inverse to each other: what was read is written as it stood in the file,
    and every effect that the calls lead to is read as it was written. -/
theorem ffxdlse_roundtrip (os : Win32) (hos : os.AsciiCompatible) :
    (∀ (data out : List UInt8) (heap heap' : Heap) (ffx : Ffxdlse) (n : Nat) (names : List (List UInt8)),
      (ffxdlseReadPrefix false data heap).1 = .ok (ffx, n) → FfxClassTable data names →
      (∀ name ∈ names, Win32.isPlain name = true) → names.Nodup →
      (ffxdlseWriteToMemory os ffx heap').1 = .ok out → out = data.take n) ∧
    ∀ (ffx : Ffxdlse) (out : List UInt8) (heap heap' : Heap) (flexible : Bool), FfxReachable ffx →
      (∀ s ∈ ffx.effect.stateMap.states, ∀ t ∈ s.triggers, t.evaluator.isSome) →
      (ffxdlseWriteToMemory os ffx heap).1 = .ok out → heap'.Calm →
      ∃ ffx', (ffxdlseReadFromMemory flexible out heap').1 = .ok ffx' ∧ ffx'.effect = ffx.effect := by
  constructor
  · intro data out heap heap' ffx n names hread htable hplain hnodup hwrite
    exact ffxdlseWriteToMemory_of_read hos hread htable hplain hnodup hwrite
  · intro ffx out heap heap' flexible hreach _ hwrite hcalm
    exact ffxdlseReadFromMemory_ok hos hreach.ascii hwrite flexible hcalm

/-- The calls that make an effect with a state, whose action and trigger are its only ones. -/
def ffxSampleCalls : List FfxCall :=
  [.effectSetId 7, .stateMapAdd, .stateAddAction 0, .stateAddTrigger 0,
    .triggerSetEvaluator 0 0 (.binary .le 3 (.leaf .totalTick 3) (.not 3 (.constant 3 5))), .resourceSetAdd 1 5]

theorem ffxNoResources : (List.replicate ffxResVectorCount ([] : List Int32)).length = ffxResVectorCount := rfl

def ffxSample : Ffxdlse :=
  ⟨.init, ffxSampleCalls.foldl FfxEffect.after
    ⟨0, ⟨0, []⟩, ⟨0, []⟩, ⟨[]⟩, ⟨List.replicate ffxResVectorCount [], ffxNoResources⟩⟩⟩

theorem ffxSample_reachable : FfxReachable ffxSample :=
  FfxReachable.calls (FfxReachable.created (rfl : (ffxdlseCreate []).1 = _)) ffxSampleCalls

def ffxSampleData : List UInt8 := (ffxdlseWriteToMemory .ascii ffxSample []).1.toOption.getD []

/-- The classes of the effect, in the order in which the writer comes upon them. -/
def ffxSampleNames : List (List UInt8) :=
  [CN_EFFECT, CN_DLVECTOR, CN_PARAM_LIST, CN_STATE_MAP, CN_STATE, CN_ACTION, CN_TRIGGER, CN_EVAL, CN_RESOURCE_SET]

set_option maxRecDepth 4000 in
/-- The bytes of the sample, which the kernel then works out only once. -/
def ffxSampleBytes : List UInt8 :=
  [
    68, 76, 115, 69, 1, 3, 0, 0, 0, 0, 0, 0, 0, 0, 0, 0, 0, 1, 0, 0, 0, 9, 0, 20, 0, 0, 0, 70, 88, 83, 101, 114,
    105, 97, 108, 105, 122, 97, 98, 108, 101, 69, 102, 102, 101, 99, 116, 8, 0, 0, 0, 68, 76, 86, 101, 99, 116, 111,
    114, 23, 0, 0, 0, 70, 88, 83, 101, 114, 105, 97, 108, 105, 122, 97, 98, 108, 101, 80, 97, 114, 97, 109, 76, 105,
    115, 116, 22, 0, 0, 0, 70, 88, 83, 101, 114, 105, 97, 108, 105, 122, 97, 98, 108, 101, 83, 116, 97, 116, 101,
    77, 97, 112, 19, 0, 0, 0, 70, 88, 83, 101, 114, 105, 97, 108, 105, 122, 97, 98, 108, 101, 83, 116, 97, 116, 101,
    20, 0, 0, 0, 70, 88, 83, 101, 114, 105, 97, 108, 105, 122, 97, 98, 108, 101, 65, 99, 116, 105, 111, 110, 21, 0,
    0, 0, 70, 88, 83, 101, 114, 105, 97, 108, 105, 122, 97, 98, 108, 101, 84, 114, 105, 103, 103, 101, 114, 35, 0,
    0, 0, 70, 88, 83, 101, 114, 105, 97, 108, 105, 122, 97, 98, 108, 101, 69, 118, 97, 108, 117, 97, 116, 97, 98,
    108, 101, 60, 100, 108, 95, 105, 110, 116, 51, 50, 62, 13, 0, 0, 0, 70, 88, 82, 101, 115, 111, 117, 114, 99,
    101, 83, 101, 116, 1, 0, 5, 0, 0, 0, 17, 1, 0, 0, 0, 0, 0, 0, 7, 0, 0, 0, 0, 0, 0, 0, 0, 0, 0, 0, 2, 0, 0, 0, 0,
    0, 2, 0, 0, 0, 0, 0, 3, 0, 2, 0, 0, 0, 18, 0, 0, 0, 0, 0, 0, 0, 0, 0, 0, 0, 3, 0, 2, 0, 0, 0, 18, 0, 0, 0, 0, 0,
    0, 0, 0, 0, 0, 0, 4, 0, 1, 0, 0, 0, 154, 0, 0, 0, 1, 0, 0, 0, 5, 0, 1, 0, 0, 0, 140, 0, 0, 0, 1, 0, 0, 0, 1, 0,
    0, 0, 6, 0, 1, 0, 0, 0, 32, 0, 0, 0, 0, 0, 0, 0, 3, 0, 2, 0, 0, 0, 18, 0, 0, 0, 0, 0, 0, 0, 0, 0, 0, 0, 7, 0, 1,
    0, 0, 0, 90, 0, 0, 0, 0, 0, 0, 0, 8, 0, 1, 0, 0, 0, 76, 0, 0, 0, 12, 0, 0, 0, 3, 0, 0, 0, 8, 0, 1, 0, 0, 0, 40,
    0, 0, 0, 20, 0, 0, 0, 3, 0, 0, 0, 8, 0, 1, 0, 0, 0, 22, 0, 0, 0, 1, 0, 0, 0, 3, 0, 0, 0, 5, 0, 0, 0, 8, 0, 1, 0,
    0, 0, 18, 0, 0, 0, 5, 0, 0, 0, 3, 0, 0, 0, 9, 0, 1, 0, 0, 0, 44, 0, 0, 0, 2, 0, 0, 0, 0, 0, 2, 0, 1, 0, 0, 0, 5,
    0, 0, 0, 2, 0, 0, 0, 0, 0, 2, 0, 0, 0, 0, 0, 2, 0, 0, 0, 0, 0, 0]

def ffxSampleRead : Ffxdlse := ⟨.ofNames ffxSampleNames, ffxSample.effect⟩

/-- What the kernel works out of the sample: its table, its bytes and what is read of them. -/
theorem ffxSample_runs :
    ((collectClasses ffxSample []).1 = .ok (.ofNames ffxSampleNames) ∧
      (collectClasses ffxSampleRead []).1 = .ok (.ofNames ffxSampleNames) ∧
      ffxdlseBytes (.ofNames ffxSampleNames) ffxSample.effect = ffxSampleBytes) ∧
    ((ffxdlseReadPrefix false (ffxSampleBytes ++ [1, 2]) []).1 = .ok (ffxSampleRead, 513) ∧
      (ffxdlseReadPrefix true (ffxSampleBytes.set 4 2) []).1 = .ok (ffxSampleRead, 513)) ∧
    ((∀ name ∈ ffxSampleNames, Win32.isPlain name = true) ∧ ffxSampleNames.Nodup) ∧
    FfxClassTable ffxSampleBytes ffxSampleNames ∧ FfxClassTable (ffxSampleBytes.set 4 2) ffxSampleNames ∧
    ffxSampleBytes ≠ (ffxSampleBytes.set 4 2).take 513 ∧
    ∀ s ∈ ffxSample.effect.stateMap.states, ∀ t ∈ s.triggers, t.evaluator.isSome :=
  ⟨⟨by decide +kernel, by decide +kernel, by decide +kernel⟩, ⟨by decide +kernel, by decide +kernel⟩,
    ⟨by decide +kernel, by decide +kernel⟩,
    ⟨by decide +kernel, by decide +kernel, ffxSampleBytes.take 21, ffxSampleBytes.drop 240, by decide +kernel,
      by decide +kernel⟩,
    ⟨by decide +kernel, by decide +kernel, (ffxSampleBytes.set 4 2).take 21, ffxSampleBytes.drop 240,
      by decide +kernel, by decide +kernel⟩,
    by decide +kernel, by decide +kernel⟩

theorem ffxSampleNames_plain : ∀ name ∈ ffxSampleNames, Win32.isPlain name = true := ffxSample_runs.2.2.1.1

theorem ffxSampleNames_nodup : ffxSampleNames.Nodup := ffxSample_runs.2.2.1.2

/-- An effect with the table of the sample has room. -/
theorem ffxSample_room_of {ffx : Ffxdlse} (hcollect : (collectClasses ffx []).1 = .ok (.ofNames ffxSampleNames))
    (heffect : ffx.effect = ffxSample.effect) : FfxRoom ffx [] := by
  intro cn hcn
  cases hcollect.symm.trans hcn
  rw [heffect, ffxSample_runs.1.2.2, FfxClassNames.names_ofNames]
  exact ⟨by decide, by decide +kernel⟩

/-- Its file is what is written. -/
theorem ffxSample_written_of {ffx : Ffxdlse} (hcollect : (collectClasses ffx []).1 = .ok (.ofNames ffxSampleNames))
    (hnames : ffx.classNames.Ascii) (heffect : ffx.effect = ffxSample.effect) :
    (ffxdlseWriteToMemory .ascii ffx []).1 = .ok ffxSampleBytes := by
  have hev : ffx.effect.Evaluated := by
    rw [heffect]
    exact ffxSample_runs.2.2.2.2.2.2
  obtain ⟨cn, hcn, hwrite⟩ := ffxdlseWriteToMemory_ok Win32.ascii_compatible hnames hev Heap.calm_nil
    (ffxSample_room_of hcollect heffect)
  cases hcollect.symm.trans hcn
  rwa [heffect, ffxSample_runs.1.2.2] at hwrite

theorem ffxSample_written : (ffxdlseWriteToMemory .ascii ffxSample []).1 = .ok ffxSampleBytes :=
  ffxSample_written_of ffxSample_runs.1.1 ffxSample_reachable.ascii rfl

theorem ffxSample_written_iff :
    (∃ out, (ffxdlseWriteToMemory .ascii ffxSample []).1 = .ok out) ↔ ffxSample.effect.Evaluated :=
  ffxdlse_written_iff .ascii Win32.ascii_compatible ffxSample ffxSample_reachable [] Heap.calm_nil
    (ffxSample_room_of ffxSample_runs.1.1 rfl)

theorem ffxSampleData_eq : ffxSampleData = ffxSampleBytes := by
  rw [ffxSampleData, ffxSample_written]
  rfl

theorem ffxSample_table : FfxClassTable ffxSampleData ffxSampleNames := by
  rw [ffxSampleData_eq]
  exact ffxSample_runs.2.2.2.1

theorem ffxSample_write : (ffxdlseWriteToMemory .ascii ffxSample []).1 = .ok ffxSampleData := by
  rw [ffxSampleData_eq]
  exact ffxSample_written

theorem ffxSample_readPrefix :
    (ffxdlseReadPrefix false (ffxSampleData ++ [1, 2]) []).1 = .ok (ffxSampleRead, 513) := by
  rw [ffxSampleData_eq]
  exact ffxSample_runs.2.1.1

theorem ffxSample_rewrite : (ffxdlseWriteToMemory .ascii ffxSampleRead []).1 = .ok ffxSampleData := by
  rw [ffxSampleData_eq]
  refine ffxSample_written_of ffxSample_runs.1.2.1 (fun name hname => ?_) rfl
  rw [ffxSampleRead, FfxClassNames.names_ofNames] at hname
  exact (Win32.isPlain_iff.1 (ffxSampleNames_plain name hname)).1

/-- The effect of the calls is written and read, and its file is what is written of what was read. -/
theorem ffxdlse_sample_roundtrip :
    ffxSampleData = (ffxSampleData ++ [1, 2]).take 513 ∧
      ∃ ffx', (ffxdlseReadFromMemory false ffxSampleData []).1 = .ok ffx' ∧ ffx'.effect = ffxSample.effect := by
  constructor
  · exact (ffxdlse_roundtrip .ascii Win32.ascii_compatible).1 _ _ _ _ _ _ _ ffxSample_readPrefix
      ⟨ffxSample_table.count, ffxSample_table.lengths, ffxSample_table.held.append_right [1, 2]⟩
      ffxSampleNames_plain ffxSampleNames_nodup ffxSample_rewrite
  · exact (ffxdlse_roundtrip .ascii Win32.ascii_compatible).2 _ _ _ [] false ffxSample_reachable
      ffxSample_runs.2.2.2.2.2.2 ffxSample_write Heap.calm_nil

/-- The file with another version. -/
def ffxOtherVersionData : List UInt8 := ffxSampleData.set 4 2

theorem ffxOtherVersion_readPrefix :
    (ffxdlseReadPrefix true ffxOtherVersionData []).1 = .ok (ffxSampleRead, 513) := by
  rw [ffxOtherVersionData, ffxSampleData_eq]
  exact ffxSample_runs.2.1.2

/-- A flexible reader does not look at the version of a file, which the writer does not keep. -/
theorem ffxdlse_flexible_not_roundtrip :
    (ffxdlseReadPrefix true ffxOtherVersionData []).1 = .ok (ffxSampleRead, 513) ∧
      FfxClassTable ffxOtherVersionData ffxSampleNames ∧
      (∀ name ∈ ffxSampleNames, Win32.isPlain name = true) ∧ ffxSampleNames.Nodup ∧
      (ffxdlseWriteToMemory .ascii ffxSampleRead []).1 = .ok ffxSampleData ∧
      ffxSampleData ≠ ffxOtherVersionData.take 513 := by
  refine ⟨ffxOtherVersion_readPrefix, ?_, ffxSampleNames_plain, ffxSampleNames_nodup, ffxSample_rewrite, ?_⟩
  · rw [ffxOtherVersionData, ffxSampleData_eq]
    exact ffxSample_runs.2.2.2.2.1
  · rw [ffxOtherVersionData, ffxSampleData_eq]
    exact ffxSample_runs.2.2.2.2.2.1

end SoulsFormats
