import SoulsFormats.Effects.Fxr3
import SoulsFormats.Library.Descent

set_option autoImplicit false

/-! # The descent into FXR3 containers

The children of a container stand one behind the other at an offset that the record gives freely, so that a container
can be its own descendant. Everything else that is read for a container ends; whether the reader returns is decided
by the graph of the records. -/

namespace SoulsFormats

open Bytes Fallible

namespace Fxr3Reader

/-! ## How far a reader moves -/

section

variable {ε α β : Type} {n total : Nat} {m : Fallible Fxr3Cursor ε α}

/-- A reader that is `n` bytes on when it has succeeded. -/
def Advances (n : Nat) (m : Fallible Fxr3Cursor ε α) : Prop := ∀ c a c', m c = (.ok a, c') → c'.pos = c.pos + n

theorem Advances.pure {a : α} (h : n = 0) : Advances n (Pure.pure a : Fallible Fxr3Cursor ε α) := by
  rintro c _ c' ⟨⟩
  rw [h, Nat.add_zero]

theorem Advances.bind {f : α → Fallible Fxr3Cursor ε β} (hm : Advances n m) (hn : n ≤ total)
    (hf : ∀ a, Advances (total - n) (f a)) : Advances total (m >>= f) := by
  intro c b c' hrun
  obtain ⟨a, c1, hma, hfa⟩ := bind_eq_ok.1 hrun
  have hc1 := hm c a c1 hma
  have hc' := hf a c1 b c' hfa
  omega

theorem Advances.check {c : Prop} [Decidable c] {e : ε} (h : n = 0) : Advances n (Fallible.check c e) := by
  intro p a p' hrun
  rw [check_run] at hrun
  split at hrun
  · cases hrun
    rw [h, Nat.add_zero]
  · cases hrun

theorem zalloc_advances : Advances 0 zalloc := by
  intro c a c' hrun
  obtain ⟨junk, c1, halloc, hrun⟩ := bind_eq_ok.1 hrun
  rw [zoom_run, Prod.mk.injEq] at halloc
  cases hrun
  exact (congrArg Fxr3Cursor.pos halloc.2).symm

theorem allocPtrs_advances (count : Nat) : Advances 0 (allocPtrs count) := by
  unfold allocPtrs allocElements given
  split
  · exact (Advances.check rfl).bind le_rfl fun _ => zalloc_advances
  · exact .pure rfl

variable (data : List UInt8)

theorem rdWord_advances (n : Nat) : Advances n (rdWord data n) := by
  intro c v c' hrun
  unfold rdWord rdNeed at hrun
  obtain ⟨⟨⟩, c1, hneed, hrun⟩ := bind_eq_ok.1 hrun
  rw [peek_bind_run, check_run] at hneed
  split at hneed
  · cases hneed
    cases hrun
    rfl
  · cases hneed

theorem rdU8_advances : Advances 1 (rdU8 data) :=
  (rdWord_advances data 1).bind le_rfl fun _ => .pure rfl

theorem rdExpectU8_advances (expect : UInt8) : Advances 1 (rdExpectU8 data expect) :=
  (rdU8_advances data).bind le_rfl fun _ => .check rfl

theorem rdI16_advances : Advances 2 (rdI16 data) :=
  ((rdWord_advances data 2).bind le_rfl fun _ => .pure rfl).bind le_rfl fun _ => .pure rfl

theorem rdI32_advances : Advances 4 (rdI32 data) :=
  ((rdWord_advances data 4).bind le_rfl fun _ => .pure rfl).bind le_rfl fun _ => .pure rfl

theorem rdExpectI32_advances (expect : Int32) : Advances 4 (rdExpectI32 data expect) :=
  (rdI32_advances data).bind le_rfl fun _ => .check rfl

theorem i32ToSize_advances (v : Int32) : Advances 0 (i32ToSize v) :=
  (Advances.check rfl).bind le_rfl fun _ => .pure rfl

/-- The record of a container has 48 bytes. -/
theorem readContainerHead_advances : Advances 48 (readContainerHead data) := by
  unfold readContainerHead
  refine zalloc_advances.bind (by decide) fun _ => ?_
  refine (rdI16_advances data).bind (by decide) fun id => ?_
  refine (rdExpectU8_advances data 0).bind (by decide) fun _ => ?_
  refine (rdExpectU8_advances data 1).bind (by decide) fun _ => ?_
  refine (rdExpectI32_advances data 0).bind (by decide) fun _ => ?_
  refine (rdI32_advances data).bind (by decide) fun effectCount => ?_
  refine (rdI32_advances data).bind (by decide) fun actionCount => ?_
  refine (rdI32_advances data).bind (by decide) fun childCount => ?_
  refine (rdExpectI32_advances data 0).bind (by decide) fun _ => ?_
  refine (rdI32_advances data).bind (by decide) fun effectOff => ?_
  refine (rdExpectI32_advances data 0).bind (by decide) fun _ => ?_
  refine (rdI32_advances data).bind (by decide) fun actionOff => ?_
  refine (rdExpectI32_advances data 0).bind (by decide) fun _ => ?_
  refine (rdI32_advances data).bind (by decide) fun childOff => ?_
  refine (rdExpectI32_advances data 0).bind (by decide) fun _ => ?_
  refine (i32ToSize_advances effectCount).bind (by decide) fun _ => ?_
  refine (i32ToSize_advances actionCount).bind (by decide) fun _ => ?_
  refine (i32ToSize_advances childCount).bind (by decide) fun _ => ?_
  iterate 3 refine (allocPtrs_advances _).bind (by decide) fun _ => ?_
  exact .pure rfl

/-- A record stands inside the file. -/
theorem readContainerHead_inside {c c' : Fxr3Cursor} {head : Fxr3ContainerHead}
    (h : readContainerHead data c = (.ok head, c')) : c.pos ≤ data.length := by
  unfold readContainerHead rdI16 rdU16 rdWord rdNeed at h
  obtain ⟨⟨⟩, c1, halloc, h⟩ := bind_eq_ok.1 h
  obtain ⟨id, c2, hid, -⟩ := bind_eq_ok.1 h
  obtain ⟨v, c3, hv, -⟩ := bind_eq_ok.1 hid
  obtain ⟨w, c4, hw, -⟩ := bind_eq_ok.1 hv
  obtain ⟨⟨⟩, c5, hneed, -⟩ := bind_eq_ok.1 hw
  rw [peek_bind_run, check_run] at hneed
  split at hneed
  · next hinside =>
      rw [zalloc_advances c () c1 halloc] at hinside
      exact hinside.1
  · cases hneed

end

/-! ## What the allocator decides -/

/-- With an allocator that grants everything, `m` leaves it like that; with another one it has the same outcome at the
    same place, unless it is refused. -/
class Unswayed {ε α : Type} (refusal : ε) (m : Fallible Fxr3Cursor ε α) : Prop where
  cut : ∀ p heap, ∃ x q, m ⟨p, []⟩ = (x, ⟨q, []⟩) ∧
    ((∃ heap', m ⟨p, heap⟩ = (x, ⟨q, heap'⟩)) ∨ ∃ c, m ⟨p, heap⟩ = (.error refusal, c))

section

variable {ε α β : Type} {refusal : ε} {m : Fallible Fxr3Cursor ε α} {f : α → Fallible Fxr3Cursor ε β}

theorem Unswayed.heap_eq (refusal : ε) [h : Unswayed refusal m] {p q : Nat} {heap : Heap} {x : Except ε α}
    (hrun : m ⟨p, []⟩ = (x, ⟨q, heap⟩)) : heap = [] := by
  obtain ⟨y, q', hrun', -⟩ := h.cut p []
  cases hrun.symm.trans hrun'
  rfl

instance (a : α) : Unswayed refusal (pure a : Fallible Fxr3Cursor ε α) := ⟨fun p _ => ⟨_, p, rfl, .inl ⟨_, rfl⟩⟩⟩

instance (e : ε) : Unswayed refusal (fail e : Fallible Fxr3Cursor ε α) := ⟨fun p _ => ⟨_, p, rfl, .inl ⟨_, rfl⟩⟩⟩

instance : Unswayed refusal (peek Fxr3Cursor.pos : Fallible Fxr3Cursor ε Nat) := ⟨fun p _ => ⟨_, p, rfl, .inl ⟨_, rfl⟩⟩⟩

theorem unswayed_move (refusal : ε) (g : Nat → Nat) :
    Unswayed refusal (update fun c => { c with pos := g c.pos } : Fallible Fxr3Cursor ε Unit) :=
  ⟨fun p _ => ⟨_, g p, rfl, .inl ⟨_, rfl⟩⟩⟩

theorem Unswayed.bind (hm : Unswayed refusal m) (hf : ∀ a, Unswayed refusal (f a)) : Unswayed refusal (m >>= f) := by
  refine ⟨fun p heap => ?_⟩
  obtain ⟨x, q, hcalm, hcut⟩ := hm.cut p heap
  cases x with
  | error e =>
      refine ⟨.error e, q, bind_error hcalm f, ?_⟩
      rcases hcut with ⟨heap', hrun⟩ | ⟨c, hrun⟩
      · exact .inl ⟨heap', bind_error hrun f⟩
      · exact .inr ⟨c, bind_error hrun f⟩
  | ok a =>
      rcases hcut with ⟨heap', hrun⟩ | ⟨c, hrun⟩
      · obtain ⟨y, q', hcalm', hcut'⟩ := (hf a).cut q heap'
        refine ⟨y, q', (bind_ok hcalm f).trans hcalm', ?_⟩
        rwa [bind_ok hrun]
      · obtain ⟨y, q', hcalm', -⟩ := (hf a).cut q []
        exact ⟨y, q', (bind_ok hcalm f).trans hcalm', .inr ⟨c, bind_error hrun f⟩⟩

instance [hm : Unswayed refusal m] [hf : ∀ a, Unswayed refusal (f a)] : Unswayed refusal (m >>= f) := hm.bind hf

instance {c : Prop} [Decidable c] {m' : Fallible Fxr3Cursor ε α} [Unswayed refusal m] [Unswayed refusal m'] :
    Unswayed refusal (if c then m else m') := by
  split <;> assumption

instance (c : Prop) [Decidable c] (e : ε) : Unswayed refusal (check c e : Fallible Fxr3Cursor ε Unit) := by
  unfold check
  infer_instance

instance (c : Bool) (d : α) [Unswayed refusal m] : Unswayed refusal (given c d m) := by
  unfold given
  infer_instance

instance [hm : Unswayed refusal m] : Unswayed refusal (fork m) := by
  refine ⟨fun p heap => ?_⟩
  obtain ⟨x, q, hcalm, ⟨heap', hrun⟩ | ⟨c, hrun⟩⟩ := hm.cut p heap
  · exact ⟨x, p, by rw [fork, hcalm], .inl ⟨heap', by rw [fork, hrun]⟩⟩
  · exact ⟨x, p, by rw [fork, hcalm], .inr ⟨_, by rw [fork, hrun]⟩⟩

instance [hm : Unswayed refusal m] : Unswayed (some refusal) (answered m) := by
  refine ⟨fun p heap => ?_⟩
  obtain ⟨x, q, hcalm, ⟨heap', hrun⟩ | ⟨c, hrun⟩⟩ := hm.cut p heap
  · exact ⟨_, q, by rw [answered, hcalm], .inl ⟨heap', by rw [answered, hrun]⟩⟩
  · exact ⟨_, q, by rw [answered, hcalm], .inr ⟨c, by rw [answered, hrun]; rfl⟩⟩

instance (f : Nat → Fallible Fxr3Cursor ε α) [∀ i, Unswayed refusal (f i)] (count i : Nat) :
    Unswayed refusal (collect f count i) := by
  induction count generalizing i with
  | zero =>
      unfold collect
      infer_instance
  | succ count ih =>
      unfold collect
      infer_instance

end

instance : Unswayed SfError.oom zalloc := by
  refine ⟨fun p heap => ⟨.ok (), p, rfl, ?_⟩⟩
  match heap with
  | [] => exact .inl ⟨[], rfl⟩
  | some junk :: rest => exact .inl ⟨rest, rfl⟩
  | none :: rest => exact .inr ⟨⟨p, rest⟩, rfl⟩

section

variable (data : List UInt8)

set_option synthInstance.maxSize 4096

instance (size count : Nat) : Unswayed SfError.oom (allocElements size count) := by
  unfold allocElements
  infer_instance

instance (off : Int32) : Unswayed SfError.oom (rdSeek data off) := by
  have := fun off : Nat => unswayed_move SfError.oom fun _ => off
  unfold rdSeek
  infer_instance

instance (n : Nat) : Unswayed SfError.oom (rdWord data n) := by
  have := unswayed_move SfError.oom (· + n)
  unfold rdWord rdNeed
  infer_instance

instance : Unswayed SfError.oom (rdI32 data) := by
  unfold rdI32 rdU32
  infer_instance

instance (v : UInt8) : Unswayed SfError.oom (rdExpectU8 data v) := by
  unfold rdExpectU8 rdU8
  infer_instance

instance (v : Int32) : Unswayed SfError.oom (rdExpectI32 data v) := by
  unfold rdExpectI32
  infer_instance

instance (v : Int32) : Unswayed SfError.oom (i32ToSize v) := by
  unfold i32ToSize
  infer_instance

instance {α : Type} (offset : Int32) (count : Nat) (f : Nat → Fallible Fxr3Cursor SfError α)
    [∀ i, Unswayed SfError.oom (f i)] : Unswayed SfError.oom (rdEachAt data offset count f) := by
  unfold rdEachAt
  infer_instance

instance (prop : Option (UInt8 × UInt8)) (index : Nat) : Unswayed SfError.oom (readField data prop index) := by
  unfold readField rdF32 rdU32
  infer_instance

instance (offset : Int32) (count : Nat) (prop : Option (UInt8 × UInt8)) :
    Unswayed SfError.oom (readFieldsAt data offset count prop) := by
  unfold readFieldsAt allocFields
  infer_instance

instance (type : Fxr3OperandType) (hasField : Bool) (offset : Int32) :
    Unswayed SfError.oom (readOperandAt data type hasField offset) := by
  unfold readOperandAt rdF32 rdU32
  cases type <;> infer_instance

instance : Unswayed SfError.oom (readOperandHead data) := by
  unfold readOperandHead readOperandType rdI16 rdU16
  infer_instance

instance : Unswayed SfError.oom (readCondition data) := by
  unfold readCondition rdI16 rdU16
  infer_instance

instance : Unswayed SfError.oom (readStateMap data) := by
  unfold readStateMap readState readCountAndOffset allocPtrs
  infer_instance

instance (readModifiers : Fallible Fxr3Cursor SfError (List Fxr3PropertyModifier)) [Unswayed SfError.oom readModifiers] :
    Unswayed SfError.oom (readPropertyWith data readModifiers) := by
  unfold readPropertyWith rdI16 rdU16
  infer_instance

instance : Unswayed SfError.oom (readModifier data) := by
  unfold readModifier rdU16 rdU32 allocPtrs
  iterate 8 refine .bind inferInstance fun _ => ?_
  infer_instance

instance : Unswayed SfError.oom (readAction data) := by
  unfold readAction readProperty readModifiers readUnkFieldList allocPtrs allocFields rdBool rdU8 rdI16 rdU16
  iterate 24 refine .bind inferInstance fun _ => ?_
  infer_instance

instance : Unswayed SfError.oom (readEffect data) := by
  unfold readEffect allocPtrs rdI16 rdU16
  iterate 8 refine .bind inferInstance fun _ => ?_
  infer_instance

instance : Unswayed SfError.oom (readContainerHead data) := by
  unfold readContainerHead allocPtrs rdI16 rdU16
  iterate 12 refine .bind inferInstance fun _ => ?_
  infer_instance

instance (head : Fxr3ContainerHead) : Unswayed SfError.oom (seekChildren data head) := by
  unfold seekChildren
  infer_instance

instance (fuel : Nat) : Unswayed (some SfError.oom) (readContainer data fuel) := by
  induction fuel with
  | zero =>
      unfold readContainer
      infer_instance
  | succ fuel ih =>
      unfold readContainer
      infer_instance

instance (version : Fxr3Version) : Unswayed SfError.oom (readFxr3Tables data version) := by
  unfold readFxr3Tables readI32Array
  cases version <;> infer_instance

instance : Unswayed SfError.oom (readFxr3Preamble data) := by
  have := unswayed_move SfError.oom fun _ => 4
  unfold readFxr3Preamble rdNeed rdExpectI16 rdI16 rdU16
  iterate 8 refine .bind inferInstance fun _ => ?_
  infer_instance

instance (fuel : Nat) : Unswayed (some SfError.oom) (readFxr3 data fuel) := by
  unfold readFxr3
  infer_instance

end

/-! ## The graph of the containers -/

section

variable (data : List UInt8)

/-- What `read_container` reads behind the children. -/
def readBehindChildren (head : Fxr3ContainerHead) : Fallible Fxr3Cursor SfError (List Fxr3Effect × List Fxr3Action) := do
  let effects ← rdEachAt data head.effectOff head.effectCount fun _ => readEffect data
  let actions ← rdEachAt data head.actionOff head.actionCount fun _ => readAction data
  pure (effects, actions)

/-- The containers of a file by the positions of their records: a container that is entered has a record in order and
    its children at a position in the file; it is left in order if its effects and its actions are. -/
def containerDescent : Descent Nat where
  enter p :=
    match readContainerHead data ⟨p, []⟩ with
    | (.error _, _) => none
    | (.ok head, c) =>
      match seekChildren data head c with
      | (.error _, _) => none
      | (.ok _, q) => some (List.range' q.pos head.childCount 48)
  leave p :=
    match readContainerHead data ⟨p, []⟩ with
    | (.error _, _) => false
    | (.ok head, c) => (readBehindChildren data head c).1.isOk

theorem containerDescent_finite : {p | ((containerDescent data).enter p).isSome}.Finite := by
  refine (Set.finite_le_nat data.length).subset ?_
  intro p hp
  rcases hhead : readContainerHead data ⟨p, []⟩ with ⟨e | head, c⟩
  · simp [containerDescent, hhead] at hp
  · exact readContainerHead_inside data hhead

end

/-! ## Runs -/

section

variable {ε α : Type}

theorem answered_bind_ok {σ β : Type} {m : Fallible σ ε α} {s s' : σ} {a : α} (h : m s = (.ok a, s'))
    (f : α → Fallible σ (Option ε) β) : (answered m >>= f) s = f a s' := by
  refine bind_ok ?_ f
  rw [answered, h]
  rfl

theorem answered_bind_error {σ β : Type} {m : Fallible σ ε α} {s s' : σ} {e : ε} (h : m s = (.error e, s'))
    (f : α → Fallible σ (Option ε) β) : (answered m >>= f) s = (.error (some e), s') := by
  refine bind_error ?_ f
  rw [answered, h]
  rfl

section

variable {β : Type} {m : Fallible Fxr3Cursor ε α} {p : Nat}

theorem fork_bind_ok (refusal : ε) [hm : Unswayed refusal m] {a : α} (h : (m ⟨p, []⟩).1 = .ok a)
    (f : α → Fallible Fxr3Cursor ε β) : (fork m >>= f) ⟨p, []⟩ = f a ⟨p, []⟩ := by
  refine bind_ok ?_ f
  obtain ⟨x, q, hcalm, -⟩ := hm.cut p []
  rw [fork, h, hcalm]

theorem fork_bind_error (refusal : ε) [hm : Unswayed refusal m] {e : ε} (h : (m ⟨p, []⟩).1 = .error e)
    (f : α → Fallible Fxr3Cursor ε β) : (fork m >>= f) ⟨p, []⟩ = (.error e, ⟨p, []⟩) := by
  refine bind_error ?_ f
  obtain ⟨x, q, hcalm, -⟩ := hm.cut p []
  rw [fork, h, hcalm]

end

/-- Records that stand one behind the other are read each where it stands. -/
theorem collect_fst (refusal : ε) {f : Fallible Fxr3Cursor ε α} [hcalm : Unswayed refusal f] {width : Nat}
    (hf : Advances width f) (count i q : Nat) :
    (collect (fun _ => f) count i ⟨q, []⟩).1 = (List.range' q count width).mapM fun x => (f ⟨x, []⟩).1 := by
  induction count generalizing i q with
  | zero => rfl
  | succ count ih =>
      rw [collect, List.range'_succ, List.mapM_cons]
      rcases hrun : f ⟨q, []⟩ with ⟨e | a, q', heap⟩
      · rw [bind_error hrun]
        rfl
      · obtain rfl : q' = q + width := hf _ a _ hrun
        obtain rfl := hcalm.heap_eq refusal hrun
        rw [bind_ok hrun, ← ih (i + 1)]
        rcases hrest : collect (fun _ => f) count (i + 1) ⟨q + width, []⟩ with ⟨e | rest, c⟩
        · rw [bind_error hrest]
          rfl
        · rw [bind_ok hrest]
          rfl

end

section

variable {data : List UInt8}

/-- What the call for a container comes to. -/
inductive ContainerRun (data : List UInt8) (fuel p : Nat) : Except (Option SfError) Fxr3Container → Prop
  | refused {e : SfError} (henter : (containerDescent data).enter p = none) : ContainerRun data fuel p (.error (some e))
  | below {q count : Nat} {e : Option SfError}
      (henter : (containerDescent data).enter p = some (List.range' q count 48))
      (hbelow : (collect (fun _ => readContainer data fuel) count 0 ⟨q, []⟩).1 = .error e) :
      ContainerRun data fuel p (.error e)
  | behind {q count : Nat} {e : SfError} {children : List Fxr3Container}
      (henter : (containerDescent data).enter p = some (List.range' q count 48))
      (hbelow : (collect (fun _ => readContainer data fuel) count 0 ⟨q, []⟩).1 = .ok children)
      (hleave : (containerDescent data).leave p = false) : ContainerRun data fuel p (.error (some e))
  | read {q count : Nat} {c : Fxr3Container} {children : List Fxr3Container}
      (henter : (containerDescent data).enter p = some (List.range' q count 48))
      (hbelow : (collect (fun _ => readContainer data fuel) count 0 ⟨q, []⟩).1 = .ok children)
      (hleave : (containerDescent data).leave p = true) : ContainerRun data fuel p (.ok c)

theorem leave_eq {p p' : Nat} {head : Fxr3ContainerHead} {r : Except SfError (List Fxr3Effect × List Fxr3Action)}
    (hhead : readContainerHead data ⟨p, []⟩ = (.ok head, ⟨p', []⟩))
    (hbehind : (readBehindChildren data head ⟨p', []⟩).1 = r) :
    (containerDescent data).leave p = r.isOk := by
  simp only [containerDescent, hhead, hbehind]

theorem readContainer_spec (data : List UInt8) (fuel p : Nat) :
    ContainerRun data fuel p (readContainer data (fuel + 1) ⟨p, []⟩).1 := by
  rw [readContainer]
  rcases hhead : readContainerHead data ⟨p, []⟩ with ⟨e | head, p', heap⟩
  · rw [answered_bind_error hhead]
    exact .refused (by simp [containerDescent, hhead])
  · obtain rfl := Unswayed.heap_eq SfError.oom hhead
    rw [answered_bind_ok hhead]
    rcases hseek : seekChildren data head ⟨p', []⟩ with ⟨e | ⟨⟩, q, heap⟩
    · have hrun := answered_bind_error hseek fun _ => collect (fun _ => readContainer data fuel) head.childCount 0
      rw [fork_bind_error (some SfError.oom) (congrArg Prod.fst hrun)]
      exact .refused (by simp [containerDescent, hhead, hseek])
    · obtain rfl := Unswayed.heap_eq SfError.oom hseek
      have henter : (containerDescent data).enter p = some (List.range' q head.childCount 48) := by
        simp [containerDescent, hhead, hseek]
      have hrun := answered_bind_ok hseek fun _ => collect (fun _ => readContainer data fuel) head.childCount 0
      cases hbelow : (collect (fun _ => readContainer data fuel) head.childCount 0 ⟨q, []⟩).1 with
      | error e =>
          rw [fork_bind_error (some SfError.oom) ((congrArg Prod.fst hrun).trans hbelow)]
          exact .below henter hbelow
      | ok children =>
          rw [fork_bind_ok (some SfError.oom) ((congrArg Prod.fst hrun).trans hbelow)]
          rcases heffects : rdEachAt data head.effectOff head.effectCount (fun _ => readEffect data) ⟨p', []⟩
            with ⟨e | effects, c2⟩
          · have hbehind : (readBehindChildren data head ⟨p', []⟩).1 = .error e := by
              rw [readBehindChildren, bind_error heffects]
            rw [answered_bind_error heffects]
            exact .behind henter hbelow (leave_eq hhead hbehind)
          · rw [answered_bind_ok heffects]
            rcases hactions : rdEachAt data head.actionOff head.actionCount (fun _ => readAction data) c2 with
              ⟨e | actions, c3⟩
            · have hbehind : (readBehindChildren data head ⟨p', []⟩).1 = .error e := by
                rw [readBehindChildren, bind_ok heffects, bind_error hactions]
              rw [answered_bind_error hactions]
              exact .behind henter hbelow (leave_eq hhead hbehind)
            · have hbehind : (readBehindChildren data head ⟨p', []⟩).1 = .ok (effects, actions) := by
                rw [readBehindChildren, bind_ok heffects, bind_ok hactions]
                rfl
              rw [answered_bind_ok hactions]
              exact .read henter hbelow (leave_eq hhead hbehind)

theorem Advances.answered {ε α : Type} {n : Nat} {m : Fallible Fxr3Cursor ε α} (h : Advances n m) :
    Advances n (answered m) := by
  intro c a c' hrun
  rcases hm : m c with ⟨e | b, q⟩
  · simp [Fxr3Reader.answered, hm, Except.mapError] at hrun
  · simp only [Fxr3Reader.answered, hm, Prod.mk.injEq] at hrun
    rw [← hrun.2]
    exact h c b q hm

theorem Advances.fork {ε α : Type} (m : Fallible Fxr3Cursor ε α) : Advances 0 (fork m) := by
  intro c a c' hrun
  cases congrArg Prod.snd hrun
  rfl

theorem readContainer_advances (data : List UInt8) (fuel : Nat) : Advances 48 (readContainer data fuel) := by
  cases fuel with
  | zero => exact nofun
  | succ fuel =>
      rw [readContainer]
      refine (readContainerHead_advances data).answered.bind le_rfl fun head => ?_
      refine (Advances.fork _).bind (Nat.zero_le _) fun children => ?_
      refine (Advances.fork _).answered.bind (Nat.zero_le _) fun effects => ?_
      exact (Advances.fork _).answered.bind (Nat.zero_le _) fun actions => .pure rfl

theorem collect_containers (data : List UInt8) (fuel count q : Nat) :
    (collect (fun _ => readContainer data fuel) count 0 ⟨q, []⟩).1 =
      (List.range' q count 48).mapM fun x => (readContainer data fuel ⟨x, []⟩).1 :=
  collect_fst (some SfError.oom) (readContainer_advances data fuel) count 0 q

/-- Reading a container makes the descent into it. -/
theorem containerDescent_runs :
    (containerDescent data).Runs none fun fuel p => (readContainer data fuel ⟨p, []⟩).1 where
  zero _ := .inl rfl
  refused n p henter := by
    have hspec := readContainer_spec data n p
    generalize (readContainer data (n + 1) ⟨p, []⟩).1 = r at hspec ⊢
    cases hspec with
    | refused _ => exact ⟨some _, Option.some_ne_none _, rfl⟩
    | below hsome _ => cases henter.symm.trans hsome
    | behind hsome _ _ => cases henter.symm.trans hsome
    | read hsome _ _ => cases henter.symm.trans hsome
  below n p l e henter hbelow := by
    have hspec := readContainer_spec data n p
    generalize (readContainer data (n + 1) ⟨p, []⟩).1 = r at hspec ⊢
    cases hspec with
    | refused hnone => cases hnone.symm.trans henter
    | below hsome hrun =>
        rw [collect_containers, Option.some.inj (hsome.symm.trans henter), hbelow] at hrun
        rw [Except.error.inj hrun]
    | behind hsome hrun _ =>
        rw [collect_containers, Option.some.inj (hsome.symm.trans henter), hbelow] at hrun
        cases hrun
    | read hsome hrun _ =>
        rw [collect_containers, Option.some.inj (hsome.symm.trans henter), hbelow] at hrun
        cases hrun
  behind n p l bs henter hbelow hleave := by
    have hspec := readContainer_spec data n p
    generalize (readContainer data (n + 1) ⟨p, []⟩).1 = r at hspec ⊢
    cases hspec with
    | refused hnone => cases hnone.symm.trans henter
    | below hsome hrun =>
        rw [collect_containers, Option.some.inj (hsome.symm.trans henter), hbelow] at hrun
        cases hrun
    | behind _ _ _ => exact ⟨some _, Option.some_ne_none _, rfl⟩
    | read _ _ hleft => cases hleave.symm.trans hleft
  left n p l bs henter hbelow hleave := by
    have hspec := readContainer_spec data n p
    generalize (readContainer data (n + 1) ⟨p, []⟩).1 = r at hspec ⊢
    cases hspec with
    | refused hnone => cases hnone.symm.trans henter
    | below hsome hrun =>
        rw [collect_containers, Option.some.inj (hsome.symm.trans henter), hbelow] at hrun
        cases hrun
    | behind _ _ hnot => cases hleave.symm.trans hnot
    | read _ _ _ => exact ⟨_, rfl⟩

/-! ## Files -/

/-- The reader comes to the containers, the first of which is at `root`. -/
def RootContainer (data : List UInt8) (root : Nat) : Prop :=
  ∃ preamble, readFxr3Preamble data ⟨0, []⟩ = (.ok preamble, ⟨root, []⟩)

theorem readFxr3_of_root {root : Nat} (h : RootContainer data root) (fuel : Nat) :
    ((readFxr3 data fuel ⟨0, []⟩).1 = .error none ↔ (readContainer data fuel ⟨root, []⟩).1 = .error none) ∧
      ∀ effect, (readFxr3 data fuel ⟨0, []⟩).1 = .ok effect → ∃ c, (readContainer data fuel ⟨root, []⟩).1 = .ok c := by
  obtain ⟨preamble, hpreamble⟩ := h
  unfold readFxr3
  rw [answered_bind_ok hpreamble]
  rcases hroot : readContainer data fuel ⟨root, []⟩ with ⟨e | c, p'⟩
  · rw [bind_error hroot]
    exact ⟨by simp, nofun⟩
  · rw [bind_ok hroot]
    exact ⟨by simp, fun _ _ => ⟨c, rfl⟩⟩

/-- A file is refused before the containers. -/
theorem readFxr3_of_no_root (h : ∀ root, ¬ RootContainer data root) (fuel : Nat) :
    ∃ e, (readFxr3 data fuel ⟨0, []⟩).1 = .error (some e) := by
  rcases hpreamble : readFxr3Preamble data ⟨0, []⟩ with ⟨e | preamble, root, heap⟩
  · unfold readFxr3
    rw [answered_bind_error hpreamble]
    exact ⟨e, rfl⟩
  · obtain rfl := Unswayed.heap_eq SfError.oom hpreamble
    exact absurd ⟨preamble, hpreamble⟩ (h root)

/-- Whatever the allocator answers, a file is read as with one that grants everything, or the reader is refused. -/
theorem fxr3ReadFromMemory_cut (data : List UInt8) (fuel : Nat) (heap : Heap) :
    (fxr3ReadFromMemory data fuel heap).1 = (readFxr3 data fuel ⟨0, []⟩).1 ∨
      (fxr3ReadFromMemory data fuel heap).1 = .error (some .oom) := by
  obtain ⟨x, q, hcalm, ⟨heap', hrun⟩ | ⟨c, hrun⟩⟩ :=
    (inferInstance : Unswayed (some SfError.oom) (readFxr3 data fuel)).cut 0 heap
  · exact .inl (by rw [fxr3ReadFromMemory, hrun, hcalm])
  · exact .inr (by rw [fxr3ReadFromMemory, hrun])

/-- What is asked of the reader with every allocator: it returns, and no container of a file that it accepts is its own
    descendant. -/
structure Fxr3Terminates (data : List UInt8) : Prop where
  returns : ∃ enough, ∀ fuel ≥ enough, ∀ heap, (fxr3ReadFromMemory data fuel heap).1 ≠ .error none
  acyclic : ∀ fuel heap effect, (fxr3ReadFromMemory data fuel heap).1 = .ok effect → ∀ root, RootContainer data root →
    ¬ RunsIntoCycle (containerDescent data).Child root

theorem Fxr3Terminates.settles (h : Fxr3Terminates data) {root : Nat} (hroot : RootContainer data root) :
    (containerDescent data).Settles root := by
  obtain ⟨enough, hreturns⟩ := h.returns
  exact containerDescent_runs.settles fun hnone =>
    hreturns enough le_rfl [] ((readFxr3_of_root hroot enough).1.2 hnone)

/-- The reader terminates exactly if no cycle of containers can be entered from the root. -/
theorem fxr3_terminates_iff (data : List UInt8) :
    Fxr3Terminates data ↔ ∀ root, RootContainer data root → ¬ RunsIntoCycle (containerDescent data).Enters root := by
  constructor
  · intro h root hroot
    rw [← Descent.settles_iff (containerDescent_finite data)]
    exact h.settles hroot
  · intro hcycle
    have hreturns : ∃ enough, ∀ fuel ≥ enough, (readFxr3 data fuel ⟨0, []⟩).1 ≠ .error none := by
      by_cases hroot : ∃ root, RootContainer data root
      · obtain ⟨root, hroot⟩ := hroot
        obtain ⟨enough, henough⟩ :=
          containerDescent_runs.returns (containerDescent_finite data)
            ((Descent.settles_iff (containerDescent_finite data)).2 (hcycle root hroot))
        exact ⟨enough, fun fuel hfuel hnone => henough fuel hfuel ((readFxr3_of_root hroot fuel).1.1 hnone)⟩
      · refine ⟨0, fun fuel _ hnone => ?_⟩
        obtain ⟨e, he⟩ := readFxr3_of_no_root (not_exists.1 hroot) fuel
        rw [he] at hnone
        cases hnone
    refine ⟨?_, ?_⟩
    · obtain ⟨enough, henough⟩ := hreturns
      refine ⟨enough, fun fuel hfuel heap hnone => ?_⟩
      rcases fxr3ReadFromMemory_cut data fuel heap with hsame | hrefused
      · exact henough fuel hfuel (hsame.symm.trans hnone)
      · cases hrefused.symm.trans hnone
    · intro fuel heap effect hread root hroot
      rcases fxr3ReadFromMemory_cut data fuel heap with hsame | hrefused
      · obtain ⟨c, hc⟩ := (readFxr3_of_root hroot fuel).2 effect (hsame.symm.trans hread)
        exact (containerDescent_runs.sound hc).acc.not_runsIntoCycle
      · cases hrefused.symm.trans hread

/-- A file whose root container is its own child: the sections, an empty state map at 112 and the container at 128. -/
def selfContainedFile : List UInt8 :=
  cstr "FXR" ++ [0] ++ leBytes 2 0 ++ leBytes 2 4 ++ leBytes 4 1 ++ leBytes 4 0
    ++ [(112, 1), (0, 0), (0, 0), (128, 0), (0, 0), (0, 0), (0, 0), (0, 0), (0, 0), (0, 0), (0, 0)].flatMap
      (fun s => leBytes 4 s.1 ++ leBytes 4 s.2)
    ++ leBytes 4 1 ++ leBytes 4 0
    ++ leBytes 16 0
    ++ ([0, 0, 0, 1] ++ [0, 0, 0, 1, 0, 0, 0, 0, 0, 128, 0].flatMap (leBytes 4))

theorem selfContainedFile_not_terminates : ¬ Fxr3Terminates selfContainedFile := by
  intro h
  have hroot : RootContainer selfContainedFile 128 := by
    refine ⟨⟨.darkSouls3, 0, [], [], [], ⟨[]⟩⟩, ?_⟩
    decide +kernel
  have henter : (containerDescent selfContainedFile).enter 128 = some [128] := by decide +kernel
  have hloop : (containerDescent selfContainedFile).Enters 128 128 := ⟨[], [], henter, nofun⟩
  exact Acc.not_runsIntoCycle (h.settles hroot) ⟨128, .refl, .single hloop⟩

end

end Fxr3Reader

end SoulsFormats
