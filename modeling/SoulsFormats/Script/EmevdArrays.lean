import SoulsFormats.Core.Alike
import SoulsFormats.Script.EmevdObject

set_option autoImplicit false

/-! # Absent arrays of an event script

The accesses of `emevd_read` and `sf_emevd_destroy` are to elements that are there, unless the reader stops between a
count and its array: after the number of events, or after the number of instructions of an event. -/

namespace SoulsFormats

open Fallible BinaryReader Built Construct

/-! ## Counts and allocations -/

theorem emevdI64ToSize_nonneg {v : Int64} (h : 0 ≤ v.toInt) (r : BinaryReader) :
    emevdI64ToSize v r = (.ok v.toInt.toNat, r) := by
  have hle : 0 ≤ v := by rw [Int64.le_iff_toInt_le]; simpa using h
  rw [emevdI64ToSize, check_bind_pos hle, pure_run]

theorem emevdI64ToSize_neg {v : Int64} (h : v.toInt < 0) (r : BinaryReader) :
    emevdI64ToSize v r = (.error .outOfRange, r) := by
  have hle : ¬ 0 ≤ v := by rw [Int64.le_iff_toInt_le]; simpa using h
  rw [emevdI64ToSize, check_bind_neg hle]

/-- An array is needed, but its size is too large or it is not granted. -/
def ArrayRefused (count elemSize : Nat) (r : BinaryReader) : Prop :=
  0 < count ∧ (SIZE_MAX / elemSize < count ∨ ¬ r.heap.Grants)

theorem emevdAllocArray_refused {count elemSize : Nat} {r : BinaryReader} (h : ArrayRefused count elemSize r) :
    ∃ e r', emevdAllocArray count elemSize r = (.error e, r') := by
  obtain ⟨hcount, hrefused⟩ := h
  unfold emevdAllocArray
  rw [if_neg (by omega)]
  by_cases hsize : count ≤ SIZE_MAX / elemSize
  · have hheap : ¬ r.heap.Grants := hrefused.resolve_left (by omega)
    have hrun : onHeap Heap.alloc r = (.error .oom, { r with heap := (Heap.alloc r.heap).2 }) :=
      Prod.ext (Heap.alloc_of_not_grants hheap) rfl
    rw [check_bind_pos hsize]
    exact ⟨.oom, _, bind_error hrun _⟩
  · rw [check_bind_neg hsize]
    exact ⟨_, _, rfl⟩

theorem emevdAllocArray_granted {count elemSize : Nat} {r : BinaryReader} (h : ¬ ArrayRefused count elemSize r) :
    ∃ r', emevdAllocArray count elemSize r = (.ok (), r') := by
  unfold emevdAllocArray
  by_cases hcount : count = 0
  · rw [if_pos hcount]
    exact ⟨r, rfl⟩
  · rw [if_neg hcount]
    have hsize : count ≤ SIZE_MAX / elemSize := by
      by_contra hlarge
      exact h ⟨by omega, .inl (by omega)⟩
    have hheap : r.heap.Grants := by
      by_contra hrefused
      exact h ⟨by omega, .inr hrefused⟩
    obtain ⟨junk, halloc⟩ := Heap.alloc_of_grants hheap
    have hrun : onHeap Heap.alloc r = (.ok junk, { r with heap := (Heap.alloc r.heap).2 }) := Prod.ext halloc rfl
    rw [check_bind_pos hsize]
    exact ⟨_, bind_ok hrun _⟩

/-! ## One event -/

/-- The instructions of an event are there. -/
def EmevdEventObject.Counted (o : EmevdEventObject) : Prop := o.instructionCount ≤ o.instructions.length

/-- The reader stops after it has stored how many instructions there are, and before it has an array for them. -/
def EmevdEventHead.InstructionsAbsent (head : EmevdEventHead) (r : BinaryReader) : Prop :=
  0 < head.instructionCount.toInt ∧
    (head.parameterCount.toInt < 0 ∨ ArrayRefused head.instructionCount.toInt.toNat emevdEntrySize r)

section

variable {format : EmevdFormat} {offsets : EmevdOffsets} {head : EmevdEventHead}

theorem sfiEmevdEventFree_run (b : Built BinaryReader EmevdEventObject) :
    ∃ log, sfiEmevdEventFree b = (.ok (), { b with object := {}, log := log }) ∧
      ((∀ a ∈ log, a.Valid) ↔ b.Sound ∧ b.object.Counted) := by
  obtain ⟨log, hrun, hlog⟩ := upTo_access (ε := SfError) (T := EmevdEventObject.instructionTable)
    b.object.instructionCount 0 b
  refine ⟨log, ?_, hlog.trans (and_congr_right fun _ => ?_)⟩
  · rw [sfiEmevdEventFree, state_bind_run, bind_ok hrun, assign_run]
  · change (0 < b.object.instructionCount → 0 + b.object.instructionCount ≤ b.object.instructions.length) ↔ _
    unfold EmevdEventObject.Counted
    omega

theorem sfiEmevdEventFree_sound (b : Built BinaryReader EmevdEventObject) :
    (sfiEmevdEventFree b).2.Sound ↔ b.Sound ∧ b.object.Counted := by
  obtain ⟨log, hrun, hlog⟩ := sfiEmevdEventFree_run b
  rw [hrun]
  exact hlog

theorem sfiEmevdEventFree_counted (b : Built BinaryReader EmevdEventObject) :
    (sfiEmevdEventFree b).2.object.Counted := by
  obtain ⟨log, hrun, -⟩ := sfiEmevdEventFree_run b
  rw [hrun]
  exact Nat.le_refl 0

/-- A loop over elements that are there is sound. -/
theorem emevdReadElements_keeps {τ : Type} {T : TableOf EmevdEventObject τ} {blank : τ} {base : Int} {offset : Int64}
    {count : Nat} {read : ReadM τ} {J : EmevdEventObject → Prop}
    (hset : ∀ l o, l.length = (T.get o).length → J o → J (T.set l o)) (hin : ∀ o, J o → count ≤ (T.get o).length) :
    Keeps (SoundWith J) (emevdReadElements T blank base offset count read) := by
  refine Keeps.ite (fun _ => ?_) fun _ => Keeps.pure _
  refine (reading_keeps_with _).bind fun off => constructAt_keeps reading_keeps_with (upTo_keeps fun j _ hj => ?_)
  exact readElement_keeps hset fun o ho => lt_of_lt_of_le (by omega) (hin o ho)

theorem emevdReadElements_keeps_unsound {τ : Type} {T : TableOf EmevdEventObject τ} {blank : τ} {base : Int}
    {offset : Int64} {count : Nat} {read : ReadM τ} :
    Keeps Unsound (emevdReadElements T blank base offset count read) := by
  refine Keeps.ite (fun _ => ?_) fun _ => Keeps.pure _
  refine (reading_keeps_unsound _).bind fun off => constructAt_keeps reading_keeps_unsound (upTo_keeps fun _ _ _ => ?_)
  exact readElement_keeps_unsound

theorem emevdAllocEventArrays_keeps_unsound : Keeps Unsound emevdAllocEventArrays :=
  Keeps.state.bind fun _ => (reading_keeps_unsound _).bind fun _ => (assign_keeps_unsound _).bind fun _ =>
    (reading_keeps_unsound _).bind fun _ => assign_keeps_unsound _

theorem emevdEventLoops_keeps_unsound : Keeps Unsound (emevdEventLoops format offsets head) :=
  Keeps.state.bind fun _ => emevdReadElements_keeps_unsound.bind fun _ => emevdReadElements_keeps_unsound

theorem emevdEventArrays_keeps_unsound : Keeps Unsound (emevdEventArrays format offsets head) :=
  emevdAllocEventArrays_keeps_unsound.bind fun _ => emevdEventLoops_keeps_unsound

theorem sfiEmevdEventFree_keeps_unsound : Keeps Unsound sfiEmevdEventFree :=
  fun _ hb h => hb ((sfiEmevdEventFree_sound _).1 h).1

theorem sfiEmevdEventRead_keeps_unsound : Keeps Unsound (sfiEmevdEventRead format offsets) := by
  refine (assign_keeps_unsound _).bind fun _ => (reading_keeps_unsound _).bind fun _ => ?_
  refine (assign_keeps_unsound _).bind fun _ => (reading_keeps_unsound _).bind fun _ => ?_
  refine (assign_keeps_unsound _).bind fun _ => (reading_keeps_unsound _).bind fun _ => ?_
  exact (assign_keeps_unsound _).bind fun _ =>
    onFailure_keeps emevdEventArrays_keeps_unsound sfiEmevdEventFree_keeps_unsound

/-- Both arrays of an event are there. -/
structure EmevdEventObject.Allocated (n m : Nat) (o : EmevdEventObject) : Prop where
  instructionCount_eq : o.instructionCount = n
  length_instructions : o.instructions.length = n
  parameterCount_eq : o.parameterCount = m
  length_parameters : o.parameters.length = m

theorem EmevdEventObject.Allocated.counted {n m : Nat} {o : EmevdEventObject} (h : o.Allocated n m) : o.Counted := by
  rw [EmevdEventObject.Counted, h.instructionCount_eq, h.length_instructions]

/-- The loops over two arrays that are there. -/
theorem emevdEventLoops_keeps (n m : Nat) :
    Keeps (SoundWith (EmevdEventObject.Allocated n m)) (emevdEventLoops format offsets head) := by
  rintro b ⟨hb, hn, hnl, hm, hml⟩
  rw [emevdEventLoops, state_bind_run, hn, hm]
  refine Keeps.bind (I := SoundWith (EmevdEventObject.Allocated n m)) (emevdReadElements_keeps ?_ ?_)
    (fun _ => emevdReadElements_keeps ?_ ?_) b ⟨hb, hn, hnl, hm, hml⟩
  · exact fun l o hl ho => ⟨ho.1, hl.trans ho.2, ho.3, ho.4⟩
  · exact fun o ho => ho.2.ge
  · exact fun l o hl ho => ⟨ho.1, ho.2, ho.3, hl.trans ho.4⟩
  · exact fun o ho => ho.4.ge

/-- Once the counts are stored, the instructions can only be missing if their array was refused. -/
theorem emevdEventArrays_settled {b : Built BinaryReader EmevdEventObject} (hb : b.Sound)
    (hfresh : b.object.instructions = []) :
    SoundWith EmevdEventObject.Counted (onFailure (emevdEventArrays format offsets head) sfiEmevdEventFree b).2 ↔
      ¬ ArrayRefused b.object.instructionCount emevdEntrySize b.source := by
  by_cases hrefused : ArrayRefused b.object.instructionCount emevdEntrySize b.source
  · obtain ⟨e, r, halloc⟩ := emevdAllocArray_refused hrefused
    have hrun : emevdEventArrays format offsets head b = (.error e, { b with source := r }) := by
      rw [emevdEventArrays, emevdAllocEventArrays, bind_error]
      rw [state_bind_run, reading_bind_error halloc]
    rw [onFailure_error hrun]
    have hcounted : ¬ b.object.Counted := by
      have := hrefused.1
      rw [EmevdEventObject.Counted, hfresh, List.length_nil]
      omega
    exact iff_of_false (fun h => hcounted ((sfiEmevdEventFree_sound _).1 h.1).2) (fun h => h hrefused)
  · refine iff_of_true ?_ hrefused
    obtain ⟨r, halloc⟩ := emevdAllocArray_granted hrefused
    have hdone : SoundWith EmevdEventObject.Counted (emevdEventArrays format offsets head b).2 := by
      rw [emevdEventArrays, emevdAllocEventArrays, bind_assoc, state_bind_run, bind_assoc, reading_bind_ok halloc,
        bind_assoc, assign_bind_run, bind_assoc]
      rcases h : emevdAllocArray b.object.parameterCount emevdEntrySize r with ⟨e | ⟨⟩, r'⟩
      · rw [reading_bind_error h]
        exact ⟨hb, by simp [EmevdEventObject.Counted]⟩
      · rw [reading_bind_ok h, assign_bind_run]
        refine And.imp_right EmevdEventObject.Allocated.counted (emevdEventLoops_keeps _ _ _ ⟨hb, rfl, ?_, rfl, ?_⟩)
        · simp
        · simp
    rcases h : emevdEventArrays format offsets head b with ⟨e | ⟨⟩, b'⟩
    · rw [h] at hdone
      rw [onFailure_error h]
      exact ⟨(sfiEmevdEventFree_sound b').2 hdone, sfiEmevdEventFree_counted b'⟩
    · rw [h] at hdone
      rwa [onFailure_ok h]

/-- One event has its instructions where the reader does not stop before their array. -/
theorem sfiEmevdEventRead_settled (b : Built BinaryReader EmevdEventObject) :
    SoundWith EmevdEventObject.Counted (sfiEmevdEventRead format offsets b).2 ↔
      b.Sound ∧ ∀ head r, emevdEventHead b.source = (.ok head, r) → ¬ head.InstructionsAbsent r := by
  by_cases hb : b.Sound
  swap
  · exact iff_of_false (fun h => sfiEmevdEventRead_keeps_unsound b hb h.1) fun h => hb h.1
  rw [and_iff_right hb, sfiEmevdEventRead, assign_bind_run]
  rcases hhead : emevdEventHead b.source with ⟨e | head, r⟩
  · rw [reading_bind_error hhead]
    exact iff_of_true ⟨hb, Nat.le_refl 0⟩ fun head r h => by cases h
  · rw [reading_bind_ok hhead, assign_bind_run]
    have honly : (∀ head' r', (Except.ok (ε := SfError) head, r) = (.ok head', r') → ¬ head'.InstructionsAbsent r') ↔
        ¬ head.InstructionsAbsent r :=
      ⟨fun h => h head r rfl, fun h head' r' heq => by cases heq; exact h⟩
    rw [honly]
    by_cases hn : head.instructionCount.toInt < 0
    · rw [reading_bind_error (emevdI64ToSize_neg hn r)]
      exact iff_of_true ⟨hb, Nat.le_refl 0⟩ fun h => by have := h.1; omega
    rw [reading_bind_ok (emevdI64ToSize_nonneg (by omega) r), assign_bind_run]
    by_cases hm : head.parameterCount.toInt < 0
    · rw [reading_bind_error (emevdI64ToSize_neg hm r)]
      change b.Sound ∧ head.instructionCount.toInt.toNat ≤ 0 ↔ _
      refine (and_iff_right hb).trans ⟨fun h h' => ?_, fun h => ?_⟩
      · have := h'.1
        omega
      · by_contra hsome
        exact h ⟨by omega, .inl hm⟩
    · rw [reading_bind_ok (emevdI64ToSize_nonneg (by omega) r), assign_bind_run]
      refine (emevdEventArrays_settled (by exact hb) (by rfl)).trans (not_congr ⟨fun h => ?_, fun h => ?_⟩)
      · have hsome : 0 < head.instructionCount.toInt.toNat := h.1
        exact ⟨by omega, .inr h⟩
      · exact h.2.resolve_left hm

/-! ## The event that is read -/

/-- What `emevdEventRead` does after the head of an event. -/
def emevdEventRest (format : EmevdFormat) (offsets : EmevdOffsets) (head : EmevdEventHead) : ReadM EmevdEvent := do
  let instructionCount ← emevdI64ToSize head.instructionCount
  let parameterCount ← emevdI64ToSize head.parameterCount
  emevdAllocArray instructionCount emevdEntrySize
  emevdAllocArray parameterCount emevdEntrySize
  let instructions ← emevdReadSection offsets.instructions head.instructionOffset instructionCount
    (emevdInstructionRead format offsets)
  let parameters ← emevdReadSection offsets.parameters head.parameterOffset parameterCount emevdParameterRead
  pure
    { id := head.id
      restBehavior := emevdRestBehaviorOf head.restBehavior
      instructions := instructions
      parameters := parameters }

theorem emevdEventRead_eq : emevdEventRead format offsets = emevdEventHead >>= emevdEventRest format offsets := by
  simp only [emevdEventRead, emevdEventHead, emevdEventRest, bind_assoc, pure_bind]

/-- The loop fills the array with what is read. -/
theorem mirrors_emevdReadElements {τ : Type} {T : TableOf EmevdEventObject τ} {blank : τ} {base : Int} {offset : Int64}
    {count : Nat} {read : ReadM τ} {b : Built BinaryReader EmevdEventObject}
    (hb : T.get b.object = List.replicate count blank) :
    Mirrors (emevdReadElements T blank base offset count read) (emevdReadSection base offset count read) b
      fun _ xs o => xs.length = count ∧ o = T.set xs b.object := by
  unfold emevdReadElements emevdReadSection
  by_cases hcount : 0 < count
  · rw [if_pos hcount, if_pos hcount]
    refine Mirrors.reading_bind fun off b1 h1 => mirrors_constructAt fun b2 h2 => ?_
    have hb2 : T.get b2.object = List.replicate count blank := by rw [h2, h1, hb]
    exact (mirrors_readElements hb2).mono fun _ xs o h => ⟨h.1, by rw [h.2, h2, h1]⟩
  · rw [if_neg hcount, if_neg hcount]
    have hzero : count = 0 := by omega
    subst hzero
    exact Mirrors.pure ⟨rfl, by simpa [hb] using (T.set_get b.object).symm⟩

/-- Reading into a blank event gives the object of what is read. -/
theorem mirrors_sfiEmevdEventRead (b : Built BinaryReader EmevdEventObject) :
    Mirrors (sfiEmevdEventRead format offsets) (emevdEventRead format offsets) b fun _ x o => o = x.object := by
  rw [emevdEventRead_eq]
  refine Mirrors.assign_bind fun b0 h0 => Mirrors.reading_bind fun head b1 h1 => ?_
  refine Mirrors.assign_bind fun b2 h2 => Mirrors.reading_bind fun n b3 h3 => ?_
  refine Mirrors.assign_bind fun b4 h4 => Mirrors.reading_bind fun m b5 h5 => ?_
  refine Mirrors.assign_bind fun b6 h6 => ?_
  have hobject : b6.object = EmevdEventObject.mk head.id (emevdRestBehaviorOf head.restBehavior) n [] m [] := by
    rw [h6, h5, h4, h3, h2, h1, h0]
  refine Mirrors.onFailure ?_ fun b' => ?_
  · unfold emevdEventArrays emevdAllocEventArrays emevdEventLoops
    simp only [bind_assoc]
    refine Mirrors.state_bind ?_
    rw [hobject]
    refine Mirrors.reading_bind fun _ b7 h7 => Mirrors.assign_bind fun b8 h8 => ?_
    refine Mirrors.reading_bind fun _ b9 h9 => Mirrors.assign_bind fun b10 h10 => Mirrors.state_bind ?_
    have hobject' : b10.object = EmevdEventObject.mk head.id (emevdRestBehaviorOf head.restBehavior) n
        (List.replicate n zeroInstruction) m (List.replicate m zeroParameter) := by
      rw [h10, h9, h8, h7, hobject]
    rw [hobject']
    refine (mirrors_emevdReadElements (by rw [hobject']; rfl)).bind fun _ instructions b11 h11 => ?_
    have hlast : Mirrors (emevdReadElements EmevdEventObject.parameterTable zeroParameter offsets.parameters
        head.parameterOffset m emevdParameterRead >>= pure) (do
          let parameters ← emevdReadSection offsets.parameters head.parameterOffset m emevdParameterRead
          pure (EmevdEvent.mk head.id (emevdRestBehaviorOf head.restBehavior) instructions parameters)) b11
        fun _ x o => o = x.object := by
      have hparameters : EmevdEventObject.parameterTable.get b11.object = List.replicate m zeroParameter := by
        rw [h11.2, hobject']
        rfl
      refine (mirrors_emevdReadElements hparameters).bind fun _ parameters b12 h12 => Mirrors.pure ?_
      obtain ⟨hlen, hinstr⟩ := h11
      obtain ⟨hlen', hparam⟩ := h12
      rw [hparam, hinstr, hobject']
      simp [EmevdEvent.object, EmevdEventObject.parameterTable, EmevdEventObject.instructionTable, hlen, hlen']
    rwa [bind_pure] at hlast
  · obtain ⟨log, hrun, -⟩ := sfiEmevdEventFree_run b'
    rw [hrun]

end

/-! ## The script that is read -/

/-- What `emevdRead` does after the allocation of the object. -/
def emevdReadFields : ReadM Emevd := do
  let header ← emevdReadHeader
  let eventCount ← emevdI64ToSize header.eventCount
  let linkedFileCount ← emevdI64ToSize header.linkedFileCount
  let stringDataSize ← emevdI64ToSize header.stringDataSize
  let events ← emevdReadEvents header eventCount
  let linkedFileOffsets ← emevdReadLinkedFiles header linkedFileCount
  let stringData ← emevdReadStrings header stringDataSize
  pure
    { format := header.format
      bigEndian := header.bigEndian
      is64Bit := header.is64Bit
      events := events
      linkedFileOffsets := linkedFileOffsets
      stringData := stringData }

theorem emevdRead_eq : emevdRead = (do
    let _ ← onHeap Heap.alloc
    emevdReadFields) := rfl

theorem mirrors_emevdBuildEvents {header : EmevdHeader} {n : Nat} {b : Built BinaryReader EmevdObject}
    (hn : b.object.eventCount = n) (hb : b.object.events = []) :
    Mirrors (emevdBuildEvents header) (emevdReadEvents header n) b fun _ xs o =>
      xs.length = n ∧ o = { b.object with events := xs.map EmevdEvent.object } := by
  unfold emevdBuildEvents emevdReadEvents
  refine Mirrors.state_bind ?_
  rw [hn]
  by_cases hsome : 0 < n
  · rw [if_pos hsome, if_pos hsome]
    refine Mirrors.reading_bind fun _ b1 h1 => Mirrors.assign_bind fun b2 h2 => mirrors_constructAt fun b3 h3 => ?_
    have hblank : EmevdObject.eventTable.get b3.object = [] ++ List.replicate n ({} : EmevdEventObject) ++ [] := by
      rw [h3, h2, h1, ← hn]
      simp [EmevdObject.eventTable]
    refine (mirrors_upTo (fun b _ => mirrors_sfiEmevdEventRead b) n 0 List.length_nil hblank).mono fun _ xs o h => ?_
    refine ⟨h.1, ?_⟩
    rw [h.2, h3, h2, h1]
    simp [EmevdObject.eventTable]
  · rw [if_neg hsome, if_neg hsome]
    refine Mirrors.pure ⟨by simp; omega, ?_⟩
    rw [List.map_nil, ← hb]

/-- The object is the one of the script that is read. -/
theorem mirrors_emevdBuild {b : Built BinaryReader EmevdObject} (hb : b.object = {}) :
    Mirrors emevdBuild emevdReadFields b fun _ x o =>
      o.eventCount = x.events.length ∧ o.events = x.events.map EmevdEvent.object := by
  refine Mirrors.reading_bind fun header b1 h1 => Mirrors.assign_bind fun b2 h2 => ?_
  refine Mirrors.reading_bind fun n b3 h3 => Mirrors.assign_bind fun b4 h4 => ?_
  refine Mirrors.reading_bind fun m b5 h5 => Mirrors.assign_bind fun b6 h6 => ?_
  refine Mirrors.reading_bind fun l b7 h7 => Mirrors.assign_bind fun b8 h8 => ?_
  have hcount : b8.object.eventCount = n := by rw [h8, h7, h6, h5, h4]
  have hevents : b8.object.events = [] := by rw [h8, h7, h6, h5, h4, h3, h2, h1, hb]
  refine (mirrors_emevdBuildEvents hcount hevents).bind fun _ events b9 h9 => ?_
  refine Mirrors.reading_bind fun linked b10 h10 => Mirrors.assign_bind fun b11 h11 => ?_
  refine Mirrors.reading_bind fun strings b12 h12 => Mirrors.assign_pure ?_
  rw [h12, h11, h10, h9.2]
  exact ⟨hcount.trans h9.1.symm, rfl⟩

/-! ## The arrays of a script -/

/-- The events are there, with their instructions. -/
def EmevdObject.Counted (o : EmevdObject) : Prop :=
  ∀ i < o.eventCount, i < o.events.length ∧ (o.events.getD i {}).Counted

/-- The reader stops after it has stored how many events there are, and before it has an array for them. -/
def EmevdHeader.EventsAbsent (header : EmevdHeader) (r : BinaryReader) : Prop :=
  0 < header.eventCount.toInt ∧
    (header.linkedFileCount.toInt < 0 ∨ header.stringDataSize.toInt < 0 ∨
      ArrayRefused header.eventCount.toInt.toNat emevdEventSize r)

/-- The reader gets as far as the arrays of an event. -/
def EmevdReachesEvent (header : EmevdHeader) (r : BinaryReader) (k : Nat) (head : EmevdEventHead) (r' : BinaryReader) :
    Prop :=
  (do
    emevdAllocArray header.eventCount.toInt.toNat emevdEventSize
    stepIn header.offsets.events
    let _ ← readEach (emevdEventRead header.format header.offsets) k
    emevdEventHead : ReadM EmevdEventHead) r = (.ok head, r')

theorem EmevdObject.counted_iff {o : EmevdObject} (h : o.events.length = o.eventCount) :
    o.Counted ↔ ∀ e ∈ o.events, e.Counted := by
  constructor
  · intro hall e he
    obtain ⟨i, hi, rfl⟩ := List.getElem_of_mem he
    have := (hall i (h ▸ hi)).2
    rwa [List.getD_eq_getElem?_getD, List.getElem?_eq_getElem hi] at this
  · intro hall i hi
    have hlt : i < o.events.length := by omega
    refine ⟨hlt, ?_⟩
    rw [List.getD_eq_getElem?_getD, List.getElem?_eq_getElem hlt]
    exact hall _ (List.getElem_mem hlt)

theorem sfEmevdDestroy_sound (b : Built BinaryReader EmevdObject) :
    (sfEmevdDestroy b).2.Sound ↔ SoundWith EmevdObject.Counted b := by
  have hok (b : Built BinaryReader EmevdEventObject) : (sfiEmevdEventFree b).1 = .ok () := by
    obtain ⟨log, hrun, -⟩ := sfiEmevdEventFree_run b
    rw [hrun]
  rw [sfEmevdDestroy, state_bind_run]
  refine (sound_free_upTo hok sfiEmevdEventFree_sound b.object.eventCount 0 b).trans (and_congr_right fun _ => ?_)
  simp only [EmevdObject.Counted, Nat.zero_le, true_implies, Nat.zero_add]
  rfl

theorem emevdReadAndDestroy_sound (b : Built BinaryReader EmevdObject) :
    (emevdReadAndDestroy b).2.Sound ↔ SoundWith EmevdObject.Counted (emevdBuild b).2 := by
  rw [← sfEmevdDestroy_sound, emevdReadAndDestroy]
  rcases h : emevdBuild b with ⟨e | ⟨⟩, b'⟩
  · rw [bind_error (onFailure_error h _)]
  · rw [bind_ok (onFailure_ok h _)]

/-- Once a reader is at the events, the loop over them comes to an event as `readEach` does. -/
theorem emevdReachesEvent_iff {header : EmevdHeader} {r r1 r2 : BinaryReader}
    (halloc : emevdAllocArray header.eventCount.toInt.toNat emevdEventSize r = (.ok (), r1))
    (hstep : stepIn header.offsets.events r1 = (.ok (), r2)) {k : Nat} {head : EmevdEventHead} {r' : BinaryReader} :
    EmevdReachesEvent header r k head r' ↔
      ∃ xs r3, readEach (emevdEventRead header.format header.offsets) k r2 = (.ok xs, r3) ∧
        emevdEventHead r3 = (.ok head, r') := by
  rw [EmevdReachesEvent, bind_ok halloc, bind_ok hstep]
  exact bind_eq_ok

/-- The loop over blank events keeps their arrays unless it comes to an event whose instructions are absent. -/
theorem emevdEventsLoop_settled {header : EmevdHeader} {n : Nat} {b : Built BinaryReader EmevdObject} (hb : b.Sound)
    (hcount : b.object.eventCount = n) (hevents : b.object.events = List.replicate n {}) :
    SoundWith EmevdObject.Counted
        (upTo (fun i => element EmevdObject.eventTable {} i (sfiEmevdEventRead header.format header.offsets)) n 0 b).2 ↔
      ∀ k < n, ∀ head r', (∃ xs r, readEach (emevdEventRead header.format header.offsets) k b.source = (.ok xs, r) ∧
        emevdEventHead r = (.ok head, r')) → ¬ head.InstructionsAbsent r' := by
  let m : Nat → ConstructM EmevdEventObject Unit := fun _ => sfiEmevdEventRead header.format header.offsets
  let C : Nat → BinaryReader → Prop := fun _ r =>
    ∀ head r', emevdEventHead r = (.ok head, r') → ¬ head.InstructionsAbsent r'
  have htable : EmevdObject.eventTable.get b.object = List.replicate n {} := hevents
  have hblank (i : Nat) (hi : i < n) : (EmevdObject.eventTable.get b.object)[i]? = some {} := by simp [htable, hi]
  have hfresh : Settled EmevdObject.eventTable EmevdEventObject.Counted b := by
    refine ⟨hb, fun e he => ?_⟩
    rw [htable] at he
    rw [List.eq_of_mem_replicate he]
    exact Nat.le_refl 0
  have hloop := settled_upTo (m := m) (C := C) (T := EmevdObject.eventTable) (Nat.le_refl 0)
    (fun _ b _ => sfiEmevdEventRead_settled b) n 0 b fun i _ hi => hblank i (by omega)
  obtain ⟨l, hlen, hobject⟩ : ∃ l, l.length = (EmevdObject.eventTable.get b.object).length ∧
      (upTo (fun i => element EmevdObject.eventTable {} i (m i)) n 0 b).2.object =
        EmevdObject.eventTable.set l b.object := upTo_object n 0 b
  have hcounted : SoundWith EmevdObject.Counted (upTo (fun i => element EmevdObject.eventTable {} i (m i)) n 0 b).2 ↔
      Settled EmevdObject.eventTable EmevdEventObject.Counted
        (upTo (fun i => element EmevdObject.eventTable {} i (m i)) n 0 b).2 := by
    refine and_congr_right fun _ => EmevdObject.counted_iff ?_
    rw [hobject]
    change l.length = b.object.eventCount
    rw [hlen, htable, List.length_replicate, hcount]
  refine hcounted.trans (hloop.trans ((and_iff_right hfresh).trans ?_))
  -- the loop comes to an event exactly if the events before it are read
  refine forall₂_congr fun k hk => ?_
  have hmirror : Mirrors (upTo (fun i => element EmevdObject.eventTable {} i (m i)) k 0)
      (readEach (emevdEventRead header.format header.offsets) k) b fun _ _ _ => True := by
    let blank : EmevdEventObject := {}
    have hsplit : EmevdObject.eventTable.get b.object =
        [] ++ List.replicate k blank ++ List.replicate (n - k) blank := by
      rw [htable, List.nil_append, List.replicate_append_replicate, Nat.add_sub_cancel' hk.le]
    exact (mirrors_upTo (fun b _ => mirrors_sfiEmevdEventRead b) k 0 List.length_nil hsplit).mono fun _ _ _ _ => trivial
  constructor
  · rintro hall head r' ⟨xs, r, hread, hhead⟩
    obtain ⟨⟨⟩, b', hrun, rfl, -⟩ := hmirror.1 xs r hread
    exact hall b' hrun head r' hhead
  · intro hall b' hrun head r' hhead
    rcases hread : readEach (emevdEventRead header.format header.offsets) k b.source with ⟨e | xs, r⟩
    · obtain ⟨b'', hrun', -⟩ := hmirror.2 e r hread
      rw [hrun] at hrun'
      cases hrun'
    · obtain ⟨⟨⟩, b'', hrun', rfl, -⟩ := hmirror.1 xs r hread
      rw [hrun] at hrun'
      cases hrun'
      exact hall head r' ⟨xs, _, hread, hhead⟩

theorem emevdBuildEvents_settled {header : EmevdHeader} {r : BinaryReader} {o : EmevdObject} {log : List Access}
    (hlog : ∀ a ∈ log, a.Valid) (hcount : o.eventCount = header.eventCount.toInt.toNat) (hevents : o.events = []) :
    SoundWith EmevdObject.Counted (emevdBuildEvents header ⟨r, o, log⟩).2 ↔
      ¬ ArrayRefused header.eventCount.toInt.toNat emevdEventSize r ∧
        ∀ k < header.eventCount.toInt.toNat, ∀ head r',
          EmevdReachesEvent header r k head r' → ¬ head.InstructionsAbsent r' := by
  rw [emevdBuildEvents, state_bind_run, hcount]
  by_cases hsome : 0 < header.eventCount.toInt.toNat
  swap
  · rw [if_neg hsome]
    refine iff_of_true ⟨hlog, fun i hi => ?_⟩ ⟨fun h => hsome h.1, fun k hk => by omega⟩
    rw [pure_run] at hi
    change i < o.eventCount at hi
    omega
  rw [if_pos hsome]
  by_cases hrefused : ArrayRefused header.eventCount.toInt.toNat emevdEventSize r
  · obtain ⟨e, r1, halloc⟩ := emevdAllocArray_refused hrefused
    rw [reading_bind_error halloc]
    refine iff_of_false (fun h => ?_) fun h => h.1 hrefused
    have hfirst : 0 < o.events.length := (h.2 0 (by change 0 < o.eventCount; omega)).1
    rw [hevents] at hfirst
    exact Nat.lt_irrefl 0 hfirst
  obtain ⟨r1, halloc⟩ := emevdAllocArray_granted hrefused
  rw [and_iff_right hrefused, reading_bind_ok halloc, assign_bind_run]
  simp only [hcount]
  rcases hstep : stepIn header.offsets.events r1 with ⟨e | ⟨⟩, r2⟩
  · rw [Construct.constructAt, reading_bind_error hstep]
    refine iff_of_true ⟨hlog, ?_⟩ fun k hk head r' hreach => ?_
    · refine (EmevdObject.counted_iff (by simp)).2 fun e he => ?_
      rw [List.eq_of_mem_replicate he]
      exact Nat.le_refl 0
    · rw [EmevdReachesEvent, bind_ok halloc, bind_error hstep] at hreach
      cases hreach
  · let work := upTo (fun i => element EmevdObject.eventTable {} i (sfiEmevdEventRead header.format header.offsets))
      header.eventCount.toInt.toNat 0
    let n := header.eventCount.toInt.toNat
    let o' : EmevdObject := { o with eventCount := n, events := List.replicate n {} }
    obtain ⟨hobject, hlog'⟩ := constructAt_snd hstep work o' log
    have hsame : SoundWith EmevdObject.Counted (constructAt header.offsets.events work ⟨r1, o', log⟩).2 ↔
        SoundWith EmevdObject.Counted (work ⟨r2, o', log⟩).2 := by
      rw [SoundWith, SoundWith, Sound, Sound, hobject, hlog']
    have hstart : (Built.mk r2 o' log).Sound := hlog
    refine hsame.trans ((emevdEventsLoop_settled hstart rfl rfl).trans ?_)
    refine forall₂_congr fun k _ => forall₂_congr fun head r' => ?_
    rw [emevdReachesEvent_iff halloc hstep]

/-- What comes after the events leaves them as they are. -/
theorem emevdBuildRest_settled {header : EmevdHeader} {linkedFileCount stringDataSize : Nat}
    {b : Built BinaryReader EmevdObject} :
    SoundWith EmevdObject.Counted ((do
      emevdBuildEvents header
      let linkedFileOffsets ← reading (emevdReadLinkedFiles header linkedFileCount)
      assign fun o => { o with linkedFileOffsets := linkedFileOffsets }
      let stringData ← reading (emevdReadStrings header stringDataSize)
      assign fun o => { o with stringData := stringData } : ConstructM EmevdObject Unit) b).2 ↔
      SoundWith EmevdObject.Counted (emevdBuildEvents header b).2 := by
  rcases h : emevdBuildEvents header b with ⟨e | ⟨⟩, r1, o1, log1⟩
  · rw [bind_error h]
  · rw [bind_ok h]
    rcases hlinked : emevdReadLinkedFiles header linkedFileCount r1 with ⟨e | linked, r2⟩
    · rw [reading_bind_error hlinked]
      rfl
    · rw [reading_bind_ok hlinked, assign_bind_run]
      rcases hstrings : emevdReadStrings header stringDataSize r2 with ⟨e | strings, r3⟩
      · rw [reading_bind_error hstrings]
        rfl
      · rw [reading_bind_ok hstrings, assign_run]
        rfl

/-- An event script, from a fresh object on. -/
theorem emevdBuild_settled (r : BinaryReader) :
    SoundWith EmevdObject.Counted (emevdBuild ⟨r, {}, []⟩).2 ↔
      ∀ header r1, emevdReadHeader r = (.ok header, r1) →
        ¬ header.EventsAbsent r1 ∧ ∀ k < header.eventCount.toInt.toNat, ∀ head r',
          EmevdReachesEvent header r1 k head r' → ¬ head.InstructionsAbsent r' := by
  have hsound : ∀ a ∈ ([] : List Access), a.Valid := by simp
  rw [emevdBuild]
  rcases hheader : emevdReadHeader r with ⟨e | header, r1⟩
  · rw [reading_bind_error hheader]
    exact iff_of_true ⟨hsound, fun i hi => absurd hi (Nat.not_lt_zero i)⟩ fun header r1 h => by cases h
  rw [reading_bind_ok hheader, assign_bind_run]
  have honly : (∀ header' r1', (Except.ok (ε := SfError) header, r1) = (.ok header', r1') →
      ¬ header'.EventsAbsent r1' ∧ ∀ k < header'.eventCount.toInt.toNat, ∀ head r',
        EmevdReachesEvent header' r1' k head r' → ¬ head.InstructionsAbsent r') ↔
      ¬ header.EventsAbsent r1 ∧ ∀ k < header.eventCount.toInt.toNat, ∀ head r',
        EmevdReachesEvent header r1 k head r' → ¬ head.InstructionsAbsent r' :=
    ⟨fun h => h header r1 rfl, fun h header' r1' heq => by cases heq; exact h⟩
  rw [honly]
  by_cases hn : header.eventCount.toInt < 0
  · rw [reading_bind_error (emevdI64ToSize_neg hn r1)]
    refine iff_of_true ⟨hsound, fun i hi => absurd hi (Nat.not_lt_zero i)⟩ ⟨fun h => ?_, fun k hk => ?_⟩
    · have := h.1
      omega
    · omega
  rw [reading_bind_ok (emevdI64ToSize_nonneg (by omega) r1), assign_bind_run]
  -- a failure before the events is one with their number, but without their array
  have hstop (o : EmevdObject) (hcount : o.eventCount = header.eventCount.toInt.toNat) (hevents : o.events = [])
      (hbad : header.linkedFileCount.toInt < 0 ∨ header.stringDataSize.toInt < 0) :
      SoundWith EmevdObject.Counted (⟨r1, o, []⟩ : Built BinaryReader EmevdObject) ↔
        ¬ header.EventsAbsent r1 ∧ ∀ k < header.eventCount.toInt.toNat, ∀ head r',
          EmevdReachesEvent header r1 k head r' → ¬ head.InstructionsAbsent r' := by
    by_cases hsome : 0 < header.eventCount.toInt
    · refine iff_of_false (fun h => ?_) fun h => ?_
      · have hfirst : 0 < o.events.length := (h.2 0 (by change 0 < o.eventCount; omega)).1
        rw [hevents] at hfirst
        exact Nat.lt_irrefl 0 hfirst
      · exact h.1 ⟨hsome, hbad.elim .inl fun h => .inr (.inl h)⟩
    · refine iff_of_true ⟨hsound, fun i hi => ?_⟩ ⟨fun h => hsome h.1, fun k hk => by omega⟩
      change i < o.eventCount at hi
      omega
  by_cases hm : header.linkedFileCount.toInt < 0
  · rw [reading_bind_error (emevdI64ToSize_neg hm r1)]
    exact hstop _ rfl rfl (.inl hm)
  rw [reading_bind_ok (emevdI64ToSize_nonneg (by omega) r1), assign_bind_run]
  by_cases hl : header.stringDataSize.toInt < 0
  · rw [reading_bind_error (emevdI64ToSize_neg hl r1)]
    exact hstop _ rfl rfl (.inr hl)
  rw [reading_bind_ok (emevdI64ToSize_nonneg (by omega) r1), assign_bind_run, emevdBuildRest_settled,
    emevdBuildEvents_settled hsound rfl rfl]
  refine and_congr_left fun _ => not_congr ⟨fun h => ?_, fun h => ?_⟩
  · have := h.1
    exact ⟨by omega, .inr (.inr h)⟩
  · exact (h.2.resolve_left hm).resolve_left hl

/-! ## From memory -/

/-- The reader of a block, when its header has been read. -/
def EmevdReachesHeader (flexible : Bool) (data : List UInt8) (heap : Heap) (header : EmevdHeader) (r : BinaryReader) :
    Prop :=
  (onMemory data false flexible (do
    let _ ← onHeap Heap.alloc
    let header ← emevdReadHeader
    let r ← state
    pure (header, r)) heap).1 = .ok (header, r)

/-- A header with two events and a negative number of linked files. -/
def negativeLinkedFiles : List UInt8 :=
  [0x45, 0x56, 0x44, 0, 0, 0, 0, 0, 0xCC, 0, 0, 0, 84, 0, 0, 0, 2, 0, 0, 0, 84, 0, 0, 0] ++ List.replicate 32 0 ++
    [0xFF, 0xFF, 0xFF, 0xFF] ++ List.replicate 24 0

end SoulsFormats
