import SoulsFormats.Core.Accepted
import SoulsFormats.Core.Tables

set_option autoImplicit false

/-! # What a reader reads wherever it runs

What is read depends on the data, the position and the settings. The allocator decides only whether the reader comes
to an end; the positions that are saved are the caller's. `Alike` compares the runs from two readers that agree in what
counts, of which the second one has an allocator that grants everything. -/

namespace SoulsFormats

open Bytes Fallible

namespace BinaryReader

/-- Two readers at the same place, with the same settings. -/
structure Twin (r r0 : BinaryReader) : Prop where
  stream : r.stream = r0.stream
  inBounds : r0.stream.InBounds
  mode : r.mode = r0.mode
  calm : r0.heap.Calm

variable {α β : Type}

/-- The outcomes of a run and of the one that is granted everything: both succeed with one value, both fail with one
    error, or a request of the first one was refused. -/
inductive Outcomes (m : ReadM α) (r r0 : BinaryReader) : Prop
  | same {a : α} {r1 r2 : BinaryReader} (run : m r = (.ok a, r1)) (run0 : m r0 = (.ok a, r2)) (twin : Twin r1 r2)
      (steps : r1.steps = r.steps) (steps0 : r2.steps = r0.steps) (mem : r2.stream.mem = r0.stream.mem)
      (calm : r.heap.Calm → r1.heap.Calm) : Outcomes m r r0
  | failed {e : SfError} {r1 r2 : BinaryReader} (run : m r = (.error e, r1)) (run0 : m r0 = (.error e, r2)) :
      Outcomes m r r0
  | refused {r1 : BinaryReader} (calm : ¬ r.heap.Calm) (run : m r = (.error .oom, r1)) : Outcomes m r r0

def Alike (m : ReadM α) : Prop := ∀ r r0, Twin r r0 → Outcomes m r r0

variable {m : ReadM α} {f : α → ReadM β}

/-! ## Composition -/

theorem Alike.pure (a : α) : Alike (Pure.pure a) := fun _ _ h => .same rfl rfl h rfl rfl rfl id

theorem Alike.fail (e : SfError) : Alike (Fallible.fail e : ReadM α) := fun _ _ _ => .failed rfl rfl

theorem Alike.bind (hm : Alike m) (hf : ∀ a, Alike (f a)) : Alike (m >>= f) := by
  intro r r0 h
  cases hm r r0 h with
  | refused hcalm hrun => exact .refused hcalm (bind_error hrun f)
  | failed hrun hrun0 => exact .failed (bind_error hrun f) (bind_error hrun0 f)
  | @same a r1 r2 hrun hrun0 htwin hsteps hsteps0 hmem hcalm =>
      cases hf a r1 r2 htwin with
      | refused hcalm' hrun' => exact .refused (fun hc => hcalm' (hcalm hc)) ((bind_ok hrun f).trans hrun')
      | failed hrun' hrun0' => exact .failed ((bind_ok hrun f).trans hrun') ((bind_ok hrun0 f).trans hrun0')
      | same hrun' hrun0' htwin' hsteps' hsteps0' hmem' hcalm' =>
          exact .same ((bind_ok hrun f).trans hrun') ((bind_ok hrun0 f).trans hrun0') htwin' (hsteps'.trans hsteps)
            (hsteps0'.trans hsteps0) (hmem'.trans hmem) fun hc => hcalm' (hcalm hc)

theorem Alike.check (c : Prop) [Decidable c] (e : SfError) : Alike (Fallible.check c e) := by
  unfold Fallible.check
  split
  · exact Alike.pure ()
  · exact Alike.fail e

theorem Alike.ite {c : Prop} [Decidable c] {m' : ReadM α} (hm : Alike m) (hm' : Alike m') :
    Alike (if c then m else m') := by
  split
  · exact hm
  · exact hm'

theorem Alike.given {c : Bool} {d : α} (hm : Alike m) : Alike (Fallible.given c d m) := Alike.ite hm (Alike.pure d)

/-- A computation that looks at a setting. -/
theorem Alike.state {f : BinaryReader → ReadM β} (g : Mode → ReadM β) (hfg : ∀ r, f r = g r.mode)
    (hg : ∀ M, Alike (g M)) : Alike (Fallible.state >>= f) := by
  intro r r0 h
  have hrun (s : BinaryReader) : (Fallible.state >>= f) s = g s.mode s := by rw [state_bind_run, hfg]
  have houtcomes := hg r.mode r r0 h
  cases houtcomes with
  | refused hcalm hrun' => exact .refused hcalm ((hrun r).trans hrun')
  | failed hrun' hrun0 => exact .failed ((hrun r).trans hrun') ((hrun r0).trans (by rw [← h.mode]; exact hrun0))
  | same hrun' hrun0 htwin hsteps hsteps0 hmem hcalm =>
      exact .same ((hrun r).trans hrun') ((hrun r0).trans (by rw [← h.mode]; exact hrun0)) htwin hsteps hsteps0 hmem
        hcalm

/-! ## Operations -/

theorem alike_onStream {op : Fallible IStream SfError α} (hop : ∀ mem, Keeps (IStream.SameData mem) op) :
    Alike (onStream op) := by
  intro r r0 h
  have hstream := hop r0.stream.mem r0.stream ⟨rfl, h.inBounds⟩
  rcases hrun : op r0.stream with ⟨e | a, s⟩
  · exact .failed (by rw [onStream, zoom_run, h.stream, hrun]) (by rw [onStream, zoom_run, hrun])
  · rw [hrun] at hstream
    have h1 : onStream op r = (.ok a, { r with stream := s }) := by rw [onStream, zoom_run, h.stream, hrun]
    have h0 : onStream op r0 = (.ok a, { r0 with stream := s }) := by rw [onStream, zoom_run, hrun]
    exact .same h1 h0 ⟨rfl, hstream.2, h.mode, h.calm⟩ rfl rfl hstream.1 id

theorem alike_alloc {f : List UInt8 → ReadM β} (hf : ∀ junk junk' r r0, Twin r r0 → f junk r0 = f junk' r0 ∧
    Outcomes (f junk) r r0) : Alike (onHeap Heap.alloc >>= f) := by
  intro r r0 h
  obtain ⟨junk', heap', halloc', hcalm'⟩ := Heap.alloc_calm h.calm
  have hrun0 : onHeap Heap.alloc r0 = (.ok junk', { r0 with heap := heap' }) := by rw [onHeap, zoom_run, halloc']
  rcases halloc : Heap.alloc r.heap with ⟨e | junk, heap⟩
  · obtain ⟨rfl, hrefused⟩ := Heap.alloc_error halloc
    have hrun : onHeap Heap.alloc r = (.error .oom, { r with heap := heap }) := by rw [onHeap, zoom_run, halloc]
    exact .refused hrefused (bind_error hrun f)
  · have hrun : onHeap Heap.alloc r = (.ok junk, { r with heap := heap }) := by rw [onHeap, zoom_run, halloc]
    have hcalm : r.heap.Calm → heap.Calm := by
      intro hc
      have hkeeps := Heap.alloc_keeps r.heap hc
      rwa [halloc] at hkeeps
    have htwin : Twin { r with heap := heap } { r0 with heap := heap' } := ⟨h.stream, h.inBounds, h.mode, hcalm'⟩
    obtain ⟨hjunk, houtcomes⟩ := hf junk junk' _ _ htwin
    have h1 := bind_ok hrun f
    have h0 := (bind_ok hrun0 f).trans hjunk.symm
    cases houtcomes with
    | refused hc hrun' => exact .refused (fun hr => hc (hcalm hr)) (h1.trans hrun')
    | failed hrun' hrun0' => exact .failed (h1.trans hrun') (h0.trans hrun0')
    | same hrun' hrun0' htwin' hsteps hsteps0 hmem hc =>
        exact .same (h1.trans hrun') (h0.trans hrun0') htwin' hsteps hsteps0 hmem fun hr => hc (hcalm hr)

/-- A block whose contents are not looked at. -/
theorem Alike.alloc {m : ReadM β} (hm : Alike m) : Alike (onHeap Heap.alloc >>= fun _ => m) :=
  alike_alloc fun _ _ r r0 h => ⟨rfl, hm r r0 h⟩

theorem alike_readBytes (n : Nat) : Alike (readBytes n) := alike_onStream fun mem => IStream.read_keeps mem n

theorem alike_defineReadInt (n : Nat) : Alike (defineReadInt n) := by
  refine (alike_readBytes n).bind fun bs => ?_
  exact Alike.state (fun M => Pure.pure (if M.bigEndian then bswap n (leNat bs) else leNat bs)) (fun _ => rfl)
    fun _ => Alike.pure _

theorem alike_readU32 : Alike readU32 := (alike_defineReadInt 4).bind fun _ => Alike.pure _

theorem alike_readI32 : Alike readI32 := alike_readU32.bind fun _ => Alike.pure _

theorem alike_defineReadArrayRaw (size n : Nat) : Alike (defineReadArrayRaw size n) := by
  refine Alike.ite (Alike.pure _) ((Alike.check _ _).bind fun _ => (alike_readBytes _).bind fun bs => ?_)
  exact Alike.state
    (fun M => Pure.pure (if M.bigEndian then (hostWords size n bs).map (bswap size) else hostWords size n bs))
    (fun _ => rfl) fun _ => Alike.pure _

theorem alike_readI32s (n : Nat) : Alike (readI32s n) := (alike_defineReadArrayRaw 4 n).bind fun _ => Alike.pure _

theorem Alike.defineAssertMulti [DecidableEq α] {read : ReadM α} (hread : Alike read) (options : List α) :
    Alike (defineAssertMulti read options) := by
  refine (Alike.check _ _).bind fun _ => hread.bind fun v => ?_
  refine Alike.state (fun M => if M.isFlexible then Pure.pure v
    else do
      Fallible.check (v ∈ options) SfError.badMagic
      Pure.pure v) (fun _ => rfl) fun M => ?_
  exact Alike.ite (Alike.pure _) ((Alike.check _ _).bind fun _ => Alike.pure _)

theorem alike_assertI32 (options : List Int32) : Alike (assertI32 options) := alike_readI32.defineAssertMulti options

theorem alike_readEach (hm : Alike m) (n : Nat) : Alike (readEach m n) := by
  induction n with
  | zero => exact Alike.pure _
  | succ n ih => exact hm.bind fun _ => ih.bind fun _ => Alike.pure _

/-! ## Steps -/

/-- The error of a seek to an offset outside the data. -/
def seekError (off : Int) : SfError := if 0 ≤ off then .outOfRange else .invalidArg

/-- How two readers step in: both to the offset, or neither since it is outside the data, or the first is refused the
    room for the position that is saved. -/
inductive StepsIn (off : Int) (r r0 : BinaryReader) : Prop
  | inside {r1 r2 : BinaryReader} (hoff : InRange off r0) (run : stepIn off r = (.ok (), r1))
      (run0 : stepIn off r0 = (.ok (), r2)) (twin : Twin r1 r2)
      (stream : r2.stream = { r0.stream with memPos := off.toNat }) (steps : r1.steps = r.position :: r.steps)
      (steps0 : r2.steps = r0.position :: r0.steps) (calm : r.heap.Calm → r1.heap.Calm) : StepsIn off r r0
  | outside {r1 r2 : BinaryReader} (hoff : ¬ InRange off r0) (run : stepIn off r = (.error (seekError off), r1))
      (run0 : stepIn off r0 = (.error (seekError off), r2)) : StepsIn off r r0
  | refused {r1 : BinaryReader} (calm : ¬ r.heap.Calm) (run : stepIn off r = (.error .oom, r1)) : StepsIn off r r0

/-- Room for a position is refused by the allocator only. -/
theorem stepsPush_run (pos : Nat) (r : BinaryReader) :
    (∃ r1, stepsPush pos r = (.ok (), r1) ∧ r1.stream = r.stream ∧ r1.mode = r.mode ∧ r1.steps = pos :: r.steps ∧
      (r.heap.Calm → r1.heap.Calm)) ∨ ¬ r.heap.Calm ∧ ∃ r1, stepsPush pos r = (.error .oom, r1) := by
  unfold stepsPush
  rw [state_bind_run]
  split
  · rcases halloc : Heap.alloc r.heap with ⟨e | junk, heap⟩
    · obtain ⟨rfl, hrefused⟩ := Heap.alloc_error halloc
      have hrun : onHeap Heap.alloc r = (.error .oom, { r with heap := heap }) := by rw [onHeap, zoom_run, halloc]
      exact Or.inr ⟨hrefused, _, bind_error hrun _⟩
    · have hrun : onHeap Heap.alloc r = (.ok junk, { r with heap := heap }) := by rw [onHeap, zoom_run, halloc]
      refine Or.inl ⟨_, bind_ok hrun _, rfl, rfl, rfl, fun hc => ?_⟩
      have hkeeps := Heap.alloc_keeps r.heap hc
      rwa [halloc] at hkeeps
  · exact Or.inl ⟨_, rfl, rfl, rfl, rfl, id⟩

theorem stepsIn {r r0 : BinaryReader} (h : Twin r r0) (off : Int) : StepsIn off r r0 := by
  have hin (s : BinaryReader) : stepIn off s = (stepsPush s.position >>= fun _ => onStream (IStream.seek off)) s := by
    rw [stepIn, peek_bind_run]
  rcases stepsPush_run r0.position r0 with ⟨r2, hpush0, hstream0, hmode0, hsteps0, hcalm0⟩ | ⟨hcalm, -⟩
  · rcases stepsPush_run r.position r with ⟨r1, hpush, hstream, hmode, hsteps, hcalm⟩ | ⟨hcalm, r1, hpush⟩
    · have hseek := IStream.seek_run off r0.stream
      by_cases hoff : InRange off r0
      · have hle : off ≤ (r0.stream.length : Int) := hoff.2
        rw [if_pos hoff.1, if_pos hle] at hseek
        have h1 : stepIn off r = (.ok (), { r1 with stream := { r0.stream with memPos := off.toNat } }) := by
          rw [hin, bind_ok hpush, onStream, zoom_run, hstream, h.stream, hseek]
        have h0 : stepIn off r0 = (.ok (), { r2 with stream := { r0.stream with memPos := off.toNat } }) := by
          rw [hin, bind_ok hpush0, onStream, zoom_run, hstream0, hseek]
        refine .inside hoff h1 h0 ⟨rfl, ?_, (hmode.trans h.mode).trans hmode0.symm, hcalm0 h.calm⟩ rfl hsteps hsteps0
          hcalm
        have hpos := hoff.1
        simp only [IStream.InBounds, IStream.length] at hle ⊢
        omega
      · have hseek' : IStream.seek off r0.stream = (.error (seekError off), r0.stream) := by
          rw [hseek, seekError]
          split
          · next hpos =>
              have hle : ¬ off ≤ (r0.stream.length : Int) := fun hle => hoff ⟨hpos, hle⟩
              rw [if_neg hle]
          · rfl
        have h1 : stepIn off r = (.error (seekError off), { r1 with stream := r0.stream }) := by
          rw [hin, bind_ok hpush, onStream, zoom_run, hstream, h.stream, hseek']
        have h0 : stepIn off r0 = (.error (seekError off), { r2 with stream := r0.stream }) := by
          rw [hin, bind_ok hpush0, onStream, zoom_run, hstream0, hseek']
        exact .outside hoff h1 h0
    · exact .refused hcalm ((hin r).trans (bind_error hpush _))
  · exact absurd h.calm hcalm

/-- A run between a step in and a step out, whose outcomes `finish` looks at. -/
def between (off : Int) (m : ReadM α) (finish : Except SfError α → Except SfError Unit → ReadM α) : ReadM α := do
  stepIn off
  let e ← attempt m
  let e2 ← attempt stepOut
  finish e e2

section

variable {off : Int} {finish : Except SfError α → Except SfError Unit → ReadM α} {r r1 r3 r4 : BinaryReader}
  {e : SfError} {a : α}

theorem between_not_in (hin : stepIn off r = (.error e, r1)) : between off m finish r = (.error e, r1) := by
  rw [between, bind_error hin]

theorem between_error (herror : ∀ e x, finish (.error e) x = Fallible.fail e) (hin : stepIn off r = (.ok (), r1))
    (hrun : m r1 = (.error e, r3)) : between off m finish r = (.error e, (stepOut r3).2) := by
  rw [between, bind_ok hin, attempt_bind_run, attempt_bind_run, hrun, herror]
  rfl

theorem between_ok (hok : ∀ a, finish (.ok a) (.ok ()) = Pure.pure a) (hin : stepIn off r = (.ok (), r1))
    (hrun : m r1 = (.ok a, r3)) (hout : stepOut r3 = (.ok (), r4)) : between off m finish r = (.ok a, r4) := by
  rw [between, bind_ok hin, attempt_bind_run, attempt_bind_run, hrun, hout, hok]
  rfl

end

theorem Alike.between (hm : Alike m) (off : Int) (finish : Except SfError α → Except SfError Unit → ReadM α)
    (herror : ∀ e x, finish (.error e) x = Fallible.fail e) (hok : ∀ a, finish (.ok a) (.ok ()) = Pure.pure a) :
    Alike (BinaryReader.between off m finish) := by
  intro r r0 h
  cases stepsIn h off with
  | refused hcalm hrun => exact .refused hcalm (between_not_in hrun)
  | outside _ hrun hrun0 => exact .failed (between_not_in hrun) (between_not_in hrun0)
  | @inside r1 r2 hoff hin hin0 htwin hstream hsteps hsteps0 hcalm =>
      cases hm r1 r2 htwin with
      | refused hc hrun => exact .refused (fun hr => hc (hcalm hr)) (between_error herror hin hrun)
      | failed hrun hrun0 => exact .failed (between_error herror hin hrun) (between_error herror hin0 hrun0)
      | @same a r3 r4 hrun hrun0 htwin' hsteps' hsteps0' hmem' hcalm' =>
          -- both readers go back to where they were
          have hmem : r4.stream.mem = r0.stream.mem := by rw [hmem', hstream]
          have hpos : r.position = r0.position := congrArg IStream.memPos h.stream
          have hle : r0.position ≤ r4.length := by
            simp only [BinaryReader.length, IStream.length, hmem]
            exact h.inBounds
          have hle' : r.position ≤ r3.length := by
            rw [hpos, BinaryReader.length, htwin'.stream]
            exact hle
          have hout := stepOut_ok (hsteps'.trans hsteps) hle'
          have hout0 := stepOut_ok (hsteps0'.trans hsteps0) hle
          refine .same (between_ok hok hin hrun hout) (between_ok hok hin0 hrun0 hout0)
            ⟨?_, hle, htwin'.mode, htwin'.calm⟩ rfl rfl hmem fun hr => hcalm' (hcalm hr)
          simp only [htwin'.stream, hpos]

theorem Alike.defineGet (hm : Alike m) (off : Int) : Alike (defineGet off m) := by
  unfold BinaryReader.defineGet
  exact hm.between off _ (fun _ _ => rfl) fun _ => rfl

theorem Alike.steppedIn (hm : Alike m) (off : Int) : Alike (steppedIn off m) := by
  unfold BinaryReader.steppedIn
  exact hm.between off _ (fun _ _ => rfl) fun _ => rfl

theorem alike_readVec3 : Alike readVec3 :=
  alike_readU32.bind fun _ => alike_readU32.bind fun _ => alike_readU32.bind fun _ => Alike.pure _

theorem alike_readI32sAt (count offset : Int32) : Alike (readI32sAt count offset) :=
  Alike.given (Alike.alloc ((alike_readI32s _).defineGet _))

theorem alike_setBigEndian (be : Bool) : Alike (setBigEndian be) := by
  intro r r0 h
  have hmode : ({ r with bigEndian := be } : BinaryReader).mode = { r0 with bigEndian := be }.mode := by
    have := h.mode
    simp only [BinaryReader.mode, Mode.mk.injEq] at this ⊢
    exact ⟨trivial, this.2⟩
  have h1 : setBigEndian be r = (.ok (), { r with bigEndian := be }) := rfl
  have h0 : setBigEndian be r0 = (.ok (), { r0 with bigEndian := be }) := rfl
  exact .same h1 h0 ⟨h.stream, h.inBounds, hmode, h.calm⟩ rfl rfl rfl id

theorem alike_makeRoom (initial count cap : Nat) : Alike (makeRoom initial count cap) :=
  Alike.ite (Alike.alloc (Alike.pure _)) (Alike.pure _)

theorem alike_readAppended {initial : Nat} {m : ReadM Nat → ReadM (α × Nat)} (hm : ∀ room, Alike room → Alike (m room))
    (n count cap : Nat) : Alike (readAppended initial m n count cap) := by
  induction n generalizing count cap with
  | zero => exact Alike.pure _
  | succ n ih => exact (hm _ (alike_makeRoom _ _ _)).bind fun _ => (ih _ _).bind fun _ => Alike.pure _

/-- Whether there is a reader over some data depends on the allocator only. -/
theorem onMemory_cases (data : List UInt8) (be flexible : Bool) (heap : Heap) :
    (∃ heap', ∀ {α : Type} (m : ReadM α),
      (onMemory data be flexible m heap).1 = (m (create data be flexible heap')).1) ∨
    ∀ {α : Type} (m : ReadM α), (onMemory data be flexible m heap).1 = .error .oom := by
  have hmemory {α : Type} (m : ReadM α) : ∃ k : Fallible Heap SfError α,
      onMemory data be flexible m = (do
        let _ ← Heap.alloc
        let _ ← Heap.alloc
        k) ∧ ∀ h, (k h).1 = (m (create data be flexible h)).1 := ⟨_, rfl, fun _ => rfl⟩
  rcases h1 : Heap.alloc heap with ⟨e | x, heap1⟩
  · right
    intro α m
    obtain ⟨k, hk, -⟩ := hmemory m
    obtain ⟨rfl, -⟩ := Heap.alloc_error h1
    rw [hk, bind_error h1]
  rcases h2 : Heap.alloc heap1 with ⟨e | y, heap2⟩
  · right
    intro α m
    obtain ⟨k, hk, -⟩ := hmemory m
    obtain ⟨rfl, -⟩ := Heap.alloc_error h2
    rw [hk, bind_ok h1, bind_error h2]
  · left
    refine ⟨heap2, fun m => ?_⟩
    obtain ⟨k, hk, hrun⟩ := hmemory m
    rw [hk, bind_ok h1, bind_ok h2, hrun]

/-- A reader somewhere in a file, with settings, that is granted everything. -/
structure OnFile (data : List UInt8) (M : Mode) (r : BinaryReader) : Prop where
  mem : r.stream.mem = data
  inBounds : r.stream.InBounds
  mode : r.mode = M
  calm : r.heap.Calm

section

variable {data : List UInt8} {M : Mode} {r r0 : BinaryReader}

theorem OnFile.twin (h : OnFile data M r) : Twin r r := ⟨rfl, h.inBounds, rfl, h.calm⟩

/-- A run that succeeds goes on in the file. -/
theorem OnFile.after [Modeless m] (h : OnFile data M r) (hm : Alike m) {a : α} {r' : BinaryReader}
    (hrun : m r = (.ok a, r')) : OnFile data M r' := by
  have hmode : r'.mode = r.mode := by
    have := Modeless.mode_eq (m := m) r
    rwa [hrun] at this
  cases hm r r h.twin with
  | refused hc _ => exact absurd h.calm hc
  | failed hfail _ =>
      rw [hrun] at hfail
      cases hfail
  | same _ hrun0 htwin _ _ hmem _ =>
      rw [hrun] at hrun0
      cases hrun0
      exact ⟨hmem.trans h.mem, htwin.inBounds, hmode.trans h.mode, htwin.calm⟩

instance : Modeless readVec3 := by
  unfold readVec3
  infer_instance

instance (size n : Nat) : Modeless (defineReadArrayRaw size n) := by
  unfold defineReadArrayRaw
  infer_instance

instance (n : Nat) : Modeless (readI32s n) := by
  unfold readI32s
  infer_instance

instance (count offset : Int32) : Modeless (readI32sAt count offset) := by
  unfold readI32sAt getI32s
  infer_instance

instance (off : Int) [Modeless m] : Modeless (steppedIn off m) := by
  unfold steppedIn
  have hfinish (e : Except SfError α) : Modeless (match e with
      | .ok v => Pure.pure v
      | .error err => Fallible.fail err : ReadM α) := by
    cases e <;> infer_instance
  infer_instance

theorem Modeless.bind {f : α → ReadM β} (hm : Modeless m) (hf : ∀ a, Modeless (f a)) : Modeless (m >>= f) :=
  inferInstance

theorem modeless_readAppended {initial : Nat} {m : ReadM Nat → ReadM (α × Nat)}
    (hm : ∀ room, Modeless room → Modeless (m room)) (n count cap : Nat) :
    Modeless (readAppended initial m n count cap) := by
  have hroom (count cap : Nat) : Modeless (makeRoom initial count cap) := by
    unfold makeRoom
    infer_instance
  induction n generalizing count cap with
  | zero => exact inferInstanceAs (Modeless (Pure.pure _))
  | succ n ih =>
      have hfirst := hm _ (hroom count cap)
      unfold readAppended
      infer_instance

/-- A step-in that succeeds, and the run at the offset. -/
theorem steppedIn_run {r1 : BinaryReader} {off : Int} (hin : stepIn off r = (.ok (), r1)) :
    (steppedIn off m r).1 = (m r1).1 := by
  rw [steppedIn, bind_ok hin, attempt_bind_run, attempt_bind_run]
  rcases (m r1).1 with e | a <;> rfl

/-- A failure comes before what follows it. -/
theorem steppedIn_bind_error {off : Int} {e : SfError} (h : (steppedIn off m r).1 = .error e) (f : α → ReadM β) :
    (steppedIn off (m >>= f) r).1 = .error e := by
  rcases hin : stepIn off r with ⟨e1 | ⟨⟩, r1⟩
  · rw [steppedIn, bind_error hin] at h
    cases h
    rw [steppedIn, bind_error hin]
  · rw [steppedIn_run hin] at h ⊢
    rw [bind_error (Prod.ext h rfl)]

theorem steppedIn_bind_ok [Modeless m] (hm : Alike m) (hr : OnFile data M r) {off : Int} {a : α}
    (h : (steppedIn off m r).1 = .ok a) (f : α → ReadM β) :
    ∃ r1, OnFile data M r1 ∧ (steppedIn off (m >>= f) r).1 = (f a r1).1 := by
  cases stepsIn hr.twin off with
  | refused hc _ => exact absurd hr.calm hc
  | outside _ hrun _ =>
      rw [steppedIn, bind_error hrun] at h
      cases h
  | @inside r1 r2 _ hin hin0 htwin hstream _ _ hcalm =>
      rw [hin] at hin0
      cases hin0
      have hmode : r1.mode = r.mode := by
        have := Modeless.mode_eq (m := stepIn off) r
        rwa [hin] at this
      have hr1 : OnFile data M r1 :=
        ⟨by rw [hstream]; exact hr.mem, htwin.inBounds, hmode.trans hr.mode, htwin.calm⟩
      rw [steppedIn_run hin] at h
      refine ⟨(m r1).2, hr1.after hm (Prod.ext h rfl), ?_⟩
      rw [steppedIn_run hin, bind_ok (Prod.ext h rfl : m r1 = (.ok a, (m r1).2))]

/-- What is read behind a step-in does not depend on where the reader comes from. -/
theorem steppedIn_fst (hm : Alike m) (h : OnFile data M r) (h0 : OnFile data M r0) (off : Int) :
    (steppedIn off m r).1 = (steppedIn off m r0).1 := by
  have hlength : r.length = r0.length := by rw [BinaryReader.length, BinaryReader.length, IStream.length,
    IStream.length, h.mem, h0.mem]
  -- the outcome is that of the run at the offset
  have hinside (s : BinaryReader) (hs : OnFile data M s) (hoff : InRange off s) :
      ∃ s1, OnFile data M s1 ∧ s1.stream = ⟨data, off.toNat⟩ ∧ (steppedIn off m s).1 = (m s1).1 := by
    cases stepsIn hs.twin off with
    | refused hc _ => exact absurd hs.calm hc
    | outside hout _ _ => exact absurd hoff hout
    | @inside r1 r2 _ hin hin0 htwin hstream hsteps _ hcalm =>
        rw [hin] at hin0
        cases hin0
        have hmode : r1.mode = s.mode := by
          have := Modeless.mode_eq (m := stepIn off) s
          rwa [hin] at this
        refine ⟨r1, ⟨by rw [hstream]; exact hs.mem, htwin.inBounds, hmode.trans hs.mode, htwin.calm⟩,
          by rw [hstream, ← hs.mem], steppedIn_run hin⟩
  by_cases hoff : InRange off r
  · have hoff0 : InRange off r0 := ⟨hoff.1, by rw [← hlength]; exact hoff.2⟩
    obtain ⟨s1, hs1, hstream1, hout1⟩ := hinside r h hoff
    obtain ⟨s2, hs2, hstream2, hout2⟩ := hinside r0 h0 hoff0
    rw [hout1, hout2]
    have htwin : Twin s1 s2 := ⟨hstream1.trans hstream2.symm, hs2.inBounds, hs1.mode.trans hs2.mode.symm, hs2.calm⟩
    cases hm s1 s2 htwin with
    | refused hc _ => exact absurd hs1.calm hc
    | failed hrun hrun0 => rw [hrun, hrun0]
    | same hrun hrun0 _ _ _ _ _ => rw [hrun, hrun0]
  · have hoff0 : ¬ InRange off r0 := fun ho => hoff ⟨ho.1, by rw [hlength]; exact ho.2⟩
    have houtside (s : BinaryReader) (hs : OnFile data M s) (ho : ¬ InRange off s) :
        (steppedIn off m s).1 = .error (seekError off) := by
      cases stepsIn hs.twin off with
      | refused hc _ => exact absurd hs.calm hc
      | inside hin _ _ _ _ _ _ _ => exact absurd hin ho
      | outside _ hrun _ => rw [BinaryReader.steppedIn, bind_error hrun]
    rw [houtside r h hoff, houtside r0 h0 hoff0]

end

end BinaryReader

end SoulsFormats
