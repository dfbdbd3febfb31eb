import SoulsFormats.Core.BinaryReader

set_option autoImplicit false

/-! # What a getter leaves behind

A `get` steps in, reads and steps out, so its caller expects position and step stack to be as they
were. That holds whatever the read does, success or failure; what breaks it is a step-in whose seek
is refused, since the getter then leaves at once and the position it saved stays on the stack. The
exact condition is `Transparent`; `calls_steps` carries it to whole runs of calls, where it says that
every step-out returns to the position its own step-in saved. -/

namespace SoulsFormats

open Bytes Fallible

namespace BinaryReader

/-! ## Frames -/

/-- The data and the saved positions of a reader, and a position inside the data. -/
def Frame (mem : List UInt8) (steps : List Nat) (r : BinaryReader) : Prop :=
  r.stream.SameData mem ∧ r.steps = steps

variable {mem : List UInt8} {steps : List Nat} {α β : Type}

theorem onStream_frame {m : Fallible IStream SfError α} (hm : Keeps (IStream.SameData mem) m) :
    Keeps (Frame mem steps) (onStream m) :=
  Keeps.zoom hm (fun _ hr => hr.1) (fun _ _ hr ht => ⟨ht, hr.2⟩)

theorem onHeap_frame (m : Fallible Heap SfError α) : Keeps (Frame mem steps) (onHeap m) :=
  fun _ hr => hr

theorem readBytes_frame (n : Nat) : Keeps (Frame mem steps) (readBytes n) :=
  onStream_frame (IStream.read_keeps mem n)

theorem seek_frame (pos : Int) : Keeps (Frame mem steps) (onStream (IStream.seek pos)) :=
  onStream_frame (IStream.seek_keeps mem pos)

theorem map_frame {m : ReadM α} (hm : Keeps (Frame mem steps) m) (f : α → β) :
    Keeps (Frame mem steps) (do let a ← m; pure (f a)) :=
  hm.bind fun _ => Keeps.pure _

theorem defineReadInt_frame (n : Nat) : Keeps (Frame mem steps) (defineReadInt n) :=
  (readBytes_frame n).bind fun _ => Keeps.state.bind fun _ => Keeps.pure _

theorem readBool_frame : Keeps (Frame mem steps) readBool :=
  (map_frame (readBytes_frame 1) _).bind fun _ => (Keeps.check _ _).bind fun _ => Keeps.pure _

theorem readU16_frame : Keeps (Frame mem steps) readU16 := map_frame (defineReadInt_frame 2) _

theorem readU32_frame : Keeps (Frame mem steps) readU32 := map_frame (defineReadInt_frame 4) _

theorem readU64_frame : Keeps (Frame mem steps) readU64 := map_frame (defineReadInt_frame 8) _

theorem readVarint_frame : Keeps (Frame mem steps) readVarint := by
  refine Keeps.state.bind fun r => Keeps.ite (fun _ => ?_) (fun _ => ?_)
  · exact map_frame readU64_frame _
  · exact map_frame (map_frame readU32_frame _) _

theorem readEach_frame {m : ReadM α} (hm : Keeps (Frame mem steps) m) (n : Nat) :
    Keeps (Frame mem steps) (readEach m n) := by
  induction n with
  | zero => exact Keeps.pure _
  | succ n ih => exact hm.bind fun _ => ih.bind fun _ => Keeps.pure _

theorem defineReadArrayRaw_frame (size n : Nat) :
    Keeps (Frame mem steps) (defineReadArrayRaw size n) := by
  refine Keeps.ite (fun _ => Keeps.pure _) (fun _ => ?_)
  refine (Keeps.check _ _).bind fun _ => (readBytes_frame _).bind fun _ => ?_
  exact Keeps.state.bind fun _ => Keeps.pure _

theorem defineEnumRead_frame [DecidableEq α] {read : ReadM α} (hread : Keeps (Frame mem steps) read)
    (options : List α) : Keeps (Frame mem steps) (defineEnumRead read options) :=
  (Keeps.check _ _).bind fun _ => hread.bind fun _ => (Keeps.check _ _).bind fun _ => Keeps.pure _

theorem defineAssertMulti_frame [DecidableEq α] {read : ReadM α}
    (hread : Keeps (Frame mem steps) read) (options : List α) :
    Keeps (Frame mem steps) (defineAssertMulti read options) := by
  refine (Keeps.check _ _).bind fun _ => hread.bind fun _ => Keeps.state.bind fun _ => ?_
  exact Keeps.ite (fun _ => Keeps.pure _) fun _ => (Keeps.check _ _).bind fun _ => Keeps.pure _

theorem assertChunks_frame (pattern : UInt8) (chunks : List Nat) :
    Keeps (Frame mem steps) (assertChunks pattern chunks) := by
  induction chunks with
  | nil => exact Keeps.pure _
  | cons chunk rest ih =>
      exact (readBytes_frame chunk).bind fun _ => (Keeps.check _ _).bind fun _ => ih

theorem assertAscii_frame (expected : List UInt8) :
    Keeps (Frame mem steps) (assertAscii expected) := by
  have hrest : Keeps (Frame mem steps) (do
      let buf ← readBytes expected.length
      check (buf = expected) .badMagic) :=
    (readBytes_frame _).bind fun _ => Keeps.check _ _
  exact Keeps.ite (fun _ => (onHeap_frame _).bind fun _ => hrest) (fun _ => hrest)

theorem readTerminated_frame (width fuel cap : Nat) (buf : List UInt8) :
    Keeps (Frame mem steps) (readTerminated width fuel cap buf) := by
  induction fuel generalizing cap buf with
  | zero => exact Keeps.fail _
  | succ fuel ih =>
      refine (readBytes_frame width).bind fun unit => Keeps.ite (fun _ => Keeps.pure _) fun _ => ?_
      exact Keeps.ite (fun _ => (onHeap_frame _).bind fun _ => ih _ _) fun _ => ih _ _

theorem readStrTerminated_frame (width : Nat) (decode : Bool → Decode) :
    Keeps (Frame mem steps) (readStrTerminated width decode) := by
  refine (onHeap_frame _).bind fun _ => Keeps.state.bind fun r => ?_
  exact (readTerminated_frame width _ _ _).bind fun _ => onHeap_frame _

theorem readStrN_frame (n : Nat) (decode : Decode) : Keeps (Frame mem steps) (readStrN n decode) := by
  refine Keeps.ite (fun _ => onHeap_frame _) fun _ => ?_
  exact (onHeap_frame _).bind fun _ => (readBytes_frame n).bind fun _ => onHeap_frame _

theorem readFixStr_frame (os : Win32) (size : Nat) :
    Keeps (Frame mem steps) (readFixStr os size) := by
  refine Keeps.ite (fun _ => onHeap_frame _) fun _ => ?_
  exact (onHeap_frame _).bind fun _ => (readBytes_frame size).bind fun _ => onHeap_frame _

theorem readFixStrW_frame (os : Win32) (size : Nat) :
    Keeps (Frame mem steps) (readFixStrW os size) := by
  refine Keeps.ite (fun _ => onHeap_frame _) fun _ => ?_
  refine (onHeap_frame _).bind fun _ => (readBytes_frame size).bind fun _ => ?_
  exact Keeps.state.bind fun _ => onHeap_frame _

theorem pad_frame (align : Int) : Keeps (Frame mem steps) (pad align) := by
  refine (Keeps.check _ _).bind fun _ => (Keeps.peek _).bind fun _ => ?_
  exact Keeps.ite (fun _ => Keeps.pure _) fun _ => seek_frame _

theorem padRelative_frame (start align : Int) : Keeps (Frame mem steps) (padRelative start align) := by
  refine (Keeps.check _ _).bind fun _ => (Keeps.peek _).bind fun _ => ?_
  exact (Keeps.check _ _).bind fun _ => Keeps.ite (fun _ => Keeps.pure _) fun _ => seek_frame _

theorem skip_frame (n : Int) : Keeps (Frame mem steps) (skip n) :=
  (Keeps.peek _).bind fun _ => seek_frame _

/-- No read touches the saved positions or leaves the data, whether it succeeds or fails. -/
theorem ReadCall.read_frame (os : Win32) (c : ReadCall) : Keeps (Frame mem steps) (c.read os) := by
  cases c with
  | scalar k =>
      cases k
      case bool => exact readBool_frame
      case i8 => exact map_frame (map_frame (readBytes_frame 1) _) _
      case u8 => exact map_frame (readBytes_frame 1) _
      case i16 => exact map_frame readU16_frame _
      case u16 => exact readU16_frame
      case u32 => exact readU32_frame
      case i32 => exact map_frame readU32_frame _
      case u64 => exact readU64_frame
      case i64 => exact map_frame readU64_frame _
      case f32 => exact readU32_frame
      case f64 => exact readU64_frame
      case varint => exact readVarint_frame
  | array k n =>
      cases k
      case bool => exact readEach_frame readBool_frame n
      case i8 => exact Keeps.ite (fun _ => Keeps.pure _) fun _ => map_frame (readBytes_frame n) _
      case u8 => exact Keeps.ite (fun _ => Keeps.pure _) fun _ => readBytes_frame n
      case varint => exact readEach_frame readVarint_frame n
      all_goals exact map_frame (defineReadArrayRaw_frame _ n) _
  | bytes n => exact readBytes_frame n
  | enum8 options => exact defineEnumRead_frame (map_frame (readBytes_frame 1) _) options
  | enum16 options => exact defineEnumRead_frame readU16_frame options
  | enum32 options => exact defineEnumRead_frame readU32_frame options
  | enum64 options => exact defineEnumRead_frame readU64_frame options
  | ascii => exact readStrTerminated_frame 1 _
  | asciiN n => exact readStrN_frame n _
  | shiftJis => exact readStrTerminated_frame 1 _
  | shiftJisN n => exact readStrN_frame n _
  | utf16 => exact readStrTerminated_frame 2 _

/-! ## The getters -/

/-- The step stack is full and the allocator refuses a larger one. -/
def PushRefused (r : BinaryReader) : Prop := r.steps.length = r.stepsCap ∧ ¬ r.heap.Grants

instance (r : BinaryReader) : Decidable r.PushRefused := by
  unfold PushRefused
  infer_instance

/-- The offset lies inside the data, its end included. -/
def InRange (off : Int) (r : BinaryReader) : Prop := 0 ≤ off ∧ off ≤ r.length

instance (off : Int) (r : BinaryReader) : Decidable (InRange off r) := by
  unfold InRange
  infer_instance

/-- The arguments an enum getter turns away before it steps in. -/
def ReadCall.Rejected : ReadCall → Prop
  | enum8 options => options = []
  | enum16 options => options = []
  | enum32 options => options = []
  | enum64 options => options = []
  | _ => False

instance (c : ReadCall) : Decidable c.Rejected := by
  cases c <;> unfold ReadCall.Rejected <;> infer_instance

/-- The condition under which a getter leaves position and steps as they were. -/
def ReadCall.Harmless (c : ReadCall) (off : Int) (r : BinaryReader) : Prop :=
  c.Rejected ∨ r.PushRefused ∨ InRange off r

instance (c : ReadCall) (off : Int) (r : BinaryReader) : Decidable (c.Harmless off r) := by
  unfold ReadCall.Harmless
  infer_instance

theorem defineGetEnum_eq (off : Int) (readEnum : List α → ReadM α) (options : List α) :
    defineGetEnum off readEnum options
      = if options = [] then fail .invalidArg else defineGet off (readEnum options) := by
  cases options with
  | nil => rfl
  | cons o rest =>
      funext r
      have hlen : 0 < (o :: rest).length := Nat.succ_pos _
      rw [defineGetEnum, check_bind_pos hlen, if_neg (List.cons_ne_nil o rest)]

/-- Every getter is the macro's body around the read of the same name. -/
theorem ReadCall.get_eq (os : Win32) (off : Int) (c : ReadCall) :
    c.get os off = if c.Rejected then fail .invalidArg else defineGet off (c.read os) := by
  cases c with
  | scalar k => cases k <;> rfl
  | array k n => cases k <;> rfl
  | enum8 options => exact (defineGetEnum_eq off readEnum8 options).trans (by congr)
  | enum16 options => exact (defineGetEnum_eq off readEnum16 options).trans (by congr)
  | enum32 options => exact (defineGetEnum_eq off readEnum32 options).trans (by congr)
  | enum64 options => exact (defineGetEnum_eq off readEnum64 options).trans (by congr)
  | _ => rfl

theorem stepsPush_refused {r : BinaryReader} (h : r.PushRefused) (pos : Nat) :
    ∃ e r', stepsPush pos r = (.error e, r') ∧ r'.stream = r.stream ∧ r'.steps = r.steps := by
  have halloc : onHeap Heap.alloc r = (.error .oom, { r with heap := (Heap.alloc r.heap).2 }) := by
    rw [onHeap, zoom_run, Heap.alloc_of_not_grants h.2]
  refine ⟨.oom, { r with heap := (Heap.alloc r.heap).2 }, ?_, rfl, rfl⟩
  rw [stepsPush, state_bind_run, if_pos h.1, bind_error halloc]

theorem stepsPush_ok {r : BinaryReader} (h : ¬ r.PushRefused) (pos : Nat) :
    ∃ r', stepsPush pos r = (.ok (), r') ∧ r'.stream = r.stream ∧ r'.steps = pos :: r.steps := by
  by_cases hfull : r.steps.length = r.stepsCap
  · have hgrants : r.heap.Grants := by
      by_contra hg
      exact h ⟨hfull, hg⟩
    obtain ⟨junk, hjunk⟩ := Heap.alloc_of_grants hgrants
    have halloc : onHeap Heap.alloc r = (.ok junk, { r with heap := (Heap.alloc r.heap).2 }) := by
      rw [onHeap, zoom_run, hjunk]
    rw [stepsPush, state_bind_run, if_pos hfull, bind_ok halloc]
    exact ⟨_, rfl, rfl, rfl⟩
  · rw [stepsPush, state_bind_run, if_neg hfull]
    exact ⟨_, rfl, rfl, rfl⟩

/-- A step-in to an offset inside the data saves the position and moves. -/
theorem stepIn_inRange {r : BinaryReader} (h : ¬ r.PushRefused) {off : Int} (hoff : InRange off r) :
    ∃ r', stepIn off r = (.ok (), r') ∧ r'.stream = { r.stream with memPos := off.toNat } ∧
      r'.steps = r.position :: r.steps := by
  obtain ⟨r1, hpush, hstream, hsteps⟩ := stepsPush_ok h r.position
  refine ⟨{ r1 with stream := { r.stream with memPos := off.toNat } }, ?_, rfl, hsteps⟩
  have hle : off ≤ (r.stream.length : Int) := hoff.2
  have hseek : IStream.seek off r1.stream = (.ok (), { r.stream with memPos := off.toNat }) := by
    rw [hstream, IStream.seek_run, if_pos hoff.1, if_pos hle]
  rw [stepIn, peek_bind_run, bind_ok hpush, onStream, zoom_run, hseek]

/-- A step-in to an offset outside the data saves the position and fails. -/
theorem stepIn_outside {r : BinaryReader} (h : ¬ r.PushRefused) {off : Int} (hoff : ¬ InRange off r) :
    ∃ e r', stepIn off r = (.error e, r') ∧ r'.stream = r.stream ∧
      r'.steps = r.position :: r.steps := by
  obtain ⟨r1, hpush, hstream, hsteps⟩ := stepsPush_ok h r.position
  obtain ⟨e, hseek⟩ : ∃ e, IStream.seek off r1.stream = (.error e, r1.stream) :=
    IStream.seek_out (by rwa [hstream])
  refine ⟨e, r1, ?_, hstream, hsteps⟩
  rw [stepIn, peek_bind_run, bind_ok hpush, onStream, zoom_run, hseek]

theorem stepIn_refused {r : BinaryReader} (h : r.PushRefused) (off : Int) :
    ∃ e r', stepIn off r = (.error e, r') ∧ r'.stream = r.stream ∧ r'.steps = r.steps := by
  obtain ⟨e, r1, hpush, hstream, hsteps⟩ := stepsPush_refused h r.position
  exact ⟨e, r1, by rw [stepIn, peek_bind_run, bind_error hpush], hstream, hsteps⟩

/-- A step-out to a position inside the data removes it from the stack and moves there. -/
theorem stepOut_ok {r : BinaryReader} {pos : Nat} {rest : List Nat} (hsteps : r.steps = pos :: rest)
    (hpos : pos ≤ r.length) :
    stepOut r = (.ok (), { r with steps := rest, stream := { r.stream with memPos := pos } }) := by
  rw [stepOut, state_bind_run, hsteps]
  simp only [update_bind_run, onStream, zoom_run]
  rw [IStream.seek_ok hpos]

theorem defineGet_run {read : ReadM α} {off : Int} {r r1 : BinaryReader}
    (hin : stepIn off r = (.ok (), r1)) :
    (defineGet off read r).2 = (stepOut (read r1).2).2 := by
  rw [defineGet, bind_ok hin, attempt_bind_run, attempt_bind_run]
  rcases (read r1).1 with e | v
  · rfl
  · rcases (stepOut (read r1).2).1 with e | u
    · rfl
    · rfl

/-- A getter whose step-in is refused by the allocator, or not at all, leaves the stream and the steps
    as they were: the step-out undoes the step-in whatever the read did in between. -/
theorem defineGet_transparent {read : ReadM α} {off : Int} {r : BinaryReader}
    (hread : ∀ mem steps, Keeps (Frame mem steps) read) (hr : r.stream.InBounds)
    (h : r.PushRefused ∨ InRange off r) :
    (defineGet off read r).2.stream = r.stream ∧ (defineGet off read r).2.steps = r.steps := by
  by_cases hpush : r.PushRefused
  · obtain ⟨e, r1, hin, hstream, hsteps⟩ := stepIn_refused hpush off
    rw [defineGet, bind_error hin]
    exact ⟨hstream, hsteps⟩
  · have hoff := h.resolve_left hpush
    obtain ⟨r1, hin, hstream, hsteps⟩ := stepIn_inRange hpush hoff
    have hframe : Frame r.stream.mem (r.position :: r.steps) r1 := by
      refine ⟨⟨by rw [hstream], ?_⟩, hsteps⟩
      have hle : off ≤ (r.stream.length : Int) := hoff.2
      have h0 : 0 ≤ off := hoff.1
      simp only [IStream.InBounds, IStream.length, hstream] at hle ⊢
      omega
    obtain ⟨⟨hmem2, hin2⟩, hsteps2⟩ := hread _ _ r1 hframe
    have hlen : r.position ≤ (read r1).2.length := by
      simp only [BinaryReader.length, IStream.length, hmem2]
      exact hr
    rw [defineGet_run hin, stepOut_ok hsteps2 hlen]
    refine ⟨?_, rfl⟩
    have hback : ({ mem := (read r1).2.stream.mem, memPos := r.position } : IStream) = r.stream := by
      rw [hmem2]
      rfl
    exact hback

/-- A getter whose seek is refused leaves the position it saved on the stack. -/
theorem defineGet_leak {read : ReadM α} {off : Int} {r : BinaryReader} (hpush : ¬ r.PushRefused)
    (hoff : ¬ InRange off r) :
    (defineGet off read r).2.stream = r.stream ∧
      (defineGet off read r).2.steps = r.position :: r.steps := by
  obtain ⟨e, r1, hin, hstream, hsteps⟩ := stepIn_outside hpush hoff
  rw [defineGet, bind_error hin]
  exact ⟨hstream, hsteps⟩

theorem ReadCall.get_transparent (os : Win32) {c : ReadCall} {off : Int} {r : BinaryReader}
    (hr : r.stream.InBounds) (h : c.Harmless off r) :
    (c.get os off r).2.stream = r.stream ∧ (c.get os off r).2.steps = r.steps := by
  rw [ReadCall.get_eq]
  by_cases hrej : c.Rejected
  · rw [if_pos hrej]
    exact ⟨rfl, rfl⟩
  · rw [if_neg hrej]
    exact defineGet_transparent (fun _ _ => ReadCall.read_frame os c) hr (h.resolve_left hrej)

theorem ReadCall.get_leak (os : Win32) {c : ReadCall} {off : Int} {r : BinaryReader}
    (h : ¬ c.Harmless off r) :
    (c.get os off r).2.stream = r.stream ∧ (c.get os off r).2.steps = r.position :: r.steps := by
  simp only [ReadCall.Harmless, not_or] at h
  rw [ReadCall.get_eq, if_neg h.1]
  exact defineGet_leak h.2.1 h.2.2

/-! ## Runs of calls -/

/-- A call to a function of the reader. The functions missing here (arrays of vectors, colours and
    the like) are sequences of these. -/
inductive ReaderCall where
  | get (c : ReadCall) (off : Int)
  | read (c : ReadCall)
  | fixStr (size : Nat)
  | fixStrW (size : Nat)
  | assertU8 (options : List UInt8)
  | assertBool (options : List Bool)
  | assertI16 (options : List Int16)
  | assertI32 (options : List Int32)
  | assertVarint (options : List Int64)
  | assertPattern (length : Nat) (pattern : UInt8)
  | assertAscii (expected : List UInt8)
  | stepIn (pos : Int)
  | stepOut
  | pad (align : Int)
  | padRelative (start align : Int)
  | skip (n : Int)
  | seek (pos : Int)
  | setBigEndian (be : Bool)
  | setVarintLong (long64 : Bool)
deriving DecidableEq, Repr

/-- The reader after a call, whether the call succeeded or failed. -/
def ReaderCall.next (os : Win32) (r : BinaryReader) : ReaderCall → BinaryReader
  | get c off => (c.get os off r).2
  | read c => (c.read os r).2
  | fixStr size => (readFixStr os size r).2
  | fixStrW size => (readFixStrW os size r).2
  | assertU8 options => (BinaryReader.assertU8 options r).2
  | assertBool options => (BinaryReader.assertBool options r).2
  | assertI16 options => (BinaryReader.assertI16 options r).2
  | assertI32 options => (BinaryReader.assertI32 options r).2
  | assertVarint options => (BinaryReader.assertVarint options r).2
  | assertPattern length pattern => (BinaryReader.assertPattern length pattern r).2
  | assertAscii expected => (BinaryReader.assertAscii expected r).2
  | stepIn pos => (BinaryReader.stepIn pos r).2
  | stepOut => (BinaryReader.stepOut r).2
  | pad align => (BinaryReader.pad align r).2
  | padRelative start align => (BinaryReader.padRelative start align r).2
  | skip n => (BinaryReader.skip n r).2
  | seek pos => (onStream (IStream.seek pos) r).2
  | setBigEndian be => (BinaryReader.setBigEndian be r).2
  | setVarintLong long64 => (BinaryReader.setVarintLong long64 r).2

/-- The reader after a list of calls. -/
def calls (os : Win32) : List ReaderCall → BinaryReader → BinaryReader
  | [], r => r
  | c :: rest, r => calls os rest (c.next os r)

/-- The stack as a caller keeps it who counts only its own step-ins and step-outs. A step-in counts
    unless the allocator has refused the entry. -/
def ReaderCall.ownSteps (r : BinaryReader) (stack : List Nat) : ReaderCall → List Nat
  | stepIn _ => if r.PushRefused then stack else r.position :: stack
  | stepOut => stack.tail
  | _ => stack

/-- `ReaderCall.ownSteps` over a list of calls. -/
def ownSteps (os : Win32) : List ReaderCall → BinaryReader → List Nat → List Nat
  | [], _, stack => stack
  | c :: rest, r, stack => ownSteps os rest (c.next os r) (c.ownSteps r stack)

/-- Every getter among the calls is harmless where it is made. -/
def Harmless (os : Win32) : List ReaderCall → BinaryReader → Prop
  | [], _ => True
  | c :: rest, r => (∀ g off, c = .get g off → g.Harmless off r) ∧ Harmless os rest (c.next os r)

/-- The position and every saved position lie inside the data. -/
def InBounds (r : BinaryReader) : Prop :=
  r.stream.InBounds ∧ ∀ pos ∈ r.steps, pos ≤ r.length

/-- The calls whose own effect on the stack is none. -/
def ReaderCall.KeepsSteps : ReaderCall → Prop
  | get _ _ => False
  | stepIn _ => False
  | stepOut => False
  | _ => True

theorem ReaderCall.next_frame (os : Win32) {c : ReaderCall} (hc : c.KeepsSteps) {r : BinaryReader}
    (hr : Frame mem steps r) : Frame mem steps (c.next os r) := by
  cases c with
  | get c off => exact hc.elim
  | read c => exact ReadCall.read_frame os c r hr
  | fixStr size => exact readFixStr_frame os size r hr
  | fixStrW size => exact readFixStrW_frame os size r hr
  | assertU8 options => exact defineAssertMulti_frame (map_frame (readBytes_frame 1) _) options r hr
  | assertBool options => exact defineAssertMulti_frame readBool_frame options r hr
  | assertI16 options => exact defineAssertMulti_frame (map_frame readU16_frame _) options r hr
  | assertI32 options => exact defineAssertMulti_frame (map_frame readU32_frame _) options r hr
  | assertVarint options => exact defineAssertMulti_frame readVarint_frame options r hr
  | assertPattern length pattern => exact assertChunks_frame pattern _ r hr
  | assertAscii expected => exact assertAscii_frame expected r hr
  | stepIn pos => exact hc.elim
  | stepOut => exact hc.elim
  | pad align => exact pad_frame align r hr
  | padRelative start align => exact padRelative_frame start align r hr
  | skip n => exact skip_frame n r hr
  | seek pos => exact seek_frame pos r hr
  | setBigEndian be => exact hr
  | setVarintLong long64 => exact hr

theorem stepIn_stream_steps (off : Int) (r : BinaryReader) (hr : r.stream.InBounds) :
    (stepIn off r).2.stream.SameData r.stream.mem ∧
      (stepIn off r).2.steps = if r.PushRefused then r.steps else r.position :: r.steps := by
  by_cases hpush : r.PushRefused
  · obtain ⟨e, r1, hin, hstream, hsteps⟩ := stepIn_refused hpush off
    rw [hin, if_pos hpush, hstream]
    exact ⟨⟨rfl, hr⟩, hsteps⟩
  · rw [if_neg hpush]
    by_cases hoff : InRange off r
    · obtain ⟨r1, hin, hstream, hsteps⟩ := stepIn_inRange hpush hoff
      rw [hin, hstream]
      refine ⟨⟨rfl, ?_⟩, hsteps⟩
      have hle : off ≤ (r.stream.length : Int) := hoff.2
      have h0 : 0 ≤ off := hoff.1
      simp only [IStream.InBounds, IStream.length] at hle ⊢
      omega
    · obtain ⟨e, r1, hin, hstream, hsteps⟩ := stepIn_outside hpush hoff
      rw [hin, hstream]
      exact ⟨⟨rfl, hr⟩, hsteps⟩

theorem ReaderCall.ownSteps_of_keepsSteps {c : ReaderCall} (hc : c.KeepsSteps) (r : BinaryReader)
    (stack : List Nat) : c.ownSteps r stack = stack := by
  cases c <;> first | rfl | exact hc.elim

/-- The bounds of a reader whose data is the same and whose stack has grown by saved positions. -/
theorem InBounds.of_steps {r r' : BinaryReader} (hr : r.InBounds)
    (hdata : r'.stream.SameData r.stream.mem)
    (hsteps : ∀ pos ∈ r'.steps, pos = r.position ∨ pos ∈ r.steps) : r'.InBounds := by
  refine ⟨hdata.2, fun pos hpos => ?_⟩
  have hlen : r'.length = r.length := by
    simp only [BinaryReader.length, IStream.length, hdata.1]
  rw [hlen]
  rcases hsteps pos hpos with rfl | hold
  · exact hr.1
  · exact hr.2 pos hold

/-- One call: the bounds stay, and the stack changes as its caller counts, unless the call is a getter
    that is not harmless. -/
theorem ReaderCall.next_spec (os : Win32) (c : ReaderCall) {r : BinaryReader} (hr : r.InBounds) :
    (c.next os r).InBounds ∧
      ((∀ g off, c = .get g off → g.Harmless off r) → (c.next os r).steps = c.ownSteps r r.steps) := by
  by_cases hkeep : c.KeepsSteps
  · obtain ⟨hdata, hsteps⟩ := next_frame os hkeep (r := r) ⟨⟨rfl, hr.1⟩, rfl⟩
    rw [ownSteps_of_keepsSteps hkeep]
    exact ⟨hr.of_steps hdata fun pos hpos => .inr (hsteps ▸ hpos), fun _ => hsteps⟩
  cases c with
  | get g off =>
      by_cases hharm : g.Harmless off r
      · obtain ⟨hstream, hsteps⟩ := ReadCall.get_transparent os hr.1 hharm
        refine ⟨hr.of_steps ?_ fun pos hpos => .inr (hsteps ▸ hpos), fun _ => hsteps⟩
        rw [next, hstream]
        exact ⟨rfl, hr.1⟩
      · obtain ⟨hstream, hsteps⟩ := ReadCall.get_leak os hharm
        refine ⟨hr.of_steps ?_ fun pos hpos => ?_, fun h => absurd (h g off rfl) hharm⟩
        · rw [next, hstream]
          exact ⟨rfl, hr.1⟩
        · rw [next, hsteps] at hpos
          exact List.mem_cons.1 hpos
  | stepIn pos =>
      obtain ⟨hdata, hsteps⟩ := stepIn_stream_steps pos r hr.1
      refine ⟨hr.of_steps hdata fun p hp => ?_, fun _ => hsteps⟩
      rw [next, hsteps] at hp
      split at hp
      · exact .inr hp
      · exact List.mem_cons.1 hp
  | stepOut =>
      rcases hsteps : r.steps with _ | ⟨pos, rest⟩
      · have hout : BinaryReader.stepOut r = (.error .internal, r) := by
          rw [BinaryReader.stepOut, state_bind_run, hsteps]
          rfl
        rw [next, hout]
        exact ⟨hr, fun _ => by rw [hsteps]; rfl⟩
      · have hsaved := hr.2
        rw [hsteps] at hsaved
        have hle := hsaved pos List.mem_cons_self
        rw [next, stepOut_ok hsteps hle]
        exact ⟨⟨hle, fun p hp => hsaved p (List.mem_cons_of_mem pos hp)⟩, fun _ => rfl⟩
  | _ => exact absurd trivial hkeep

theorem calls_inBounds (os : Win32) (cs : List ReaderCall) {r : BinaryReader} (hr : r.InBounds) :
    (calls os cs r).InBounds := by
  induction cs generalizing r with
  | nil => exact hr
  | cons c rest ih => exact ih (ReaderCall.next_spec os c hr).1

/-- Over a run whose getters are harmless, the reader's stack is the stack its caller counts. -/
theorem calls_steps (os : Win32) (cs : List ReaderCall) {r : BinaryReader} (hr : r.InBounds)
    (hcs : Harmless os cs r) : (calls os cs r).steps = ownSteps os cs r r.steps := by
  induction cs generalizing r with
  | nil => rfl
  | cons c rest ih =>
      obtain ⟨hin, hsteps⟩ := ReaderCall.next_spec os c hr
      have hrest := ih hin hcs.2
      rw [hsteps hcs.1] at hrest
      exact hrest

theorem create_inBounds (data : List UInt8) (bigEndian flexible : Bool) (heap : Heap) :
    (create data bigEndian flexible heap).InBounds :=
  ⟨Nat.zero_le _, fun _ hpos => (List.not_mem_nil hpos).elim⟩

/-- **Absolute reads are transparent as long as the getters are harmless.** In every state a run of
    calls reaches, a getter leaves position and steps as they were exactly if it is harmless there;
    and after a run whose getters were all harmless the stack is the one the caller's own step-ins
    have built, so that a step-out returns to the position the last of them saved. -/
theorem getters_transparent (os : Win32) (data : List UInt8) (bigEndian flexible : Bool)
    (heap : Heap) (cs : List ReaderCall) :
    let r₀ := create data bigEndian flexible heap
    let r := calls os cs r₀
    (∀ (g : ReadCall) (off : Int),
      ((g.get os off r).2.position = r.position ∧ (g.get os off r).2.steps = r.steps)
        ↔ g.Harmless off r) ∧
    (Harmless os cs r₀ →
      r.steps = ownSteps os cs r₀ [] ∧
      ∀ pos rest, ownSteps os cs r₀ [] = pos :: rest →
        ∃ r', stepOut r = (.ok (), r') ∧ r'.position = pos ∧ r'.steps = rest) := by
  intro r₀ r
  have hin : r.InBounds := calls_inBounds os cs (create_inBounds data bigEndian flexible heap)
  refine ⟨fun g off => ⟨fun h => ?_, fun h => ?_⟩, fun hcs => ?_⟩
  · by_contra hharm
    obtain ⟨-, hsteps⟩ := ReadCall.get_leak os hharm
    rw [h.2] at hsteps
    exact absurd (congrArg List.length hsteps) (by simp)
  · obtain ⟨hstream, hsteps⟩ := ReadCall.get_transparent os hin.1 h
    exact ⟨congrArg IStream.memPos hstream, hsteps⟩
  · have hsteps := calls_steps os cs (create_inBounds data bigEndian flexible heap) hcs
    refine ⟨hsteps, fun pos rest hown => ?_⟩
    have htop : r.steps = pos :: rest := hsteps.trans hown
    have hle : pos ≤ r.length := hin.2 pos (by rw [htop]; exact List.mem_cons_self)
    exact ⟨_, stepOut_ok htop hle, rfl, rfl⟩

/-- A getter past the end of its data leaves the position it saved on the stack, and the step-out
    that follows returns there: to 1, where the reader had stepped in from 0. -/
theorem getU8_past_end_leaks :
    let r := (stepIn 1 (create [0, 0] false false [])).2
    ¬ ((getU8 9 r).2.position = r.position ∧ (getU8 9 r).2.steps = r.steps) ∧
      (stepOut r).2.position = 0 ∧ (stepOut (getU8 9 r).2).2.position = 1 := by
  decide

end BinaryReader

end SoulsFormats
