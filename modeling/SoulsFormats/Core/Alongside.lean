import SoulsFormats.Core.ReaderHeap
import SoulsFormats.Library.Lockstep

set_option autoImplicit false

/-! # Reading with another allocator

What is read does not depend on the allocator as long as it grants what it is asked for: two readers that differ in
nothing else read the same. -/

namespace SoulsFormats

open Bytes Fallible

/-- Two allocators that grant everything. -/
def Heap.BothCalm (h h' : Heap) : Prop := h.Calm ∧ h'.Calm

/-- The computation has the same outcome with any two allocators that grant everything. -/
abbrev Heap.Unaffected {α : Type} (m : Fallible Heap SfError α) : Prop := Lockstep Heap.BothCalm Eq m m

theorem Heap.lockstep_alloc : Lockstep BothCalm (fun _ _ => True) Heap.alloc Heap.alloc := by
  intro h h' hcalm
  obtain ⟨junk, h1, hrun, hcalm1⟩ := Heap.alloc_calm hcalm.1
  obtain ⟨junk', h1', hrun', hcalm1'⟩ := Heap.alloc_calm hcalm.2
  rw [hrun, hrun']
  exact ⟨.ok trivial, hcalm1, hcalm1'⟩

section Conversions

variable {α : Type} (os : Win32)

/-- A block that nobody looks into. -/
theorem Heap.unaffected_alloc {m : Fallible Heap SfError α} (hm : Heap.Unaffected m) :
    Heap.Unaffected (Heap.alloc >>= fun _ => m) :=
  Heap.lockstep_alloc.bind fun _ _ _ => hm

theorem unaffected_mbcsToUtf8 (cp : CodePage) (input : List UInt8) :
    Heap.Unaffected (mbcsToUtf8 os cp input) := by
  refine .ite (fun _ => Heap.unaffected_alloc (.pure rfl)) fun _ => ?_
  refine (Lockstep.check _ _).seq fun _ => (Lockstep.check _ _).seq fun _ => Heap.unaffected_alloc ?_
  exact (Lockstep.check _ _).seq fun _ => Heap.unaffected_alloc (.pure rfl)

theorem unaffected_utf16ToUtf8 (bigEndian : Bool) (input : List UInt8) :
    Heap.Unaffected (utf16ToUtf8 os bigEndian input) := by
  refine .ite (fun _ => Heap.unaffected_alloc (.pure rfl)) fun _ => ?_
  refine (Lockstep.check _ _).seq fun _ => ?_
  have hrest : Heap.Unaffected (do
      let out := os.WideCharToMultiByte .utf8 (codeUnits bigEndian input)
      Fallible.check (0 < out.length) SfError.invalidArg
      let _ ← Heap.alloc
      Pure.pure out) :=
    (Lockstep.check _ _).seq fun _ => Heap.unaffected_alloc (.pure rfl)
  exact .ite (fun _ => Heap.unaffected_alloc hrest) fun _ => hrest

theorem unaffected_utf16Decode (bigEndian : Bool) (input : List UInt8) :
    Heap.Unaffected (BinaryReader.utf16Decode os bigEndian input) := by
  cases bigEndian with
  | false => exact unaffected_utf16ToUtf8 os false input
  | true => exact unaffected_utf16ToUtf8 os true input

end Conversions

namespace BinaryReader

/-- The reader with another allocator. -/
def withHeap (r : BinaryReader) (heap : Heap) : BinaryReader := { r with heap := heap }

/-- The second reader is the first one with another allocator, and both allocators grant everything. -/
structure Alongside (r r' : BinaryReader) : Prop where
  inBounds : r.stream.InBounds
  calm : Heap.BothCalm r.heap r'.heap
  same : r' = r.withHeap r'.heap

variable {α β : Type} {r r' : BinaryReader}

theorem Alongside.symm (h : Alongside r r') : Alongside r' r := by
  refine ⟨?_, ⟨h.calm.2, h.calm.1⟩, ?_⟩
  · rw [h.same]
    exact h.inBounds
  · rw [h.same]
    rfl

theorem Alongside.stream (h : Alongside r r') : r'.stream = r.stream := by rw [h.same, withHeap]

theorem Alongside.steps (h : Alongside r r') : r'.steps = r.steps := by rw [h.same, withHeap]

theorem Alongside.bigEndian (h : Alongside r r') : r'.bigEndian = r.bigEndian := by rw [h.same, withHeap]

theorem Alongside.isFlexible (h : Alongside r r') : r'.isFlexible = r.isFlexible := by rw [h.same, withHeap]

/-- The computation reads the same with any two allocators that grant everything. -/
abbrev Unaffected (m : ReadM α) : Prop := Lockstep Alongside Eq m m

theorem unaffected_onStream {m : Fallible IStream SfError α} (hm : ∀ mem, Keeps (IStream.SameData mem) m) :
    Unaffected (onStream m) := by
  intro r r' h
  have hin := (hm r.stream.mem r.stream ⟨rfl, h.inBounds⟩).2
  rw [onStream, zoom_run, zoom_run, h.stream]
  rcases hrun : m r.stream with ⟨x, s⟩
  rw [hrun] at hin
  refine ⟨?_, hin, h.calm, ?_⟩
  · cases x with
    | error e => exact .error e
    | ok a => exact .ok rfl
  · rw [h.same]
    rfl

theorem lockstep_onHeap {R : α → α → Prop} {m n : Fallible Heap SfError α} (hm : Lockstep Heap.BothCalm R m n) :
    Lockstep Alongside R (onHeap m) (onHeap n) := by
  refine hm.zoom (fun r r' h => h.calm) fun r r' heap heap' h hcalm => ⟨h.inBounds, hcalm, ?_⟩
  rw [h.same]
  rfl

theorem lockstep_alloc : Lockstep Alongside (fun _ _ => True) (onHeap Heap.alloc) (onHeap Heap.alloc) :=
  lockstep_onHeap Heap.lockstep_alloc

/-- A block that nobody looks into. -/
theorem unaffected_alloc {m n : ReadM α} {R : α → α → Prop} (hm : Lockstep Alongside R m n) :
    Lockstep Alongside R (onHeap Heap.alloc >>= fun _ => m) (onHeap Heap.alloc >>= fun _ => n) :=
  lockstep_alloc.bind fun _ _ _ => hm

/-- A block that only the first reader asks for. -/
theorem lockstep_alloc_left : Lockstep Alongside (fun _ _ => True) (onHeap Heap.alloc) (Pure.pure ()) := by
  intro r r' h
  obtain ⟨junk, heap, halloc, hcalm⟩ := Heap.alloc_calm h.calm.1
  rw [onHeap, zoom_run, halloc]
  refine ⟨.ok trivial, h.inBounds, ⟨hcalm, h.calm.2⟩, ?_⟩
  rw [h.same]
  rfl

/-- A computation that depends on the reader, but not on its allocator. -/
theorem unaffected_state {f : BinaryReader → ReadM α} (hf : ∀ r r', Alongside r r' → f r' = f r) (hunaffected : ∀ r, Unaffected (f r)) :
    Unaffected (state >>= f) := by
  refine Lockstep.state.bind fun r r' h => ?_
  rw [hf r r' h]
  exact hunaffected r

theorem unaffected_update {f : BinaryReader → BinaryReader}
    (hf : ∀ r r', Alongside r r' → Alongside (f r) (f r')) : Unaffected (update f) := Lockstep.update hf

theorem unaffected_seek (pos : Int) : Unaffected (onStream (IStream.seek pos)) :=
  unaffected_onStream fun mem => IStream.seek_keeps mem pos

theorem unaffected_readBytes (n : Nat) : Unaffected (readBytes n) := unaffected_onStream fun mem => IStream.read_keeps mem n

theorem unaffected_readU8 : Unaffected readU8 := (unaffected_readBytes 1).seq fun _ => .pure rfl

theorem unaffected_readBool : Unaffected readBool :=
  unaffected_readU8.seq fun _ => (Lockstep.check _ _).seq fun _ => .pure rfl

theorem unaffected_defineReadInt (n : Nat) : Unaffected (defineReadInt n) := by
  refine (unaffected_readBytes n).seq fun bs => unaffected_state (fun r r' h => ?_) fun r => .pure rfl
  rw [h.bigEndian]

theorem unaffected_readU32 : Unaffected readU32 := (unaffected_defineReadInt 4).seq fun _ => .pure rfl

theorem unaffected_readI32 : Unaffected readI32 := unaffected_readU32.seq fun _ => .pure rfl

theorem unaffected_readI64 : Unaffected readI64 := ((unaffected_defineReadInt 8).seq fun _ => .pure rfl).seq fun _ => .pure rfl

theorem unaffected_setBigEndian (be : Bool) : Unaffected (setBigEndian be) := by
  refine unaffected_update fun r r' h => ⟨h.inBounds, h.calm, ?_⟩
  rw [h.same, withHeap, withHeap]

theorem unaffected_defineAssertMulti [DecidableEq α] {read : ReadM α} {options : List α} (hread : Unaffected read) :
    Unaffected (defineAssertMulti read options) := by
  refine (Lockstep.check _ _).seq fun _ => hread.seq fun v => unaffected_state (fun r r' h => ?_) fun r => ?_
  · rw [h.isFlexible]
  · exact .ite (fun _ => .pure rfl) fun _ => (Lockstep.check _ _).seq fun _ => .pure rfl

theorem unaffected_assertU8 (options : List UInt8) : Unaffected (assertU8 options) := unaffected_defineAssertMulti unaffected_readU8

theorem unaffected_assertI32 (options : List Int32) : Unaffected (assertI32 options) :=
  unaffected_defineAssertMulti unaffected_readI32

theorem unaffected_readEach {m : ReadM α} (hm : Unaffected m) (n : Nat) : Unaffected (readEach m n) := by
  induction n with
  | zero => exact .pure rfl
  | succ n ih => exact hm.seq fun _ => ih.seq fun _ => .pure rfl

theorem unaffected_assertAscii (expected : List UInt8) : Unaffected (assertAscii expected) := by
  have hrest : Unaffected (readBytes expected.length >>= fun buf => check (buf = expected) .badMagic) :=
    (unaffected_readBytes _).seq fun _ => Lockstep.check _ _
  exact .ite (fun _ => unaffected_alloc hrest) fun _ => hrest

theorem unaffected_readTerminated (width fuel cap : Nat) (buf : List UInt8) :
    Unaffected (readTerminated width fuel cap buf) := by
  induction fuel generalizing cap buf with
  | zero => exact .fail _
  | succ fuel ih =>
      refine (unaffected_readBytes _).seq fun _ => .ite (fun _ => .pure rfl) fun _ => ?_
      exact .ite (fun _ => unaffected_alloc (ih _ _)) fun _ => ih _ _

theorem unaffected_readStrTerminated (width : Nat) {decode : Bool → Decode}
    (hdecode : ∀ be buf, Heap.Unaffected (decode be buf)) :
    Unaffected (readStrTerminated width decode) := by
  refine unaffected_alloc (unaffected_state (fun r r' h => ?_) fun r => ?_)
  · simp only [BinaryReader.length, position, h.stream, h.bigEndian]
  · exact (unaffected_readTerminated _ _ _ _).seq fun _ => lockstep_onHeap (hdecode _ _)

theorem unaffected_readFixStr (os : Win32) (size : Nat) : Unaffected (readFixStr os size) :=
  .ite (fun _ => lockstep_onHeap (unaffected_mbcsToUtf8 os _ _)) fun _ => unaffected_alloc <|
    (unaffected_readBytes _).seq fun _ => lockstep_onHeap (unaffected_mbcsToUtf8 os _ _)

theorem unaffected_stepsPush (pos : Nat) : Unaffected (stepsPush pos) := by
  have hpush : Unaffected (update fun r => { r with steps := pos :: r.steps } : ReadM Unit) := by
    refine unaffected_update fun r r' h => ⟨h.inBounds, h.calm, ?_⟩
    rw [h.same, withHeap, withHeap]
  have hgrow : Unaffected (update fun r =>
      { r with stepsCap := if r.stepsCap ≠ 0 then r.stepsCap * 2 else 8 } : ReadM Unit) := by
    refine unaffected_update fun r r' h => ⟨h.inBounds, h.calm, ?_⟩
    rw [h.same, withHeap, withHeap]
  refine unaffected_state (fun r r' h => ?_) fun r => ?_
  · rw [h.same, withHeap]
  · exact .ite (fun _ => unaffected_alloc (hgrow.seq fun _ => hpush)) fun _ => hpush

theorem unaffected_stepIn (pos : Int) : Unaffected (stepIn pos) := by
  refine Lockstep.seq (Lockstep.peek fun r r' h => ?_) fun cur => (unaffected_stepsPush cur).seq fun _ => unaffected_seek _
  rw [position, position, h.stream]

theorem unaffected_stepOut : Unaffected stepOut := by
  refine unaffected_state (fun r r' h => by rw [h.steps]) fun r => ?_
  cases r.steps with
  | nil => exact .fail _
  | cons pos rest =>
      refine Lockstep.seq (unaffected_update fun r r' h => ⟨h.inBounds, h.calm, ?_⟩) fun _ => unaffected_seek _
      rw [h.same, withHeap, withHeap]

theorem unaffected_defineGet {read : ReadM α} (hread : Unaffected read) (off : Int) : Unaffected (defineGet off read) := by
  refine (unaffected_stepIn _).seq fun _ => hread.attempt_eq.seq fun e => unaffected_stepOut.attempt_eq.seq fun e2 => ?_
  cases e with
  | error err => exact .fail _
  | ok v =>
      cases e2 with
      | error err => exact .fail _
      | ok _ => exact .pure rfl

theorem unaffected_getShiftJis (os : Win32) (off : Int) : Unaffected (getShiftJis os off) :=
  unaffected_defineGet (unaffected_readStrTerminated _ fun _ _ => unaffected_mbcsToUtf8 os _ _) _

theorem unaffected_getUtf16 (os : Win32) (off : Int) : Unaffected (getUtf16 os off) :=
  unaffected_defineGet (unaffected_readStrTerminated _ fun _ _ => unaffected_utf16Decode os _ _) _

theorem unaffected_getU8s (off : Int) (n : Nat) : Unaffected (getU8s off n) :=
  unaffected_defineGet (.ite (fun _ => .pure rfl) fun _ => unaffected_readBytes n) off

theorem alongside_create (data : List UInt8) (bigEndian flexible : Bool) {heap heap' : Heap}
    (h : Heap.BothCalm heap heap') :
    Alongside (create data bigEndian flexible heap) (create data bigEndian flexible heap') :=
  ⟨Nat.zero_le _, h, rfl⟩

end BinaryReader

end SoulsFormats
