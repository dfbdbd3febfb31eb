import SoulsFormats.Core.BinaryReader

set_option autoImplicit false

/-! # What reading keeps

A reader only asks its allocator: what requests do not change of it, reading does not change. Nor does it
change the data, or leave it. -/

namespace SoulsFormats

open Bytes Fallible

section Conversions

variable {I : Heap → Prop} [Heap.Kept I] (os : Win32)

end Conversions

namespace BinaryReader

/-- The data of a reader, a position inside it, and what is known of the allocator. -/
def Over (mem : List UInt8) (I : Heap → Prop) (r : BinaryReader) : Prop := r.stream.SameData mem ∧ I r.heap

variable {mem : List UInt8} {I : Heap → Prop} {α : Type}

theorem onStream_over {m : Fallible IStream SfError α} (hm : Keeps (IStream.SameData mem) m) :
    Keeps (Over mem I) (onStream m) :=
  Keeps.zoom hm (fun _ hr => hr.1) fun _ _ hr hs => ⟨hs, hr.2⟩

theorem seek_over (pos : Int) : Keeps (Over mem I) (onStream (IStream.seek pos)) :=
  onStream_over (IStream.seek_keeps mem pos)

theorem onHeap_over {m : Fallible Heap SfError α} (hm : Keeps I m) : Keeps (Over mem I) (onHeap m) :=
  Keeps.zoom hm (fun _ hr => hr.2) fun _ _ hr hh => ⟨hr.1, hh⟩

theorem readBytes_over (n : Nat) : Keeps (Over mem I) (readBytes n) :=
  onStream_over (IStream.read_keeps mem n)

theorem readU8_over : Keeps (Over mem I) readU8 := (readBytes_over 1).bind fun _ => Keeps.pure _

theorem readBool_over : Keeps (Over mem I) readBool :=
  readU8_over.bind fun _ => (Keeps.check _ _).bind fun _ => Keeps.pure _

theorem defineReadInt_over (n : Nat) : Keeps (Over mem I) (defineReadInt n) :=
  (readBytes_over n).bind fun _ => Keeps.state.bind fun _ => Keeps.pure _

theorem readU32_over : Keeps (Over mem I) readU32 := (defineReadInt_over 4).bind fun _ => Keeps.pure _

theorem readI32_over : Keeps (Over mem I) readI32 := readU32_over.bind fun _ => Keeps.pure _

theorem readI64_over : Keeps (Over mem I) readI64 :=
  ((defineReadInt_over 8).bind fun _ => Keeps.pure _).bind fun _ => Keeps.pure _

theorem defineAssertMulti_over [DecidableEq α] {read : ReadM α} {options : List α}
    (hread : Keeps (Over mem I) read) : Keeps (Over mem I) (defineAssertMulti read options) :=
  (Keeps.check _ _).bind fun _ => hread.bind fun _ => Keeps.state.bind fun _ =>
    Keeps.ite (fun _ => Keeps.pure _) fun _ => (Keeps.check _ _).bind fun _ => Keeps.pure _

theorem assertU8_over (options : List UInt8) : Keeps (Over mem I) (assertU8 options) :=
  defineAssertMulti_over readU8_over

theorem assertI32_over (options : List Int32) : Keeps (Over mem I) (assertI32 options) :=
  defineAssertMulti_over readI32_over

theorem stepOut_over : Keeps (Over mem I) stepOut := by
  refine Keeps.state.bind fun r => ?_
  cases r.steps with
  | nil => exact Keeps.fail _
  | cons pos rest =>
      refine Keeps.bind (Keeps.update ?_) fun _ => seek_over _
      exact fun _ hr => hr

variable [Heap.Kept I]

theorem alloc_over : Keeps (Over mem I) (onHeap Heap.alloc) := onHeap_over Heap.Kept.keeps

theorem assertAscii_over (expected : List UInt8) : Keeps (Over mem I) (assertAscii expected) := by
  have hrest : Keeps (Over mem I) (readBytes expected.length >>= fun buf => check (buf = expected) .badMagic) :=
    (readBytes_over _).bind fun _ => Keeps.check _ _
  exact Keeps.ite (fun _ => alloc_over.bind fun _ => hrest) fun _ => hrest

theorem stepIn_over (pos : Int) : Keeps (Over mem I) (stepIn pos) := by
  refine (Keeps.peek _).bind fun cur => Keeps.bind ?_ fun _ => seek_over _
  have hpush : Keeps (Over mem I) (update fun r => { r with steps := cur :: r.steps } : ReadM Unit) :=
    Keeps.update fun _ hr => hr
  refine Keeps.state.bind fun r => Keeps.ite (fun _ => ?_) fun _ => hpush
  refine alloc_over.bind fun _ => Keeps.bind (Keeps.update ?_) fun _ => hpush
  exact fun _ hr => hr

theorem defineGet_over {read : ReadM α} (hread : Keeps (Over mem I) read) (off : Int) :
    Keeps (Over mem I) (defineGet off read) := by
  refine (stepIn_over _).bind fun _ => hread.attempt.bind fun e => stepOut_over.attempt.bind fun e2 => ?_
  cases e with
  | error err => exact Keeps.fail _
  | ok v =>
      cases e2 with
      | error err => exact Keeps.fail _
      | ok _ => exact Keeps.pure _

end BinaryReader

end SoulsFormats
