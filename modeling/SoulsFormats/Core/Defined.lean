import SoulsFormats.Core.BinaryWriter
import SoulsFormats.Library.Avoids

set_option autoImplicit false

/-! # Operations that are always defined

Whatever state they start in, the operations of the streams, the reader and the writer end in a value or in an error
code of the library, and never in `undefinedBehaviour`. -/

namespace SoulsFormats

open Bytes Fallible

theorem Heap.never_alloc : Never .undefinedBehaviour Heap.alloc := by
  intro heap
  rcases heap with _ | ⟨_ | junk, heap⟩ <;> simp [Avoids, Heap.alloc]

namespace IStream

theorem never_seek (pos : Int) : Never .undefinedBehaviour (seek pos) :=
  (Never.check (by decide)).bind fun _ => Never.state.bind fun _ => (Never.check (by decide)).bind fun _ =>
    Never.update _

theorem never_read (n : Nat) : Never .undefinedBehaviour (read n) :=
  Never.ite (fun _ => Never.pure _) fun _ => Never.state.bind fun _ => (Never.check (by decide)).bind fun _ =>
    (Never.update _).bind fun _ => Never.pure _

end IStream

namespace OStream

theorem never_memGrow (needTotal : Nat) : Never .undefinedBehaviour (memGrow needTotal) :=
  Never.state.bind fun _ => Never.ite (fun _ => Never.pure _) fun _ =>
    (Never.zoom Heap.never_alloc).bind fun _ => Never.update _

theorem never_write (buf : List UInt8) : Never .undefinedBehaviour (write buf) :=
  Never.ite (fun _ => Never.pure _) fun _ => Never.state.bind fun _ => (Never.check (by decide)).bind fun _ =>
    (never_memGrow _).bind fun _ => (Never.update _).bind fun _ => Never.update _

end OStream

namespace BinaryReader

variable {α : Type} {read : ReadM α} {off : Int} {r : BinaryReader}

theorem never_readBytes (n : Nat) : Never .undefinedBehaviour (readBytes n) := Never.zoom (IStream.never_read n)

theorem never_defineReadInt (n : Nat) : Never .undefinedBehaviour (defineReadInt n) :=
  (never_readBytes n).bind fun _ => Never.state.bind fun _ => Never.pure _

theorem never_readI32 : Never .undefinedBehaviour readI32 :=
  ((never_defineReadInt 4).bind fun _ => Never.pure _).bind fun _ => Never.pure _

theorem never_readI64 : Never .undefinedBehaviour readI64 :=
  ((never_defineReadInt 8).bind fun _ => Never.pure _).bind fun _ => Never.pure _

theorem never_stepsPush (pos : Nat) : Never .undefinedBehaviour (stepsPush pos) :=
  Never.state.bind fun _ => Never.ite
    (fun _ => (Never.zoom Heap.never_alloc).bind fun _ => (Never.update _).bind fun _ => Never.update _)
    fun _ => Never.update _

theorem never_stepIn (pos : Int) : Never .undefinedBehaviour (stepIn pos) :=
  (Never.peek _).bind fun _ => (never_stepsPush _).bind fun _ => Never.zoom (IStream.never_seek pos)

theorem never_stepOut : Never .undefinedBehaviour stepOut := by
  intro r
  rw [stepOut, Avoids, state_bind_run]
  cases r.steps with
  | nil => simp
  | cons pos rest => exact ((Never.update _).bind fun _ => Never.zoom (IStream.never_seek pos)) r

/-- A read at an offset is defined if the read itself is, once the reader stands there. -/
theorem avoids_defineGet (h : ∀ r1, stepIn off r = (.ok (), r1) → Avoids .undefinedBehaviour read r1) :
    Avoids .undefinedBehaviour (defineGet off read) r := by
  refine avoids_bind.2 ⟨never_stepIn off r, fun _ r1 hin => ?_⟩
  have hread := h r1 hin
  have hout := never_stepOut (read r1).2
  unfold Avoids at hread hout ⊢
  rw [attempt_bind_run, attempt_bind_run]
  generalize (read r1).1 = e at *
  generalize (stepOut (read r1).2).1 = e2 at *
  rcases e with err | v
  · simpa using hread
  · rcases e2 with err | ⟨⟩
    · simpa using hout
    · simp

end BinaryReader

/-! ## Encoders -/

section

variable (os : Win32)

theorem never_utf8ToWide (utf8 : List UInt8) : Never .undefinedBehaviour (utf8ToWide os utf8) :=
  Never.ite (fun _ => Never.pure _) fun _ => (Never.check (by decide)).bind fun _ =>
    (Never.check (by decide)).bind fun _ => Heap.never_alloc.bind fun _ => Never.pure _

theorem never_utf8ToMbcs (cp : CodePage) (utf8 : Option (List UInt8)) (term : Bool) :
    Never .undefinedBehaviour (utf8ToMbcs os cp utf8 term) :=
  (never_utf8ToWide os _).bind fun _ => (Never.check (by decide)).bind fun _ => Heap.never_alloc.bind fun _ =>
    Never.pure _

theorem never_utf16Encode (bigEndian : Bool) (utf8 : Option (List UInt8)) (term : Bool) :
    Never .undefinedBehaviour (BinaryWriter.utf16Encode os bigEndian utf8 term) := by
  have hle : Never .undefinedBehaviour (utf8ToUtf16le os utf8 term) :=
    (never_utf8ToWide os _).bind fun _ => Heap.never_alloc.bind fun _ => Never.pure _
  cases bigEndian with
  | false => exact hle
  | true => exact hle.bind fun _ => Never.pure _

end

/-! ## The writer -/

namespace BinaryWriter

variable {α : Type}

theorem never_alloc : Never .undefinedBehaviour (onHeap Heap.alloc) := Never.zoom (Never.zoom Heap.never_alloc)

theorem never_writerOpen : Never .undefinedBehaviour writerOpen :=
  Never.state.bind fun _ => Never.check (by decide)

theorem never_writeBytes (buf : List UInt8) : Never .undefinedBehaviour (writeBytes buf) :=
  never_writerOpen.bind fun _ => Never.zoom (OStream.never_write buf)

theorem never_defineWriteInt (n v : Nat) : Never .undefinedBehaviour (defineWriteInt n v) :=
  never_writerOpen.bind fun _ => Never.state.bind fun _ => Never.zoom (OStream.never_write _)

theorem never_writeScalar (k : Scalar) (v : k.Value) : Never .undefinedBehaviour (writeScalar k v) := by
  cases k
  case bool | i8 | u8 => exact never_writeBytes _
  case i16 | u16 | u32 | i32 | u64 | i64 | f32 | f64 => exact never_defineWriteInt _ _
  case varint =>
    exact never_writerOpen.bind fun _ => Never.state.bind fun _ => Never.ite
      (fun _ => never_defineWriteInt _ _) fun _ => never_defineWriteInt _ _

theorem never_writeEach {write : α → WriteM Unit} (hwrite : ∀ v, Never .undefinedBehaviour (write v))
    (vs : List α) : Never .undefinedBehaviour (writeEach write vs) := by
  induction vs with
  | nil => exact Never.pure _
  | cons v vs ih => exact (hwrite v).bind fun _ => ih

theorem never_writeStr {encode : Bool → Encode} (utf8 : Option (List UInt8)) (term : Bool)
    (hencode : ∀ be, Never .undefinedBehaviour (encode be utf8 term)) :
    Never .undefinedBehaviour (writeStr encode utf8 term) :=
  never_writerOpen.bind fun _ => Never.state.bind fun w =>
    Never.bind (Never.zoom (Never.zoom (hencode w.bigEndian))) fun _ => Never.zoom (OStream.never_write _)

theorem never_writePattern (length : Nat) (fill : UInt8) : Never .undefinedBehaviour (writePattern length fill) := by
  refine never_writerOpen.bind fun _ => ?_
  induction BinaryReader.chunkSizes 256 length with
  | nil => exact Never.pure _
  | cons chunk rest ih => exact (Never.zoom (OStream.never_write _)).bind fun _ => ih

theorem never_seek (pos : Int) : Never .undefinedBehaviour (onStream (OStream.seek pos)) :=
  Never.zoom ((Never.check (by decide)).bind fun _ => Never.update _)

theorem never_stepIn (pos : Int) : Never .undefinedBehaviour (stepIn pos) := by
  refine never_writerOpen.bind fun _ => (Never.peek _).bind fun _ => ?_
  refine Never.bind ?_ fun _ => never_seek pos
  exact Never.state.bind fun _ => Never.ite
    (fun _ => never_alloc.bind fun _ => (Never.update _).bind fun _ => Never.update _) fun _ => Never.update _

theorem never_stepOut : Never .undefinedBehaviour stepOut := by
  refine never_writerOpen.bind fun _ => fun w => ?_
  rw [Avoids, state_bind_run]
  cases w.steps with
  | nil => simp
  | cons pos rest => exact ((Never.update _).bind fun _ => never_seek pos) w

theorem never_sfresTableGrow (newCap : Nat) : Never .undefinedBehaviour (sfresTableGrow newCap) := by
  refine never_alloc.bind fun _ => fun w => ?_
  rw [Avoids, state_bind_run]
  cases sfresRehash w.resSlots (List.replicate newCap .empty) with
  | none => simp
  | some slots => simp

theorem never_reservationsPush (name : List UInt8) (pos : Nat) (kind : SfresKind) :
    Never .undefinedBehaviour (reservationsPush name pos kind) := by
  have hresize : Never .undefinedBehaviour reservationsResize :=
    Never.state.bind fun _ => Never.ite (fun _ => never_sfresTableGrow _) fun _ => Never.ite
      (fun _ => (Never.check (by decide)).bind fun _ => never_sfresTableGrow _) fun _ => Never.pure _
  refine hresize.bind fun _ => fun w => ?_
  rw [Avoids, state_bind_run]
  cases sfresProbeInsert w.resSlots (sfresHash name) kind name with
  | none => simp
  | some place =>
      cases place with
      | found idx => simp
      | free idx => exact (never_alloc.bind fun _ => Never.update _) w

theorem never_reservationsPeek (name : List UInt8) (kind : SfresKind) :
    Never .undefinedBehaviour (reservationsPeek name kind) := by
  have hfind : Never .undefinedBehaviour (reservationsFind name kind) := by
    intro w
    rw [reservationsFind, Avoids, state_bind_run]
    refine avoids_check (by decide) |>.2 fun _ => ?_
    cases sfresProbeLookup w.resSlots (sfresHash name) kind name with
    | none => simp
    | some idx =>
        dsimp only
        split <;> simp
  exact hfind.bind fun _ => Never.pure _

theorem never_reserveScalar (k : Scalar) (name : List UInt8) : Never .undefinedBehaviour (reserveScalar k name) := by
  refine never_writerOpen.bind fun _ => Never.state.bind fun _ => never_writerOpen.bind fun _ =>
    (Never.peek _).bind fun _ => (never_reservationsPush _ _ _).bind fun _ => ?_
  refine Never.attempt_bind (never_writePattern _ _) (fun _ => Never.pure _) fun err herr => ?_
  exact (Never.attempt _).bind fun _ => Never.fail herr

theorem never_fillScalar (k : Scalar) (name : List UInt8) (v : k.Value) :
    Never .undefinedBehaviour (fillScalar k name v) := by
  refine never_writerOpen.bind fun _ => Never.state.bind fun _ => (never_reservationsPeek _ _).bind fun _ =>
    (never_stepIn _).bind fun _ => ?_
  refine Never.attempt_bind (never_writeScalar k v) (fun _ => ?_) fun err herr => ?_
  · refine Never.attempt_bind never_stepOut (fun _ => ?_) fun err herr => Never.fail herr
    exact (Never.attempt _).bind fun _ => Never.pure _
  · exact (Never.attempt _).bind fun _ => Never.fail herr

end BinaryWriter

end SoulsFormats
