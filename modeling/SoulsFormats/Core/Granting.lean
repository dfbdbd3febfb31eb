import SoulsFormats.Core.ReservationMap

set_option autoImplicit false

/-! # Allocators that grant everything

A writer whose allocator grants every request keeps doing so. Some functions of the source drop the result
of a write; what they write is only there if the allocator has granted its room. -/

namespace SoulsFormats

open Bytes Fallible

namespace BinaryWriter

variable {w : BinaryWriter}

/-- The writer's allocator grants everything. -/
def Granting (w : BinaryWriter) : Prop := w.stream.heap.Calm

/-- What is known to be written leaves the allocator as it is. -/
theorem EmitsAt.granting {m : WriteM Unit} {o : Option (List UInt8)} (h : EmitsAt w m o)
    (hw : w.Granting) : Post m w fun _ w' => w'.Granting := by
  intro a w' hrun
  obtain ⟨bs, rfl, hwrote⟩ := h.wrote hrun
  obtain ⟨w1, hrun1, -, hcalm⟩ := h.succeeds rfl hw hwrote.fits
  rw [hrun] at hrun1
  cases hrun1
  exact hcalm

section

variable {α : Type}

theorem onStream_granting {m : Fallible OStream SfError α} (hm : Keeps (fun s => s.heap.Calm) m) :
    Keeps Granting (onStream m) :=
  Keeps.zoom hm (fun _ hw => hw) fun _ _ _ hs => hs

theorem onHeap_granting {m : Fallible Heap SfError α} (hm : Keeps Heap.Calm m) :
    Keeps Granting (onHeap m) :=
  onStream_granting (Keeps.zoom hm (fun _ hs => hs) fun _ _ _ hh => hh)

end

theorem memGrow_granting (n : Nat) : Keeps (fun s : OStream => s.heap.Calm) (OStream.memGrow n) := by
  refine Keeps.state.bind fun s => Keeps.ite (fun _ => Keeps.pure _) fun _ => ?_
  refine Keeps.bind ?_ fun _ => Keeps.update fun _ hs => hs
  exact Keeps.zoom Heap.alloc_keeps (fun _ hs => hs) fun _ _ _ hh => hh

theorem write_granting (buf : List UInt8) : Keeps Granting (onStream (OStream.write buf)) := by
  refine onStream_granting (Keeps.ite (fun _ => Keeps.pure _) fun _ => Keeps.state.bind fun s => ?_)
  refine (Keeps.check _ _).bind fun _ => (memGrow_granting _).bind fun _ => ?_
  refine Keeps.bind (Keeps.update ?_) fun _ => Keeps.update ?_
  · exact fun _ hs => hs
  · exact fun _ hs => hs

theorem writerOpen_granting : Keeps Granting writerOpen :=
  Keeps.state.bind fun _ => Keeps.check _ _

theorem writeChunks_granting (fill : UInt8) (chunks : List Nat) :
    Keeps Granting (writeChunks fill chunks) := by
  induction chunks with
  | nil => exact Keeps.pure _
  | cons chunk rest ih => exact (write_granting _).bind fun _ => ih

theorem writeScalar_granting (k : Scalar) (v : k.Value) : Keeps Granting (writeScalar k v) := by
  have hbytes : ∀ buf, Keeps Granting (writeBytes buf) := fun buf =>
    writerOpen_granting.bind fun _ => write_granting buf
  have hint : ∀ n v, Keeps Granting (defineWriteInt n v) := fun n v =>
    writerOpen_granting.bind fun _ => Keeps.state.bind fun _ => write_granting _
  cases k with
  | bool => exact hbytes _
  | i8 => exact hbytes _
  | u8 => exact hbytes _
  | varint =>
      refine writerOpen_granting.bind fun _ => Keeps.state.bind fun w => ?_
      exact Keeps.ite (fun _ => hint _ _) fun _ => hint _ _
  | _ => exact hint _ _

/-- Where a byte does not fit any more, a write of one does nothing but fail. -/
theorem writeU8_full (hw : w.Ready) (hfull : SIZE_MAX < w.position + 1) (v : UInt8) :
    writeU8 v w = (.error .outOfRange, w) := by
  have hopen : writerOpen w = (.ok (), w) := by
    rw [writerOpen, state_bind_run, check_run, if_pos hw.2]
  have hstop : OStream.write [v] w.stream = (.error .outOfRange, w.stream) :=
    check_bind_neg (Nat.not_le.2 hfull) _ _ _
  rw [writeU8, writeBytes, bind_ok hopen, onStream, zoom_run, hstop]

/-! ## Slots -/

theorem sfresTableGrow_granting (n : Nat) : Keeps Granting (sfresTableGrow n) := by
  refine (onHeap_granting Heap.alloc_keeps).bind fun _ => Keeps.state.bind fun w => ?_
  cases sfresRehash w.resSlots (List.replicate n .empty) with
  | none => exact Keeps.fail _
  | some slots => exact Keeps.update fun _ hw => hw

theorem reservationsPush_granting (name : List UInt8) (pos : Nat) (kind : SfresKind) :
    Keeps Granting (reservationsPush name pos kind) := by
  have hresize : Keeps Granting reservationsResize := by
    refine Keeps.state.bind fun w => Keeps.ite (fun _ => sfresTableGrow_granting _) fun _ => ?_
    refine Keeps.ite (fun _ => ?_) fun _ => Keeps.pure _
    exact (Keeps.check _ _).bind fun _ => sfresTableGrow_granting _
  refine hresize.bind fun _ => Keeps.state.bind fun w => ?_
  simp only
  rcases sfresProbeInsert w.resSlots (sfresHash name) kind name with _ | (_ | idx)
  · exact Keeps.fail _
  · exact Keeps.fail _
  · exact (onHeap_granting Heap.alloc_keeps).bind fun _ => Keeps.update fun _ hw => hw

theorem reservationsFind_granting (name : List UInt8) (kind : SfresKind) :
    Keeps Granting (reservationsFind name kind) := by
  refine Keeps.state.bind fun w => (Keeps.check _ _).bind fun _ => ?_
  rcases sfresProbeLookup w.resSlots (sfresHash name) kind name with _ | idx
  · exact Keeps.fail _
  · simp only
    split
    · exact Keeps.pure _
    · exact Keeps.fail _

theorem reservationsPop_granting (name : List UInt8) (kind : SfresKind) :
    Keeps Granting (reservationsPop name kind) := by
  refine (reservationsFind_granting name kind).bind fun found => ?_
  refine Keeps.bind (Keeps.update ?_) fun _ => Keeps.pure _
  exact fun _ hw => hw

theorem reserveScalar_granting (k : Scalar) (name : List UInt8) :
    Keeps Granting (reserveScalar k name) := by
  refine writerOpen_granting.bind fun _ => Keeps.state.bind fun w => writerOpen_granting.bind fun _ => ?_
  refine (Keeps.peek _).bind fun pos => (reservationsPush_granting _ _ _).bind fun _ => ?_
  have hpattern : Keeps Granting (writePattern (kindWidth (scalarKind w.varintLong k)) 0xFE) :=
    writerOpen_granting.bind fun _ => writeChunks_granting _ _
  refine hpattern.attempt.bind fun e => ?_
  rcases e with err | u
  · exact (reservationsPop_granting _ _).attempt.bind fun _ => Keeps.fail _
  · exact Keeps.pure _

theorem fillScalar_granting (k : Scalar) (name : List UInt8) (v : k.Value) :
    Keeps Granting (fillScalar k name v) := by
  have hseek : ∀ pos, Keeps Granting (onStream (OStream.seek pos)) := fun pos =>
    onStream_granting ((Keeps.check _ _).bind fun _ => Keeps.update fun _ hs => hs)
  have hpush : ∀ pos, Keeps Granting (stepsPush pos) := fun pos => by
    refine Keeps.state.bind fun w => Keeps.ite (fun _ => ?_) fun _ => Keeps.update fun _ hw => hw
    refine (onHeap_granting Heap.alloc_keeps).bind fun _ => ?_
    refine Keeps.bind (Keeps.update ?_) fun _ => Keeps.update ?_
    · exact fun _ hw => hw
    · exact fun _ hw => hw
  have hin : ∀ pos, Keeps Granting (stepIn pos) := fun pos =>
    writerOpen_granting.bind fun _ => (Keeps.peek _).bind fun _ => (hpush _).bind fun _ => hseek pos
  have hout : Keeps Granting stepOut := by
    refine writerOpen_granting.bind fun _ => Keeps.state.bind fun w => ?_
    rcases w.steps with _ | ⟨pos, rest⟩
    · exact Keeps.fail _
    · refine Keeps.bind (Keeps.update ?_) fun _ => hseek _
      exact fun _ hw => hw
  refine writerOpen_granting.bind fun _ => Keeps.state.bind fun w => ?_
  have hpeek : Keeps Granting (reservationsPeek name (scalarKind w.varintLong k)) :=
    (reservationsFind_granting _ _).bind fun _ => Keeps.pure _
  refine hpeek.bind fun pos => (hin pos).bind fun _ => ?_
  refine (writeScalar_granting k v).attempt.bind fun e => hout.attempt.bind fun e2 => ?_
  rcases e with err | u
  · exact Keeps.fail _
  · rcases e2 with err | u2
    · exact Keeps.fail _
    · exact (reservationsPop_granting _ _).attempt.bind fun _ => Keeps.pure _

end BinaryWriter

end SoulsFormats
