import SoulsFormats.Core.Tables
import SoulsFormats.Core.Texts

set_option autoImplicit false

/-! # Fields of records

More fields that are written from front to back: what a writer delivers, what a reader reads back, and how many
bytes a reader that succeeds has moved over. -/

namespace SoulsFormats

open Bytes Fallible

/-- A text that the conversion to UTF-16, which counts in `int`, accepts and that comes back. -/
structure WideNameFits (os : Win32) (t : List UInt8) : Prop where
  fits : os.Fits16 t
  length_le : t.length ≤ INT32_MAX

theorem WideNameFits.plain {os : Win32} (hos : os.AsciiCompatible) {t : List UInt8} (ht : Win32.isPlain t = true)
    (hlen : t.length ≤ INT32_MAX) : WideNameFits os t :=
  ⟨hos.fits16 (Win32.isPlain_iff.1 ht).1 (Win32.isPlain_iff.1 ht).2, hlen⟩

/-! ## Writing -/

namespace BinaryWriter

variable {σ : Type} {S : FileSlots σ} {be long : Bool}

theorem delivers_bool (v : Bool) : Delivers S be long (writeBool v) [if v then 1 else 0] := delivers_scalar .bool v

theorem delivers_varint (v : Int64) :
    Delivers S be long (writeVarint v) (scalarBytes be long .varint v) := delivers_scalar .varint v

theorem delivers_utf16 {os : Win32} {t : List UInt8} (ht : WideNameFits os t) :
    Delivers S be long (writeUtf16 os (some t) true) (storedText os true be t) := by
  intro pos live hfit
  refine Makes.last (Makes.emits hfit (fun w hw => ?_) (Makes.done ⟨rfl, rfl⟩ fun _ hB => hB))
  have h := emitsAt_writeStr hw.atEnd.inv.ready (utf16Encode_steady os) (some t) true
  have hencode : granted (utf16Encode os w.bigEndian (some t) true) = some (storedText os true be t) := by
    have hgranted := granted_utf8ToUtf16_fits w.bigEndian ht.fits ht.length_le true
    rw [hw.bigEndian] at hgranted ⊢
    rw [utf16Encode]
    rcases be <;> exact hgranted
  rwa [hencode] at h

end BinaryWriter

/-! ## Reading back -/

namespace BinaryReader

variable {α β : Type} {be : Bool}

theorem readsBack_u32 (v : UInt32) : ReadsBack be readU32 (wordBytes be 4 v.toNat) v := by
  rintro c rfl
  exact parses_u32 c v

theorem readsBack_f32 (v : UInt32) : ReadsBack be readF32 (wordBytes be 4 v.toNat) v := readsBack_u32 v

theorem readsBack_bool (v : Bool) : ReadsBack be readBool [if v then 1 else 0] v := fun c _ => parses_bool c v

theorem readsBack_vec3 (v : Vec3) : ReadsBack be readVec3 (vec3Bytes be v) v := by
  unfold readVec3 vec3Bytes
  exact (readsBack_f32 v.x).bind ((readsBack_f32 v.y).bind ((readsBack_f32 v.z).last _ rfl))

theorem readsBack_chunks (v : UInt8) (chunks : List Nat) :
    ReadsBack be (assertChunks v chunks) (List.replicate chunks.sum v) () := by
  induction chunks with
  | nil => exact ReadsBack.pure ()
  | cons chunk rest ih =>
      have hfirst : ReadsBack be (readBytes (List.replicate chunk v).length) _ _ := readsBack_bytes _
      rw [List.length_replicate] at hfirst
      rw [List.sum_cons, ← List.replicate_append_replicate]
      exact hfirst.bind (ReadsBack.check (by simp) ih)

theorem readsBack_pattern (n : Nat) (v : UInt8) : ReadsBack be (assertPattern n v) (List.replicate n v) () := by
  have h : ReadsBack be (assertChunks v (chunkSizes 256 n)) _ _ := readsBack_chunks v _
  rwa [BinaryWriter.sum_chunkSizes] at h

/-! ## Moving on -/

/-- Wherever it succeeds, `m` moves over `k` bytes. -/
def Spans (M : Mode) (m : ReadM α) (k : Nat) : Prop := ∀ pos, Consumes M pos m fun _ x => x.length = k

variable {M : Mode} {m : ReadM α} {f : α → ReadM β} {k n : Nat}

theorem Spans.pure (a : α) : Spans M (Pure.pure a) 0 := fun _ => Consumes.pure rfl

theorem Spans.bind (hm : Spans M m k) (hf : ∀ a, Spans M (f a) n) : Spans M (m >>= f) (k + n) :=
  fun pos => (hm pos).bind fun a x hx => (hf a (pos + x.length)).mono fun b y hy => by
    rw [List.length_append, hx, hy]

/-- What is read last. -/
theorem Spans.last (hm : Spans M m k) (g : α → β) : Spans M (m >>= fun a => Pure.pure (g a)) k :=
  hm.bind fun a => Spans.pure (g a)

theorem Spans.check {p : Prop} [Decidable p] {e : SfError} {f : Unit → ReadM β} (hf : Spans M (f ()) k) :
    Spans M (Fallible.check p e >>= f) k :=
  fun pos => Consumes.check fun _ => hf pos

theorem Spans.onHeap {γ : Type} {conv : Fallible Heap SfError γ} {f : γ → ReadM β} (hf : ∀ a, Spans M (f a) k) :
    Spans M (BinaryReader.onHeap conv >>= f) k :=
  fun pos => Consumes.onHeap fun a _ => hf a pos

theorem spans_fail (e : SfError) : Spans M (Fallible.fail e : ReadM α) k := fun _ => consumes_fail e

theorem spans_bytes (n : Nat) : Spans M (readBytes n) n :=
  fun pos => (consumes_bytes n).mono fun v x hx => by rw [hx.1, hx.2]

theorem spans_u8 : Spans M readU8 1 := fun pos => consumes_u8.mono fun v x hx => by rw [hx]; rfl

theorem spans_u32 : Spans M readU32 4 := fun pos => consumes_u32.mono fun v x hx => by rw [hx, length_wordBytes]

theorem spans_i32 : Spans M readI32 4 := fun pos => consumes_i32.mono fun v x hx => by rw [hx, length_wordBytes]

theorem spans_f32 : Spans M readF32 4 := spans_u32

theorem spans_bool : Spans M readBool 1 := by
  have h : Spans M readBool (1 + 0) := spans_u8.bind fun b => Spans.check (Spans.pure (b != 0))
  exact h

theorem spans_vec3 : Spans M readVec3 12 :=
  spans_f32.bind fun _ => spans_f32.bind fun _ => spans_f32.last _

theorem spans_i64 : Spans M readI64 8 := by
  have hword : Spans M readU64 8 :=
    Spans.last (fun pos => (consumes_int 8).mono fun v x hx => by rw [hx.1, length_wordBytes]) _
  exact hword.last _

theorem spans_varint : Spans M readVarint (if M.varintLong then 8 else 4) := by
  intro pos r hr hpos hle a r' hrun
  have hlong : r.varintLong = M.varintLong := congrArg Mode.varintLong hr
  rw [readVarint, state_bind_run, hlong] at hrun
  cases hM : M.varintLong with
  | true =>
      rw [hM, if_pos rfl] at hrun
      exact spans_i64 pos r hr hpos hle a r' hrun
  | false =>
      rw [hM, if_neg Bool.false_ne_true] at hrun
      exact (spans_i32.last Int32.toInt64) pos r hr hpos hle a r' hrun

theorem spans_assert [DecidableEq α] {options : List α} (hm : Spans M m k) :
    Spans M (defineAssertMulti m options) k := by
  refine Spans.check ?_
  rw [← Nat.add_zero k]
  refine hm.bind fun v pos => Consumes.state fun r => ?_
  split
  · exact Spans.pure v pos
  · exact Spans.check (Spans.pure v) pos

theorem spans_each (hm : Spans M m k) (n : Nat) : Spans M (readEach m n) (n * k) := by
  induction n with
  | zero =>
      rw [Nat.zero_mul]
      exact Spans.pure []
  | succ n ih =>
      rw [Nat.succ_mul, Nat.add_comm (n * k)]
      exact hm.bind fun a => ih.last _

/-- A reader that succeeds had room for what it moved over. -/
theorem Spans.room (hm : Spans M m k) {r r' : BinaryReader} {a : α} (hr : r.mode = M)
    (hpos : r.position ≤ r.stream.mem.length) (hrun : m r = (.ok a, r')) :
    r.position + k ≤ r.stream.mem.length := by
  obtain ⟨-, -, x, hx, -, rfl⟩ := hm r.position r hr rfl hpos a r' hrun
  exact hx.le

end BinaryReader

end SoulsFormats
