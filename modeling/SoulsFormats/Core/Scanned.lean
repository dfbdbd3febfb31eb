import SoulsFormats.Core.Accepted
import SoulsFormats.Core.ReaderHeap

set_option autoImplicit false

/-! # Where a value was read

A read that succeeds has its value from the bytes at its position. `OnData` is what a run keeps of a reader: the data
and the byte order, so that two reads at one offset have one value. -/

namespace SoulsFormats

open Bytes Fallible

/-- The word of `n` bytes at a position. -/
def wordOf (be : Bool) (data : List UInt8) (p n : Nat) : Nat := wordNat be ((data.drop p).take n)

def i32Of (be : Bool) (data : List UInt8) (p : Nat) : Int32 := (UInt32.ofNat (wordOf be data p 4)).toInt32

def i64Of (be : Bool) (data : List UInt8) (p : Nat) : Int64 := (UInt64.ofNat (wordOf be data p 8)).toInt64

instance Heap.kept_any : Heap.Kept fun _ => True := ⟨fun _ _ => trivial⟩

namespace BinaryReader

variable {α : Type} {m : ReadM α} {r r' : BinaryReader} {n : Nat}

/-- A reader over the data in a byte order. -/
structure OnData (data : List UInt8) (be : Bool) (r : BinaryReader) : Prop where
  data : r.stream.SameData data
  bigEndian : r.bigEndian = be

/-- The reader has moved over `n` bytes. -/
structure Moved (r : BinaryReader) (n : Nat) (r' : BinaryReader) : Prop where
  mem : r'.stream.mem = r.stream.mem
  pos : r'.position = r.position + n
  bigEndian : r'.bigEndian = r.bigEndian

theorem Moved.trans {r2 : BinaryReader} {k : Nat} (h : Moved r n r') (h' : Moved r' k r2) : Moved r (n + k) r2 :=
  ⟨h'.mem.trans h.mem, by rw [h'.pos, h.pos, Nat.add_assoc], h'.bigEndian.trans h.bigEndian⟩

theorem readBytes_eq_ok {x : List UInt8} (h : readBytes n r = (.ok x, r')) :
    x = (r.stream.mem.drop r.position).take n ∧ Moved r n r' := by
  rw [readBytes, onStream, zoom_run, IStream.read] at h
  split at h
  · next h0 =>
      subst h0
      cases h
      exact ⟨(List.take_zero ..).symm, rfl, rfl, rfl⟩
  · rw [state_bind_run] at h
    by_cases hroom : (n : Int) ≤ (r.stream.length : Int) - r.stream.memPos
    · rw [check_bind_pos hroom] at h
      cases h
      exact ⟨rfl, rfl, rfl, rfl⟩
    · rw [check_bind_neg hroom] at h
      cases h

theorem defineReadInt_eq_ok {v : Nat} (h : defineReadInt n r = (.ok v, r')) :
    v = wordOf r.bigEndian r.stream.mem r.position n ∧ Moved r n r' := by
  obtain ⟨x, r1, hx, hrest⟩ := bind_eq_ok.1 h
  have hlen : x.length = n := length_of_read (congrArg Prod.fst hx)
  obtain ⟨rfl, hmoved⟩ := readBytes_eq_ok hx
  rw [state_bind_run] at hrest
  cases hrest
  refine ⟨?_, hmoved⟩
  have hswap := bswap_leNat ((r.stream.mem.drop r.position).take n)
  rw [hlen] at hswap
  rw [hmoved.bigEndian, wordOf, wordNat, hswap]
  cases r.bigEndian <;> rfl

theorem readI32_eq_ok {v : Int32} (h : readI32 r = (.ok v, r')) :
    v = i32Of r.bigEndian r.stream.mem r.position ∧ Moved r 4 r' := by
  obtain ⟨u, r1, hu, hpure⟩ := bind_eq_ok.1 h
  obtain ⟨w, r2, hw, hpure'⟩ := bind_eq_ok.1 hu
  obtain ⟨rfl, hmoved⟩ := defineReadInt_eq_ok hw
  cases hpure
  cases hpure'
  exact ⟨rfl, hmoved⟩

theorem readI64_eq_ok {v : Int64} (h : readI64 r = (.ok v, r')) :
    v = i64Of r.bigEndian r.stream.mem r.position ∧ Moved r 8 r' := by
  obtain ⟨u, r1, hu, hpure⟩ := bind_eq_ok.1 h
  obtain ⟨w, r2, hw, hpure'⟩ := bind_eq_ok.1 hu
  obtain ⟨rfl, hmoved⟩ := defineReadInt_eq_ok hw
  cases hpure
  cases hpure'
  exact ⟨rfl, hmoved⟩

/-- A getter reads at its offset. -/
theorem defineGet_eq_ok {off : Int} {a : α} (h : defineGet off m r = (.ok a, r')) :
    ∃ r1 r2, stepIn off r = (.ok (), r1) ∧ m r1 = (.ok a, r2) := by
  obtain ⟨⟨⟩, r1, hin, hrun⟩ := bind_eq_ok.1 h
  rw [attempt_bind_run, attempt_bind_run] at hrun
  rcases hread : m r1 with ⟨e | v, r2⟩
  · rw [hread] at hrun
    cases hrun
  · rw [hread] at hrun
    rcases hout : stepOut r2 with ⟨e | ⟨⟩, r3⟩
    · simp only [hout] at hrun
      cases hrun
    · simp only [hout] at hrun
      cases hrun
      exact ⟨r1, r2, hin, hread⟩

theorem stepIn_position {off : Int} (h : stepIn off r = (.ok (), r')) : r'.position = off.toNat := by
  obtain ⟨cur, r1, hcur, hrest⟩ := bind_eq_ok.1 h
  obtain ⟨⟨⟩, r2, hpush, hseek⟩ := bind_eq_ok.1 hrest
  rw [onStream, zoom_run, IStream.seek_run] at hseek
  split at hseek
  · split at hseek
    · cases hseek
      rfl
    · cases hseek
  · cases hseek

/-- What keeps the data and no setting keeps a reader on its data. -/
theorem keeps_onData (data : List UInt8) (be : Bool) (hover : Keeps (Over data fun _ => True) m) [Modeless m] :
    Keeps (OnData data be) m := by
  intro r hr
  have hmode := Modeless.mode_eq (m := m) r
  exact ⟨(hover r ⟨hr.data, trivial⟩).1, (congrArg Mode.bigEndian hmode).trans hr.bigEndian⟩

section

variable {data : List UInt8} {be : Bool}

theorem get_onData (hm : Keeps (OnData data be) m) (off : Int) : Keeps (OnData data be) (defineGet off m) := by
  refine (keeps_onData data be (stepIn_over off)).bind fun _ => hm.attempt.bind fun e => ?_
  refine (keeps_onData data be stepOut_over).attempt.bind fun e2 => ?_
  cases e with
  | error err => exact Keeps.fail _
  | ok v =>
      cases e2 with
      | error err => exact Keeps.fail _
      | ok _ => exact Keeps.pure _

theorem onHeap_onData (m : Fallible Heap SfError α) : Keeps (OnData data be) (onHeap m) :=
  keeps_onData data be (onHeap_over fun _ _ => trivial)

theorem readBytes_onData (n : Nat) : Keeps (OnData data be) (readBytes n) := keeps_onData data be (readBytes_over n)

theorem readI32_onData : Keeps (OnData data be) readI32 := keeps_onData data be readI32_over

theorem readI64_onData : Keeps (OnData data be) readI64 := keeps_onData data be readI64_over

/-- Where a run has succeeded, the reader is on the same data. -/
theorem OnData.after {r r' : BinaryReader} {a : α} (hr : OnData data be r) (hm : Keeps (OnData data be) m)
    (h : m r = (.ok a, r')) : OnData data be r' := by
  have hkept := hm r hr
  rwa [h] at hkept

/-- A getter on data reads at its offset, on the same data. -/
theorem OnData.get {off : Int} {a : α} (hr : OnData data be r)
    (h : defineGet off m r = (.ok a, r')) :
    ∃ r1 r2, m r1 = (.ok a, r2) ∧ OnData data be r1 ∧ r1.position = off.toNat := by
  obtain ⟨r1, r2, hin, hm⟩ := defineGet_eq_ok h
  have hkept := keeps_onData data be (stepIn_over off) r hr
  rw [hin] at hkept
  exact ⟨r1, r2, hm, hkept, stepIn_position hin⟩

end

end BinaryReader

end SoulsFormats
