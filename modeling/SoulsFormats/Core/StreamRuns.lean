import SoulsFormats.Core.Stream
import SoulsFormats.Library.SparseArray

set_option autoImplicit false

/-! # Runs of a memory output stream

A program that uses a memory stream seeks, writes and reserves in any order, and goes on after a call that
fails. What the stream is for is a sparse array of bytes and a position in it; `Shows` relates the stream to
that array, and every call keeps it, whatever the allocator answers and whatever its blocks hold. -/

namespace SoulsFormats

open Bytes Fallible

/-- A call on a memory stream. A `write` may come with a null pointer instead of bytes. -/
inductive OStreamCall where
  | seek (pos : Int)
  | write (buf : List UInt8)
  | writeNull (n : Nat)
  | reserve (capacity : Nat)
deriving DecidableEq, Repr

namespace OStream

/-- `sf_ostream_write` without bytes. -/
def writeNull (n : Nat) : Fallible OStream SfError Unit :=
  if n = 0 then pure () else fail .invalidArg

/-- One call, and what it returns. -/
def call : OStreamCall → Fallible OStream SfError Unit
  | .seek pos => seek pos
  | .write buf => write buf
  | .writeNull n => writeNull n
  | .reserve capacity => reserve capacity

/-- A sequence of calls, each with what it returned, and the stream after them. -/
def callAll : List OStreamCall → OStream → List (OStreamCall × Except SfError Unit) × OStream
  | [], s => ([], s)
  | c :: calls, s =>
    let (result, s') := call c s
    let (results, s'') := callAll calls s'
    ((c, result) :: results, s'')

end OStream

/-! ## The purpose of a memory stream -/

/-- Bytes at arbitrary offsets, and where the next ones go. -/
structure SparseStream where
  array : SparseArray UInt8
  pos : Nat

namespace SparseStream

def empty : SparseStream := ⟨SparseArray.empty, 0⟩

/-- What a call does that returned `result`: nothing, if it failed. -/
def after (a : SparseStream) : OStreamCall × Except SfError Unit → SparseStream
  | (.seek pos, .ok _) => { a with pos := pos.toNat }
  | (.write buf, .ok _) => ⟨a.array.store a.pos buf, a.pos + buf.length⟩
  | _ => a

def afterAll (a : SparseStream) (results : List (OStreamCall × Except SfError Unit)) : SparseStream :=
  results.foldl after a

@[simp] theorem after_error (a : SparseStream) (c : OStreamCall) (e : SfError) :
    a.after (c, .error e) = a := by
  cases c <;> rfl

@[simp] theorem after_reserve (a : SparseStream) (capacity : Nat) (result : Except SfError Unit) :
    a.after (.reserve capacity, result) = a := by
  cases result <;> rfl

@[simp] theorem afterAll_nil (a : SparseStream) : a.afterAll [] = a := rfl

@[simp] theorem afterAll_cons (a : SparseStream) (r : OStreamCall × Except SfError Unit)
    (results : List (OStreamCall × Except SfError Unit)) :
    a.afterAll (r :: results) = (a.after r).afterAll results := rfl

end SparseStream

/-- The call asks for room only. -/
def OStreamCall.isReserve : OStreamCall → Bool
  | .reserve _ => true
  | _ => false

/-- The results of the calls that are not reserves. -/
def withoutReserves (results : List (OStreamCall × Except SfError Unit)) :
    List (OStreamCall × Except SfError Unit) :=
  results.filter fun r => !r.1.isReserve

/-- Reserves leave no trace. -/
theorem SparseStream.afterAll_withoutReserves (a : SparseStream)
    (results : List (OStreamCall × Except SfError Unit)) :
    a.afterAll (withoutReserves results) = a.afterAll results := by
  induction results generalizing a with
  | nil => rfl
  | cons r results ih =>
      obtain ⟨c, result⟩ := r
      cases c with
      | reserve capacity =>
          show a.afterAll (withoutReserves results) = (a.after (.reserve capacity, result)).afterAll results
          rw [ih, after_reserve]
      | seek pos => exact ih _
      | write buf => exact ih _
      | writeNull n => exact ih _

/-! ## Every call keeps the relation -/

namespace OStream

/-- The stream shows the array: same bytes, same length, same position. -/
structure Shows (s : OStream) (a : SparseStream) : Prop where
  wellFormed : s.WellFormed
  content : s.content = a.array.contents 0
  pos : s.memPos = a.pos

theorem Shows.memSize {s : OStream} {a : SparseStream} (h : s.Shows a) : s.memSize = a.array.stop := by
  rw [← length_content h.wellFormed, h.content, SparseArray.length_contents]

theorem shows_openMemory (heap : Heap) : (openMemory heap).Shows SparseStream.empty :=
  ⟨le_rfl, rfl, rfl⟩

/-- A stream with a longer block and another allocator shows the same. -/
theorem Shows.regrown {s : OStream} {a : SparseStream} (h : s.Shows a) (fresh : List UInt8)
    (heap : Heap) : Shows { s with mem := s.mem ++ fresh, heap := heap } a := by
  have hsize : s.memSize ≤ s.mem.length := h.wellFormed
  refine ⟨?_, ?_, h.pos⟩
  · simp only [WellFormed, memCap, List.length_append]
    omega
  · rw [← h.content]
    exact List.take_append_of_le_length hsize

/-- A call that fails touches at most the room behind the content, and the allocator. -/
theorem call_error {c : OStreamCall} {s s' : OStream} {e : SfError} (hrun : call c s = (.error e, s')) :
    ∃ fresh heap, s' = { s with mem := s.mem ++ fresh, heap := heap } := by
  cases c with
  | seek pos =>
      rw [call, seek] at hrun
      by_cases hpos : 0 ≤ pos
      · rw [check_bind_pos hpos, update_run] at hrun
        cases hrun
      · rw [check_bind_neg hpos] at hrun
        cases hrun
        exact ⟨[], s.heap, by simp⟩
  | write buf =>
      obtain ⟨heap, rfl⟩ := (write_error hrun).1
      exact ⟨[], heap, by simp⟩
  | writeNull n =>
      rw [call, writeNull] at hrun
      split at hrun <;> cases hrun
      exact ⟨[], s.heap, by simp⟩
  | reserve capacity =>
      have hkeep := reserve_keeps s capacity
      rw [call] at hrun
      rwa [hrun] at hkeep

/-- **A failing call changes neither content nor length nor position.** -/
theorem call_error_keeps {c : OStreamCall} {s s' : OStream} {e : SfError} (hwf : s.WellFormed)
    (hrun : call c s = (.error e, s')) :
    s'.content = s.content ∧ s'.memSize = s.memSize ∧ s'.memPos = s.memPos := by
  obtain ⟨fresh, heap, rfl⟩ := call_error hrun
  exact ⟨List.take_append_of_le_length hwf, rfl, rfl⟩

/-- **One call does to the stream what it does to the array.** -/
theorem Shows.call {s : OStream} {a : SparseStream} (h : s.Shows a) (c : OStreamCall) :
    Shows (call c s).2 (a.after (c, (call c s).1)) := by
  rcases hrun : OStream.call c s with ⟨e | u, s'⟩
  · obtain ⟨fresh, heap, rfl⟩ := call_error hrun
    rw [SparseStream.after_error]
    exact h.regrown fresh heap
  · cases c with
    | seek pos =>
        rw [OStream.call, seek] at hrun
        obtain ⟨_, s1, hcheck, hrun⟩ := bind_eq_ok.1 hrun
        rw [check_run] at hcheck
        split at hcheck <;> cases hcheck
        cases hrun
        exact ⟨h.wellFormed, h.content, rfl⟩
    | write buf =>
        rw [OStream.call] at hrun
        by_cases hbuf : buf = []
        · subst hbuf
          rw [write_nil] at hrun
          cases hrun
          simpa [SparseStream.after] using h
        · obtain ⟨hwf, hcontent, hpos, -⟩ := write_spec h.wellFormed buf hbuf _ _ hrun
          refine ⟨hwf, ?_, ?_⟩
          · rw [hcontent, h.content, h.pos]
            exact (SparseArray.contents_store hbuf).symm
          · rw [hpos, h.pos]
            rfl
    | writeNull n =>
        rw [OStream.call, writeNull] at hrun
        split at hrun <;> cases hrun
        exact h
    | reserve capacity =>
        obtain ⟨fresh, heap, hkeep⟩ := reserve_keeps s capacity
        rw [OStream.call] at hrun
        rw [hrun] at hkeep
        rw [SparseStream.after_reserve, hkeep]
        exact h.regrown fresh heap

/-- What holds of a stream and its array holds of them after any run. -/
theorem Shows.callAll {s : OStream} {a : SparseStream} (h : s.Shows a) (calls : List OStreamCall) :
    Shows (callAll calls s).2 (a.afterAll (callAll calls s).1) := by
  induction calls generalizing s a with
  | nil => exact h
  | cons c calls ih => exact ih (h.call c)

/-- **A memory stream refines a sparse array of bytes.** After any calls, in any order, on a new stream, the
    content is what the writes that succeeded have stored, each at the position it found, with zeros where
    nothing was written; a next call that fails changes neither content, length nor position; and a run
    that differs only in its reserves and in the allocator ends with the same content and position. -/
theorem ostream_refines_sparse_array (heap : Heap) (calls : List OStreamCall) :
    let run := OStream.callAll calls (openMemory heap)
    let ideal := SparseStream.empty.afterAll run.1
    run.2.memSize ≤ run.2.memCap ∧ run.2.content = ideal.array.contents 0 ∧
      run.2.memSize = ideal.array.stop ∧ run.2.memPos = ideal.pos ∧
      (∀ c e s', OStream.call c run.2 = (.error e, s') →
        s'.content = run.2.content ∧ s'.memSize = run.2.memSize ∧ s'.memPos = run.2.memPos) ∧
      ∀ heap' calls', let run' := OStream.callAll calls' (openMemory heap')
        withoutReserves run'.1 = withoutReserves run.1 →
          run'.2.content = run.2.content ∧ run'.2.memPos = run.2.memPos := by
  intro run ideal
  have hshows : Shows run.2 ideal := (shows_openMemory heap).callAll calls
  refine ⟨hshows.wellFormed, hshows.content, hshows.memSize, hshows.pos, ?_, ?_⟩
  · intro c e s' hrun
    exact call_error_keeps hshows.wellFormed hrun
  · intro heap' calls' run' hsame
    have hshows' : Shows run'.2 (SparseStream.empty.afterAll run'.1) :=
      (shows_openMemory heap').callAll calls'
    rw [← SparseStream.afterAll_withoutReserves, hsame, SparseStream.afterAll_withoutReserves] at hshows'
    exact ⟨hshows'.content.trans hshows.content.symm, hshows'.pos.trans hshows.pos.symm⟩

/-- Past the end and back: the gap is zeros, the rewrite wins, and a refused allocation is no write. -/
example : (callAll [.seek 4, .write [1, 2], .seek 1, .reserve 500, .write [9], .seek (-1), .write [8, 7, 6]]
    (openMemory [some [5, 5, 5], none])).2.content = [0, 9, 8, 7, 6, 2] := by decide +kernel

end OStream

end SoulsFormats
