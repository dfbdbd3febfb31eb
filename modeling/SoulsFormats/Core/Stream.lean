import SoulsFormats.Core.Result

set_option autoImplicit false

/-! # Memory streams

The memory backends of `sf_istream_t` and `sf_ostream_t`. An input stream borrows its bytes and never
moves past their end; an output stream owns a block of which the first `memSize` bytes are the
logical content and the rest is whatever the allocator left there. `OStream.write_spec` is the one
fact about output streams that the rest of the development uses: a successful write is
`Bytes.overwrite` on the logical content. -/

namespace SoulsFormats

open Bytes Fallible

/-! ## Input streams -/

/-- A memory-backed `sf_istream_t`. -/
structure IStream where
  mem : List UInt8
  memPos : Nat
deriving DecidableEq, Repr

namespace IStream

def length (s : IStream) : Nat := s.mem.length

def seek (pos : Int) : Fallible IStream SfError Unit := do
  check (0 ≤ pos) .invalidArg
  let s ← state
  check (pos ≤ s.length) .outOfRange
  update fun s => { s with memPos := pos.toNat }

def read (n : Nat) : Fallible IStream SfError (List UInt8) :=
  if n = 0 then pure []
  else do
    let s ← state
    check ((n : Int) ≤ (s.length : Int) - s.memPos) .truncated
    update fun s => { s with memPos := s.memPos + n }
    pure ((s.mem.drop s.memPos).take n)

theorem seek_run (pos : Int) (s : IStream) :
    seek pos s =
      if 0 ≤ pos then
        if pos ≤ s.length then (.ok (), { s with memPos := pos.toNat }) else (.error .outOfRange, s)
      else (.error .invalidArg, s) := by
  by_cases h0 : 0 ≤ pos
  · by_cases h1 : pos ≤ s.length
    · simp only [seek, h0, h1, check_bind_pos, state_bind_run, update_run, if_true]
    · simp only [seek, h0, h1, check_bind_pos, check_bind_neg, state_bind_run, if_true, if_false,
        not_false_eq_true]
  · simp only [seek, h0, check_bind_neg, if_false, not_false_eq_true]

/-- A seek to an offset inside the stream, its end included, succeeds. -/
theorem seek_ok {s : IStream} {pos : Nat} (h : pos ≤ s.length) :
    seek pos s = (.ok (), { s with memPos := pos }) := by
  rw [seek_run, if_pos (by omega), if_pos (by exact_mod_cast h)]
  simp

theorem seek_out {s : IStream} {pos : Int} (h : ¬ (0 ≤ pos ∧ pos ≤ s.length)) :
    ∃ e, seek pos s = (.error e, s) := by
  rw [seek_run]
  split
  · next h0 =>
      rw [if_neg (fun h1 => h ⟨h0, h1⟩)]
      exact ⟨_, rfl⟩
  · exact ⟨_, rfl⟩

/-- Reading moves over the slice at the current position. -/
theorem read_holds {s : IStream} {x : List UInt8} (h : Holds s.mem s.memPos x) :
    read x.length s = (.ok x, { s with memPos := s.memPos + x.length }) := by
  unfold read
  split
  · next h0 =>
      rw [List.length_eq_zero_iff.1 h0]
      simp
  · have hle := h.le
    have hroom : (x.length : Int) ≤ (s.length : Int) - s.memPos := by
      simp only [length]
      omega
    rw [state_bind_run, check_bind_pos hroom, update_bind_run, h.take_drop]
    rfl

/-- A read past the end fails and moves nothing. -/
theorem read_truncated {s : IStream} {n : Nat} (hn : 0 < n) (h : s.length < s.memPos + n) :
    read n s = (.error .truncated, s) := by
  have hroom : ¬ ((n : Int) ≤ (s.length : Int) - s.memPos) := by omega
  rw [read, if_neg (by omega), state_bind_run, check_bind_neg hroom]

/-- The position of an input stream never passes the end. -/
def InBounds (s : IStream) : Prop := s.memPos ≤ s.length

/-- What no operation of a stream changes, together with the bound on its position. -/
def SameData (mem : List UInt8) (s : IStream) : Prop := s.mem = mem ∧ s.InBounds

theorem seek_keeps (mem : List UInt8) (pos : Int) : Keeps (SameData mem) (seek pos) := by
  intro s hs
  rw [seek_run]
  split
  · next h0 =>
      split
      · next h1 =>
          refine ⟨hs.1, ?_⟩
          simp only [InBounds, length] at h1 ⊢
          omega
      · exact hs
  · exact hs

theorem read_keeps (mem : List UInt8) (n : Nat) : Keeps (SameData mem) (read n) := by
  intro s hs
  unfold read
  split
  · exact hs
  · rw [state_bind_run]
    by_cases hroom : (n : Int) ≤ (s.length : Int) - s.memPos
    · rw [check_bind_pos hroom]
      refine ⟨hs.1, ?_⟩
      simp only [InBounds, length, update_bind_run, pure_run] at hroom ⊢
      omega
    · rw [check_bind_neg hroom]
      exact hs

end IStream

/-! ## Output streams -/

/-- A memory-backed `sf_ostream_t`. The block `mem` has length `mem_cap`; `heap` is its allocator. -/
structure OStream where
  mem : List UInt8
  memSize : Nat
  memPos : Nat
  heap : Heap
deriving DecidableEq, Repr

namespace OStream

def memCap (s : OStream) : Nat := s.mem.length

def openMemory (heap : Heap) : OStream := { mem := [], memSize := 0, memPos := 0, heap := heap }

/-- The logical content. -/
def content (s : OStream) : List UInt8 := s.mem.take s.memSize

/-- `sf_ostream_seek`: the position may lie past the end. -/
def seek (pos : Int) : Fallible OStream SfError Unit := do
  check (0 ≤ pos) .invalidArg
  update fun s => { s with memPos := pos.toNat }

/-- The doubling loop of `mem_grow`. Sixty-four doublings pass `SIZE_MAX / 2`, so the fuel the caller
    gives never runs out. -/
def growCap (needTotal : Nat) : Nat → Nat → Nat
  | 0, newCap => newCap
  | fuel + 1, newCap =>
    if newCap < needTotal then
      if SIZE_MAX / 2 < newCap then needTotal else growCap needTotal fuel (newCap * 2)
    else newCap

/-- One allocation through the stream's allocator. -/
def alloc : Fallible OStream SfError (List UInt8) :=
  zoom OStream.heap (fun h s => { s with heap := h }) Heap.alloc

/-- `mem_grow`: `sf_xrealloc` keeps the old bytes and leaves the new ones as the allocator had them. -/
def memGrow (needTotal : Nat) : Fallible OStream SfError Unit := do
  let s ← state
  if needTotal ≤ s.memCap then pure ()
  else do
    let newCap := growCap needTotal 64 (if s.memCap = 0 then 64 else s.memCap)
    let junk ← alloc
    let fresh := (junk ++ List.replicate newCap 0).take (newCap - s.memCap)
    update fun s => { s with mem := s.mem ++ fresh }

def reserve (capacity : Nat) : Fallible OStream SfError Unit := do
  let s ← state
  if capacity ≤ s.memCap then pure () else memGrow capacity

def write (buf : List UInt8) : Fallible OStream SfError Unit :=
  if buf.length = 0 then pure ()
  else do
    let s ← state
    let e := s.memPos + buf.length
    check (e ≤ SIZE_MAX) .outOfRange
    memGrow e
    update fun s =>
      let mem :=
        if s.memSize < s.memPos then
          overwrite s.mem s.memSize (List.replicate (s.memPos - s.memSize) 0)
        else s.mem
      { s with mem := overwrite mem s.memPos buf }
    update fun s => { s with memPos := e, memSize := if s.memSize < e then e else s.memSize }

/-- The logical content lies inside the block. -/
def WellFormed (s : OStream) : Prop := s.memSize ≤ s.memCap

theorem length_content {s : OStream} (h : s.WellFormed) : s.content.length = s.memSize := by
  simpa [content, WellFormed, memCap] using h

theorem le_growCap (needTotal : Nat) (hneed : needTotal ≤ SIZE_MAX) (fuel newCap : Nat)
    (hfuel : SIZE_MAX < newCap * 2 ^ fuel) : needTotal ≤ growCap needTotal fuel newCap := by
  induction fuel generalizing newCap with
  | zero =>
      simp only [growCap]
      omega
  | succ fuel ih =>
      unfold growCap
      split
      · split
        · exact le_rfl
        · refine ih (newCap * 2) ?_
          rwa [Nat.mul_assoc, ← Nat.pow_succ']
      · omega

/-- A successful `memGrow` leaves the stream as it was, but with a block of the size asked for. -/
theorem memGrow_post {s : OStream} {needTotal : Nat} (hneed : needTotal ≤ SIZE_MAX) :
    Post (memGrow needTotal) s fun _ s' => ∃ fresh heap,
      s' = { s with mem := s.mem ++ fresh, heap := heap } ∧ needTotal ≤ s'.memCap := by
  intro a s' hrun
  rw [memGrow, state_bind_run] at hrun
  split at hrun
  · next hle =>
      cases hrun
      exact ⟨[], s.heap, by simp, hle⟩
  · next hlt =>
      obtain ⟨junk, s1, halloc, hrun⟩ := bind_eq_ok.1 hrun
      have hs1 : s1 = { s with heap := s1.heap } := by
        simp only [alloc, zoom_run, Prod.mk.injEq] at halloc
        rw [← halloc.2]
      rw [update_run] at hrun
      cases hrun
      refine ⟨_, s1.heap, by rw [hs1], ?_⟩
      have hcap : s1.memCap = s.memCap := by rw [hs1]; rfl
      have hgrow := le_growCap needTotal hneed 64 (if s.memCap = 0 then 64 else s.memCap) (by
        split
        · decide
        · have h1 : 1 ≤ s.memCap := by omega
          calc SIZE_MAX < 1 * 2 ^ 64 := by decide
            _ ≤ s.memCap * 2 ^ 64 := Nat.mul_le_mul_right _ h1)
      simp only [memCap, List.length_append, List.length_take, List.length_replicate] at hcap hgrow ⊢
      omega

/-- Reserving room changes no byte of the content, whether it succeeds or not. -/
theorem reserve_keeps (s : OStream) (capacity : Nat) :
    ∃ fresh heap, (reserve capacity s).2 = { s with mem := s.mem ++ fresh, heap := heap } := by
  have hsame : s = { s with mem := s.mem ++ [], heap := s.heap } := by simp
  rw [reserve, state_bind_run]
  split
  · exact ⟨[], s.heap, hsame⟩
  · rw [memGrow, state_bind_run]
    split
    · exact ⟨[], s.heap, hsame⟩
    · rcases halloc : Heap.alloc s.heap with ⟨e | junk, h⟩
      · refine ⟨[], h, ?_⟩
        have hrun : alloc s = (.error e, { s with heap := h }) := by rw [alloc, zoom_run, halloc]
        rw [bind_error hrun]
        simp
      · have hrun : alloc s = (.ok junk, { s with heap := h }) := by rw [alloc, zoom_run, halloc]
        rw [bind_ok hrun, update_run]
        exact ⟨_, h, rfl⟩

/-- Zero-filling the gap and storing, on the block, is `overwrite` on the logical content. -/
theorem take_overwrite_block {mem buf : List UInt8} {size pos cap : Nat} (hsize : size ≤ mem.length)
    (hbuf : buf ≠ []) (hcap : pos + buf.length ≤ cap) (hmem : mem.length = cap) :
    (overwrite (if size < pos then overwrite mem size (List.replicate (pos - size) 0) else mem) pos
        buf).take (if size < pos + buf.length then pos + buf.length else size)
      = overwrite (mem.take size) pos buf := by
  have hlen : (mem.take size).length = size := by simp [hsize]
  have hpos : 0 < buf.length := List.length_pos_iff.2 hbuf
  have hblock : (if size < pos then overwrite mem size (List.replicate (pos - size) 0)
      else mem).length = cap := by
    split
    · rw [length_overwrite, List.length_replicate]
      omega
    · exact hmem
  apply List.ext_getElem?
  intro i
  rw [List.getElem?_take]
  by_cases hin : pos ≤ i ∧ i < pos + buf.length
  · rw [if_pos (by split <;> omega), getElem?_overwrite_of_mem hin.1 hin.2,
      getElem?_overwrite_of_mem hin.1 hin.2]
  · by_cases hout : i < max size (pos + buf.length)
    · rw [if_pos (by split <;> omega), getElem?_overwrite_of_not_mem (.inr (by omega)) (by omega)]
      by_cases hgap : size < pos
      · have hleft : (overwrite (mem.take size) pos buf)[i]?
            = (mem.take size ++ List.replicate (pos - size) 0)[i]? := by
          rw [overwrite, hlen, List.take_of_length_le (by omega : (mem.take size).length ≤ pos),
            List.append_assoc, List.getElem?_append_left (by
              simp only [List.length_append, List.length_take, List.length_replicate]
              omega)]
        rw [if_pos hgap, hleft]
        by_cases hi : i < size
        · rw [getElem?_overwrite_of_not_mem (.inr hsize) (.inl hi), List.getElem?_append_left (by omega),
            List.getElem?_take, if_pos hi]
        · rw [getElem?_overwrite_of_mem (by omega) (by rw [List.length_replicate]; omega),
            List.getElem?_append_right (by omega), hlen]
      · rw [if_neg hgap, getElem?_overwrite_of_not_mem (.inr (by omega)) (by omega), List.getElem?_take,
          if_pos (by omega)]
    · rw [if_neg (by split <;> omega), List.getElem?_eq_none (by rw [length_overwrite]; omega)]

/-- **A successful write stores the bytes at the position.** The content is extended with zeros where
    the position lay past its end, and position and length follow the bytes written. -/
theorem write_spec {s : OStream} (hwf : s.WellFormed) (buf : List UInt8) (hbuf : buf ≠ []) :
    Post (write buf) s fun _ s' => s'.WellFormed ∧ s'.content = overwrite s.content s.memPos buf ∧
      s'.memPos = s.memPos + buf.length ∧ s'.memSize = max s.memSize (s.memPos + buf.length) := by
  intro a s' hrun
  have hpos : 0 < buf.length := List.length_pos_iff.2 hbuf
  rw [write, if_neg (by omega), state_bind_run] at hrun
  obtain ⟨_, s0, hcheck, hrun⟩ := bind_eq_ok.1 hrun
  rw [check_run] at hcheck
  split at hcheck
  · next hfit =>
      cases hcheck
      obtain ⟨_, s1, hgrow, hrun⟩ := bind_eq_ok.1 hrun
      obtain ⟨fresh, heap, rfl, hcap⟩ := memGrow_post hfit _ _ hgrow
      rw [update_bind_run, update_run] at hrun
      cases hrun
      simp only [memCap] at hcap
      have hwf' : s.memSize ≤ (s.mem ++ fresh).length := by
        simp only [WellFormed, memCap, List.length_append] at hwf ⊢
        omega
      refine ⟨?_, ?_, rfl, ?_⟩
      · simp only [WellFormed, memCap, length_overwrite]
        split <;> split <;> omega
      · simp only [content]
        rw [take_overwrite_block hwf' hbuf hcap rfl, List.take_append_of_le_length hwf]
      · simp only
        split <;> omega
  · cases hcheck

/-- Writing nothing does nothing. -/
@[simp] theorem write_nil (s : OStream) : write [] s = (.ok (), s) := by
  simp [write]

theorem alloc_calm {s : OStream} (hs : s.heap.Calm) :
    ∃ junk h', alloc s = (.ok junk, { s with heap := h' }) ∧ h'.Calm := by
  obtain ⟨junk, h', halloc, hcalm⟩ := Heap.alloc_calm hs
  exact ⟨junk, h', by rw [alloc, zoom_run, halloc], hcalm⟩

/-- With an allocator that grants everything, a write fails only where the position would wrap. -/
theorem write_ok {s : OStream} (hs : s.heap.Calm) (buf : List UInt8)
    (hfit : buf ≠ [] → s.memPos + buf.length ≤ SIZE_MAX) :
    ∃ s', write buf s = (.ok (), s') ∧ s'.heap.Calm := by
  unfold write
  split
  · exact ⟨s, rfl, hs⟩
  · next hlen =>
      have hfit' := hfit (fun h => hlen (by rw [h]; rfl))
      rw [state_bind_run, check_bind_pos hfit']
      by_cases hcap : s.memPos + buf.length ≤ s.memCap
      · have hgrow : memGrow (s.memPos + buf.length) s = (.ok (), s) := by
          rw [memGrow, state_bind_run, if_pos hcap]
          rfl
        rw [bind_ok hgrow]
        exact ⟨_, rfl, hs⟩
      · obtain ⟨junk, h', halloc, hcalm⟩ := alloc_calm hs
        have hgrow : ∃ s1, memGrow (s.memPos + buf.length) s = (.ok (), s1) ∧ s1.heap = h' := by
          rw [memGrow, state_bind_run, if_neg hcap, bind_ok halloc]
          exact ⟨_, rfl, rfl⟩
        obtain ⟨s1, hgrow, hheap⟩ := hgrow
        rw [bind_ok hgrow]
        refine ⟨_, rfl, ?_⟩
        show s1.heap.Calm
        rw [hheap]
        exact hcalm

/-- A write that lies inside the block asks the allocator for nothing. -/
theorem write_inside {s : OStream} (buf : List UInt8) (hcap : s.memPos + buf.length ≤ s.memCap)
    (hfit : s.memPos + buf.length ≤ SIZE_MAX) : ∃ s', write buf s = (.ok (), s') := by
  unfold write
  split
  · exact ⟨s, rfl⟩
  · have hgrow : memGrow (s.memPos + buf.length) s = (.ok (), s) := by
      rw [memGrow, state_bind_run, if_pos hcap]
      rfl
    rw [state_bind_run, check_bind_pos hfit, bind_ok hgrow]
    exact ⟨_, rfl⟩

/-- A write fails because its end does not fit a `size_t`, or because the allocator refuses; in both
    cases the content is what it was. -/
theorem write_error {s s' : OStream} {buf : List UInt8} {e : SfError}
    (hrun : write buf s = (.error e, s')) :
    (∃ h, s' = { s with heap := h }) ∧
      (e = .oom ∧ ¬ s.heap.Calm ∨ e = .outOfRange ∧ SIZE_MAX < s.memPos + buf.length) := by
  unfold write at hrun
  split at hrun
  · cases hrun
  · rw [state_bind_run] at hrun
    by_cases hfit : s.memPos + buf.length ≤ SIZE_MAX
    · rw [check_bind_pos hfit] at hrun
      by_cases hcap : s.memPos + buf.length ≤ s.memCap
      · have hgrow : memGrow (s.memPos + buf.length) s = (.ok (), s) := by
          rw [memGrow, state_bind_run, if_pos hcap]
          rfl
        rw [bind_ok hgrow, update_bind_run, update_run] at hrun
        cases hrun
      · rcases halloc : Heap.alloc s.heap with ⟨e' | junk, h'⟩
        · obtain ⟨rfl, hcalm⟩ := Heap.alloc_error halloc
          have hgrow : memGrow (s.memPos + buf.length) s = (.error .oom, { s with heap := h' }) := by
            have hstream : alloc s = (.error .oom, { s with heap := h' }) := by
              rw [alloc, zoom_run, halloc]
            rw [memGrow, state_bind_run, if_neg hcap, bind_error hstream]
          rw [bind_error hgrow] at hrun
          cases hrun
          exact ⟨⟨h', rfl⟩, .inl ⟨rfl, hcalm⟩⟩
        · have hstream : alloc s = (.ok junk, { s with heap := h' }) := by
            rw [alloc, zoom_run, halloc]
          have hgrow : ∃ s1, memGrow (s.memPos + buf.length) s = (.ok (), s1) := by
            rw [memGrow, state_bind_run, if_neg hcap, bind_ok hstream]
            exact ⟨_, rfl⟩
          obtain ⟨s1, hgrow⟩ := hgrow
          rw [bind_ok hgrow, update_bind_run, update_run] at hrun
          cases hrun
    · rw [check_bind_neg hfit] at hrun
      cases hrun
      exact ⟨⟨s.heap, rfl⟩, .inr ⟨rfl, by omega⟩⟩

end OStream

end SoulsFormats
