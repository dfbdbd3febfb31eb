import SoulsFormats.Archive.BinderCommon
import SoulsFormats.Compression.DcxBlocks
import SoulsFormats.Compression.DcxGranting
import SoulsFormats.Core.Defined
import SoulsFormats.Core.ReaderSteps

set_option autoImplicit false

/-! # The data of a file in a binder

What a header leads to depends on the bytes of the archive, not on where the reader stands, and on the allocator only
where the file is compressed. -/

namespace SoulsFormats

open Bytes Fallible BinaryReader

variable {codecs : Codecs} {mem : List UInt8} {h : BinderFileHeader} {r : BinaryReader}

/-- A reader over `mem` whose allocator grants everything. -/
def IsCalm (mem : List UInt8) (r : BinaryReader) : Prop := Over mem Heap.Calm r

/-- An allocator that grants everything goes on after a request. -/
theorem Heap.alloc_drop {heap : Heap} (hcalm : heap.Calm) : ∃ junk, Heap.alloc heap = (.ok junk, heap.drop 1) := by
  match heap with
  | [] => exact ⟨[], rfl⟩
  | some junk :: rest => exact ⟨junk, rfl⟩
  | none :: rest => exact absurd List.mem_cons_self hcalm

theorem Heap.Calm.drop {heap : Heap} (hcalm : heap.Calm) (k : Nat) : Heap.Calm (heap.drop k) :=
  fun hmem => hcalm (List.mem_of_mem_drop hmem)

/-! ## What is stored -/

/-- What `mem` has stored for a header. -/
def BinderStoredAt (mem : List UInt8) (h : BinderFileHeader) (z : List UInt8) : Prop :=
  if 0 < h.compressedSize then
    ∃ p : Nat, (Int64.ofNat h.dataOffset).toInt = p ∧ z.length = h.compressedSize ∧ Holds mem p z
  else z = []

/-- The bytes at the place that a header gives. -/
def binderStoredBytes (mem : List UInt8) (h : BinderFileHeader) : List UInt8 :=
  (mem.drop (Int64.ofNat h.dataOffset).toInt.toNat).take h.compressedSize

theorem BinderStoredAt.eq {z : List UInt8} (hz : BinderStoredAt mem h z) : z = binderStoredBytes mem h := by
  unfold BinderStoredAt at hz
  unfold binderStoredBytes
  split at hz
  · obtain ⟨p, hp, hlen, hheld⟩ := hz
    rw [hp, Int.toNat_natCast, ← hlen, hheld.take_drop]
  · next hzero => rw [hz, Nat.eq_zero_of_not_pos hzero, List.take_zero]

theorem onStream_heap {α : Type} (m : Fallible IStream SfError α) (heap : Heap) :
    Keeps (fun s : BinaryReader => s.heap = heap) (onStream m) := fun _ hs => hs

theorem stepOut_heap (heap : Heap) : Keeps (fun s : BinaryReader => s.heap = heap) stepOut := by
  refine Keeps.state.bind fun s => ?_
  cases s.steps with
  | nil => exact Keeps.fail _
  | cons pos rest =>
      refine Keeps.bind (Keeps.update ?_) fun _ => onStream_heap _ heap
      exact fun s hs => hs

/-- Only room for a position is asked for. -/
theorem stepsPush_heap (pos : Nat) (hcalm : r.heap.Calm) :
    ∃ k s, k ≤ 1 ∧ stepsPush pos r = (.ok (), s) ∧ s.heap = r.heap.drop k := by
  unfold stepsPush
  rw [state_bind_run]
  by_cases hfull : r.steps.length = r.stepsCap
  · obtain ⟨junk, halloc⟩ := Heap.alloc_drop hcalm
    have hasked : onHeap Heap.alloc r = (.ok junk, { r with heap := r.heap.drop 1 }) := by
      rw [onHeap, zoom_run, halloc]
    rw [if_pos hfull, bind_ok hasked]
    exact ⟨1, _, le_rfl, rfl, rfl⟩
  · rw [if_neg hfull]
    exact ⟨0, _, Nat.zero_le 1, rfl, rfl⟩

theorem getBytes_heap (off : Int) (n : Nat) (hcalm : r.heap.Calm) :
    ∃ k ≤ 1, (getBytes off n r).2.heap = r.heap.drop k := by
  obtain ⟨k, s, hk, hpush, hheap⟩ := stepsPush_heap r.position hcalm
  have hrest (finish : Except SfError (List UInt8) → Except SfError Unit → ReadM (List UInt8))
      (hfinish : ∀ e e2, Keeps (fun s : BinaryReader => s.heap = r.heap.drop k) (finish e e2)) : ((do
        onStream (IStream.seek off)
        let e ← attempt (readBytes n)
        let e2 ← attempt stepOut
        finish e e2) s).2.heap = r.heap.drop k :=
    (onStream_heap _ _).bind (fun _ => (onStream_heap _ _).attempt.bind fun e =>
      (stepOut_heap _).attempt.bind fun e2 => hfinish e e2) s hheap
  rw [getBytes, defineGet, stepIn, bind_assoc, peek_bind_run, bind_assoc, bind_ok hpush]
  refine ⟨k, hk, hrest _ fun e e2 => ?_⟩
  rcases e with err | v
  · exact Keeps.fail _
  · rcases e2 with err | ⟨⟩
    · exact Keeps.fail _
    · exact Keeps.pure _

/-- Bytes are read at an offset if they stand there; otherwise the library refuses. One request may be made. -/
theorem getBytes_cases (off : Int) (n : Nat) (hr : IsCalm mem r) :
    (∃ e, e ≠ .undefinedBehaviour ∧ (getBytes off n r).1 = .error e ∧
      ∀ (p : Nat) (z : List UInt8), off = p → z.length = n → ¬ Holds mem p z) ∨
    ∃ (p k : Nat) (z : List UInt8) (r' : BinaryReader), off = p ∧ z.length = n ∧ Holds mem p z ∧ k ≤ 1 ∧
      getBytes off n r = (.ok z, r') ∧ r'.heap = r.heap.drop k := by
  have hmem : r.stream.mem = mem := hr.1.1
  by_cases hplace : ∃ (p : Nat) (z : List UInt8), off = p ∧ z.length = n ∧ Holds mem p z
  · obtain ⟨p, z, rfl, rfl, hz⟩ := hplace
    have hread : Reads (getBytes p z.length) r.cursor z r.cursor := by
      refine reads_get_parses ?_ hr.1.2 (parses_bytes _ z)
      rwa [← hmem] at hz
    obtain ⟨r1, hrun, -, -⟩ := hread r rfl hr.2
    obtain ⟨k, hk, hheap⟩ := getBytes_heap p z.length hr.2
    rw [hrun] at hheap
    exact .inr ⟨p, k, z, r1, rfl, rfl, hz, hk, hrun, hheap⟩
  · have hno : ∀ (p : Nat) (z : List UInt8), off = p → z.length = n → ¬ Holds mem p z :=
      fun p z hp hlen hz => hplace ⟨p, z, hp, hlen, hz⟩
    refine .inl ?_
    have hdefined : (getBytes off n r).1 ≠ .error .undefinedBehaviour :=
      avoids_defineGet fun r1 _ => never_readBytes n r1
    rcases hrun : getBytes off n r with ⟨e | z, r'⟩
    · refine ⟨e, fun he => hdefined ?_, rfl, hno⟩
      rw [hrun, he]
    · exfalso
      have hpush : ¬ r.PushRefused := fun h => h.2 hr.2.grants
      by_cases hoff : InRange off r
      · obtain ⟨p, rfl⟩ := Int.eq_ofNat_of_zero_le hoff.1
        have hp : p ≤ mem.length := by
          have hle := hoff.2
          rw [BinaryReader.length, IStream.length, hmem] at hle
          exact_mod_cast hle
        by_cases hroom : p + n ≤ mem.length
        · obtain ⟨x, hlen, hx⟩ := exists_holds hroom
          exact hno p x rfl hlen hx
        · -- there is no room for the bytes, so that they cannot be read
          obtain ⟨r1, hin, hstream, -⟩ := stepIn_inRange hpush hoff
          have hread : IStream.read n r1.stream = (.error .truncated, r1.stream) := by
            refine IStream.read_truncated (by omega) ?_
            rw [hstream]
            simp only [IStream.length, hmem, Int.toNat_natCast]
            omega
          have herr : (readBytes n r1).1 = .error .truncated := by rw [readBytes, onStream, zoom_run, hread]
          rw [getBytes, defineGet, bind_ok hin, attempt_bind_run, attempt_bind_run, herr] at hrun
          cases hrun
      · obtain ⟨e, r1, hin, -⟩ := stepIn_outside hpush hoff
        rw [getBytes, defineGet, bind_error hin] at hrun
        cases hrun

/-! ## What it is unpacked to -/

/-- The data of a file, from the bytes that are stored for it. -/
def binderDecode (codecs : Codecs) (h : BinderFileHeader) (z : List UInt8) :
    Fallible Heap SfError (List UInt8 × DcxCompressionInfo) :=
  if binderFileIsCompressed h.flags then dcxDecompressFromBuffer codecs z else pure (z, .zlib)

/-- The data of a file is what its stored bytes are decoded to, where they are there. -/
theorem binderExtractFileData_cases (codecs : Codecs) (h : BinderFileHeader) (hr : IsCalm mem r) :
    (∃ e, e ≠ .undefinedBehaviour ∧ (binderExtractFileData codecs h r).1 = .error e ∧
      ∀ z, ¬ BinderStoredAt mem h z) ∨
    ∃ z k, k ≤ 2 ∧ BinderStoredAt mem h z ∧
      (binderExtractFileData codecs h r).1 = (binderDecode codecs h z (r.heap.drop k)).1 := by
  have hdecode {z : List UInt8} {r1 : BinaryReader} :
      ((if binderFileIsCompressed h.flags then onHeap (dcxDecompressFromBuffer codecs z) else pure (z, .zlib)) r1).1
        = (binderDecode codecs h z r1.heap).1 := by
    unfold binderDecode
    split
    · rfl
    · rfl
  unfold BinderStoredAt
  by_cases hpos : 0 < h.compressedSize
  · obtain ⟨junk, halloc⟩ := Heap.alloc_drop hr.2
    have hasked : onHeap Heap.alloc r = (.ok junk, { r with heap := r.heap.drop 1 }) := by
      rw [onHeap, zoom_run, halloc]
    have hextract : binderExtractFileData codecs h r = (getBytes (Int64.ofNat h.dataOffset).toInt h.compressedSize
        >>= fun raw => if binderFileIsCompressed h.flags then onHeap (dcxDecompressFromBuffer codecs raw)
          else pure (raw, .zlib)) { r with heap := r.heap.drop 1 } := by
      rw [binderExtractFileData, Fallible.given, if_pos (decide_eq_true hpos), binderReadStored, bind_assoc,
        bind_ok hasked]
    have hcalm : IsCalm mem { r with heap := r.heap.drop 1 } := ⟨hr.1, hr.2.drop 1⟩
    simp only [if_pos hpos]
    rcases getBytes_cases (Int64.ofNat h.dataOffset).toInt h.compressedSize hcalm with
      ⟨e, he, hrun, hno⟩ | ⟨p, k, z, r', hp, hlen, hz, hk, hrun, hheap⟩
    · refine .inl ⟨e, he, by rw [hextract, bind_error (Prod.ext hrun rfl)], ?_⟩
      rintro z ⟨p, hp, hlen, hz⟩
      exact hno p z hp hlen hz
    · refine .inr ⟨z, 1 + k, by omega, ⟨p, hp, hlen, hz⟩, ?_⟩
      rw [hextract, bind_ok hrun, hdecode, hheap, List.drop_drop]
  · refine .inr ⟨[], 0, Nat.zero_le 2, by rw [if_neg hpos], ?_⟩
    have hgiven : Fallible.given (0 < h.compressedSize) [] (binderReadStored h) r = (.ok [], r) := by
      rw [Fallible.given, if_neg (by simpa using hpos)]
      rfl
    rw [binderExtractFileData, bind_ok hgiven, hdecode]
    rfl

theorem binderExtractFileData_calm (codecs : Codecs) (h : BinderFileHeader) :
    Keeps (Over mem Heap.Calm) (binderExtractFileData codecs h) := by
  refine Keeps.bind (Keeps.given ?_) fun raw => ?_
  · exact alloc_over.bind fun _ => defineGet_over (readBytes_over _) _
  · exact Keeps.ite (fun _ => onHeap_over dcxDecompressFromBuffer_keeps) fun _ => Keeps.pure _

/-- Whether the data is got depends on the archive alone. -/
theorem lockstep_binderExtractFileData (codecs : Codecs) (h : BinderFileHeader) :
    Lockstep Alongside (fun _ _ => True) (binderExtractFileData codecs h) (binderExtractFileData codecs h) := by
  have hstored : Unaffected (binderReadStored h) := unaffected_alloc (unaffected_defineGet (unaffected_readBytes _) _)
  refine (Lockstep.given rfl hstored).seq fun raw => .ite (fun _ => ?_) fun _ => .pure trivial
  exact lockstep_onHeap ((lockstep_dcxDecompressFromBuffer _ _).mono fun _ _ _ => trivial)

/-! ## All files -/

theorem lockstep_binderReadFiles (codecs : Codecs) (headers : List BinderFileHeader) :
    Lockstep Alongside (fun _ _ => True) (binderReadFiles (binderExtractFileData codecs) headers)
      (binderReadFiles (binderExtractFileData codecs) headers) := by
  induction headers with
  | nil => exact .pure trivial
  | cons h headers ih =>
      exact (lockstep_binderExtractFileData codecs h).bind fun _ _ _ => ih.bind fun _ _ _ => .pure trivial

/-- The files that are read are those of the headers, with the data that their stored bytes are decoded to. -/
theorem binderReadFiles_ok {headers : List BinderFileHeader} {files : List BinderFile} {r' : BinaryReader}
    (hr : IsCalm mem r) (hrun : binderReadFiles (binderExtractFileData codecs) headers r = (.ok files, r')) :
    List.Forall₂ (fun h file => file.id = h.id ∧ file.nameUtf8 = h.nameUtf8 ∧ file.flags = h.flags ∧
      ∃ z heap info, heap.Calm ∧ BinderStoredAt mem h z ∧ (binderDecode codecs h z heap).1 = .ok (file.data, info))
      headers files := by
  induction headers generalizing r r' files with
  | nil =>
      cases hrun
      exact .nil
  | cons h headers ih =>
      obtain ⟨⟨x, info⟩, r1, hfirst, hrun⟩ := bind_eq_ok.1 hrun
      obtain ⟨rest, r2, hrest, hpure⟩ := bind_eq_ok.1 hrun
      cases hpure
      have hcalm := binderExtractFileData_calm codecs h r hr
      rw [hfirst] at hcalm
      refine .cons ⟨rfl, rfl, rfl, ?_⟩ (ih hcalm hrest)
      rcases binderExtractFileData_cases codecs h hr with ⟨e, -, herror, -⟩ | ⟨z, k, -, hz, hdecode⟩
      · rw [hfirst] at herror
        cases herror
      · rw [hfirst] at hdecode
        exact ⟨z, r.heap.drop k, info, hr.2.drop k, hz, hdecode.symm⟩

/-- No file makes the reader leave a buffer, if the decoder stays in its buffers on what is stored. -/
theorem avoids_binderReadFiles {headers : List BinderFileHeader} (hr : IsCalm mem r)
    (hin : ∀ h ∈ headers, binderFileIsCompressed h.flags = true →
      DcxInBounds codecs (binderStoredBytes mem h) True) :
    Avoids .undefinedBehaviour (binderReadFiles (binderExtractFileData codecs) headers) r := by
  induction headers generalizing r with
  | nil => simp [binderReadFiles]
  | cons h headers ih =>
      refine avoids_bind.2 ⟨?_, fun x r1 hfirst => ?_⟩
      · rcases binderExtractFileData_cases codecs h hr with ⟨e, he, herror, -⟩ | ⟨z, k, -, hz, hdecode⟩
        · rw [Avoids, herror]
          exact fun h => he (Except.error.inj h)
        · rw [Avoids, hdecode, binderDecode]
          split
          · next hcomp =>
              have hbounds := hin h List.mem_cons_self hcomp
              rw [← hz.eq, ← eq_true (hr.2.drop k).grants] at hbounds
              exact (avoids_dcxDecompressFromBuffer codecs z _).2 hbounds
          · rintro ⟨⟩
      · have hcalm := binderExtractFileData_calm codecs h r hr
        rw [hfirst] at hcalm
        refine avoids_bind.2 ⟨ih hcalm fun h' hmem => hin h' (List.mem_cons_of_mem _ hmem), fun files r2 _ => ?_⟩
        simp

end SoulsFormats
