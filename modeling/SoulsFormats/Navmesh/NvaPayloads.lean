import SoulsFormats.Core.Scanned
import SoulsFormats.Navmesh.Nva

set_option autoImplicit false

/-! # What the writer takes of a section that was read

The reader divides the payload of a section by the number of its entries. Where there are more entries than bytes the
size of an entry is zero, and the writer, which takes zero for a size that is not set, counts with the default size of
the section. -/

namespace SoulsFormats

open Bytes Fallible BinaryReader

/-- How many bytes the writer takes from the entries of a section. -/
def NvaSection.bytesTaken (s : NvaSection) (version : NvaVersion) : Nat := s.writtenSize version * s.entryCount

/-- The payload and the count in the header of the section at `p`. -/
def nvaHeadAt (data : List UInt8) (p : Nat) : Nat × Nat :=
  (((i32Of false data (p + 8)).toInt - 16).toNat, (i32Of false data (p + 12)).toInt.toNat)

/-- The payloads and counts of the `n` sections from `p` on. -/
def nvaHeads (data : List UInt8) : Nat → Nat → List (Nat × Nat)
  | 0, _ => []
  | n + 1, p => nvaHeadAt data p :: nvaHeads data n (p + 16 + (nvaHeadAt data p).1)

/-- Those of a file. -/
def nvaFileHeads (data : List UInt8) : List (Nat × Nat) := nvaHeads data (i32Of false data 12).toInt.toNat 16

/-- No section but the fourth, whose entries have no bytes by default, has more entries than bytes, unless it has no
    bytes at all. -/
def NvaDivides (heads : List (Nat × Nat)) : Prop :=
  ∀ (i payload count : Nat), heads[i]? = some (payload, count) → i = 3 ∨ payload = 0 ∨ count ≤ payload

/-! ## Sections -/

/-- What the reader makes of a section with this header. -/
structure NvaSection.ReadFrom (s : NvaSection) (i : Nat) (head : Nat × Nat) : Prop where
  index : s.index.toInt = i
  length : s.entryBytes.length = s.entrySize * s.entryCount
  held : 0 < head.1 → s.entryCount = head.2
  divided : 0 < head.1 → 0 < head.2 → s.entrySize = head.1 / head.2
  empty : head.1 = 0 ∨ head.2 = 0 → s.entryCount = 0

theorem nvaDefaultEntrySize_eq_zero {index : Int32} {i : Nat} (hi : index.toInt = i) (version : NvaVersion) :
    nvaDefaultEntrySize index version = 0 ↔ i = 3 := by
  have hindex : ∀ k : Nat, k ≤ 8 → (index = Int32.ofNat k ↔ i = k) := by
    intro k hk
    rw [← Int32.toInt_inj, hi, int32_toInt_ofNat (by unfold INT32_MAX; omega)]
    omega
  have h0 := hindex 0 (by omega)
  have h3 := hindex 3 (by omega)
  have h4 := hindex 4 (by omega)
  have h8 := hindex 8 (by omega)
  simp only [Int32.reduceOfNat] at h0 h3 h4 h8
  unfold nvaDefaultEntrySize
  by_cases hi0 : i = 0
  · rw [if_pos (h0.2 hi0)]
    cases version <;> simp [hi0]
  · rw [if_neg (mt h0.1 hi0)]
    by_cases hi3 : i = 3
    · simp [h3.2 hi3, hi3]
    · rw [if_neg (mt h3.1 hi3)]
      simp only [hi3, iff_false]
      split
      · decide
      · split
        · split <;> decide
        · decide

/-- A section is written within its bytes exactly if its header divides. -/
theorem NvaSection.ReadFrom.bytesTaken_le {s : NvaSection} {i : Nat} {head : Nat × Nat} (h : s.ReadFrom i head)
    (version : NvaVersion) :
    s.bytesTaken version ≤ s.entryBytes.length ↔ i = 3 ∨ head.1 = 0 ∨ head.2 ≤ head.1 := by
  obtain ⟨payload, count⟩ := head
  have hlength := h.length
  rcases Nat.eq_zero_or_pos s.entryCount with hnone | hsome
  · -- nothing is taken of no entries
    have htaken : s.bytesTaken version = 0 := by rw [bytesTaken, hnone, Nat.mul_zero]
    rw [htaken]
    refine ⟨fun _ => ?_, fun _ => Nat.zero_le _⟩
    rcases Nat.eq_zero_or_pos payload with h0 | hpos
    · exact .inr (.inl h0)
    · have hcount := h.held hpos
      exact .inr (.inr (by simp only at hcount ⊢; omega))
  · have hpayload : 0 < payload := Nat.pos_of_ne_zero fun h0 => hsome.ne' (h.empty (.inl h0))
    have hcount := h.held hpayload
    have hsize := h.divided hpayload (by omega)
    simp only at hcount hsize ⊢
    by_cases hdivides : count ≤ payload
    · have hpos : 0 < s.entrySize := by
        rw [hsize]
        exact Nat.div_pos hdivides (by omega)
      have htaken : s.bytesTaken version = s.entrySize * s.entryCount := by
        rw [bytesTaken, writtenSize, if_neg hpos.ne']
      rw [htaken, hlength]
      exact ⟨fun _ => .inr (.inr hdivides), fun _ => le_rfl⟩
    · have hzero : s.entrySize = 0 := by
        rw [hsize]
        exact Nat.div_eq_of_lt (by omega)
      have htaken : s.bytesTaken version = nvaDefaultEntrySize s.index version * s.entryCount := by
        rw [bytesTaken, writtenSize, if_pos hzero]
      rw [htaken, hlength, hzero, Nat.zero_mul, Nat.le_zero, Nat.mul_eq_zero,
        nvaDefaultEntrySize_eq_zero h.index version]
      omega

/-! ## Reading -/

section

variable {r r' : BinaryReader}

theorem seek_eq_ok {p : Int} (h : onStream (IStream.seek p) r = (.ok (), r')) :
    r'.stream.mem = r.stream.mem ∧ r'.bigEndian = r.bigEndian ∧ (r'.position : Int) = p := by
  rw [onStream, zoom_run, IStream.seek_run] at h
  split at h
  · next h0 =>
      split at h
      · cases h
        exact ⟨rfl, rfl, Int.toNat_of_nonneg h0⟩
      · cases h
  · cases h

theorem nvaReadEntries_eq_ok {payload count : Nat} {v : Nat × List UInt8}
    (h : nvaReadEntries payload count r = (.ok v, r')) :
    v.1 = payload / count ∧ v.2.length = payload / count * count ∧ r'.stream.mem = r.stream.mem ∧
      r'.bigEndian = r.bigEndian := by
  unfold nvaReadEntries at h
  by_cases hfit : payload / count * count ≤ payload
  · rw [check_bind_pos hfit] at h
    obtain ⟨junk, r1, halloc, h1⟩ := bind_eq_ok.1 h
    obtain ⟨entries, r2, hbytes, h2⟩ := bind_eq_ok.1 h1
    rw [onHeap, zoom_run, Prod.mk.injEq] at halloc
    have hlen : entries.length = payload / count * count := length_of_read (congrArg Prod.fst hbytes)
    obtain ⟨-, hmoved⟩ := readBytes_eq_ok hbytes
    cases h2
    refine ⟨rfl, hlen, ?_, ?_⟩
    · rw [hmoved.mem, ← halloc.2]
    · rw [hmoved.bigEndian, ← halloc.2]
  · rw [check_bind_neg hfit] at h
    cases h

/-- The entries are only read if there are any, and bytes for them. -/
theorem given_nvaReadEntries_eq_ok {payload : Nat} {count : Int} {read : Option (Nat × List UInt8)}
    (h : given (0 < count ∧ 0 < payload) none (do
      let read ← nvaReadEntries payload count.toNat
      pure (some read)) r = (.ok read, r')) :
    r'.stream.mem = r.stream.mem ∧ r'.bigEndian = r.bigEndian ∧
      ((payload = 0 ∨ count.toNat = 0) ∧ read = none ∨
        0 < payload ∧ 0 < count.toNat ∧ ∃ entries, read = some (payload / count.toNat, entries) ∧
          entries.length = payload / count.toNat * count.toNat) := by
  unfold given at h
  by_cases hc : 0 < count ∧ 0 < payload
  · rw [if_pos (by simpa using hc)] at h
    obtain ⟨v, r1, hread, h1⟩ := bind_eq_ok.1 h
    obtain ⟨hsize, hlen, hmem, hbig⟩ := nvaReadEntries_eq_ok hread
    cases h1
    exact ⟨hmem, hbig, .inr ⟨hc.2, by omega, v.2, by rw [← hsize], hlen⟩⟩
  · rw [if_neg (by simpa using hc)] at h
    cases h
    exact ⟨rfl, rfl, .inl ⟨by omega, rfl⟩⟩

/-- A section that was read is that of its header, and the reader stands behind its payload. -/
theorem nvaReadSection_eq_ok {data : List UInt8} {i : Nat} {s : NvaSection} (hr : r.stream.mem = data)
    (hbe : r.bigEndian = false) (h : nvaReadSection i r = (.ok s, r')) :
    s.ReadFrom i (nvaHeadAt data r.position) ∧ r'.stream.mem = data ∧ r'.bigEndian = false ∧
      r'.position = r.position + 16 + (nvaHeadAt data r.position).1 := by
  subst hr
  obtain ⟨index, r1, hindex, h⟩ := bind_eq_ok.1 h
  obtain ⟨version, r2, hversion, h⟩ := bind_eq_ok.1 h
  obtain ⟨length, r3, hlength, h⟩ := bind_eq_ok.1 h
  obtain ⟨count, r4, hcount, h⟩ := bind_eq_ok.1 h
  obtain ⟨-, m1⟩ := readI32_eq_ok hindex
  obtain ⟨-, m2⟩ := readI32_eq_ok hversion
  obtain ⟨rfl, m3⟩ := readI32_eq_ok hlength
  obtain ⟨rfl, m4⟩ := readI32_eq_ok hcount
  have m12 := m1.trans m2
  have m13 := m12.trans m3
  have m14 := m13.trans m4
  rw [m12.bigEndian, m12.mem, m12.pos, m13.bigEndian, m13.mem, m13.pos, hbe] at h
  simp only [Nat.reduceAdd] at h
  by_cases hchecked : index.toInt = i
  · rw [check_bind_pos hchecked] at h
    by_cases hrange : 16 ≤ (i32Of false r.stream.mem (r.position + 8)).toInt ∧
        0 ≤ (i32Of false r.stream.mem (r.position + 12)).toInt
    · rw [check_bind_pos hrange, peek_bind_run] at h
      obtain ⟨read, r5, hread, h⟩ := bind_eq_ok.1 h
      rw [peek_bind_run] at h
      obtain ⟨⟨⟩, r6, hskip, h⟩ := bind_eq_ok.1 h
      rw [skip, peek_bind_run] at hskip
      obtain ⟨hmem, hbig, hpos⟩ := seek_eq_ok hskip
      have hstop : r6.position = r.position + 16 + (nvaHeadAt r.stream.mem r.position).1 := by
        rw [m14.pos] at hpos
        simp only [nvaHeadAt]
        omega
      obtain ⟨hmem5, hbig5, hcases⟩ := given_nvaReadEntries_eq_ok hread
      rw [m14.mem] at hmem5
      rw [m14.bigEndian, hbe] at hbig5
      have hrest : r'.stream.mem = r.stream.mem ∧ r'.bigEndian = false ∧
          r'.position = r.position + 16 + (nvaHeadAt r.stream.mem r.position).1 := by
        have hr6 : r' = r6 := by cases read <;> exact (Prod.mk.inj h).2.symm
        rw [hr6]
        exact ⟨hmem.trans hmem5, hbig.trans hbig5, hstop⟩
      refine ⟨?_, hrest⟩
      obtain ⟨hempty, rfl⟩ | ⟨hpayload, hcount, entries, rfl, hlen⟩ := hcases
      · cases h
        refine ⟨hchecked, rfl, fun hpos => ?_, fun hpos hpos' => ?_, fun _ => rfl⟩
        · simp only [nvaHeadAt] at hpos ⊢
          omega
        · simp only [nvaHeadAt] at hpos hpos'
          omega
      · cases h
        refine ⟨hchecked, hlen, fun _ => rfl, fun _ _ => rfl, fun hnone => ?_⟩
        simp only [nvaHeadAt] at hnone
        omega
    · rw [check_bind_neg hrange] at h
      cases h
  · rw [check_bind_neg hchecked] at h
    cases h

/-- The sections are those of the headers, one after another. -/
theorem nvaReadSections_eq_ok {data : List UInt8} {n i : Nat} {sections : List NvaSection} (hr : r.stream.mem = data)
    (hbe : r.bigEndian = false) (h : nvaReadSections n i r = (.ok sections, r')) :
    sections.length = n ∧ ∀ (j : Nat) (s : NvaSection), sections[j]? = some s →
      ∃ head, (nvaHeads data n r.position)[j]? = some head ∧ s.ReadFrom (i + j) head := by
  induction n generalizing i sections r r' with
  | zero =>
      cases h
      exact ⟨rfl, nofun⟩
  | succ n ih =>
      obtain ⟨s, r1, hread, h1⟩ := bind_eq_ok.1 h
      obtain ⟨rest, r2, hrest, h2⟩ := bind_eq_ok.1 h1
      obtain ⟨hs, hmem, hbig, hpos⟩ := nvaReadSection_eq_ok hr hbe hread
      obtain ⟨hlen, hall⟩ := ih hmem hbig hrest
      cases h2
      refine ⟨by rw [List.length_cons, hlen], fun j t ht => ?_⟩
      rw [nvaHeads]
      cases j with
      | zero =>
          cases ht
          exact ⟨_, rfl, hs⟩
      | succ j =>
          obtain ⟨head, hhead, hfrom⟩ := hall j t ht
          rw [hpos] at hhead
          exact ⟨head, hhead, by rwa [Nat.add_right_comm, Nat.add_assoc] at hfrom⟩

theorem length_nvaHeads (data : List UInt8) (n p : Nat) : (nvaHeads data n p).length = n := by
  induction n generalizing p with
  | zero => rfl
  | succ n ih => rw [nvaHeads, List.length_cons, ih]

theorem nvaRead_eq_ok {data : List UInt8} {nva : Nva} (hr : r.stream.mem = data) (hbe : r.bigEndian = false)
    (hpos : r.position = 0) (h : nvaRead r = (.ok nva, r')) :
    nva.sections.length = (nvaFileHeads data).length ∧ ∀ (j : Nat) (s : NvaSection), nva.sections[j]? = some s →
      ∃ head, (nvaFileHeads data)[j]? = some head ∧ s.ReadFrom j head := by
  obtain ⟨⟨⟩, r1, hmagic, h⟩ := bind_eq_ok.1 h
  obtain ⟨v, r2, hversion, h⟩ := bind_eq_ok.1 h
  have hmoved1 : Moved r 4 r1 := by
    unfold assertAscii at hmagic
    rw [if_neg (by decide)] at hmagic
    obtain ⟨buf, r0, hbytes, hcheck⟩ := bind_eq_ok.1 hmagic
    obtain ⟨-, hmoved⟩ := readBytes_eq_ok hbytes
    rw [check_run] at hcheck
    split at hcheck
    · cases hcheck
      exact hmoved
    · cases hcheck
  have hmoved2 : Moved r 8 r2 := by
    obtain ⟨w, r0, hw, hpure⟩ := bind_eq_ok.1 hversion
    obtain ⟨-, hmoved⟩ := defineReadInt_eq_ok hw
    cases hpure
    exact hmoved1.trans hmoved
  cases hparsed : NvaVersion.ofUInt32? v with
  | none =>
      rw [hparsed] at h
      cases h
  | some version =>
      rw [hparsed] at h
      obtain ⟨w, r3, hsize, h⟩ := bind_eq_ok.1 h
      obtain ⟨count, r4, hcount, h⟩ := bind_eq_ok.1 h
      have hmoved3 : Moved r 12 r3 := by
        obtain ⟨w, r0, hw, hpure⟩ := bind_eq_ok.1 hsize
        obtain ⟨-, hmoved⟩ := defineReadInt_eq_ok hw
        cases hpure
        exact hmoved2.trans hmoved
      obtain ⟨hvalue, hmoved⟩ := readI32_eq_ok hcount
      have hmoved4 := hmoved3.trans hmoved
      rw [hmoved3.bigEndian, hbe, hmoved3.mem, hr, hmoved3.pos, hpos] at hvalue
      by_cases hsections : count.toInt = version.sectionCount
      · rw [check_bind_pos hsections] at h
        obtain ⟨_, r5, halloc1, h⟩ := bind_eq_ok.1 h
        obtain ⟨_, r6, halloc2, h⟩ := bind_eq_ok.1 h
        obtain ⟨sections, r7, hread, h⟩ := bind_eq_ok.1 h
        rw [onHeap, zoom_run, Prod.mk.injEq] at halloc1 halloc2
        have hmem6 : r6.stream.mem = data := by rw [← halloc2.2, ← halloc1.2, ← hr, ← hmoved4.mem]
        have hbig6 : r6.bigEndian = false := by rw [← halloc2.2, ← halloc1.2, ← hbe, ← hmoved4.bigEndian]
        have hpos6 : r6.position = 16 := by
          have hpos4 := hmoved4.pos
          rw [hpos] at hpos4
          rw [← halloc2.2, ← halloc1.2]
          exact hpos4
        obtain ⟨hlen, hall⟩ := nvaReadSections_eq_ok hmem6 hbig6 hread
        have hn : (i32Of false data 12).toInt.toNat = version.sectionCount := by
          rw [← hvalue, hsections]
          rfl
        cases h
        rw [nvaFileHeads, hn, length_nvaHeads]
        refine ⟨hlen, fun j s hs => ?_⟩
        obtain ⟨head, hhead, hfrom⟩ := hall j s hs
        rw [hpos6] at hhead
        exact ⟨head, hhead, by rwa [Nat.zero_add] at hfrom⟩
      · rw [check_bind_neg hsections] at h
        cases h

end

/-- **The writer takes only what a section of a file owns exactly if every section of the file divides.** -/
theorem nva_bytesTaken_le_iff (flexible : Bool) (data : List UInt8) (heap : Heap) (nva : Nva)
    (h : (nvaReadFromMemory flexible data heap).1 = .ok nva) :
    (∀ s ∈ nva.sections, s.bytesTaken nva.version ≤ s.entryBytes.length) ↔ NvaDivides (nvaFileHeads data) := by
  obtain ⟨heap', r', hrun, -⟩ := onMemory_eq_ok h
  obtain ⟨hlen, hall⟩ := @nvaRead_eq_ok _ _ data nva rfl rfl rfl hrun
  constructor
  · intro hle i payload count hhead
    obtain ⟨hi, -⟩ := List.getElem?_eq_some_iff.1 hhead
    have hs := List.getElem?_eq_getElem (l := nva.sections) (i := i) (by omega)
    obtain ⟨head, hsame, hfrom⟩ := hall i _ hs
    rw [hhead] at hsame
    cases hsame
    exact (hfrom.bytesTaken_le nva.version).1 (hle _ (List.mem_of_getElem? hs))
  · intro hdivides s hs
    obtain ⟨i, hi⟩ := List.getElem?_of_mem hs
    obtain ⟨⟨payload, count⟩, hhead, hfrom⟩ := hall i s hi
    exact (hfrom.bytesTaken_le nva.version).2 (hdivides i payload count hhead)

/-- A file of Dark Souls 3 whose first section has `count` entries in `payload`. -/
def nvaOneSection (count : UInt8) (payload : List UInt8) : List UInt8 :=
  cstr "NVMA" ++ [4, 0, 0, 0, 0, 0, 0, 0, 9, 0, 0, 0] ++
    ([0, 0, 0, 0, 2, 0, 0, 0, UInt8.ofNat (16 + payload.length), 0, 0, 0, count, 0, 0, 0] ++ payload) ++
    (List.range 8).flatMap fun i => [UInt8.ofNat (i + 1), 0, 0, 0, 1, 0, 0, 0, 16, 0, 0, 0, 0, 0, 0, 0]

/-- An entry of two bytes is taken as it is. -/
theorem nvaOneSection_taken :
    (nvaReadFromMemory false (nvaOneSection 1 [7, 8]) []).1.toOption.isSome = true ∧
      ∃ nva, (nvaReadFromMemory false (nvaOneSection 1 [7, 8]) []).1 = .ok nva ∧
        ∀ s ∈ nva.sections, s.bytesTaken nva.version ≤ s.entryBytes.length := by
  have hread : (nvaReadFromMemory false (nvaOneSection 1 [7, 8]) []).1.toOption.isSome = true := by decide +kernel
  refine ⟨hread, ?_⟩
  cases hrun : (nvaReadFromMemory false (nvaOneSection 1 [7, 8]) []).1 with
  | error e =>
      rw [hrun] at hread
      cases hread
  | ok nva =>
      refine ⟨nva, rfl, (nva_bytesTaken_le_iff _ _ _ _ hrun).2 ?_⟩
      have hheads : nvaFileHeads (nvaOneSection 1 [7, 8]) = (2, 1) :: List.replicate 8 (0, 0) := by decide +kernel
      intro i payload count hi
      rw [hheads] at hi
      cases i with
      | zero =>
          cases hi
          exact .inr (.inr (by decide))
      | succ i =>
          obtain ⟨rfl, rfl⟩ := Prod.mk.inj (List.eq_of_mem_replicate (List.mem_of_getElem? hi))
          exact .inr (.inl rfl)

/-- Two entries in one byte: the writer takes 128 bytes of a block that has none. -/
theorem nvaOneSection_overread :
    (∃ nva, (nvaReadFromMemory false (nvaOneSection 2 [7]) []).1 = .ok nva ∧
      ∃ s ∈ nva.sections, s.entryBytes.length = 0 ∧ s.bytesTaken nva.version = 128 ∧
        (nvaWriteToMemory .ascii nva []).1 = .error .undefinedBehaviour) ∧
    ¬ NvaDivides (nvaFileHeads (nvaOneSection 2 [7])) := by
  constructor
  · refine ⟨((nvaReadFromMemory false (nvaOneSection 2 [7]) []).1.toOption.getD ⟨.sekiro, []⟩), by decide +kernel,
      ⟨0, 2, some [], 0, 2, 2⟩, by decide +kernel, by decide, by decide +kernel, by decide +kernel⟩
  · intro h
    have hhead : (nvaFileHeads (nvaOneSection 2 [7]))[0]? = some (1, 2) := by decide +kernel
    rcases h 0 1 2 hhead with h3 | h0 | hle
    · exact absurd h3 (by decide)
    · exact absurd h0 (by decide)
    · exact absurd hle (by decide)

end SoulsFormats
