import SoulsFormats.Navmesh.Nva
import SoulsFormats.Core.Making
import SoulsFormats.Core.Sequential

set_option autoImplicit false

/-! # Reading back an area

A section comes back as it was exactly if its padding is shorter than the number of its entries. The entries
that the format versions prescribe fill whole lines of sixteen bytes, but for those of the last section of
Sekiro. -/

namespace SoulsFormats

open Bytes Fallible

/-! ## What is stored -/

/-- The padding behind a payload. -/
def nvaPadding (n : Nat) : Nat := if n % 0x10 ≠ 0 then 0x10 - n % 0x10 else 0

/-- The bytes of a section. -/
def nvaSectionBytes (s : NvaSection) : List UInt8 :=
  wordBytes false 4 s.index.toUInt32.toNat ++ (wordBytes false 4 s.version.toUInt32.toNat ++
    (wordBytes false 4 (s.entryBytes.length + nvaPadding s.entryBytes.length + 16) ++
      (wordBytes false 4 s.entryCount ++
        (s.entryBytes ++ List.replicate (nvaPadding s.entryBytes.length) 0xFF))))

/-- The length of the payload of a section with its padding. -/
def NvaSection.stored (s : NvaSection) : Nat := s.entryBytes.length + nvaPadding s.entryBytes.length

theorem length_nvaSectionBytes (s : NvaSection) : (nvaSectionBytes s).length = 16 + s.stored := by
  simp only [nvaSectionBytes, NvaSection.stored, List.length_append, length_wordBytes, List.length_replicate]
  omega

/-- Where the `i`-th section starts. -/
def Nva.offset (n : Nva) (i : Nat) : Nat := 16 + ((n.sections.take i).map fun s => 16 + s.stored).sum

theorem Nva.offset_succ (n : Nva) {i : Nat} {s : NvaSection} (hs : n.sections[i]? = some s) :
    n.offset (i + 1) = n.offset i + (16 + s.stored) := by
  unfold Nva.offset
  rw [List.take_add_one, hs, Option.toList_some, List.map_append, List.sum_append, List.map_singleton,
    List.sum_singleton, Nat.add_assoc]

theorem nvaPadding_dvd (n : Nat) : (n + nvaPadding n) % 0x10 = 0 := by
  unfold nvaPadding
  split <;> omega

theorem Nva.offset_mod (n : Nva) (i : Nat) : n.offset i % 0x10 = 0 := by
  have hsum : ∀ l : List NvaSection, (l.map fun s => 16 + s.stored).sum % 0x10 = 0 := by
    intro l
    induction l with
    | nil => rfl
    | cons s l ih =>
        have hs : s.stored % 0x10 = 0 := nvaPadding_dvd s.entryBytes.length
        rw [List.map_cons, List.sum_cons]
        omega
  have h := hsum (n.sections.take i)
  unfold Nva.offset
  omega

/-- The size of the file. -/
def Nva.fileSize (n : Nva) : Nat := n.offset n.sections.length

/-- What the writer asks of the sizes. -/
structure Nva.Fits (n : Nva) : Prop where
  counts : ∀ s ∈ n.sections, s.entryCount ≤ INT32_MAX
  lengths : ∀ s ∈ n.sections, 16 + s.stored ≤ INT32_MAX
  file : n.fileSize ≤ UINT32_MAX

/-! ## Sections in memory -/

/-- The block of a section has its entries, and a section with entries has those of its version. -/
structure NvaSection.Sound (version : NvaVersion) (i : Nat) (s : NvaSection) : Prop where
  index : s.index = Int32.ofNat i
  length : s.entryBytes.length = s.entrySize * s.entryCount
  held : 0 < s.entryCount → s.entries.isSome = true
  size : 0 < s.entryCount → s.entrySize = nvaDefaultEntrySize s.index version

structure Nva.Sound (n : Nva) : Prop where
  count : n.sections.length = n.version.sectionCount
  sections : ∀ (i : Nat) (s : NvaSection), n.sections[i]? = some s → s.Sound n.version i

section

variable {version : NvaVersion} {i : Nat} {s : NvaSection}

/-- The writer counts the bytes that are there. -/
theorem NvaSection.Sound.payload (h : s.Sound version i) :
    s.writtenSize version * s.entryCount = s.entryBytes.length := by
  rw [h.length]
  rcases Nat.eq_zero_or_pos s.entryCount with h0 | hpos
  · rw [h0, Nat.mul_zero, Nat.mul_zero]
  · have hsize := h.size hpos
    unfold NvaSection.writtenSize
    split
    · rw [hsize]
    · rfl

theorem NvaSection.Sound.held_of_bytes (h : s.Sound version i) (hne : 0 < s.entryBytes.length) :
    s.entries.isSome = true := by
  refine h.held ?_
  rw [h.length] at hne
  exact Nat.pos_of_mul_pos_left hne

end

/-! ## Slots -/

inductive NvaSlot where
  | fileSize | sectionLength
deriving DecidableEq

def nvaLabels : BinaryWriter.Labels NvaSlot where
  base
    | .fileSize => "FileSize"
    | .sectionLength => "NvaSecLen_"
  kind
    | .fileSize => .u32
    | .sectionLength => .i32
  noDigits := by
    intro a
    cases a <;> decide
  inj := by
    intro a b h
    cases a <;> cases b <;> first | rfl | exact absurd h (by decide)

def nvaAddr (n : Nva) : NvaSlot → Option Nat → Nat
  | .fileSize, _ => 8
  | .sectionLength, i => n.offset (i.getD 0) + 8

abbrev nvaSlots (n : Nva) : BinaryWriter.FileSlots (NvaSlot × Option Nat) := nvaLabels.slots (nvaAddr n)

/-! ## Writing -/

section Writing

open BinaryWriter

variable {n : Nva} {os : Win32}

theorem makes_nvaWriteSection (hfits : n.Fits) (hsound : n.Sound) (hroom : n.fileSize ≤ fileRoom) {i : Nat}
    {s : NvaSection} (hs : n.sections[i]? = some s) (live : Set (NvaSlot × Option Nat))
    (hfree : (NvaSlot.sectionLength, some i) ∉ live) (hend : n.offset (i + 1) ≤ n.fileSize) :
    Makes (nvaSlots n) (nvaWriteSection n.version i s) ⟨n.offset i, false, false⟩ live
      (fun _ st live' => st = ⟨n.offset (i + 1), false, false⟩ ∧ live' = live)
      fun _ _ B => Holds B (n.offset i) (nvaSectionBytes s) := by
  have hmem : s ∈ n.sections := List.mem_of_getElem? hs
  have hsec := hsound.sections i s hs
  have hnext := n.offset_succ hs
  have hmod := n.offset_mod i
  have hcount := hfits.counts s hmem
  have hlength := hfits.lengths s hmem
  have hstored : s.stored = s.entryBytes.length + nvaPadding s.entryBytes.length := rfl
  have hsmall : i < 9 := by
    have hlt := (List.getElem?_eq_some_iff.1 hs).1
    rw [hsound.count] at hlt
    cases hv : n.version <;> rw [hv] at hlt <;> simp only [NvaVersion.sectionCount] at hlt <;> omega
  have hlabels : ∀ j < 9, (label "NvaSecLen_" j).length < 24 := by decide
  have hlabel := hlabels i hsmall
  unfold nvaWriteSection
  refine Makes.check hcount ?_
  simp only [hsec.payload]
  refine Makes.i32 (by omega) (Makes.i32 (by omega) (Makes.check hlabel ?_))
  refine Makes.reserveI32 (.sectionLength, some i) rfl (by rfl) hfree (by omega) (Makes.i32 (by omega) ?_)
  refine Makes.position ?_
  refine Makes.piece (x := s.entryBytes) (Delivers.given (fun _ => ?_) fun h0 => ?_) (by omega) (Makes.position ?_)
  · intro pos live hfit
    refine Makes.check le_rfl ?_
    rw [List.take_length]
    exact delivers_bytes _ pos live hfit
  · by_contra hne
    have hpos := List.length_pos_iff.2 hne
    simp [hsec.held_of_bytes hpos, hpos] at h0
  · have hpad : (if (n.offset i + 4 + 4 + 4 + 4 + s.entryBytes.length) % 0x10 ≠ 0 then
        0x10 - (n.offset i + 4 + 4 + 4 + 4 + s.entryBytes.length) % 0x10 else 0)
        = nvaPadding s.entryBytes.length := by
      have hsame : (n.offset i + 4 + 4 + 4 + 4 + s.entryBytes.length) % 0x10 = s.entryBytes.length % 0x10 := by omega
      rw [hsame]
      rfl
    rw [hpad]
    have hbytes : (List.replicate (nvaPadding s.entryBytes.length) (0xFF : UInt8)).flatMap (fun v => [v])
        = List.replicate (nvaPadding s.entryBytes.length) 0xFF := by
      simp
    have hpiece : Delivers (nvaSlots n) false false
        (writeEach writeU8 (List.replicate (nvaPadding s.entryBytes.length) 0xFF))
        (List.replicate (nvaPadding s.entryBytes.length) 0xFF) := by
      conv => rhs; rw [← hbytes]
      exact delivers_each _ fun v _ => delivers_u8 v
    refine Makes.piece hpiece (by rw [List.length_replicate]; omega) (Makes.position ?_)
    rw [List.length_replicate]
    have hdiff : n.offset i + 4 + 4 + 4 + 4 + s.entryBytes.length + nvaPadding s.entryBytes.length
        - (n.offset i + 4 + 4 + 4 + 4) + 16 = s.entryBytes.length + nvaPadding s.entryBytes.length + 16 := by omega
    rw [hdiff]
    refine Makes.check (by omega) (Makes.last (Makes.fillI32 (.sectionLength, some i) rfl (by simp) ?_))
    refine Makes.done ⟨?_, Set.insert_sdiff_self_of_notMem hfree⟩ fun B hword hpad hentries hcount hversion hindex => ?_
    · rw [hnext]
      congr 1
      omega
    · rw [wordBytes_i32] at hword hcount
      unfold nvaSectionBytes
      refine holds_append.2 ⟨hindex, holds_append.2 ⟨?_, holds_append.2 ⟨?_, holds_append.2 ⟨?_, ?_⟩⟩⟩⟩
      · simpa [length_wordBytes] using hversion
      · simpa [length_wordBytes, Nat.add_assoc, nvaAddr] using hword
      · simpa [length_wordBytes, Nat.add_assoc] using hcount
      · refine holds_append.2 ⟨?_, ?_⟩
        · simpa [length_wordBytes, Nat.add_assoc] using hentries
        · simpa [length_wordBytes, Nat.add_assoc] using hpad

/-- What the file of an area has. -/
structure NvaImage (n : Nva) (B : List UInt8) : Prop where
  magic : Holds B 0 (cstr "NVMA")
  version : Holds B 4 (wordBytes false 4 n.version.toUInt32.toNat)
  fileSize : Holds B 8 (wordBytes false 4 (UInt32.ofNat n.fileSize).toNat)
  count : Holds B 12 (wordBytes false 4 n.version.sectionCount)
  sections : ∀ i s, n.sections[i]? = some s → Holds B (n.offset i) (nvaSectionBytes s)

theorem Nva.offset_le (n : Nva) (i : Nat) : n.offset i ≤ n.fileSize := by
  have hsum : ∀ (l : List NvaSection) (i : Nat),
      ((l.take i).map fun s => 16 + s.stored).sum ≤ (l.map fun s => 16 + s.stored).sum := by
    intro l
    induction l with
    | nil => simp
    | cons s l ih =>
        intro i
        cases i with
        | zero => simp
        | succ i => simpa using ih i
  unfold Nva.fileSize Nva.offset
  rw [List.take_length]
  exact Nat.add_le_add_left (hsum n.sections i) 16

/-- An area whose sizes fit is written. -/
theorem makes_nvaWrite (hos : os.AsciiCompatible) (hfits : n.Fits) (hsound : n.Sound) :
    Makes (nvaSlots n) (nvaWrite os n) ⟨0, false, false⟩ ∅ (fun _ _ live => live = ∅)
      fun _ _ B => NvaImage n B := by
  have hfile := hfits.file
  have hmax : UINT32_MAX = 2 ^ 32 - 1 := rfl
  have hlimit : fileRoom = 2 ^ 40 := rfl
  refine Makes.piece (delivers_ascii hos (by decide) (by decide)) (by decide) ?_
  have hlen : (cstr "NVMA").length = 4 := rfl
  rw [hlen]
  refine Makes.u32 (by decide) (Makes.reserveU32 (.fileSize, none) rfl rfl (Set.notMem_empty _) (by decide) ?_)
  refine Makes.i32 (by decide) ?_
  refine (makes_forIndexed (F := fun i s B => Holds B (n.offset i) (nvaSectionBytes s))
    (fun i st live => st = ⟨n.offset i, false, false⟩ ∧ live = {(NvaSlot.fileSize, none)}) n.sections ?_ ?_).seq ?_
  · intro i s st live hs hI
    obtain ⟨rfl, rfl⟩ := hI
    have hend := n.offset_le (i + 1)
    refine (makes_nvaWriteSection hfits hsound (by omega) hs _ (by simp) hend).conseq ?_
    rintro _ st live ⟨rfl, rfl⟩
    exact ⟨⟨rfl, rfl⟩, fun B hB => hB⟩
  · exact ⟨rfl, by simp⟩
  · rintro _ st live ⟨rfl, rfl⟩
    refine Makes.position (Makes.check hfile (Makes.last (Makes.fillU32 (.fileSize, none) rfl (by simp) ?_)))
    refine Makes.done (by simp) fun B hsize hsections hcount hversion hmagic => ?_
    rw [wordBytes_i32] at hcount
    exact ⟨hmagic, hversion, hsize, hcount, hsections⟩

/-- A section that is written fits. -/
theorem puts_nvaWriteSection {version : NvaVersion} {i : Nat} {s : NvaSection}
    (hsec : s.Sound version i) {pos : Nat} (hpos : pos % 0x10 = 0) :
    Puts noSlots (nvaWriteSection version i s) ⟨pos, false, false⟩ (fun _ st =>
      st = ⟨pos + (16 + s.stored), false, false⟩ ∧ s.entryCount ≤ INT32_MAX ∧ 16 + s.stored ≤ INT32_MAX)
      fun _ _ _ => True := by
  have hstored : s.stored = s.entryBytes.length + nvaPadding s.entryBytes.length := rfl
  have hother : ∀ k, ∀ e, noSlots.key e ≠ k := fun _ => nofun
  unfold nvaWriteSection
  refine Puts.check fun hcount => ?_
  simp only [hsec.payload]
  refine Puts.i32 (Puts.i32 (Puts.check fun _ => Puts.reserveOther (k := .i32) (hother _) (Puts.i32 ?_)))
  have hwidth : kindWidth (scalarKind false .i32) = 4 := rfl
  rw [hwidth]
  refine Puts.position ?_
  have hentries : Puts noSlots (given (decide (0 < s.entryBytes.length ∧ s.entries.isSome = true)) ()
      (nvaWriteEntries s s.entryBytes.length)) ⟨pos + 4 + 4 + 4 + 4, false, false⟩
      (fun _ st => st = ⟨pos + 4 + 4 + 4 + 4 + s.entryBytes.length, false, false⟩) fun _ _ _ => True := by
    by_cases hne : 0 < s.entryBytes.length
    · have hheld := hsec.held_of_bytes hne
      rw [decide_eq_true ⟨hne, hheld⟩]
      refine Puts.check fun _ => ?_
      rw [List.take_length]
      exact Puts.last (Puts.bytes (Puts.done rfl fun _ _ => trivial))
    · have hnil : s.entryBytes = [] := by
        by_contra h
        exact hne (List.length_pos_iff.2 h)
      rw [hnil]
      exact Puts.done rfl fun _ => trivial
  refine hentries.seq fun _ st hst => ?_
  subst hst
  refine Puts.position ?_
  have hpad : (if (pos + 4 + 4 + 4 + 4 + s.entryBytes.length) % 0x10 ≠ 0 then
      0x10 - (pos + 4 + 4 + 4 + 4 + s.entryBytes.length) % 0x10 else 0) = nvaPadding s.entryBytes.length := by
    have hsame : (pos + 4 + 4 + 4 + 4 + s.entryBytes.length) % 0x10 = s.entryBytes.length % 0x10 := by omega
    rw [hsame]
    rfl
  rw [hpad]
  have hpadding : ∀ (k : Nat) (p : Nat), Puts noSlots (writeEach writeU8 (List.replicate k 0xFF)) ⟨p, false, false⟩
      (fun _ st => st = ⟨p + k, false, false⟩) fun _ _ _ => True := by
    intro k
    induction k with
    | zero => exact fun p => Puts.done rfl fun _ => trivial
    | succ k ih =>
        intro p
        refine Puts.u8 ((ih (p + 1)).conseq fun _ st hst => ⟨?_, fun _ _ _ => trivial⟩)
        rw [hst, Nat.add_assoc, Nat.add_comm 1 k]
  refine (hpadding _ _).seq fun _ st hst => ?_
  subst hst
  refine Puts.position (Puts.check fun hlength => Puts.last (Puts.fillOther (k := .i32) ?_))
  refine Puts.done ⟨?_, hcount, by omega⟩ fun _ _ _ _ _ _ => trivial
  congr 1
  omega

/-- An area that is written fits. -/
theorem fits_of_nvaWrite (hos : os.AsciiCompatible) (hsound : n.Sound) {heap : Heap} {out : List UInt8}
    (hwrite : (nvaWriteToMemory os n heap).1 = .ok out) : n.Fits := by
  have hother : ∀ k, ∀ e, noSlots.key e ≠ k := fun _ => nofun
  have hputs : Puts noSlots (nvaWrite os n) ⟨0, false, false⟩ (fun _ _ => n.Fits) fun _ _ _ => True := by
    refine Puts.ascii hos (by decide) (Puts.u32 (Puts.reserveOther (k := .u32) (hother _) (Puts.i32 ?_)))
    refine (puts_forIndexed (F := fun _ _ _ => True) (fun i st => st = ⟨n.offset i, false, false⟩ ∧
      ∀ s ∈ n.sections.take i, s.entryCount ≤ INT32_MAX ∧ 16 + s.stored ≤ INT32_MAX) n.sections ?_ ?_).seq ?_
    · intro i s st hs hI
      obtain ⟨rfl, hfits⟩ := hI
      refine (puts_nvaWriteSection (hsound.sections i s hs) (n.offset_mod i)).conseq ?_
      rintro _ st ⟨rfl, hnew⟩
      refine ⟨⟨by rw [n.offset_succ hs], ?_⟩, fun _ _ => trivial⟩
      rw [List.take_add_one, hs, Option.toList_some]
      intro t ht
      rcases List.mem_append.1 ht with h | h
      · exact hfits t h
      · rw [List.mem_singleton.1 h]
        exact hnew
    · exact ⟨rfl, by simp⟩
    · rintro _ st ⟨rfl, hfits⟩
      rw [List.take_length] at hfits
      refine Puts.position (Puts.check fun hfile => Puts.last (Puts.fillOther (k := .u32) ?_))
      exact Puts.done ⟨fun s hs => (hfits s hs).1, fun s hs => (hfits s hs).2, hfile⟩
        fun _ _ _ _ _ => trivial
  obtain ⟨_, hfits, -⟩ := hputs.toMemory nofun hwrite
  exact hfits

end Writing

/-! ## Reading -/

section Reading

open BinaryReader

/-- What the reader makes of a section that was written. -/
def NvaSection.readBack (s : NvaSection) : NvaSection :=
  if 0 < s.entryCount ∧ 0 < s.stored then
    ⟨s.index, s.version,
      some ((s.entryBytes ++ List.replicate (nvaPadding s.entryBytes.length) 0xFF).take
        (s.stored / s.entryCount * s.entryCount)),
      s.stored / s.entryCount, s.entryCount, s.entryCount⟩
  else ⟨s.index, s.version, none, 0, 0, 0⟩

variable {n : Nva} {B : List UInt8}

theorem reads_nvaReadSection {i : Nat} {s : NvaSection} (hindex : s.index = Int32.ofNat i) (hi : i ≤ INT32_MAX)
    (hcount : s.entryCount ≤ INT32_MAX) (hlength : 16 + s.stored ≤ INT32_MAX) {pos : Nat}
    (hB : Holds B pos (nvaSectionBytes s)) (flexible : Bool) :
    Reads (nvaReadSection i) ⟨B, pos, false, false, [], flexible⟩ s.readBack
      ⟨B, pos + (16 + s.stored), false, false, [], flexible⟩ := by
  have hstored : s.stored = s.entryBytes.length + nvaPadding s.entryBytes.length := rfl
  have hle := hB.le
  rw [length_nvaSectionBytes] at hle
  unfold nvaSectionBytes at hB
  obtain ⟨h0, hB⟩ := holds_append.1 hB
  obtain ⟨h1, hB⟩ := holds_append.1 hB
  obtain ⟨h2, hB⟩ := holds_append.1 hB
  obtain ⟨h3, hB⟩ := holds_append.1 hB
  simp only [length_wordBytes] at h1 h2 h3 hB
  rw [← wordBytes_i32] at h2 h3
  have hlengthInt : (Int32.ofNat (s.stored + 16)).toInt = (s.stored + 16 : Nat) := int32_toInt_ofNat (by omega)
  have hcountInt : (Int32.ofNat s.entryCount).toInt = (s.entryCount : Nat) := int32_toInt_ofNat hcount
  have hpayload : ((Int32.ofNat (s.stored + 16)).toInt - 16).toNat = s.stored := by
    rw [hlengthInt]
    omega
  unfold nvaReadSection
  refine Reads.i32 h0 (Reads.i32 h1 (Reads.i32 h2 (Reads.i32 h3 ?_)))
  refine Reads.check (by rw [hindex, int32_toInt_ofNat hi]) ?_
  rw [← hstored]
  refine Reads.check ⟨by rw [hlengthInt]; omega, by rw [hcountInt]; omega⟩ (Reads.position ?_)
  simp only [hpayload, hcountInt, Int.toNat_natCast]
  have hsize : s.stored / s.entryCount * s.entryCount ≤ s.stored := Nat.div_mul_le_self ..
  let bytes := (s.entryBytes ++ List.replicate (nvaPadding s.entryBytes.length) 0xFF).take
    (s.stored / s.entryCount * s.entryCount)
  have hblock : (s.entryBytes ++ List.replicate (nvaPadding s.entryBytes.length) (0xFF : UInt8)).length = s.stored := by
    rw [List.length_append, List.length_replicate, hstored]
  have hbyteslen : bytes.length = s.stored / s.entryCount * s.entryCount := by
    rw [List.length_take, hblock]
    exact Nat.min_eq_left hsize
  have hbytes : Holds B (pos + 4 + 4 + 4 + 4) bytes := by
    rw [← List.take_append_drop (s.stored / s.entryCount * s.entryCount)
      (s.entryBytes ++ List.replicate (nvaPadding s.entryBytes.length) (0xFF : UInt8))] at hB
    exact (holds_append.1 hB).1
  -- what is read of the payload, which is no more than the payload has
  refine Reads.given (v := if 0 < s.entryCount ∧ 0 < s.stored then some (s.stored / s.entryCount, bytes) else none)
    (n := s.stored / s.entryCount * s.entryCount) (fun hread => ?_) (fun hskip => ?_) (Reads.position ?_)
  · have hpos : 0 < s.entryCount ∧ 0 < s.stored := by simpa using hread
    rw [if_pos hpos]
    unfold nvaReadEntries
    rw [bind_assoc]
    refine Reads.check hsize ?_
    rw [bind_assoc]
    refine reads_alloc _ fun _ => ?_
    rw [bind_assoc]
    exact Reads.bytes hbytes hbyteslen.symm (Reads.pure _ _)
  · have hno : ¬ (0 < s.entryCount ∧ 0 < s.stored) := by simpa using hskip
    rw [if_neg hno]
  · have hskip : ((pos + 4 + 4 + 4 + 4 : Nat) : Int) + (s.stored : Nat) - ((pos + 4 + 4 + 4 + 4 +
        if decide (0 < (s.entryCount : Int) ∧ 0 < s.stored) then s.stored / s.entryCount * s.entryCount else 0 : Nat) : Int)
        = (s.stored - (if decide (0 < (s.entryCount : Int) ∧ 0 < s.stored) then
            s.stored / s.entryCount * s.entryCount else 0) : Nat) := by
      split <;> omega
    rw [hskip]
    refine Reads.skip (by split <;> omega) ?_
    have hend : pos + 4 + 4 + 4 + 4 + (if decide (0 < (s.entryCount : Int) ∧ 0 < s.stored) then
        s.stored / s.entryCount * s.entryCount else 0) + (s.stored - (if decide (0 < (s.entryCount : Int) ∧ 0 < s.stored) then
        s.stored / s.entryCount * s.entryCount else 0)) = pos + (16 + s.stored) := by
      split <;> omega
    rw [hend]
    unfold NvaSection.readBack
    by_cases hread : 0 < s.entryCount ∧ 0 < s.stored
    · simp only [if_pos hread]
      exact Reads.pure _ _
    · simp only [if_neg hread]
      exact Reads.pure _ _

theorem NvaVersion.ofUInt32?_toUInt32 (v : NvaVersion) : NvaVersion.ofUInt32? v.toUInt32 = some v := by
  cases v <;> rfl

/-- The area that is read from the file of an area. -/
def Nva.readBack (n : Nva) : Nva := ⟨n.version, n.sections.map NvaSection.readBack⟩

theorem reads_nvaReadSections (hfits : n.Fits) (hsound : n.Sound) (himage : NvaImage n B) (flexible : Bool)
    (rest : List NvaSection) (i : Nat) (hrest : n.sections.drop i = rest) :
    Reads (nvaReadSections rest.length i) ⟨B, n.offset i, false, false, [], flexible⟩ (rest.map NvaSection.readBack)
      ⟨B, n.fileSize, false, false, [], flexible⟩ := by
  induction rest generalizing i with
  | nil =>
      have hend : n.sections.take i = n.sections := by
        rw [List.take_of_length_le]
        exact List.drop_eq_nil_iff.1 hrest
      have hsame : n.offset i = n.fileSize := by
        unfold Nva.fileSize Nva.offset
        rw [hend, List.take_length]
      rw [hsame]
      exact Reads.pure _ _
  | cons s rest ih =>
      have hs : n.sections[i]? = some s := by
        rw [← Nat.add_zero i, ← List.getElem?_drop, hrest]
        rfl
      have hmem := List.mem_of_getElem? hs
      have hsmall : i ≤ INT32_MAX := by
        have hlt := (List.getElem?_eq_some_iff.1 hs).1
        have hmax : INT32_MAX = 2 ^ 31 - 1 := rfl
        rw [hsound.count] at hlt
        cases hv : n.version <;> rw [hv] at hlt <;> simp only [NvaVersion.sectionCount] at hlt <;> omega
      have hone := reads_nvaReadSection (hsound.sections i s hs).index hsmall (hfits.counts s hmem)
        (hfits.lengths s hmem) (himage.sections i s hs) flexible
      rw [← n.offset_succ hs] at hone
      have htail := ih (i + 1) (by rw [← List.drop_drop, hrest]; rfl)
      exact hone.bind (htail.bind (Reads.pure _ _))

theorem nvaReadFromMemory_ok (hfits : n.Fits) (hsound : n.Sound) (himage : NvaImage n B) (flexible : Bool)
    {heap : Heap} (hcalm : heap.Calm) : (nvaReadFromMemory flexible B heap).1 = .ok n.readBack := by
  have hcount : (Int32.ofNat n.version.sectionCount).toInt = (n.version.sectionCount : Nat) := by
    cases n.version <;> rfl
  have hsections := himage.count
  rw [← wordBytes_i32] at hsections
  have hread : Reads nvaRead ⟨B, 0, false, false, [], flexible⟩ n.readBack
      ⟨B, n.fileSize, false, false, [], flexible⟩ := by
    refine Reads.ascii himage.magic (Reads.u32 himage.version ?_)
    rw [NvaVersion.ofUInt32?_toUInt32]
    refine Reads.u32 himage.fileSize (Reads.i32 hsections (Reads.check hcount ?_))
    refine reads_alloc _ fun _ => reads_alloc _ fun _ => ?_
    have h := reads_nvaReadSections hfits hsound himage flexible n.sections 0 rfl
    rw [hsound.count] at h
    exact h.bind (Reads.pure _ _)
  obtain ⟨heap', hrun, -⟩ := onMemory_ok hread hcalm
  exact congrArg Prod.fst hrun

end Reading

/-! ## Areas in memory -/

/-- The areas that the calls lead to, for entries of the sizes that the versions prescribe. -/
inductive NvaBuilt : Nva → Prop
  | created {version : NvaVersion} {heap : Heap} {n : Nva} (h : (nvaCreateEmpty version heap).1 = .ok n) : NvaBuilt n
  | read {flexible : Bool} {data : List UInt8} {heap : Heap} {n : Nva}
      (h : (nvaReadFromMemory flexible data heap).1 = .ok n)
      (hform : ∀ s ∈ n.sections, 0 < s.entryCount → s.entrySize = nvaDefaultEntrySize s.index n.version) : NvaBuilt n
  | appended {n : Nva} (h : NvaBuilt n) {i : Nat} {s : NvaSection} (hs : n.sections[i]? = some s)
      {data : List UInt8} (hsize : data.length = nvaDefaultEntrySize s.index n.version) (heap : Heap) :
      NvaBuilt { n with sections := n.sections.set i (s.after data heap) }

theorem nvaCreateEmpty_sound {version : NvaVersion} {heap : Heap} {n : Nva}
    (h : (nvaCreateEmpty version heap).1 = .ok n) : n.Sound := by
  obtain ⟨_, h1, h2, -, h⟩ := bind_fst_eq_ok h
  obtain ⟨_, h3, h4, -, h⟩ := bind_fst_eq_ok (congrArg Prod.fst h)
  cases h
  constructor
  · simp
  · intro i s hs
    rw [List.getElem?_map, Option.map_eq_some_iff] at hs
    obtain ⟨j, hj, rfl⟩ := hs
    obtain ⟨hlt, hj⟩ := List.getElem?_eq_some_iff.1 hj
    rw [List.getElem_range] at hj
    subst hj
    exact ⟨rfl, by simp [NvaSection.entryBytes], fun h0 => absurd h0 (Nat.lt_irrefl 0),
      fun h0 => absurd h0 (Nat.lt_irrefl 0)⟩

/-- An entry of the prescribed size is added, or the section has the entries that it had. -/
theorem NvaSection.Sound.after {version : NvaVersion} {i : Nat} {s : NvaSection} (hs : s.Sound version i)
    {data : List UInt8} (hsize : data.length = nvaDefaultEntrySize s.index version) (heap : Heap) :
    (s.after data heap).Sound version i := by
  unfold NvaSection.after nvaSectionAppendEntry
  by_cases h0 : data.length = 0
  · rw [if_pos h0]
    exact hs
  rw [if_neg h0]
  -- the size is the one that the section has, or it had none
  have htake : ∃ s1 : NvaSection, s1.Sound version i ∧ s1.index = s.index ∧ s1.entrySize = data.length ∧
      nvaTakeEntrySize data.length (s, heap) = (.ok (), (s1, heap)) ∨
      ∃ e, nvaTakeEntrySize data.length (s, heap) = (.error e, (s, heap)) := by
    unfold nvaTakeEntrySize
    rw [state_bind_run]
    simp only
    by_cases hnone : s.entrySize = 0
    · rw [if_pos hnone]
      have hcount : s.entryCount = 0 := by
        by_contra hne
        have hsame := hs.size (Nat.pos_of_ne_zero hne)
        omega
      refine ⟨{ s with entrySize := data.length }, .inl ⟨⟨hs.index, ?_, hs.held, ?_⟩, rfl, rfl, rfl⟩⟩
      · have hlen := hs.length
        rw [hcount, Nat.mul_zero] at hlen ⊢
        exact hlen
      · exact fun _ => hsize
    · rw [if_neg hnone]
      by_cases hsame : s.entrySize = data.length
      · exact ⟨s, .inl ⟨hs, rfl, hsame, by rw [check_run, if_pos hsame]⟩⟩
      · exact ⟨s, .inr ⟨_, by rw [check_run, if_neg hsame]⟩⟩
  obtain ⟨s1, ⟨hs1, hindex, hdata, htake⟩ | ⟨e, htake⟩⟩ := htake
  · rw [bind_ok htake]
    have hgrow : ∃ s2 h2 r, nvaGrowEntries (s1, heap) = (r, (s2, h2)) ∧ s2.Sound version i ∧
        s2.index = s.index ∧ s2.entrySize = data.length := by
      unfold nvaGrowEntries
      rw [state_bind_run]
      simp only
      split
      · rcases halloc : Heap.alloc heap with ⟨e | junk, h2⟩
        · have hrun : zoom Prod.snd (fun h p => (p.1, h)) Heap.alloc (s1, heap) = (.error e, (s1, h2)) := by
            rw [zoom_run, halloc]
          exact ⟨s1, h2, .error e, by rw [bind_error hrun], hs1, hindex, hdata⟩
        · have hrun : zoom Prod.snd (fun h p => (p.1, h)) Heap.alloc (s1, heap) = (.ok junk, (s1, h2)) := by
            rw [zoom_run, halloc]
          refine ⟨_, h2, .ok (), bind_ok hrun _, ?_, hindex, hdata⟩
          exact ⟨hs1.index, hs1.length, fun _ => rfl, hs1.size⟩
      · exact ⟨s1, heap, .ok (), rfl, hs1, hindex, hdata⟩
    obtain ⟨s2, h2, r, hgrow, hs2, hindex2, hdata2⟩ := hgrow
    cases r with
    | error e =>
        rw [bind_error hgrow]
        exact hs2
    | ok u =>
        rw [bind_ok hgrow]
        refine ⟨hs2.index, ?_, fun _ => rfl, fun _ => ?_⟩
        · show (s2.entryBytes ++ data).length = s2.entrySize * (s2.entryCount + 1)
          rw [List.length_append, hs2.length, hdata2, Nat.mul_succ]
        · show s2.entrySize = nvaDefaultEntrySize s2.index version
          rw [hdata2, hindex2, hsize]
  · rw [bind_error htake]
    exact hs

theorem returns_nvaReadSection (i : Nat) : Returns (nvaReadSection i) fun s =>
    s.index.toInt = i ∧ s.entryBytes.length = s.entrySize * s.entryCount ∧
      (0 < s.entryCount → s.entries.isSome = true) := by
  refine Returns.after fun index => Returns.after fun version => Returns.after fun length => Returns.after fun count =>
    Returns.check fun hindex => Returns.check fun _ => Returns.after fun start => ?_
  have hentries : Returns (nvaReadEntries (length.toInt - 16).toNat count.toInt.toNat) fun r =>
      r.2.length = r.1 * count.toInt.toNat := by
    refine Returns.check fun _ => Returns.after fun _ => ?_
    refine Returns.bind (P := fun bs : List UInt8 => bs.length = _) ?_ fun bs hbs => Returns.pure hbs
    intro r bs r' hrun
    exact BinaryReader.length_of_read (Prod.mk.inj hrun).1
  refine (Returns.given (Q := fun r => ∀ p, r = some p → p.2.length = p.1 * count.toInt.toNat) (fun _ => ?_)
    fun _ => nofun).bind fun read hread => Returns.after fun pos => Returns.after fun _ => ?_
  · refine hentries.bind fun p hp => Returns.pure ?_
    rintro _ ⟨⟩
    exact hp
  · cases read with
    | none => exact Returns.pure ⟨hindex, rfl, fun h0 => absurd h0 (Nat.lt_irrefl 0)⟩
    | some p => exact Returns.pure ⟨hindex, hread p rfl, fun _ => rfl⟩

theorem returns_nvaReadSections (k i : Nat) : Returns (nvaReadSections k i) fun l => l.length = k ∧
    ∀ j s, l[j]? = some s → s.index.toInt = ((i + j : Nat) : Int) ∧ s.entryBytes.length = s.entrySize * s.entryCount ∧
      (0 < s.entryCount → s.entries.isSome = true) := by
  induction k generalizing i with
  | zero => exact Returns.pure ⟨rfl, by simp⟩
  | succ k ih =>
      refine (returns_nvaReadSection i).bind fun s hs => (ih (i + 1)).bind fun rest hrest => Returns.pure ?_
      refine ⟨by rw [List.length_cons, hrest.1], fun j t ht => ?_⟩
      cases j with
      | zero =>
          cases ht
          exact hs
      | succ j =>
          have h := hrest.2 j t ht
          rwa [Nat.add_right_comm, Nat.add_assoc] at h

theorem NvaBuilt.sound {n : Nva} (h : NvaBuilt n) : n.Sound := by
  induction h with
  | created h => exact nvaCreateEmpty_sound h
  | @read flexible data heap n h hform =>
      obtain ⟨heap', r', hrun, -⟩ := BinaryReader.onMemory_eq_ok h
      have hreturns : Returns nvaRead fun n => n.sections.length = n.version.sectionCount ∧
          ∀ j s, n.sections[j]? = some s → s.index.toInt = ((0 + j : Nat) : Int) ∧
            s.entryBytes.length = s.entrySize * s.entryCount ∧ (0 < s.entryCount → s.entries.isSome = true) := by
        refine Returns.after fun _ => Returns.after fun v => ?_
        cases NvaVersion.ofUInt32? v with
        | none => exact Returns.fail _
        | some version =>
            refine Returns.after fun _ => Returns.after fun _ => Returns.check fun _ => Returns.after fun _ =>
              Returns.after fun _ => (returns_nvaReadSections _ _).bind fun sections hsections => Returns.pure hsections
      obtain ⟨hcount, hall⟩ := hreturns _ _ _ hrun
      refine ⟨hcount, fun i s hs => ?_⟩
      obtain ⟨hindex, hlength, hheld⟩ := hall i s hs
      refine ⟨?_, hlength, hheld, hform s (List.mem_of_getElem? hs)⟩
      rw [int32_eq_ofNat (v := s.index) (by omega), hindex]
      simp
  | @appended n h i s hs data hsize heap ih =>
      refine ⟨by rw [List.length_set, ih.count], fun j t ht => ?_⟩
      rw [List.getElem?_set] at ht
      split at ht
      · next hij =>
          subst hij
          split at ht
          · cases ht
            exact (ih.sections i s hs).after hsize heap
          · cases ht
      · exact ih.sections j t ht

/-! ## What comes back -/

/-- The sections agree in everything that can be seen of them. -/
structure NvaSection.Same (s s' : NvaSection) : Prop where
  index : s'.index = s.index
  version : s'.version = s.version
  entrySize : s'.entrySize = s.entrySize
  entryCount : s'.entryCount = s.entryCount
  entries : s'.entryBytes = s.entryBytes

/-- The area is written, and one that agrees with it is read. -/
def Nva.RoundTrips (os : Win32) (n : Nva) : Prop :=
  ∀ (heap heap' : Heap) (flexible : Bool), heap.Calm → heap'.Calm → ∃ out n',
    (nvaWriteToMemory os n heap).1 = .ok out ∧ (nvaReadFromMemory flexible out heap').1 = .ok n' ∧
      n'.version = n.version ∧ List.Forall₂ NvaSection.Same n.sections n'.sections

theorem NvaSection.same_readBack_iff {version : NvaVersion} {i : Nat} {s : NvaSection} (hs : s.Sound version i) :
    s.Same s.readBack ↔ (s.entryCount = 0 → s.entrySize = 0) ∧
      (0 < s.entryCount → 0 < s.entrySize ∧ nvaPadding (s.entrySize * s.entryCount) < s.entryCount) := by
  have hlen := hs.length
  have hstored : s.stored = s.entrySize * s.entryCount + nvaPadding (s.entrySize * s.entryCount) := by
    rw [NvaSection.stored, hlen]
  rcases Nat.eq_zero_or_pos s.entryCount with h0 | hpos
  · have hback : s.readBack = ⟨s.index, s.version, none, 0, 0, 0⟩ := if_neg fun h => by omega
    rw [hback]
    have hnil : s.entryBytes = [] := by
      rw [h0, Nat.mul_zero] at hlen
      exact List.length_eq_zero_iff.1 hlen
    constructor
    · intro h
      exact ⟨fun _ => h.entrySize.symm, fun h1 => by omega⟩
    · intro h
      exact ⟨rfl, rfl, (h.1 h0).symm, h0.symm, hnil.symm⟩
  · rcases Nat.eq_zero_or_pos s.entrySize with hsize | hsize
    · -- nothing is stored of entries without bytes
      have hzero : s.stored = 0 := by
        rw [hstored, hsize, Nat.zero_mul]
        rfl
      have hback : s.readBack = ⟨s.index, s.version, none, 0, 0, 0⟩ := if_neg fun h => by omega
      rw [hback]
      constructor
      · intro h
        have hcount : 0 = s.entryCount := h.entryCount
        omega
      · intro h
        have hboth := (h.2 hpos).1
        omega
    · have hprod : 0 < s.entrySize * s.entryCount := Nat.mul_pos hsize hpos
      have hdiv : s.stored / s.entryCount
          = s.entrySize + nvaPadding (s.entrySize * s.entryCount) / s.entryCount := by
        rw [hstored, Nat.add_comm, Nat.add_mul_div_right _ _ hpos, Nat.add_comm]
      unfold NvaSection.readBack
      rw [if_pos ⟨hpos, by omega⟩]
      constructor
      · intro h
        have hsame : s.stored / s.entryCount = s.entrySize := h.entrySize
        refine ⟨fun h0 => by omega, fun _ => ⟨hsize, ?_⟩⟩
        have hquot : nvaPadding (s.entrySize * s.entryCount) / s.entryCount = 0 := by omega
        exact (Nat.div_eq_zero_iff.1 hquot).resolve_left (by omega)
      · intro h
        have hquot : nvaPadding (s.entrySize * s.entryCount) / s.entryCount = 0 := Nat.div_eq_of_lt (h.2 hpos).2
        rw [hdiv, hquot, Nat.add_zero]
        refine ⟨rfl, rfl, rfl, rfl, ?_⟩
        show (s.entryBytes ++ List.replicate (nvaPadding s.entryBytes.length) 0xFF).take _ = s.entryBytes
        rw [← hlen, List.take_left]

theorem nvaPadding_mul {size : Nat} (hsize : size % 0x10 = 0) (count : Nat) : nvaPadding (size * count) = 0 := by
  have hmod : size * count % 0x10 = 0 := by rw [Nat.mul_mod, hsize, Nat.zero_mul]
  unfold nvaPadding
  rw [if_neg (by simp [hmod])]

/-- Entries of 36 bytes leave up to twelve bytes of padding. -/
theorem nvaPadding_36_lt {count : Nat} (hpos : 0 < count) (hcount : count ∉ [1, 2, 3, 5, 6, 9]) :
    nvaPadding (36 * count) < count := by
  have hfew : ∀ c < 13, 0 < c → c ∉ [1, 2, 3, 5, 6, 9] → nvaPadding (36 * c) < c := by decide
  by_cases hlt : count < 13
  · exact hfew count hlt hpos hcount
  · unfold nvaPadding
    split <;> omega

/-- **An area comes back as it was, exactly if** its sizes fit, no section has a size without entries or
    entries without bytes, and the last section of Sekiro has so many entries that their padding is shorter
    than their number. -/
theorem nva_round_trips_iff (os : Win32) (hos : os.AsciiCompatible) (n : Nva) (hn : NvaBuilt n) :
    n.RoundTrips os ↔ n.Fits ∧ ∀ s ∈ n.sections, (s.entryCount = 0 ↔ s.entrySize = 0) ∧
      ¬ (s.index = 8 ∧ n.version = .sekiro ∧ s.entryCount ∈ [1, 2, 3, 5, 6, 9]) := by
  have hsound := hn.sound
  have hread : n.Fits → ∀ {heap heap' : Heap} (flexible : Bool), heap.Calm → heap'.Calm → ∃ out,
      (nvaWriteToMemory os n heap).1 = .ok out ∧ (nvaReadFromMemory flexible out heap').1 = .ok n.readBack := by
    intro hfits heap heap' flexible hcalm hcalm'
    obtain ⟨out, st, hwrite, -, himage, -⟩ :=
      (makes_nvaWrite hos hfits hsound).toMemory (fun _ _ hlive => hlive) hcalm
    exact ⟨out, hwrite, nvaReadFromMemory_ok hfits hsound himage flexible hcalm'⟩
  constructor
  · intro h
    obtain ⟨out, n', hwrite, hback, -, hsame⟩ := h [] [] false Heap.calm_nil Heap.calm_nil
    have hfits := fits_of_nvaWrite hos hsound hwrite
    obtain ⟨out', hwrite', hback'⟩ := hread hfits false Heap.calm_nil Heap.calm_nil
    rw [hwrite] at hwrite'
    cases hwrite'
    rw [hback] at hback'
    cases hback'
    refine ⟨hfits, fun s hs => ?_⟩
    obtain ⟨i, hi, rfl⟩ := List.getElem_of_mem hs
    have hsec := hsound.sections i _ (List.getElem?_eq_getElem hi)
    have hone : n.sections[i].Same n.sections[i].readBack := by
      have h2 := List.forall₂_map_right_iff.1 hsame
      exact List.forall₂_same.1 h2 _ (List.getElem_mem hi)
    obtain ⟨hzero, hpos⟩ := (NvaSection.same_readBack_iff hsec).1 hone
    refine ⟨⟨hzero, fun h0 => ?_⟩, ?_⟩
    · by_contra hne
      have hsize := (hpos (Nat.pos_of_ne_zero hne)).1
      omega
    · rintro ⟨hindex, hversion, hcount⟩
      have hne : 0 < n.sections[i].entryCount := by
        simp only [List.mem_cons, List.not_mem_nil, or_false] at hcount
        omega
      have hpad := (hpos hne).2
      have hsize : n.sections[i].entrySize = 36 := by
        rw [hsec.size hne, hindex, hversion]
        rfl
      rw [hsize] at hpad
      simp only [List.mem_cons, List.not_mem_nil, or_false] at hcount
      unfold nvaPadding at hpad
      rcases hcount with h | h | h | h | h | h <;> rw [h] at hpad <;> simp at hpad
  · rintro ⟨hfits, hall⟩ heap heap' flexible hcalm hcalm'
    obtain ⟨out, hwrite, hback⟩ := hread hfits flexible hcalm hcalm'
    refine ⟨out, n.readBack, hwrite, hback, rfl, List.forall₂_map_right_iff.2 (List.forall₂_same.2 fun s hs => ?_)⟩
    obtain ⟨i, hi, rfl⟩ := List.getElem_of_mem hs
    have hsec := hsound.sections i _ (List.getElem?_eq_getElem hi)
    obtain ⟨hzero, hleak⟩ := hall _ hs
    refine (NvaSection.same_readBack_iff hsec).2 ⟨hzero.1, fun hpos => ?_⟩
    have hne : n.sections[i].entrySize ≠ 0 := fun h0 => by
      have hcount := hzero.2 h0
      omega
    refine ⟨Nat.pos_of_ne_zero hne, ?_⟩
    have hsize := hsec.size hpos
    rw [hsize]
    unfold nvaDefaultEntrySize
    -- only the last section of Sekiro has entries that do not fill lines
    split
    · cases hv : n.version <;> exact (nvaPadding_mul rfl _).trans_lt hpos
    · split
      · exact (nvaPadding_mul rfl _).trans_lt hpos
      · split
        · exact (nvaPadding_mul rfl _).trans_lt hpos
        · split
          · next hindex =>
              split
              · next hversion =>
                  exact nvaPadding_36_lt hpos fun hcount => hleak ⟨hindex, hversion, hcount⟩
              · exact (nvaPadding_mul rfl _).trans_lt hpos
          · exact (nvaPadding_mul rfl _).trans_lt hpos

/-- An area of Sekiro whose last section has one entry. -/
def nvaOneEntry : Nva :=
  let n := (nvaCreateEmpty .sekiro []).1.toOption.getD ⟨.sekiro, []⟩
  { n with sections := n.sections.set 8 ((n.sections.getD 8 ⟨0, 0, none, 0, 0, 0⟩).after (List.replicate 36 7) []) }

theorem nvaOneEntry_built : NvaBuilt nvaOneEntry :=
  NvaBuilt.appended (i := 8) (NvaBuilt.created (rfl : (nvaCreateEmpty .sekiro []).1 = _)) rfl rfl []

/-- What the reader makes of the entry: it takes the padding for a part of it. -/
theorem nva_one_entry_not_round_trips : NvaBuilt nvaOneEntry ∧ ¬ nvaOneEntry.RoundTrips .ascii := by
  refine ⟨nvaOneEntry_built, fun h => ?_⟩
  obtain ⟨out, n', hwrite, hread, -, hsame⟩ := h [] [] false Heap.calm_nil Heap.calm_nil
  have hout : out = (nvaWriteToMemory .ascii nvaOneEntry []).1.toOption.getD [] := by rw [hwrite]; rfl
  have hn' : n' = (nvaReadFromMemory false out []).1.toOption.getD ⟨.sekiro, []⟩ := by rw [hread]; rfl
  have hsizes : (n'.sections.map NvaSection.entrySize).getD 8 0 = 48 := by
    rw [hn', hout]
    decide +kernel
  have hlast : ∀ l l' : List NvaSection, List.Forall₂ NvaSection.Same l l' →
      l.map NvaSection.entrySize = l'.map NvaSection.entrySize := by
    intro l l' h
    induction h with
    | nil => rfl
    | cons hone _ ih => rw [List.map_cons, List.map_cons, hone.entrySize, ih]
  rw [← hlast _ _ hsame] at hsizes
  exact absurd hsizes (by decide +kernel)

/-- An area of Sekiro with entries in its last section, one more for each call. -/
def nvaEntries : Nat → Nva
  | 0 => (nvaCreateEmpty .sekiro []).1.toOption.getD ⟨.sekiro, []⟩
  | k + 1 =>
    let last := (nvaEntries k).sections.getD 8 ⟨8, 0, none, 0, 0, 0⟩
    { nvaEntries k with sections := (nvaEntries k).sections.set 8 (last.after (List.replicate 36 (UInt8.ofNat k)) []) }

theorem nvaEntries_version (k : Nat) : (nvaEntries k).version = .sekiro := by
  induction k with
  | zero => rfl
  | succ k ih => exact ih

theorem nvaEntries_built (k : Nat) : NvaBuilt (nvaEntries k) := by
  induction k with
  | zero => exact .created (rfl : (nvaCreateEmpty .sekiro []).1 = _)
  | succ k ih =>
      have hlast : 8 < (nvaEntries k).sections.length := by
        rw [ih.sound.count, nvaEntries_version]
        decide
      have hget : (nvaEntries k).sections[8]? = some ((nvaEntries k).sections.getD 8 ⟨8, 0, none, 0, 0, 0⟩) := by
        rw [List.getD_eq_getElem?_getD, List.getElem?_eq_getElem hlast, Option.getD_some]
      refine ih.appended (i := 8) hget ?_ []
      rw [(ih.sound.sections 8 _ hget).index, nvaEntries_version, List.length_replicate]
      rfl

/-- Seven entries, whose 252 bytes are followed by four of padding. -/
theorem nva_sample_round_trips : (nvaEntries 7).RoundTrips .ascii :=
  (nva_round_trips_iff .ascii Win32.ascii_compatible (nvaEntries 7) (nvaEntries_built 7)).2
    ⟨⟨by decide +kernel, by decide +kernel, by decide +kernel⟩, by decide +kernel⟩

end SoulsFormats
