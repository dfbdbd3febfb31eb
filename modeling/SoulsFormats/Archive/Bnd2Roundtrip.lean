import SoulsFormats.Archive.Bnd2
import SoulsFormats.Compression.DcxRoundtrip

set_option autoImplicit false

/-! # BND2 archives are read back

The headers stand at multiples of their size, so that every slot has a known place; names and data stand
where the headers say. What a name is read back as is `Bnd2.readBack`. -/

namespace SoulsFormats

open Bytes Fallible

/-! ## What is read back -/

/-- The name that `bnd2_write_name` stores. -/
def bnd2StoredName (mode : UInt8) (nameUtf8 : Option (List UInt8)) : List UInt8 :=
  if mode = bnd2FullPath ∧ nameUtf8.any bnd2HasDrive = false then cstr "K:\\" ++ nameUtf8.getD []
  else nameUtf8.getD []

/-- The name that a file is read back with. -/
def bnd2NameReadBack (fileInfoFlags mode : UInt8) (file : Bnd2File) : List UInt8 :=
  if bnd2HasNameOffset fileInfoFlags then
    if mode = bnd2Nameless then decimalInt file.id.toInt else bnd2StoredName mode file.nameUtf8
  else []

def Bnd2File.readBack (fileInfoFlags mode : UInt8) (file : Bnd2File) : Bnd2File :=
  { file with nameUtf8 := some (bnd2NameReadBack fileInfoFlags mode file) }

/-- An archive as it is read back. -/
def Bnd2.readBack (b : Bnd2) : Bnd2 :=
  { b with
    baseDirectory := some (if b.filePathMode = bnd2BaseDirectory ∧ bnd2HasNameOffset b.fileInfoFlags
      then b.baseDirectory.getD [] else [])
    files := b.files.map (Bnd2File.readBack b.fileInfoFlags b.filePathMode) }

/-- The texts that are stored can be stored in Shift-JIS. -/
structure Bnd2.Fits (os : Win32) (b : Bnd2) : Prop where
  names : bnd2HasNameOffset b.fileInfoFlags = true → b.filePathMode ≠ bnd2Nameless →
    ∀ file ∈ b.files, os.Fits .shiftJis (bnd2StoredName b.filePathMode file.nameUtf8)
  baseDirectory : bnd2HasNameOffset b.fileInfoFlags = true → b.filePathMode = bnd2BaseDirectory →
    os.Fits .shiftJis (b.baseDirectory.getD [])

/-- A name that has been given a drive keeps it. -/
theorem bnd2StoredName_stored (mode : UInt8) (nameUtf8 : Option (List UInt8)) :
    bnd2StoredName mode (some (bnd2StoredName mode nameUtf8)) = bnd2StoredName mode nameUtf8 := by
  by_cases h : mode = bnd2FullPath ∧ nameUtf8.any bnd2HasDrive = false
  · have hstored : bnd2StoredName mode nameUtf8 = cstr "K:\\" ++ nameUtf8.getD [] := if_pos h
    have hdrive : (some (bnd2StoredName mode nameUtf8)).any bnd2HasDrive = true := by
      rw [hstored]
      rfl
    conv_lhs => rw [bnd2StoredName, if_neg (by simp [hdrive])]
    rfl
  · have hstored : bnd2StoredName mode nameUtf8 = nameUtf8.getD [] := if_neg h
    rw [hstored, bnd2StoredName]
    split
    · next h' =>
        -- no name is the empty name, which has no drive
        obtain ⟨hmode, hdrive⟩ := h'
        rcases nameUtf8 with _ | name
        · exact absurd ⟨hmode, rfl⟩ h
        · exact absurd ⟨hmode, hdrive⟩ h
    · rfl

/-- **What is read back is read back as it is**, once it has been written again. -/
theorem Bnd2.readBack_readBack (b : Bnd2) : b.readBack.readBack = b.readBack := by
  have hfile : ∀ file : Bnd2File, (file.readBack b.fileInfoFlags b.filePathMode).readBack
      b.fileInfoFlags b.filePathMode = file.readBack b.fileInfoFlags b.filePathMode := by
    intro file
    simp only [Bnd2File.readBack, bnd2NameReadBack]
    split
    · split
      · rfl
      · rw [bnd2StoredName_stored]
    · rfl
  simp only [readBack, List.map_map]
  congr 1
  · split <;> rfl
  · exact List.map_congr_left fun file _ => hfile file

theorem Bnd2.Fits.readBack {os : Win32} {b : Bnd2} (h : b.Fits os) : b.readBack.Fits os := by
  constructor
  · intro hflag hmode file hfile
    obtain ⟨f, hf, rfl⟩ := List.mem_map.1 hfile
    have hname : bnd2NameReadBack b.fileInfoFlags b.filePathMode f
        = bnd2StoredName b.filePathMode f.nameUtf8 := by
      rw [bnd2NameReadBack, if_pos (c := bnd2HasNameOffset b.fileInfoFlags = true) hflag,
        if_neg (c := b.filePathMode = bnd2Nameless) hmode]
    show os.Fits .shiftJis (bnd2StoredName b.filePathMode
      (some (bnd2NameReadBack b.fileInfoFlags b.filePathMode f)))
    rw [hname, bnd2StoredName_stored]
    exact h.names hflag hmode f hf
  · intro hflag hmode
    have hbase := h.baseDirectory hflag hmode
    have hboth : b.filePathMode = bnd2BaseDirectory ∧ bnd2HasNameOffset b.fileInfoFlags = true :=
      ⟨hmode, hflag⟩
    show os.Fits .shiftJis ((some (if b.filePathMode = bnd2BaseDirectory ∧
      bnd2HasNameOffset b.fileInfoFlags then b.baseDirectory.getD [] else [])).getD [])
    rw [if_pos hboth]
    exact hbase

/-! ## Where everything stands -/

section Places

variable (fileInfoFlags : UInt8)

def bnd2HeaderSize : Nat := if bnd2HasNameOffset fileInfoFlags then 32 else 36

def bnd2EntrySize : Nat := if bnd2HasNameOffset fileInfoFlags then 16 else 12

/-- Where the header of the `i`-th file stands. -/
def bnd2EntryAt (i : Nat) : Nat := bnd2HeaderSize fileInfoFlags + i * bnd2EntrySize fileInfoFlags

theorem bnd2EntryAt_zero : bnd2EntryAt fileInfoFlags 0 = bnd2HeaderSize fileInfoFlags := by
  rw [bnd2EntryAt, Nat.zero_mul, Nat.add_zero]

theorem bnd2EntryAt_succ (i : Nat) :
    bnd2EntryAt fileInfoFlags (i + 1) = bnd2EntryAt fileInfoFlags i + bnd2EntrySize fileInfoFlags := by
  rw [bnd2EntryAt, bnd2EntryAt, Nat.succ_mul, Nat.add_assoc]

end Places

/-- The slots of the writer. -/
inductive Bnd2Slot where
  | fileSize
  | baseDirOffset
  | fileOffset
  | sizeOfFile
  | nameOffset

def bnd2Labels : BinaryWriter.Labels Bnd2Slot where
  base
    | .fileSize => "fileSize"
    | .baseDirOffset => "baseDirOffset"
    | .fileOffset => "fileOffset_"
    | .sizeOfFile => "fileSize_"
    | .nameOffset => "nameOffset_"
  kind _ := .i32
  noDigits := by
    intro a
    cases a <;> decide
  inj := by
    intro a b h
    cases a <;> cases b <;> first | rfl | exact absurd h (by decide)

/-- Where a slot is reserved. -/
def bnd2Addr (fileInfoFlags : UInt8) : Bnd2Slot → Option Nat → Nat
  | .fileSize, _ => 12
  | .baseDirOffset, _ => 20
  | .fileOffset, i => bnd2EntryAt fileInfoFlags (i.getD 0) + 4
  | .sizeOfFile, i => bnd2EntryAt fileInfoFlags (i.getD 0) + 8
  | .nameOffset, i => bnd2EntryAt fileInfoFlags (i.getD 0) + 12

/-- The slots of a file. -/
abbrev bnd2Slots (fileInfoFlags : UInt8) : BinaryWriter.FileSlots (Bnd2Slot × Option Nat) :=
  bnd2Labels.slots (bnd2Addr fileInfoFlags)

/-- A little-endian word, as the archive holds it. -/
abbrev bnd2Word (v : Int32) : List UInt8 := wordBytes false 4 v.toUInt32.toNat

/-- The `i`-th file, whose data starts at `p`. -/
structure Bnd2FileAt (b : Bnd2) (B : List UInt8) (i : Nat) (file : Bnd2File) (p : Nat) : Prop where
  le : p ≤ INT32_MAX
  size_le : file.data.length ≤ INT32_MAX
  offset : Holds B (bnd2EntryAt b.fileInfoFlags i + 4) (bnd2Word (Int32.ofNat p))
  size : Holds B (bnd2EntryAt b.fileInfoFlags i + 8) (bnd2Word (Int32.ofNat file.data.length))
  data : Holds B p file.data

/-- The name of the `i`-th file, which stands at `p`. -/
structure Bnd2NameAt (os : Win32) (b : Bnd2) (B : List UInt8) (i : Nat) (file : Bnd2File) (p : Nat) :
    Prop where
  le : p ≤ INT32_MAX
  offset : Holds B (bnd2EntryAt b.fileInfoFlags i + 12) (bnd2Word (Int32.ofNat p))
  name : Holds B p (storedText os false false (bnd2StoredName b.filePathMode file.nameUtf8))

/-- What the file of an archive holds. -/
structure Bnd2Image (os : Win32) (b : Bnd2) (B : List UInt8) : Prop where
  magic : Holds B 0 (cstr "BND")
  zero : Holds B 3 [0]
  headerInfoFlags : Holds B 4 [b.headerInfoFlags]
  fileInfoFlags : Holds B 5 [b.fileInfoFlags]
  unk06 : Holds B 6 [b.unk06]
  unk07 : Holds B 7 [b.unk07]
  fileVersion : Holds B 8 (bnd2Word b.fileVersion)
  count_le : b.files.length ≤ INT32_MAX
  count : Holds B 16 (bnd2Word (Int32.ofNat b.files.length))
  baseDirectory : ∃ p, p ≤ INT32_MAX ∧ Holds B 20 (bnd2Word (Int32.ofNat p)) ∧
    (b.filePathMode = bnd2BaseDirectory → bnd2HasNameOffset b.fileInfoFlags = true →
      Holds B p (storedText os false false (b.baseDirectory.getD [])))
  alignmentSize : Holds B 24 (wordBytes false 2 b.alignmentSize.toNat)
  filePathMode : Holds B 26 [b.filePathMode]
  unk1b : Holds B 27 [b.unk1b]
  padding : Holds B 28 (wordBytes false 4 (0 : UInt32).toNat)
  noNames : bnd2HasNameOffset b.fileInfoFlags = false → Holds B 32 (wordBytes false 4 (0 : UInt32).toNat)
  headers : bnd2EntryAt b.fileInfoFlags b.files.length ≤ B.length
  ids : ∀ i file, b.files[i]? = some file →
    Holds B (bnd2EntryAt b.fileInfoFlags i) (bnd2Word file.id)
  names : bnd2HasNameOffset b.fileInfoFlags = true → ∀ i file, b.files[i]? = some file →
    ∃ p, if b.filePathMode = bnd2Nameless
      then Holds B (bnd2EntryAt b.fileInfoFlags i + 12) (bnd2Word 0) else Bnd2NameAt os b B i file p
  data : ∀ i file, b.files[i]? = some file → ∃ p, Bnd2FileAt b B i file p
  short : B.length ≤ INT32_MAX

/-! ## Writing -/

section Writing

open BinaryWriter

variable {os : Win32} {b : Bnd2} {pos : Nat}

theorem puts_bnd2WriteFileHeader (i : Nat) (file : Bnd2File) :
    Puts (bnd2Slots b.fileInfoFlags) (bnd2WriteFileHeader b.fileInfoFlags b.filePathMode i file)
      ⟨bnd2EntryAt b.fileInfoFlags i, false, false⟩
      (fun _ st => st = ⟨bnd2EntryAt b.fileInfoFlags (i + 1), false, false⟩) fun _ _ B =>
        Holds B (bnd2EntryAt b.fileInfoFlags i) (bnd2Word file.id) ∧
        (bnd2HasNameOffset b.fileInfoFlags = true → b.filePathMode = bnd2Nameless →
          Holds B (bnd2EntryAt b.fileInfoFlags i + 12) (bnd2Word 0)) := by
  rw [bnd2EntryAt_succ, bnd2EntrySize]
  refine Puts.i32 (Puts.reserveI32 (.fileOffset, some i) rfl rfl
    (Puts.reserveI32 (.sizeOfFile, some i) rfl rfl ?_))
  refine Puts.ite (fun hflag => ?_) fun hflag => ?_
  · refine Puts.ite (fun hmode => ?_) fun hmode => ?_
    · refine Puts.last (Puts.i32 (Puts.done (by simp [hflag]) fun B hzero hid => ⟨hid, fun _ _ => hzero⟩))
    · refine Puts.last (Puts.reserveI32 (.nameOffset, some i) rfl rfl
        (Puts.done (by simp [hflag]) fun B hid => ⟨hid, fun _ h => absurd h hmode⟩))
  · exact Puts.done (by simp [hflag]) fun B hid => ⟨hid, fun h => absurd h hflag⟩

theorem puts_bnd2WriteName {mode : UInt8} {nameUtf8 : Option (List UInt8)}
    (hfit : os.Fits .shiftJis (bnd2StoredName mode nameUtf8)) :
    Puts (bnd2Slots b.fileInfoFlags) (bnd2WriteName os nameUtf8 mode) ⟨pos, false, false⟩
      (fun _ st => ∃ p, st = ⟨p, false, false⟩) fun _ _ B =>
        Holds B pos (storedText os false false (bnd2StoredName mode nameUtf8)) := by
  have hnul := hfit.noNul
  unfold bnd2WriteName bnd2StoredName at *
  refine Puts.ite (fun hmode => ?_) fun hmode => Puts.ite (fun hdrive => ?_) fun hdrive => ?_
  · rw [if_neg (fun h => hmode h.1)] at hnul ⊢
    exact Puts.last (Puts.shiftJis hnul (Puts.done ⟨_, rfl⟩ fun B h => h))
  · rw [if_neg (by simp [hdrive])] at hnul ⊢
    obtain ⟨name, rfl⟩ : ∃ name, nameUtf8 = some name := by
      rcases nameUtf8 with _ | name
      · cases hdrive
      · exact ⟨name, rfl⟩
    exact Puts.last (Puts.shiftJis hnul (Puts.done ⟨_, rfl⟩ fun B h => h))
  · rw [if_pos ⟨not_not.1 hmode, by simpa using hdrive⟩] at hnul ⊢
    exact Puts.alloc fun _ => Puts.last (Puts.shiftJis hnul (Puts.done ⟨_, rfl⟩ fun B h => h))

theorem puts_bnd2WriteFileName (i : Nat) (file : Bnd2File)
    (hfit : os.Fits .shiftJis (bnd2StoredName b.filePathMode file.nameUtf8)) :
    Puts (bnd2Slots b.fileInfoFlags) (bnd2WriteFileName os b.filePathMode i file) ⟨pos, false, false⟩
      (fun _ st => ∃ p, st = ⟨p, false, false⟩) fun _ _ B => ∃ p, Bnd2NameAt os b B i file p := by
  refine Puts.position (Puts.check fun hpos => Puts.fillI32 (.nameOffset, some i) rfl ?_)
  exact (puts_bnd2WriteName hfit).mono fun _ _ _ B hname hoffset => ⟨pos, hpos, hoffset, hname⟩

theorem puts_bnd2WriteBaseDirectory
    (hfit : b.filePathMode = bnd2BaseDirectory → os.Fits .shiftJis (b.baseDirectory.getD [])) :
    Puts (bnd2Slots b.fileInfoFlags) (bnd2WriteBaseDirectory os b) ⟨pos, false, false⟩
      (fun _ st => ∃ p, st = ⟨p, false, false⟩) fun _ _ B =>
        ∃ p, p ≤ INT32_MAX ∧ Holds B 20 (bnd2Word (Int32.ofNat p)) ∧
          (b.filePathMode = bnd2BaseDirectory →
            Holds B p (storedText os false false (b.baseDirectory.getD []))) := by
  refine Puts.ite (fun hmode => ?_) fun hmode => ?_
  · refine Puts.position (Puts.check fun hpos => Puts.fillI32 (.baseDirOffset, none) rfl ?_)
    exact Puts.last (Puts.shiftJis (hfit hmode).noNul (Puts.done ⟨_, rfl⟩
      fun B hdir hoffset => ⟨pos, hpos, hoffset, fun _ => hdir⟩))
  · exact Puts.last (Puts.fillI32 (.baseDirOffset, none) rfl (Puts.done ⟨_, rfl⟩
      fun B hoffset => ⟨0, by decide, hoffset, fun h => absurd h hmode⟩))

theorem puts_bnd2WriteNames (hfit : b.Fits os) :
    Puts (bnd2Slots b.fileInfoFlags) (bnd2WriteNames os b) ⟨pos, false, false⟩
      (fun _ st => ∃ p, st = ⟨p, false, false⟩) fun _ _ B =>
        (∃ p, p ≤ INT32_MAX ∧ Holds B 20 (bnd2Word (Int32.ofNat p)) ∧
          (b.filePathMode = bnd2BaseDirectory → bnd2HasNameOffset b.fileInfoFlags = true →
            Holds B p (storedText os false false (b.baseDirectory.getD [])))) ∧
        (bnd2HasNameOffset b.fileInfoFlags = true → b.filePathMode ≠ bnd2Nameless →
          ∀ i file, b.files[i]? = some file → ∃ p, Bnd2NameAt os b B i file p) := by
  refine Puts.ite (fun hflag => ?_) fun hflag => ?_
  · refine (puts_bnd2WriteBaseDirectory (hfit.baseDirectory hflag)).seq fun _ st hst => ?_
    refine Puts.ite (fun hmode => ?_) fun hmode => ?_
    · have hloop := puts_forIndexed (S := bnd2Slots b.fileInfoFlags)
        (f := bnd2WriteFileName os b.filePathMode) (fun _ st => ∃ p, st = ⟨p, false, false⟩)
        (F := fun i file B => ∃ p, Bnd2NameAt os b B i file p) b.files
        (by
          rintro i file _ hfile ⟨p, rfl⟩
          exact puts_bnd2WriteFileName i file
            (hfit.names hflag hmode file (List.mem_of_getElem? hfile))) hst
      refine hloop.mono fun _ _ _ B hnames hdir => ?_
      obtain ⟨p, hp, hoffset, htext⟩ := hdir
      exact ⟨⟨p, hp, hoffset, fun h _ => htext h⟩, fun _ _ => hnames⟩
    · refine Puts.done hst fun B hdir => ?_
      obtain ⟨p, hp, hoffset, htext⟩ := hdir
      exact ⟨⟨p, hp, hoffset, fun h _ => htext h⟩, fun _ h => absurd h hmode⟩
  · refine Puts.last (Puts.fillI32 (.baseDirOffset, none) rfl (Puts.done ⟨_, rfl⟩ fun B hoffset => ?_))
    exact ⟨⟨0, by decide, hoffset, fun _ h => absurd h hflag⟩, fun h => absurd h hflag⟩

theorem puts_bnd2WriteFileData (i : Nat) (file : Bnd2File) :
    Puts (bnd2Slots b.fileInfoFlags) (bnd2WriteFileData b.alignmentSize i file) ⟨pos, false, false⟩
      (fun _ st => ∃ p, st = ⟨p, false, false⟩) fun _ _ B => ∃ p, Bnd2FileAt b B i file p := by
  have hpad : Puts (bnd2Slots b.fileInfoFlags) (bnd2PadData b.alignmentSize) ⟨pos, false, false⟩
      (fun _ st => ∃ p, st = ⟨p, false, false⟩) fun _ _ _ => True := by
    refine Puts.ite (fun halign => ?_) fun _ => Puts.done ⟨_, rfl⟩ fun _ => trivial
    have hpos : (0 : Int) < b.alignmentSize.toNat := by
      have h := UInt16.lt_iff_toNat_lt.1 halign
      exact Int.natCast_pos.2 h
    exact Puts.last (Puts.pad hpos (Puts.done ⟨_, rfl⟩ fun _ => trivial))
  refine hpad.seq fun _ st hst => ?_
  obtain ⟨p, rfl⟩ := hst
  refine Puts.position (Puts.check fun hle => Puts.fillI32 (.fileOffset, some i) rfl
    (Puts.fillI32 (.sizeOfFile, some i) rfl ?_))
  refine Puts.ite (fun _ => ?_) fun hempty => ?_
  · exact Puts.last (Puts.bytes (Puts.done ⟨_, rfl⟩ fun B hdata hsize hoffset _ =>
      ⟨p, hle.1, hle.2, hoffset, hsize, hdata⟩))
  · have hnil : file.data = [] := List.length_eq_zero_iff.1 (Nat.eq_zero_of_not_pos hempty)
    refine Puts.here (Puts.done ⟨_, rfl⟩ fun B hend hsize hoffset _ => ?_)
    exact ⟨p, hle.1, hle.2, hoffset, hsize, by rw [hnil]; exact holds_nil.2 hend⟩

/-- **What the file of an archive holds.** -/
theorem puts_bnd2WriteToWriter (hos : os.AsciiCompatible) (hfit : b.Fits os) :
    Puts (bnd2Slots b.fileInfoFlags) (bnd2WriteToWriter os b) ⟨0, false, false⟩
      (fun _ st => st.pos ≤ INT32_MAX) fun _ _ B => B.length ≤ INT32_MAX → Bnd2Image os b B := by
  refine Puts.setBigEndian (Puts.ascii hos (by decide) (Puts.u8 (Puts.u8 (Puts.u8 (Puts.u8 (Puts.u8
    (Puts.i32 (Puts.reserveI32 (.fileSize, none) rfl rfl (Puts.check fun hcount => Puts.i32
    (Puts.reserveI32 (.baseDirOffset, none) rfl rfl (Puts.u16 (Puts.u8 (Puts.u8 (Puts.u32 ?_))))))))))))))
  have hnoNames : Puts (bnd2Slots b.fileInfoFlags) (bnd2WriteNoNames b.fileInfoFlags)
      ⟨32, false, false⟩ (fun _ st => st = ⟨bnd2EntryAt b.fileInfoFlags 0, false, false⟩)
      fun _ _ B => bnd2HasNameOffset b.fileInfoFlags = false →
        Holds B 32 (wordBytes false 4 (0 : UInt32).toNat) := by
    rw [bnd2EntryAt_zero, bnd2HeaderSize]
    refine Puts.ite (fun hflag => ?_) fun hflag => ?_
    · exact Puts.done (by rw [if_pos hflag]) fun B h => absurd hflag (by simp [h])
    · exact Puts.last (Puts.u32 (Puts.done (by rw [if_neg hflag]) fun B h _ => h))
  refine hnoNames.seq fun _ st hst => ?_
  subst hst
  have hheaders := puts_forIndexed (S := bnd2Slots b.fileInfoFlags)
    (f := bnd2WriteFileHeader b.fileInfoFlags b.filePathMode)
    (fun i st => st = ⟨bnd2EntryAt b.fileInfoFlags i, false, false⟩)
    (F := fun i file B => Holds B (bnd2EntryAt b.fileInfoFlags i) (bnd2Word file.id) ∧
      (bnd2HasNameOffset b.fileInfoFlags = true → b.filePathMode = bnd2Nameless →
        Holds B (bnd2EntryAt b.fileInfoFlags i + 12) (bnd2Word 0))) b.files
    (by
      rintro i file _ - rfl
      exact puts_bnd2WriteFileHeader i file) rfl
  refine hheaders.seq fun _ st hst => ?_
  subst hst
  refine Puts.here ((puts_bnd2WriteNames hfit).seq fun _ st hst => ?_)
  have hdata := puts_forIndexed (S := bnd2Slots b.fileInfoFlags)
    (f := bnd2WriteFileData b.alignmentSize) (fun _ st => ∃ p, st = ⟨p, false, false⟩)
    (F := fun i file B => ∃ p, Bnd2FileAt b B i file p) b.files
    (by
      rintro i file _ - ⟨p, rfl⟩
      exact puts_bnd2WriteFileData i file) hst
  refine hdata.seq fun _ st hst => ?_
  obtain ⟨p, rfl⟩ := hst
  refine Puts.position (Puts.check fun hfin => Puts.last (Puts.fillI32 (.fileSize, none) rfl
    (Puts.done hfin fun B _ hfiles hnames hheaders hids hnoNames hpadding hunk1b hmode halign hnum hversion
      hunk07 hunk06 hflags hinfo hzero hmagic hshort => ?_)))
  refine
    { magic := hmagic, zero := hzero, headerInfoFlags := hinfo, fileInfoFlags := hflags,
      unk06 := hunk06, unk07 := hunk07, fileVersion := hversion, count_le := hcount, count := hnum,
      baseDirectory := hnames.1, alignmentSize := halign, filePathMode := hmode, unk1b := hunk1b,
      padding := hpadding, noNames := hnoNames, headers := hheaders, ids := fun i file hi => (hids i file hi).1,
      names := fun hflag i file hi => ?_, data := hfiles, short := hshort }
  by_cases hless : b.filePathMode = bnd2Nameless
  · exact ⟨0, by rw [if_pos hless]; exact (hids i file hi).2 hflag hless⟩
  · obtain ⟨p, hp⟩ := hnames.2 hflag hless i file hi
    exact ⟨p, by rwa [if_neg hless]⟩

end Writing

/-! ## Reading -/

section Reading

open BinaryReader

variable {os : Win32} {b : Bnd2} {B : List UInt8} {flex : Bool}

/-- The header of a file, as the reader has it. -/
def bnd2HeaderReadBack (b : Bnd2) (p : Nat) (file : Bnd2File) : Bnd2FileHeader :=
  { id := file.id, nameUtf8 := bnd2NameReadBack b.fileInfoFlags b.filePathMode file,
    offset := Int32.ofNat p, size := Int32.ofNat file.data.length }

theorem reads_bnd2ReadName {i : Nat} {file : Bnd2File} (himage : Bnd2Image os b B)
    (hfit : b.Fits os) (hfile : b.files[i]? = some file) :
    Reads (bnd2ReadName os b.fileInfoFlags b.filePathMode file.id)
      ⟨B, bnd2EntryAt b.fileInfoFlags i + 12, false, false, [], flex⟩
      (bnd2NameReadBack b.fileInfoFlags b.filePathMode file)
      ⟨B, bnd2EntryAt b.fileInfoFlags (i + 1), false, false, [], flex⟩ := by
  rw [bnd2EntryAt_succ, bnd2EntrySize]
  unfold bnd2ReadName bnd2NameReadBack
  by_cases hflag : bnd2HasNameOffset b.fileInfoFlags = true
  · obtain ⟨p, hname⟩ := himage.names hflag i file hfile
    simp only [if_pos hflag]
    by_cases hless : b.filePathMode = bnd2Nameless
    · rw [if_pos hless] at hname
      simp only [if_pos hless]
      exact Reads.i32 hname (reads_alloc _ fun _ => Reads.pure _ _)
    · rw [if_neg hless] at hname
      simp only [if_neg hless]
      have hp := int32_toInt_ofNat hname.le
      refine Reads.i32 hname.offset (Reads.check (by rw [hp]; exact Int.natCast_nonneg p) ?_)
      rw [hp]
      have hfits := textFits_of_holds false (hfit.names hflag hless file (List.mem_of_getElem? hfile))
        hname.name himage.short
      have hle := hname.offset.le
      rw [length_wordBytes] at hle
      exact reads_getShiftJis hfits hname.name hle
  · simp only [if_neg hflag]
    exact reads_alloc _ fun _ => Reads.pure _ _

theorem reads_bnd2ReadFileHeader {i p : Nat} {file : Bnd2File} (himage : Bnd2Image os b B)
    (hfit : b.Fits os) (hfile : b.files[i]? = some file) (hat : Bnd2FileAt b B i file p) :
    Reads (bnd2ReadFileHeader os b.fileInfoFlags b.filePathMode)
      ⟨B, bnd2EntryAt b.fileInfoFlags i, false, false, [], flex⟩ (bnd2HeaderReadBack b p file)
      ⟨B, bnd2EntryAt b.fileInfoFlags (i + 1), false, false, [], flex⟩ := by
  have hp := int32_toInt_ofNat hat.le
  have hsize := int32_toInt_ofNat hat.size_le
  refine Reads.i32 (himage.ids i file hfile) (Reads.i32 hat.offset (Reads.i32 hat.size ?_))
  refine Reads.check (by rw [hp, hsize]; exact ⟨Int.natCast_nonneg _, Int.natCast_nonneg _⟩) ?_
  exact (reads_bnd2ReadName himage hfit hfile).bind (Reads.pure _ _)

theorem reads_bnd2ReadBaseDirectory {p pos : Nat} (hp : p ≤ INT32_MAX) (hfit : b.Fits os)
    (htext : b.filePathMode = bnd2BaseDirectory → bnd2HasNameOffset b.fileInfoFlags = true →
      Holds B p (storedText os false false (b.baseDirectory.getD [])))
    (hshort : B.length ≤ INT32_MAX) (hpos : pos ≤ B.length) :
    Reads (bnd2ReadBaseDirectory os b.fileInfoFlags b.filePathMode (Int32.ofNat p))
      ⟨B, pos, false, false, [], flex⟩ (if b.filePathMode = bnd2BaseDirectory ∧
        bnd2HasNameOffset b.fileInfoFlags then b.baseDirectory.getD [] else [])
      ⟨B, pos, false, false, [], flex⟩ := by
  unfold bnd2ReadBaseDirectory
  split
  · next h =>
      rw [int32_toInt_ofNat hp]
      have hheld := htext h.1 h.2
      exact reads_getShiftJis
        (textFits_of_holds false (hfit.baseDirectory h.2 h.1) hheld hshort) hheld hpos
  · exact reads_alloc _ fun _ => Reads.pure _ _

theorem reads_bnd2AssertNoNames (himage : Bnd2Image os b B) :
    Reads (bnd2AssertNoNames b.fileInfoFlags) ⟨B, 32, false, false, [], flex⟩ ()
      ⟨B, bnd2EntryAt b.fileInfoFlags 0, false, false, [], flex⟩ := by
  rw [bnd2EntryAt_zero, bnd2HeaderSize, bnd2AssertNoNames]
  rcases hflag : bnd2HasNameOffset b.fileInfoFlags with _ | _
  · have hzero := himage.noNames hflag
    simp only [Bool.false_eq_true, if_false]
    exact (parses_assert (parses_u32 ⟨B, 32, false, false, [], flex⟩ 0) (by decide)).step hzero
      (Reads.pure _ _)
  · exact Reads.pure _ _

/-- The headers, each with the place of its data. -/
def bnd2HeadersReadBack (b : Bnd2) (places : Nat → Nat) : List Bnd2FileHeader :=
  b.files.mapIdx fun i file => bnd2HeaderReadBack b (places i) file

theorem bnd2HeadersReadBack_getElem? {places : Nat → Nat} {i : Nat} {header : Bnd2FileHeader}
    (h : (bnd2HeadersReadBack b places)[i]? = some header) :
    ∃ file, b.files[i]? = some file ∧ header = bnd2HeaderReadBack b (places i) file := by
  rw [bnd2HeadersReadBack, List.getElem?_mapIdx, Option.map_eq_some_iff] at h
  obtain ⟨file, hfile, rfl⟩ := h
  exact ⟨file, hfile, rfl⟩

theorem reads_bnd2ReadHeader (flex : Bool) {places : Nat → Nat} (himage : Bnd2Image os b B) (hfit : b.Fits os)
    (hplaces : ∀ i file, b.files[i]? = some file → Bnd2FileAt b B i file (places i))
    (hmode : b.filePathMode ∈ [0, 1, 2, 3]) (hunk1b : b.unk1b ∈ [0, 1]) :
    ∃ pos, pos ≤ B.length ∧ Reads (bnd2ReadHeader os) ⟨B, 0, false, false, [], flex⟩
      ({ b with baseDirectory := b.readBack.baseDirectory, files := [] }, bnd2HeadersReadBack b places)
      ⟨B, pos, false, false, [], flex⟩ := by
  obtain ⟨p, hp, hbase, htext⟩ := himage.baseDirectory
  have hcount := int32_toInt_ofNat himage.count_le
  have hskip := himage.count.le
  rw [length_wordBytes] at hskip
  have hlen : (bnd2HeadersReadBack b places).length = b.files.length := List.length_mapIdx
  have hstart : bnd2EntryAt b.fileInfoFlags 0 ≤ B.length := by
    refine le_trans ?_ himage.headers
    rw [bnd2EntryAt_zero, bnd2EntryAt]
    exact Nat.le_add_right _ _
  have hheaders := reads_readEach_at (m := bnd2ReadFileHeader os b.fileInfoFlags b.filePathMode)
    (fun i => ⟨B, bnd2EntryAt b.fileInfoFlags i, false, false, [], flex⟩) (bnd2HeadersReadBack b places)
    (by
      intro i header hheader
      obtain ⟨file, hfile, rfl⟩ := bnd2HeadersReadBack_getElem? hheader
      exact reads_bnd2ReadFileHeader himage hfit hfile (hplaces i file hfile))
  rw [hlen] at hheaders
  refine ⟨bnd2EntryAt b.fileInfoFlags b.files.length, himage.headers, ?_⟩
  refine Reads.setBig (Reads.ascii himage.magic (Reads.assertU8 himage.zero (by decide) (Reads.u8
    himage.headerInfoFlags (Reads.u8 himage.fileInfoFlags (Reads.u8 himage.unk06 (Reads.u8 himage.unk07
    (Reads.i32 himage.fileVersion (Reads.skip (n := 4) (le_trans (Nat.le_add_right 16 4) hskip) (Reads.i32
    himage.count (Reads.i32 hbase (Reads.u16 himage.alignmentSize (Reads.enum8 himage.filePathMode hmode
    (Reads.assertU8 himage.unk1b hunk1b ((parses_assert (parses_u32 _ 0) (by decide)).step himage.padding
    ((reads_bnd2AssertNoNames himage).bind (Reads.check ?_ ((reads_bnd2ReadBaseDirectory hp hfit htext
    himage.short hstart).bind ?_)))))))))))))))))
  · rw [hcount, int32_toInt_ofNat hp]
    exact ⟨Int.natCast_nonneg _, Int.natCast_nonneg _⟩
  · have hrest : Reads (readEach (bnd2ReadFileHeader os b.fileInfoFlags b.filePathMode)
        (Int32.ofNat b.files.length).toInt.toNat)
        ⟨B, bnd2EntryAt b.fileInfoFlags 0, false, false, [], flex⟩ (bnd2HeadersReadBack b places)
        ⟨B, bnd2EntryAt b.fileInfoFlags b.files.length, false, false, [], flex⟩ := by
      rw [hcount, Int.toNat_natCast]
      exact hheaders
    exact Reads.ite (fun _ => reads_alloc _ fun _ => hrest.bind (Reads.pure _ _))
      fun _ => hrest.bind (Reads.pure _ _)

/-! ## The data -/

theorem reads_bnd2ReadData {i p pos : Nat} {file : Bnd2File} (hat : Bnd2FileAt b B i file p)
    (hpos : pos ≤ B.length) :
    Reads (bnd2ReadData (bnd2HeaderReadBack b p file)) ⟨B, pos, false, false, [], flex⟩
      (file.readBack b.fileInfoFlags b.filePathMode) ⟨B, pos, false, false, [], flex⟩ := by
  have hsize := int32_toInt_ofNat hat.size_le
  unfold bnd2ReadData
  simp only [bnd2HeaderReadBack]
  refine Reads.ite (fun _ => ?_) fun hempty => ?_
  · rw [hsize, Int.toNat_natCast, int32_toInt_ofNat hat.le]
    refine reads_alloc _ fun _ => Reads.got rfl hat.data hpos (parses_bytes _ _) ?_
    exact Reads.pure _ _
  · rw [hsize] at hempty
    have hnil : file.data = [] := List.length_eq_zero_iff.1 (by omega)
    rw [Bnd2File.readBack, hnil]
    exact Reads.pure _ _

theorem reads_bnd2ReadFiles (flex : Bool) {pos : Nat} (hpos : pos ≤ B.length) (files : List Bnd2File)
    (headers : List Bnd2FileHeader)
    (h : List.Forall₂ (fun file header => ∃ i p, Bnd2FileAt b B i file p ∧
      header = bnd2HeaderReadBack b p file) files headers) :
    Reads (bnd2ReadFiles headers) ⟨B, pos, false, false, [], flex⟩
      (files.map (Bnd2File.readBack b.fileInfoFlags b.filePathMode)) ⟨B, pos, false, false, [], flex⟩ := by
  induction h with
  | nil => exact Reads.pure _ _
  | @cons file header files headers hfirst _ ih =>
      obtain ⟨i, p, hat, rfl⟩ := hfirst
      exact (reads_bnd2ReadData hat hpos).bind (ih.bind (Reads.pure _ _))

theorem reads_bnd2PopulateFromReader (flex : Bool) (himage : Bnd2Image os b B) (hfit : b.Fits os)
    (hmode : b.filePathMode ∈ [0, 1, 2, 3]) (hunk1b : b.unk1b ∈ [0, 1]) :
    ∃ c', Reads (bnd2PopulateFromReader os) ⟨B, 0, false, false, [], flex⟩ b.readBack c' := by
  obtain ⟨places, hplaces⟩ := BinaryWriter.exists_places himage.data
  obtain ⟨pos, hpos, hheader⟩ := reads_bnd2ReadHeader flex himage hfit hplaces hmode hunk1b
  have hforall : List.Forall₂ (fun file header => ∃ i p, Bnd2FileAt b B i file p ∧
      header = bnd2HeaderReadBack b p file) b.files (bnd2HeadersReadBack b places) := by
    refine List.forall₂_iff_get.2 ⟨List.length_mapIdx.symm, fun i hi hi' => ?_⟩
    refine ⟨i, places i, hplaces i _ (List.getElem?_eq_getElem hi), ?_⟩
    simp [bnd2HeadersReadBack]
  have hfiles := reads_bnd2ReadFiles flex hpos b.files (bnd2HeadersReadBack b places) hforall
  refine ⟨⟨B, pos, false, false, [], flex⟩, hheader.bind ?_⟩
  simp only
  split
  · exact reads_alloc _ fun _ => reads_alloc _ fun _ => hfiles.bind (Reads.pure _ _)
  · exact hfiles.bind (Reads.pure _ _)

end Reading

/-! ## The whole run -/

theorem bnd2ReadFromMemory_ok {os : Win32} (hos : os.AsciiCompatible) (codecs : Codecs) {b : Bnd2}
    (hfit : b.Fits os) (hmode : b.filePathMode ∈ [0, 1, 2, 3]) (hunk1b : b.unk1b ∈ [0, 1]) {heap : Heap}
    {out : List UInt8} (hwrite : (bnd2WriteToMemory os b heap).1 = .ok out) (flexible : Bool)
    {heap' : Heap} (hcalm : heap'.Calm) :
    (bnd2ReadFromMemory os codecs flexible out heap').1 = .ok b.readBack := by
  obtain ⟨st, hle, himage, hlen, -⟩ := (puts_bnd2WriteToWriter hos hfit).toMemory nofun hwrite
  have himage := himage (hlen.trans_le hle)
  obtain ⟨c', hread⟩ := reads_bnd2PopulateFromReader flexible himage hfit hmode hunk1b
  have hmagic : Holds out 0 (cstr "BND" ++ [0]) := holds_append.2 ⟨himage.magic, himage.zero⟩
  exact onMemory_withDecompressedReader codecs hmagic rfl (by decide)
    (BinaryReader.reads_alloc _ fun _ => BinaryReader.reads_alloc _ fun _ => hread) hcalm

/-- **An archive that is written is read back**, with its names as its path mode stores them; written
    again, it is read back as it is. -/
theorem bnd2_written_is_read_back (os : Win32) (hos : os.AsciiCompatible) (codecs : Codecs) (b : Bnd2)
    (hfit : b.Fits os) (hmode : b.filePathMode ∈ [0, 1, 2, 3]) (hunk1b : b.unk1b ∈ [0, 1]) (heap : Heap)
    (out : List UInt8) (hwrite : (bnd2WriteToMemory os b heap).1 = .ok out) (flexible : Bool)
    (heap' : Heap) (hcalm : heap'.Calm) :
    (bnd2ReadFromMemory os codecs flexible out heap').1 = .ok b.readBack ∧
      ∀ (heap2 : Heap) (out2 : List UInt8), (bnd2WriteToMemory os b.readBack heap2).1 = .ok out2 →
        (bnd2ReadFromMemory os codecs flexible out2 heap').1 = .ok b.readBack := by
  refine ⟨bnd2ReadFromMemory_ok hos codecs hfit hmode hunk1b hwrite flexible hcalm, fun heap2 out2 hwrite2 => ?_⟩
  have hread := bnd2ReadFromMemory_ok hos codecs hfit.readBack hmode hunk1b hwrite2 flexible
    hcalm
  rwa [b.readBack_readBack] at hread

/-- A file without a drive, one with a drive and one without a name. -/
def bnd2Sample : Bnd2 :=
  { headerInfoFlags := 1, fileInfoFlags := 0x0F, unk06 := 2, unk07 := 3, fileVersion := 211,
    alignmentSize := 16, filePathMode := bnd2FullPath, unk1b := 1, baseDirectory := none,
    files := [⟨5, some (cstr "a"), [1, 2, 3]⟩, ⟨-7, some (cstr "N:\\b"), []⟩, ⟨9, none, [4]⟩] }

/-- What an archive is written to. -/
def bnd2Bytes (os : Win32) (b : Bnd2) : List UInt8 := (bnd2WriteToMemory os b []).1.toOption.getD []

theorem bnd2_sample_is_read_back :
    (bnd2ReadFromMemory .ascii storingCodecs false (bnd2Bytes .ascii bnd2Sample) []).1
      = .ok { bnd2Sample with
        baseDirectory := some []
        files := [⟨5, some (cstr "K:\\a"), [1, 2, 3]⟩, ⟨-7, some (cstr "N:\\b"), []⟩,
          ⟨9, some (cstr "K:\\"), [4]⟩] } := by
  have hplain : ∀ file ∈ bnd2Sample.files,
      Win32.isPlain (bnd2StoredName bnd2Sample.filePathMode file.nameUtf8) = true := by
    decide +kernel
  have hfit : bnd2Sample.Fits .ascii := by
    constructor
    · intro _ _ file hfile
      obtain ⟨hascii, hnul⟩ := Win32.isPlain_iff.1 (hplain file hfile)
      exact Win32.ascii_compatible.fits hascii hnul
    · intro _ h
      exact absurd h (by decide)
  exact (bnd2_written_is_read_back .ascii Win32.ascii_compatible storingCodecs bnd2Sample hfit (by decide)
    (by decide) [] (bnd2Bytes .ascii bnd2Sample) (by decide +kernel) false [] Heap.calm_nil).1

/-- A name that Shift-JIS does not have comes back as a question mark. -/
theorem bnd2_thai_name_is_not_read_back :
    let b : Bnd2 := { bnd2Sample with
      filePathMode := bnd2FileName
      files := [⟨5, some [0xE0, 0xB8, 0x81], []⟩] }
    Win32.questionMark.AsciiCompatible ∧
      (bnd2WriteToMemory .questionMark b []).1 = .ok (bnd2Bytes .questionMark b) ∧
      (bnd2ReadFromMemory .questionMark storingCodecs false (bnd2Bytes .questionMark b) []).1
        = .ok { b with baseDirectory := some [], files := [⟨5, some (cstr "?"), []⟩] } :=
  ⟨Win32.questionMark_compatible, by decide +kernel, by decide +kernel⟩

end SoulsFormats
