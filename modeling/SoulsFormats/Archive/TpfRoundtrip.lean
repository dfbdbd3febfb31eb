import SoulsFormats.Archive.Tpf
import SoulsFormats.Compression.DcxGranting
import SoulsFormats.Compression.DcxRoundtrip
import SoulsFormats.Core.Accepted
import SoulsFormats.Core.Scan

set_option autoImplicit false

/-! # TPF texture packs are read back

What the reader accepts as a pack for the PC is read back when it has been written, unless a texture that
belongs in a container has no bytes: the writer makes no container for it, and the reader opens one. -/

namespace SoulsFormats

open Bytes Fallible

/-! ## The correction of cube maps -/

theorem tpfApplyDx10CubemapFix_of_ne {x : List UInt8} (h : x[0x8C]? ≠ some 6) :
    tpfApplyDx10CubemapFix x = x := by
  unfold tpfApplyDx10CubemapFix
  rw [if_neg h]
  split
  · rfl
  · split
    · rfl
    · split <;> rfl

/-- What is corrected stays as it is. -/
theorem tpfApplyDx10CubemapFix_fixed (x : List UInt8) :
    tpfApplyDx10CubemapFix (tpfApplyDx10CubemapFix x) = tpfApplyDx10CubemapFix x := by
  by_cases h : x[0x8C]? = some 6
  · have hset : (x.set 0x8C 1)[0x8C]? ≠ some 6 := by
      have hlt := (List.getElem?_eq_some_iff.1 h).1
      rw [List.getElem?_set_self hlt]
      decide
    by_cases hsame : tpfApplyDx10CubemapFix x = x
    · rw [hsame, hsame]
    · have hfix : tpfApplyDx10CubemapFix x = x.set 0x8C 1 := by
        unfold tpfApplyDx10CubemapFix at hsame ⊢
        rw [if_pos h] at hsame ⊢
        split at hsame
        · exact absurd rfl hsame
        · next h1 =>
            rw [if_neg h1]
            split at hsame
            · exact absurd rfl hsame
            · next h2 =>
                rw [if_neg h2]
                split at hsame
                · exact absurd rfl hsame
                · next h3 => rw [if_neg h3]
      rw [hfix, tpfApplyDx10CubemapFix_of_ne hset]
  · rw [tpfApplyDx10CubemapFix_of_ne h, tpfApplyDx10CubemapFix_of_ne h]

/-! ## What is accepted -/

/-- The name can be stored, and there is one if the encoding is known. -/
def TpfNameFits (os : Win32) (encoding : UInt8) (name : Option (List UInt8)) : Prop :=
  if encoding = 1 then ∃ t, name = some t ∧ os.Fits16 t
  else if encoding = 0 ∨ encoding = 2 then ∃ t, name = some t ∧ os.Fits .shiftJis t
  else name = none

structure TpfTexture.Accepted (os : Win32) (flexible : Bool) (encoding : UInt8) (t : TpfTexture) : Prop where
  flags1 : flexible = false → t.flags1 ∈ [0, 1, 2, 3, 0x80]
  fixed : tpfApplyDx10CubemapFix t.bytes = t.bytes
  name : TpfNameFits os encoding t.name
  short : tpfIsEdge t.flags1 = true → t.bytes.length < 2 ^ 32

/-- A pack for the PC, as the reader returns it. -/
structure Tpf.Accepted (os : Win32) (flexible : Bool) (p : Tpf) : Prop where
  flag2 : flexible = false → p.flag2 ∈ [0, 1, 2, 3]
  encoding : flexible = false → p.encoding ∈ [0, 1, 2]
  textures : ∀ t ∈ p.textures, t.Accepted os flexible p.encoding

section Accepted

open BinaryReader

variable {os : Win32} {codecs : Codecs} {M : Mode}

theorem returns_be32 (input : List UInt8) (off : Nat) : Returns (be32 input off) fun n => n < 2 ^ 32 := by
  have hbytes : Returns (inputAt input off 4) fun bs => bs.length ≤ 4 :=
    Returns.check fun _ => Returns.pure (by simp)
  refine hbytes.bind fun bs hbs => Returns.pure ((wordNat_lt true bs).trans_le ?_)
  exact Nat.pow_le_pow_right (by decide) hbs

/-- What a DCP_EDGE container gives is below the size that its header can tell. -/
theorem returns_dcxDecompressFromBuffer (input : List UInt8) :
    Returns (dcxDecompressFromBuffer codecs input) fun p => p.2.type = .dcpEdge → p.1.length < 2 ^ 32 := by
  refine Returns.after fun info => ?_
  cases htype : info.type with
  | dcpEdge =>
      have hedge : Returns (decompressEdge codecs input false) fun x => x.length < 2 ^ 32 := by
        refine Returns.check fun _ => Returns.after fun _ => Returns.check fun _ => ?_
        refine (returns_be32 input _).bind fun usize husize => Returns.after fun _ => Returns.after fun dst => ?_
        refine Returns.after fun edge => Returns.check fun _ => Returns.after fun _ => Returns.pure ?_
        rw [List.length_take]
        omega
      exact hedge.bind fun x hx => Returns.pure fun _ => hx
  | _ => exact Returns.after fun x => Returns.pure fun h => by rw [htype] at h; cases h

instance (platform : TpfPlatform) (flag2 : UInt8) : Modeless (tpfSkipMetadata platform flag2) := by
  unfold tpfSkipMetadata
  infer_instance

instance (hasFloatStruct : Int32) : Modeless (tpfSkipFloatStruct hasFloatStruct) := by
  unfold tpfSkipFloatStruct
  infer_instance

instance (platform : TpfPlatform) (flag2 : UInt8) : Modeless (tpfReadRecord platform flag2) := by
  unfold tpfReadRecord
  infer_instance

instance (rec : TpfTexRecord) : Modeless (tpfReadStored rec) := by
  unfold tpfReadStored
  infer_instance

instance (flags1 : UInt8) (raw : List UInt8) : Modeless (tpfOpenStored codecs flags1 raw) := by
  unfold tpfOpenStored
  infer_instance

instance (encoding : UInt8) (nameOffset : UInt32) : Modeless (tpfReadName os encoding nameOffset) := by
  unfold tpfReadName
  infer_instance

instance (platform : TpfPlatform) (encoding : UInt8) (rec : TpfTexRecord) :
    Modeless (tpfReadOne os codecs platform encoding rec) := by
  unfold tpfReadOne
  infer_instance

theorem accepts_tpfReadRecord (platform : TpfPlatform) (flag2 : UInt8) :
    Accepts M (tpfReadRecord platform flag2) fun rec =>
      M.isFlexible = false → rec.flags1 ∈ ([0, 1, 2, 3, 0x80] : List UInt8) := by
  refine Accepts.after fun _ => Accepts.after fun _ => Accepts.after fun _ => Accepts.after fun _ => ?_
  refine Accepts.after fun _ => (accepts_assert _).bind fun flags1 hflags => Accepts.after fun _ => ?_
  refine Accepts.after fun _ => Accepts.after fun _ => Accepts.after fun _ => Accepts.after fun _ => ?_
  exact Accepts.pure hflags

theorem accepts_tpfOpenStored (flags1 : UInt8) (raw : List UInt8) :
    Accepts M (tpfOpenStored codecs flags1 raw) fun x => tpfIsEdge flags1 = true → x.length < 2 ^ 32 := by
  refine Accepts.ite (fun _ => ?_) fun hno => Accepts.pure fun h => absurd h hno
  refine (accepts_onHeap (returns_dcxDecompressFromBuffer raw)).bind fun x hx => ?_
  exact Accepts.check fun htype => Accepts.pure fun _ => hx htype

theorem accepts_tpfReadName (hos : os.Faithful) (encoding : UInt8) (nameOffset : UInt32) :
    Accepts M (tpfReadName os encoding nameOffset) fun name => TpfNameFits os encoding name := by
  unfold tpfReadName
  by_cases hwide : encoding = 1
  · simp only [TpfNameFits, if_pos hwide]
    exact (accepts_getUtf16 hos _).bind fun t ht => Accepts.pure ⟨t, rfl, ht⟩
  · by_cases hjis : encoding = 0 ∨ encoding = 2
    · simp only [TpfNameFits, if_neg hwide, if_pos hjis]
      exact (accepts_getShiftJis hos _).bind fun t ht => Accepts.pure ⟨t, rfl, ht⟩
    · simp only [TpfNameFits, if_neg hwide, if_neg hjis]
      exact Accepts.pure rfl

theorem length_tpfApplyDx10CubemapFix (x : List UInt8) : (tpfApplyDx10CubemapFix x).length = x.length := by
  unfold tpfApplyDx10CubemapFix
  split
  · rfl
  · split
    · rfl
    · split
      · rfl
      · split
        · exact List.length_set
        · rfl

instance (platform : TpfPlatform) (encoding : UInt8) (count capacity : Nat) (recs : List TpfTexRecord) :
    Modeless (tpfReadTextures os codecs platform encoding count capacity recs) := by
  induction recs generalizing count capacity with
  | nil =>
      unfold tpfReadTextures
      infer_instance
  | cons rec recs ih =>
      unfold tpfReadTextures
      infer_instance

theorem accepts_tpfReadOne (hos : os.Faithful) (encoding : UInt8) {rec : TpfTexRecord}
    (hrec : M.isFlexible = false → rec.flags1 ∈ ([0, 1, 2, 3, 0x80] : List UInt8)) :
    Accepts M (tpfReadOne os codecs tpfPlatformPc encoding rec) fun t =>
      t.Accepted os M.isFlexible encoding := by
  refine Accepts.after fun _ => Accepts.check fun _ => Accepts.after fun raw => ?_
  refine (accepts_tpfOpenStored _ _).bind fun opened hopened => ?_
  refine (accepts_tpfReadName hos _ _).bind fun name hname => Accepts.pure ?_
  exact
    { flags1 := hrec
      fixed := tpfApplyDx10CubemapFix_fixed opened
      name := hname
      short := fun hedge => by
        have h := hopened hedge
        rw [← length_tpfApplyDx10CubemapFix] at h
        exact h }

theorem accepts_tpfReadTextures (hos : os.Faithful) (encoding : UInt8) (count capacity : Nat)
    {recs : List TpfTexRecord}
    (hrecs : ∀ rec ∈ recs, M.isFlexible = false → rec.flags1 ∈ ([0, 1, 2, 3, 0x80] : List UInt8)) :
    Accepts M (tpfReadTextures os codecs tpfPlatformPc encoding count capacity recs) fun ts =>
      ∀ t ∈ ts, t.Accepted os M.isFlexible encoding := by
  induction recs generalizing count capacity with
  | nil => exact Accepts.pure nofun
  | cons rec recs ih =>
      refine (accepts_tpfReadOne hos encoding (hrecs rec List.mem_cons_self)).bind fun t ht => ?_
      refine Accepts.after fun capacity => ?_
      refine (ih (count + 1) capacity fun rec h => hrecs rec (List.mem_cons_of_mem _ h)).bind fun ts hts => ?_
      refine Accepts.pure ?_
      simp only [List.mem_cons, forall_eq_or_imp]
      exact ⟨ht, hts⟩

/-- **What the reader returns for the PC** can be stored again. -/
theorem accepts_tpfPopulate (hos : os.Faithful) :
    Accepts M (tpfPopulate os codecs) fun p => p.platform = tpfPlatformPc → p.Accepted os M.isFlexible := by
  unfold tpfPopulate tpfReadHeader
  simp only [bind_assoc]
  refine Accepts.setBigEndian (Accepts.after fun _ => Accepts.check fun _ => Accepts.after fun platform => ?_)
  refine Accepts.setBigEndian (Accepts.after fun _ => Accepts.after fun _ => Accepts.check fun _ => ?_)
  refine Accepts.after fun _ => (accepts_assert _).bind fun flag2 hflag2 => ?_
  refine (accepts_assert _).bind fun encoding hencoding => Accepts.after fun _ => Accepts.after fun _ => ?_
  refine (accepts_readEach (accepts_tpfReadRecord platform flag2) _).bind fun recs hrecs => ?_
  simp only [pure_bind]
  by_cases hpc : platform = tpfPlatformPc
  · subst hpc
    refine Accepts.bind (accepts_tpfReadTextures hos encoding 0 0 hrecs.2) fun ts hts => Accepts.pure fun _ => ?_
    exact ⟨hflag2, hencoding, hts⟩
  · exact Accepts.after fun ts => Accepts.pure fun h => absurd h hpc

end Accepted

/-! ## Nothing to open -/

section Empty

open BinaryReader

variable {os : Win32} {codecs : Codecs} {M : Mode}

/-- A texture that belongs in a container is only read from a record that has one. -/
theorem accepts_tpfReadOne_size (platform : TpfPlatform) (encoding : UInt8) (rec : TpfTexRecord) :
    Accepts M (tpfReadOne os codecs platform encoding rec) fun _ =>
      tpfIsEdge rec.flags1 = true → 0 < rec.fileSize.toInt := by
  by_cases hsize : 0 < rec.fileSize.toInt
  · exact Accepts.trivial.mono fun _ _ _ => hsize
  · refine Accepts.after fun _ => Accepts.check fun _ => ?_
    have hraw : Accepts M (Fallible.given (0 < rec.fileSize.toInt) [] (tpfReadStored rec)) fun raw => raw = [] :=
      Accepts.given (fun h => absurd (of_decide_eq_true h) hsize) fun _ => rfl
    refine hraw.bind fun raw hnil => ?_
    subst hnil
    have hopen : Accepts M (tpfOpenStored codecs rec.flags1 []) fun _ => tpfIsEdge rec.flags1 = false := by
      refine Accepts.ite (fun _ => ?_) fun hno => Accepts.pure (by simpa using hno)
      intro r _ a r' hrun
      rw [bind_error (show onHeap (dcxDecompressFromBuffer codecs []) r = (.error .unsupportedVersion, r) from rfl)]
        at hrun
      cases hrun
    refine hopen.bind fun _ hno => Accepts.after fun _ => Accepts.pure fun hedge => ?_
    rw [hno] at hedge
    cases hedge

theorem accepts_tpfReadTextures_size (platform : TpfPlatform) (encoding : UInt8) (count capacity : Nat)
    (recs : List TpfTexRecord) :
    Accepts M (tpfReadTextures os codecs platform encoding count capacity recs) fun _ =>
      ∀ rec ∈ recs, tpfIsEdge rec.flags1 = true → 0 < rec.fileSize.toInt := by
  induction recs generalizing count capacity with
  | nil => exact Accepts.pure nofun
  | cons rec recs ih =>
      refine (accepts_tpfReadOne_size platform encoding rec).bind fun _ hrec => Accepts.after fun capacity => ?_
      refine (ih (count + 1) capacity).bind fun _ hrecs => Accepts.pure ?_
      simp only [List.mem_cons, forall_eq_or_imp]
      exact ⟨hrec, hrecs⟩

end Empty

/-! ## Where everything stands -/

/-- Where the record of the `i`-th texture stands. -/
def tpfEntryAt (i : Nat) : Nat := 16 + i * 20

theorem tpfEntryAt_succ (i : Nat) : tpfEntryAt (i + 1) = tpfEntryAt i + 20 := by
  unfold tpfEntryAt
  omega

/-- The slots of the writer. -/
inductive TpfSlot where
  | dataSize
  | fileData
  | fileSize
  | fileName

def tpfLabels : BinaryWriter.Labels TpfSlot where
  base
    | .dataSize => "DataSize"
    | .fileData => "FileData"
    | .fileSize => "FileSize"
    | .fileName => "FileName"
  kind
    | .dataSize => .i32
    | .fileData => .u32
    | .fileSize => .i32
    | .fileName => .u32
  noDigits := by
    intro a
    cases a <;> decide
  inj := by
    intro a b h
    cases a <;> cases b <;> first | rfl | exact absurd h (by decide)

/-- Where a slot is reserved. -/
def tpfAddr : TpfSlot → Option Nat → Nat
  | .dataSize, _ => 4
  | .fileData, i => tpfEntryAt (i.getD 0)
  | .fileSize, i => tpfEntryAt (i.getD 0) + 4
  | .fileName, i => tpfEntryAt (i.getD 0) + 12

abbrev tpfSlots : BinaryWriter.FileSlots (TpfSlot × Option Nat) := tpfLabels.slots tpfAddr

abbrev tpfWord (n : Nat) : List UInt8 := wordBytes false 4 (UInt32.ofNat n).toNat

abbrev tpfSize (n : Nat) : List UInt8 := wordBytes false 4 (Int32.ofNat n).toUInt32.toNat

/-- What is stored of the bytes of a texture. -/
def TpfStores (codecs : Codecs) (t : TpfTexture) (z : List UInt8) : Prop :=
  if tpfIsEdge t.flags1 ∧ 0 < t.bytes.length then
    ∃ heap, (dcxCompressToBuffer codecs t.bytes .dcpEdge heap).1 = .ok z
  else z = t.bytes

/-- The fixed part of the `i`-th record. -/
structure TpfRecordAt (B : List UInt8) (i : Nat) (t : TpfTexture) : Prop where
  format : Holds B (tpfEntryAt i + 8) [t.format]
  type : Holds B (tpfEntryAt i + 9) [if (tpfMetadata tpfPlatformPc t).1 then 1 else 0]
  mipmaps : Holds B (tpfEntryAt i + 10) [(tpfMetadata tpfPlatformPc t).2]
  flags1 : Holds B (tpfEntryAt i + 11) [t.flags1]
  hasFloatStruct : Holds B (tpfEntryAt i + 16) (wordBytes false 4 (0 : Int32).toUInt32.toNat)

/-- The name of the `i`-th texture, which stands at `p`. -/
structure TpfNameAt (os : Win32) (encoding : UInt8) (B : List UInt8) (i : Nat) (t : TpfTexture) (p : Nat) :
    Prop where
  offset : Holds B (tpfEntryAt i + 12) (tpfWord p)
  name : Holds B p (storedText os (encoding == 1) false (t.name.getD []))

/-- The bytes of the `i`-th texture, which stand at `p`. -/
structure TpfDataAt (codecs : Codecs) (B : List UInt8) (i : Nat) (t : TpfTexture) (p : Nat) (z : List UInt8) :
    Prop where
  offset : Holds B (tpfEntryAt i) (tpfWord p)
  size : Holds B (tpfEntryAt i + 4) (tpfSize z.length)
  data : Holds B p z
  stores : TpfStores codecs t z

/-- What the file of a pack holds. -/
structure TpfImage (os : Win32) (codecs : Codecs) (p : Tpf) (B : List UInt8) : Prop where
  magic : Holds B 0 (cstr "TPF" ++ [0])
  dataSize : 8 ≤ B.length
  count : Holds B 8 (tpfSize p.textures.length)
  platform : Holds B 12 [tpfPlatformPc]
  flag2 : Holds B 13 [p.flag2]
  encoding : Holds B 14 [p.encoding]
  zero : Holds B 15 [0]
  headers : tpfEntryAt p.textures.length ≤ B.length
  records : ∀ i t, p.textures[i]? = some t → TpfRecordAt B i t
  names : ∀ i t, p.textures[i]? = some t → ∃ q, TpfNameAt os p.encoding B i t q
  data : ∀ i t, p.textures[i]? = some t → ∃ q, ∃ z, TpfDataAt codecs B i t q z

/-! ## Writing -/

section Writing

open BinaryWriter

variable {os : Win32} {codecs : Codecs} {p : Tpf} {pos : Nat}

theorem puts_tpfWriteOneHeader (i : Nat) (t : TpfTexture) :
    Puts tpfSlots (tpfWriteOneHeader tpfPlatformPc i t) ⟨tpfEntryAt i, false, false⟩
      (fun _ st => st = ⟨tpfEntryAt (i + 1), false, false⟩) fun _ _ B => TpfRecordAt B i t := by
  rw [tpfEntryAt_succ]
  refine Puts.reserveU32 (.fileData, some i) rfl rfl (Puts.reserveI32 (.fileSize, some i) rfl rfl ?_)
  refine Puts.u8 (Puts.u8 (Puts.u8 (Puts.u8 (Puts.reserveU32 (.fileName, some i) rfl rfl ?_))))
  refine Puts.last (Puts.i32 (Puts.done rfl fun B hfloat hflags hmipmaps htype hformat => ?_))
  exact ⟨hformat, htype, hmipmaps, hflags, hfloat⟩

theorem TpfNameFits.noNul {encoding : UInt8} {name : Option (List UInt8)} (h : TpfNameFits os encoding name) :
    ∀ b ∈ name.getD [], b ≠ 0 := by
  unfold TpfNameFits at h
  split at h
  · obtain ⟨t, rfl, ht⟩ := h
    exact ht.noNul
  · split at h
    · obtain ⟨t, rfl, ht⟩ := h
      exact ht.noNul
    · subst h
      nofun

theorem puts_tpfWriteOneName (i : Nat) (t : TpfTexture) {encoding : UInt8}
    (hname : TpfNameFits os encoding t.name) :
    Puts tpfSlots (tpfWriteOneName os encoding i t) ⟨pos, false, false⟩
      (fun _ st => ∃ q, st = ⟨q, false, false⟩) fun _ _ B => ∃ q, TpfNameAt os encoding B i t q := by
  refine Puts.position (Puts.fillU32 (.fileName, some i) rfl (Puts.ite (fun hwide => ?_) fun hwide => ?_))
  · refine Puts.last (Puts.utf16 hname.noNul (Puts.done ⟨_, rfl⟩ fun B hheld hoffset => ⟨pos, hoffset, ?_⟩))
    rw [hwide]
    exact hheld
  · refine Puts.last (Puts.shiftJis hname.noNul (Puts.done ⟨_, rfl⟩ fun B hheld hoffset => ⟨pos, hoffset, ?_⟩))
    rw [beq_eq_false_iff_ne.2 hwide]
    exact hheld

theorem puts_tpfStore (t : TpfTexture) {f : List UInt8 → WriteM Unit}
    {Q : Unit → Stand → Prop} {F : Unit → Stand → List UInt8 → Prop} {st : Stand}
    (hf : ∀ z, TpfStores codecs t z → Puts tpfSlots (f z) st Q F) :
    Puts tpfSlots (tpfStore codecs t >>= f) st Q F := by
  unfold tpfStore TpfStores at *
  split
  · next hedge =>
      refine Puts.onHeap (dcxCompressToBuffer_keeps _) fun z hz => hf z ?_
      obtain ⟨heap, heap', hz⟩ := hz
      rw [if_pos hedge]
      exact ⟨heap, by rw [hz]⟩
  · next hedge =>
      rw [pure_bind]
      exact hf t.bytes (by rw [if_neg hedge])

theorem puts_tpfWriteData (i : Nat) (t : TpfTexture) :
    Puts tpfSlots (tpfWriteData codecs 4 i t) ⟨pos, false, false⟩ (fun _ st => ∃ q, st = ⟨q, false, false⟩)
      fun _ _ B => ∃ q, ∃ z, TpfDataAt codecs B i t q z := by
  have hpad : Puts tpfSlots (Fallible.given (0 < t.bytes.length) () (pad (4 : Nat))) ⟨pos, false, false⟩
      (fun _ st => ∃ q, st = ⟨q, false, false⟩) fun _ _ _ => True := by
    refine Puts.ite (fun _ => ?_) fun _ => Puts.done ⟨_, rfl⟩ fun _ => trivial
    exact Puts.last (Puts.pad (by decide) (Puts.done ⟨_, rfl⟩ fun _ => trivial))
  refine hpad.seq fun _ st hst => ?_
  obtain ⟨q, rfl⟩ := hst
  refine Puts.position (Puts.fillU32 (.fileData, some i) rfl (puts_tpfStore t fun z hz => ?_))
  refine Puts.fillI32 (.fileSize, some i) rfl (Puts.ite (fun _ => ?_) fun hempty => ?_)
  · exact Puts.last (Puts.bytes (Puts.done ⟨_, rfl⟩ fun B hdata hsize hoffset _ =>
      ⟨q, z, hoffset, hsize, hdata, hz⟩))
  · have hnil : z = [] := List.length_eq_zero_iff.1 (Nat.eq_zero_of_not_pos hempty)
    refine Puts.here (Puts.done ⟨_, rfl⟩ fun B hend hsize hoffset _ => ⟨q, z, hoffset, hsize, ?_, hz⟩)
    rw [hnil]
    exact holds_nil.2 hend

/-- **What the file of a pack holds.** -/
theorem puts_tpfWriteToWriter (codecs : Codecs) (hpc : p.platform = tpfPlatformPc)
    (hnames : ∀ t ∈ p.textures, TpfNameFits os p.encoding t.name) :
    Puts tpfSlots (tpfWriteToWriter os codecs p) ⟨0, false, false⟩ (fun _ _ => True)
      fun _ _ B => TpfImage os codecs p B := by
  unfold tpfWriteToWriter
  rw [hpc]
  refine Puts.setBigEndian (Puts.bytes (Puts.reserveI32 (.dataSize, none) rfl rfl (Puts.here (Puts.i32 (Puts.u8
    (Puts.u8 (Puts.u8 (Puts.u8 ?_))))))))
  have hheaders := puts_forIndexed (S := tpfSlots) (f := tpfWriteOneHeader tpfPlatformPc)
    (fun i st => st = ⟨tpfEntryAt i, false, false⟩) (F := fun i t B => TpfRecordAt B i t) p.textures
    (by
      rintro i t _ - rfl
      exact puts_tpfWriteOneHeader i t) rfl
  refine hheaders.seq fun _ st hst => ?_
  subst hst
  refine Puts.here ?_
  have hloop := puts_forIndexed (S := tpfSlots) (f := tpfWriteOneName os p.encoding)
    (fun _ st => ∃ q, st = ⟨q, false, false⟩) (F := fun i t B => ∃ q, TpfNameAt os p.encoding B i t q) p.textures
    (by
      rintro i t _ ht ⟨q, rfl⟩
      exact puts_tpfWriteOneName i t (hnames t (List.mem_of_getElem? ht))) ⟨tpfEntryAt p.textures.length, rfl⟩
  refine hloop.seq fun _ st hst => ?_
  obtain ⟨q, rfl⟩ := hst
  have hdataPad : tpfPadData tpfPlatformPc = pure 4 := rfl
  rw [hdataPad, pure_bind]
  refine Puts.position ?_
  have hdata := puts_forIndexed (S := tpfSlots) (f := tpfWriteData codecs 4)
    (fun _ st => ∃ q, st = ⟨q, false, false⟩) (F := fun i t B => ∃ q, ∃ z, TpfDataAt codecs B i t q z) p.textures
    (by
      rintro i t _ - ⟨q, rfl⟩
      exact puts_tpfWriteData i t) ⟨q, rfl⟩
  refine hdata.seq fun _ st hst => ?_
  obtain ⟨q, rfl⟩ := hst
  refine Puts.position (Puts.last (Puts.fillI32 (.dataSize, none) rfl (Puts.done trivial fun B _ hdata hnames
    hheaders hrecords hzero hencoding hflag2 hplatform hcount hsize hmagic => ?_)))
  exact ⟨hmagic, hsize, hcount, hplatform, hflag2, hencoding, hzero, hheaders, hrecords, hnames, hdata⟩

end Writing

/-! ## Reading -/

section Reading

open BinaryReader

variable {os : Win32} {codecs : Codecs} {p : Tpf} {B : List UInt8} {flex : Bool} {pos : Nat}

/-- The record of a texture, as the reader has it. -/
def tpfRecordReadBack (t : TpfTexture) (nameAt dataAt : Nat) (z : List UInt8) : TpfTexRecord :=
  { fileOffset := UInt32.ofNat dataAt, fileSize := Int32.ofNat z.length, format := t.format
    type := if (tpfMetadata tpfPlatformPc t).1 then 1 else 0, mipmaps := (tpfMetadata tpfPlatformPc t).2
    flags1 := t.flags1, nameOffset := UInt32.ofNat nameAt, hasFloatStruct := 0 }

/-- A texture as it is read back. -/
def TpfTexture.readBack (t : TpfTexture) : TpfTexture :=
  { t with
    flags2 := 0
    mipmapCount := (tpfMetadata tpfPlatformPc t).2
    cubemap := (tpfMetadata tpfPlatformPc t).1 }

theorem reads_tpfReadRecord {flag2 : UInt8} {i q q' : Nat} {t : TpfTexture} {z : List UInt8} {encoding : UInt8}
    (hrecord : TpfRecordAt B i t) (hname : TpfNameAt os encoding B i t q) (hdata : TpfDataAt codecs B i t q' z)
    (hflags : flex = false → t.flags1 ∈ ([0, 1, 2, 3, 0x80] : List UInt8)) :
    Reads (tpfReadRecord tpfPlatformPc flag2) ⟨B, tpfEntryAt i, false, false, [], flex⟩
      (tpfRecordReadBack t q q' z) ⟨B, tpfEntryAt (i + 1), false, false, [], flex⟩ := by
  rw [tpfEntryAt_succ]
  refine Reads.u32 hdata.offset (Reads.i32 hdata.size (Reads.u8 hrecord.format (Reads.u8 hrecord.type
    (Reads.u8 hrecord.mipmaps (Reads.assertedU8 hrecord.flags1 (by decide) hflags ?_)))))
  refine (Reads.pure () _).bind (Reads.u32 hname.offset (Reads.assertI32 hrecord.hasFloatStruct (by decide) ?_))
  exact (Reads.pure () _).bind ((Reads.pure () _).bind (Reads.pure _ _))

/-- What is stored of the bytes of a texture is opened again, if there is anything to open. -/
theorem reads_tpfOpenStored {t : TpfTexture} {z : List UInt8} (hstores : TpfStores codecs t z)
    (hshort : z.length ≤ INT32_MAX) (hbytes : tpfIsEdge t.flags1 = true → t.bytes.length < 2 ^ 32)
    (hsome : tpfIsEdge t.flags1 = true → t.bytes ≠ []) (c : Cursor) :
    Reads (tpfOpenStored codecs t.flags1 z) c t.bytes c := by
  unfold TpfStores at hstores
  refine Reads.ite (fun hedge => ?_) fun hedge => ?_
  · rw [if_pos ⟨hedge, List.length_pos_iff.2 (hsome hedge)⟩] at hstores
    obtain ⟨heap, hz⟩ := hstores
    have hwrap : (wrapEdge t.bytes false heap).1 = .ok z := hz
    have hx : t.bytes.length < 2 ^ 32 - 16 := by
      have hlt := hbytes hedge
      have hlen := congrArg List.length (wrapEdge_eq_ok hlt hwrap)
      have hin : ∀ s ∈ wrapDcpEdge t.bytes (edgeCount t.bytes.length) (align16 t.bytes.length)
          (8 + 0x20 + edgeCount t.bytes.length * 16), s.1 + s.2.length ≤
          0x30 + align16 t.bytes.length + (8 + 0x20 + edgeCount t.bytes.length * 16) := by
        intro s hs
        have hpadded : t.bytes.length ≤ align16 t.bytes.length := by
          unfold align16
          omega
        have hbounds := (laid_wrapDcpEdge hlt hpadded (8 + 0x20 + edgeCount t.bytes.length * 16)).bounds hs
        omega
      rw [if_neg (by decide), length_applyStores (by simpa using hin), List.length_replicate] at hlen
      have hmax : INT32_MAX = 2 ^ 31 - 1 := rfl
      unfold align16 at hlen
      omega
    have hdecode := (wrapDcpEdge_decodes hx hwrap : DcxDecodes codecs _ _ _).2
    refine (reads_onHeap_of_calm dcxDecompressFromBuffer_keeps (fun h hcalm => (hdecode h hcalm).2 trivial) c).bind ?_
    exact Reads.check rfl (Reads.pure _ _)
  · rw [if_neg (fun h => hedge h.1)] at hstores
    rw [hstores]
    exact Reads.pure _ _

theorem reads_tpfReadName {encoding : UInt8} {i q : Nat} {t : TpfTexture} (hname : TpfNameAt os encoding B i t q)
    (hfits : TpfNameFits os encoding t.name) (hB : B.length ≤ INT32_MAX) (hpos : pos ≤ B.length) :
    Reads (tpfReadName os encoding (UInt32.ofNat q)) ⟨B, pos, false, false, [], flex⟩ t.name
      ⟨B, pos, false, false, [], flex⟩ := by
  have hmax : INT32_MAX = 2 ^ 31 - 1 := rfl
  have hheld := hname.name
  have hq : (UInt32.ofNat q).toNat = q := by
    have hle := hheld.le
    exact UInt32.toNat_ofNat_of_lt' (show q < 2 ^ 32 by omega)
  unfold tpfReadName
  rw [hq]
  unfold TpfNameFits at hfits
  by_cases hwide : encoding = 1
  · rw [if_pos hwide] at hfits ⊢
    obtain ⟨x, hx, hfit⟩ := hfits
    rw [hx, Option.getD_some, hwide] at hheld
    rw [hx]
    exact (reads_getUtf16 (textFits_of_holds true hfit hheld hB) hheld hpos).bind (Reads.pure _ _)
  · rw [if_neg hwide] at hfits ⊢
    by_cases hjis : encoding = 0 ∨ encoding = 2
    · rw [if_pos hjis] at hfits ⊢
      obtain ⟨x, hx, hfit⟩ := hfits
      rw [hx, Option.getD_some, beq_eq_false_iff_ne.2 hwide] at hheld
      rw [hx]
      exact (reads_getShiftJis (textFits_of_holds false hfit hheld hB) hheld hpos).bind (Reads.pure _ _)
    · rw [if_neg hjis] at hfits ⊢
      rw [hfits]
      exact Reads.pure _ _

/-- **A texture comes back**, if it has bytes where it belongs in a container. -/
theorem reads_tpfReadOne {encoding : UInt8} {i q q' : Nat} {t : TpfTexture} {z : List UInt8}
    (hname : TpfNameAt os encoding B i t q) (hdata : TpfDataAt codecs B i t q' z)
    (ht : t.Accepted os flex encoding) (hsome : tpfIsEdge t.flags1 = true → t.bytes ≠ [])
    (hB : B.length ≤ INT32_MAX) (hpos : pos ≤ B.length) :
    Reads (tpfReadOne os codecs tpfPlatformPc encoding (tpfRecordReadBack t q q' z))
      ⟨B, pos, false, false, [], flex⟩ t.readBack ⟨B, pos, false, false, [], flex⟩ := by
  have hmax : INT32_MAX = 2 ^ 31 - 1 := rfl
  have hle := hdata.data.le
  have hsize : (Int32.ofNat z.length).toInt = z.length := int32_toInt_ofNat (by omega)
  have hq : (UInt32.ofNat q').toNat = q' := UInt32.toNat_ofNat_of_lt' (show q' < 2 ^ 32 by omega)
  have hraw : Reads (Fallible.given (0 < (Int32.ofNat z.length).toInt) []
      (tpfReadStored (tpfRecordReadBack t q q' z))) ⟨B, pos, false, false, [], flex⟩ z
      ⟨B, pos, false, false, [], flex⟩ := by
    unfold Fallible.given
    refine Reads.ite (fun _ => ?_) fun hempty => ?_
    · refine reads_alloc _ fun _ => ?_
      simp only [tpfRecordReadBack, hq, hsize, Int.toNat_natCast]
      exact Reads.last (Reads.got rfl hdata.data hpos (parses_bytes _ _) (Reads.pure _ _))
    · rw [hsize] at hempty
      have hnil : z = [] := by simpa using hempty
      rw [hnil]
      exact Reads.pure _ _
  refine reads_alloc _ fun _ => Reads.check ?_ (hraw.bind ?_)
  · show 0 ≤ (Int32.ofNat z.length).toInt
    rw [hsize]
    exact Int.natCast_nonneg _
  · refine (reads_tpfOpenStored hdata.stores (by omega) ht.short hsome _).bind ?_
    refine (reads_tpfReadName hname ht.name hB hpos).bind ?_
    simp only [if_true, ht.fixed]
    have hcube : decide ((if (tpfMetadata tpfPlatformPc t).1 then 1 else 0 : UInt8) = 1)
        = (tpfMetadata tpfPlatformPc t).1 := by
      cases (tpfMetadata tpfPlatformPc t).1 <;> rfl
    have hback : ({ name := t.name, bytes := t.bytes, format := t.format, flags1 := t.flags1
                    flags2 := if (0 : Int32) ≠ 0 then 1 else 0
                    mipmapCount := (tpfMetadata tpfPlatformPc t).2
                    cubemap := (if (tpfMetadata tpfPlatformPc t).1 then 1 else 0 : UInt8) = 1 } : TpfTexture)
        = t.readBack := by
      rw [hcube]
      rfl
    rw [← hback]
    exact Reads.pure _ _

theorem reads_tpfReserveOne (count capacity : Nat) (c : Cursor) :
    ∃ capacity', Reads (onHeap (tpfReserveOne count capacity)) c capacity' c := by
  by_cases hfull : count = capacity
  · refine ⟨_, reads_onHeap (a := if capacity ≠ 0 then capacity * 2 else 8) ?_ ?_ c⟩
    · unfold tpfReserveOne
      rw [if_pos hfull]
      exact (Steady.pure _).alloc_bind
    · unfold tpfReserveOne
      rw [if_pos hfull]
      rfl
  · refine ⟨capacity, ?_⟩
    unfold tpfReserveOne
    rw [if_neg hfull]
    exact reads_onHeap (Steady.pure _) rfl c

theorem reads_tpfReadTextures {encoding : UInt8} (flex : Bool) (hB : B.length ≤ INT32_MAX) (hpos : pos ≤ B.length)
    (textures : List TpfTexture) (recs : List TpfTexRecord) (count capacity : Nat)
    (h : List.Forall₂ (fun t rec => ∃ i, ∃ q, ∃ q', ∃ z, TpfNameAt os encoding B i t q ∧
      TpfDataAt codecs B i t q' z ∧ rec = tpfRecordReadBack t q q' z) textures recs)
    (haccepted : ∀ t ∈ textures, t.Accepted os flex encoding)
    (hsome : ∀ t ∈ textures, tpfIsEdge t.flags1 = true → t.bytes ≠ []) :
    Reads (tpfReadTextures os codecs tpfPlatformPc encoding count capacity recs)
      ⟨B, pos, false, false, [], flex⟩ (textures.map TpfTexture.readBack) ⟨B, pos, false, false, [], flex⟩ := by
  induction h generalizing count capacity with
  | nil => exact Reads.pure _ _
  | @cons t rec textures recs hfirst _ ih =>
      obtain ⟨i, q, q', z, hname, hdata, rfl⟩ := hfirst
      have ht := reads_tpfReadOne hname hdata (haccepted t List.mem_cons_self) (hsome t List.mem_cons_self) hB hpos
      obtain ⟨capacity', hreserve⟩ :=
        reads_tpfReserveOne count capacity ⟨B, pos, false, false, [], flex⟩
      have hrest := ih (count + 1) capacity' (fun t h => haccepted t (List.mem_cons_of_mem _ h))
        fun t h => hsome t (List.mem_cons_of_mem _ h)
      exact ht.bind (hreserve.bind (hrest.bind (Reads.pure _ _)))

/-- The records, with what they lead to. -/
theorem reads_tpfReadHeader (flex : Bool) (himage : TpfImage os codecs p B) (hpc : p.platform = tpfPlatformPc)
    (haccepted : p.Accepted os flex) (hB : B.length ≤ INT32_MAX) :
    ∃ recs pos, pos ≤ B.length ∧ Reads tpfReadHeader ⟨B, 0, false, false, [], flex⟩
      ({ p with textures := [] }, recs) ⟨B, pos, false, false, [], flex⟩ ∧
      List.Forall₂ (fun t rec => ∃ i, ∃ q, ∃ q', ∃ z, TpfNameAt os p.encoding B i t q ∧
        TpfDataAt codecs B i t q' z ∧ rec = tpfRecordReadBack t q q' z) p.textures recs := by
  have hcount : (Int32.ofNat p.textures.length).toInt = p.textures.length := by
    have hle := himage.headers
    unfold tpfEntryAt at hle
    exact int32_toInt_ofNat (by omega)
  obtain ⟨names, hnames⟩ := BinaryWriter.exists_places himage.names
  obtain ⟨places, hplaces⟩ := BinaryWriter.exists_places himage.data
  obtain ⟨stored, hstored⟩ := BinaryWriter.exists_places (F := fun i t z => TpfDataAt codecs B i t (places i) z) hplaces
  let recs := p.textures.mapIdx fun i t => tpfRecordReadBack t (names i) (places i) (stored i)
  have hlen : recs.length = p.textures.length := List.length_mapIdx
  have hrecs := reads_readEach_at (m := tpfReadRecord tpfPlatformPc p.flag2)
    (fun i => ⟨B, tpfEntryAt i, false, false, [], flex⟩) recs (by
      intro i rec hrec
      rw [List.getElem?_mapIdx, Option.map_eq_some_iff] at hrec
      obtain ⟨t, ht, rfl⟩ := hrec
      exact reads_tpfReadRecord (himage.records i t ht) (hnames i t ht) (hstored i t ht)
        (haccepted.textures t (List.mem_of_getElem? ht)).flags1)
  rw [hlen] at hrecs
  refine ⟨recs, tpfEntryAt p.textures.length, himage.headers, ?_, ?_⟩
  · have hplatform := himage.platform
    have h16 : 16 ≤ B.length := by
      have hle := himage.zero.le
      simpa using hle
    have hword : ∃ v, Reads readI32 ⟨B, 4, false, false, [], flex⟩ v ⟨B, 8, false, false, [], flex⟩ :=
      exists_reads_i32 false [] flex (by omega)
    obtain ⟨datasize, hdatasize⟩ := hword
    refine Reads.setBig (Reads.bytes himage.magic rfl (Reads.check rfl (Reads.got (q := 0xC) rfl hplatform
      (by omega) (parses_u8 _ _) (Reads.setBig (hdatasize.bind (Reads.i32 himage.count (Reads.check ?_
      (Reads.skip (n := 1) (by omega) (Reads.assertedU8 himage.flag2 (by decide) haccepted.flag2
      (Reads.assertedU8 himage.encoding (by decide) haccepted.encoding (Reads.assertU8 himage.zero (by decide)
      ?_)))))))))))
    · rw [hcount]
      exact Int.natCast_nonneg _
    · rw [hcount, Int.toNat_natCast]
      have hrest : Reads (readEach (tpfReadRecord tpfPlatformPc p.flag2) p.textures.length >>= fun recs =>
          Pure.pure ({ textures := [], platform := tpfPlatformPc, encoding := p.encoding, flag2 := p.flag2 }, recs))
          ⟨B, 16, false, false, [], flex⟩ ({ p with textures := [] }, recs)
          ⟨B, tpfEntryAt p.textures.length, false, false, [], flex⟩ := by
        refine hrecs.bind ?_
        rw [← hpc]
        exact Reads.pure _ _
      unfold Fallible.given
      cases decide (0 < (p.textures.length : Int)) with
      | false => exact (Reads.pure _ _).bind hrest
      | true => exact reads_alloc _ fun _ => hrest
  · refine List.forall₂_iff_get.2 ⟨hlen.symm, fun i hi hi' => ?_⟩
    refine ⟨i, names i, places i, stored i, hnames i _ (List.getElem?_eq_getElem hi),
      hstored i _ (List.getElem?_eq_getElem hi), ?_⟩
    simp [recs]

end Reading

/-! ## The whole run -/

/-- A texture and what it comes back as. The flag and the mipmap count of a DDS image are its own, and the float
    struct is not kept. -/
structure TpfTexture.IsReadBack (t t' : TpfTexture) : Prop where
  name : t'.name = t.name
  format : t'.format = t.format
  flags1 : t'.flags1 = t.flags1
  bytes : t'.bytes = t.bytes
  metadata : (∀ dds, ddsParseHeader t.bytes ≠ .ok dds) → t'.cubemap = t.cubemap ∧ t'.mipmapCount = t.mipmapCount

/-- A pack and what it comes back as. -/
structure Tpf.IsReadBack (p p' : Tpf) : Prop where
  platform : p'.platform = p.platform
  encoding : p'.encoding = p.encoding
  flag2 : p'.flag2 = p.flag2
  textures : List.Forall₂ TpfTexture.IsReadBack p.textures p'.textures

theorem TpfTexture.isReadBack (t : TpfTexture) : t.IsReadBack t.readBack := by
  refine ⟨rfl, rfl, rfl, rfl, fun hno => ?_⟩
  have hmetadata : tpfMetadata tpfPlatformPc t = (t.cubemap, t.mipmapCount) := by
    unfold tpfMetadata
    split
    · rcases hdds : ddsParseHeader t.bytes with e | dds
      · rfl
      · exact absurd hdds (hno dds)
    · rfl
  rw [readBack, hmetadata]
  exact ⟨rfl, rfl⟩

section

variable {os : Win32} {codecs : Codecs} {p : Tpf} {flexible : Bool} {out : List UInt8} {heap : Heap}

theorem tpfReadFromMemory_ok (himage : TpfImage os codecs p out) (hpc : p.platform = tpfPlatformPc)
    (haccepted : p.Accepted os flexible) (hshort : out.length ≤ INT32_MAX) (hcalm : heap.Calm)
    (hsome : ∀ t ∈ p.textures, tpfIsEdge t.flags1 = true → t.bytes ≠ []) :
    (tpfReadFromMemory os codecs flexible out heap).1
      = .ok { p with textures := p.textures.map TpfTexture.readBack } := by
  obtain ⟨recs, pos, hpos, hheader, hrecs⟩ := reads_tpfReadHeader flexible himage hpc haccepted hshort
  have htextures := reads_tpfReadTextures flexible hshort hpos p.textures recs 0 0 hrecs haccepted.textures hsome
  have hpopulate : BinaryReader.Reads (tpfPopulate os codecs) ⟨out, 0, false, false, [], flexible⟩
      { p with textures := p.textures.map TpfTexture.readBack } ⟨out, pos, false, false, [], flexible⟩ := by
    refine hheader.bind ?_
    simp only [hpc]
    exact htextures.bind (BinaryReader.Reads.pure _ _)
  obtain ⟨_, hrun, -⟩ := BinaryReader.onMemory_ok (BinaryReader.reads_alloc _ fun _ => hpopulate) hcalm
  exact congrArg Prod.fst hrun

/-- Where the image is read, no texture that belongs in a container is without bytes. -/
theorem tpf_bytes_of_read {p' : Tpf} (himage : TpfImage os codecs p out) (hpc : p.platform = tpfPlatformPc)
    (haccepted : p.Accepted os flexible) (hshort : out.length ≤ INT32_MAX) (hcalm : heap.Calm)
    (hread : (tpfReadFromMemory os codecs flexible out heap).1 = .ok p') :
    ∀ t ∈ p.textures, tpfIsEdge t.flags1 = true → t.bytes ≠ [] := by
  obtain ⟨recs, pos, -, hheader, hrecs⟩ := reads_tpfReadHeader flexible himage hpc haccepted hshort
  obtain ⟨heap1, r', hrun, hheap1⟩ := BinaryReader.onMemory_eq_ok hread
  obtain ⟨r1, hrun1, hcursor, -⟩ := BinaryReader.reads_alloc _ (fun _ => hheader)
    (BinaryReader.create out false flexible heap1) rfl (hheap1 hcalm)
  obtain ⟨_, ra, halloc, hrun⟩ := bind_eq_ok.1 hrun
  rw [bind_ok halloc] at hrun1
  rw [tpfPopulate, bind_ok hrun1] at hrun
  obtain ⟨ts, r2, htextures, -⟩ := bind_eq_ok.1 hrun
  have hsizes := accepts_tpfReadTextures_size p.platform p.encoding 0 0 recs r1 rfl ts r2 htextures
  intro t ht hedge hnil
  obtain ⟨i, hi, rfl⟩ := List.getElem_of_mem ht
  have hlen := hrecs.length_eq
  obtain ⟨_, q, q', z, -, hdata, hrec⟩ := (List.forall₂_iff_get.1 hrecs).2 i hi (hlen ▸ hi)
  have hpos := hsizes (recs.get ⟨i, hlen ▸ hi⟩) (List.get_mem ..) (by rw [hrec]; exact hedge)
  -- nothing is stored where there are no bytes
  have hz : z = [] := by
    have hstores := hdata.stores
    unfold TpfStores at hstores
    rw [if_neg (by simp [hnil])] at hstores
    exact hstores.trans hnil
  have hzero : ¬ 0 < (Int32.ofNat 0).toInt := by decide
  rw [hrec, hz] at hpos
  exact absurd hpos hzero

end

/-- **A pack that was read is read back** after it has been written, exactly if every texture that belongs in a
    container has bytes: for one without, no container is written. -/
theorem tpf_is_read_back_iff (os : Win32) (hos : os.Faithful) (codecs : Codecs) (flexible : Bool)
    (data : List UInt8) (heap : Heap) (p : Tpf) (hread : (tpfReadFromMemory os codecs flexible data heap).1 = .ok p)
    (hpc : p.platform = tpfPlatformPc) (heap1 : Heap) (out : List UInt8)
    (hwrite : (tpfWriteToMemory os codecs p heap1).1 = .ok out) (hshort : out.length < 2 ^ 31) (heap2 : Heap)
    (hcalm : heap2.Calm) :
    (∃ p', (tpfReadFromMemory os codecs flexible out heap2).1 = .ok p' ∧ p.IsReadBack p') ↔
      ∀ t ∈ p.textures, tpfIsEdge t.flags1 = true → t.bytes ≠ [] := by
  have hmax : INT32_MAX = 2 ^ 31 - 1 := rfl
  have haccepted : p.Accepted os flexible := by
    obtain ⟨heap', r', hrun, -⟩ := BinaryReader.onMemory_eq_ok hread
    have haccepts : BinaryReader.Accepts ⟨false, false, flexible⟩
        (BinaryReader.onHeap Heap.alloc >>= fun _ => tpfPopulate os codecs)
        fun p => p.platform = tpfPlatformPc → p.Accepted os flexible :=
      BinaryReader.Accepts.after fun _ => accepts_tpfPopulate hos
    exact haccepts _ rfl p r' hrun hpc
  obtain ⟨st, -, himage, -, -⟩ := (puts_tpfWriteToWriter codecs hpc fun t ht =>
    (haccepted.textures t ht).name).toMemory nofun hwrite
  constructor
  · rintro ⟨p', hread', -⟩
    exact tpf_bytes_of_read himage hpc haccepted (by omega) hcalm hread'
  · intro hsome
    refine ⟨_, tpfReadFromMemory_ok himage hpc haccepted (by omega) hcalm hsome, rfl, rfl, rfl, ?_⟩
    exact List.forall₂_map_right_iff.2 (List.forall₂_same.2 fun t _ => t.isReadBack)

/-- A texture in a container, one without bytes, and one whose name is empty. -/
def tpfSample : Tpf :=
  { textures := [⟨some (cstr "a"), [1, 2, 3], 5, 2, 0, 9, true⟩, ⟨some (cstr "b"), [], 0, 0x80, 0, 1, false⟩,
      ⟨some [], [4], 6, 1, 0, 0, false⟩]
    platform := tpfPlatformPc, encoding := 1, flag2 := 3 }

/-- What a pack is written to. -/
def tpfBytes (p : Tpf) : List UInt8 := (tpfWriteToMemory .ascii storingCodecs p []).1.toOption.getD []

theorem tpf_sample_is_read_back :
    ∃ p', (tpfReadFromMemory .ascii storingCodecs false (tpfBytes tpfSample) []).1 = .ok p' ∧
      tpfSample.IsReadBack p' :=
  (tpf_is_read_back_iff .ascii Win32.ascii_faithful storingCodecs false (tpfBytes tpfSample) [] tpfSample
    (by decide +kernel) rfl [] (tpfBytes tpfSample) (by decide +kernel) (by decide +kernel) [] Heap.calm_nil).2
    (by decide +kernel)

/-- A texture whose container holds nothing. -/
def tpfEmptyEdge : Tpf :=
  { textures := [⟨some (cstr "a"), [], 0, 2, 0, 1, false⟩], platform := tpfPlatformPc, encoding := 1, flag2 := 3 }

/-- The container of nothing. -/
def edgeOfNothing : List UInt8 := (dcxCompressToBuffer storingCodecs [] .dcpEdge []).1.toOption.getD []

/-- The file of a pack with that texture, its name at 0x24 and its container at 0x28. -/
def tpfEmptyEdgeData : List UInt8 :=
  cstr "TPF" ++ [0] ++ tpfSize edgeOfNothing.length ++ tpfSize 1 ++ [0, 3, 1, 0] ++ tpfWord 0x28
    ++ tpfSize edgeOfNothing.length ++ [0, 0, 1, 2] ++ tpfWord 0x24 ++ tpfWord 0 ++ [97, 0, 0, 0] ++ edgeOfNothing

/-- It is written without a container, which the reader misses. -/
theorem tpf_empty_container_is_not_read_back :
    (tpfReadFromMemory .ascii storingCodecs false tpfEmptyEdgeData []).1 = .ok tpfEmptyEdge ∧
      tpfEmptyEdge.platform = tpfPlatformPc ∧
      (tpfWriteToMemory .ascii storingCodecs tpfEmptyEdge []).1 = .ok (tpfBytes tpfEmptyEdge) ∧
      (tpfBytes tpfEmptyEdge).length < 2 ^ 31 ∧
      (tpfReadFromMemory .ascii storingCodecs false (tpfBytes tpfEmptyEdge) []).1 = .error .unsupportedVersion :=
  ⟨by decide +kernel, rfl, by decide +kernel, by decide +kernel, by decide +kernel⟩

end SoulsFormats
