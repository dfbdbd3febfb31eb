import SoulsFormats.Compression.Dcx
import SoulsFormats.Core.Layout

set_option autoImplicit false

/-! # TPF texture packs

The reader and the writer of `tpf.c`. A texture may be stored in a DCP_EDGE container, which is opened when
it is read; the array size of a cube map is corrected then as well. -/

namespace SoulsFormats

open Bytes Fallible

/-- `sf_tpf_platform_t`, which is any byte that was read. -/
abbrev TpfPlatform := UInt8

def tpfPlatformPc : TpfPlatform := 0
def tpfPlatformXbox360 : TpfPlatform := 1
def tpfPlatformPs3 : TpfPlatform := 2
def tpfPlatformPs4 : TpfPlatform := 4
def tpfPlatformXbox1 : TpfPlatform := 5
def tpfPlatformPs5 : TpfPlatform := 8

/-- `sf_tpf_texture_t`; the name may be a null pointer. -/
structure TpfTexture where
  name : Option (List UInt8)
  bytes : List UInt8
  format : UInt8
  flags1 : UInt8
  flags2 : UInt8
  mipmapCount : UInt8
  cubemap : Bool
deriving DecidableEq, Repr

/-- `sf_tpf_t`. -/
structure Tpf where
  textures : List TpfTexture
  platform : TpfPlatform
  encoding : UInt8
  flag2 : UInt8
deriving DecidableEq, Repr

/-- Whether the bytes of a texture are kept in a container. -/
def tpfIsEdge (flags1 : UInt8) : Bool := flags1 = 2 || flags1 = 3

/-- Whether the words of a platform are big-endian. -/
def tpfIsBigEndian (platform : TpfPlatform) : Bool :=
  platform = tpfPlatformXbox360 || platform = tpfPlatformPs3

/-- The consoles whose records have a further word. -/
def tpfIsNewerConsole (platform : TpfPlatform) : Bool :=
  platform = tpfPlatformPs4 || platform = tpfPlatformXbox1 || platform = tpfPlatformPs5

/-- `tpf_apply_dx10_cubemap_fix`. -/
def tpfApplyDx10CubemapFix (bytes : List UInt8) : List UInt8 :=
  if bytes.length ≤ 0x8C then bytes
  else if (bytes.drop 0x54).take 4 ≠ [0x44, 0x58, 0x31, 0x30] then bytes
  else if bytes[0x88]? ≠ some 0x4 then bytes
  else if bytes[0x8C]? = some 0x6 then bytes.set 0x8C 0x1
  else bytes

/-! ## DDS headers -/

/-- `sfi_load_u32_le`. -/
def loadU32Le (bytes : List UInt8) (off : Nat) : Nat := leNat ((bytes.drop off).take 4)

/-- `sfi_dds_metadata_t`. -/
structure DdsMetadata where
  cubemap : Bool
  mipmapCount : Nat
  depth : Nat
  dxgiFormat : Nat

/-- `sfi_dds_parse_header`. -/
def ddsParseHeader (bytes : List UInt8) : Except SfError DdsMetadata :=
  if bytes.length < 128 then .error .invalidArg
  else if loadU32Le bytes 0 ≠ 0x20534444 then .error .badMagic
  else if loadU32Le bytes 4 ≠ 124 then .error .badMagic
  else
    .ok
      { cubemap := loadU32Le bytes 112 &&& 0x200 != 0
        mipmapCount := loadU32Le bytes 28
        depth := if loadU32Le bytes 8 &&& 0x800000 != 0 then loadU32Le bytes 24 else 0
        dxgiFormat :=
          if loadU32Le bytes 84 = 0x30315844 ∧ 148 ≤ bytes.length then loadU32Le bytes 128 else 0 }

/-! ## Reading -/

/-- `tpf_tex_record_t`. -/
structure TpfTexRecord where
  fileOffset : UInt32
  fileSize : Int32
  format : UInt8
  type : UInt8
  mipmaps : UInt8
  flags1 : UInt8
  nameOffset : UInt32
  hasFloatStruct : Int32

/-- The block of an array that is full doubles. -/
def tpfReserveOne (count capacity : Nat) : Fallible Heap SfError Nat :=
  if count = capacity then do
    let _ ← Heap.alloc
    pure (if capacity ≠ 0 then capacity * 2 else 8)
  else pure capacity

section Reading

open BinaryReader

/-- The console metadata between the flags and the name of a record, which is skipped. -/
def tpfSkipMetadata (platform : TpfPlatform) (flag2 : UInt8) : ReadM Unit :=
  if platform ≠ tpfPlatformPc then do
    skip 4
    if platform = tpfPlatformXbox360 then skip 4
    else if platform = tpfPlatformPs3 then do
      skip 4
      if flag2 ≠ 0 then skip 4 else pure ()
    else if tpfIsNewerConsole platform then skip 8
    else pure ()
  else pure ()

/-- The float struct of a record, which is not kept. -/
def tpfSkipFloatStruct (hasFloatStruct : Int32) : ReadM Unit :=
  if hasFloatStruct = 1 then do
    let _ ← readI32
    let len ← readI32
    check (0 ≤ len.toInt ∧ len.toInt.tmod 4 = 0) .outOfRange
    skip len.toInt
  else pure ()

/-- The loop over the records in `tpf_populate`. -/
def tpfReadRecord (platform : TpfPlatform) (flag2 : UInt8) : ReadM TpfTexRecord := do
  let fileOffset ← readU32
  let fileSize ← readI32
  let format ← readU8
  let type ← readU8
  let mipmaps ← readU8
  let flags1 ← assertU8 [0, 1, 2, 3, 0x80]
  tpfSkipMetadata platform flag2
  let nameOffset ← readU32
  let hasFloatStruct ← assertI32 [0, 1]
  given (tpfIsNewerConsole platform) () (skip 4)
  tpfSkipFloatStruct hasFloatStruct
  pure { fileOffset := fileOffset, fileSize := fileSize, format := format, type := type, mipmaps := mipmaps,
         flags1 := flags1, nameOffset := nameOffset, hasFloatStruct := hasFloatStruct }

variable (os : Win32) (codecs : Codecs)

/-- The bytes that a record leads to. -/
def tpfReadStored (rec : TpfTexRecord) : ReadM (List UInt8) := do
  let _ ← onHeap Heap.alloc
  getBytes rec.fileOffset.toNat rec.fileSize.toInt.toNat

/-- The bytes that are kept of what is stored. -/
def tpfOpenStored (flags1 : UInt8) (raw : List UInt8) : ReadM (List UInt8) :=
  if tpfIsEdge flags1 then do
    let (decoded, info) ← onHeap (dcxDecompressFromBuffer codecs raw)
    check (info.type = .dcpEdge) .unsupportedVersion
    pure decoded
  else pure raw

/-- The name, if the encoding is known. -/
def tpfReadName (encoding : UInt8) (nameOffset : UInt32) : ReadM (Option (List UInt8)) :=
  if encoding = 1 then do
    let name ← getUtf16 os nameOffset.toNat
    pure (some name)
  else if encoding = 0 ∨ encoding = 2 then do
    let name ← getShiftJis os nameOffset.toNat
    pure (some name)
  else pure none

/-- `tpf_read_one`, up to the place in the array. -/
def tpfReadOne (platform : TpfPlatform) (encoding : UInt8) (rec : TpfTexRecord) : ReadM TpfTexture := do
  let _ ← onHeap Heap.alloc
  check (0 ≤ rec.fileSize.toInt) .outOfRange
  let raw ← given (0 < rec.fileSize.toInt) [] (tpfReadStored rec)
  let opened ← tpfOpenStored codecs rec.flags1 raw
  let bytes := if platform = tpfPlatformPc then tpfApplyDx10CubemapFix opened else opened
  let name ← tpfReadName os encoding rec.nameOffset
  pure { name := name, bytes := bytes, format := rec.format, flags1 := rec.flags1
         flags2 := if rec.hasFloatStruct ≠ 0 then 1 else 0, mipmapCount := rec.mipmaps, cubemap := rec.type = 1 }

/-- The loop over the textures in `tpf_populate`; `count` of them are in an array of `capacity` already. -/
def tpfReadTextures (platform : TpfPlatform) (encoding : UInt8) :
    Nat → Nat → List TpfTexRecord → ReadM (List TpfTexture)
  | _, _, [] => pure []
  | count, capacity, rec :: recs => do
    let t ← tpfReadOne os codecs platform encoding rec
    let capacity ← onHeap (tpfReserveOne count capacity)
    let ts ← tpfReadTextures platform encoding (count + 1) capacity recs
    pure (t :: ts)

/-- `tpf_populate` up to the textures: a pack without any, and their records. -/
def tpfReadHeader : ReadM (Tpf × List TpfTexRecord) := do
  setBigEndian false
  let magic ← readBytes 4
  check (magic = cstr "TPF" ++ [0]) .badMagic
  let platform ← getU8 0xC
  setBigEndian (tpfIsBigEndian platform)
  let _ ← readI32
  let fileCount ← readI32
  check (0 ≤ fileCount.toInt) .outOfRange
  skip 1
  let flag2 ← assertU8 [0, 1, 2, 3]
  let encoding ← assertU8 [0, 1, 2]
  let _ ← assertU8 [0]
  let _ ← given (0 < fileCount.toInt) [] (onHeap Heap.alloc)
  let recs ← readEach (tpfReadRecord platform flag2) fileCount.toInt.toNat
  pure ({ textures := [], platform := platform, encoding := encoding, flag2 := flag2 }, recs)

/-- `tpf_populate`. -/
def tpfPopulate : ReadM Tpf := do
  let (p, recs) ← tpfReadHeader
  let textures ← tpfReadTextures os codecs p.platform p.encoding 0 0 recs
  pure { p with textures := textures }

/-- `sf_tpf_read_from_memory`. -/
def tpfReadFromMemory (flexible : Bool) (data : List UInt8) : Fallible Heap SfError Tpf :=
  onMemory data false flexible do
    let _ ← onHeap Heap.alloc
    tpfPopulate os codecs

end Reading

/-! ## Writing -/

section Writing

open BinaryWriter

/-- The cube map flag and the mipmap count that are written; those of a DDS image are its own. -/
def tpfMetadata (platform : TpfPlatform) (t : TpfTexture) : Bool × UInt8 :=
  if platform = tpfPlatformPc ∧ 0 < t.bytes.length then
    match ddsParseHeader t.bytes with
    | .ok dds => (dds.cubemap, UInt8.ofNat dds.mipmapCount)
    | .error _ => (t.cubemap, t.mipmapCount)
  else (t.cubemap, t.mipmapCount)

/-- `tpf_write_one_header`. -/
def tpfWriteOneHeader (platform : TpfPlatform) (i : Nat) (t : TpfTexture) : WriteM Unit := do
  reserveU32 (label "FileData" i)
  reserveI32 (label "FileSize" i)
  writeU8 t.format
  writeU8 (if (tpfMetadata platform t).1 then 1 else 0)
  writeU8 (tpfMetadata platform t).2
  writeU8 t.flags1
  reserveU32 (label "FileName" i)
  writeI32 0

variable (os : Win32) (codecs : Codecs)

/-- `tpf_write_one_name`. -/
def tpfWriteOneName (encoding : UInt8) (i : Nat) (t : TpfTexture) : WriteM Unit := do
  let pos ← peek position
  fillU32 (label "FileName" i) (UInt32.ofNat pos)
  if encoding = 1 then writeUtf16 os (some (t.name.getD [])) true
  else writeShiftJis os (some (t.name.getD [])) true

/-- What is stored of the bytes of a texture. -/
def tpfStore (t : TpfTexture) : WriteM (List UInt8) :=
  if tpfIsEdge t.flags1 ∧ 0 < t.bytes.length then onHeap (dcxCompressToBuffer codecs t.bytes .dcpEdge)
  else pure t.bytes

/-- `tpf_write_one_data`. -/
def tpfWriteOneData (i : Nat) (t : TpfTexture) : WriteM Unit := do
  let pos ← peek position
  fillU32 (label "FileData" i) (UInt32.ofNat pos)
  let bytes ← tpfStore codecs t
  fillI32 (label "FileSize" i) (Int32.ofNat bytes.length)
  if 0 < bytes.length then writeBytes bytes else pure ()

/-- The padding before the data, and what the data of a texture is aligned to. -/
def tpfPadData (platform : TpfPlatform) : WriteM Nat :=
  if platform = tpfPlatformPs3 then do
    pad 0x100
    pure 0x80
  else if platform = tpfPlatformPs4 then do
    pad 0x10
    pure 4
  else pure 4

/-- The loop over the data in `tpf_write_to_writer`. -/
def tpfWriteData (dataPad i : Nat) (t : TpfTexture) : WriteM Unit := do
  given (0 < t.bytes.length) () (pad dataPad)
  tpfWriteOneData codecs i t

/-- `tpf_write_to_writer`. -/
def tpfWriteToWriter (p : Tpf) : WriteM Unit := do
  setBigEndian (tpfIsBigEndian p.platform)
  writeBytes (cstr "TPF" ++ [0])
  reserveI32 (cstr "DataSize")
  writeI32 (Int32.ofNat p.textures.length)
  writeU8 p.platform
  writeU8 p.flag2
  writeU8 p.encoding
  writeU8 0
  forIndexed (tpfWriteOneHeader p.platform) 0 p.textures
  forIndexed (tpfWriteOneName os p.encoding) 0 p.textures
  let dataPad ← tpfPadData p.platform
  let start ← peek position
  forIndexed (tpfWriteData codecs dataPad) 0 p.textures
  let fin ← peek position
  fillI32 (cstr "DataSize") (Int32.ofNat (fin - start))

/-- `sf_tpf_write_to_memory`. -/
def tpfWriteToMemory (p : Tpf) : Fallible Heap SfError (List UInt8) :=
  writeToMemory false (tpfWriteToWriter os codecs p)

end Writing

end SoulsFormats
