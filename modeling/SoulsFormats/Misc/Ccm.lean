import SoulsFormats.Core.Tables

set_option autoImplicit false

/-! # CCM font layouts

The model of `ccm.c`. A layout maps character codes to glyphs. Two versions of the file cut the codes into groups of
consecutive codes and store the glyphs in the order of their codes; the third stores for each glyph where in the file
the region of its texture stands. -/

namespace SoulsFormats

open Bytes Fallible

/-- `sf_ccm_version_t`. -/
inductive CcmVersion where
  | demonsSouls | darkSouls1 | darkSouls2
deriving DecidableEq, Repr

def CcmVersion.toUInt32 : CcmVersion → UInt32
  | .demonsSouls => 0x100
  | .darkSouls1 => 0x10001
  | .darkSouls2 => 0x20000

def CcmVersion.ofUInt32? (v : UInt32) : Option CcmVersion :=
  if v = 0x100 then some .demonsSouls
  else if v = 0x10001 then some .darkSouls1
  else if v = 0x20000 then some .darkSouls2
  else none

@[simp] theorem CcmVersion.ofUInt32?_toUInt32 (v : CcmVersion) : CcmVersion.ofUInt32? v.toUInt32 = some v := by
  cases v <;> rfl

/-- `sf_ccm_glyph_t`; coordinates are given by their bits. -/
structure CcmGlyph where
  code : Int32
  uv1x : UInt32
  uv1y : UInt32
  uv2x : UInt32
  uv2y : UInt32
  preSpace : Int16
  width : Int16
  advance : Int16
  texIndex : Int16
deriving DecidableEq, Repr

/-- `sf_ccm_t`. -/
structure Ccm where
  version : CcmVersion
  fullWidth : Int16
  texWidth : Int16
  texHeight : Int16
  unk0e : Int16
  unk1c : UInt8
  unk1d : UInt8
  texCount : UInt8
  glyphs : List CcmGlyph
  glyphCap : Nat
deriving DecidableEq, Repr

/-- The conversions between texels and coordinates of a texture of some size: `(float)x / (float)size`, and
    `ccm_round_to_i16` of `uv * (float)size`. They are exact where the size is not zero. -/
structure CcmArith where
  toUv : Int16 → Int16 → UInt32
  toTexel : UInt32 → Int16 → Int16
  exact : ∀ x size, size ≠ 0 → toTexel (toUv x size) size = x

/-! ## Glyphs -/

/-- `while (new_cap < need) new_cap *= 2u`, which takes no more rounds than there are glyphs needed. -/
def ccmNewCap (need : Nat) : Nat → Nat → Nat
  | 0, cap => cap
  | rounds + 1, cap => if cap < need then ccmNewCap need rounds (cap * 2) else cap

/-- `ccm_reserve_glyphs`. -/
def ccmReserveGlyphs (c : Ccm) (need : Nat) : Fallible Heap SfError Ccm :=
  if need ≤ c.glyphCap then pure c
  else do
    let _ ← Heap.alloc
    pure { c with glyphCap := ccmNewCap need need (if c.glyphCap = 0 then 16 else c.glyphCap) }

/-- The first glyph with the code of `g` gives way to `g`. -/
def ccmReplace (g : CcmGlyph) : List CcmGlyph → List CcmGlyph
  | [] => []
  | old :: glyphs => if old.code = g.code then g :: glyphs else old :: ccmReplace g glyphs

/-- `ccm_upsert_glyph`. -/
def ccmUpsertGlyph (c : Ccm) (g : CcmGlyph) : Fallible Heap SfError Ccm :=
  if ∃ old ∈ c.glyphs, old.code = g.code then pure { c with glyphs := ccmReplace g c.glyphs }
  else do
    let c ← ccmReserveGlyphs c (c.glyphs.length + 1)
    pure { c with glyphs := c.glyphs ++ [g] }

/-- `sf_ccm_create`. -/
def ccmCreate (version : CcmVersion) : Fallible Heap SfError Ccm := do
  let _ ← Heap.alloc
  pure ⟨version, 0, 0, 0, 0, 0, 0, 0, [], 0⟩

/-- `sf_ccm_find_glyph`. -/
def ccmFindGlyph (c : Ccm) (code : Int32) : Option CcmGlyph := c.glyphs.find? fun g => g.code = code

/-- `ccm_code_group_t`. -/
structure CcmCodeGroup where
  startCode : Int32
  endCode : Int32
  glyphIndex : Int32
deriving DecidableEq, Repr

/-! ## Reading -/

section Reading

open BinaryReader

/-- What the header says; the count is that of the groups or of the regions. -/
structure CcmHead where
  version : CcmVersion
  fullWidth : Int16
  texWidth : Int16
  texHeight : Int16
  unk0e : Int16
  count : Int16
  glyphCount : Int16
  unk1c : UInt8
  unk1d : UInt8
  texCount : UInt8

/-- The words that the versions have in different places. -/
def ccmReadCounts : CcmVersion → ReadM (Int16 × Int16 × Int16)
  | .darkSouls2 => do
    let texRegionCount ← readI16
    let glyphCount ← readI16
    let _ ← assertI16 [0]
    pure (0, texRegionCount, glyphCount)
  | _ => do
    let unk0e ← readI16
    let codeGroupCount ← readI16
    let glyphCount ← readI16
    pure (unk0e, codeGroupCount, glyphCount)

def ccmReadHeadOf (version : CcmVersion) : ReadM CcmHead := do
  given (version = .demonsSouls) () (setBigEndian true)
  let _ ← readI32
  let fullWidth ← readI16
  let texWidth ← readI16
  let texHeight ← readI16
  let counts ← ccmReadCounts version
  let _ ← assertI32 [0x20]
  let _ ← readI32
  let unk1c ← readU8
  let unk1d ← readU8
  let texCount ← readU8
  let _ ← assertU8 [0]
  pure ⟨version, fullWidth, texWidth, texHeight, counts.1, counts.2.1, counts.2.2, unk1c, unk1d, texCount⟩

def ccmReadHead : ReadM CcmHead := do
  let version ← readU32
  match CcmVersion.ofUInt32? version with
  | none => fail .unsupportedVersion
  | some version => ccmReadHeadOf version

def ccmReadGroup : ReadM CcmCodeGroup := do
  let startCode ← readI32
  let endCode ← readI32
  let glyphIndex ← readI32
  pure ⟨startCode, endCode, glyphIndex⟩

/-- A glyph that has no code yet. -/
def ccmReadGlyph : ReadM CcmGlyph := do
  let uv1x ← readF32
  let uv1y ← readF32
  let uv2x ← readF32
  let uv2y ← readF32
  let preSpace ← readI16
  let width ← readI16
  let advance ← readI16
  let texIndex ← readI16
  pure ⟨0, uv1x, uv1y, uv2x, uv2y, preSpace, width, advance, texIndex⟩

/-- The raw glyph at an index. -/
def ccmRawGlyph (raw : List CcmGlyph) (index : Int) : Fallible Heap SfError CcmGlyph :=
  if 0 ≤ index then
    match raw[index.toNat]? with
    | none => fail .badMagic
    | some g => pure g
  else fail .badMagic

/-- The rounds of the loop over the codes of a group that are still to come. -/
def ccmDecodeCodes (raw : List CcmGlyph) (code index : Int) (c : Ccm) : Nat → Fallible Heap SfError Ccm
  | 0 => pure c
  | n + 1 => do
    let g ← ccmRawGlyph raw index
    let c ← ccmUpsertGlyph c { g with code := Int32.ofInt code }
    ccmDecodeCodes raw (code + 1) (index + 1) c n

/-- How many codes a group has; the difference is an `int32_t`. -/
def ccmCodeCount (gr : CcmCodeGroup) : Except SfError Int :=
  let count := gr.endCode.toInt - gr.startCode.toInt
  if -2 ^ 31 ≤ count ∧ count + 1 < 2 ^ 31 then .ok (count + 1) else .error .undefinedBehaviour

def ccmDecodeGroups (raw : List CcmGlyph) (c : Ccm) : List CcmCodeGroup → Fallible Heap SfError Ccm
  | [] => pure c
  | gr :: groups => do
    let count ← lift (ccmCodeCount gr)
    let c ← ccmDecodeCodes raw gr.startCode.toInt gr.glyphIndex.toInt c count.toNat
    ccmDecodeGroups raw c groups

/-- The groups, the raw glyphs and what they make. -/
def ccmReadGrouped (head : CcmHead) (c : Ccm) : ReadM Ccm := do
  check (0 ≤ head.count.toInt) .badMagic
  let _ ← given (0 < head.count.toInt) [] (onHeap Heap.alloc)
  let groups ← readEach ccmReadGroup head.count.toInt.toNat
  let _ ← given (0 < head.glyphCount.toInt) [] (onHeap Heap.alloc)
  let raw ← readEach ccmReadGlyph head.glyphCount.toInt.toNat
  let c ← onHeap (ccmReserveGlyphs c head.glyphCount.toInt.toNat)
  onHeap (ccmDecodeGroups raw c groups)

/-- The texels of `ccm_tex_region_t`. -/
structure CcmRegion where
  x1 : Int16
  y1 : Int16
  x2 : Int16
  y2 : Int16
deriving DecidableEq, Repr

/-- `ccm_tex_region_t`: where a region stands, and the region. -/
def ccmReadRegion : ReadM (Nat × CcmRegion) := do
  let offset ← peek position
  let x1 ← readI16
  let y1 ← readI16
  let x2 ← readI16
  let y2 ← readI16
  pure (offset, ⟨x1, y1, x2, y2⟩)

section

variable (arith : CcmArith)

/-- A glyph with its code, and the first region that stands where it says. -/
def ccmReadEntry (head : CcmHead) (regions : List (Nat × CcmRegion)) : ReadM CcmGlyph := do
  let code ← readI32
  let texRegionOffset ← readI32
  let texIndex ← readI16
  let preSpace ← readI16
  let width ← readI16
  let advance ← readI16
  let _ ← assertI32 [0]
  let _ ← assertI32 [0]
  match regions.find? fun r => (r.1 : Int) = texRegionOffset.toInt with
  | none => fail .badMagic
  | some (_, r) => do
    check (¬ (head.texWidth = 0 ∨ head.texHeight = 0)) .badMagic
    pure ⟨code, arith.toUv r.x1 head.texWidth, arith.toUv r.y1 head.texHeight, arith.toUv r.x2 head.texWidth,
      arith.toUv r.y2 head.texHeight, preSpace, width, advance, texIndex⟩

def ccmReadEntries (head : CcmHead) (regions : List (Nat × CcmRegion)) (c : Ccm) : Nat → ReadM Ccm
  | 0 => pure c
  | n + 1 => do
    let g ← ccmReadEntry arith head regions
    let c ← onHeap (ccmUpsertGlyph c g)
    ccmReadEntries head regions c n

/-- The regions and the glyphs. -/
def ccmReadRegioned (head : CcmHead) (c : Ccm) : ReadM Ccm := do
  check (0 ≤ head.count.toInt) .badMagic
  let _ ← given (0 < head.count.toInt) [] (onHeap Heap.alloc)
  let regions ← readEach ccmReadRegion head.count.toInt.toNat
  let c ← onHeap (ccmReserveGlyphs c head.glyphCount.toInt.toNat)
  ccmReadEntries arith head regions c head.glyphCount.toInt.toNat

/-- What `sf_ccm_read_from_memory` does with its reader. -/
def ccmRead : ReadM Ccm := do
  let head ← ccmReadHead
  let c ← onHeap (ccmCreate head.version)
  let c : Ccm := { c with
    fullWidth := head.fullWidth, texWidth := head.texWidth, texHeight := head.texHeight, unk0e := head.unk0e,
    unk1c := head.unk1c, unk1d := head.unk1d, texCount := head.texCount }
  check (0 ≤ head.glyphCount.toInt) .badMagic
  if head.version = .darkSouls2 then ccmReadRegioned arith head c else ccmReadGrouped head c

/-- `sf_ccm_read_from_memory`. -/
def ccmReadFromMemory (flexible : Bool) (data : List UInt8) : Fallible Heap SfError Ccm :=
  onMemory data false flexible (ccmRead arith)

end

end Reading

/-! ## Writing -/

section Writing

open BinaryWriter

/-- `ccm_glyph_cmp`. -/
def ccmGlyphCmp (a b : CcmGlyph) : Int :=
  if a.code.toInt < b.code.toInt then -1 else if b.code.toInt < a.code.toInt then 1 else 0

/-- The groups of the glyphs from the `i`-th on, where the codes from `start` to `prev` make up the group that begins
    with the glyph `first`. -/
def ccmGroupsFrom (start prev : Int32) (first i : Nat) : List CcmGlyph → List CcmCodeGroup
  | [] => [⟨start, prev, Int32.ofNat first⟩]
  | g :: glyphs =>
    if g.code.toInt = prev.toInt + 1 then ccmGroupsFrom start g.code first (i + 1) glyphs
    else ⟨start, prev, Int32.ofNat first⟩ :: ccmGroupsFrom g.code g.code i (i + 1) glyphs

/-- The maximal runs of consecutive codes. -/
def ccmGroups : List CcmGlyph → List CcmCodeGroup
  | [] => []
  | g :: glyphs => ccmGroupsFrom g.code g.code 0 1 glyphs

def ccmWriteGroup (gr : CcmCodeGroup) : WriteM Unit := do
  writeI32 gr.startCode
  writeI32 gr.endCode
  writeI32 gr.glyphIndex

def ccmWriteGlyph (g : CcmGlyph) : WriteM Unit := do
  writeF32 g.uv1x
  writeF32 g.uv1y
  writeF32 g.uv2x
  writeF32 g.uv2y
  writeI16 g.preSpace
  writeI16 g.width
  writeI16 g.advance
  writeI16 g.texIndex

/-- The file of the versions with groups, after the header. -/
def ccmWriteGrouped (sorted : List CcmGlyph) : WriteM Unit := do
  let _ ← given (0 < sorted.length) [] (onHeap Heap.alloc)
  fillScalar .i16 (cstr "CodeGroupCount") (Int16.ofNat (ccmGroups sorted).length)
  writeEach ccmWriteGroup (ccmGroups sorted)
  let glyphOffset ← peek position
  fillI32 (cstr "GlyphOffset") (Int32.ofNat glyphOffset)
  writeEach ccmWriteGlyph sorted

section

variable (arith : CcmArith)

/-- The region of a glyph in texels. -/
def ccmRegionOf (c : Ccm) (g : CcmGlyph) : CcmRegion :=
  ⟨arith.toTexel g.uv1x c.texWidth, arith.toTexel g.uv1y c.texHeight, arith.toTexel g.uv2x c.texWidth,
    arith.toTexel g.uv2y c.texHeight⟩

/-- The unique regions, and for each glyph the index of its own, given the regions there are already. -/
def ccmUniqueRegions (c : Ccm) (unique : List CcmRegion) : List CcmGlyph → List CcmRegion × List Nat
  | [] => (unique, [])
  | g :: glyphs =>
    match unique.idxOf? (ccmRegionOf arith c g) with
    | some found =>
      let rest := ccmUniqueRegions c unique glyphs
      (rest.1, found :: rest.2)
    | none =>
      let rest := ccmUniqueRegions c (unique ++ [ccmRegionOf arith c g]) glyphs
      (rest.1, unique.length :: rest.2)

/-- A region; the value is where it stands. -/
def ccmWriteRegion (r : CcmRegion) : WriteM Nat := do
  let offset ← peek position
  writeI16 r.x1
  writeI16 r.y1
  writeI16 r.x2
  writeI16 r.y2
  pure offset

/-- A glyph and the index of its region. -/
def ccmWriteEntry (offsets : List Nat) (entry : CcmGlyph × Nat) : WriteM Unit := do
  let g := entry.1
  writeI32 g.code
  writeI32 (Int32.ofNat (offsets.getD entry.2 0))
  writeI16 g.texIndex
  writeI16 g.preSpace
  writeI16 g.width
  writeI16 g.advance
  writeI32 0
  writeI32 0

/-- The file of the version with regions, after the header. -/
def ccmWriteRegioned (c : Ccm) (sorted : List CcmGlyph) : WriteM Unit := do
  let _ ← given (0 < sorted.length) [] (onHeap Heap.alloc)
  let _ ← given (0 < sorted.length) [] (onHeap Heap.alloc)
  let unique := ccmUniqueRegions arith c [] sorted
  fillScalar .i16 (cstr "TexRegionCount") (Int16.ofNat unique.1.length)
  let offsets ← noteEach ccmWriteRegion unique.1
  let glyphOffset ← peek position
  fillI32 (cstr "GlyphOffset") (Int32.ofNat glyphOffset)
  writeEach (ccmWriteEntry offsets) (sorted.zip unique.2)

/-- The words that the versions have in different places; the count of the glyphs is cast to `int16_t`. -/
def ccmWriteCounts (c : Ccm) : WriteM Unit :=
  match c.version with
  | .darkSouls2 => do
    reserveScalar .i16 (cstr "TexRegionCount")
    writeI16 (Int16.ofNat c.glyphs.length)
    writeI16 0
  | _ => do
    writeI16 c.unk0e
    reserveScalar .i16 (cstr "CodeGroupCount")
    writeI16 (Int16.ofNat c.glyphs.length)

/-- What `sf_ccm_write_to_memory` does with its writer. -/
def ccmWrite (qs : Qsort) (c : Ccm) : WriteM Unit := do
  writeU32 c.version.toUInt32
  given (c.version = .demonsSouls) () (setBigEndian true)
  reserveI32 (cstr "FileSize")
  writeI16 c.fullWidth
  writeI16 c.texWidth
  writeI16 c.texHeight
  ccmWriteCounts c
  writeI32 0x20
  reserveI32 (cstr "GlyphOffset")
  writeU8 c.unk1c
  writeU8 c.unk1d
  writeU8 c.texCount
  writeU8 0
  let _ ← given (0 < c.glyphs.length) [] (onHeap Heap.alloc)
  let sorted := qs.sort ccmGlyphCmp c.glyphs
  if c.version = .darkSouls2 then ccmWriteRegioned arith c sorted else ccmWriteGrouped sorted
  let fileSize ← peek position
  fillI32 (cstr "FileSize") (Int32.ofNat fileSize)

/-- `sf_ccm_write_to_memory`. -/
def ccmWriteToMemory (qs : Qsort) (c : Ccm) : Fallible Heap SfError (List UInt8) :=
  writeToMemory false (ccmWrite arith qs c)

end

end Writing

end SoulsFormats
