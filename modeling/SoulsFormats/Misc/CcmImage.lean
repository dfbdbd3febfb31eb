import SoulsFormats.Core.Tables
import SoulsFormats.Misc.CcmGlyphs

set_option autoImplicit false

/-! # The file of a layout

What a successful run of the writer leaves in the file: the header with the counts cut to 16 bits, and after it the
table of the groups and the glyphs, or the table of the regions and the glyphs that name them by their offset. -/

namespace SoulsFormats

open Bytes Fallible

def Ccm.bigEndian (c : Ccm) : Bool := c.version = .demonsSouls

def ccmGroupBytes (be : Bool) (gr : CcmCodeGroup) : List UInt8 :=
  wordBytes be 4 gr.startCode.toUInt32.toNat ++ (wordBytes be 4 gr.endCode.toUInt32.toNat ++
    wordBytes be 4 gr.glyphIndex.toUInt32.toNat)

def ccmGlyphBytes (be : Bool) (g : CcmGlyph) : List UInt8 :=
  wordBytes be 4 g.uv1x.toNat ++ (wordBytes be 4 g.uv1y.toNat ++ (wordBytes be 4 g.uv2x.toNat ++
    (wordBytes be 4 g.uv2y.toNat ++ (wordBytes be 2 g.preSpace.toUInt16.toNat ++
      (wordBytes be 2 g.width.toUInt16.toNat ++ (wordBytes be 2 g.advance.toUInt16.toNat ++
        wordBytes be 2 g.texIndex.toUInt16.toNat))))))

def ccmRegionBytes (be : Bool) (r : CcmRegion) : List UInt8 :=
  wordBytes be 2 r.x1.toUInt16.toNat ++ (wordBytes be 2 r.y1.toUInt16.toNat ++ (wordBytes be 2 r.x2.toUInt16.toNat ++
    wordBytes be 2 r.y2.toUInt16.toNat))

/-- A glyph, and where its region stands. -/
def ccmEntryBytes (be : Bool) (g : CcmGlyph) (offset : Nat) : List UInt8 :=
  wordBytes be 4 g.code.toUInt32.toNat ++ (wordBytes be 4 (Int32.ofNat offset).toUInt32.toNat ++
    (wordBytes be 2 g.texIndex.toUInt16.toNat ++ (wordBytes be 2 g.preSpace.toUInt16.toNat ++
      (wordBytes be 2 g.width.toUInt16.toNat ++ (wordBytes be 2 g.advance.toUInt16.toNat ++
        (wordBytes be 4 (0 : Int32).toUInt32.toNat ++ wordBytes be 4 (0 : Int32).toUInt32.toNat))))))

@[simp] theorem length_ccmGroupBytes (be : Bool) (gr : CcmCodeGroup) : (ccmGroupBytes be gr).length = 12 := by
  simp [ccmGroupBytes]

@[simp] theorem length_ccmGlyphBytes (be : Bool) (g : CcmGlyph) : (ccmGlyphBytes be g).length = 24 := by
  simp [ccmGlyphBytes]

@[simp] theorem length_ccmRegionBytes (be : Bool) (r : CcmRegion) : (ccmRegionBytes be r).length = 8 := by
  simp [ccmRegionBytes]

@[simp] theorem length_ccmEntryBytes (be : Bool) (g : CcmGlyph) (offset : Nat) :
    (ccmEntryBytes be g offset).length = 24 := by
  simp [ccmEntryBytes]

/-- Where the region with some index stands. -/
def ccmRegionOffset (index : Nat) : Nat := 32 + 8 * index

/-- The words that the versions have in different places, for a number of groups or regions. -/
def ccmCountsBytes (c : Ccm) (count : Nat) : List UInt8 :=
  match c.version with
  | .darkSouls2 =>
    wordBytes c.bigEndian 2 count ++ (wordBytes c.bigEndian 2 c.glyphs.length ++
      wordBytes c.bigEndian 2 (0 : Int16).toUInt16.toNat)
  | _ =>
    wordBytes c.bigEndian 2 c.unk0e.toUInt16.toNat ++ (wordBytes c.bigEndian 2 count ++
      wordBytes c.bigEndian 2 c.glyphs.length)

section

variable (arith : CcmArith)

/-- How many groups or regions there are. -/
def ccmTableCount (c : Ccm) (sorted : List CcmGlyph) : Nat :=
  if c.version = .darkSouls2 then (ccmUniqueRegions arith c [] sorted).1.length else (ccmGroups sorted).length

/-- What comes after the header. -/
def ccmBody (c : Ccm) (sorted : List CcmGlyph) : List UInt8 :=
  if c.version = .darkSouls2 then
    let unique := ccmUniqueRegions arith c [] sorted
    unique.1.flatMap (ccmRegionBytes c.bigEndian) ++
      (sorted.zip unique.2).flatMap fun e => ccmEntryBytes c.bigEndian e.1 (ccmRegionOffset e.2)
  else (ccmGroups sorted).flatMap (ccmGroupBytes c.bigEndian) ++ sorted.flatMap (ccmGlyphBytes c.bigEndian)

/-- The file of a layout whose glyphs have been sorted. -/
structure CcmImage (c : Ccm) (sorted : List CcmGlyph) (B : List UInt8) : Prop where
  version : Holds B 0 (wordBytes false 4 c.version.toUInt32.toNat)
  fullWidth : Holds B 8 (wordBytes c.bigEndian 2 c.fullWidth.toUInt16.toNat)
  texWidth : Holds B 10 (wordBytes c.bigEndian 2 c.texWidth.toUInt16.toNat)
  texHeight : Holds B 12 (wordBytes c.bigEndian 2 c.texHeight.toUInt16.toNat)
  counts : Holds B 14 (ccmCountsBytes c (ccmTableCount arith c sorted))
  headerSize : Holds B 20 (wordBytes c.bigEndian 4 (0x20 : Int32).toUInt32.toNat)
  unk1c : Holds B 28 [c.unk1c]
  unk1d : Holds B 29 [c.unk1d]
  texCount : Holds B 30 [c.texCount]
  zero : Holds B 31 [0]
  body : Holds B 32 (ccmBody arith c sorted)

/-! ## Regions -/

/-- Every glyph has its region among the unique ones, under its index, and those that were there stay. -/
theorem ccmUniqueRegions_spec (c : Ccm) (glyphs : List CcmGlyph) (unique : List CcmRegion) :
    unique <+: (ccmUniqueRegions arith c unique glyphs).1 ∧
      (ccmUniqueRegions arith c unique glyphs).1.length ≤ unique.length + glyphs.length ∧
      List.Forall₂ (fun g index => (ccmUniqueRegions arith c unique glyphs).1[index]? = some (ccmRegionOf arith c g)) glyphs
        (ccmUniqueRegions arith c unique glyphs).2 := by
  induction glyphs generalizing unique with
  | nil => exact ⟨List.prefix_refl _, Nat.le_refl _, List.Forall₂.nil⟩
  | cons g glyphs ih =>
      rw [ccmUniqueRegions]
      cases hfound : unique.idxOf? (ccmRegionOf arith c g) with
      | some found =>
          obtain ⟨hkept, hlen, hall⟩ := ih unique
          have hat : unique[found]? = some (ccmRegionOf arith c g) := by
            rw [List.idxOf?_eq_map_finIdxOf?_val, Option.map_eq_some_iff] at hfound
            obtain ⟨i, hi, rfl⟩ := hfound
            rw [List.finIdxOf?_eq_some_iff] at hi
            rw [List.getElem?_eq_getElem i.isLt, ← hi.1]
            rfl
          refine ⟨hkept, hlen.trans (by simp), List.Forall₂.cons ?_ hall⟩
          obtain ⟨rest, hrest⟩ := hkept
          simp only
          rw [← hrest, List.getElem?_append_left (List.getElem?_eq_some_iff.1 hat).1]
          exact hat
      | none =>
          obtain ⟨hkept, hlen, hall⟩ := ih (unique ++ [ccmRegionOf arith c g])
          rw [List.length_append, List.length_singleton] at hlen
          refine ⟨(List.prefix_append _ _).trans hkept, hlen.trans (by simp; omega), List.Forall₂.cons ?_ hall⟩
          obtain ⟨rest, hrest⟩ := hkept
          simp only
          rw [← hrest, List.getElem?_append_left (by simp)]
          simp

end

/-! ## Writing -/

section Writing

open BinaryWriter

inductive CcmSlot where
  | fileSize | codeGroupCount | texRegionCount | glyphOffset
deriving DecidableEq

def ccmLabels : Labels CcmSlot where
  base
    | .fileSize => "FileSize"
    | .codeGroupCount => "CodeGroupCount"
    | .texRegionCount => "TexRegionCount"
    | .glyphOffset => "GlyphOffset"
  kind
    | .fileSize => .i32
    | .codeGroupCount => .i16
    | .texRegionCount => .i16
    | .glyphOffset => .i32
  noDigits := by
    intro a
    cases a <;> decide
  inj := by
    intro a b h
    cases a <;> cases b <;> first | rfl | exact absurd h (by decide)

def ccmAddr : CcmSlot → Option Nat → Nat
  | .fileSize, _ => 4
  | .codeGroupCount, _ => 16
  | .texRegionCount, _ => 14
  | .glyphOffset, _ => 24

abbrev ccmSlots : FileSlots (CcmSlot × Option Nat) := ccmLabels.slots ccmAddr

variable {be : Bool} {arith : CcmArith}

theorem sends_ccmWriteGroup (gr : CcmCodeGroup) :
    Sends ccmSlots be false (ccmWriteGroup gr) (ccmGroupBytes be gr) True :=
  (sends_i32 _).then fun _ => (sends_i32 _).then fun _ => sends_i32 _

theorem sends_ccmWriteGlyph (g : CcmGlyph) :
    Sends ccmSlots be false (ccmWriteGlyph g) (ccmGlyphBytes be g) True :=
  (sends_f32 _).then fun _ => (sends_f32 _).then fun _ => (sends_f32 _).then fun _ => (sends_f32 _).then fun _ =>
    (sends_i16 _).then fun _ => (sends_i16 _).then fun _ => (sends_i16 _).then fun _ => sends_i16 _

theorem sends_ccmWriteEntry {offsets : List Nat} {g : CcmGlyph} {index offset : Nat}
    (hoffset : offsets.getD index 0 = offset) :
    Sends ccmSlots be false (ccmWriteEntry offsets (g, index)) (ccmEntryBytes be g offset) True := by
  rw [← hoffset]
  exact (sends_i32 _).then fun _ => (sends_i32 _).then fun _ => (sends_i16 _).then fun _ => (sends_i16 _).then fun _ =>
    (sends_i16 _).then fun _ => (sends_i16 _).then fun _ => (sends_i32 _).then fun _ => sends_i32 _

/-- The regions, and where each of them stands. -/
theorem puts_ccmWriteRegions (regions : List CcmRegion) (pos : Nat) :
    Puts ccmSlots (noteEach ccmWriteRegion regions) ⟨pos, be, false⟩
      (fun offsets st => st = ⟨pos + 8 * regions.length, be, false⟩ ∧ offsets = List.range' pos regions.length 8)
      fun _ _ B => Holds B pos (regions.flatMap (ccmRegionBytes be)) := by
  induction regions generalizing pos with
  | nil => exact Puts.here (Puts.done ⟨rfl, rfl⟩ fun B hB => holds_nil.2 hB)
  | cons r regions ih =>
      have hfirst : Puts ccmSlots (ccmWriteRegion r) ⟨pos, be, false⟩
          (fun offset st => st = ⟨pos + 8, be, false⟩ ∧ offset = pos) fun _ _ B => Holds B pos (ccmRegionBytes be r) := by
        refine Puts.position (Puts.i16 (Puts.i16 (Puts.i16 (Puts.i16 (Puts.done ⟨rfl, rfl⟩ ?_)))))
        intro B hy2 hx2 hy1 hx1
        simpa [ccmRegionBytes, holds_append] using ⟨hx1, hy1, hx2, hy2⟩
      refine hfirst.seq fun offset st hst => ?_
      obtain ⟨rfl, rfl⟩ := hst
      refine (ih (offset + 8)).seq fun offsets st hst => ?_
      obtain ⟨rfl, rfl⟩ := hst
      refine Puts.done ⟨?_, List.range'_succ.symm⟩ fun B hrest hregion => ?_
      · rw [List.length_cons, Nat.mul_add, Nat.mul_one, Nat.add_assoc, Nat.add_comm 8]
      · rw [List.flatMap_cons, holds_append, length_ccmRegionBytes]
        exact ⟨hregion, hrest⟩

/-- The version-dependent words, once the count has been filled in. -/
theorem puts_ccmWriteCounts (c : Ccm) :
    Puts ccmSlots (ccmWriteCounts c) ⟨14, c.bigEndian, false⟩ (fun _ st => st = ⟨20, c.bigEndian, false⟩) fun _ _ B =>
      ∀ count, Holds B (if c.version = .darkSouls2 then 14 else 16) (wordBytes c.bigEndian 2 count) →
        Holds B 14 (ccmCountsBytes c count) := by
  have hgrouped : c.version ≠ .darkSouls2 → Puts ccmSlots (do
      writeI16 c.unk0e
      reserveScalar .i16 (cstr "CodeGroupCount")
      writeI16 (Int16.ofNat c.glyphs.length)) ⟨14, c.bigEndian, false⟩ (fun _ st => st = ⟨20, c.bigEndian, false⟩)
      fun _ _ B => ∀ count, Holds B 16 (wordBytes c.bigEndian 2 count) →
        Holds B 14 (wordBytes c.bigEndian 2 c.unk0e.toUInt16.toNat ++ (wordBytes c.bigEndian 2 count ++
          wordBytes c.bigEndian 2 c.glyphs.length)) := by
    intro _
    refine Puts.i16 (Puts.reserve (k := .i16) (.codeGroupCount, none) rfl rfl (Puts.last (Puts.i16 (Puts.done rfl ?_))))
    intro B hglyphs hunk count hcount
    rw [wordBytes_i16] at hglyphs
    simpa [holds_append] using ⟨hunk, hcount, hglyphs⟩
  unfold ccmWriteCounts ccmCountsBytes
  cases hversion : c.version with
  | demonsSouls => exact hgrouped (by rw [hversion]; decide)
  | darkSouls1 => exact hgrouped (by rw [hversion]; decide)
  | darkSouls2 =>
      refine Puts.reserve (k := .i16) (.texRegionCount, none) rfl rfl (Puts.i16 (Puts.last (Puts.i16 (Puts.done rfl ?_))))
      intro B hzero hglyphs count hcount
      rw [wordBytes_i16] at hglyphs
      simpa [holds_append] using ⟨hcount, hglyphs, hzero⟩

/-- The groups and the glyphs. -/
theorem puts_ccmWriteGrouped (sorted : List CcmGlyph) :
    Puts ccmSlots (ccmWriteGrouped sorted) ⟨32, be, false⟩ (fun _ st => st.Flags be false) fun _ _ B =>
      Holds B 16 (wordBytes be 2 (ccmGroups sorted).length) ∧
        Holds B 32 ((ccmGroups sorted).flatMap (ccmGroupBytes be) ++ sorted.flatMap (ccmGlyphBytes be)) := by
  refine Puts.room _ fun _ => Puts.fill (k := .i16) (.codeGroupCount, none) rfl ?_
  refine Puts.sent ((sends_each _ fun gr _ => sends_ccmWriteGroup gr).imp fun _ => trivial) fun _ => ?_
  refine Puts.position (Puts.fillI32 (.glyphOffset, none) rfl ?_)
  refine Puts.last (Puts.sent ((sends_each _ fun g _ => sends_ccmWriteGlyph g).imp fun _ => trivial) fun _ => ?_)
  refine Puts.done ⟨rfl, rfl⟩ fun B hglyphs _ hgroups hcount => ⟨?_, holds_append.2 ⟨hgroups, hglyphs⟩⟩
  rw [← wordBytes_i16]
  exact hcount

/-- The regions and the glyphs. -/
theorem puts_ccmWriteRegioned (c : Ccm) (sorted : List CcmGlyph) :
    Puts ccmSlots (ccmWriteRegioned arith c sorted) ⟨32, be, false⟩ (fun _ st => st.Flags be false) fun _ _ B =>
      Holds B 14 (wordBytes be 2 (ccmUniqueRegions arith c [] sorted).1.length) ∧
        Holds B 32 ((ccmUniqueRegions arith c [] sorted).1.flatMap (ccmRegionBytes be) ++
          (sorted.zip (ccmUniqueRegions arith c [] sorted).2).flatMap
            fun e => ccmEntryBytes be e.1 (ccmRegionOffset e.2)) := by
  obtain ⟨-, -, hregions⟩ := ccmUniqueRegions_spec arith c sorted []
  -- a glyph names the offset of its own region
  have hentries : Sends ccmSlots be false
      (writeEach (ccmWriteEntry (List.range' 32 (ccmUniqueRegions arith c [] sorted).1.length 8))
        (sorted.zip (ccmUniqueRegions arith c [] sorted).2))
      ((sorted.zip (ccmUniqueRegions arith c [] sorted).2).flatMap fun e => ccmEntryBytes be e.1 (ccmRegionOffset e.2))
      (∀ e ∈ sorted.zip (ccmUniqueRegions arith c [] sorted).2, True) := by
    refine sends_each _ fun e he => ?_
    obtain ⟨k, hk⟩ := List.mem_iff_getElem?.1 he
    rw [List.getElem?_zip_eq_some] at hk
    obtain ⟨hglt, hgval⟩ := List.getElem?_eq_some_iff.1 hk.1
    obtain ⟨hilt, hival⟩ := List.getElem?_eq_some_iff.1 hk.2
    have hat := (List.forall₂_iff_get.1 hregions).2 k hglt hilt
    rw [List.get_eq_getElem, List.get_eq_getElem, hival] at hat
    refine sends_ccmWriteEntry ?_
    rw [List.getD_eq_getElem?_getD, List.getElem?_range' (List.getElem?_eq_some_iff.1 hat).1]
    rfl
  refine Puts.room _ fun _ => Puts.room _ fun _ => Puts.fill (k := .i16) (.texRegionCount, none) rfl ?_
  refine (puts_ccmWriteRegions _ 32).seq fun offsets st hst => ?_
  obtain ⟨rfl, rfl⟩ := hst
  refine Puts.position (Puts.fillI32 (.glyphOffset, none) rfl (Puts.last (Puts.sent hentries fun _ => ?_)))
  refine Puts.done ⟨rfl, rfl⟩ fun B hentries _ hall hcount => ⟨?_, holds_append.2 ⟨hall, ?_⟩⟩
  · rw [← wordBytes_i16]
    exact hcount
  · rw [length_flatMap_const _ fun r _ => length_ccmRegionBytes be r, Nat.mul_comm]
    exact hentries

/-- **A layout that is written has its image in the file.** -/
theorem puts_ccmWrite (qs : Qsort) (c : Ccm) : Puts ccmSlots (ccmWrite arith qs c) ⟨0, false, false⟩ (fun _ _ => True)
    fun _ _ B => CcmImage arith c (qs.sort ccmGlyphCmp c.glyphs) B := by
  refine Puts.u32 ?_
  have hbody : Puts ccmSlots (if c.version = .darkSouls2
      then ccmWriteRegioned arith c (qs.sort ccmGlyphCmp c.glyphs) else ccmWriteGrouped (qs.sort ccmGlyphCmp c.glyphs))
      ⟨32, c.bigEndian, false⟩ (fun _ st => st.Flags c.bigEndian false) fun _ _ B =>
        Holds B (if c.version = .darkSouls2 then 14 else 16)
          (wordBytes c.bigEndian 2 (ccmTableCount arith c (qs.sort ccmGlyphCmp c.glyphs))) ∧
        Holds B 32 (ccmBody arith c (qs.sort ccmGlyphCmp c.glyphs)) := by
    unfold ccmTableCount ccmBody
    split
    · exact puts_ccmWriteRegioned c _
    · exact puts_ccmWriteGrouped _
  have hrest : Puts ccmSlots (do
      reserveI32 (cstr "FileSize")
      writeI16 c.fullWidth
      writeI16 c.texWidth
      writeI16 c.texHeight
      ccmWriteCounts c
      writeI32 0x20
      reserveI32 (cstr "GlyphOffset")
      writeU8 c.unk1c
      writeU8 c.unk1d
      writeU8 c.texCount
      writeU8 0
      let _ ← given (0 < c.glyphs.length) [] (BinaryWriter.onHeap Heap.alloc)
      if c.version = .darkSouls2 then ccmWriteRegioned arith c (qs.sort ccmGlyphCmp c.glyphs)
        else ccmWriteGrouped (qs.sort ccmGlyphCmp c.glyphs)
      let fileSize ← peek position
      fillI32 (cstr "FileSize") (Int32.ofNat fileSize)) ⟨4, c.bigEndian, false⟩ (fun _ _ => True) fun _ _ B =>
        Holds B 0 (wordBytes false 4 c.version.toUInt32.toNat) → CcmImage arith c (qs.sort ccmGlyphCmp c.glyphs) B := by
    refine Puts.reserveI32 (.fileSize, none) rfl rfl (Puts.i16 (Puts.i16 (Puts.i16 ?_)))
    refine (puts_ccmWriteCounts c).seq fun _ st hst => ?_
    subst hst
    refine Puts.i32 (Puts.reserveI32 (.glyphOffset, none) rfl rfl (Puts.u8 (Puts.u8 (Puts.u8 (Puts.u8 ?_)))))
    refine Puts.room _ fun _ => Puts.branch (hbody.seq fun _ st hst => ?_)
    obtain ⟨p, be', long'⟩ := st
    obtain ⟨rfl, rfl⟩ := hst
    refine Puts.position (Puts.last (Puts.fillI32 (.fileSize, none) rfl (Puts.done trivial ?_)))
    intro B _ hbody zero texCount unk1d unk1c headerSize hcounts texHeight texWidth fullWidth version
    exact ⟨version, fullWidth, texWidth, texHeight, hcounts _ hbody.1, headerSize, unk1c, unk1d, texCount, zero, hbody.2⟩
  by_cases hbig : c.version = .demonsSouls
  · have hbe : c.bigEndian = true := by simpa [Ccm.bigEndian] using hbig
    rw [hbe] at hrest
    rw [given, if_pos (by simpa using hbig)]
    exact Puts.setBigEndian (hrest.mono fun _ _ _ B h => h)
  · have hbe : c.bigEndian = false := by simpa [Ccm.bigEndian] using hbig
    rw [hbe] at hrest
    rw [given, if_neg (by simpa using hbig)]
    exact hrest.mono fun _ _ _ B h => h

end Writing

end SoulsFormats
