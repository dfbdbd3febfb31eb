import Mathlib.Data.List.Induction
import SoulsFormats.Core.Fields
import SoulsFormats.Misc.CcmImage

set_option autoImplicit false

/-! # What a layout comes back as

A layout with at most 32767 glyphs comes back, except that the version with regions cannot store glyphs for a texture
without a size. With more glyphs the counts in the header are too small, and some code is lost. -/

namespace SoulsFormats

open Bytes Fallible

/-! ## Counts -/

theorem int16_toInt_ofNat {n : Nat} (h : n ≤ 32767) : (Int16.ofNat n).toInt = n := by
  rw [Int16.toInt_ofNat', Int.bmod_def, show Int16.size = 65536 from rfl]
  omega

theorem int16_count_le (n : Nat) : (Int16.ofNat n).toInt.toNat ≤ 32767 ∧ (Int16.ofNat n).toInt.toNat ≤ n := by
  rw [Int16.toInt_ofNat', Int.bmod_def, show Int16.size = 65536 from rfl]
  constructor <;> split <;> omega

theorem length_ccmGroupsFrom_le (start prev : Int32) (first i : Nat) (glyphs : List CcmGlyph) :
    (ccmGroupsFrom start prev first i glyphs).length ≤ glyphs.length + 1 := by
  induction glyphs generalizing start prev first i with
  | nil => exact Nat.le_refl _
  | cons g glyphs ih =>
      rw [ccmGroupsFrom, List.length_cons]
      split
      · exact (ih _ _ _ _).trans (Nat.le_succ _)
      · exact Nat.succ_le_succ (ih _ _ _ _)

theorem length_ccmGroups_le (glyphs : List CcmGlyph) : (ccmGroups glyphs).length ≤ glyphs.length := by
  cases glyphs with
  | nil => exact Nat.le_refl _
  | cons g glyphs => exact length_ccmGroupsFrom_le _ _ _ _ glyphs

/-! ## Reading the header -/

section Reading

open BinaryReader

variable {arith : CcmArith} {c : Ccm} {sorted : List CcmGlyph} {B : List UInt8} {be flexible : Bool}

/-- The header of a layout with some number of groups or regions. -/
def ccmHeadOf (c : Ccm) (count : Nat) : CcmHead where
  version := c.version
  fullWidth := c.fullWidth
  texWidth := c.texWidth
  texHeight := c.texHeight
  unk0e := if c.version = .darkSouls2 then 0 else c.unk0e
  count := Int16.ofNat count
  glyphCount := Int16.ofNat c.glyphs.length
  unk1c := c.unk1c
  unk1d := c.unk1d
  texCount := c.texCount

@[simp] theorem ccmHeadOf_count (c : Ccm) (count : Nat) : (ccmHeadOf c count).count = Int16.ofNat count := rfl

@[simp] theorem ccmHeadOf_glyphCount (c : Ccm) (count : Nat) :
    (ccmHeadOf c count).glyphCount = Int16.ofNat c.glyphs.length := rfl

theorem reads_ccmReadCounts {count : Nat} (h : Holds B 14 (ccmCountsBytes c count)) :
    Reads (ccmReadCounts c.version) ⟨B, 14, c.bigEndian, false, [], flexible⟩
      (if c.version = .darkSouls2 then 0 else c.unk0e, Int16.ofNat count, Int16.ofNat c.glyphs.length)
      ⟨B, 20, c.bigEndian, false, [], flexible⟩ := by
  have hgrouped : Holds B 14 (wordBytes c.bigEndian 2 c.unk0e.toUInt16.toNat ++ (wordBytes c.bigEndian 2 count ++
      wordBytes c.bigEndian 2 c.glyphs.length)) →
      Reads (do
        let unk0e ← readI16
        let codeGroupCount ← readI16
        let glyphCount ← readI16
        pure (unk0e, codeGroupCount, glyphCount)) ⟨B, 14, c.bigEndian, false, [], flexible⟩
        (c.unk0e, Int16.ofNat count, Int16.ofNat c.glyphs.length) ⟨B, 20, c.bigEndian, false, [], flexible⟩ := by
    intro h
    rw [← wordBytes_i16 _ count, ← wordBytes_i16 _ c.glyphs.length] at h
    simp only [holds_append, length_wordBytes] at h
    exact Reads.i16 h.1 (Reads.i16 h.2.1 (Reads.i16 h.2.2 (Reads.pure _ _)))
  unfold ccmCountsBytes at h
  unfold ccmReadCounts
  cases hversion : c.version with
  | demonsSouls =>
      rw [hversion] at h
      exact hgrouped h
  | darkSouls1 =>
      rw [hversion] at h
      exact hgrouped h
  | darkSouls2 =>
      rw [hversion] at h
      simp only [holds_append, length_wordBytes] at h
      rw [← wordBytes_i16 _ count, ← wordBytes_i16 _ c.glyphs.length] at h
      refine Reads.i16 h.1 (Reads.i16 h.2.1 ?_)
      exact Reads.assertI16 h.2.2 List.mem_cons_self (Reads.pure _ _)

/-- The header is read as it was written, with the counts cut to 16 bits. -/
theorem reads_ccmReadHead (h : CcmImage arith c sorted B) :
    Reads ccmReadHead ⟨B, 0, false, false, [], flexible⟩ (ccmHeadOf c (ccmTableCount arith c sorted))
      ⟨B, 32, c.bigEndian, false, [], flexible⟩ := by
  have hrest : Reads (do
      let _ ← readI32
      let fullWidth ← readI16
      let texWidth ← readI16
      let texHeight ← readI16
      let counts ← ccmReadCounts c.version
      let _ ← assertI32 [0x20]
      let _ ← readI32
      let unk1c ← readU8
      let unk1d ← readU8
      let texCount ← readU8
      let _ ← assertU8 [0]
      pure (⟨c.version, fullWidth, texWidth, texHeight, counts.1, counts.2.1, counts.2.2, unk1c, unk1d, texCount⟩ : CcmHead))
      ⟨B, 4, c.bigEndian, false, [], flexible⟩ (ccmHeadOf c (ccmTableCount arith c sorted))
      ⟨B, 32, c.bigEndian, false, [], flexible⟩ := by
    have hlen := h.zero.le
    rw [List.length_singleton] at hlen
    obtain ⟨fileSize, hfileSize⟩ := exists_reads_i32 c.bigEndian [] flexible (show 4 + 4 ≤ B.length by omega)
    obtain ⟨glyphOffset, hglyphOffset⟩ := exists_reads_i32 c.bigEndian [] flexible (show 24 + 4 ≤ B.length by omega)
    refine hfileSize.bind (Reads.i16 h.fullWidth (Reads.i16 h.texWidth (Reads.i16 h.texHeight ?_)))
    refine (reads_ccmReadCounts h.counts).bind (Reads.assertI32 h.headerSize List.mem_cons_self (hglyphOffset.bind ?_))
    refine Reads.u8 h.unk1c (Reads.u8 h.unk1d (Reads.u8 h.texCount (Reads.assertU8 h.zero List.mem_cons_self ?_)))
    exact Reads.pure _ _
  refine Reads.u32 h.version ?_
  rw [CcmVersion.ofUInt32?_toUInt32]
  unfold ccmReadHeadOf
  cases hversion : c.version with
  | demonsSouls =>
      have hbe : c.bigEndian = true := by simp [Ccm.bigEndian, hversion]
      rw [hversion, hbe] at hrest
      rw [hbe]
      exact Reads.setBig hrest
  | darkSouls1 =>
      have hbe : c.bigEndian = false := by simp [Ccm.bigEndian, hversion]
      rw [hversion, hbe] at hrest
      rw [hbe]
      exact hrest
  | darkSouls2 =>
      have hbe : c.bigEndian = false := by simp [Ccm.bigEndian, hversion]
      rw [hversion, hbe] at hrest
      rw [hbe]
      exact hrest

/-- After the header the reader has an empty layout, and stands before the tables. -/
theorem leads_ccmRead (h : CcmImage arith c sorted B) (hcount : 0 ≤ (Int16.ofNat c.glyphs.length).toInt) :
    ∃ c0 : Ccm, c0.glyphs = [] ∧ Leads (ccmRead arith) ⟨B, 0, false, false, [], flexible⟩
      (if c.version = .darkSouls2 then ccmReadRegioned arith (ccmHeadOf c (ccmTableCount arith c sorted)) c0
        else ccmReadGrouped (ccmHeadOf c (ccmTableCount arith c sorted)) c0)
      ⟨B, 32, c.bigEndian, false, [], flexible⟩ := by
  refine ⟨_, ?_, (reads_ccmReadHead h).leads (((Yields.pure _).alloc.reads _).leads (Leads.check hcount (Leads.refl _ _)))⟩
  rfl

/-- A count that has become negative is refused. -/
theorem refuses_ccmRead (h : CcmImage arith c sorted B) (hcount : (Int16.ofNat c.glyphs.length).toInt < 0) :
    Refuses (ccmRead arith) ⟨B, 0, false, false, [], flexible⟩ := by
  refine (reads_ccmReadHead h).refuses (((Yields.pure _).alloc.reads _).refuses (refuses_check ?_))
  exact Int.not_le.2 hcount

/-! ## Groups and glyphs -/

theorem readsBack_ccmReadGroup (gr : CcmCodeGroup) : ReadsBack be ccmReadGroup (ccmGroupBytes be gr) gr :=
  (readsBack_i32 _).bind ((readsBack_i32 _).bind ((readsBack_i32 _).last _ rfl))

/-- A glyph is read without its code. -/
theorem readsBack_ccmReadGlyph (g : CcmGlyph) : ReadsBack be ccmReadGlyph (ccmGlyphBytes be g) g.raw :=
  (readsBack_f32 _).bind ((readsBack_f32 _).bind ((readsBack_f32 _).bind ((readsBack_f32 _).bind
    ((readsBack_i16 _).bind ((readsBack_i16 _).bind ((readsBack_i16 _).bind ((readsBack_i16 _).last _ rfl)))))))

/-- **Few enough glyphs come back from groups.** -/
theorem reads_ccmReadGrouped (h : CcmImage arith c sorted B) (hversion : c.version ≠ .darkSouls2)
    (hperm : sorted.Perm c.glyphs) (hdistinct : c.Distinct) (hfew : c.glyphs.length ≤ 32767) {c0 : Ccm}
    (hc0 : c0.glyphs = []) :
    ∃ c' p, Reads (ccmReadGrouped (ccmHeadOf c (ccmTableCount arith c sorted)) c0)
      ⟨B, 32, c.bigEndian, false, [], flexible⟩ c' ⟨B, p, c.bigEndian, false, [], flexible⟩ ∧ c'.glyphs = sorted := by
  have hlen : sorted.length = c.glyphs.length := hperm.length_eq
  have hgroups := length_ccmGroups_le sorted
  have hcount : (ccmHeadOf c (ccmTableCount arith c sorted)).count.toInt = (ccmGroups sorted).length := by
    rw [ccmHeadOf_count, ccmTableCount, if_neg hversion]
    exact int16_toInt_ofNat (by omega)
  have hglyphCount : (ccmHeadOf c (ccmTableCount arith c sorted)).glyphCount.toInt = sorted.length := by
    rw [ccmHeadOf_glyphCount, hlen]
    exact int16_toInt_ofNat hfew
  have hbody := h.body
  rw [ccmBody, if_neg hversion, holds_append] at hbody
  obtain ⟨c1, hreserve, hglyphs1⟩ := yields_ccmReserveGlyphs c0 sorted.length
  have hcodes : (sorted.map CcmGlyph.code).Nodup := (hperm.map CcmGlyph.code).nodup_iff.2 hdistinct
  have hmax : INT32_MAX = 2 ^ 31 - 1 := rfl
  obtain ⟨c', hdecode, hglyphs'⟩ := yields_ccmDecodeGroups (hglyphs1.trans hc0) hcodes (by omega)
  refine ⟨c', 32 + ((ccmGroups sorted).flatMap (ccmGroupBytes c.bigEndian)).length +
    (sorted.flatMap (ccmGlyphBytes c.bigEndian)).length, ?_, hglyphs'⟩
  unfold ccmReadGrouped
  rw [hcount, hglyphCount, Int.toNat_natCast, Int.toNat_natCast]
  refine Reads.check (by omega) (Reads.room _ fun _ => ?_)
  refine (parses_readEach_self _ fun gr _ c' hbe _ => readsBack_ccmReadGroup gr c' hbe).step hbody.1 (Reads.room _ fun _ => ?_)
  refine (parses_readEach _ fun g _ c' hbe _ => readsBack_ccmReadGlyph g c' hbe).step hbody.2 ?_
  exact (hreserve.reads _).bind (hdecode.reads _)

/-- What is made of groups, whatever glyphs are read. -/
theorem returns_ccmDecodeGroups {groups : List CcmCodeGroup} {n : Nat} {c0 : Ccm} (hsorted : CcmGlyph.Ascending sorted)
    (hgroups : ∀ gr ∈ groups, gr ∈ ccmGroups sorted) (hn : n < sorted.length) (hc0 : c0.glyphs = []) (p : Bool) :
    Returns (do
      let _ ← given p [] (BinaryReader.onHeap Heap.alloc)
      let raw ← readEach ccmReadGlyph n
      let c ← BinaryReader.onHeap (ccmReserveGlyphs c0 n)
      BinaryReader.onHeap (ccmDecodeGroups raw c groups)) fun c' => ∃ g ∈ sorted, ¬ c'.Has g.code := by
  refine Returns.after fun _ => (returns_readEach (Returns.trivial _) n).bind fun raw hraw => ?_
  have hreserve : Returns (ccmReserveGlyphs c0 n) fun c1 => c1.glyphs = [] :=
    fun _ _ _ hrun => (ccmReserveGlyphs_eq_ok hrun).trans hc0
  refine (Returns.zoom hreserve).bind fun c1 hc1 => Returns.zoom fun _ _ _ hrun => ?_
  exact ccmDecodeGroups_misses hsorted hgroups (by omega) hc1 hrun

/-- The groups that are read are the first ones of the file. -/
theorem leads_ccmReadGrouped (h : CcmImage arith c sorted B) (hversion : c.version ≠ .darkSouls2) (c0 : Ccm)
    (hnonneg : 0 ≤ (ccmHeadOf c (ccmTableCount arith c sorted)).count.toInt) :
    ∃ m p, Leads (ccmReadGrouped (ccmHeadOf c (ccmTableCount arith c sorted)) c0)
      ⟨B, 32, c.bigEndian, false, [], flexible⟩ (do
        let _ ← given (0 < (Int16.ofNat c.glyphs.length).toInt) [] (BinaryReader.onHeap Heap.alloc)
        let raw ← readEach ccmReadGlyph (Int16.ofNat c.glyphs.length).toInt.toNat
        let c ← BinaryReader.onHeap (ccmReserveGlyphs c0 (Int16.ofNat c.glyphs.length).toInt.toNat)
        BinaryReader.onHeap (ccmDecodeGroups raw c ((ccmGroups sorted).take m))) ⟨B, p, c.bigEndian, false, [], flexible⟩ := by
  obtain ⟨m, hm⟩ : ∃ m, m = (ccmHeadOf c (ccmTableCount arith c sorted)).count.toInt.toNat := ⟨_, rfl⟩
  have htake : m ≤ (ccmGroups sorted).length := by
    rw [hm, ccmHeadOf_count, ccmTableCount, if_neg hversion]
    exact (int16_count_le _).2
  have hbody := h.body
  rw [ccmBody, if_neg hversion, ← List.take_append_drop m (ccmGroups sorted), List.flatMap_append, List.append_assoc,
    holds_append] at hbody
  have hparses : Parses (readEach ccmReadGroup ((ccmGroups sorted).take m).length)
      ⟨B, 32, c.bigEndian, false, [], flexible⟩ (((ccmGroups sorted).take m).flatMap (ccmGroupBytes c.bigEndian))
      ((ccmGroups sorted).take m) := parses_readEach_self _ fun gr _ c' hbe _ => readsBack_ccmReadGroup gr c' hbe
  rw [List.length_take, Nat.min_eq_left htake] at hparses
  refine ⟨m, 32 + (((ccmGroups sorted).take m).flatMap (ccmGroupBytes c.bigEndian)).length, ?_⟩
  unfold ccmReadGrouped
  rw [← hm]
  exact Leads.check hnonneg (Leads.room _ fun _ => (hparses hbody.1).leads (Leads.refl _ _))

/-- **Of too many glyphs one is lost.** -/
theorem misses_ccmReadGrouped (h : CcmImage arith c sorted B) (hversion : c.version ≠ .darkSouls2)
    (hlen : sorted.length = c.glyphs.length) (hsorted : CcmGlyph.Ascending sorted) (hmany : 32767 < c.glyphs.length)
    {c0 c' : Ccm} (hc0 : c0.glyphs = []) {r r' : BinaryReader} (hr : r.cursor = ⟨B, 32, c.bigEndian, false, [], flexible⟩)
    (hcalm : r.heap.Calm)
    (hrun : ccmReadGrouped (ccmHeadOf c (ccmTableCount arith c sorted)) c0 r = (.ok c', r')) :
    ∃ g ∈ sorted, ¬ c'.Has g.code := by
  by_cases hnonneg : 0 ≤ (ccmHeadOf c (ccmTableCount arith c sorted)).count.toInt
  · obtain ⟨m, p, hleads⟩ := leads_ccmReadGrouped h hversion c0 hnonneg
    obtain ⟨r1, hrun1, -, -⟩ := hleads r hr hcalm
    rw [hrun1] at hrun
    have hfew := (int16_count_le c.glyphs.length).1
    refine returns_ccmDecodeGroups hsorted (fun gr hgr => List.mem_of_mem_take hgr) ?_ hc0 _ _ _ _ hrun
    rw [hlen]
    exact hfew.trans_lt hmany
  · unfold ccmReadGrouped at hrun
    rw [check_bind_neg hnonneg] at hrun
    cases hrun

/-! ## Regions and glyphs -/

/-- The coordinates of the glyphs are those of corners of texels. -/
def Ccm.Aligned (arith : CcmArith) (c : Ccm) : Prop :=
  ∀ g ∈ c.glyphs, ∃ r : CcmRegion, g.uv1x = arith.toUv r.x1 c.texWidth ∧ g.uv1y = arith.toUv r.y1 c.texHeight ∧
    g.uv2x = arith.toUv r.x2 c.texWidth ∧ g.uv2y = arith.toUv r.y2 c.texHeight

/-- The region of a glyph in coordinates again. -/
theorem Ccm.Aligned.toUv (h : c.Aligned arith) (hwidth : c.texWidth ≠ 0) (hheight : c.texHeight ≠ 0) {g : CcmGlyph}
    (hg : g ∈ c.glyphs) :
    arith.toUv (ccmRegionOf arith c g).x1 c.texWidth = g.uv1x ∧
      arith.toUv (ccmRegionOf arith c g).y1 c.texHeight = g.uv1y ∧
      arith.toUv (ccmRegionOf arith c g).x2 c.texWidth = g.uv2x ∧
      arith.toUv (ccmRegionOf arith c g).y2 c.texHeight = g.uv2y := by
  obtain ⟨r, hx1, hy1, hx2, hy2⟩ := h g hg
  simp only [ccmRegionOf, hx1, hy1, hx2, hy2, arith.exact _ _ hwidth, arith.exact _ _ hheight, true_and]

/-- The regions where they stand in the file. -/
def ccmPlaced (unique : List CcmRegion) : List (Nat × CcmRegion) := (List.range' 32 unique.length 8).zip unique

theorem getElem?_ccmPlaced {unique : List CcmRegion} {i : Nat} {e : Nat × CcmRegion} :
    (ccmPlaced unique)[i]? = some e ↔ e.1 = ccmRegionOffset i ∧ unique[i]? = some e.2 := by
  rw [ccmPlaced, List.getElem?_zip_eq_some]
  constructor
  · rintro ⟨hoffset, hregion⟩
    rw [List.getElem?_range' (List.getElem?_eq_some_iff.1 hregion).1] at hoffset
    exact ⟨(Option.some.inj hoffset).symm, hregion⟩
  · rintro ⟨hoffset, hregion⟩
    rw [List.getElem?_range' (List.getElem?_eq_some_iff.1 hregion).1, hoffset]
    exact ⟨rfl, hregion⟩

/-- The region that a glyph names is found. -/
theorem find?_ccmPlaced {unique : List CcmRegion} (hfew : unique.length ≤ 32767) {i : Nat} {r : CcmRegion}
    (h : unique[i]? = some r) :
    (ccmPlaced unique).find? (fun e => decide ((e.1 : Int) = (Int32.ofNat (ccmRegionOffset i)).toInt)) =
      some (ccmRegionOffset i, r) := by
  have hlt := (List.getElem?_eq_some_iff.1 h).1
  have hoffset : (Int32.ofNat (ccmRegionOffset i)).toInt = ccmRegionOffset i :=
    int32_toInt_ofNat (by unfold ccmRegionOffset INT32_MAX; omega)
  obtain ⟨hilt, hi⟩ := List.getElem?_eq_some_iff.1 (getElem?_ccmPlaced.2 ⟨rfl, h⟩ :
    (ccmPlaced unique)[i]? = some (ccmRegionOffset i, r))
  rw [List.find?_eq_some_iff_getElem]
  refine ⟨by simpa using hoffset.symm, i, hilt, hi, fun j hj => ?_⟩
  have hplace := (getElem?_ccmPlaced.1 (List.getElem?_eq_getElem (hj.trans hilt))).1
  rw [hoffset, hplace]
  unfold ccmRegionOffset
  simp
  omega

theorem reads_ccmReadRegion {pos : Nat} {r : CcmRegion} (h : Holds B pos (ccmRegionBytes be r)) :
    Reads ccmReadRegion ⟨B, pos, be, false, [], flexible⟩ (pos, r) ⟨B, pos + 8, be, false, [], flexible⟩ := by
  simp only [ccmRegionBytes, holds_append, length_wordBytes] at h
  obtain ⟨hx1, hy1, hx2, hy2⟩ := h
  exact Reads.position (Reads.i16 hx1 (Reads.i16 hy1 (Reads.i16 hx2 (Reads.i16 hy2 (Reads.pure _ _)))))

theorem reads_ccmReadRegions {unique : List CcmRegion} (h : Holds B 32 (unique.flatMap (ccmRegionBytes be))) :
    Reads (readEach ccmReadRegion unique.length) ⟨B, 32, be, false, [], flexible⟩ (ccmPlaced unique)
      ⟨B, ccmRegionOffset unique.length, be, false, [], flexible⟩ := by
  have hread := @reads_readEach_at _ ccmReadRegion (fun i => ⟨B, ccmRegionOffset i, be, false, [], flexible⟩)
    (ccmPlaced unique) fun i e he => ?_
  · have hlen : (ccmPlaced unique).length = unique.length := by simp [ccmPlaced]
    rw [hlen] at hread
    exact hread
  · obtain ⟨offset, r⟩ := e
    obtain ⟨rfl, hr⟩ := getElem?_ccmPlaced.1 he
    have hheld := element_at (length_ccmRegionBytes be) h i r hr
    rw [Nat.mul_comm] at hheld
    exact reads_ccmReadRegion hheld

section

variable {head : CcmHead} {unique : List CcmRegion}

/-- A glyph is read as it was, if it is one of texels. -/
theorem reads_ccmReadEntry (hfew : unique.length ≤ 32767) (hwidth : head.texWidth ≠ 0) (hheight : head.texHeight ≠ 0)
    {pos i : Nat} {g : CcmGlyph} {r : CcmRegion} (hr : unique[i]? = some r)
    (huv : arith.toUv r.x1 head.texWidth = g.uv1x ∧ arith.toUv r.y1 head.texHeight = g.uv1y ∧
      arith.toUv r.x2 head.texWidth = g.uv2x ∧ arith.toUv r.y2 head.texHeight = g.uv2y)
    (h : Holds B pos (ccmEntryBytes be g (ccmRegionOffset i))) :
    Reads (ccmReadEntry arith head (ccmPlaced unique)) ⟨B, pos, be, false, [], flexible⟩ g
      ⟨B, pos + 24, be, false, [], flexible⟩ := by
  simp only [ccmEntryBytes, holds_append, length_wordBytes] at h
  obtain ⟨hcode, hoffset, htex, hpre, hw, hadv, hzero, hzero'⟩ := h
  obtain ⟨hx1, hy1, hx2, hy2⟩ := huv
  refine Reads.i32 hcode (Reads.i32 hoffset (Reads.i16 htex (Reads.i16 hpre (Reads.i16 hw (Reads.i16 hadv ?_)))))
  refine Reads.assertI32 hzero List.mem_cons_self (Reads.assertI32 hzero' List.mem_cons_self ?_)
  rw [find?_ccmPlaced hfew hr]
  refine Reads.check (by simp [hwidth, hheight]) ?_
  rw [hx1, hy1, hx2, hy2]
  exact Reads.pure _ _

/-- Glyphs with different codes are read one after another. -/
theorem reads_ccmReadEntries {glyphs : List CcmGlyph} {indices : List Nat} {c0 : Ccm} {pos : Nat}
    (hentry : ∀ p, ∀ e ∈ glyphs.zip indices, Holds B p (ccmEntryBytes be e.1 (ccmRegionOffset e.2)) →
      Reads (ccmReadEntry arith head (ccmPlaced unique)) ⟨B, p, be, false, [], flexible⟩ e.1
        ⟨B, p + 24, be, false, [], flexible⟩)
    (hlen : glyphs.length = indices.length)
    (h : Holds B pos ((glyphs.zip indices).flatMap fun e => ccmEntryBytes be e.1 (ccmRegionOffset e.2)))
    (hdistinct : ((c0.glyphs ++ glyphs).map CcmGlyph.code).Nodup) :
    ∃ c', Reads (ccmReadEntries arith head (ccmPlaced unique) c0 glyphs.length) ⟨B, pos, be, false, [], flexible⟩ c'
      ⟨B, pos + 24 * glyphs.length, be, false, [], flexible⟩ ∧ c'.glyphs = c0.glyphs ++ glyphs := by
  induction glyphs generalizing indices c0 pos with
  | nil => exact ⟨c0, Reads.pure _ _, (List.append_nil _).symm⟩
  | cons g glyphs ih =>
      cases indices with
      | nil => cases hlen
      | cons i indices =>
          rw [List.zip_cons_cons, List.flatMap_cons, holds_append, length_ccmEntryBytes] at h
          have hnew : ¬ c0.Has g.code := by
            rintro ⟨old, hold, hcode⟩
            rw [List.map_append, List.nodup_append] at hdistinct
            exact hdistinct.2.2 old.code (List.mem_map_of_mem hold) g.code List.mem_cons_self hcode
          obtain ⟨c1, hupsert, hglyphs1⟩ := yields_ccmUpsertGlyph hnew
          have hdistinct1 : ((c1.glyphs ++ glyphs).map CcmGlyph.code).Nodup := by
            rw [hglyphs1, List.append_assoc]
            exact hdistinct
          obtain ⟨c', hrest, hglyphs'⟩ := ih (fun p e he => hentry p e (List.mem_cons_of_mem _ he)) (Nat.succ.inj hlen) h.2
            hdistinct1
          refine ⟨c', ?_, by rw [hglyphs', hglyphs1, List.append_assoc, List.singleton_append]⟩
          rw [List.length_cons, Nat.mul_add, Nat.mul_one, Nat.add_comm _ 24, ← Nat.add_assoc]
          exact (hentry pos (g, i) List.mem_cons_self h.1).bind ((hupsert.reads _).bind hrest)

end

/-- **Few enough glyphs come back from regions, if the texture has a size.** -/
theorem reads_ccmReadRegioned (h : CcmImage arith c sorted B) (hversion : c.version = .darkSouls2)
    (hperm : sorted.Perm c.glyphs) (hdistinct : c.Distinct) (hfew : c.glyphs.length ≤ 32767)
    (haligned : c.Aligned arith) (hsize : c.glyphs = [] ∨ c.texWidth ≠ 0 ∧ c.texHeight ≠ 0) {c0 : Ccm}
    (hc0 : c0.glyphs = []) :
    ∃ c' p, Reads (ccmReadRegioned arith (ccmHeadOf c (ccmTableCount arith c sorted)) c0)
      ⟨B, 32, c.bigEndian, false, [], flexible⟩ c' ⟨B, p, c.bigEndian, false, [], flexible⟩ ∧ c'.glyphs = sorted := by
  have hlen : sorted.length = c.glyphs.length := hperm.length_eq
  obtain ⟨-, hunique, hregions⟩ := ccmUniqueRegions_spec arith c sorted []
  rw [List.length_nil, Nat.zero_add] at hunique
  have hcount : (ccmHeadOf c (ccmTableCount arith c sorted)).count.toInt = (ccmUniqueRegions arith c [] sorted).1.length := by
    rw [ccmHeadOf_count, ccmTableCount, if_pos hversion]
    exact int16_toInt_ofNat (by omega)
  have hglyphCount : (ccmHeadOf c (ccmTableCount arith c sorted)).glyphCount.toInt = sorted.length := by
    rw [ccmHeadOf_glyphCount, hlen]
    exact int16_toInt_ofNat hfew
  have hbody := h.body
  rw [ccmBody, if_pos hversion, holds_append, length_flatMap_const _ fun r _ => length_ccmRegionBytes _ r,
    Nat.mul_comm] at hbody
  obtain ⟨c1, hreserve, hglyphs1⟩ := yields_ccmReserveGlyphs c0 sorted.length
  have hcodes : (sorted.map CcmGlyph.code).Nodup := (hperm.map CcmGlyph.code).nodup_iff.2 hdistinct
  -- every glyph has its region under its index
  have hentry : ∀ p, ∀ e ∈ sorted.zip (ccmUniqueRegions arith c [] sorted).2,
      Holds B p (ccmEntryBytes c.bigEndian e.1 (ccmRegionOffset e.2)) →
      Reads (ccmReadEntry arith (ccmHeadOf c (ccmTableCount arith c sorted))
        (ccmPlaced (ccmUniqueRegions arith c [] sorted).1)) ⟨B, p, c.bigEndian, false, [], flexible⟩ e.1
        ⟨B, p + 24, c.bigEndian, false, [], flexible⟩ := by
    intro p e he hheld
    have hmem : e.1 ∈ c.glyphs := hperm.subset (List.of_mem_zip he).1
    have hnonzero := hsize.resolve_left (List.ne_nil_of_mem hmem)
    have hregion := List.forall₂_zip hregions he
    exact reads_ccmReadEntry (hunique.trans (by omega)) hnonzero.1 hnonzero.2 hregion
      (haligned.toUv hnonzero.1 hnonzero.2 hmem) hheld
  obtain ⟨c', hentries, hglyphs'⟩ := reads_ccmReadEntries hentry hregions.length_eq hbody.2
    (by rw [hglyphs1, hc0]; exact hcodes)
  refine ⟨c', 32 + 8 * (ccmUniqueRegions arith c [] sorted).1.length + 24 * sorted.length, ?_,
    by rw [hglyphs', hglyphs1, hc0, List.nil_append]⟩
  unfold ccmReadRegioned
  rw [hcount, hglyphCount, Int.toNat_natCast, Int.toNat_natCast]
  refine Reads.check (by omega) (Reads.room _ fun _ => ?_)
  exact (reads_ccmReadRegions hbody.1).bind ((hreserve.reads _).bind hentries)

/-- No more glyphs are read than the header says, and none without a size. -/
theorem returns_ccmReadEntries (head : CcmHead) (regions : List (Nat × CcmRegion)) (c0 : Ccm) (n : Nat) :
    Returns (ccmReadEntries arith head regions c0 n) fun c' => c'.glyphs.length ≤ c0.glyphs.length + n ∧
      (head.texWidth = 0 ∨ head.texHeight = 0 → n = 0) := by
  induction n generalizing c0 with
  | zero => exact Returns.pure ⟨Nat.le_refl _, fun _ => rfl⟩
  | succ n ih =>
      have hentry : Returns (ccmReadEntry arith head regions) fun _ => ¬ (head.texWidth = 0 ∨ head.texHeight = 0) := by
        refine Returns.after fun _ => Returns.after fun offset => Returns.after fun _ => Returns.after fun _ =>
          Returns.after fun _ => Returns.after fun _ => Returns.after fun _ => Returns.after fun _ => ?_
        cases regions.find? fun r => (r.1 : Int) = offset.toInt with
        | none => exact Returns.fail _
        | some r => exact Returns.check fun hsize => Returns.pure hsize
      have hupsert : ∀ g, Returns (ccmUpsertGlyph c0 g) fun c1 => c1.glyphs.length ≤ c0.glyphs.length + 1 :=
        fun g _ _ _ hrun => length_of_ccmUpsertGlyph hrun
      refine hentry.bind fun g hsize => (Returns.zoom (hupsert g)).bind fun c1 hc1 => (ih c1).mono fun c' hc' => ?_
      exact ⟨by omega, fun hzero => absurd hzero hsize⟩

theorem returns_ccmReadRegioned {head : CcmHead} {c0 : Ccm} (hc0 : c0.glyphs = []) :
    Returns (ccmReadRegioned arith head c0) fun c' => c'.glyphs.length ≤ head.glyphCount.toInt.toNat ∧
      (head.texWidth = 0 ∨ head.texHeight = 0 → head.glyphCount.toInt.toNat = 0) := by
  refine Returns.check fun _ => Returns.after fun _ => Returns.after fun regions => ?_
  have hreserve : Returns (ccmReserveGlyphs c0 head.glyphCount.toInt.toNat) fun c1 => c1.glyphs = [] :=
    fun _ _ _ hrun => (ccmReserveGlyphs_eq_ok hrun).trans hc0
  refine (Returns.zoom hreserve).bind fun c1 hc1 => (returns_ccmReadEntries _ _ _ _).mono fun c' hc' => ?_
  rw [hc1] at hc'
  exact ⟨by simpa using hc'.1, hc'.2⟩

end Reading

/-! ## Layouts that there are -/

/-- Layouts that are made, read or changed through the functions of `sf_ccm.h`. -/
inductive CcmBuilt (arith : CcmArith) : Ccm → Prop where
  | create {version : CcmVersion} {c : Ccm} {heap heap' : Heap} (h : ccmCreate version heap = (.ok c, heap')) :
      CcmBuilt arith c
  | read {flexible : Bool} {data : List UInt8} {c : Ccm} {heap heap' : Heap}
      (h : ccmReadFromMemory arith flexible data heap = (.ok c, heap')) : CcmBuilt arith c
  | setGlyph {c c' : Ccm} {g : CcmGlyph} {heap heap' : Heap} (hc : CcmBuilt arith c)
      (h : ccmUpsertGlyph c g heap = (.ok c', heap')) : CcmBuilt arith c'
  | setFields {c : Ccm} (hc : CcmBuilt arith c) (fullWidth texWidth texHeight unk0e : Int16)
      (unk1c unk1d texCount : UInt8) : CcmBuilt arith { c with
        fullWidth := fullWidth, texWidth := texWidth, texHeight := texHeight, unk0e := unk0e, unk1c := unk1c,
        unk1d := unk1d, texCount := texCount }

theorem returns_ccmUpsertGlyph {c : Ccm} (hc : c.Distinct) (g : CcmGlyph) : Returns (ccmUpsertGlyph c g) Ccm.Distinct :=
  fun _ _ _ hrun => distinct_of_ccmUpsertGlyph hrun hc

theorem returns_ccmReserveGlyphs {c : Ccm} (hc : c.Distinct) (need : Nat) :
    Returns (ccmReserveGlyphs c need) Ccm.Distinct := by
  intro _ _ _ hrun
  rw [Ccm.Distinct, ccmReserveGlyphs_eq_ok hrun]
  exact hc

theorem returns_ccmDecodeCodes (raw : List CcmGlyph) (code index : Int) {c : Ccm} (hc : c.Distinct) (n : Nat) :
    Returns (ccmDecodeCodes raw code index c n) Ccm.Distinct := by
  induction n generalizing code index c with
  | zero => exact Returns.pure hc
  | succ n ih => exact Returns.after fun g => (returns_ccmUpsertGlyph hc _).bind fun c1 hc1 => ih _ _ hc1

theorem distinct_of_ccmDecodeGroups (raw : List CcmGlyph) {c : Ccm} (hc : c.Distinct) (groups : List CcmCodeGroup) :
    Returns (ccmDecodeGroups raw c groups) Ccm.Distinct := by
  induction groups generalizing c with
  | nil => exact Returns.pure hc
  | cons gr groups ih =>
      exact Returns.after fun count => (returns_ccmDecodeCodes _ _ _ hc _).bind fun c1 hc1 => ih hc1

section

open BinaryReader

variable {arith : CcmArith} {c : Ccm}

theorem distinct_of_ccmReadEntries (head : CcmHead) (regions : List (Nat × CcmRegion)) (hc : c.Distinct) (n : Nat) :
    Returns (ccmReadEntries arith head regions c n) Ccm.Distinct := by
  induction n generalizing c with
  | zero => exact Returns.pure hc
  | succ n ih => exact Returns.after fun g => (Returns.zoom (returns_ccmUpsertGlyph hc g)).bind fun c1 hc1 => ih hc1

theorem distinct_of_ccmReadRegioned (head : CcmHead) (hc : c.Distinct) :
    Returns (ccmReadRegioned arith head c) Ccm.Distinct := by
  refine Returns.check fun _ => Returns.after fun _ => Returns.after fun regions => ?_
  exact (Returns.zoom (returns_ccmReserveGlyphs hc _)).bind fun c1 hc1 => distinct_of_ccmReadEntries head regions hc1 _

theorem distinct_of_ccmReadGrouped (head : CcmHead) (hc : c.Distinct) :
    Returns (ccmReadGrouped head c) Ccm.Distinct := by
  refine Returns.check fun _ => Returns.after fun _ => Returns.after fun groups => Returns.after fun _ =>
    Returns.after fun raw => ?_
  exact (Returns.zoom (returns_ccmReserveGlyphs hc _)).bind fun c1 hc1 =>
    Returns.zoom (distinct_of_ccmDecodeGroups raw hc1 groups)

/-- No code is there twice in what is read. -/
theorem returns_ccmRead : Returns (ccmRead arith) Ccm.Distinct := by
  have hcreate : ∀ version, Returns (ccmCreate version) fun c => c.glyphs = [] :=
    fun version => Returns.after fun _ => Returns.pure rfl
  refine Returns.after fun head => (Returns.zoom (hcreate head.version)).bind fun c hc => Returns.check fun _ => ?_
  have hdistinct : ∀ c0 : Ccm, c0.glyphs = c.glyphs → c0.Distinct := by
    intro c0 hc0
    rw [Ccm.Distinct, hc0, hc]
    exact List.nodup_nil
  refine Returns.ite (fun _ => ?_) fun _ => ?_
  · exact distinct_of_ccmReadRegioned head (hdistinct _ rfl)
  · exact distinct_of_ccmReadGrouped head (hdistinct _ rfl)

theorem CcmBuilt.distinct (h : CcmBuilt arith c) : c.Distinct := by
  induction h with
  | create h =>
      obtain ⟨_, _, -, hpure⟩ := bind_eq_ok.1 h
      cases hpure
      exact List.nodup_nil
  | @read flexible data c heap heap' h =>
      obtain ⟨_, _, hrun, -⟩ := BinaryReader.onMemory_eq_ok (congrArg Prod.fst h)
      exact returns_ccmRead _ _ _ hrun
  | setGlyph _ h ih => exact distinct_of_ccmUpsertGlyph h ih
  | setFields _ _ _ _ _ _ _ _ ih => exact ih

end

/-! ## The round trip -/

section

variable {arith : CcmArith} {c : Ccm} {sorted : List CcmGlyph} {flexible : Bool} {out : List UInt8}

theorem ccmGlyphCmp_le_iff (a b : CcmGlyph) : ccmGlyphCmp a b ≤ 0 ↔ a.code.toInt ≤ b.code.toInt := by
  unfold ccmGlyphCmp
  split
  · omega
  · split <;> omega

theorem ascending_sort (qs : Qsort) (hdistinct : c.Distinct) : CcmGlyph.Ascending (qs.sort ccmGlyphCmp c.glyphs) := by
  have hcodes : ((qs.sort ccmGlyphCmp c.glyphs).map CcmGlyph.code).Nodup :=
    ((qs.perm ccmGlyphCmp c.glyphs).map CcmGlyph.code).nodup_iff.2 hdistinct
  have hle := qs.sorted ccmGlyphCmp (fun g => g.code.toInt) ccmGlyphCmp_le_iff c.glyphs
  refine (hle.and (List.pairwise_map.1 hcodes)).imp fun h => ?_
  exact lt_of_le_of_ne h.1 fun heq => h.2 (Int32.toInt_inj.1 heq)

/-- **Of more than 32767 glyphs one does not come back.** -/
theorem ccm_loses (himage : CcmImage arith c sorted out) (hsorted : CcmGlyph.Ascending sorted) (hperm : sorted.Perm c.glyphs)
    (hmany : 32767 < c.glyphs.length) {heap : Heap} (hcalm : heap.Calm) {c' : Ccm}
    (hread : (ccmReadFromMemory arith flexible out heap).1 = .ok c') : ∃ g ∈ c.glyphs, ¬ c'.Has g.code := by
  by_cases hcount : 0 ≤ (Int16.ofNat c.glyphs.length).toInt
  · obtain ⟨heap1, r1, hrun, hcalm1⟩ := BinaryReader.onMemory_eq_ok hread
    obtain ⟨c0, hc0, hleads⟩ := @leads_ccmRead _ _ _ _ flexible himage hcount
    obtain ⟨r2, hrun2, hr2, hcalm2⟩ := hleads (BinaryReader.create out false flexible heap1) rfl (hcalm1 hcalm)
    rw [hrun2] at hrun
    by_cases hversion : c.version = .darkSouls2
    · rw [if_pos hversion] at hrun
      have hfew := (returns_ccmReadRegioned hc0 _ _ _ hrun).1
      have hle := (int16_count_le c.glyphs.length).1
      rw [ccmHeadOf_glyphCount] at hfew
      -- the codes are too many for the glyphs that have been read
      by_contra hall
      push Not at hall
      have hsubset : sorted.map CcmGlyph.code ⊆ c'.glyphs.map CcmGlyph.code := by
        intro code hcode
        obtain ⟨g, hg, rfl⟩ := List.mem_map.1 hcode
        obtain ⟨u, hu, hsame⟩ := hall g (hperm.subset hg)
        exact List.mem_map.2 ⟨u, hu, hsame⟩
      have hnodup : (sorted.map CcmGlyph.code).Nodup := List.pairwise_map.2 (hsorted.imp fun hlt heq => by
        rw [heq] at hlt
        exact Int.lt_irrefl _ hlt)
      have hlen := (List.subperm_of_subset hnodup hsubset).length_le
      rw [List.length_map, List.length_map, hperm.length_eq] at hlen
      omega
    · rw [if_neg hversion] at hrun
      obtain ⟨g, hg, hmiss⟩ := misses_ccmReadGrouped himage hversion hperm.length_eq hsorted hmany hc0 hr2 hcalm2 hrun
      exact ⟨g, hperm.subset hg, hmiss⟩
  · exact absurd hread (BinaryReader.onMemory_refuses (refuses_ccmRead himage (Int.not_le.1 hcount)) hcalm c')

/-- **A layout comes back exactly if its counts fit and, where regions are stored, the texture has a size.** -/
theorem ccm_comesBack_iff (qs : Qsort) (hbuilt : CcmBuilt arith c) (haligned : c.version = .darkSouls2 → c.Aligned arith)
    {heap heap' : Heap} (hwrite : (ccmWriteToMemory arith qs c heap).1 = .ok out) (hcalm : heap'.Calm) :
    (∃ c', (ccmReadFromMemory arith flexible out heap').1 = .ok c' ∧
      ∀ code, ccmFindGlyph c' code = ccmFindGlyph c code) ↔
    c.glyphs.length ≤ 32767 ∧ (c.version = .darkSouls2 → c.glyphs = [] ∨ c.texWidth ≠ 0 ∧ c.texHeight ≠ 0) := by
  have hperm := qs.perm ccmGlyphCmp c.glyphs
  have hdistinct := hbuilt.distinct
  obtain ⟨_, -, himage, -⟩ := (puts_ccmWrite qs c).toMemory nofun hwrite
  constructor
  · rintro ⟨c', hread, hfind⟩
    have hfew : c.glyphs.length ≤ 32767 := by
      by_contra hmany
      obtain ⟨g, hg, hmiss⟩ := ccm_loses himage (ascending_sort qs hdistinct) hperm (by omega) hcalm hread
      rw [has_iff_ccmFindGlyph, hfind, ← has_iff_ccmFindGlyph] at hmiss
      exact hmiss ⟨g, hg, rfl⟩
    refine ⟨hfew, fun hversion => ?_⟩
    by_contra hsize
    push Not at hsize
    obtain ⟨hsome, hzero⟩ := hsize
    have hcount := int16_toInt_ofNat hfew
    obtain ⟨heap1, r1, hrun, hcalm1⟩ := BinaryReader.onMemory_eq_ok hread
    obtain ⟨c0, hc0, hleads⟩ := @leads_ccmRead _ _ _ _ flexible himage (by omega)
    obtain ⟨r2, hrun2, -, -⟩ := hleads (BinaryReader.create out false flexible heap1) rfl (hcalm1 hcalm)
    rw [hrun2, if_pos hversion] at hrun
    have hnone := (returns_ccmReadRegioned hc0 _ _ _ hrun).2
      (or_iff_not_imp_left.2 fun hwidth => hzero hwidth)
    rw [ccmHeadOf_glyphCount, hcount, Int.toNat_natCast] at hnone
    exact hsome (List.length_eq_zero_iff.1 hnone)
  · rintro ⟨hfew, hsize⟩
    have hcount := int16_toInt_ofNat hfew
    obtain ⟨c0, hc0, hleads⟩ := @leads_ccmRead _ _ _ _ flexible himage (by omega)
    obtain ⟨c', p, hreads, hglyphs⟩ : ∃ c' p, BinaryReader.Reads (ccmRead arith) ⟨out, 0, false, false, [], flexible⟩ c'
        ⟨out, p, c.bigEndian, false, [], flexible⟩ ∧ c'.glyphs = qs.sort ccmGlyphCmp c.glyphs := by
      by_cases hversion : c.version = .darkSouls2
      · rw [if_pos hversion] at hleads
        obtain ⟨c', p, hreads, hglyphs⟩ := reads_ccmReadRegioned himage hversion hperm hdistinct hfew (haligned hversion)
          (hsize hversion) hc0
        exact ⟨c', p, hleads.reads hreads, hglyphs⟩
      · rw [if_neg hversion] at hleads
        obtain ⟨c', p, hreads, hglyphs⟩ := reads_ccmReadGrouped himage hversion hperm hdistinct hfew hc0
        exact ⟨c', p, hleads.reads hreads, hglyphs⟩
    obtain ⟨heap1, hrun, -⟩ := BinaryReader.onMemory_ok hreads hcalm
    refine ⟨c', congrArg Prod.fst hrun, fun code => ccmFindGlyph_perm hdistinct ?_ code⟩
    rw [hglyphs]
    exact hperm

end

/-- Coordinates of textures that are as large as a texel. -/
def ccmWholeTexels : CcmArith where
  toUv x _ := x.toUInt16.toUInt32
  toTexel v _ := v.toUInt16.toInt16
  exact := by
    intro x _ _
    simp

def ccmSampleGlyph (code : Int32) : CcmGlyph := ⟨code, 3, 4, 11, 20, 1, 8, 9, 0⟩

/-- A layout with regions: two glyphs share one. -/
def ccmSample : Ccm :=
  ⟨.darkSouls2, 0, 256, 128, 0, 0, 0, 1, [ccmSampleGlyph 66, { ccmSampleGlyph 48 with uv1x := 30, uv2x := 38 }, ccmSampleGlyph 65],
    16⟩

theorem ccmSample_built : CcmBuilt ccmWholeTexels ccmSample :=
  @CcmBuilt.setGlyph _ _ _ (ccmSampleGlyph 65) [] []
    (@CcmBuilt.setGlyph _ _ _ { ccmSampleGlyph 48 with uv1x := 30, uv2x := 38 } [] []
      (@CcmBuilt.setGlyph _ _ _ (ccmSampleGlyph 66) [] []
        (.setFields (@CcmBuilt.create _ .darkSouls2 _ [] [] rfl) 0 256 128 0 0 0 1) rfl) rfl) rfl

theorem ccmSample_aligned : ccmSample.Aligned ccmWholeTexels := by
  intro g hg
  simp only [ccmSample, List.mem_cons, List.not_mem_nil, or_false] at hg
  rcases hg with rfl | rfl | rfl
  · exact ⟨⟨3, 4, 11, 20⟩, by decide, by decide, by decide, by decide⟩
  · exact ⟨⟨30, 4, 38, 20⟩, by decide, by decide, by decide, by decide⟩
  · exact ⟨⟨3, 4, 11, 20⟩, by decide, by decide, by decide, by decide⟩

theorem ccmSample_comes_back :
    ∃ out, (ccmWriteToMemory ccmWholeTexels Qsort.insertion ccmSample []).1 = .ok out ∧
      ∃ c', (ccmReadFromMemory ccmWholeTexels false out []).1 = .ok c' ∧
        ∀ code, ccmFindGlyph c' code = ccmFindGlyph ccmSample code := by
  have hok : (ccmWriteToMemory ccmWholeTexels Qsort.insertion ccmSample []).1.isOk = true := by decide +kernel
  cases hwrite : (ccmWriteToMemory ccmWholeTexels Qsort.insertion ccmSample []).1 with
  | error e => cases hwrite ▸ hok
  | ok out =>
      exact ⟨out, rfl, (ccm_comesBack_iff Qsort.insertion ccmSample_built (fun _ => ccmSample_aligned) hwrite
        Heap.calm_nil).2 (by decide)⟩

/-! ## Many glyphs -/

section

open BinaryWriter

theorem version_of_ccmUpsertGlyph {c c' : Ccm} {g : CcmGlyph} {heap heap' : Heap}
    (h : ccmUpsertGlyph c g heap = (.ok c', heap')) : c'.version = c.version := by
  unfold ccmUpsertGlyph at h
  split at h
  · cases h
    rfl
  · obtain ⟨c1, heap1, hreserve, hpure⟩ := bind_eq_ok.1 h
    cases hpure
    unfold ccmReserveGlyphs at hreserve
    split at hreserve
    · cases hreserve
      rfl
    · obtain ⟨_, _, -, hpure⟩ := bind_eq_ok.1 hreserve
      cases hpure
      rfl

/-- Any glyphs with different codes are those of some layout. -/
theorem exists_ccmBuilt (arith : CcmArith) (version : CcmVersion) (glyphs : List CcmGlyph)
    (hdistinct : (glyphs.map CcmGlyph.code).Nodup) :
    ∃ c, CcmBuilt arith c ∧ c.version = version ∧ c.glyphs = glyphs := by
  induction glyphs using List.reverseRecOn with
  | nil => exact ⟨_, @CcmBuilt.create _ version _ [] [] rfl, rfl, rfl⟩
  | append_singleton glyphs g ih =>
      rw [List.map_append, List.nodup_append] at hdistinct
      obtain ⟨c, hbuilt, hversion, hglyphs⟩ := ih hdistinct.1
      have hnew : ¬ c.Has g.code := by
        rintro ⟨old, hold, hcode⟩
        rw [hglyphs] at hold
        exact hdistinct.2.2 old.code (List.mem_map_of_mem hold) g.code List.mem_cons_self hcode
      obtain ⟨c', hupsert, hglyphs'⟩ := yields_ccmUpsertGlyph hnew
      obtain ⟨heap', hrun, -⟩ := hupsert [] Heap.calm_nil
      exact ⟨c', .setGlyph hbuilt hrun, (version_of_ccmUpsertGlyph hrun).trans hversion, by rw [hglyphs', hglyphs]⟩

variable {S : FileSlots (CcmSlot × Option Nat)} {be : Bool} {arith : CcmArith}

theorem delivers_ccmWriteGroup (gr : CcmCodeGroup) :
    Delivers S be false (ccmWriteGroup gr) (ccmGroupBytes be gr) :=
  (delivers_i32 _).then ((delivers_i32 _).then (delivers_i32 _))

theorem delivers_ccmWriteGlyph (g : CcmGlyph) : Delivers S be false (ccmWriteGlyph g) (ccmGlyphBytes be g) :=
  (delivers_f32 _).then ((delivers_f32 _).then ((delivers_f32 _).then ((delivers_f32 _).then
    ((delivers_scalar .i16 _).then ((delivers_scalar .i16 _).then ((delivers_scalar .i16 _).then
      (delivers_scalar .i16 _)))))))

/-- A layout with groups can be written, even one whose counts do not fit. -/
theorem makes_ccmWrite (qs : Qsort) {c : Ccm} (hversion : c.version = .darkSouls1) (hsize : c.glyphs.length ≤ 2 ^ 24) :
    Makes ccmSlots (ccmWrite arith qs c) ⟨0, false, false⟩ ∅ (fun _ _ live => live = ∅) fun _ _ _ => True := by
  have hlen : (qs.sort ccmGlyphCmp c.glyphs).length = c.glyphs.length := (qs.perm _ _).length_eq
  have hgroups := length_ccmGroups_le (qs.sort ccmGlyphCmp c.glyphs)
  have hgroupBytes : ((ccmGroups (qs.sort ccmGlyphCmp c.glyphs)).flatMap (ccmGroupBytes false)).length =
      (ccmGroups (qs.sort ccmGlyphCmp c.glyphs)).length * 12 :=
    length_flatMap_const _ fun gr _ => length_ccmGroupBytes false gr
  have hglyphBytes : ((qs.sort ccmGlyphCmp c.glyphs).flatMap (ccmGlyphBytes false)).length =
      (qs.sort ccmGlyphCmp c.glyphs).length * 24 :=
    length_flatMap_const _ fun g _ => length_ccmGlyphBytes false g
  have hroom : fileRoom = 2 ^ 40 := rfl
  have hwidth : kindWidth (scalarKind false .i16) = 2 := rfl
  have hbig : given (decide (CcmVersion.darkSouls1 = .demonsSouls)) () (setBigEndian true) = (pure () : WriteM Unit) := rfl
  unfold ccmWrite ccmWriteCounts
  simp only [hversion, hbig, pure_bind]
  refine Makes.u32 (by decide) (Makes.reserveI32 (.fileSize, none) rfl rfl (by simp) (by decide) ?_)
  refine Makes.i16 (by decide) (Makes.i16 (by decide) (Makes.i16 (by decide) ?_))
  simp only [bind_assoc]
  refine Makes.i16 (by decide) (Makes.reserve (k := .i16) (.codeGroupCount, none) rfl rfl (by simp) (by decide) ?_)
  refine Makes.i16 (by decide) (Makes.i32 (by decide) ?_)
  refine Makes.reserveI32 (.glyphOffset, none) rfl rfl (by simp) (by decide) ?_
  refine Makes.u8 (by decide) (Makes.u8 (by decide) (Makes.u8 (by decide) (Makes.u8 (by decide) ?_)))
  refine Makes.room _ fun _ => ?_
  rw [if_neg (by decide)]
  unfold ccmWriteGrouped
  simp only [bind_assoc]
  refine Makes.room _ fun _ => Makes.fill (k := .i16) (.codeGroupCount, none) rfl (by simp) ?_
  refine Makes.piece (delivers_each _ fun gr _ => delivers_ccmWriteGroup gr) (by rw [hgroupBytes]; omega) ?_
  rw [hgroupBytes]
  refine Makes.position (Makes.fillI32 (.glyphOffset, none) rfl (by simp) ?_)
  refine Makes.piece (delivers_each _ fun g _ => delivers_ccmWriteGlyph g) (by rw [hglyphBytes]; omega) ?_
  rw [hglyphBytes]
  refine Makes.position (Makes.last (Makes.fillI32 (.fileSize, none) rfl (by simp) (Makes.done ?_ ?_)))
  · refine Set.eq_empty_of_forall_notMem fun s hs => ?_
    simp only [Set.mem_sdiff, Set.mem_insert_iff, Set.mem_singleton_iff, Set.mem_empty_iff_false, or_false] at hs
    tauto
  · intros
    trivial

/-- The file of a layout with groups, if it can be written. -/
theorem exists_ccmFile (qs : Qsort) {c : Ccm} (hversion : c.version = .darkSouls1) (hsize : c.glyphs.length ≤ 2 ^ 24) :
    ∃ out, (ccmWriteToMemory arith qs c []).1 = .ok out := by
  obtain ⟨out, _, hrun, -⟩ :=
    (@makes_ccmWrite arith qs c hversion hsize).toMemory (fun _ _ hlive => hlive) Heap.calm_nil
  exact ⟨out, hrun⟩

end

def ccmBlankGlyph (i : Nat) : CcmGlyph := ⟨Int32.ofNat i, 0, 0, 0, 0, 0, 0, 0, 0⟩

theorem nodup_ccmBlankGlyphs {n : Nat} (hn : n ≤ INT32_MAX) :
    (((List.range n).map ccmBlankGlyph).map CcmGlyph.code).Nodup := by
  rw [List.map_map, List.nodup_map_iff_inj_on List.nodup_range]
  intro i hi j hj heq
  rw [List.mem_range] at hi hj
  have hsame : (Int32.ofNat i).toInt = (Int32.ofNat j).toInt := congrArg Int32.toInt heq
  rw [BinaryReader.int32_toInt_ofNat (by omega), BinaryReader.int32_toInt_ofNat (by omega)] at hsame
  omega

/-- A layout with 32768 glyphs, of which not all come back. -/
theorem ccm_32768_lost : ∃ c, CcmBuilt ccmWholeTexels c ∧ c.version = .darkSouls1 ∧
    c.glyphs = (List.range 32768).map ccmBlankGlyph ∧
    ∃ out, (ccmWriteToMemory ccmWholeTexels Qsort.insertion c []).1 = .ok out ∧
      ¬ ∃ c', (ccmReadFromMemory ccmWholeTexels false out []).1 = .ok c' ∧
        ∀ code, ccmFindGlyph c' code = ccmFindGlyph c code := by
  obtain ⟨c, hbuilt, hversion, hglyphs⟩ := exists_ccmBuilt ccmWholeTexels .darkSouls1 _
    (nodup_ccmBlankGlyphs (show 32768 ≤ INT32_MAX by decide))
  have hlen : c.glyphs.length = 32768 := by rw [hglyphs, List.length_map, List.length_range]
  obtain ⟨out, hwrite⟩ := @exists_ccmFile ccmWholeTexels Qsort.insertion c hversion (by rw [hlen]; decide)
  refine ⟨c, hbuilt, hversion, hglyphs, out, hwrite, ?_⟩
  rintro ⟨c', hread, hfind⟩
  obtain ⟨_, -, himage, -⟩ := (puts_ccmWrite Qsort.insertion c).toMemory nofun hwrite
  obtain ⟨g, hg, hmiss⟩ := ccm_loses himage (ascending_sort _ hbuilt.distinct) (Qsort.insertion.perm _ _) (by omega)
    Heap.calm_nil hread
  rw [has_iff_ccmFindGlyph, hfind, ← has_iff_ccmFindGlyph] at hmiss
  exact hmiss ⟨g, hg, rfl⟩

end SoulsFormats
