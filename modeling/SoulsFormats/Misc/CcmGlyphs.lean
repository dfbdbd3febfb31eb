import Mathlib.Data.List.Nodup
import SoulsFormats.Library.Returns
import SoulsFormats.Core.ReaderSpec
import SoulsFormats.Misc.Ccm

set_option autoImplicit false

/-! # The glyphs of a layout

No two glyphs of a layout have the same code. The groups that the writer makes of sorted glyphs are taken apart again
into the same glyphs, and a group only gives codes whose glyphs are there. -/

namespace SoulsFormats

open Bytes Fallible BinaryReader

/-! ## Setting a glyph -/

/-- The layout has a glyph with this code. -/
def Ccm.Has (c : Ccm) (code : Int32) : Prop := ∃ g ∈ c.glyphs, g.code = code

/-- No code is there twice. -/
def Ccm.Distinct (c : Ccm) : Prop := (c.glyphs.map CcmGlyph.code).Nodup

theorem map_code_ccmReplace (g : CcmGlyph) (glyphs : List CcmGlyph) :
    (ccmReplace g glyphs).map CcmGlyph.code = glyphs.map CcmGlyph.code := by
  induction glyphs with
  | nil => rfl
  | cons old glyphs ih =>
      rw [ccmReplace]
      split
      · next hcode => rw [List.map_cons, List.map_cons, hcode]
      · rw [List.map_cons, List.map_cons, ih]

theorem ccmReserveGlyphs_eq_ok {c c' : Ccm} {need : Nat} {heap heap' : Heap}
    (h : ccmReserveGlyphs c need heap = (.ok c', heap')) : c'.glyphs = c.glyphs := by
  unfold ccmReserveGlyphs at h
  split at h
  · cases h
    rfl
  · obtain ⟨junk, heap1, -, hpure⟩ := bind_eq_ok.1 h
    cases hpure
    rfl

/-- A glyph takes the place of one with its code, or comes last. -/
theorem ccmUpsertGlyph_eq_ok {c c' : Ccm} {g : CcmGlyph} {heap heap' : Heap}
    (h : ccmUpsertGlyph c g heap = (.ok c', heap')) :
    c.Has g.code ∧ c'.glyphs = ccmReplace g c.glyphs ∨ ¬ c.Has g.code ∧ c'.glyphs = c.glyphs ++ [g] := by
  unfold ccmUpsertGlyph at h
  split at h
  · next hhas =>
      cases h
      exact .inl ⟨hhas, rfl⟩
  · next hnew =>
      obtain ⟨c1, heap1, hreserve, hpure⟩ := bind_eq_ok.1 h
      cases hpure
      exact .inr ⟨hnew, by rw [ccmReserveGlyphs_eq_ok hreserve]⟩

theorem has_of_ccmUpsertGlyph {c c' : Ccm} {g : CcmGlyph} {heap heap' : Heap}
    (h : ccmUpsertGlyph c g heap = (.ok c', heap')) {code : Int32} (hhas : c'.Has code) :
    code = g.code ∨ c.Has code := by
  have hcodes : ∀ glyphs : List CcmGlyph, (∃ u ∈ glyphs, u.code = code) ↔ code ∈ glyphs.map CcmGlyph.code := by
    intro glyphs
    rw [List.mem_map]
  rw [Ccm.Has, hcodes] at hhas ⊢
  obtain ⟨-, heq⟩ | ⟨-, heq⟩ := ccmUpsertGlyph_eq_ok h
  · rw [heq, map_code_ccmReplace] at hhas
    exact .inr hhas
  · rw [heq, List.map_append, List.mem_append] at hhas
    rcases hhas with hold | hnew
    · exact .inr hold
    · exact .inl (List.mem_singleton.1 hnew)

theorem distinct_of_ccmUpsertGlyph {c c' : Ccm} {g : CcmGlyph} {heap heap' : Heap}
    (h : ccmUpsertGlyph c g heap = (.ok c', heap')) (hc : c.Distinct) : c'.Distinct := by
  unfold Ccm.Distinct at hc ⊢
  obtain ⟨-, heq⟩ | ⟨hnew, heq⟩ := ccmUpsertGlyph_eq_ok h
  · rw [heq, map_code_ccmReplace]
    exact hc
  · rw [heq, List.map_append, List.nodup_append]
    refine ⟨hc, List.nodup_singleton _, fun code hcode other hother => ?_⟩
    rintro rfl
    obtain ⟨old, hold, hsame⟩ := List.mem_map.1 hcode
    exact hnew ⟨old, hold, hsame.trans (List.mem_singleton.1 hother)⟩

theorem length_ccmReplace (g : CcmGlyph) (glyphs : List CcmGlyph) :
    (ccmReplace g glyphs).length = glyphs.length := by
  have h := congrArg List.length (map_code_ccmReplace g glyphs)
  simpa using h

theorem length_of_ccmUpsertGlyph {c c' : Ccm} {g : CcmGlyph} {heap heap' : Heap}
    (h : ccmUpsertGlyph c g heap = (.ok c', heap')) : c'.glyphs.length ≤ c.glyphs.length + 1 := by
  obtain ⟨-, heq⟩ | ⟨-, heq⟩ := ccmUpsertGlyph_eq_ok h
  · rw [heq, length_ccmReplace]
    omega
  · rw [heq, List.length_append]
    rfl

theorem yields_ccmReserveGlyphs (c : Ccm) (need : Nat) :
    ∃ c', Yields (ccmReserveGlyphs c need) c' ∧ c'.glyphs = c.glyphs := by
  unfold ccmReserveGlyphs
  split
  · exact ⟨c, Yields.pure c, rfl⟩
  · exact ⟨_, (Yields.pure _).alloc, rfl⟩

/-- A glyph with a new code comes last. -/
theorem yields_ccmUpsertGlyph {c : Ccm} {g : CcmGlyph} (hnew : ¬ c.Has g.code) :
    ∃ c', Yields (ccmUpsertGlyph c g) c' ∧ c'.glyphs = c.glyphs ++ [g] := by
  obtain ⟨c1, hreserve, hglyphs⟩ := yields_ccmReserveGlyphs c (c.glyphs.length + 1)
  have hnone : ¬ ∃ old ∈ c.glyphs, old.code = g.code := hnew
  unfold ccmUpsertGlyph
  rw [if_neg hnone]
  exact ⟨_, hreserve.bind (Yields.pure _), by rw [hglyphs]⟩

/-! ## Finding a glyph -/

theorem find?_code_eq_some {glyphs : List CcmGlyph} (hdistinct : (glyphs.map CcmGlyph.code).Nodup) {code : Int32}
    {g : CcmGlyph} : (glyphs.find? fun u => decide (u.code = code)) = some g ↔ g ∈ glyphs ∧ g.code = code := by
  induction glyphs with
  | nil => simp
  | cons u glyphs ih =>
      rw [List.map_cons, List.nodup_cons] at hdistinct
      obtain ⟨hfirst, hrest⟩ := hdistinct
      by_cases hu : u.code = code
      · rw [List.find?_cons_of_pos (by simpa using hu), Option.some.injEq, List.mem_cons]
        constructor
        · rintro rfl
          exact ⟨.inl rfl, hu⟩
        · rintro ⟨rfl | hmem, hcode⟩
          · rfl
          · exact absurd (List.mem_map.2 ⟨g, hmem, hcode.trans hu.symm⟩) hfirst
      · rw [List.find?_cons_of_neg (by simpa using hu), ih hrest, List.mem_cons]
        constructor
        · rintro ⟨hmem, hcode⟩
          exact ⟨.inr hmem, hcode⟩
        · rintro ⟨rfl | hmem, hcode⟩
          · exact absurd hcode hu
          · exact ⟨hmem, hcode⟩

/-- What is found does not depend on the order of the glyphs. -/
theorem ccmFindGlyph_perm {c c' : Ccm} (hdistinct : c.Distinct) (hperm : c'.glyphs.Perm c.glyphs) (code : Int32) :
    ccmFindGlyph c' code = ccmFindGlyph c code := by
  have hdistinct' : (c'.glyphs.map CcmGlyph.code).Nodup := (hperm.map CcmGlyph.code).nodup_iff.2 hdistinct
  unfold ccmFindGlyph
  apply Option.ext
  intro g
  simp only [find?_code_eq_some hdistinct', find?_code_eq_some hdistinct, hperm.mem_iff]

theorem has_iff_ccmFindGlyph {c : Ccm} {code : Int32} : c.Has code ↔ (ccmFindGlyph c code).isSome = true := by
  rw [ccmFindGlyph, List.find?_isSome]
  simp [Ccm.Has]

/-! ## Taking groups apart -/

/-- A glyph as it is stored in a file with groups. -/
def CcmGlyph.raw (g : CcmGlyph) : CcmGlyph := { g with code := 0 }

/-- Glyphs with consecutive codes. -/
def Consecutive (start : Int) (seg : List CcmGlyph) : Prop :=
  ∀ (k : Nat) (g : CcmGlyph), seg[k]? = some g → g.code.toInt = start + k

/-- The raw glyphs from `first` on are these. -/
def StoredAt (raw : List CcmGlyph) (first : Nat) (seg : List CcmGlyph) : Prop :=
  ∀ (k : Nat) (g : CcmGlyph), seg[k]? = some g → raw[first + k]? = some g.raw

theorem consecutive_singleton (g : CcmGlyph) : Consecutive g.code.toInt [g] := by
  intro k u hu
  cases k with
  | zero =>
      cases hu
      simp
  | succ k => cases hu

theorem Consecutive.tail {start : Int} {g : CcmGlyph} {seg : List CcmGlyph} (h : Consecutive start (g :: seg)) :
    Consecutive (start + 1) seg := by
  intro k u hu
  have hcode := h (k + 1) u hu
  push_cast at hcode
  omega

theorem StoredAt.tail {raw : List CcmGlyph} {first : Nat} {g : CcmGlyph} {seg : List CcmGlyph}
    (h : StoredAt raw first (g :: seg)) : StoredAt raw (first + 1) seg := by
  intro k u hu
  have hstored := h (k + 1) u hu
  rwa [← Nat.add_assoc, Nat.add_right_comm] at hstored

theorem StoredAt.append {raw : List CcmGlyph} {first : Nat} {seg rest : List CcmGlyph} :
    StoredAt raw first (seg ++ rest) ↔ StoredAt raw first seg ∧ StoredAt raw (first + seg.length) rest := by
  constructor
  · intro h
    constructor
    · intro k g hg
      exact h k g (List.getElem?_append_left (List.getElem?_eq_some_iff.1 hg).1 ▸ hg)
    · intro k g hg
      have hnext := h (seg.length + k) g (by rwa [List.getElem?_append_right (by omega), Nat.add_sub_cancel_left])
      rwa [← Nat.add_assoc] at hnext
  · rintro ⟨hseg, hrest⟩ k g hg
    by_cases hk : k < seg.length
    · rw [List.getElem?_append_left hk] at hg
      exact hseg k g hg
    · rw [List.getElem?_append_right (by omega)] at hg
      have hnext := hrest (k - seg.length) g hg
      rwa [Nat.add_assoc, Nat.add_sub_cancel' (by omega)] at hnext

theorem yields_ccmRawGlyph {raw : List CcmGlyph} {index : Nat} {g : CcmGlyph} (h : raw[index]? = some g) :
    Yields (ccmRawGlyph raw index) g := by
  unfold ccmRawGlyph
  rw [if_pos (by omega), Int.toNat_natCast, h]
  exact Yields.pure g

/-- The codes of a group give its glyphs. -/
theorem yields_ccmDecodeCodes {raw seg : List CcmGlyph} {code : Int} {index : Nat} {c : Ccm}
    (hcodes : Consecutive code seg) (hstored : StoredAt raw index seg)
    (hdistinct : ((c.glyphs ++ seg).map CcmGlyph.code).Nodup) :
    ∃ c', Yields (ccmDecodeCodes raw code index c seg.length) c' ∧ c'.glyphs = c.glyphs ++ seg := by
  induction seg generalizing code index c with
  | nil => exact ⟨c, Yields.pure c, by simp⟩
  | cons g seg ih =>
      have hcode : g.code.toInt = code := by simpa using hcodes 0 g rfl
      have hsame : ({ g.raw with code := Int32.ofInt code } : CcmGlyph) = g := by
        rw [← hcode, Int32.ofInt_toInt]
        rfl
      have hnew : ¬ c.Has g.code := by
        rintro ⟨old, hold, hcode'⟩
        rw [List.map_append, List.nodup_append] at hdistinct
        exact hdistinct.2.2 old.code (List.mem_map_of_mem hold) g.code List.mem_cons_self hcode'
      obtain ⟨c1, hupsert, hglyphs1⟩ := yields_ccmUpsertGlyph hnew
      have hdistinct1 : ((c1.glyphs ++ seg).map CcmGlyph.code).Nodup := by
        rw [hglyphs1, List.append_assoc]
        exact hdistinct
      obtain ⟨c', hrest, hglyphs⟩ := @ih (code + 1) (index + 1) c1 hcodes.tail hstored.tail hdistinct1
      refine ⟨c', ?_, by rw [hglyphs, hglyphs1, List.append_assoc, List.singleton_append]⟩
      rw [List.length_cons, ccmDecodeCodes]
      refine (yields_ccmRawGlyph (hstored 0 g rfl)).bind ?_
      rw [hsame]
      push_cast at hrest
      exact hupsert.bind hrest

theorem ccmCodeCount_eq_ok {start prev first : Int32} {n : Nat} (hn : 0 < n) (hlt : n < 2 ^ 31)
    (h : prev.toInt = start.toInt + n - 1) : ccmCodeCount ⟨start, prev, first⟩ = .ok n := by
  simp only [ccmCodeCount]
  rw [if_pos (by omega), h]
  congr 1
  omega

/-- A group gives its glyphs, and the groups after it theirs. -/
theorem yields_ccmDecodeGroups_cons {raw seg : List CcmGlyph} {groups : List CcmCodeGroup} {start prev : Int32}
    {first : Nat} {c : Ccm} {l : List CcmGlyph} (hsome : 0 < seg.length) (hcodes : Consecutive start.toInt seg)
    (hprev : prev.toInt = start.toInt + seg.length - 1) (hstored : StoredAt raw first seg)
    (hdistinct : ((c.glyphs ++ seg).map CcmGlyph.code).Nodup) (hcount : first + seg.length ≤ INT32_MAX)
    (hrest : ∀ c1 : Ccm, c1.glyphs = c.glyphs ++ seg →
      ∃ c', Yields (ccmDecodeGroups raw c1 groups) c' ∧ c'.glyphs = l) :
    ∃ c', Yields (ccmDecodeGroups raw c (⟨start, prev, Int32.ofNat first⟩ :: groups)) c' ∧ c'.glyphs = l := by
  unfold INT32_MAX at hcount
  have hfirst : (Int32.ofNat first).toInt = first := int32_toInt_ofNat (by unfold INT32_MAX; omega)
  obtain ⟨c1, hcodes1, hglyphs1⟩ := yields_ccmDecodeCodes hcodes hstored hdistinct
  obtain ⟨c', hrest', hglyphs'⟩ := hrest c1 hglyphs1
  refine ⟨c', ?_, hglyphs'⟩
  rw [ccmDecodeGroups, ccmCodeCount_eq_ok hsome (by omega) hprev]
  refine Yields.bind (fun heap hcalm => ⟨heap, rfl, hcalm⟩) (Yields.bind ?_ hrest')
  rw [hfirst, Int.toNat_natCast]
  exact hcodes1

/-- The groups give the glyphs they were made of. -/
theorem yields_ccmDecodeGroupsFrom {raw rest : List CcmGlyph} {start prev : Int32} {first i : Nat}
    {seg : List CcmGlyph} {c : Ccm} (hsome : 0 < seg.length) (hcodes : Consecutive start.toInt seg)
    (hprev : prev.toInt = start.toInt + seg.length - 1) (hi : i = first + seg.length)
    (hstored : StoredAt raw first (seg ++ rest)) (hdistinct : ((c.glyphs ++ (seg ++ rest)).map CcmGlyph.code).Nodup)
    (hcount : first + (seg ++ rest).length ≤ INT32_MAX) :
    ∃ c', Yields (ccmDecodeGroups raw c (ccmGroupsFrom start prev first i rest)) c' ∧
      c'.glyphs = c.glyphs ++ (seg ++ rest) := by
  induction rest generalizing start prev first i seg c with
  | nil =>
      rw [List.append_nil] at hstored hdistinct hcount ⊢
      exact yields_ccmDecodeGroups_cons hsome hcodes hprev hstored hdistinct hcount fun c1 hc1 =>
        ⟨c1, Yields.pure c1, hc1⟩
  | cons g rest ih =>
      have hsplit : seg ++ g :: rest = (seg ++ [g]) ++ rest := by simp
      rw [ccmGroupsFrom]
      by_cases hnext : g.code.toInt = prev.toInt + 1
      · -- the group in progress goes on
        rw [if_pos hnext]
        rw [hsplit] at hstored hdistinct hcount ⊢
        refine ih (by simp) ?_ (by rw [List.length_append]; push_cast; simp; omega) (by simp; omega) hstored hdistinct hcount
        intro k u hu
        by_cases hk : k < seg.length
        · exact hcodes k u (by rwa [List.getElem?_append_left hk] at hu)
        · have hlast : k = seg.length := by
            have hlt := (List.getElem?_eq_some_iff.1 hu).1
            rw [List.length_append, List.length_singleton] at hlt
            omega
          subst hlast
          rw [List.getElem?_append_right (Nat.le_refl _), Nat.sub_self] at hu
          cases hu
          omega
      · -- a new group begins
        rw [if_neg hnext]
        obtain ⟨hseg, hafter⟩ := StoredAt.append.1 hstored
        have hdistinct1 : ((c.glyphs ++ seg).map CcmGlyph.code).Nodup := by
          rw [← List.append_assoc, List.map_append] at hdistinct
          exact (List.nodup_append.1 hdistinct).1
        have hcount1 : first + seg.length ≤ INT32_MAX := by
          rw [List.length_append] at hcount
          omega
        refine yields_ccmDecodeGroups_cons hsome hcodes hprev hseg hdistinct1 hcount1 fun c1 hc1 => ?_
        have hfrom := @ih g.code g.code i (i + 1) [g] c1 (by simp) (consecutive_singleton g) (by simp) (by simp) (by rw [hi]; exact hafter)
          (by rw [hc1, List.append_assoc]; exact hdistinct)
          (by rw [hi]; rw [List.length_append] at hcount; simp at hcount ⊢; omega)
        rw [hc1, List.append_assoc] at hfrom
        exact hfrom

theorem yields_ccmDecodeGroups {sorted : List CcmGlyph} {c : Ccm} (hc : c.glyphs = [])
    (hdistinct : (sorted.map CcmGlyph.code).Nodup) (hcount : sorted.length ≤ INT32_MAX) :
    ∃ c', Yields (ccmDecodeGroups (sorted.map CcmGlyph.raw) c (ccmGroups sorted)) c' ∧ c'.glyphs = sorted := by
  cases sorted with
  | nil => exact ⟨c, Yields.pure c, hc⟩
  | cons g rest =>
      have hstored : StoredAt ((g :: rest).map CcmGlyph.raw) 0 ([g] ++ rest) := by
        intro k u hu
        rw [Nat.zero_add, List.getElem?_map]
        exact congrArg (Option.map CcmGlyph.raw) hu
      have hfrom := @yields_ccmDecodeGroupsFrom _ rest g.code g.code 0 1 [g] c (by simp) (consecutive_singleton g) (by simp) (by simp) hstored
        (by rw [hc]; exact hdistinct) (by simpa using hcount)
      rw [hc] at hfrom
      exact hfrom

/-! ## What groups can give -/

/-- Glyphs sorted by their codes, none of which is there twice. -/
def CcmGlyph.Ascending (glyphs : List CcmGlyph) : Prop := glyphs.Pairwise fun a b => a.code.toInt < b.code.toInt

/-- A code that a run of the loop gives has a raw glyph. -/
theorem has_of_ccmDecodeCodes {raw : List CcmGlyph} {code index : Int} {c c' : Ccm} {n : Nat} {heap heap' : Heap}
    (h : ccmDecodeCodes raw code index c n heap = (.ok c', heap')) {found : Int32} (hhas : c'.Has found) :
    c.Has found ∨ ∃ j : Nat, j < n ∧ found = Int32.ofInt (code + j) ∧ 0 ≤ index + j ∧ index + j < raw.length := by
  induction n generalizing code index c heap with
  | zero =>
      cases h
      exact .inl hhas
  | succ n ih =>
      obtain ⟨g, heap1, hraw, h⟩ := bind_eq_ok.1 h
      obtain ⟨c1, heap2, hupsert, h⟩ := bind_eq_ok.1 h
      have hindex : 0 ≤ index ∧ index < raw.length := by
        unfold ccmRawGlyph at hraw
        by_cases hnonneg : 0 ≤ index
        · rw [if_pos hnonneg] at hraw
          cases hg : raw[index.toNat]? with
          | none =>
              rw [hg] at hraw
              cases hraw
          | some u =>
              have hlt := (List.getElem?_eq_some_iff.1 hg).1
              omega
        · rw [if_neg hnonneg] at hraw
          cases hraw
      rcases ih h with hold | ⟨j, hj, hfound, hrange⟩
      · rcases has_of_ccmUpsertGlyph hupsert hold with hnew | hold
        · exact .inr ⟨0, by omega, by simpa using hnew, by simpa using hindex⟩
        · exact .inl hold
      · refine .inr ⟨j + 1, by omega, ?_, ?_⟩
        · rw [hfound]
          congr 1
          push_cast
          ring
        · push_cast
          omega

/-- A code that groups give is one of a group, and has a raw glyph. -/
theorem has_of_ccmDecodeGroups {raw : List CcmGlyph} {groups : List CcmCodeGroup} {c c' : Ccm} {heap heap' : Heap}
    (h : ccmDecodeGroups raw c groups heap = (.ok c', heap')) {found : Int32} (hhas : c'.Has found) :
    c.Has found ∨ ∃ gr ∈ groups, ∃ j : Nat, gr.startCode.toInt + j ≤ gr.endCode.toInt ∧
      found.toInt = gr.startCode.toInt + j ∧ 0 ≤ gr.glyphIndex.toInt + j ∧ gr.glyphIndex.toInt + j < raw.length := by
  induction groups generalizing c heap with
  | nil =>
      cases h
      exact .inl hhas
  | cons gr groups ih =>
      obtain ⟨count, heap1, hcount, h⟩ := bind_eq_ok.1 h
      obtain ⟨c1, heap2, hcodes, h⟩ := bind_eq_ok.1 h
      have hspan : count = gr.endCode.toInt - gr.startCode.toInt + 1 := by
        rw [lift_run] at hcount
        simp only [ccmCodeCount] at hcount
        split at hcount
        · cases hcount
          rfl
        · cases hcount
      rcases ih h with hold | ⟨gr', hgr', hj⟩
      · rcases has_of_ccmDecodeCodes hcodes hold with hold | ⟨j, hj, hfound, hrange⟩
        · exact .inl hold
        · refine .inr ⟨gr, List.mem_cons_self, j, by omega, ?_, hrange⟩
          have hle := gr.endCode.toInt_lt
          have hge := gr.startCode.le_toInt
          rw [hfound, Int32.toInt_ofInt_of_le (by omega) (by omega)]
      · exact .inr ⟨gr', List.mem_cons_of_mem _ hgr', hj⟩

/-- Every code of a group that the writer makes is that of the glyph which the group has for it. -/
theorem mem_ccmGroupsFrom {sorted rest : List CcmGlyph} {start prev : Int32} {first i : Nat} {gr : CcmCodeGroup}
    (hseg : ∀ k : Nat, start.toInt + k ≤ prev.toInt → ∃ g, sorted[first + k]? = some g ∧ g.code.toInt = start.toInt + k)
    (hi : (i : Int) = first + (prev.toInt - start.toInt) + 1) (hrest : sorted.drop i = rest)
    (hgr : gr ∈ ccmGroupsFrom start prev first i rest) :
    ∃ p : Nat, gr.glyphIndex = Int32.ofNat p ∧ ∀ j : Nat, gr.startCode.toInt + j ≤ gr.endCode.toInt →
      ∃ g, sorted[p + j]? = some g ∧ g.code.toInt = gr.startCode.toInt + j := by
  induction rest generalizing start prev first i with
  | nil =>
      obtain rfl := List.mem_singleton.1 hgr
      exact ⟨first, rfl, hseg⟩
  | cons g rest ih =>
      have hg : sorted[i]? = some g := by
        rw [← Nat.add_zero i, ← List.getElem?_drop, hrest]
        rfl
      have hdrop : sorted.drop (i + 1) = rest := by
        rw [← List.drop_drop, hrest]
        rfl
      have hone : ∀ k : Nat, g.code.toInt + k ≤ g.code.toInt →
          ∃ u, sorted[i + k]? = some u ∧ u.code.toInt = g.code.toInt + k := by
        intro k hk
        obtain rfl : k = 0 := by omega
        exact ⟨g, hg, by simp⟩
      rw [ccmGroupsFrom] at hgr
      split at hgr
      · next hnext =>
          refine ih (fun k hk => ?_) (by push_cast; omega) hdrop hgr
          by_cases hlast : start.toInt + k ≤ prev.toInt
          · exact hseg k hlast
          · have hk' : first + k = i := by omega
            exact ⟨g, by rw [hk']; exact hg, by omega⟩
      · rcases List.mem_cons.1 hgr with rfl | hgr
        · exact ⟨first, rfl, hseg⟩
        · exact ih hone (by push_cast; omega) hdrop hgr

theorem mem_ccmGroups {sorted : List CcmGlyph} {gr : CcmCodeGroup} (hgr : gr ∈ ccmGroups sorted) :
    ∃ p : Nat, gr.glyphIndex = Int32.ofNat p ∧ ∀ j : Nat, gr.startCode.toInt + j ≤ gr.endCode.toInt →
      ∃ g, sorted[p + j]? = some g ∧ g.code.toInt = gr.startCode.toInt + j := by
  cases sorted with
  | nil => cases hgr
  | cons g rest =>
      refine mem_ccmGroupsFrom (fun k hk => ?_) (by simp) rfl hgr
      obtain rfl : k = 0 := by omega
      exact ⟨g, rfl, by simp⟩

theorem CcmGlyph.Ascending.gap {sorted : List CcmGlyph} (h : CcmGlyph.Ascending sorted) {i k : Nat} {a b : CcmGlyph}
    (ha : sorted[i]? = some a) (hb : sorted[i + k]? = some b) : a.code.toInt + k ≤ b.code.toInt := by
  induction k generalizing b with
  | zero =>
      rw [Nat.add_zero, ha] at hb
      cases hb
      simp
  | succ k ih =>
      obtain ⟨hlt, hbk⟩ := List.getElem?_eq_some_iff.1 hb
      have hlt' : i + k < sorted.length := by omega
      have hstep := List.pairwise_iff_getElem.1 h (i + k) (i + (k + 1)) hlt' hlt (by omega)
      have hbefore := ih (List.getElem?_eq_getElem hlt')
      rw [hbk] at hstep
      push_cast
      omega

/-- There are no more codes than `int32_t` has values. -/
theorem CcmGlyph.Ascending.length_le {sorted : List CcmGlyph} (h : CcmGlyph.Ascending sorted) : sorted.length ≤ 2 ^ 32 := by
  by_contra hlong
  obtain ⟨a, ha⟩ : ∃ a, sorted[0]? = some a := ⟨_, List.getElem?_eq_getElem (by omega)⟩
  obtain ⟨b, hb⟩ : ∃ b, sorted[0 + 2 ^ 32]? = some b := ⟨_, List.getElem?_eq_getElem (by omega)⟩
  have hgap := h.gap ha hb
  have hlow := a.code.le_toInt
  have hhigh := b.code.toInt_lt
  push_cast at hgap
  omega

/-- With fewer raw glyphs than there were glyphs, some code is not given. -/
theorem ccmDecodeGroups_misses {sorted raw : List CcmGlyph} {groups : List CcmCodeGroup} {c c' : Ccm}
    {heap heap' : Heap} (hsorted : CcmGlyph.Ascending sorted) (hgroups : ∀ gr ∈ groups, gr ∈ ccmGroups sorted)
    (hraw : raw.length < sorted.length) (hc : c.glyphs = []) (h : ccmDecodeGroups raw c groups heap = (.ok c', heap')) :
    ∃ g ∈ sorted, ¬ c'.Has g.code := by
  have hlen := hsorted.length_le
  obtain ⟨last, hlast⟩ : ∃ g, sorted[sorted.length - 1]? = some g := ⟨_, List.getElem?_eq_getElem (by omega)⟩
  refine ⟨_, List.mem_of_getElem? hlast, fun hhas => ?_⟩
  rcases has_of_ccmDecodeGroups h hhas with ⟨old, hold, -⟩ | ⟨gr, hgr, j, hj, hcode, hnonneg, hlt⟩
  · rw [hc] at hold
    cases hold
  · obtain ⟨p, hp, hglyphs⟩ := mem_ccmGroups (hgroups gr hgr)
    obtain ⟨u, hu, hucode⟩ := hglyphs j hj
    -- the glyph with the last code is the last one
    have hbound := (List.getElem?_eq_some_iff.1 hu).1
    have hplace : p + j = sorted.length - 1 := by
      by_contra hne
      have hgap := @CcmGlyph.Ascending.gap _ hsorted (p + j) (sorted.length - 1 - (p + j)) _ _ hu
        (by rw [Nat.add_sub_cancel' (by omega)]; exact hlast)
      omega
    rw [hp, Int32.toInt_ofNat', Int.bmod_def, show Int32.size = 4294967296 from rfl] at hnonneg hlt
    split at hlt <;> omega

end SoulsFormats
