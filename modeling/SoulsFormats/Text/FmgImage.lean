import SoulsFormats.Core.Defined
import SoulsFormats.Text.FmgStrings

set_option autoImplicit false

/-! # The file an FMG is written to

`FmgImage` lists what the final bytes of a written container hold: the header with the number of groups
and the position of the offset table, the groups, the table, and a text for every offset. Every
successful run of `fmgWriteBody` leaves such bytes behind. -/

namespace SoulsFormats

open Bytes Fallible OpenAddressing BinaryWriter

/-! ## Groups -/

/-- The runs of consecutive ids of a view that starts at index `i`, each with the index of its first
    entry. -/
def fmgGroups : Nat → List FmgEntry → List (Nat × List FmgEntry)
  | _, [] => []
  | i, v :: view =>
    if view.head?.map FmgEntry.id = some (v.id + 1) then
      match fmgGroups (i + 1) view with
      | (_, g) :: groups => (i, v :: g) :: groups
      | [] => [(i, [v])]
    else (i, [v]) :: fmgGroups (i + 1) view

def firstId (g : List FmgEntry) : Int32 := (g.head?.map FmgEntry.id).getD 0

def lastId (g : List FmgEntry) : Int32 := (g.getLast?.map FmgEntry.id).getD 0

/-- The start of a group's entry in the group table. -/
def groupHead (be : Bool) (i : Nat) (g : List FmgEntry) : List UInt8 :=
  wordBytes be 4 (Int32.ofNat i).toUInt32.toNat ++ wordBytes be 4 (firstId g).toUInt32.toNat

/-- The end of a group's entry in the group table. -/
def groupTail (be wide : Bool) (g : List FmgEntry) : List UInt8 :=
  wordBytes be 4 (lastId g).toUInt32.toNat ++
    if wide then wordBytes be 4 (0 : Int32).toUInt32.toNat else []

def groupBytes (be wide : Bool) (group : Nat × List FmgEntry) : List UInt8 :=
  groupHead be group.1 group.2 ++ groupTail be wide group.2

/-- The groups of a non-empty view start with one that starts with its first entry. -/
theorem fmgGroups_cons (i : Nat) (v : FmgEntry) (view : List FmgEntry) :
    ∃ g groups, fmgGroups i (v :: view) = (i, v :: g) :: groups := by
  rw [fmgGroups]
  split
  · rcases fmgGroups (i + 1) view with _ | ⟨⟨j, g⟩, groups⟩
    · exact ⟨[], [], rfl⟩
    · exact ⟨g, groups, rfl⟩
  · exact ⟨[], _, rfl⟩

/-- Where the next id follows on, the entry joins the first group of the rest. -/
theorem fmgGroups_join (i : Nat) (v v' : FmgEntry) (view : List FmgEntry) (h : v'.id = v.id + 1) :
    ∃ g groups, fmgGroups (i + 1) (v' :: view) = (i + 1, v' :: g) :: groups ∧
      fmgGroups i (v :: v' :: view) = (i, v :: v' :: g) :: groups := by
  obtain ⟨g, groups, hrest⟩ := fmgGroups_cons (i + 1) v' view
  refine ⟨g, groups, hrest, ?_⟩
  rw [fmgGroups, if_pos (by rw [← h]; rfl), hrest]

theorem fmgGroups_flatten (i : Nat) (view : List FmgEntry) :
    ((fmgGroups i view).map Prod.snd).flatten = view := by
  induction view generalizing i with
  | nil => rfl
  | cons v view ih =>
      rw [fmgGroups]
      split
      · next h =>
          have hrest := ih (i + 1)
          rcases hgroups : fmgGroups (i + 1) view with _ | ⟨⟨j, g⟩, groups⟩
          · rw [hgroups] at hrest
            rw [← hrest] at h
            cases h
          · rw [hgroups] at hrest
            simp only [List.map_cons, List.flatten_cons, List.cons_append] at hrest ⊢
            rw [hrest]
      · rw [List.map_cons, List.flatten_cons, ih]
        rfl

/-- The number of groups does not exceed that of the entries. -/
theorem length_fmgGroups_le (i : Nat) (view : List FmgEntry) :
    (fmgGroups i view).length ≤ view.length := by
  induction view generalizing i with
  | nil => exact Nat.zero_le _
  | cons v view ih =>
      have hrest := ih (i + 1)
      rw [fmgGroups]
      split
      · rcases hgroups : fmgGroups (i + 1) view with _ | ⟨⟨j, g⟩, groups⟩
        · simp
        · rw [hgroups] at hrest
          simp only [List.length_cons] at hrest ⊢
          omega
      · simp only [List.length_cons]
        omega

variable {os : Win32} {w w' : BinaryWriter}

theorem emitsAt_writeI32 (hw : w.Ready) (v : Int32) :
    EmitsAt w (writeI32 v) (some (wordBytes w.bigEndian 4 v.toUInt32.toNat)) :=
  emitsAt_writeScalar hw .i32 v

theorem fmgFollows_eq_ok {v : FmgEntry} {view : List FmgEntry} {follows : Bool}
    (h : fmgFollows v view w = (.ok follows, w')) :
    w' = w ∧ (follows = true ↔ view.head?.map FmgEntry.id = some (v.id + 1)) := by
  cases view with
  | nil =>
      cases h
      simp
  | cons next view =>
      obtain ⟨⟨⟩, w1, hcheck, hpure⟩ := bind_eq_ok.1 h
      rw [check_run] at hcheck
      split at hcheck
      · cases hcheck
        cases hpure
        simp
      · cases hcheck

/-- **The two loops write the group table.** Inside a group only the end of its entry is missing. -/
theorem fmgWriteGroups_spec (wide inGroup : Bool) (view : List FmgEntry) (i : Nat) (count : Int32)
    (hw : w.Ready) :
    Post (fmgWriteGroups wide i inGroup count view) w fun count' w' =>
      count' = count + Int32.ofNat (fmgGroups i view).length ∧
      Wrote (if inGroup then
          match fmgGroups i view with
          | (_, g) :: groups =>
            groupTail w.bigEndian wide g ++ groups.flatMap (groupBytes w.bigEndian wide)
          | [] => []
        else (fmgGroups i view).flatMap (groupBytes w.bigEndian wide)) w w' := by
  induction view generalizing w i inGroup count with
  | nil =>
      intro count' w' hrun
      cases hrun
      refine ⟨(Int32.add_zero count).symm, ?_⟩
      cases inGroup <;> exact Wrote.refl hw.1
  | cons v view ih =>
      -- the rest of the loop, once the start of the group's entry is out
      have htail : ∀ w : BinaryWriter, w.Ready → Post (do
          let follows ← fmgFollows v view
          if follows then fmgWriteGroups wide (i + 1) true count view
          else do
            writeI32 v.id
            if wide then writeI32 0
            fmgWriteGroups wide (i + 1) false (count + 1) view) w fun count' w' =>
          count' = count + Int32.ofNat (fmgGroups i (v :: view)).length ∧
          Wrote (match fmgGroups i (v :: view) with
            | (_, g) :: groups =>
              groupTail w.bigEndian wide g ++ groups.flatMap (groupBytes w.bigEndian wide)
            | [] => []) w w' := by
        intro w hw count' w' hrun
        obtain ⟨follows, w0, hfollows, hloop⟩ := bind_eq_ok.1 hrun
        obtain ⟨hsame, hiff⟩ := fmgFollows_eq_ok hfollows
        rw [hsame] at hloop
        by_cases hnext : view.head?.map FmgEntry.id = some (v.id + 1)
        · rw [if_pos (hiff.2 hnext)] at hloop
          rcases view with _ | ⟨v', view⟩
          · cases hnext
          · obtain ⟨g, groups, hrest, hall⟩ :=
              fmgGroups_join i v v' view (Option.some.inj hnext)
            have h := ih true (i + 1) count hw count' w' hloop
            rw [hrest] at h
            rw [hall]
            simp only [List.length_cons] at h ⊢
            exact h
        · rw [if_neg (mt hiff.1 hnext)] at hloop
          have hall : fmgGroups i (v :: view) = (i, [v]) :: fmgGroups (i + 1) view := by
            rw [fmgGroups, if_neg hnext]
          obtain ⟨_, w1, hlast, hrun⟩ := bind_eq_ok.1 hloop
          have hwrote1 := (emitsAt_writeI32 hw v.id).post _ _ hlast
          have hready1 := hwrote1.ready hw
          have hzero : ∃ w2, Wrote (groupTail w.bigEndian wide [v]) w w2 ∧ w2.Ready ∧
              fmgWriteGroups wide (i + 1) false (count + 1) view w2 = (.ok count', w') := by
            cases wide with
            | false =>
                refine ⟨w1, ?_, hready1, hrun⟩
                rw [groupTail, if_neg (by decide), List.append_nil]
                exact hwrote1
            | true =>
                obtain ⟨_, w2, hzero, hrun⟩ := bind_eq_ok.1 hrun
                have hwrote2 := (emitsAt_writeI32 hready1 0).post _ _ hzero
                rw [hwrote1.bigEndian] at hwrote2
                exact ⟨w2, hwrote1.trans hwrote2, hwrote2.ready hready1, hrun⟩
          obtain ⟨w2, hwrote2, hready2, hrun⟩ := hzero
          obtain ⟨hcount, hrest⟩ := ih false (i + 1) (count + 1) hready2 count' w' hrun
          rw [hwrote2.bigEndian] at hrest
          refine ⟨?_, ?_⟩
          · rw [hcount, hall, List.length_cons, Int32.ofNat_add, Int32.add_assoc,
              Int32.add_comm 1]
            rfl
          · rw [hall]
            exact hwrote2.trans hrest
      intro count' w' hrun
      rw [fmgWriteGroups] at hrun
      cases inGroup with
      | true => exact htail w hw count' w' hrun
      | false =>
          obtain ⟨_, w1, hindex, hrun⟩ := bind_eq_ok.1 hrun
          obtain ⟨_, w2, hfirst, hrun⟩ := bind_eq_ok.1 hrun
          have hwrote1 := (emitsAt_writeI32 hw (Int32.ofNat i)).post _ _ hindex
          have hwrote2 := (emitsAt_writeI32 (hwrote1.ready hw) v.id).post _ _ hfirst
          rw [hwrote1.bigEndian] at hwrote2
          have hhead := hwrote1.trans hwrote2
          obtain ⟨hcount, hrest⟩ := htail w2 (hhead.ready hw) count' w' hrun
          rw [hhead.bigEndian] at hrest
          refine ⟨hcount, ?_⟩
          obtain ⟨g, groups, hall⟩ := fmgGroups_cons i v view
          rw [hall] at hrest ⊢
          have htotal := hhead.trans hrest
          rw [← List.append_assoc] at htotal
          exact htotal

/-! ## The offset table and the strings -/

/-- The bytes of the offset table. -/
def offsetBytes (be wide : Bool) (offsets : List Int64) : List UInt8 :=
  offsets.flatMap (scalarBytes be wide .varint)

theorem length_offsetBytes (be wide : Bool) (offsets : List Int64) :
    (offsetBytes be wide offsets).length = offsets.length * if wide then 8 else 4 := by
  induction offsets with
  | nil => simp [offsetBytes]
  | cons off offsets ih =>
      rw [offsetBytes, List.flatMap_cons, List.length_append, length_scalarBytes, List.length_cons,
        Nat.succ_mul, Nat.add_comm]
      rw [offsetBytes] at ih
      rw [ih]
      cases wide <;> rfl

/-- **The offset table is patched with what the emission found.** -/
theorem fmgWriteStrings_spec (hos : os.AsciiCompatible) (fmg : Fmg) (view : List FmgEntry)
    (hview : view.length = fmg.entries.length)
    (hfit : ∀ v ∈ view, ∀ t, v.textUtf8 = some t → ∀ b ∈ t, b ≠ 0)
    (hw : AtEnd (fun _ => False) w) (hpos : 0 < w.position)
    (hlong : w.varintLong = fmg.version.wide) :
    Post (fmgWriteStrings os fmg view w.position) w fun _ w' =>
      Extends (fun _ => False) w w' fun B => ∃ offsets,
        Holds B w.position (offsetBytes w.bigEndian fmg.version.wide offsets) ∧
        StringsAt os fmg.unicode w.bigEndian offsets view B := by
  intro u w' hrun
  rw [fmgWriteStrings] at hrun
  by_cases hcount : 0 < fmg.entries.length
  · simp only [if_pos hcount] at hrun
    obtain ⟨_, w1, hcheck, hrun⟩ := bind_eq_ok.1 hrun
    have hw1 : w1 = w := by
      rw [check_run] at hcheck
      split at hcheck <;> cases hcheck
      rfl
    subst hw1
    obtain ⟨_, w2, hpattern, hrun⟩ := bind_eq_ok.1 hrun
    obtain ⟨_, w3, halloc, hrun⟩ := bind_eq_ok.1 hrun
    obtain ⟨offsets, w4, hemit, hrun⟩ := bind_eq_ok.1 hrun
    -- the table is open from here on
    have hwrote2 := (emitsAt_writePattern hw.inv.ready _ _).post _ _ hpattern
    obtain ⟨hopen, hback⟩ := hw.reopen hwrote2
    have hext3 := hopen.extends (post_onHeap hopen.inv.ready Heap.alloc _ _ halloc)
    have hpos2 : w2.position = w1.position + fmg.entries.length * fmg.version.perOffset := by
      rw [hwrote2.position, List.length_replicate]
    have hemitted := fmgEmitStrings_spec hos fmg view hfit hext3.atEnd
      (by have hle := hext3.position_le; omega) _ _ hemit
    have hbe3 : w3.bigEndian = w1.bigEndian := hext3.bigEndian.trans hwrote2.bigEndian
    rw [hbe3] at hemitted
    have hext4 := hext3.trans hemitted
    have hlen : offsets.length = view.length :=
      (hext4.final w4.content (becomes_self hext4.atEnd)).2.2.length_eq
    -- back to the table
    let table := offsetBytes w1.bigEndian fmg.version.wide offsets
    have htable : table.length = (List.replicate (fmg.entries.length * fmg.version.perOffset)
        (0xFE : UInt8)).length := by
      rw [length_offsetBytes, List.length_replicate, hlen, hview]
      rfl
    rw [fmgPatchOffsets] at hrun
    obtain ⟨_, w5, hin, hrun⟩ := bind_eq_ok.1 hrun
    rw [attempt_bind_run, attempt_bind_run] at hrun
    rcases heach : writeEach writeVarint offsets w5 with ⟨e | _, w6⟩
    · rw [heach] at hrun
      exact absurd hrun (by rintro ⟨⟩)
    rw [heach] at hrun
    rcases hout : stepOut w6 with ⟨e | _, w7⟩
    · simp only [hout] at hrun
      cases hrun
    simp only [hout] at hrun
    cases hrun
    have hopen4 := hext4.atEnd
    rw [← htable] at hopen4
    have hbe4 : w4.bigEndian = w1.bigEndian := hemitted.bigEndian.trans hbe3
    have hlong4 : w4.varintLong = fmg.version.wide := by
      rw [hemitted.varintLong, hext3.varintLong, hwrote2.varintLong, hlong]
    have hwrote6 : Wrote table w5 w6 := by
      obtain ⟨q, g, cap, -, rfl⟩ := stepIn_ok_inv hopen4.inv.ready hin
      have hwrote := (emitsAt_writeEach (w := { w4 with
          stream := { w4.stream with heap := g, memPos := q }
          steps := w4.position :: w4.steps
          stepsCap := cap }) hopen4.inv.ready .varint offsets).post _ _ heach
      have hbytes : offsets.flatMap (scalarBytes w4.bigEndian w4.varintLong .varint) = table := by
        rw [hbe4, hlong4]
        rfl
      rw [← hbytes]
      exact hwrote
    have hinside : w1.position + table.length ≤ w4.length := by
      have hle := hext4.position_le
      rw [← hopen4.position, htable, List.length_replicate]
      omega
    obtain ⟨hend, hset, hpos7, hmap, hfinal⟩ :=
      hopen4.patch (fun _ hX => hX.elim) hinside hin hwrote6 hout
    have hset4 : w4.settings = w1.settings := by
      rw [hext4.settings]
      simp only [BinaryWriter.settings, hwrote2.bigEndian, hwrote2.varintLong, hwrote2.steps]
    refine ⟨hend, hset.trans hset4, ?_, ?_, fun B hB => ?_⟩
    · rw [hmap, hext4.reserved]
      exact reserved_of_slots hwrote2.resSlots
    · have hle := hext4.position_le
      omega
    · obtain ⟨hB4, hheld⟩ := hfinal B hB
      rw [htable] at hB4
      obtain ⟨hB2, -, hstrings⟩ := hext4.final B hB4
      exact ⟨hback B hB2, offsets, hheld, hstrings⟩
  · have hempty : view = [] := List.length_eq_zero_iff.1 (by omega)
    subst hempty
    simp only [if_neg hcount] at hrun
    obtain ⟨offsets, w4, hemit, hrun⟩ := bind_eq_ok.1 hrun
    cases hrun
    have hemitted := fmgEmitStrings_spec hos fmg [] hfit hw hpos _ _ hemit
    refine ⟨hemitted.atEnd, hemitted.settings, hemitted.reserved, hemitted.position_le,
      fun B hB => ⟨(hemitted.final B hB).1, offsets, ?_, (hemitted.final B hB).2⟩⟩
    have hnil : offsets = [] :=
      List.length_eq_zero_iff.1 (hemitted.final B hB).2.length_eq
    subst hnil
    rw [offsetBytes, List.flatMap_nil, holds_nil, hw.position]
    exact (hemitted.final B hB).1.1

/-! ## The header -/

/-- The header of a container, in the encoding of the container's own byte order and width. -/
def fmgHeaderBytes (fmg : Fmg) (fileSize groupCount : Int32) (tablePos : Int64) : List UInt8 :=
  let be := fmg.bigEndian
  let wide := fmg.version.wide
  [0] ++ ([if be then 1 else 0] ++ ([fmg.version.byte] ++ ([0] ++
    (wordBytes be 4 fileSize.toUInt32.toNat ++ ([if fmg.unicode then 1 else 0] ++
    ([fmg.version.aux] ++ ([0] ++ ([0] ++ (wordBytes be 4 groupCount.toUInt32.toNat ++
    (wordBytes be 4 (Int32.ofNat fmg.entries.length).toUInt32.toNat ++
    ((if wide then wordBytes be 4 (0xFF : Int32).toUInt32.toNat else []) ++
    (scalarBytes be wide .varint tablePos ++ scalarBytes be wide .varint 0))))))))))))

/-- The calls before the number of entries is checked. -/
def fmgHeaderCalls (fmg : Fmg) : List WriterCall :=
  [.setBigEndian fmg.bigEndian, .setVarintLong fmg.version.wide, .write .u8 0,
    .write .bool fmg.bigEndian, .write .u8 fmg.version.byte, .write .u8 0,
    .reserve .i32 (cstr "FileSize"), .write .bool fmg.unicode, .write .u8 fmg.version.aux,
    .write .u8 0, .write .u8 0]

/-- The calls after it. -/
def fmgHeaderCalls' (fmg : Fmg) : List WriterCall :=
  [.reserve .i32 (cstr "GroupCount"), .write .i32 (Int32.ofNat fmg.entries.length)] ++
    (if fmg.version.wide then [.write .i32 0xFF] else []) ++
    [.reserve .varint (cstr "StringOffsets"), .write .varint 0]

theorem fmgWriteHeader_eq (os : Win32) (fmg : Fmg) :
    fmgWriteHeader fmg = (do
      runAll os (fmgHeaderCalls fmg)
      check (fmg.entries.length ≤ INT32_MAX) .outOfRange
      runAll os (fmgHeaderCalls' fmg) : WriteM Unit) := by
  unfold fmgWriteHeader fmgHeaderCalls fmgHeaderCalls'
  cases fmg.version.wide <;>
    simp only [runAll, WriterCall.run, writeScalar, reserveI32, reserveVarint, bind_assoc,
      bind_pure_unit, Bool.false_eq_true, if_true, if_false, List.cons_append, List.nil_append]

/-- The keys of the header. -/
def keyFileSize : ResKey := (cstr "FileSize", .i32)
def keyGroupCount : ResKey := (cstr "GroupCount", .i32)
def keyStringOffsets (wide : Bool) : ResKey := (cstr "StringOffsets", scalarKind wide .varint)

/-- **The header**, with three slices still to be filled in. -/
theorem fmgWriteHeader_spec (os : Win32) (fmg : Fmg) (hw : AtEnd (fun _ => False) w)
    (hstart : w.position = 0) (hfree : ∀ key, w.reserved key = none) :
    Post (fmgWriteHeader fmg) w fun _ w' =>
      AtEnd (fun _ => False) w' ∧ w'.bigEndian = fmg.bigEndian ∧
      w'.varintLong = fmg.version.wide ∧ fmg.entries.length ≤ INT32_MAX ∧
      (∃ pf pg ps, w'.reserved keyFileSize = some pf ∧ w'.reserved keyGroupCount = some pg ∧
        w'.reserved (keyStringOffsets fmg.version.wide) = some ps ∧
        (∀ key, key ≠ keyFileSize → key ≠ keyGroupCount →
          key ≠ keyStringOffsets fmg.version.wide → w'.reserved key = none) ∧
        ∀ fileSize groupCount tablePos,
          w'.position = (fmgHeaderBytes fmg fileSize groupCount tablePos).length ∧
          ∀ B, Becomes (fun _ => False) w' B → Becomes (fun _ => False) w B ∧
            (Holds B pf (wordBytes fmg.bigEndian 4 fileSize.toUInt32.toNat) →
             Holds B pg (wordBytes fmg.bigEndian 4 groupCount.toUInt32.toNat) →
             Holds B ps (scalarBytes fmg.bigEndian fmg.version.wide .varint tablePos) →
             Holds B 0 (fmgHeaderBytes fmg fileSize groupCount tablePos))) := by
  intro u w' hrun
  rw [fmgWriteHeader_eq os] at hrun
  obtain ⟨_, w1, hpre, hrun⟩ := bind_eq_ok.1 hrun
  obtain ⟨_, w2, hcheck, hpost⟩ := bind_eq_ok.1 hrun
  rw [check_run] at hcheck
  split at hcheck
  swap
  · cases hcheck
  next hcount =>
    cases hcheck
    have hforward : ∀ c ∈ fmgHeaderCalls fmg, c.IsForward := by
      simp [fmgHeaderCalls, WriterCall.IsForward]
    have hforward' : ∀ c ∈ fmgHeaderCalls' fmg, c.IsForward := by
      unfold fmgHeaderCalls'
      cases fmg.version.wide <;> simp [WriterCall.IsForward]
    obtain ⟨h1, -, hbe1, hlong1, -, hnew1, hlay1⟩ := hw.runAll _ hforward hpre
    obtain ⟨h2, -, hbe2, hlong2, hkeep2, hnew2, hlay2⟩ := h1.runAll _ hforward' hpost
    have hbe1' : w1.bigEndian = fmg.bigEndian := hbe1
    have hlong1' : w1.varintLong = fmg.version.wide := hlong1
    rw [hbe1'] at hbe2
    rw [hlong1'] at hlong2
    rw [hlong1'] at hnew2
    rw [hbe1', hlong1'] at hlay2
    -- the keys of the two halves
    have hkeys1 : reservedKeys w.varintLong (fmgHeaderCalls fmg) = [keyFileSize] := rfl
    have hkeys2 : reservedKeys fmg.version.wide (fmgHeaderCalls' fmg)
        = [keyGroupCount, keyStringOffsets fmg.version.wide] := by
      unfold fmgHeaderCalls'
      cases fmg.version.wide <;> rfl
    rw [hkeys1] at hnew1 hlay1
    rw [hkeys2] at hnew2 hlay2
    have hfs : keyFileSize ≠ keyGroupCount := by decide
    have hfo : keyFileSize ≠ keyStringOffsets fmg.version.wide := by
      cases fmg.version.wide <;> decide
    have hgo : keyGroupCount ≠ keyStringOffsets fmg.version.wide := by
      cases fmg.version.wide <;> decide
    have hlive1 : w1.reserved keyFileSize ≠ none := (hnew1 _ (hfree _)).2 (by simp)
    have hnone1 : ∀ key, key ≠ keyFileSize → w1.reserved key = none := by
      intro key hne
      by_contra hlive
      exact hne (by simpa using (hnew1 key (hfree key)).1 hlive)
    obtain ⟨pf, hpf⟩ := Option.ne_none_iff_exists'.1 hlive1
    obtain ⟨pg, hpg⟩ := Option.ne_none_iff_exists'.1
      ((hnew2 keyGroupCount (hnone1 _ hfs.symm)).2 (by simp))
    obtain ⟨ps, hps⟩ := Option.ne_none_iff_exists'.1
      ((hnew2 (keyStringOffsets fmg.version.wide) (hnone1 _ hfo.symm)).2 (by simp))
    have hpf' : w'.reserved keyFileSize = some pf := by rw [hkeep2 _ hlive1, hpf]
    refine ⟨h2, ?_, ?_, hcount, pf, pg, ps, hpf', hpg, hps, ?_, fun fileSize groupCount tablePos => ?_⟩
    · rw [hbe2]
      unfold fmgHeaderCalls'
      cases fmg.version.wide <;> rfl
    · rw [hlong2]
      unfold fmgHeaderCalls'
      cases fmg.version.wide <;> rfl
    · intro key hne1 hne2 hne3
      by_contra hlive
      have hmem := (hnew2 key (hnone1 key hne1)).1 hlive
      simp only [List.mem_cons, List.not_mem_nil, or_false] at hmem
      exact hmem.elim hne2 hne3
    · let ρ : ResKey → List UInt8 := fun key =>
        if key = keyFileSize then wordBytes fmg.bigEndian 4 fileSize.toUInt32.toNat
        else if key = keyGroupCount then wordBytes fmg.bigEndian 4 groupCount.toUInt32.toNat
        else scalarBytes fmg.bigEndian fmg.version.wide .varint tablePos
      have hρf : ρ keyFileSize = wordBytes fmg.bigEndian 4 fileSize.toUInt32.toNat := if_pos rfl
      have hρg : ρ keyGroupCount = wordBytes fmg.bigEndian 4 groupCount.toUInt32.toNat := by
        simp only [ρ, if_neg hfs.symm, if_true]
      have hρs : ρ (keyStringOffsets fmg.version.wide)
          = scalarBytes fmg.bigEndian fmg.version.wide .varint tablePos := by
        simp only [ρ, if_neg hfo.symm, if_neg hgo.symm]
      have hlen1 : ∀ key ∈ [keyFileSize], (ρ key).length = kindWidth key.2 := by
        intro key hkey
        rw [List.mem_singleton.1 hkey, hρf, length_wordBytes]
        rfl
      have hlen2 : ∀ key ∈ [keyGroupCount, keyStringOffsets fmg.version.wide],
          (ρ key).length = kindWidth key.2 := by
        intro key hkey
        simp only [List.mem_cons, List.not_mem_nil, or_false] at hkey
        rcases hkey with rfl | rfl
        · rw [hρg, length_wordBytes]
          rfl
        · rw [hρs, length_scalarBytes]
          rfl
      obtain ⟨hpos1, hfinal1⟩ := hlay1 ρ hlen1
      obtain ⟨hpos2, hfinal2⟩ := hlay2 ρ hlen2
      rw [hstart, Nat.zero_add] at hpos1
      rw [hstart] at hfinal1
      have hbytes : layout os ρ w.bigEndian w.varintLong 0 (fmgHeaderCalls fmg) ++
          layout os ρ fmg.bigEndian fmg.version.wide w1.position (fmgHeaderCalls' fmg)
          = fmgHeaderBytes fmg fileSize groupCount tablePos := by
        have hleft : layout os ρ w.bigEndian w.varintLong 0 (fmgHeaderCalls fmg)
            = [0] ++ ([if fmg.bigEndian then 1 else 0] ++ ([fmg.version.byte] ++ ([0] ++
              (ρ keyFileSize ++ ([if fmg.unicode then 1 else 0] ++ ([fmg.version.aux] ++
              ([0] ++ [0]))))))) := rfl
        have hright : ∀ pos, layout os ρ fmg.bigEndian fmg.version.wide pos (fmgHeaderCalls' fmg)
            = ρ keyGroupCount ++
              (wordBytes fmg.bigEndian 4 (Int32.ofNat fmg.entries.length).toUInt32.toNat ++
              ((if fmg.version.wide then wordBytes fmg.bigEndian 4 (0xFF : Int32).toUInt32.toNat
                else []) ++ (ρ (keyStringOffsets fmg.version.wide) ++
              scalarBytes fmg.bigEndian fmg.version.wide .varint 0))) := by
          intro pos
          unfold fmgHeaderCalls'
          cases fmg.version.wide <;>
            simp only [layout, WriterCall.bytes, scalarBytes, Option.getD_some, Bool.false_eq_true,
              if_true, if_false, List.cons_append, List.nil_append, List.append_nil] <;>
            rfl
        rw [hleft, hright, hρf, hρg, hρs, fmgHeaderBytes]
        simp only [List.append_assoc]
      have hlength := congrArg List.length hbytes
      rw [List.length_append] at hlength
      refine ⟨by rw [hpos2, ← hlength, ← hpos1], fun B hB => ?_⟩
      obtain ⟨hB2, hslice2⟩ := hfinal2 B hB
      obtain ⟨hB1, hslice1⟩ := hfinal1 B hB2
      refine ⟨hB1, fun hf hg hs => ?_⟩
      rw [← hbytes, holds_append]
      refine ⟨hslice1 fun key hkey p hp => ?_, ?_⟩
      · rw [List.mem_singleton.1 hkey] at hp ⊢
        rw [hpf] at hp
        cases hp
        rw [hρf]
        exact hf
      · rw [Nat.zero_add, ← hpos1]
        refine hslice2 fun key hkey p hp => ?_
        simp only [List.mem_cons, List.not_mem_nil, or_false] at hkey
        rcases hkey with rfl | rfl
        · rw [hpg] at hp
          cases hp
          rw [hρg]
          exact hg
        · rw [hps] at hp
          cases hp
          rw [hρs]
          exact hs

/-! ## The whole file -/

/-- What the file of a container holds, where `view` is the sorted view of its entries. -/
structure FmgImage (os : Win32) (fmg : Fmg) (view : List FmgEntry) (B : List UInt8) : Prop where
  count : view.length ≤ INT32_MAX
  held : ∃ (fileSize : Int32) (tablePos : Nat) (offsets : List Int64),
    Holds B 0 (fmgHeaderBytes fmg fileSize (Int32.ofNat (fmgGroups 0 view).length)
      (Int64.ofNat tablePos) ++
        (fmgGroups 0 view).flatMap (groupBytes fmg.bigEndian fmg.version.wide)) ∧
    Holds B tablePos (offsetBytes fmg.bigEndian fmg.version.wide offsets) ∧
    StringsAt os fmg.unicode fmg.bigEndian offsets view B

variable {qs : Qsort}

theorem compareSortViewById_le (a b : FmgEntry) :
    compareSortViewById a b ≤ 0 ↔ a.id.toInt ≤ b.id.toInt := by
  simp only [compareSortViewById, Int32.lt_iff_toInt_lt]
  split
  · omega
  · split <;> omega

theorem fmgSortView_spec (fmg : Fmg) (hw : w.Ready) :
    Post (fmgSortView qs fmg) w fun view w' => Wrote [] w w' ∧ view.Perm fmg.entries ∧
      view.Pairwise fun a b => a.id.toInt ≤ b.id.toInt := by
  intro view w' hrun
  unfold fmgSortView at hrun
  split at hrun
  · obtain ⟨_, w1, halloc, hpure⟩ := bind_eq_ok.1 hrun
    cases hpure
    exact ⟨post_onHeap hw Heap.alloc _ _ halloc, qs.perm _ _,
      qs.sorted _ _ compareSortViewById_le _⟩
  · next hcount =>
      cases hrun
      rw [List.length_eq_zero_iff.1 (Nat.eq_zero_of_not_pos hcount)]
      exact ⟨Wrote.refl hw.1, .refl _, .nil⟩

/-- **A container that is written leaves its image**, and no reservation open. -/
theorem fmgWriteBody_spec (hos : os.AsciiCompatible) (fmg : Fmg)
    (hfit : ∀ e ∈ fmg.entries, ∀ t, e.textUtf8 = some t → FmgFits os fmg.unicode t)
    (hw : AtEnd (fun _ => False) w) (hstart : w.position = 0)
    (hfree : ∀ key, w.reserved key = none) :
    Post (fmgWriteBody os qs fmg) w fun _ w' => AtEnd (fun _ => False) w' ∧
      (∀ key, w'.reserved key = none) ∧
      ∃ view : List FmgEntry, view.Perm fmg.entries ∧
        (view.Pairwise fun a b => a.id.toInt ≤ b.id.toInt) ∧
        ∀ B, Becomes (fun _ => False) w' B → FmgImage os fmg view B := by
  intro u w' hrun
  rw [fmgWriteBody] at hrun
  obtain ⟨_, w1, hheader, hrun⟩ := bind_eq_ok.1 hrun
  obtain ⟨view, w2, hsort, hrun⟩ := bind_eq_ok.1 hrun
  obtain ⟨groupCount, w3, hgroups, hrun⟩ := bind_eq_ok.1 hrun
  obtain ⟨_, w4, hfillg, hrun⟩ := bind_eq_ok.1 hrun
  rw [peek_bind_run] at hrun
  obtain ⟨_, w5, hfills, hrun⟩ := bind_eq_ok.1 hrun
  obtain ⟨_, w6, hstrings, hrun⟩ := bind_eq_ok.1 hrun
  rw [peek_bind_run] at hrun
  obtain ⟨h1, hbe1, hlong1, hcount, pf, pg, ps, hpf, hpg, hps, hnone, hlay⟩ :=
    fmgWriteHeader_spec os fmg hw hstart hfree _ _ hheader
  obtain ⟨hwrote2, hperm, hsorted⟩ := fmgSortView_spec fmg h1.inv.ready _ _ hsort
  have hext2 := h1.extends hwrote2
  obtain ⟨hcount3, hwrote3⟩ := fmgWriteGroups_spec fmg.version.wide false view 0 0
    hext2.atEnd.inv.ready _ _ hgroups
  rw [hwrote2.bigEndian, hbe1] at hwrote3
  simp only [Bool.false_eq_true, if_false] at hwrote3
  have hext3 := hext2.trans (hext2.atEnd.extends hwrote3)
  have hbe3 : w3.bigEndian = fmg.bigEndian := hext3.bigEndian.trans hbe1
  have hlong3 : w3.varintLong = fmg.version.wide := hext3.varintLong.trans hlong1
  -- the number of groups and the position of the table go into the header
  obtain ⟨h4, hset4, hpos4, pg', hpg', hmap4, hfinal4⟩ := hext3.atEnd.fill hfillg
  have hbe4 : w4.bigEndian = w3.bigEndian := congrArg Prod.fst hset4
  have hlong4 : w4.varintLong = w3.varintLong := congrArg (fun s => s.2.1) hset4
  obtain ⟨h5, hset5, hpos5, ps', hps', hmap5, hfinal5⟩ := h4.fill hfills
  have hbe5 : w5.bigEndian = w4.bigEndian := congrArg Prod.fst hset5
  have hlong5 : w5.varintLong = w4.varintLong := congrArg (fun s => s.2.1) hset5
  have hviewfit : ∀ v ∈ view, ∀ t, v.textUtf8 = some t → ∀ b ∈ t, b ≠ 0 := fun v hv t ht =>
    (hfit v (hperm.mem_iff.1 hv) t ht).noNul
  have hposlen := (hlay 0 0 0).1
  have hpospos : 0 < w5.position := by
    have hle := hext3.position_le
    have hhead : 0 < w1.position := by
      rw [hposlen]
      exact Nat.succ_pos _
    omega
  rw [← hpos5] at hstrings
  have hext6 := fmgWriteStrings_spec hos fmg view hperm.length_eq hviewfit h5 hpospos
    (by rw [hlong5, hlong4, hlong3]) _ _ hstrings
  obtain ⟨h7, -, -, pf', hpf', hmap7, hfinal7⟩ := hext6.atEnd.fill hrun
  -- the three keys, as they are at each of the fills
  have hkg : ((cstr "GroupCount", scalarKind w3.varintLong .i32) : ResKey) = keyGroupCount := rfl
  have hks : ((cstr "StringOffsets", scalarKind w4.varintLong .varint) : ResKey)
      = keyStringOffsets fmg.version.wide := by
    rw [hlong4, hlong3]
    rfl
  have hkf : ((cstr "FileSize", scalarKind w6.varintLong .i32) : ResKey) = keyFileSize := rfl
  have hfs : keyFileSize ≠ keyGroupCount := by decide
  have hfo : keyFileSize ≠ keyStringOffsets fmg.version.wide := by
    cases fmg.version.wide <;> decide
  have hgo : keyGroupCount ≠ keyStringOffsets fmg.version.wide := by
    cases fmg.version.wide <;> decide
  rw [hkg, hext3.reserved, hpg] at hpg'
  cases hpg'
  rw [hkg, hext3.reserved] at hmap4
  rw [hks, hmap4, Function.update_of_ne hgo.symm, hps] at hps'
  cases hps'
  rw [hks, hmap4] at hmap5
  rw [hkf, hext6.reserved, hmap5, Function.update_of_ne hfo, Function.update_of_ne hfs, hpf] at hpf'
  cases hpf'
  rw [hkf, hext6.reserved, hmap5] at hmap7
  refine ⟨h7, fun key => ?_, view, hperm, hsorted, fun B hB => ?_⟩
  · rw [hmap7]
    by_cases hne1 : key = keyFileSize
    · rw [hne1, Function.update_self]
    · rw [Function.update_of_ne hne1]
      by_cases hne3 : key = keyStringOffsets fmg.version.wide
      · rw [hne3, Function.update_self]
      · rw [Function.update_of_ne hne3]
        by_cases hne2 : key = keyGroupCount
        · rw [hne2, Function.update_self]
        · rw [Function.update_of_ne hne2]
          exact hnone key hne1 hne2 hne3
  · obtain ⟨hB6, hfile⟩ := hfinal7 B hB
    obtain ⟨hB5, offsets, htable, htexts⟩ := hext6.final B hB6
    obtain ⟨hB4, htablePos⟩ := hfinal5 B hB5
    obtain ⟨hB3, hgroupCount⟩ := hfinal4 B hB4
    obtain ⟨hB1, -, hgroupTable⟩ := hext3.final B hB3
    rw [hbe5, hbe4, hbe3] at htable htexts
    rw [hlong4, hlong3, hbe4, hbe3] at htablePos
    rw [hext6.bigEndian, hbe5, hbe4, hbe3] at hfile
    rw [hbe3, hcount3, Int32.zero_add] at hgroupCount
    obtain ⟨hposition, hheaderAt⟩ := hlay (Int32.ofNat w6.position)
      (Int32.ofNat (fmgGroups 0 view).length) (Int64.ofNat w4.position)
    refine ⟨by rw [hperm.length_eq]; exact hcount, Int32.ofNat w6.position, w4.position, offsets,
      holds_append.2 ⟨(hheaderAt B hB1).2 hfile hgroupCount htablePos, ?_⟩, ?_, htexts⟩
    · have hpos2 : w2.position = w1.position := hwrote2.position
      rw [Nat.zero_add, ← hposition, ← hpos2]
      exact hgroupTable
    · rw [← hpos5]
      exact htable

theorem fmgSerializeBody_spec (hos : os.AsciiCompatible) (fmg : Fmg)
    (hfit : ∀ e ∈ fmg.entries, ∀ t, e.textUtf8 = some t → FmgFits os fmg.unicode t)
    {s : OStream} (hempty : s.memSize = 0) (hpos : s.memPos = 0) :
    Post (fmgSerializeBody os qs fmg) (createOver s fmg.bigEndian) fun body _ =>
      ∃ view : List FmgEntry, view.Perm fmg.entries ∧
        (view.Pairwise fun a b => a.id.toInt ≤ b.id.toInt) ∧ FmgImage os fmg view body := by
  intro body w' hrun
  obtain ⟨_, w1, halloc, hrun⟩ := bind_eq_ok.1 hrun
  obtain ⟨_, w2, hwrite, hrun⟩ := bind_eq_ok.1 hrun
  obtain ⟨_, w3, hfinish, hrun⟩ := bind_eq_ok.1 hrun
  have hw := atEnd_createOver hempty hpos fmg.bigEndian
  have hext := hw.extends (post_onHeap hw.inv.ready Heap.alloc _ _ halloc)
  have hstart : w1.position = 0 := by
    rw [(post_onHeap hw.inv.ready Heap.alloc _ _ halloc).position]
    exact hpos
  have hfree : ∀ key, w1.reserved key = none := fun key => by
    rw [hext.reserved]
    rfl
  obtain ⟨hend, -, view, hperm, hsorted, himage⟩ :=
    fmgWriteBody_spec hos fmg hfit hext.atEnd hstart hfree _ _ hwrite
  -- closing the writer keeps the content
  have hcontent : body = w2.content := by
    cases hrun
    rw [finish, state_bind_run] at hfinish
    by_cases hlive : 0 < w2.resLive
    · rw [check_bind_neg (not_not.2 hlive)] at hfinish
      cases hfinish
    · rw [check_bind_pos hlive] at hfinish
      cases hfinish
      rfl
  exact ⟨view, hperm, hsorted, hcontent ▸ himage _ (becomes_self hend)⟩

/-- **What a container is written to**: the image of a sorted view, behind the hash if there is one. -/
theorem fmgSerialize_spec (hos : os.AsciiCompatible) (fmg : Fmg)
    (hfit : ∀ e ∈ fmg.entries, ∀ t, e.textUtf8 = some t → FmgFits os fmg.unicode t)
    (md5 : List UInt8 → Except SfError (Vector UInt8 16)) (heap : Heap) :
    Post (fmgSerialize os qs md5 fmg) heap fun out _ => ∃ pre B, ∃ view : List FmgEntry,
      out = pre ++ B ∧ pre.length = (if fmg.hasMd5 then 16 else 0) ∧ view.Perm fmg.entries ∧
      (view.Pairwise fun a b => a.id.toInt ≤ b.id.toInt) ∧ FmgImage os fmg view B := by
  intro out heap' hrun
  rw [fmgSerialize] at hrun
  obtain ⟨_, h1, -, hrun⟩ := bind_eq_ok.1 hrun
  obtain ⟨body, h2, hbody, hrun⟩ := bind_eq_ok.1 hrun
  -- the room that was reserved is no content
  have hstream : ∃ s : OStream, s.memSize = 0 ∧ s.memPos = 0 ∧
      (if fmgEstimateOutputSize fmg ≠ SIZE_MAX then
        (OStream.reserve (fmgEstimateOutputSize fmg) (OStream.openMemory h1)).2
      else OStream.openMemory h1) = s := by
    split
    · obtain ⟨fresh, h, hkeeps⟩ := OStream.reserve_keeps (OStream.openMemory h1)
        (fmgEstimateOutputSize fmg)
      exact ⟨_, rfl, rfl, hkeeps⟩
    · exact ⟨_, rfl, rfl, rfl⟩
  obtain ⟨s, hempty, hpos, hs⟩ := hstream
  simp only [hs] at hbody
  have hrunBody : fmgSerializeBody os qs fmg (createOver s fmg.bigEndian)
      = (.ok body, (fmgSerializeBody os qs fmg (createOver s fmg.bigEndian)).2) :=
    Prod.ext (Prod.mk.inj hbody).1 rfl
  obtain ⟨view, hperm, hsorted, himage⟩ := fmgSerializeBody_spec hos fmg hfit hempty hpos _ _ hrunBody
  cases hmd5 : fmg.hasMd5 with
  | false =>
      rw [hmd5] at hrun
      cases hrun
      exact ⟨[], out, view, rfl, rfl, hperm, hsorted, himage⟩
  | true =>
      rw [hmd5] at hrun
      obtain ⟨hash, h3, -, hrun⟩ := bind_eq_ok.1 hrun
      obtain ⟨_, h4, -, hrun⟩ := bind_eq_ok.1 hrun
      obtain ⟨_, h5, -, hrun⟩ := bind_eq_ok.1 hrun
      cases hrun
      exact ⟨hash.toList, body, view, rfl, by simp, hperm, hsorted, himage⟩

/-! ## The ids at the end of their type -/

/-- At most one entry has the greatest id there is. -/
def Fmg.OneMaxId (fmg : Fmg) : Prop := (fmg.entries.filter fun e => e.id = Int32.maxValue).length ≤ 1

instance (fmg : Fmg) : Decidable fmg.OneMaxId := inferInstanceAs (Decidable (_ ≤ _))

/-- The grouping looks only behind entries with another id if the greatest one is there at most once. -/
theorem never_fmgWriteGroups (wide inGroup : Bool) (view : List FmgEntry) (i : Nat) (count : Int32)
    (hsorted : view.Pairwise fun a b => a.id.toInt ≤ b.id.toInt)
    (hmax : (view.filter fun e => e.id = Int32.maxValue).length ≤ 1) :
    Never .undefinedBehaviour (fmgWriteGroups wide i inGroup count view) := by
  induction view generalizing i inGroup count with
  | nil => exact Never.pure _
  | cons v view ih =>
      have hrest : (view.filter fun e => e.id = Int32.maxValue).length ≤ 1 :=
        ((List.sublist_cons_self v view).filter _).length_le.trans hmax
      have hfollows : Never .undefinedBehaviour (fmgFollows v view) := by
        cases view with
        | nil => exact Never.pure _
        | cons next view =>
            -- two entries with the greatest id: this one, and the next, whose id is not smaller
            have hv : v.id ≠ Int32.maxValue := by
              intro hv
              have hle := (List.pairwise_cons.1 hsorted).1 next List.mem_cons_self
              have hnext : next.id = Int32.maxValue := by
                rw [hv] at hle
                exact Int32.toInt_inj.1 (le_antisymm (Int32.toInt_le next.id) hle)
              rw [List.filter_cons_of_pos (by simpa using hv), List.filter_cons_of_pos (by simpa using hnext),
                List.length_cons, List.length_cons] at hmax
              omega
            intro w
            exact avoids_guard.2 ⟨hv, avoids_pure _⟩
      have htail : Never .undefinedBehaviour (do
          let follows ← fmgFollows v view
          if follows then fmgWriteGroups wide (i + 1) true count view
          else do
            writeI32 v.id
            if wide then writeI32 0
            fmgWriteGroups wide (i + 1) false (count + 1) view) := by
        have hnew := fun i count => ih false i count hsorted.of_cons hrest
        refine hfollows.bind fun follows => Never.ite (fun _ => ih _ _ _ hsorted.of_cons hrest) fun _ => ?_
        refine (never_writeScalar .i32 v.id).bind fun _ => Never.ite (fun _ => ?_) fun _ => hnew _ _
        exact (never_writeScalar .i32 0).bind fun _ => hnew _ _
      rw [fmgWriteGroups]
      cases inGroup with
      | true => exact htail
      | false => exact (never_writeScalar .i32 _).bind fun _ => (never_writeScalar .i32 v.id).bind fun _ => htail

theorem never_writeOneString (unicode : Bool) (text : List UInt8) :
    Never .undefinedBehaviour (writeOneString os unicode text) := by
  refine Never.state.bind fun w => Never.ite (fun _ => Never.ite (fun _ => ?_) fun _ => never_writeBytes _) fun _ =>
    Never.ite (fun _ => never_writeStr _ _ fun be => never_utf16Encode os be _ _) fun _ =>
      never_writeStr _ _ fun _ => never_utf8ToMbcs os _ _ _
  refine (Never.check (by decide)).bind fun _ => Never.ite (fun _ => ?_) fun _ => never_writeBytes _
  exact never_alloc.bind fun _ => never_writeBytes _

theorem never_fmgDedupStrings (unicode : Bool) (view : List FmgEntry) (slots : List (Slot FmgDedupSlot)) :
    Never .undefinedBehaviour (fmgDedupStrings os unicode view slots) := by
  induction view generalizing slots with
  | nil => exact Never.pure _
  | cons v view ih =>
      unfold fmgDedupStrings
      split
      · exact (ih _).bind fun _ => Never.pure _
      · dsimp only
        split
        · exact Never.fail (by decide)
        · split
          · exact (ih _).bind fun _ => Never.pure _
          · exact (Never.peek _).bind fun _ => (never_writeOneString _ _).bind fun _ => (ih _).bind fun _ =>
              Never.pure _

theorem never_fmgEmitStrings (fmg : Fmg) (view : List FmgEntry) :
    Never .undefinedBehaviour (fmgEmitStrings os fmg view) := by
  have hsimple : Never .undefinedBehaviour (fmgEmitStringsSimple os fmg.unicode view) := by
    induction view with
    | nil => exact Never.pure _
    | cons v view ih =>
        unfold fmgEmitStringsSimple
        split
        · exact ih.bind fun _ => Never.pure _
        · exact (Never.peek _).bind fun _ => (never_writeOneString _ _).bind fun _ => ih.bind fun _ => Never.pure _
  refine Never.ite (fun _ => ?_) fun _ => hsimple
  unfold fmgEmitStringsDedup
  split
  · exact Never.fail (by decide)
  · exact never_alloc.bind fun _ => never_fmgDedupStrings _ _ _

theorem never_fmgPatchOffsets (tablePos : Nat) (offsets : List Int64) :
    Never .undefinedBehaviour (fmgPatchOffsets tablePos offsets) := by
  refine (never_stepIn _).bind fun _ => ?_
  refine Never.attempt_bind (never_writeEach (never_writeScalar .varint) offsets) (fun _ => ?_) fun err herr => ?_
  · exact Never.attempt_bind never_stepOut (fun _ => Never.pure _) fun err herr => Never.fail herr
  · exact (Never.attempt _).bind fun _ => Never.fail herr

theorem never_fmgWriteStrings (fmg : Fmg) (view : List FmgEntry) (tablePos : Nat) :
    Never .undefinedBehaviour (fmgWriteStrings os fmg view tablePos) := by
  have hrest := fun offsets => never_fmgPatchOffsets tablePos offsets
  refine Never.ite (fun _ => ?_) fun _ => ?_
  · refine (Never.check (by decide)).bind fun _ => (never_writePattern _ _).bind fun _ => never_alloc.bind fun _ => ?_
    exact (never_fmgEmitStrings _ _).bind fun _ => Never.ite (fun _ => hrest _) fun _ => Never.pure _
  · exact (never_fmgEmitStrings _ _).bind fun _ => Never.ite (fun _ => hrest _) fun _ => Never.pure _

theorem never_fmgWriteHeader (fmg : Fmg) : Never .undefinedBehaviour (fmgWriteHeader fmg) := by
  have hu8 := fun v => never_writeScalar .u8 v
  refine (Never.update _).bind fun _ => (Never.update _).bind fun _ => (hu8 _).bind fun _ =>
    (never_writeScalar .bool _).bind fun _ => (hu8 _).bind fun _ => (hu8 _).bind fun _ =>
    (never_reserveScalar _ _).bind fun _ => (never_writeScalar .bool _).bind fun _ => (hu8 _).bind fun _ =>
    (hu8 _).bind fun _ => (hu8 _).bind fun _ => (Never.check (by decide)).bind fun _ =>
    (never_reserveScalar _ _).bind fun _ => (never_writeScalar .i32 _).bind fun _ => Never.ite (fun _ => ?_) fun _ => ?_
  · exact (never_writeScalar .i32 _).bind fun _ => (never_reserveScalar _ _).bind fun _ => never_writeScalar .varint _
  · exact (never_reserveScalar _ _).bind fun _ => never_writeScalar .varint _

/-- No sum of the writer overflows if at most one entry has the greatest id. -/
theorem never_fmgWriteBody (qs : Qsort) {fmg : Fmg} (hmax : fmg.OneMaxId) :
    Never .undefinedBehaviour (fmgWriteBody os qs fmg) := by
  refine (never_fmgWriteHeader fmg).bind fun _ => fun w => avoids_bind.2 ⟨?_, fun view w1 hview => ?_⟩
  · exact Never.ite (fun _ => never_alloc.bind fun _ => Never.pure _) (fun _ => Never.pure _) w
  · have hsorted : view.Perm fmg.entries ∧ view.Pairwise fun a b => a.id.toInt ≤ b.id.toInt := by
      unfold fmgSortView at hview
      split at hview
      · obtain ⟨_, w2, -, hpure⟩ := bind_eq_ok.1 hview
        cases hpure
        exact ⟨qs.perm _ _, qs.sorted _ _ compareSortViewById_le _⟩
      · next hcount =>
          cases hview
          rw [List.length_eq_zero_iff.1 (Nat.eq_zero_of_not_pos hcount)]
          exact ⟨.refl _, .nil⟩
    have hgroups := never_fmgWriteGroups fmg.version.wide false view 0 0 hsorted.2
      ((hsorted.1.filter _).length_eq.trans_le hmax)
    refine (hgroups.bind fun _ => (never_fillScalar _ _ _).bind fun _ => (Never.peek _).bind fun _ =>
      (never_fillScalar _ _ _).bind fun _ => (never_fmgWriteStrings _ _ _).bind fun _ => (Never.peek _).bind fun _ =>
      never_fillScalar _ _ _) w1

end SoulsFormats
