import SoulsFormats.Script.Luainfo

set_option autoImplicit false

/-! # Lists of goals are read back where their layout is guessed

What the writer puts into the file is a `LuainfoFile`. The reader's probes find the byte order and the
layout of such a file exactly where these are `LuainfoDetectable`, and then it is read back. -/

namespace SoulsFormats

open Bytes Fallible BinaryReader BinaryWriter

/-! ## The slots -/

inductive LuainfoSlot where
  | name (index : Nat)
  | interrupt (index : Nat)
deriving DecidableEq, Repr

/-- The kind of an offset. -/
def luainfoOffsetKind (longFormat : Bool) : SfresKind := if longFormat then .i64 else .u32

def LuainfoSlot.key (longFormat : Bool) : LuainfoSlot → ResKey
  | name i => (luainfoNameLabel i, luainfoOffsetKind longFormat)
  | interrupt i => (luainfoInterruptLabel i, luainfoOffsetKind longFormat)

theorem luainfoLabels_ne (i j : Nat) : luainfoNameLabel i ≠ luainfoInterruptLabel j := by
  intro h
  have hhead := congrArg List.head? h
  rw [luainfoNameLabel, luainfoInterruptLabel, label, label, List.head?_append_of_ne_nil _ (by decide),
    List.head?_append_of_ne_nil _ (by decide)] at hhead
  exact absurd hhead (by decide)

theorem LuainfoSlot.key_inj (longFormat : Bool) : Function.Injective (key longFormat) := by
  intro s s' h
  have hname := congrArg Prod.fst h
  rcases s with i | i <;> rcases s' with j | j
  · rw [label_inj hname]
  · exact absurd hname (luainfoLabels_ne i j)
  · exact absurd hname.symm (luainfoLabels_ne j i)
  · rw [label_inj hname]

/-! ## The addresses -/

/-- The size of the record of a goal. -/
def luainfoRecordSize (longFormat : Bool) : Nat := if longFormat then 0x18 else 0x10

/-- The size of a text that is stored. -/
def luainfoTextSize (os : Win32) (info : Luainfo) (t : List UInt8) : Nat :=
  (storedText os info.longFormat info.bigEndian t).length

/-- Where the interrupt's name is if the goal's name is at `pos`. -/
def luainfoInterruptAt (os : Win32) (info : Luainfo) (pos : Nat) (goal : LuainfoGoal) : Nat :=
  pos + luainfoTextSize os info goal.name

/-- Where the next goal's name is. -/
def luainfoNext (os : Win32) (info : Luainfo) (pos : Nat) (goal : LuainfoGoal) : Nat :=
  luainfoInterruptAt os info pos goal
    + (goal.logicInterruptName.map (luainfoTextSize os info)).getD 0

namespace Luainfo

variable (info : Luainfo)

def goalAt (i : Nat) : Nat := 0x10 + i * luainfoRecordSize info.longFormat

/-- Where the names start. -/
def namesAt : Nat := info.goalAt info.goals.length

def nameAt (os : Win32) (i : Nat) : Nat :=
  (info.goals.take i).foldl (luainfoNext os info) info.namesAt

end Luainfo

def LuainfoSlot.addr (info : Luainfo) : LuainfoSlot → Nat
  | name i => info.goalAt i + if info.longFormat then 8 else 4
  | interrupt i => info.goalAt i + if info.longFormat then 16 else 8

def luainfoSlots (info : Luainfo) : FileSlots LuainfoSlot where
  key := LuainfoSlot.key info.longFormat
  addr := LuainfoSlot.addr info
  key_inj := LuainfoSlot.key_inj info.longFormat

theorem Luainfo.nameAt_succ {os : Win32} {info : Luainfo} {i : Nat} {goal : LuainfoGoal}
    (h : info.goals[i]? = some goal) :
    info.nameAt os (i + 1) = luainfoNext os info (info.nameAt os i) goal := by
  rw [nameAt, List.take_add_one, h, List.foldl_append]
  rfl

theorem Luainfo.nameAt_pos (os : Win32) (info : Luainfo) (i : Nat) : 0 < info.nameAt os i := by
  have hle : ∀ (goals : List LuainfoGoal) (pos : Nat),
      pos ≤ goals.foldl (luainfoNext os info) pos := by
    intro goals
    induction goals with
    | nil => exact fun pos => le_rfl
    | cons goal goals ih =>
        intro pos
        have hnext := ih (luainfoNext os info pos goal)
        simp only [List.foldl_cons]
        unfold luainfoNext luainfoInterruptAt at *
        omega
  have hfirst : 0 < info.namesAt := by
    unfold namesAt goalAt
    omega
  exact lt_of_lt_of_le hfirst (hle _ _)

/-! ## What is written -/

def luainfoStand (info : Luainfo) (pos : Nat) : Stand := ⟨pos, info.bigEndian, false⟩

/-- An offset in the file. -/
def luainfoOffsetBytes (info : Luainfo) (pos : Nat) : List UInt8 :=
  wordBytes info.bigEndian (if info.longFormat then 8 else 4) pos

def luainfoFlags (info : Luainfo) (goal : LuainfoGoal) : List UInt8 :=
  [if goal.battleInterrupt then 1 else 0] ++ ([if goal.logicInterrupt then 1 else 0]
    ++ scalarBytes info.bigEndian false .i16 0)

@[simp] theorem length_luainfoOffsetBytes (info : Luainfo) (pos : Nat) :
    (luainfoOffsetBytes info pos).length = if info.longFormat then 8 else 4 := length_wordBytes ..

@[simp] theorem length_luainfoFlags (info : Luainfo) (goal : LuainfoGoal) :
    (luainfoFlags info goal).length = 4 := by
  simp [luainfoFlags, length_scalarBytes, scalarKind, kindWidth]

/-- The record of a goal, `name` and `interrupt` being the offsets in its two slots. -/
def luainfoGoalBytes (info : Luainfo) (goal : LuainfoGoal) (name interrupt : Nat) : List UInt8 :=
  scalarBytes info.bigEndian false .i32 goal.id ++
    if info.longFormat then
      luainfoFlags info goal ++ (luainfoOffsetBytes info name ++ luainfoOffsetBytes info interrupt)
    else
      luainfoOffsetBytes info name ++ (luainfoOffsetBytes info interrupt ++ luainfoFlags info goal)

/-- Once its slots are filled, the record of the `i`-th goal is complete. -/
def LuainfoGoalWritten (info : Luainfo) (i : Nat) (goal : LuainfoGoal) (B : List UInt8) : Prop :=
  ∀ name interrupt,
    Holds B (LuainfoSlot.addr info (.name i)) (luainfoOffsetBytes info name) →
    Holds B (LuainfoSlot.addr info (.interrupt i)) (luainfoOffsetBytes info interrupt) →
    Holds B (info.goalAt i) (luainfoGoalBytes info goal name interrupt)

theorem lays_luainfoWriteGoal (info : Luainfo) (i : Nat) (goal : LuainfoGoal) :
    Lays (luainfoSlots info) (luainfoWriteGoal info.longFormat i goal)
      (luainfoStand info (info.goalAt i)) () (luainfoStand info (info.goalAt (i + 1)))
      (LuainfoGoalWritten info i goal) := by
  have hflags : ∀ (B : List UInt8) (p : Nat), Holds B p [if goal.battleInterrupt then 1 else 0] →
      Holds B (p + 1) [if goal.logicInterrupt then 1 else 0] →
      Holds B (p + 1 + 1) (scalarBytes info.bigEndian false .i16 0) →
      Holds B p (luainfoFlags info goal) := fun B p hbattle hlogic hzero =>
    holds_append.2 ⟨hbattle, holds_append.2 ⟨hlogic, hzero⟩⟩
  have hlen : (scalarBytes info.bigEndian false .i32 goal.id).length = 4 := length_scalarBytes ..
  unfold luainfoWriteGoal
  refine .scalar .i32 ?_
  by_cases hlong : info.longFormat = true
  · rw [if_pos hlong]
    refine .scalar .bool ?_
    refine .scalar .bool ?_
    refine .scalar .i16 ?_
    refine .reserve (k := .i64) (.name i) ?_ ?_ ?_
    · simp [luainfoSlots, LuainfoSlot.key, luainfoOffsetKind, hlong, scalarKind]
    · simp [luainfoSlots, LuainfoSlot.addr, hlong, scalarKind, kindWidth]
    refine .last (.reserve (k := .i64) (.interrupt i) ?_ ?_ ?_)
    · simp [luainfoSlots, LuainfoSlot.key, luainfoOffsetKind, hlong, scalarKind]
    · simp [luainfoSlots, LuainfoSlot.addr, hlong, scalarKind, kindWidth]
    refine .done ⟨rfl, ?_⟩ ?_
    · simp [luainfoStand, Luainfo.goalAt, luainfoRecordSize, hlong, Nat.succ_mul, scalarKind, kindWidth]
      omega
    · intro B hzero hlogic hbattle hid name interrupt hname hinterrupt
      simp only [luainfoGoalBytes, hlong, if_true, holds_append, hlen, length_luainfoFlags,
        length_luainfoOffsetBytes]
      simp only [LuainfoSlot.addr, hlong, if_true] at hname hinterrupt
      exact ⟨hid, hflags B _ hbattle hlogic hzero, hname, hinterrupt⟩
  · rw [if_neg hlong]
    refine .reserve (k := .u32) (.name i) ?_ ?_ ?_
    · simp [luainfoSlots, LuainfoSlot.key, luainfoOffsetKind, hlong, scalarKind]
    · simp [luainfoSlots, LuainfoSlot.addr, hlong, scalarKind, kindWidth]
    refine .reserve (k := .u32) (.interrupt i) ?_ ?_ ?_
    · simp [luainfoSlots, LuainfoSlot.key, luainfoOffsetKind, hlong, scalarKind]
    · simp [luainfoSlots, LuainfoSlot.addr, hlong, scalarKind, kindWidth]
    refine .scalar .bool ?_
    refine .scalar .bool ?_
    refine .last (.scalar .i16 (.done ⟨rfl, ?_⟩ ?_))
    · simp [luainfoStand, Luainfo.goalAt, luainfoRecordSize, hlong, Nat.succ_mul, scalarKind, kindWidth]
      omega
    · intro B hzero hlogic hbattle hid name interrupt hname hinterrupt
      simp only [luainfoGoalBytes, hlong, if_false, holds_append, hlen,
        length_luainfoOffsetBytes, Bool.false_eq_true]
      simp only [LuainfoSlot.addr, hlong, if_false, Bool.false_eq_true] at hname hinterrupt
      exact ⟨hid, hname, hinterrupt, hflags B _ hbattle hlogic hzero⟩

/-- An offset that can be stored. -/
def LuainfoFits (info : Luainfo) (pos : Nat) : Prop := info.longFormat = false → pos < 2 ^ 32

section

variable {info : Luainfo} {os : Win32} {pos : Nat} {Q : Unit → Stand → Prop} {G : Unit → Stand → List UInt8 → Prop}
  {f : Unit → WriteM Unit} {t : List UInt8}

theorem puts_luainfoFill {s : LuainfoSlot} {name : List UInt8} {v : Nat}
    (hs : s.key info.longFormat = (name, luainfoOffsetKind info.longFormat))
    (hf : LuainfoFits info v → Puts (luainfoSlots info) (f ()) (luainfoStand info pos) Q
      fun u st B => Holds B (s.addr info) (luainfoOffsetBytes info v) → G u st B) :
    Puts (luainfoSlots info) (luainfoFill info.longFormat name v >>= f) (luainfoStand info pos) Q G := by
  unfold luainfoFill
  by_cases hlong : info.longFormat = true
  · rw [if_pos hlong]
    refine .fill (k := .i64) s ?_
      ((hf fun hshort => absurd hlong (by simp [hshort])).mono fun _ _ _ B hG hheld => hG ?_)
    · show s.key info.longFormat = _
      rw [hs, luainfoOffsetKind, if_pos hlong]
      rfl
    · rw [luainfoOffsetBytes, if_pos hlong]
      rwa [scalarBytes_i64_ofNat] at hheld
  · rw [if_neg hlong, bind_assoc]
    refine .check fun hfits => ?_
    refine .fill (k := .u32) s ?_ ((hf fun _ => hfits).mono fun _ _ _ B hG hheld => hG ?_)
    · show s.key info.longFormat = _
      rw [hs, luainfoOffsetKind, if_neg hlong]
      rfl
    · rw [luainfoOffsetBytes, if_neg hlong]
      rwa [scalarBytes, UInt32.toNat_ofNat_of_lt' hfits] at hheld

theorem puts_luainfoWriteText (ht : TextFits os info.longFormat t)
    (hf : Puts (luainfoSlots info) (f ()) (luainfoStand info (pos + luainfoTextSize os info t)) Q
      fun u st B => Holds B pos (storedText os info.longFormat info.bigEndian t) → G u st B) :
    Puts (luainfoSlots info) (luainfoWriteText os info.longFormat t >>= f) (luainfoStand info pos) Q G := by
  unfold luainfoWriteText
  by_cases hlong : info.longFormat = true
  · rw [luainfoTextSize, hlong] at hf
    rw [if_pos hlong]
    exact .utf16 ht.noNul hf
  · rw [luainfoTextSize, Bool.eq_false_of_not_eq_true hlong] at hf
    rw [if_neg hlong]
    exact .shiftJis ht.noNul hf

theorem puts_luainfoWriteAt {s : LuainfoSlot} {name : List UInt8}
    (hs : s.key info.longFormat = (name, luainfoOffsetKind info.longFormat)) (ht : TextFits os info.longFormat t)
    (hf : LuainfoFits info pos → Puts (luainfoSlots info) (f ()) (luainfoStand info (pos + luainfoTextSize os info t)) Q
      fun u st B => Holds B (s.addr info) (luainfoOffsetBytes info pos) ∧
        Holds B pos (storedText os info.longFormat info.bigEndian t) → G u st B) :
    Puts (luainfoSlots info) (luainfoWriteAt os info.longFormat name t >>= f) (luainfoStand info pos) Q G := by
  rw [luainfoWriteAt, bind_assoc]
  refine .position ?_
  rw [bind_assoc]
  refine puts_luainfoFill hs fun hfits => ?_
  exact puts_luainfoWriteText ht ((hf hfits).mono fun _ _ _ B hG htext hslot => hG ⟨hslot, htext⟩)

end

/-- The names of a goal, and the slots that lead to them. -/
structure LuainfoStringsWritten (os : Win32) (info : Luainfo) (i : Nat) (goal : LuainfoGoal)
    (B : List UInt8) : Prop where
  nameFits : LuainfoFits info (info.nameAt os i)
  nameSlot : Holds B (LuainfoSlot.addr info (.name i)) (luainfoOffsetBytes info (info.nameAt os i))
  name : Holds B (info.nameAt os i) (storedText os info.longFormat info.bigEndian goal.name)
  absent : goal.logicInterruptName = none →
    Holds B (LuainfoSlot.addr info (.interrupt i)) (luainfoOffsetBytes info 0)
  interrupt : ∀ t, goal.logicInterruptName = some t →
    LuainfoFits info (luainfoInterruptAt os info (info.nameAt os i) goal) ∧
    Holds B (LuainfoSlot.addr info (.interrupt i))
      (luainfoOffsetBytes info (luainfoInterruptAt os info (info.nameAt os i) goal)) ∧
    Holds B (luainfoInterruptAt os info (info.nameAt os i) goal)
      (storedText os info.longFormat info.bigEndian t)

/-- The names of the goals can be stored. -/
def LuainfoNamesFit (os : Win32) (info : Luainfo) : Prop :=
  ∀ goal ∈ info.goals, TextFits os info.longFormat goal.name ∧
    ∀ t, goal.logicInterruptName = some t → TextFits os info.longFormat t

theorem lays_luainfoWriteGoalStrings {os : Win32} {info : Luainfo} (hfit : LuainfoNamesFit os info)
    {i : Nat} {goal : LuainfoGoal} (hi : info.goals[i]? = some goal) :
    Lays (luainfoSlots info) (luainfoWriteGoalStrings os info.longFormat i goal)
      (luainfoStand info (info.nameAt os i)) () (luainfoStand info (info.nameAt os (i + 1)))
      (LuainfoStringsWritten os info i goal) := by
  obtain ⟨hname, hinterrupt⟩ := hfit goal (List.mem_of_getElem? hi)
  unfold luainfoWriteGoalStrings
  refine puts_luainfoWriteAt (s := .name i) rfl hname fun hnameFits => ?_
  rcases hnone : goal.logicInterruptName with _ | t
  · refine .last (puts_luainfoFill (s := .interrupt i) rfl fun _ => .done ⟨rfl, ?_⟩ fun B hslot hheld => ?_)
    · simp [Luainfo.nameAt_succ hi, luainfoNext, luainfoInterruptAt, hnone]
    · exact ⟨hnameFits, hheld.1, hheld.2, fun _ => hslot, fun t ht => by simp [hnone] at ht⟩
  · refine .last (puts_luainfoWriteAt (s := .interrupt i) rfl (hinterrupt t hnone) fun hfits =>
      .done ⟨rfl, ?_⟩ fun B hheld' hheld => ?_)
    · simp [Luainfo.nameAt_succ hi, luainfoNext, luainfoInterruptAt, hnone]
    · refine ⟨hnameFits, hheld.1, hheld.2, fun h => by simp [hnone] at h, fun t' ht => ?_⟩
      rw [hnone] at ht
      cases ht
      exact ⟨hfits, hheld'.1, hheld'.2⟩

/-- **What the file of a list of goals holds.** -/
structure LuainfoFile (os : Win32) (info : Luainfo) (B : List UInt8) : Prop where
  magic : Holds B 0 (cstr "LUAI")
  version : Holds B 4 (scalarBytes info.bigEndian false .i32 1)
  goalCount : Holds B 8 (scalarBytes info.bigEndian false .i32 (Int32.ofNat info.goals.length))
  headerPad : Holds B 12 (scalarBytes info.bigEndian false .i32 0)
  goals : ∀ i goal, info.goals[i]? = some goal → LuainfoGoalWritten info i goal B
  strings : ∀ i goal, info.goals[i]? = some goal → LuainfoStringsWritten os info i goal B
  short : info.goals.length ≤ INT32_MAX

theorem luainfoWriteToMemory_ok {os : Win32} (hos : os.AsciiCompatible) {info : Luainfo}
    (hfit : LuainfoNamesFit os info) {heap : Heap} {out : List UInt8}
    (h : (luainfoWriteToMemory os info heap).1 = .ok out) :
    LuainfoFile os info out ∧ out.length ≤ SIZE_MAX := by
  have hlays : Lays (luainfoSlots info) (luainfoWriteBody os info) ⟨0, info.bigEndian, false⟩ ()
      (luainfoStand info (info.nameAt os info.goals.length
        + padLength (info.nameAt os info.goals.length) 0x10)) (LuainfoFile os info) := by
    unfold luainfoWriteBody
    refine .ascii hos (by decide) ?_
    refine .scalar .i32 ?_
    refine .check fun hshort => ?_
    refine .scalar .i32 ?_
    refine .scalar .i32 ?_
    have hstart : luainfoStand info (info.goalAt 0) = ⟨16, info.bigEndian, false⟩ := by
      simp [luainfoStand, Luainfo.goalAt]
    have hgoals := lays_forIndexed (S := luainfoSlots info) (P := fun i => luainfoStand info (info.goalAt i))
      info.goals fun i goal _ => lays_luainfoWriteGoal info i goal
    rw [hstart] at hgoals
    refine hgoals.seq ?_
    refine (lays_forIndexed (P := fun i => luainfoStand info (info.nameAt os i)) info.goals
      fun i goal hi => lays_luainfoWriteGoalStrings hfit hi).seq ?_
    refine .last (.pad (by decide) (.done ⟨rfl, rfl⟩ ?_))
    intro B hstrings hgoals hpad hcount hversion hmagic
    exact ⟨hmagic, hversion, hcount, hpad, hgoals, hstrings, hshort⟩
  obtain ⟨st, -, hfile, -, hsize⟩ := hlays.toMemory nofun h
  exact ⟨hfile, hsize⟩

/-! ## The layout -/

/-- The probes tell the layout. A single long record must be little-endian. A single short record must
    not be followed by a name of seven bytes, if its interrupt has a name: the offset of that is taken
    for a long one then. From two records on, the half of the first interrupt's offset that a long record
    has where a short one has a name's offset must be 0. -/
def LuainfoDetectable (os : Win32) (info : Luainfo) : Prop :=
  match info.goals with
  | [] => False
  | [goal] =>
    if info.longFormat then info.bigEndian = false
    else goal.logicInterruptName ≠ none → luainfoTextSize os info goal.name ≠ 8
  | goal :: _ :: _ =>
    info.longFormat = true → goal.logicInterruptName ≠ none →
      if info.bigEndian then luainfoInterruptAt os info info.namesAt goal % 2 ^ 32 = 0
      else luainfoInterruptAt os info info.namesAt goal < 2 ^ 32

/-- The offset in the interrupt's slot of a goal whose name is at `pos`. -/
def luainfoInterruptOffset (os : Win32) (info : Luainfo) (pos : Nat) (goal : LuainfoGoal) : Nat :=
  if goal.logicInterruptName = none then 0 else luainfoInterruptAt os info pos goal

section

variable {os : Win32} {info : Luainfo} {i : Nat} {goal : LuainfoGoal} {B : List UInt8}

theorem LuainfoStringsWritten.interruptSlot (h : LuainfoStringsWritten os info i goal B) :
    Holds B (LuainfoSlot.addr info (.interrupt i))
      (luainfoOffsetBytes info (luainfoInterruptOffset os info (info.nameAt os i) goal)) ∧
    LuainfoFits info (luainfoInterruptOffset os info (info.nameAt os i) goal) := by
  unfold luainfoInterruptOffset
  rcases hnone : goal.logicInterruptName with _ | t
  · exact ⟨h.absent hnone, fun _ => by simp⟩
  · exact ⟨(h.interrupt t hnone).2.1, (h.interrupt t hnone).1⟩

/-- The complete record of a goal. -/
theorem LuainfoFile.record (h : LuainfoFile os info B) (hi : info.goals[i]? = some goal) :
    Holds B (info.goalAt i) (luainfoGoalBytes info goal (info.nameAt os i)
      (luainfoInterruptOffset os info (info.nameAt os i) goal)) :=
  h.goals i goal hi _ _ (h.strings i goal hi).nameSlot (h.strings i goal hi).interruptSlot.1

/-- A probe reads the word that stands there. -/
theorem reads_probe {c : Cursor} {p q : Nat} (hheld : Holds c.mem p (wordBytes c.bigEndian 4 q))
    (hpos : c.pos ≤ c.mem.length) : Reads (getI32 p) c (UInt32.ofNat q).toInt32 c := by
  refine reads_get_parses (x := wordBytes c.bigEndian 4 q) hheld hpos ?_
  have h := parses_i32 { c with pos := p, steps := c.pos :: c.steps } (UInt32.ofNat q).toInt32
  rw [UInt32.toUInt32_toInt32, UInt32.toNat_ofNat'] at h
  have hmod : wordBytes c.bigEndian 4 (q % 2 ^ 32) = wordBytes c.bigEndian 4 q :=
    wordBytes_mod c.bigEndian 4 q
  rwa [hmod] at h

theorem probe_eq_iff {q k : Nat} (hk : k < 2 ^ 32) :
    (UInt32.ofNat q).toInt32 = (UInt32.ofNat k).toInt32 ↔ q % 2 ^ 32 = k := by
  have hinj : (UInt32.ofNat q).toInt32 = (UInt32.ofNat k).toInt32 ↔ UInt32.ofNat q = UInt32.ofNat k :=
    ⟨fun h => by simpa using congrArg Int32.toUInt32 h, fun h => by rw [h]⟩
  rw [hinj, ← UInt32.toNat_inj, UInt32.toNat_ofNat', UInt32.toNat_ofNat', Nat.mod_eq_of_lt hk]

/-! ## The probes -/

section

variable {c : Cursor} {v w : Int32}

/-- From two goals on, one probe decides. -/
theorem reads_luainfoDetect_many {n : Nat} (hn : 2 ≤ n) (hshort : n ≤ INT32_MAX)
    (hprobe : Reads (getI32 0x24) c v c) :
    Reads (luainfoDetect (Int32.ofNat n)) c (decide (v = 0)) c := by
  have hint : (Int32.ofNat n).toInt = n := by
    rw [Int32.toInt_ofNat_of_lt]
    have hmax : INT32_MAX = 2 ^ 31 - 1 := rfl
    omega
  have hne : Int32.ofNat n ≠ 0 := by
    intro h
    rw [h] at hint
    have hzero : (0 : Int32).toInt = 0 := rfl
    omega
  have hle : (2 : Int32) ≤ Int32.ofNat n := by
    rw [Int32.le_iff_toInt_le, hint]
    have htwo : (2 : Int32).toInt = 2 := rfl
    omega
  unfold luainfoDetect
  rw [if_neg hne, if_pos hle]
  exact hprobe.bind (Reads.pure _ _)

theorem luainfoDetect_one : luainfoDetect (Int32.ofNat 1) = (do
    let probeLong ← getI32 0x18
    if probeLong = 0x10 + 0x18 * 1 then pure true
    else do
      let probeShort ← getI32 0x14
      check (probeShort = 0x10 + 0x10 * 1) .unsupportedVersion
      pure false) := by
  unfold luainfoDetect
  rw [if_neg (by decide), if_neg (by decide)]

theorem reads_luainfoDetect_long (hprobe : Reads (getI32 0x18) c 0x28 c) :
    Reads (luainfoDetect (Int32.ofNat 1)) c true c := by
  rw [luainfoDetect_one]
  refine hprobe.bind ?_
  rw [if_pos (by decide)]
  exact Reads.pure _ _

theorem reads_luainfoDetect_short (hprobe : Reads (getI32 0x18) c v c) (hv : v ≠ 0x10 + 0x18 * 1)
    (hprobe' : Reads (getI32 0x14) c 0x20 c) :
    Reads (luainfoDetect (Int32.ofNat 1)) c false c := by
  rw [luainfoDetect_one]
  refine hprobe.bind ?_
  rw [if_neg hv]
  exact hprobe'.bind ((Reads.pure _ _).check (by decide))

theorem refuses_luainfoDetect (hprobe : Reads (getI32 0x18) c v c) (hv : v ≠ 0x10 + 0x18 * 1)
    (hprobe' : Reads (getI32 0x14) c w c) (hw : w ≠ 0x10 + 0x10 * 1) :
    Refuses (luainfoDetect (Int32.ofNat 1)) c := by
  rw [luainfoDetect_one]
  refine hprobe.refuses ?_
  rw [if_neg hv]
  exact hprobe'.refuses (refuses_check hw)

end

/-- Every offset is inside the file. -/
theorem LuainfoFile.interruptOffset_le (h : LuainfoFile os info B) (hi : info.goals[i]? = some goal) :
    luainfoInterruptOffset os info (info.nameAt os i) goal ≤ B.length := by
  unfold luainfoInterruptOffset
  rcases hnone : goal.logicInterruptName with _ | t
  · simp
  · have hheld := ((h.strings i goal hi).interrupt t hnone).2.2
    simpa using (Nat.le_add_right _ _).trans hheld.le

/-- The word that the probe for two goals finds is 0 if it has the layout right and the layout is long,
    or has it wrong and the layout is short. -/
theorem LuainfoFile.probe_many (h : LuainfoFile os info B) (hsize : B.length ≤ SIZE_MAX) {goal' : LuainfoGoal} {rest : List LuainfoGoal}
    (hgoals : info.goals = goal :: goal' :: rest) :
    ∃ q, Holds B 0x24 (wordBytes info.bigEndian 4 q) ∧
      (q % 2 ^ 32 = 0 ↔ (info.longFormat = true ↔ LuainfoDetectable os info)) := by
  have hfirst : info.goals[0]? = some goal := by rw [hgoals]; rfl
  have hsecond : info.goals[1]? = some goal' := by rw [hgoals]; rfl
  rcases hlong : info.longFormat with _ | _
  · have hslot := (h.strings 1 goal' hsecond).nameSlot
    have hfits := (h.strings 1 goal' hsecond).nameFits hlong
    have hpos := info.nameAt_pos os 1
    rw [LuainfoSlot.addr, luainfoOffsetBytes, Luainfo.goalAt, luainfoRecordSize, hlong] at hslot
    refine ⟨_, hslot, ?_⟩
    simp only [LuainfoDetectable, hgoals, hlong]
    rw [Nat.mod_eq_of_lt hfits]
    simp
    omega
  · have hslot := (h.strings 0 goal hfirst).interruptSlot.1
    rw [LuainfoSlot.addr, luainfoOffsetBytes, Luainfo.goalAt, luainfoRecordSize, hlong] at hslot
    have hslot' : Holds B 0x20 (wordBytes info.bigEndian (4 + 4)
      (luainfoInterruptOffset os info info.namesAt goal)) := hslot
    have hsmall : luainfoInterruptOffset os info info.namesAt goal / 256 ^ 4 < 2 ^ 32 := by
      have hmax : SIZE_MAX = 2 ^ 64 - 1 := rfl
      have hle : luainfoInterruptOffset os info info.namesAt goal ≤ B.length :=
        h.interruptOffset_le hfirst
      omega
    simp only [LuainfoDetectable, hgoals]
    unfold luainfoInterruptOffset at hslot' hsmall
    rcases hbe : info.bigEndian with _ | _
    · rw [hbe, wordBytes_false_add, holds_append, length_wordBytes] at hslot'
      refine ⟨_, hslot'.2, ?_⟩
      rw [Nat.mod_eq_of_lt hsmall]
      rcases goal.logicInterruptName with _ | t
      · simp
      · simp [hlong]
    · rw [hbe, wordBytes_true_add, holds_append, length_wordBytes] at hslot'
      refine ⟨_, hslot'.2, ?_⟩
      rcases goal.logicInterruptName with _ | t
      · simp
      · simp [hlong]

/-- The words that the probes for one goal find. -/
theorem LuainfoFile.probe_one (h : LuainfoFile os info B) (hgoals : info.goals = [goal]) :
    ∃ q q', Holds B 0x18 (wordBytes info.bigEndian 4 q) ∧
      Holds B 0x14 (wordBytes info.bigEndian 4 q') ∧
      if info.longFormat then (q % 2 ^ 32 = 0x28 ↔ LuainfoDetectable os info) ∧ q' % 2 ^ 32 ≠ 0x20
      else (q % 2 ^ 32 ≠ 0x28 ↔ LuainfoDetectable os info) ∧ q' % 2 ^ 32 = 0x20 := by
  have hfirst : info.goals[0]? = some goal := by rw [hgoals]; rfl
  have hnames : info.nameAt os 0 = 0x10 + luainfoRecordSize info.longFormat := by
    simp [Luainfo.nameAt, Luainfo.namesAt, Luainfo.goalAt, hgoals]
  have hname := (h.strings 0 goal hfirst).nameSlot
  obtain ⟨hinterrupt, hfits⟩ := (h.strings 0 goal hfirst).interruptSlot
  rw [hnames] at hname hinterrupt hfits
  rcases hlong : info.longFormat with _ | _
  · rw [LuainfoSlot.addr, luainfoOffsetBytes, Luainfo.goalAt, hlong] at hname
    rw [LuainfoSlot.addr, luainfoOffsetBytes, Luainfo.goalAt, hlong] at hinterrupt
    have hlt := hfits hlong
    refine ⟨_, _, hinterrupt, hname, ?_⟩
    rw [hlong] at hlt
    simp only [Bool.false_eq_true, if_false, Nat.mod_eq_of_lt hlt]
    refine ⟨?_, rfl⟩
    simp only [LuainfoDetectable, hgoals, hlong, luainfoInterruptOffset, luainfoInterruptAt,
      luainfoRecordSize]
    rcases goal.logicInterruptName with _ | t
    · simp
    · simp
      omega
  · have hflags := h.record hfirst
    rw [luainfoGoalBytes, holds_append, hlong, if_pos rfl, holds_append] at hflags
    have hword : luainfoFlags info goal
        = wordBytes info.bigEndian 4 (wordNat info.bigEndian (luainfoFlags info goal)) := by
      have h := wordBytes_wordNat info.bigEndian (luainfoFlags info goal)
      rw [length_luainfoFlags] at h
      exact h.symm
    have hflags' : Holds B 0x14 (luainfoFlags info goal) := by
      have hat := hflags.2.1
      rw [length_scalarBytes, Luainfo.goalAt, Nat.zero_mul] at hat
      exact hat
    have hnot : wordNat info.bigEndian (luainfoFlags info goal) % 2 ^ 32 ≠ 0x20 := by
      unfold luainfoFlags
      rcases info.bigEndian <;> rcases goal.battleInterrupt <;> rcases goal.logicInterrupt <;> decide
    rw [hword] at hflags'
    rw [LuainfoSlot.addr, luainfoOffsetBytes, Luainfo.goalAt, hlong] at hname
    have hname' : Holds B 0x18 (wordBytes info.bigEndian (4 + 4) 0x28) := hname
    simp only [LuainfoDetectable, hgoals, hlong, if_true]
    rcases hbe : info.bigEndian with _ | _
    · rw [hbe, wordBytes_false_add, holds_append] at hname'
      rw [hbe] at hflags' hnot
      exact ⟨_, _, hname'.1, hflags', by simp, hnot⟩
    · rw [hbe, wordBytes_true_add, holds_append] at hname'
      rw [hbe] at hflags' hnot
      exact ⟨_, _, hname'.1, hflags', by simp, hnot⟩

/-- **The probes find the layout exactly where it is detectable.** -/
theorem LuainfoFile.detect (h : LuainfoFile os info B) (hsize : B.length ≤ SIZE_MAX)
    (hne : info.goals ≠ []) {c : Cursor} (hmem : c.mem = B) (hbe : c.bigEndian = info.bigEndian)
    (hpos : c.pos ≤ c.mem.length) :
    (LuainfoDetectable os info →
      Reads (luainfoDetect (Int32.ofNat info.goals.length)) c info.longFormat c) ∧
    (¬ LuainfoDetectable os info →
      Reads (luainfoDetect (Int32.ofNat info.goals.length)) c (!info.longFormat) c ∨
      Refuses (luainfoDetect (Int32.ofNat info.goals.length)) c) := by
  subst hmem
  rcases hgoals : info.goals with _ | ⟨goal, _ | ⟨goal', rest⟩⟩
  · exact absurd hgoals hne
  · obtain ⟨q, q', hq, hq', hwords⟩ := h.probe_one hgoals
    rw [← hbe] at hq hq'
    have hprobe := reads_probe hq hpos
    have hprobe' := reads_probe hq' hpos
    have hlong : (UInt32.ofNat q).toInt32 = 0x10 + 0x18 * 1 ↔ q % 2 ^ 32 = 0x28 :=
      probe_eq_iff (k := 0x28) (by decide)
    have hshort : (UInt32.ofNat q').toInt32 = 0x10 + 0x10 * 1 ↔ q' % 2 ^ 32 = 0x20 :=
      probe_eq_iff (k := 0x20) (by decide)
    rcases hformat : info.longFormat with _ | _
    · rw [hformat, if_neg (by decide)] at hwords
      refine ⟨fun hdetect => ?_, fun hdetect => .inl ?_⟩
      · rw [hshort.2 hwords.2] at hprobe'
        exact reads_luainfoDetect_short hprobe (hlong.not.2 (hwords.1.2 hdetect)) hprobe'
      · rw [hlong.2 (not_not.1 (hwords.1.not.2 hdetect))] at hprobe
        exact reads_luainfoDetect_long hprobe
    · rw [hformat, if_pos rfl] at hwords
      refine ⟨fun hdetect => ?_, fun hdetect => .inr ?_⟩
      · rw [hlong.2 (hwords.1.2 hdetect)] at hprobe
        exact reads_luainfoDetect_long hprobe
      · exact refuses_luainfoDetect hprobe (hlong.not.2 (hwords.1.not.2 hdetect)) hprobe'
          (hshort.not.2 hwords.2)
  · obtain ⟨q, hq, hword⟩ := h.probe_many hsize hgoals
    rw [← hbe] at hq
    have hshort := h.short
    rw [hgoals] at hshort
    have hread := reads_luainfoDetect_many (n := (goal :: goal' :: rest).length) (by simp) hshort
      (reads_probe hq hpos)
    have hzero : (UInt32.ofNat q).toInt32 = 0 ↔ q % 2 ^ 32 = 0 := probe_eq_iff (k := 0) (by decide)
    refine ⟨fun hdetect => ?_, fun hdetect => .inl ?_⟩
    · have hval : decide ((UInt32.ofNat q).toInt32 = 0) = info.longFormat := by
        rw [Bool.eq_iff_iff, decide_eq_true_iff, hzero, hword]
        simp [hdetect]
      rwa [hval] at hread
    · have hval : decide ((UInt32.ofNat q).toInt32 = 0) = !info.longFormat := by
        rw [Bool.eq_iff_iff, decide_eq_true_iff, hzero, hword]
        simp [hdetect]
      rwa [hval] at hread

end

/-! ## The goals -/

/-- An offset as the reader gets it, which is signed in a long record. -/
def luainfoOffset (info : Luainfo) (pos : Nat) : Int :=
  if info.longFormat then (Int64.ofNat pos).toInt else pos

/-- The offsets of a goal can be told from negative ones. -/
def LuainfoNear (os : Win32) (info : Luainfo) (pos : Nat) (goal : LuainfoGoal) : Prop :=
  info.longFormat = true → pos < 2 ^ 63 ∧ luainfoInterruptOffset os info pos goal < 2 ^ 63

section

variable {os : Win32} {info : Luainfo} {i : Nat} {goal : LuainfoGoal} {B : List UInt8} {pos : Nat}

theorem luainfoOffset_of_lt (h : info.longFormat = true → pos < 2 ^ 63) :
    luainfoOffset info pos = pos := by
  unfold luainfoOffset
  split
  next hlong => exact Int64.toInt_ofNat_of_lt (h hlong)
  next => rfl

theorem luainfoOffset_neg (hlong : info.longFormat = true) (hle : 2 ^ 63 ≤ pos) (hlt : pos < 2 ^ 64) :
    luainfoOffset info pos < 0 := by
  have hsize : Int64.size = 2 ^ 64 := rfl
  rw [luainfoOffset, if_pos hlong, Int64.toInt_ofNat', Int.bmod_def, hsize]
  split <;> omega

/-- A record is read back. -/
theorem parses_luainfoReadRecord {name interrupt : Nat} (hname : LuainfoFits info name)
    (hinterrupt : LuainfoFits info interrupt) (c : Cursor) (hbe : c.bigEndian = info.bigEndian) :
    Parses (luainfoReadRecord info.longFormat) c (luainfoGoalBytes info goal name interrupt)
      { id := goal.id, battle := goal.battleInterrupt, logic := goal.logicInterrupt,
        nameOff := luainfoOffset info name, interruptOff := luainfoOffset info interrupt } := by
  unfold luainfoReadRecord luainfoGoalBytes luainfoOffsetBytes luainfoFlags luainfoOffset
  rw [← hbe]
  refine (parses_i32 c goal.id).bind ?_
  by_cases hlong : info.longFormat = true
  · simp only [if_pos hlong, List.append_assoc]
    refine (parses_bool _ _).bind ((parses_bool _ _).bind ((parses_i16 _ _).bind ?_))
    refine Parses.check rfl ((parses_i64_ofNat _ _).bind ?_)
    exact (parses_i64_ofNat _ _).map _
  · have hshort := Bool.eq_false_of_not_eq_true hlong
    have hname' := UInt32.toNat_ofNat_of_lt' (hname hshort)
    have hinterrupt' := UInt32.toNat_ofNat_of_lt' (hinterrupt hshort)
    simp only [if_neg hlong]
    refine (parses_u32_ofNat _ (hname hshort)).bind ?_
    refine (parses_u32_ofNat _ (hinterrupt hshort)).bind ?_
    refine (parses_bool _ _).bind ((parses_bool _ _).bind fun h => ?_)
    refine (parses_i16 _ _ h).bind (Reads.check rfl ?_)
    rw [hname', hinterrupt']
    exact Reads.pure _ _

/-- An offset leads to its text, unless the reader takes it for a negative one. -/
theorem reads_luainfoGetText {t : List UInt8} (ht : TextFits os info.longFormat t) {c : Cursor}
    (hbe : c.bigEndian = info.bigEndian) (hpos : c.pos ≤ c.mem.length)
    (hheld : Holds c.mem pos (storedText os info.longFormat info.bigEndian t))
    (hnear : info.longFormat = true → pos < 2 ^ 63) :
    Reads (luainfoGetText os info.longFormat (luainfoOffset info pos)) c t c := by
  rw [luainfoOffset_of_lt hnear]
  rw [← hbe] at hheld
  exact reads_getText ht hheld hpos

theorem refuses_luainfoGetText (hlong : info.longFormat = true) (hfar : 2 ^ 63 ≤ pos)
    (hlt : pos < 2 ^ 64) (c : Cursor) :
    Refuses (luainfoGetText os info.longFormat (luainfoOffset info pos)) c := by
  rw [luainfoGetText, if_pos hlong]
  exact refuses_get (luainfoOffset_neg hlong hfar hlt) _ c

/-- The interrupt's name is found by its offset, and its absence too. -/
theorem LuainfoStringsWritten.reads_interrupt (h : LuainfoStringsWritten os info i goal B)
    (hfit : ∀ t, goal.logicInterruptName = some t → TextFits os info.longFormat t) {c : Cursor}
    (hmem : c.mem = B) (hbe : c.bigEndian = info.bigEndian) (hpos : c.pos ≤ c.mem.length)
    (hnear : info.longFormat = true →
      luainfoInterruptOffset os info (info.nameAt os i) goal < 2 ^ 63) :
    Reads (luainfoGetInterrupt os info.longFormat
      (luainfoOffset info (luainfoInterruptOffset os info (info.nameAt os i) goal))) c
      goal.logicInterruptName c := by
  subst hmem
  unfold luainfoGetInterrupt
  rcases hnone : goal.logicInterruptName with _ | t
  · have hzero : luainfoOffset info 0 = 0 := luainfoOffset_of_lt fun _ => by omega
    rw [luainfoInterruptOffset, if_pos hnone, hzero, if_neg (by simp)]
    exact Reads.pure _ _
  · have hsome : goal.logicInterruptName ≠ none := by simp [hnone]
    rw [luainfoInterruptOffset, if_neg hsome] at hnear ⊢
    have hne : luainfoOffset info (luainfoInterruptAt os info (info.nameAt os i) goal) ≠ 0 := by
      have hname := info.nameAt_pos os i
      rw [luainfoOffset_of_lt hnear]
      unfold luainfoInterruptAt
      omega
    rw [if_pos hne]
    exact (reads_luainfoGetText (hfit t hnone) hbe hpos (h.interrupt t hnone).2.2 hnear).bind
      (Reads.pure _ _)

theorem refuses_luainfoGetInterrupt (hlong : info.longFormat = true) (hfar : 2 ^ 63 ≤ pos)
    (hlt : pos < 2 ^ 64) (c : Cursor) :
    Refuses (luainfoGetInterrupt os info.longFormat (luainfoOffset info pos)) c := by
  have hneg := luainfoOffset_neg hlong hfar hlt
  rw [luainfoGetInterrupt, if_pos hneg.ne]
  exact (refuses_luainfoGetText hlong hfar hlt c).bind

/-- **A goal is read back where its offsets are not too large**, and refused elsewhere. -/
theorem LuainfoFile.reads_goal (h : LuainfoFile os info B) (hsize : B.length ≤ SIZE_MAX)
    (hfit : LuainfoNamesFit os info) (hi : info.goals[i]? = some goal) {c : Cursor} (hmem : c.mem = B)
    (hbe : c.bigEndian = info.bigEndian) (hpos : c.pos = info.goalAt i) :
    (LuainfoNear os info (info.nameAt os i) goal →
      Reads (luainfoReadGoal os info.longFormat) c goal { c with pos := info.goalAt (i + 1) }) ∧
    (¬ LuainfoNear os info (info.nameAt os i) goal →
      Refuses (luainfoReadGoal os info.longFormat) c) := by
  have hmax : SIZE_MAX = 2 ^ 64 - 1 := rfl
  have hstrings := h.strings i goal hi
  obtain ⟨hname, hinterrupt⟩ := hfit goal (List.mem_of_getElem? hi)
  have hnameLe : info.nameAt os i ≤ B.length := (Nat.le_add_right _ _).trans hstrings.name.le
  have hinterruptLe := h.interruptOffset_le hi
  have hbytes := h.record hi
  rw [← hmem, ← hpos] at hbytes
  have hlen : (luainfoGoalBytes info goal (info.nameAt os i)
      (luainfoInterruptOffset os info (info.nameAt os i) goal)).length
        = luainfoRecordSize info.longFormat := by
    unfold luainfoGoalBytes luainfoRecordSize
    rcases hlong : info.longFormat with _ | _ <;>
      simp [hlong, length_scalarBytes, scalarKind, kindWidth]
  have hrecord := parses_luainfoReadRecord hstrings.nameFits hstrings.interruptSlot.2 c hbe hbytes
  have hafter : c.advance (luainfoRecordSize info.longFormat)
      = { c with pos := info.goalAt (i + 1) } := by
    unfold Cursor.advance
    rw [hpos, Luainfo.goalAt, Luainfo.goalAt, Nat.add_assoc, ← Nat.succ_mul]
  rw [hlen, hafter] at hrecord
  have hin : info.goalAt (i + 1) ≤ c.mem.length := by
    have hle := hbytes.le
    rw [hlen, hpos] at hle
    rwa [Luainfo.goalAt, Nat.succ_mul, ← Nat.add_assoc]
  subst hmem
  have hget (hnear : info.longFormat = true → info.nameAt os i < 2 ^ 63) :=
    reads_luainfoGetText (c := { c with pos := info.goalAt (i + 1) }) hname hbe hin hstrings.name hnear
  unfold luainfoReadGoal
  refine ⟨fun hnear => ?_, fun hfar => ?_⟩
  · refine hrecord.bind ((hget fun hlong => (hnear hlong).1).bind ?_)
    refine (hstrings.reads_interrupt (c := { c with pos := info.goalAt (i + 1) }) hinterrupt rfl hbe hin fun hlong => (hnear hlong).2).bind ?_
    exact reads_alloc _ fun _ => Reads.pure _ _
  · obtain ⟨hlong, hfar⟩ := Classical.not_imp.1 hfar
    refine hrecord.refuses ?_
    by_cases hnear : info.nameAt os i < 2 ^ 63
    · exact (hget fun _ => hnear).refuses
        (refuses_luainfoGetInterrupt hlong (by omega) (by omega) _).bind
    · exact (refuses_luainfoGetText hlong (by omega) (by omega) _).bind

/-- There is room for one more goal, unless the list is of an absurd length. -/
theorem reads_luainfoReserveOne (info : Luainfo) (c : Cursor) (hlen : info.goals.length ≤ 2 ^ 32)
    (hcap : info.goalCapacity ≤ max 8 (2 * info.goals.length)) :
    ∃ cap ≤ max 8 (2 * (info.goals.length + 1)),
      Reads (onHeap (luainfoReserveOne info)) c { info with goalCapacity := cap } c := by
  have hmax : SIZE_MAX = 2 ^ 64 - 1 := rfl
  unfold luainfoReserveOne
  split
  · exact ⟨info.goalCapacity, by omega, reads_onHeap (Steady.pure info) rfl c⟩
  · have hnew : (if info.goalCapacity ≠ 0 then info.goalCapacity * 2 else 8)
        ≤ max 8 (2 * (info.goals.length + 1)) := by
      split <;> omega
    refine ⟨_, hnew, reads_onHeap (Steady.check_bind (Steady.pure _).alloc_bind) ?_ c⟩
    rw [granted_eq_some]
    exact ⟨_, check_bind_pos (by omega) _ _ _⟩

/-- **The goals from the `i`-th on are read back**, if their offsets are not too large. -/
theorem LuainfoFile.reads_goals (h : LuainfoFile os info B) (hsize : B.length ≤ SIZE_MAX)
    (hfit : LuainfoNamesFit os info) (rest : List LuainfoGoal) (hrest : info.goals.drop i = rest)
    (info' : Luainfo) (hdone : info'.goals.length = i) (hlong : info'.longFormat = info.longFormat)
    (hcap : info'.goalCapacity ≤ max 8 (2 * info'.goals.length)) {c : Cursor} (hmem : c.mem = B)
    (hbe : c.bigEndian = info.bigEndian) (hpos : c.pos = info.goalAt i) :
    ((∀ j goal, i ≤ j → info.goals[j]? = some goal →
        LuainfoNear os info (info.nameAt os j) goal) →
      ∃ cap c', Reads (luainfoReadGoals os rest.length info') c
        { info' with goals := info'.goals ++ rest, goalCapacity := cap } c') ∧
    (¬ (∀ j goal, i ≤ j → info.goals[j]? = some goal →
        LuainfoNear os info (info.nameAt os j) goal) →
      Refuses (luainfoReadGoals os rest.length info') c) := by
  induction rest generalizing i info' c with
  | nil =>
      have hlen : info.goals.length ≤ i := List.drop_eq_nil_iff.1 hrest
      refine ⟨fun _ => ⟨info'.goalCapacity, c, ?_⟩, fun hfar => absurd ?_ hfar⟩
      · rw [List.append_nil]
        exact Reads.pure _ _
      · intro j goal hj hgoal
        have hlt := (List.getElem?_eq_some_iff.1 hgoal).1
        omega
  | cons goal rest ih =>
      have hi : info.goals[i]? = some goal := by
        have hhead := congrArg List.head? hrest
        rwa [List.head?_drop] at hhead
      have htail : info.goals.drop (i + 1) = rest := by
        rw [← List.tail_drop, hrest, List.tail_cons]
      have hmax : INT32_MAX = 2 ^ 31 - 1 := rfl
      have hshort := h.short
      have hlt := (List.getElem?_eq_some_iff.1 hi).1
      obtain ⟨hread, hrefuse⟩ := h.reads_goal hsize hfit hi hmem hbe hpos
      obtain ⟨cap, hcap', hreserve⟩ := reads_luainfoReserveOne info'
        { c with pos := info.goalAt (i + 1) } (by omega) hcap
      obtain ⟨hgoals, hnone⟩ := ih htail
        { info' with goals := info'.goals ++ [goal], goalCapacity := cap }
        (by rw [List.length_append, hdone]; rfl) hlong
        (by simpa only [List.length_append, List.length_singleton] using hcap')
        (c := { c with pos := info.goalAt (i + 1) }) hmem hbe rfl
      rw [← hlong] at hread hrefuse
      rw [List.length_cons, luainfoReadGoals]
      refine ⟨fun hnear => ?_, fun hfar => ?_⟩
      · obtain ⟨cap', c', hloop⟩ := hgoals fun j goal hj hgoal => hnear j goal (by omega) hgoal
        rw [List.append_assoc] at hloop
        exact ⟨cap', c', (hread (hnear i goal le_rfl hi)).bind (hreserve.bind hloop)⟩
      · by_cases hhere : LuainfoNear os info (info.nameAt os i) goal
        · refine (hread hhere).refuses (hreserve.refuses (hnone fun hthere => hfar ?_))
          intro j goal' hj hgoal'
          rcases Nat.eq_or_lt_of_le hj with rfl | hj
          · rw [hi] at hgoal'
            cases hgoal'
            exact hhere
          · exact hthere j goal' hj hgoal'
        · exact (hrefuse hhere).bind

/-! ## The whole run -/

theorem parses_assertAscii {text : List UInt8} (hlen : text.length ≤ 64) (c : Cursor) :
    Parses (assertAscii text) c text () := by
  intro h
  unfold assertAscii
  rw [if_neg (by omega)]
  refine (parses_bytes c text h).bind ?_
  rw [← bind_pure (check _ _)]
  exact (Reads.pure () _).check rfl

/-- The version, as a little-endian reader sees it. -/
theorem reads_luainfoVersion (info : Luainfo) {c : Cursor} (hbe : c.bigEndian = false)
    (h : Holds c.mem c.pos (scalarBytes info.bigEndian false .i32 1)) :
    ∃ v, Reads readI32 c v (c.advance 4) ∧
      Reads (luainfoByteOrder v) (c.advance 4) info.bigEndian (c.advance 4) := by
  rcases hinfo : info.bigEndian with _ | _
  · rw [hinfo] at h
    have hread := parses_i32 c 1
    rw [hbe] at hread
    exact ⟨1, hread h, Reads.pure _ _⟩
  · rw [hinfo] at h
    have hread := parses_i32 c 0x01000000
    rw [hbe] at hread
    exact ⟨0x01000000, hread h, (Reads.pure _ _).check rfl⟩

/-- What the reader does with the header, up to the probes. -/
theorem LuainfoFile.leads_header (h : LuainfoFile os info B) (flexible : Bool) :
    Leads luainfoReadHeader ⟨B, 0, false, false, [], flexible⟩
      (luainfoDetect (Int32.ofNat info.goals.length) >>= fun long =>
        pure (info.bigEndian, long, info.goals.length))
      ⟨B, 0x10, info.bigEndian, false, [], flexible⟩ := by
  have hmax : INT32_MAX = 2 ^ 31 - 1 := rfl
  have hshort := h.short
  have hint : (Int32.ofNat info.goals.length).toInt = info.goals.length :=
    Int32.toInt_ofNat_of_lt (by omega)
  have hcount : (0 : Int32) ≤ Int32.ofNat info.goals.length := by
    rw [Int32.le_iff_toInt_le, hint]
    exact Int.natCast_nonneg _
  obtain ⟨v, hversion, horder⟩ := reads_luainfoVersion info
    (c := ⟨B, 4, false, false, [], flexible⟩) rfl h.version
  unfold luainfoReadHeader
  refine (parses_assertAscii (by decide) _ h.magic).leads ?_
  refine hversion.leads (horder.leads ((Reads.setBigEndian _ _).leads ?_))
  refine (reads_i32 (c := ⟨B, 8, info.bigEndian, false, [], flexible⟩) h.goalCount).leads ?_
  refine Leads.check hcount ?_
  refine (reads_i32 (c := ⟨B, 12, info.bigEndian, false, [], flexible⟩) h.headerPad).leads ?_
  refine Leads.check rfl ?_
  rw [hint]
  exact Leads.refl _ _

theorem luainfoReserveOne_flags (info : Luainfo) (heap : Heap) :
    Post (luainfoReserveOne info) heap fun info' _ => info'.longFormat = info.longFormat := by
  unfold luainfoReserveOne
  refine Post.ite (fun _ => Post.pure rfl) fun _ => ?_
  refine Post.bind (P := fun _ _ => True) (Post.check fun _ => trivial) fun _ _ _ => ?_
  exact Post.bind (P := fun _ _ => True) (fun _ _ _ => trivial) fun _ _ _ => Post.pure rfl

theorem luainfoReadGoals_flags (n : Nat) (info : Luainfo) (r : BinaryReader) :
    Post (luainfoReadGoals os n info) r fun info' _ => info'.longFormat = info.longFormat := by
  induction n generalizing info r with
  | zero => exact Post.pure rfl
  | succ n ih =>
      refine Post.bind (P := fun _ _ => True) (fun _ _ _ => trivial) fun goal r1 _ => ?_
      refine Post.bind (P := fun info1 _ => info1.longFormat = info.longFormat)
        (Post.zoom (luainfoReserveOne_flags info r1.heap)) fun info1 r2 hflags => ?_
      exact (ih _ r2).mono fun info' _ h => h.trans hflags

/-- The layout of a list that has been read is the one that the header has shown. -/
theorem luainfoReadFromMemory_flags {flexible be long : Bool} {n : Nat} {c' : Cursor}
    (hheader : Reads luainfoReadHeader ⟨B, 0, false, false, [], flexible⟩ (be, long, n) c')
    {heap : Heap} (hcalm : heap.Calm) (hread : (luainfoReadFromMemory os flexible B heap).1 = .ok info) :
    info.longFormat = long := by
  have hrun : luainfoReadFromMemory os flexible B heap
      = (.ok info, (luainfoReadFromMemory os flexible B heap).2) := Prod.ext hread rfl
  obtain ⟨_, h1, hcheck, hrun⟩ := bind_eq_ok.1 hrun
  have hheap : h1 = heap := by
    rw [check_run] at hcheck
    split at hcheck <;> cases hcheck
    rfl
  subst hheap
  obtain ⟨h2, r', hrun, hcalm2⟩ := onMemory_eq_ok (congrArg Prod.fst hrun)
  obtain ⟨r1, hflags, -, -⟩ := hheader (create B false flexible h2) rfl (hcalm2 hcalm)
  rw [luainfoRead, bind_ok hflags] at hrun
  obtain ⟨info1, r2, hcreate, hrun⟩ := bind_eq_ok.1 hrun
  have hinfo1 : info1.longFormat = long := by
    have hcreate' : (luainfoCreate be long r1.heap).1 = .ok info1 := (Prod.mk.inj hcreate).1
    obtain ⟨_, h3, -, hpure⟩ := bind_eq_ok.1 (Prod.ext hcreate' rfl :
      luainfoCreate be long r1.heap = (.ok info1, (luainfoCreate be long r1.heap).2))
    cases hpure
    rfl
  exact (luainfoReadGoals_flags _ _ _ _ _ hrun).trans hinfo1

/-- Every offset that a long record holds is one that the reader can tell from a negative one. -/
def LuainfoAllNear (os : Win32) (info : Luainfo) : Prop :=
  ∀ i goal, info.goals[i]? = some goal → LuainfoNear os info (info.nameAt os i) goal

/-- What the reader does with a file, once it knows the layout. -/
theorem LuainfoFile.reads (h : LuainfoFile os info B) (hsize : B.length ≤ SIZE_MAX)
    (hfit : LuainfoNamesFit os info) (hne : info.goals ≠ []) (hdetect : LuainfoDetectable os info)
    (flexible : Bool) :
    (LuainfoAllNear os info → ∃ cap c', Reads (luainfoRead os) ⟨B, 0, false, false, [], flexible⟩
      { info with goalCapacity := cap } c') ∧
    (¬ LuainfoAllNear os info → Refuses (luainfoRead os) ⟨B, 0, false, false, [], flexible⟩) := by
  let c : Cursor := ⟨B, 0x10, info.bigEndian, false, [], flexible⟩
  have hpos : c.pos ≤ c.mem.length := by
    have hle := h.headerPad.le
    rwa [length_scalarBytes] at hle
  have hheader : Reads luainfoReadHeader ⟨B, 0, false, false, [], flexible⟩
      (info.bigEndian, info.longFormat, info.goals.length) c :=
    (h.leads_header flexible).reads
      (((h.detect hsize hne rfl rfl hpos).1 hdetect).bind (Reads.pure _ _))
  have hcreate : Reads (onHeap (luainfoCreate info.bigEndian info.longFormat)) c
      { bigEndian := info.bigEndian, longFormat := info.longFormat, goals := [], goalCapacity := 0 } c :=
    reads_onHeap (Steady.pure _).alloc_bind rfl c
  have hstart : c.pos = info.goalAt 0 := by simp [c, Luainfo.goalAt]
  obtain ⟨hread, hrefuse⟩ := h.reads_goals hsize hfit info.goals rfl
    { bigEndian := info.bigEndian, longFormat := info.longFormat, goals := [], goalCapacity := 0 } rfl rfl
    (Nat.zero_le _) (c := c) rfl rfl hstart
  refine ⟨fun hnear => ?_, fun hfar => ?_⟩
  · obtain ⟨cap, c', hgoals⟩ := hread fun j goal _ hj => hnear j goal hj
    exact ⟨cap, c', hheader.bind (hcreate.bind hgoals)⟩
  · exact hheader.refuses (hcreate.refuses (hrefuse fun hnear =>
      hfar fun j goal hj => hnear j goal (Nat.zero_le j) hj))

/-- **A list of goals is read back exactly where its layout is detectable**, unless an offset is so large
    that it is negative. -/
theorem luainfo_is_read_back_iff (os : Win32) (hos : os.AsciiCompatible) (info : Luainfo)
    (hne : info.goals ≠ []) (hfit : LuainfoNamesFit os info) (heap : Heap) (out : List UInt8)
    (hwrite : (luainfoWriteToMemory os info heap).1 = .ok out) (flexible : Bool) (heap' : Heap)
    (hcalm : heap'.Calm) :
    (∃ info', (luainfoReadFromMemory os flexible out heap').1 = .ok info' ∧
      info'.bigEndian = info.bigEndian ∧ info'.longFormat = info.longFormat ∧
      info'.goals = info.goals) ↔
    LuainfoDetectable os info ∧ LuainfoAllNear os info := by
  obtain ⟨hfile, hsize⟩ := luainfoWriteToMemory_ok hos hfit hwrite
  have hmagic : luainfoIs out = true := by
    have hheld := hfile.magic.take_drop
    rw [List.drop_zero] at hheld
    exact decide_eq_true hheld
  have hrun : luainfoReadFromMemory os flexible out heap'
      = onMemory out false flexible (luainfoRead os) heap' := by
    rw [luainfoReadFromMemory, check_bind_pos hmagic]
  have hpos : 0x10 ≤ out.length := by
    have hle := hfile.headerPad.le
    rwa [length_scalarBytes] at hle
  constructor
  · rintro ⟨info', hread, -, hlong, -⟩
    have hdetect : LuainfoDetectable os info := by
      by_contra hnot
      have hlead := hfile.leads_header flexible
      rcases (hfile.detect (c := ⟨out, 0x10, info.bigEndian, false, [], flexible⟩) hsize hne rfl rfl
        hpos).2 hnot with hother | hrefuse
      · have hflags := luainfoReadFromMemory_flags (hlead.reads (hother.bind (Reads.pure _ _))) hcalm
          hread
        rw [hlong] at hflags
        exact absurd hflags (by simp)
      · rw [hrun] at hread
        exact onMemory_refuses (hlead.refuses hrefuse.bind).bind hcalm info' hread
    refine ⟨hdetect, ?_⟩
    by_contra hfar
    rw [hrun] at hread
    exact onMemory_refuses ((hfile.reads hsize hfit hne hdetect flexible).2 hfar) hcalm info' hread
  · rintro ⟨hdetect, hnear⟩
    obtain ⟨cap, c', hread⟩ := (hfile.reads hsize hfit hne hdetect flexible).1 hnear
    obtain ⟨_, hok, -⟩ := onMemory_ok hread hcalm
    refine ⟨{ info with goalCapacity := cap }, ?_, rfl, rfl, rfl⟩
    rw [hrun, hok]

end

/-- What a list of goals with ASCII names is written to. -/
def luainfoBytes (info : Luainfo) : List UInt8 :=
  (luainfoWriteToMemory .ascii info []).1.toOption.getD []

/-- Two goals, one without an interrupt and one whose interrupt has an empty name. -/
def luainfoSample : Luainfo :=
  { bigEndian := true, longFormat := false, goalCapacity := 8
    goals :=
      [{ id := 1, battleInterrupt := true, logicInterrupt := false, name := [65],
         logicInterruptName := none },
       { id := -2, battleInterrupt := false, logicInterrupt := true, name := [66, 67],
         logicInterruptName := some [] }] }

theorem luainfo_sample_is_read_back :
    ∃ info', (luainfoReadFromMemory .ascii false (luainfoBytes luainfoSample) []).1 = .ok info' ∧
      info'.bigEndian = luainfoSample.bigEndian ∧ info'.longFormat = luainfoSample.longFormat ∧
      info'.goals = luainfoSample.goals := by
  have hplain : ∀ goal ∈ luainfoSample.goals, ∀ t ∈ goal.name :: goal.logicInterruptName.toList,
      Win32.isPlain t = true ∧ t.length ≤ INT32_MAX := by decide +kernel
  have htext : ∀ goal ∈ luainfoSample.goals, ∀ t ∈ goal.name :: goal.logicInterruptName.toList,
      TextFits .ascii luainfoSample.longFormat t := fun goal hgoal t ht =>
    TextFits.plain Win32.ascii_compatible (hplain goal hgoal t ht)
  have hfit : LuainfoNamesFit .ascii luainfoSample := fun goal hgoal =>
    ⟨htext goal hgoal goal.name List.mem_cons_self, fun t ht =>
      htext goal hgoal t (List.mem_cons_of_mem _ (by simp [ht]))⟩
  have hshort : luainfoSample.longFormat ≠ true := by decide
  exact (luainfo_is_read_back_iff .ascii Win32.ascii_compatible luainfoSample (by decide) hfit []
    (luainfoBytes luainfoSample) (by decide +kernel) false [] Heap.calm_nil).2
    ⟨fun hlong => absurd hlong hshort, fun _ _ _ hlong => absurd hlong hshort⟩

/-- The probe for a single long record finds the high half of a big-endian offset. -/
theorem luainfo_single_goal_is_not_read_back :
    let info := { luainfoSample with longFormat := true, goals := luainfoSample.goals.take 1 }
    (luainfoWriteToMemory .ascii info []).1 = .ok (luainfoBytes info) ∧
      (luainfoReadFromMemory .ascii false (luainfoBytes info) []).1 = .error .unsupportedVersion := by
  decide +kernel

end SoulsFormats
