import SoulsFormats.Core.Texts

set_option autoImplicit false

/-! # Lists of global names

The reader and the writer of `luagnl.c`. The file has no header: it is a table of offsets that ends with
a 0, and the names. The reader takes the byte order and the width of the offsets from whether two words
of the table are 0. -/

namespace SoulsFormats

open Bytes Fallible

/-- `sf_luagnl_t`. -/
structure Luagnl where
  bigEndian : Bool
  longFormat : Bool
  globals : List (List UInt8)
  globalCapacity : Nat
deriving DecidableEq, Repr

def luagnlCreate (bigEndian longFormat : Bool) : Fallible Heap SfError Luagnl := do
  let _ ← Heap.alloc
  pure { bigEndian := bigEndian, longFormat := longFormat, globals := [], globalCapacity := 0 }

def luagnlReserveOne (gnl : Luagnl) : Fallible Heap SfError Luagnl :=
  if gnl.globals.length < gnl.globalCapacity then pure gnl
  else do
    let newCap := if gnl.globalCapacity ≠ 0 then gnl.globalCapacity * 2 else 8
    check (newCap ≤ SIZE_MAX / 8) .outOfRange
    let _ ← Heap.alloc
    pure { gnl with globalCapacity := newCap }

/-! ## Reading -/

section Reading

open BinaryReader

variable (os : Win32)

/-- The byte order and the layout, as the two probes tell them. -/
def luagnlDetect : ReadM (Bool × Bool) := do
  let probe16 ← getI16 0
  let bigEndian := decide (probe16 = 0)
  setBigEndian bigEndian
  let probe32 ← getI32 (if bigEndian then 0 else 4)
  pure (bigEndian, decide (probe32 = 0))

def luagnlReadOffset (longFormat : Bool) : ReadM Int :=
  if longFormat then do
    let off64 ← readI64
    pure off64.toInt
  else do
    let off32 ← readU32
    pure (off32.toNat : Int)

def luagnlGetGlobal (longFormat : Bool) (offset : Int) : ReadM (List UInt8) :=
  if longFormat then getUtf16 os offset else getShiftJis os offset

/-- The loop over the table. -/
def luagnlReadGlobals : Nat → Luagnl → ReadM Luagnl
  | 0, _ => fail .nonTermination
  | fuel + 1, gnl => do
    let offset ← luagnlReadOffset gnl.longFormat
    if offset ≠ 0 then do
      let str ← luagnlGetGlobal os gnl.longFormat offset
      let gnl ← onHeap (luagnlReserveOne gnl)
      luagnlReadGlobals fuel { gnl with globals := gnl.globals ++ [str] }
    else pure gnl

/-- Every entry of the table takes bytes, so there are fewer of them than bytes. -/
def luagnlRead : ReadM Luagnl := do
  let (bigEndian, longFormat) ← luagnlDetect
  let gnl ← onHeap (luagnlCreate bigEndian longFormat)
  let r ← state
  luagnlReadGlobals os (r.length + 1) gnl

/-- `sf_luagnl_read_from_memory`. -/
def luagnlReadFromMemory (flexible : Bool) (data : List UInt8) : Fallible Heap SfError Luagnl := do
  check (4 ≤ data.length) .truncated
  onMemory data false flexible (luagnlRead os)

end Reading

/-! ## Writing -/

section Writing

open BinaryWriter

variable (os : Win32)

def luagnlReserveOffset (longFormat : Bool) (i : Nat) : WriteM Unit :=
  if longFormat then reserveI64 (label "Offset" i) else reserveU32 (label "Offset" i)

/-- The loop that reserves the table, from the index `i` on. -/
def luagnlReserveOffsets (longFormat : Bool) : Nat → Nat → WriteM Unit
  | 0, _ => pure ()
  | n + 1, i => do
    luagnlReserveOffset longFormat i
    luagnlReserveOffsets longFormat n (i + 1)

def luagnlWriteGlobal (longFormat : Bool) (i : Nat) (name : List UInt8) : WriteM Unit := do
  let pos ← peek position
  if longFormat then do
    fillI64 (label "Offset" i) (Int64.ofNat pos)
    writeUtf16 os (some name) true
  else do
    check (pos < 2 ^ 32) .outOfRange
    fillU32 (label "Offset" i) (UInt32.ofNat pos)
    writeShiftJis os (some name) true

/-- The loop over the names, from the index `i` on. -/
def luagnlWriteGlobals (longFormat : Bool) : Nat → List (List UInt8) → WriteM Unit
  | _, [] => pure ()
  | i, name :: globals => do
    luagnlWriteGlobal os longFormat i name
    luagnlWriteGlobals longFormat (i + 1) globals

/-- The 0 that ends the table. -/
def luagnlWriteEnd (longFormat : Bool) : WriteM Unit :=
  if longFormat then writeI64 0 else writeU32 0

def luagnlWriteBody (gnl : Luagnl) : WriteM Unit := do
  luagnlReserveOffsets gnl.longFormat gnl.globals.length 0
  luagnlWriteEnd gnl.longFormat
  luagnlWriteGlobals os gnl.longFormat 0 gnl.globals
  pad 0x10

/-- `sf_luagnl_write_to_memory`. -/
def luagnlWriteToMemory (gnl : Luagnl) : Fallible Heap SfError (List UInt8) :=
  writeToMemory gnl.bigEndian (luagnlWriteBody os gnl)

end Writing

/-! ## What is written -/

section Image

open BinaryWriter

variable {os : Win32} {w w' : BinaryWriter} {long : Bool}

/-- The width of an offset. -/
def luagnlWidth (longFormat : Bool) : Nat := if longFormat then 8 else 4

/-- The key of an offset. -/
def luagnlKey (longFormat : Bool) (i : Nat) : ResKey :=
  (label "Offset" i, if longFormat then .i64 else .u32)

theorem luagnlKey_inj {i j : Nat} (h : luagnlKey long i = luagnlKey long j) : i = j :=
  label_inj (congrArg Prod.fst h)

theorem luagnlReserveOffset_spec (hw : AtEnd (fun _ => False) w) (i : Nat) :
    Post (luagnlReserveOffset long i) w fun _ w' => AtEnd (fun _ => False) w' ∧
      w'.settings = w.settings ∧ w'.position = w.position + luagnlWidth long ∧
      w'.reserved = Function.update w.reserved (luagnlKey long i) (some w.position) ∧
      ∀ B, Becomes (fun _ => False) w' B → Becomes (fun _ => False) w B := by
  intro u w' hrun
  unfold luagnlReserveOffset at hrun
  rcases long with _ | _
  · obtain ⟨h, hset, -, hmap, hpos, hback⟩ := hw.reserve (k := .u32) hrun
    exact ⟨h, hset, hpos, hmap, hback⟩
  · obtain ⟨h, hset, -, hmap, hpos, hback⟩ := hw.reserve (k := .i64) hrun
    exact ⟨h, hset, hpos, hmap, hback⟩

/-- The slices of the table follow one another. -/
theorem luagnlReserveOffsets_spec (hw : AtEnd (fun _ => False) w) (n i : Nat) :
    Post (luagnlReserveOffsets long n i) w fun _ w' => AtEnd (fun _ => False) w' ∧
      w'.settings = w.settings ∧ w'.position = w.position + n * luagnlWidth long ∧
      (∀ j < n, w'.reserved (luagnlKey long (i + j)) = some (w.position + j * luagnlWidth long)) ∧
      (∀ key, (∀ j < n, key ≠ luagnlKey long (i + j)) → w'.reserved key = w.reserved key) ∧
      ∀ B, Becomes (fun _ => False) w' B → Becomes (fun _ => False) w B := by
  induction n generalizing w i with
  | zero =>
      intro u w' hrun
      cases hrun
      exact ⟨hw, rfl, by simp, by simp, fun _ _ => rfl, fun _ hB => hB⟩
  | succ n ih =>
      intro u w' hrun
      obtain ⟨_, w1, hone, hrest⟩ := bind_eq_ok.1 hrun
      obtain ⟨h1, hset1, hpos1, hmap1, hback1⟩ := luagnlReserveOffset_spec hw i _ _ hone
      obtain ⟨h2, hset2, hpos2, hnew, hold, hback2⟩ := ih h1 (i + 1) _ _ hrest
      refine ⟨h2, hset2.trans hset1, ?_, ?_, ?_, fun B hB => hback1 B (hback2 B hB)⟩
      · rw [hpos2, hpos1, Nat.succ_mul]
        omega
      · intro j hj
        rcases j with _ | j
        · rw [hold _ fun m _ heq => by have := luagnlKey_inj heq; omega, hmap1]
          simp
        · have h := hnew j (by omega)
          rw [hpos1, show i + 1 + j = i + (j + 1) by omega] at h
          rw [h, Nat.succ_mul]
          congr 1
          omega
      · intro key hkey
        rw [hold key fun j hj => by
          have h := hkey (j + 1) (by omega)
          rwa [show i + (j + 1) = i + 1 + j by omega] at h]
        rw [hmap1, Function.update_of_ne (by simpa using hkey 0 (by omega))]

/-- An entry of the table. -/
def luagnlWord (be long : Bool) (p : Nat) : List UInt8 := wordBytes be (luagnlWidth long) p

/-- The offset `p` leads to the name `t`. -/
structure GlobalAt (os : Win32) (be long : Bool) (limit : Nat) (B : List UInt8) (p : Nat)
    (t : List UInt8) : Prop where
  pos : 0 < p
  le : p ≤ limit
  short : long = false → p < 2 ^ 32
  held : Holds B p (storedText os long be t)

theorem GlobalAt.mono {be : Bool} {limit limit' p : Nat} {B t : List UInt8} (hle : limit ≤ limit')
    (h : GlobalAt os be long limit B p t) : GlobalAt os be long limit' B p t :=
  ⟨h.pos, h.le.trans hle, h.short, h.held⟩

theorem luagnlWriteGlobal_spec {t : List UInt8} (ht : TextFits os long t)
    (hw : AtEnd (fun _ => False) w) (hpos : 0 < w.position) (i : Nat) :
    Post (luagnlWriteGlobal os long i t) w fun _ w' => AtEnd (fun _ => False) w' ∧
      w'.settings = w.settings ∧ w.position < w'.position ∧ w'.position ≤ w.position + 2 ^ 32 ∧
      ∃ q, w.reserved (luagnlKey long i) = some q ∧
        w'.reserved = Function.update w.reserved (luagnlKey long i) none ∧
        ∀ B, Becomes (fun _ => False) w' B → Becomes (fun _ => False) w B ∧
          Holds B q (luagnlWord w.bigEndian long w.position) ∧
          GlobalAt os w.bigEndian long w.position B w.position t := by
  intro u w' hrun
  have hlen : (storedText os long w.bigEndian t).length ≤ _ := ht.length_le
  have hlen' : 0 < (storedText os long w.bigEndian t).length := length_storedText_pos
  rw [luagnlWriteGlobal, peek_bind_run] at hrun
  have hstep : ∃ w1 q, AtEnd (fun _ => False) w1 ∧ w1.settings = w.settings ∧
      w1.position = w.position ∧ w.reserved (luagnlKey long i) = some q ∧
      w1.reserved = Function.update w.reserved (luagnlKey long i) none ∧
      (long = false → w.position < 2 ^ 32) ∧ Wrote (storedText os long w1.bigEndian t) w1 w' ∧
      ∀ B, Becomes (fun _ => False) w1 B → Becomes (fun _ => False) w B ∧
        Holds B q (luagnlWord w.bigEndian long w.position) := by
    rcases long with _ | _
    · obtain ⟨_, w0, hcheck, hrun⟩ := bind_eq_ok.1 hrun
      rw [check_run] at hcheck
      split at hcheck
      swap
      · cases hcheck
      next hsmall =>
        cases hcheck
        obtain ⟨_, w1, hfill, hwrite⟩ := bind_eq_ok.1 hrun
        obtain ⟨h1, hset, hpos1, q, hq, hmap, hfinal⟩ := hw.fill hfill
        refine ⟨w1, q, h1, hset, hpos1, hq, hmap, fun _ => hsmall,
          writeShiftJis_spec ht.noNul h1.inv.ready _ _ hwrite, fun B hB => ?_⟩
        obtain ⟨hB0, hheld⟩ := hfinal B hB
        have hword : (UInt32.ofNat w.position).toNat = w.position := UInt32.toNat_ofNat_of_lt' hsmall
        simp only [scalarBytes, hword] at hheld
        exact ⟨hB0, hheld⟩
    · obtain ⟨_, w1, hfill, hwrite⟩ := bind_eq_ok.1 hrun
      obtain ⟨h1, hset, hpos1, q, hq, hmap, hfinal⟩ := hw.fill hfill
      refine ⟨w1, q, h1, hset, hpos1, hq, hmap, (fun h => by cases h),
        writeUtf16_spec ht.noNul h1.inv.ready _ _ hwrite, fun B hB => ?_⟩
      obtain ⟨hB0, hheld⟩ := hfinal B hB
      exact ⟨hB0, by rwa [scalarBytes_i64_ofNat] at hheld⟩
  obtain ⟨w1, q, h1, hset, hpos1, hq, hmap, hsmall, hwrote, hfinal⟩ := hstep
  have hbe : w1.bigEndian = w.bigEndian := congrArg Prod.fst hset
  rw [hbe] at hwrote
  have hext := h1.extends hwrote
  have hpos' := hwrote.position
  refine ⟨hext.atEnd, hext.settings.trans hset, by omega, by omega, q, hq,
    hext.reserved.trans hmap, fun B hB => ?_⟩
  obtain ⟨hB1, hheld⟩ := hext.final B hB
  obtain ⟨hB0, hword⟩ := hfinal B hB1
  rw [hpos1] at hheld
  exact ⟨hB0, hword, hpos, le_rfl, hsmall, hheld⟩

/-- **The names follow the table**, each at the offset that its entry is filled with. -/
theorem luagnlWriteGlobals_spec (base : Nat) (globals : List (List UInt8)) (i : Nat)
    (hfit : ∀ t ∈ globals, TextFits os long t) (hw : AtEnd (fun _ => False) w)
    (hpos : 0 < w.position)
    (hlive : ∀ j < globals.length,
      w.reserved (luagnlKey long (i + j)) = some (base + (i + j) * luagnlWidth long)) :
    Post (luagnlWriteGlobals os long i globals) w fun _ w' => AtEnd (fun _ => False) w' ∧
      ∃ ps : List Nat, ps.head? = (if globals = [] then none else some w.position) ∧
        ∀ B, Becomes (fun _ => False) w' B → Becomes (fun _ => False) w B ∧
          List.Forall₂ (GlobalAt os w.bigEndian long (w.position + globals.length * 2 ^ 32) B) ps
            globals ∧
          ∀ j p, ps[j]? = some p →
            Holds B (base + (i + j) * luagnlWidth long) (luagnlWord w.bigEndian long p) := by
  induction globals generalizing w i with
  | nil =>
      intro u w' hrun
      cases hrun
      exact ⟨hw, [], rfl, fun B hB => ⟨hB, .nil, fun j p hp => by simp at hp⟩⟩
  | cons t globals ih =>
      intro u w' hrun
      obtain ⟨_, w1, hone, hrest⟩ := bind_eq_ok.1 hrun
      obtain ⟨h1, hset1, hlt1, hle1, q, hq, hmap1, hfinal1⟩ :=
        luagnlWriteGlobal_spec (hfit t List.mem_cons_self) hw hpos i _ _ hone
      have hbe : w1.bigEndian = w.bigEndian := congrArg Prod.fst hset1
      have hq0 := hlive 0 (by simp)
      rw [Nat.add_zero, hq] at hq0
      cases hq0
      obtain ⟨h2, ps, -, hfinal2⟩ := ih (i + 1) (fun t' ht' => hfit t' (List.mem_cons_of_mem t ht'))
        h1 (by omega) (by
          intro j hj
          have hne : luagnlKey long (i + 1 + j) ≠ luagnlKey long i := fun heq => by
            have := luagnlKey_inj heq
            omega
          have h := hlive (j + 1) (by simpa using hj)
          rw [show i + (j + 1) = i + 1 + j by omega] at h
          rw [hmap1, Function.update_of_ne hne, h]) _ _ hrest
      refine ⟨h2, w.position :: ps, by simp, fun B hB => ?_⟩
      obtain ⟨hB1, hnames, htable⟩ := hfinal2 B hB
      obtain ⟨hB0, hword, hname⟩ := hfinal1 B hB1
      rw [hbe] at hnames htable
      rw [List.length_cons]
      refine ⟨hB0, .cons (hname.mono (by omega)) (hnames.imp fun _ _ h => h.mono (by omega)), ?_⟩
      · intro j p hp
        rcases j with _ | j
        · cases hp
          exact hword
        · have h := htable j p hp
          rwa [show i + 1 + j = i + (j + 1) by omega] at h

/-- What the file of a non-empty list holds. -/
structure LuagnlImage (os : Win32) (gnl : Luagnl) (ps : List Nat) (B : List UInt8) : Prop where
  first : ps.head? = some ((gnl.globals.length + 1) * luagnlWidth gnl.longFormat)
  table : Holds B 0 ((ps ++ [0]).flatMap (luagnlWord gnl.bigEndian gnl.longFormat))
  names : List.Forall₂ (GlobalAt os gnl.bigEndian gnl.longFormat
    ((gnl.globals.length + 1) * luagnlWidth gnl.longFormat + gnl.globals.length * 2 ^ 32) B)
    ps gnl.globals

end Image

end SoulsFormats
