import SoulsFormats.Core.ReaderSteps
import SoulsFormats.Core.WriterSpec

set_option autoImplicit false

/-! # Reading what was written

`Cursor` is the part of a reader that decides what it reads. `Reads m c a c'` says that `m` succeeds
from every reader at the cursor `c` whose allocator grants everything, with the value `a`, and stops
at `c'`; `Parses m c x a` says the same of a reader that stands before the bytes `x` and moves over
them. A format is read back by composing the two along the code. -/

namespace SoulsFormats

open Bytes Fallible

namespace BinaryReader

/-- What of a reader decides what it reads. -/
structure Cursor where
  mem : List UInt8
  pos : Nat
  bigEndian : Bool
  varintLong : Bool
  steps : List Nat
  isFlexible : Bool

def cursor (r : BinaryReader) : Cursor :=
  ⟨r.stream.mem, r.stream.memPos, r.bigEndian, r.varintLong, r.steps, r.isFlexible⟩

/-- The cursor `n` bytes on. -/
def Cursor.advance (c : Cursor) (n : Nat) : Cursor := { c with pos := c.pos + n }

@[simp] theorem Cursor.advance_zero (c : Cursor) : c.advance 0 = c := rfl

@[simp] theorem Cursor.advance_advance (c : Cursor) (m n : Nat) :
    (c.advance m).advance n = c.advance (m + n) := by
  simp only [advance, Nat.add_assoc]

section

variable (c : Cursor) (n : Nat)

@[simp] theorem Cursor.advance_mem : (c.advance n).mem = c.mem := rfl
@[simp] theorem Cursor.advance_pos : (c.advance n).pos = c.pos + n := rfl
@[simp] theorem Cursor.advance_bigEndian : (c.advance n).bigEndian = c.bigEndian := rfl
@[simp] theorem Cursor.advance_varintLong : (c.advance n).varintLong = c.varintLong := rfl
@[simp] theorem Cursor.advance_steps : (c.advance n).steps = c.steps := rfl
@[simp] theorem Cursor.advance_isFlexible : (c.advance n).isFlexible = c.isFlexible := rfl

end

variable {α β : Type}

/-- From the cursor `c` and with an allocator that grants everything, `m` yields `a` and stops at
    `c'`. -/
def Reads (m : ReadM α) (c : Cursor) (a : α) (c' : Cursor) : Prop :=
  ∀ r : BinaryReader, r.cursor = c → r.heap.Calm →
    ∃ r' : BinaryReader, m r = (.ok a, r') ∧ r'.cursor = c' ∧ r'.heap.Calm

/-- Standing before the bytes `x`, `m` moves over them and yields `a`. -/
def Parses (m : ReadM α) (c : Cursor) (x : List UInt8) (a : α) : Prop :=
  Holds c.mem c.pos x → Reads m c a (c.advance x.length)

variable {c c1 c2 : Cursor} {a : α} {b : β} {m : ReadM α} {f : α → ReadM β} {x y : List UInt8}

/-! ## Composition -/

theorem Reads.pure (a : α) (c : Cursor) : Reads (Pure.pure a) c a c :=
  fun r hr hcalm => ⟨r, rfl, hr, hcalm⟩

theorem Reads.bind (hm : Reads m c a c1) (hf : Reads (f a) c1 b c2) : Reads (m >>= f) c b c2 := by
  intro r hr hcalm
  obtain ⟨r1, hrun, hr1, hcalm1⟩ := hm r hr hcalm
  obtain ⟨r2, hrun2, hr2, hcalm2⟩ := hf r1 hr1 hcalm1
  exact ⟨r2, by rw [bind_ok hrun, hrun2], hr2, hcalm2⟩

theorem Reads.at (c1 : Cursor) (h : c = c1) (hm : Reads m c1 a c2) : Reads m c a c2 := h ▸ hm

theorem Reads.check {p : Prop} [Decidable p] {e : SfError} {f : Unit → ReadM β} (hp : p)
    (hf : Reads (f ()) c b c2) : Reads (Fallible.check p e >>= f) c b c2 := by
  intro r hr hcalm
  obtain ⟨r', hrun, hr', hcalm'⟩ := hf r hr hcalm
  exact ⟨r', by rw [check_bind_pos hp, hrun], hr', hcalm'⟩

/-- A computation that looks at its state is the one for a state at this cursor. -/
theorem Reads.state {f : BinaryReader → ReadM β}
    (hf : ∀ r : BinaryReader, r.cursor = c → Reads (f r) c b c2) :
    Reads (Fallible.state >>= f) c b c2 :=
  fun r hr hcalm => hf r hr r hr hcalm

theorem Reads.peek {γ : Type} {g : BinaryReader → γ} {f : γ → ReadM β} {v : γ}
    (hg : ∀ r : BinaryReader, r.cursor = c → g r = v) (hf : Reads (f v) c b c2) :
    Reads (Fallible.peek g >>= f) c b c2 := by
  intro r hr hcalm
  rw [peek_bind_run, hg r hr]
  exact hf r hr hcalm

theorem Reads.setBigEndian (be : Bool) (c : Cursor) :
    Reads (setBigEndian be) c () { c with bigEndian := be } := by
  rintro r rfl hcalm
  exact ⟨_, rfl, rfl, hcalm⟩

theorem Reads.setVarintLong (long : Bool) (c : Cursor) :
    Reads (setVarintLong long) c () { c with varintLong := long } := by
  rintro r rfl hcalm
  exact ⟨_, rfl, rfl, hcalm⟩

theorem reads_int64Add {a b : Int} (h : -2 ^ 63 ≤ a + b ∧ a + b < 2 ^ 63) (c : Cursor) :
    Reads (int64Add a b) c (a + b) c :=
  (Reads.pure _ _).check h

/-- An allocation whose block is scratch space. -/
theorem reads_alloc (c : Cursor) {f : List UInt8 → ReadM β} (hf : ∀ junk, Reads (f junk) c b c2) :
    Reads (onHeap Heap.alloc >>= f) c b c2 := by
  intro r hr hcalm
  obtain ⟨junk, h, halloc, hcalm1⟩ := Heap.alloc_calm hcalm
  have hrun : onHeap Heap.alloc r = (.ok junk, { r with heap := h }) := by
    rw [onHeap, zoom_run, halloc]
  obtain ⟨r', hf', hr', hcalm'⟩ := hf junk { r with heap := h } hr hcalm1
  exact ⟨r', by rw [bind_ok hrun, hf'], hr', hcalm'⟩

/-- A conversion that is possible. -/
theorem reads_onHeap {conv : Fallible Heap SfError α} (hconv : Steady conv)
    (hvalue : granted conv = some a) (c : Cursor) : Reads (onHeap conv) c a c := by
  intro r hr hcalm
  obtain ⟨h, hrun, hcalm'⟩ := hconv.ok_of_granted hvalue hcalm
  exact ⟨{ r with heap := h }, by rw [onHeap, zoom_run, hrun], hr, hcalm'⟩

/-- A computation that an allocator which grants everything lets succeed. -/
theorem reads_onHeap_of_calm {conv : Fallible Heap SfError α} (hkeeps : Keeps Heap.Calm conv)
    (hok : ∀ h : Heap, h.Calm → (conv h).1 = .ok a) (c : Cursor) : Reads (onHeap conv) c a c := by
  intro r hr hcalm
  refine ⟨{ r with heap := (conv r.heap).2 }, ?_, hr, hkeeps r.heap hcalm⟩
  rw [onHeap, zoom_run, hok r.heap hcalm]

theorem Reads.parses (h : Reads m c a c) : Parses m c [] a := fun _ => h

theorem Parses.bind (hm : Parses m c x a) (hf : Parses (f a) (c.advance x.length) y b) :
    Parses (m >>= f) c (x ++ y) b := by
  intro h
  obtain ⟨hx, hy⟩ := holds_append.1 h
  have hrest := hf hy
  rw [Cursor.advance_advance, ← List.length_append] at hrest
  exact (hm hx).bind hrest

/-- Read the next bytes and go on with the bytes that follow them. -/
theorem Parses.then (hm : Parses m c x a) (h : Holds c.mem c.pos (x ++ y))
    (hf : Holds c.mem (c.pos + x.length) y → Reads (f a) (c.advance x.length) b c2) :
    Reads (m >>= f) c b c2 :=
  have hxy := holds_append.1 h
  (hm hxy.1).bind (hf hxy.2)

/-- The value is computed from what was read. -/
theorem Parses.map (hm : Parses m c x a) (g : α → β) :
    Parses (m >>= fun v => Pure.pure (g v)) c x (g a) :=
  fun h => (hm h).bind (Reads.pure _ _)

theorem Parses.check {p : Prop} [Decidable p] {e : SfError} {f : Unit → ReadM β} (hp : p)
    (hf : Parses (f ()) c x b) : Parses (Fallible.check p e >>= f) c x b :=
  fun h => (hf h).check hp

/-! ## Runs that fail -/

/-- From the cursor `c` and with an allocator that grants everything, `m` does not succeed. -/
def Refuses (m : ReadM α) (c : Cursor) : Prop :=
  ∀ r : BinaryReader, r.cursor = c → r.heap.Calm → ∀ a, (m r).1 ≠ .ok a

theorem Refuses.bind (hm : Refuses m c) : Refuses (m >>= f) c := by
  intro r hr hcalm b hb
  obtain ⟨a, r', hrun, -⟩ := bind_eq_ok.1 (Prod.ext hb rfl : (m >>= f) r = (.ok b, ((m >>= f) r).2))
  exact hm r hr hcalm a (by rw [hrun])

/-- What comes after `m` does not succeed. -/
theorem Reads.refuses (hm : Reads m c a c1) (hf : Refuses (f a) c1) : Refuses (m >>= f) c := by
  intro r hr hcalm b hb
  obtain ⟨r1, hrun, hr1, hcalm1⟩ := hm r hr hcalm
  rw [bind_ok hrun] at hb
  exact hf r1 hr1 hcalm1 b hb

theorem refuses_check {p : Prop} [Decidable p] {e : SfError} {f : Unit → ReadM β} (hp : ¬ p) :
    Refuses (Fallible.check p e >>= f) c := by
  intro r _ _ b hb
  rw [check_bind_neg hp] at hb
  simp at hb

/-- A run of `m` from the cursor `c` comes to be one of `m'` from `c'`. -/
def Leads (m : ReadM α) (c : Cursor) (m' : ReadM α) (c' : Cursor) : Prop :=
  ∀ r : BinaryReader, r.cursor = c → r.heap.Calm →
    ∃ r' : BinaryReader, m r = m' r' ∧ r'.cursor = c' ∧ r'.heap.Calm

theorem Leads.refl (m : ReadM α) (c : Cursor) : Leads m c m c :=
  fun r hr hcalm => ⟨r, rfl, hr, hcalm⟩

theorem Reads.leads {m' : ReadM β} (hm : Reads m c a c1) (hf : Leads (f a) c1 m' c2) :
    Leads (m >>= f) c m' c2 := by
  intro r hr hcalm
  obtain ⟨r1, hrun, hr1, hcalm1⟩ := hm r hr hcalm
  obtain ⟨r2, hrun2, hr2, hcalm2⟩ := hf r1 hr1 hcalm1
  exact ⟨r2, by rw [bind_ok hrun, hrun2], hr2, hcalm2⟩

theorem Leads.check {p : Prop} [Decidable p] {e : SfError} {f : Unit → ReadM β} {m' : ReadM β}
    (hp : p) (hf : Leads (f ()) c m' c1) : Leads (Fallible.check p e >>= f) c m' c1 := by
  intro r hr hcalm
  obtain ⟨r', hrun, hr', hcalm'⟩ := hf r hr hcalm
  exact ⟨r', by rw [check_bind_pos hp, hrun], hr', hcalm'⟩

theorem Leads.reads {m' : ReadM α} (h : Leads m c m' c1) (hm : Reads m' c1 a c2) :
    Reads m c a c2 := by
  intro r hr hcalm
  obtain ⟨r1, hrun, hr1, hcalm1⟩ := h r hr hcalm
  rw [hrun]
  exact hm r1 hr1 hcalm1

theorem Leads.refuses {m' : ReadM α} (h : Leads m c m' c1) (hm : Refuses m' c1) : Refuses m c := by
  intro r hr hcalm b hb
  obtain ⟨r1, hrun, hr1, hcalm1⟩ := h r hr hcalm
  rw [hrun] at hb
  exact hm r1 hr1 hcalm1 b hb

/-! ## Bytes and scalars -/

theorem parses_bytes (c : Cursor) (x : List UInt8) : Parses (readBytes x.length) c x x := by
  rintro h r rfl hcalm
  refine ⟨{ r with stream := { r.stream with memPos := r.stream.memPos + x.length } }, ?_, rfl,
    hcalm⟩
  have hread := IStream.read_holds (s := r.stream) h
  rw [readBytes, onStream, zoom_run, hread]

theorem parses_int (c : Cursor) (n v : Nat) :
    Parses (defineReadInt n) c (wordBytes c.bigEndian n v) (v % 256 ^ n) := by
  intro h
  have hbytes := parses_bytes c (wordBytes c.bigEndian n v) h
  rw [length_wordBytes] at hbytes ⊢
  refine hbytes.bind (Reads.state fun r hr => ?_)
  have hbe : r.bigEndian = c.bigEndian := congrArg Cursor.bigEndian hr
  have hval : (if r.bigEndian then bswap n (leNat (wordBytes c.bigEndian n v))
      else leNat (wordBytes c.bigEndian n v)) = v % 256 ^ n := by
    rw [hbe]
    cases c.bigEndian
    · exact leNat_leBytes n v
    · have hswap := bswap_leNat (leBytes n v).reverse
      rw [List.length_reverse, length_leBytes, List.reverse_reverse, leNat_leBytes] at hswap
      exact hswap
  rw [hval]
  exact Reads.pure _ _

/-- The word that some bytes spell in the byte order of the reader. -/
theorem parses_word (c : Cursor) (x : List UInt8) :
    Parses (defineReadInt x.length) c x (wordNat c.bigEndian x) := by
  have h := parses_int c x.length (wordNat c.bigEndian x)
  rwa [wordBytes_wordNat, Nat.mod_eq_of_lt (wordNat_lt _ x)] at h

theorem parses_u8 (c : Cursor) (v : UInt8) : Parses readU8 c [v] v :=
  (parses_bytes c [v]).map fun bs => bs.headD 0

theorem parses_i8 (c : Cursor) (v : Int8) : Parses readI8 c [v.toUInt8] v := by
  have h := (parses_u8 c v.toUInt8).map UInt8.toInt8
  rwa [Int8.toInt8_toUInt8] at h

theorem parses_u16 (c : Cursor) (v : UInt16) :
    Parses readU16 c (wordBytes c.bigEndian 2 v.toNat) v := by
  have h := (parses_int c 2 v.toNat).map UInt16.ofNat
  have hv : v.toNat % 256 ^ 2 = v.toNat := Nat.mod_eq_of_lt v.toNat_lt
  rwa [hv, UInt16.ofNat_toNat] at h

theorem parses_i16 (c : Cursor) (v : Int16) :
    Parses readI16 c (wordBytes c.bigEndian 2 v.toUInt16.toNat) v := by
  have h := (parses_u16 c v.toUInt16).map UInt16.toInt16
  rwa [Int16.toInt16_toUInt16] at h

theorem parses_u32 (c : Cursor) (v : UInt32) :
    Parses readU32 c (wordBytes c.bigEndian 4 v.toNat) v := by
  have h := (parses_int c 4 v.toNat).map UInt32.ofNat
  have hv : v.toNat % 256 ^ 4 = v.toNat := Nat.mod_eq_of_lt v.toNat_lt
  rwa [hv, UInt32.ofNat_toNat] at h

theorem parses_u64 (c : Cursor) (v : UInt64) :
    Parses readU64 c (wordBytes c.bigEndian 8 v.toNat) v := by
  have h := (parses_int c 8 v.toNat).map UInt64.ofNat
  have hv : v.toNat % 256 ^ 8 = v.toNat := Nat.mod_eq_of_lt v.toNat_lt
  rwa [hv, UInt64.ofNat_toNat] at h

theorem parses_i32 (c : Cursor) (v : Int32) :
    Parses readI32 c (wordBytes c.bigEndian 4 v.toUInt32.toNat) v := by
  have h := (parses_u32 c v.toUInt32).map UInt32.toInt32
  rwa [Int32.toInt32_toUInt32] at h

theorem reads_i32 {c : Cursor} {v : Int32}
    (h : Holds c.mem c.pos (wordBytes c.bigEndian 4 v.toUInt32.toNat)) :
    Reads readI32 c v (c.advance 4) := by
  have hread := parses_i32 c v h
  rwa [length_wordBytes] at hread

theorem parses_i64 (c : Cursor) (v : Int64) :
    Parses readI64 c (wordBytes c.bigEndian 8 v.toUInt64.toNat) v := by
  have h := (parses_u64 c v.toUInt64).map UInt64.toInt64
  rwa [Int64.toInt64_toUInt64] at h

/-- A position is read back where it fits. -/
theorem parses_u32_ofNat (c : Cursor) {p : Nat} (hp : p < 2 ^ 32) :
    Parses readU32 c (wordBytes c.bigEndian 4 p) (UInt32.ofNat p) := by
  have h := parses_u32 c (UInt32.ofNat p)
  rwa [UInt32.toNat_ofNat_of_lt' hp] at h

theorem int32_toInt_ofNat {n : Nat} (h : n ≤ INT32_MAX) : (Int32.ofNat n).toInt = n :=
  Int32.toInt_ofNat_of_lt (Nat.lt_of_le_of_lt h (by decide))

theorem int32_toUInt32_ofNat {n : Nat} (h : n ≤ INT32_MAX) : (Int32.ofNat n).toUInt32.toNat = n := by
  have hmax : INT32_MAX = 2 ^ 31 - 1 := rfl
  rw [Int32.toUInt32_ofNat', UInt32.toNat_ofNat', Nat.mod_eq_of_lt (by omega)]

theorem int64_toInt_ofNat {n : Nat} (h : n ≤ INT32_MAX) : (Int64.ofNat n).toInt = n :=
  Int64.toInt_ofNat_of_lt (Nat.lt_of_le_of_lt h (by decide))

theorem int64_toUInt64_ofNat {n : Nat} (h : n ≤ INT32_MAX) : (Int64.ofNat n).toUInt64.toNat = n := by
  have hmax : INT32_MAX = 2 ^ 31 - 1 := rfl
  rw [Int64.toUInt64_ofNat', UInt64.toNat_ofNat', Nat.mod_eq_of_lt (by omega)]

theorem parses_i64_ofNat (c : Cursor) (p : Nat) :
    Parses readI64 c (wordBytes c.bigEndian 8 p) (Int64.ofNat p) := by
  have h := parses_i64 c (Int64.ofNat p)
  have hbytes := BinaryWriter.scalarBytes_i64_ofNat c.bigEndian c.varintLong p
  rw [BinaryWriter.scalarBytes] at hbytes
  rwa [hbytes] at h

theorem parses_bool (c : Cursor) (b : Bool) : Parses readBool c [if b then 1 else 0] b := by
  have h : Parses readBool c [if b then 1 else 0] ((if b then 1 else 0 : UInt8) != 0) :=
    fun hx => ((parses_u8 c _) hx).bind ((Reads.pure _ _).check (by cases b <;> decide))
  have hb : ((if b then 1 else 0 : UInt8) != 0) = b := by cases b <;> rfl
  rwa [hb] at h

theorem parses_varint (c : Cursor) (v : Int64) :
    Parses readVarint c (BinaryWriter.scalarBytes c.bigEndian c.varintLong .varint v)
      (if c.varintLong then v else v.toInt32.toInt64) := by
  intro h
  refine Reads.state fun r hr => ?_
  have hlong : r.varintLong = c.varintLong := congrArg Cursor.varintLong hr
  rw [hlong]
  cases hc : c.varintLong with
  | false =>
      rw [hc] at h
      exact ((parses_i32 c v.toInt32).map Int32.toInt64) h
  | true =>
      rw [hc] at h
      exact parses_i64 c v h

/-- The value fits the width that varints have. -/
def VarintFits (long : Bool) (v : Int64) : Prop :=
  long = true ∨ (-2 ^ 31 ≤ v.toInt ∧ v.toInt < 2 ^ 31)

theorem varintFits_ofNat {p : Nat} (hp : p < 2 ^ 31) (long : Bool) :
    VarintFits long (Int64.ofNat p) := by
  have hint : (Int64.ofNat p).toInt = p := Int64.toInt_ofNat_of_lt (by omega)
  exact .inr (by omega)

/-- A varint that fits is read back. -/
theorem parses_varint_of_fits (c : Cursor) {v : Int64} (hv : VarintFits c.varintLong v) :
    Parses readVarint c (BinaryWriter.scalarBytes c.bigEndian c.varintLong .varint v) v := by
  have h := parses_varint c v
  rcases hv with hlong | hfits
  · rwa [if_pos hlong] at h
  · have hshort : v.toInt32.toInt64 = v := by
      refine Int64.toInt_inj.1 ?_
      rw [Int32.toInt_toInt64, Int64.toInt_toInt32]
      exact Int.bmod_eq_of_le (by omega) (by omega)
    rwa [hshort, ite_self] at h

theorem parses_varint_ofNat (c : Cursor) {p : Nat} (hp : p < 2 ^ 31) :
    Parses readVarint c (BinaryWriter.scalarBytes c.bigEndian c.varintLong .varint (Int64.ofNat p))
      (Int64.ofNat p) :=
  parses_varint_of_fits c (varintFits_ofNat hp _)

/-- An assertion on a value that is among the options; a flexible reader does not look. -/
theorem parses_asserted [DecidableEq α] {options : List α} (hm : Parses m c x a) (hne : options ≠ [])
    (ha : c.isFlexible = false → a ∈ options) : Parses (defineAssertMulti m options) c x a := by
  intro h
  refine Reads.check (List.length_pos_iff.2 hne) ((hm h).bind (Reads.state fun r hr => ?_))
  split
  · exact Reads.pure _ _
  · next hflex =>
      have hno : c.isFlexible = false := by
        have heq : r.isFlexible = c.isFlexible := congrArg Cursor.isFlexible hr
        rw [← heq]
        simpa using hflex
      exact (Reads.pure _ _).check (ha hno)

theorem parses_assert [DecidableEq α] {options : List α} (hm : Parses m c x a) (ha : a ∈ options) :
    Parses (defineAssertMulti m options) c x a :=
  parses_asserted hm (List.ne_nil_of_mem ha) fun _ => ha

theorem parses_enum [DecidableEq α] {options : List α} (hm : Parses m c x a) (ha : a ∈ options) :
    Parses (defineEnumRead m options) c x a := by
  intro h
  refine Reads.check (List.length_pos_of_mem ha) ((hm h).bind ?_)
  exact (Reads.pure _ _).check ha

/-! ## Positions -/

/-- A step-in to an offset inside the data. -/
theorem reads_stepIn {p : Nat} (hp : p ≤ c.mem.length) :
    Reads (stepIn p) c () { c with pos := p, steps := c.pos :: c.steps } := by
  rintro r rfl hcalm
  rw [stepIn, peek_bind_run]
  have hpush : ∃ cap h, stepsPush r.position r
      = (.ok (), { r with steps := r.position :: r.steps, stepsCap := cap, heap := h }) ∧
      h.Calm := by
    by_cases hfull : r.steps.length = r.stepsCap
    · obtain ⟨junk, h, halloc, hcalm'⟩ := Heap.alloc_calm hcalm
      have hrun : onHeap Heap.alloc r = (.ok junk, { r with heap := h }) := by
        rw [onHeap, zoom_run, halloc]
      rw [stepsPush, state_bind_run, if_pos hfull, bind_ok hrun]
      exact ⟨_, h, rfl, hcalm'⟩
    · rw [stepsPush, state_bind_run, if_neg hfull]
      exact ⟨_, _, rfl, hcalm⟩
  obtain ⟨cap, h, hrun, hcalm'⟩ := hpush
  refine ⟨{ r with
    stream := { r.stream with memPos := p }
    steps := r.position :: r.steps
    stepsCap := cap
    heap := h }, ?_, rfl, hcalm'⟩
  have hseek : IStream.seek p r.stream = (.ok (), { r.stream with memPos := p }) :=
    IStream.seek_ok hp
  rw [bind_ok hrun, onStream, zoom_run]
  simp only [hseek]

/-- A step-out to a saved position inside the data. -/
theorem reads_stepOut {p : Nat} {rest : List Nat} (hsteps : c.steps = p :: rest)
    (hp : p ≤ c.mem.length) : Reads stepOut c () { c with pos := p, steps := rest } := by
  rintro r rfl hcalm
  exact ⟨_, stepOut_ok hsteps hp, rfl, hcalm⟩

theorem Reads.attempt (h : Reads m c a c1) : Reads (attempt m) c (.ok a) c1 := by
  intro r hr hcalm
  obtain ⟨r', hrun, hr', hcalm'⟩ := h r hr hcalm
  exact ⟨r', by rw [attempt_run, hrun], hr', hcalm'⟩

/-- **A getter reads what stands at its offset** and leaves the cursor. -/
theorem reads_get {p : Nat} {stop : Nat} (hp : p ≤ c.mem.length) (hpos : c.pos ≤ c.mem.length)
    (hread : Reads m { c with pos := p, steps := c.pos :: c.steps } a
      { c with pos := stop, steps := c.pos :: c.steps }) :
    Reads (defineGet p m) c a c := by
  have hout : Reads stepOut { c with pos := stop, steps := c.pos :: c.steps } () c :=
    reads_stepOut rfl hpos
  exact (reads_stepIn hp).bind (hread.attempt.bind (hout.attempt.bind (Reads.pure a c)))

/-- A getter of a value that is parsed from the bytes at its offset. -/
theorem reads_get_parses {p : Nat} (hheld : Holds c.mem p x) (hpos : c.pos ≤ c.mem.length)
    (hm : Parses m { c with pos := p, steps := c.pos :: c.steps } x a) :
    Reads (defineGet p m) c a c :=
  reads_get ((Nat.le_add_right _ _).trans hheld.le) hpos (hm hheld)

theorem refuses_get {p : Int} (hp : p < 0) (m : ReadM α) (c : Cursor) :
    Refuses (defineGet p m) c := by
  refine Refuses.bind fun r _ _ u hu => ?_
  have hoff : ¬ InRange p r := fun h => absurd h.1 (by omega)
  by_cases hpush : r.PushRefused
  · obtain ⟨e, r', hrun, -⟩ := stepIn_refused hpush p
    rw [hrun] at hu
    cases hu
  · obtain ⟨e, r', hrun, -⟩ := stepIn_outside hpush hoff
    rw [hrun] at hu
    cases hu

/-- Elements of one width, one after another. -/
theorem reads_readEach {width : Nat} (l : List α) (c : Cursor)
    (hm : ∀ i a, l[i]? = some a →
      Reads m (c.advance (i * width)) a (c.advance ((i + 1) * width))) :
    Reads (readEach m l.length) c l (c.advance (l.length * width)) := by
  induction l generalizing c with
  | nil =>
      rw [List.length_nil, Nat.zero_mul, Cursor.advance_zero]
      exact Reads.pure _ _
  | cons a l ih =>
      have hfirst := hm 0 a rfl
      rw [Nat.zero_mul, Cursor.advance_zero, Nat.zero_add, Nat.one_mul] at hfirst
      have hrest := ih (c.advance width) fun i b hb => by
        have h := hm (i + 1) b hb
        simp only [Cursor.advance_advance]
        rwa [Nat.succ_mul, Nat.succ_mul (i + 1), Nat.add_comm, Nat.add_comm _ width] at h
      rw [Cursor.advance_advance, Nat.add_comm, ← Nat.succ_mul] at hrest
      exact hfirst.bind (hrest.bind (Reads.pure _ _))

theorem parses_readEach {γ : Type} {bytes : γ → List UInt8} {value : γ → α} (l : List γ)
    (hm : ∀ b ∈ l, ∀ c' : Cursor, c'.bigEndian = c.bigEndian → c'.varintLong = c.varintLong →
      Parses m c' (bytes b) (value b)) :
    Parses (readEach m l.length) c (l.flatMap bytes) (l.map value) := by
  induction l generalizing c with
  | nil => exact (Reads.pure _ _).parses
  | cons b l ih =>
      have hrest := ih (c := c.advance (bytes b).length) fun b' hb' c' hbe hlong =>
        hm b' (List.mem_cons_of_mem b hb') c' hbe hlong
      exact (hm b List.mem_cons_self c rfl rfl).bind (hrest.map _)

theorem parses_readEach_self {bytes : α → List UInt8} (l : List α)
    (hm : ∀ a ∈ l, ∀ c' : Cursor, c'.bigEndian = c.bigEndian → c'.varintLong = c.varintLong →
      Parses m c' (bytes a) a) :
    Parses (readEach m l.length) c (l.flatMap bytes) l := by
  have h := parses_readEach l hm
  rwa [List.map_id'] at h

/-- A probe of two bytes tells whether they are 0, whatever the byte order. -/
theorem reads_getI16 {p : Nat} (hx : x.length = 2) (hheld : Holds c.mem p x)
    (hpos : c.pos ≤ c.mem.length) :
    ∃ v, Reads (getI16 p) c v c ∧ (v = 0 ↔ wordNat false x = 0) := by
  let c' : Cursor := { c with pos := p, steps := c.pos :: c.steps }
  have hword := parses_word c' x
  have hlt := wordNat_lt c.bigEndian x
  rw [hx] at hword hlt
  refine ⟨_, reads_get_parses hheld hpos ((hword.map UInt16.ofNat).map UInt16.toInt16), ?_⟩
  rw [wordNat_eq_zero, ← wordNat_eq_zero c.bigEndian]
  constructor
  · intro h
    have hnat : (UInt16.ofNat (wordNat c.bigEndian x)).toNat = 0 :=
      congrArg (fun v => v.toUInt16.toNat) h
    rwa [UInt16.toNat_ofNat_of_lt' hlt] at hnat
  · intro h
    show (UInt16.ofNat (wordNat c.bigEndian x)).toInt16 = 0
    rw [h]
    rfl

/-- A probe of four bytes tells whether they are 0, whatever the byte order. -/
theorem reads_getI32 {p : Nat} (hx : x.length = 4) (hheld : Holds c.mem p x)
    (hpos : c.pos ≤ c.mem.length) :
    ∃ v, Reads (getI32 p) c v c ∧ (v = 0 ↔ wordNat false x = 0) := by
  let c' : Cursor := { c with pos := p, steps := c.pos :: c.steps }
  have hword := parses_word c' x
  have hlt := wordNat_lt c.bigEndian x
  rw [hx] at hword hlt
  refine ⟨_, reads_get_parses hheld hpos ((hword.map UInt32.ofNat).map UInt32.toInt32), ?_⟩
  rw [wordNat_eq_zero, ← wordNat_eq_zero c.bigEndian]
  constructor
  · intro h
    have hnat : (UInt32.ofNat (wordNat c.bigEndian x)).toNat = 0 :=
      congrArg (fun v => v.toUInt32.toNat) h
    rwa [UInt32.toNat_ofNat_of_lt' hlt] at hnat
  · intro h
    show (UInt32.ofNat (wordNat c.bigEndian x)).toInt32 = 0
    rw [h]
    rfl

theorem reads_seek {p : Int} {q : Nat} (hpq : p = q) (hq : q ≤ c.mem.length) :
    Reads (onStream (IStream.seek p)) c () { c with pos := q } := by
  rintro r rfl hcalm
  have hseek : IStream.seek p r.stream = (.ok (), { r.stream with memPos := q }) := by
    rw [hpq]
    exact IStream.seek_ok hq
  exact ⟨{ r with stream := { r.stream with memPos := q } }, by rw [onStream, zoom_run, hseek], rfl,
    hcalm⟩

/-- A whole run, from a reader over `data`. -/
theorem onMemory_ok {data : List UInt8} {be flexible : Bool} {c' : Cursor}
    (hm : Reads m ⟨data, 0, be, false, [], flexible⟩ a c') {heap : Heap} (hcalm : heap.Calm) :
    ∃ heap', onMemory data be flexible m heap = (.ok a, heap') ∧ heap'.Calm := by
  obtain ⟨_, h1, halloc1, hcalm1⟩ := Heap.alloc_calm hcalm
  obtain ⟨_, h2, halloc2, hcalm2⟩ := Heap.alloc_calm hcalm1
  obtain ⟨r', hrun, -, hcalm'⟩ := hm (create data be flexible h2) rfl hcalm2
  refine ⟨r'.heap, ?_, hcalm'⟩
  rw [onMemory, bind_ok halloc1]
  refine (bind_ok halloc2 _).trans ?_
  simp only [hrun]

/-- A run that has succeeded, from a reader over `data`. -/
theorem onMemory_eq_ok {data : List UInt8} {be flexible : Bool} {heap : Heap}
    (h : (onMemory data be flexible m heap).1 = .ok a) :
    ∃ heap' r', m (create data be flexible heap') = (.ok a, r') ∧ (heap.Calm → heap'.Calm) := by
  have hrun : onMemory data be flexible m heap = (.ok a, (onMemory data be flexible m heap).2) :=
    Prod.ext h rfl
  obtain ⟨_, h1, halloc1, hrun⟩ := bind_eq_ok.1 hrun
  obtain ⟨_, h2, halloc2, hrun⟩ := bind_eq_ok.1 hrun
  refine ⟨h2, (m (create data be flexible h2)).2, Prod.ext (Prod.mk.inj hrun).1 rfl, fun hcalm => ?_⟩
  obtain ⟨_, g1, hg1, hcalm1⟩ := Heap.alloc_calm hcalm
  rw [halloc1] at hg1
  cases hg1
  obtain ⟨_, g2, hg2, hcalm2⟩ := Heap.alloc_calm hcalm1
  rw [halloc2] at hg2
  cases hg2
  exact hcalm2

/-- A run that has not succeeded, from a reader over `data`. -/
theorem onMemory_refuses {data : List UInt8} {be flexible : Bool}
    (hm : Refuses m ⟨data, 0, be, false, [], flexible⟩) {heap : Heap} (hcalm : heap.Calm) (a : α) :
    (onMemory data be flexible m heap).1 ≠ .ok a := by
  intro h
  obtain ⟨heap', r', hrun, hcalm'⟩ := onMemory_eq_ok h
  exact hm _ rfl (hcalm' hcalm) a (by rw [hrun])

/-! ## Strings -/

/-- The loop over the units of a terminated string. -/
theorem parses_terminated {width : Nat} (us : List (List UInt8)) (hlen : ∀ u ∈ us, u.length = width)
    (hzero : ∀ u ∈ us, u ≠ List.replicate width 0) (fuel cap : Nat) (buf : List UInt8)
    (hfuel : us.length < fuel) (c : Cursor) :
    Parses (readTerminated width fuel cap buf) c (us.flatten ++ List.replicate width 0)
      (buf ++ us.flatten) := by
  induction us generalizing fuel cap buf c with
  | nil =>
      obtain ⟨fuel, rfl⟩ : ∃ n, fuel = n + 1 := ⟨fuel - 1, by simp at hfuel; omega⟩
      intro h
      have hbytes := parses_bytes c (List.replicate width 0) h
      rw [List.length_replicate] at hbytes
      refine hbytes.bind ?_
      rw [if_pos rfl, List.flatten_nil, List.append_nil, List.nil_append, List.length_replicate]
      exact Reads.pure _ _
  | cons u us ih =>
      obtain ⟨fuel, rfl⟩ : ∃ n, fuel = n + 1 := ⟨fuel - 1, by simp at hfuel; omega⟩
      have hu : u.length = width := hlen u List.mem_cons_self
      have hne : u ≠ List.replicate width 0 := hzero u List.mem_cons_self
      have hrest : ∀ cap, Parses (readTerminated width fuel cap (buf ++ u)) (c.advance u.length)
          (us.flatten ++ List.replicate width 0) (buf ++ (u :: us).flatten) := by
        intro cap
        have h := ih (fun v hv => hlen v (List.mem_cons_of_mem u hv))
          (fun v hv => hzero v (List.mem_cons_of_mem u hv)) fuel cap (buf ++ u)
          (by simp only [List.length_cons] at hfuel; omega) (c.advance u.length)
        rwa [List.append_assoc] at h
      rw [List.flatten_cons, List.append_assoc]
      have hunit := parses_bytes c u
      rw [hu] at hunit
      refine hunit.bind ?_
      rw [if_neg hne]
      split
      · exact fun h => reads_alloc _ fun _ => hrest _ h
      · exact hrest cap

/-- A terminated string that decodes. -/
theorem parses_strTerminated {width : Nat} (hwidth : 0 < width) {decode : Bool → Decode}
    (us : List (List UInt8)) (hlen : ∀ u ∈ us, u.length = width)
    (hzero : ∀ u ∈ us, u ≠ List.replicate width 0) {text : List UInt8} (c : Cursor)
    (hdecode : Steady (decode c.bigEndian us.flatten))
    (htext : granted (decode c.bigEndian us.flatten) = some text) :
    Parses (readStrTerminated width decode) c (us.flatten ++ List.replicate width 0) text := by
  intro h
  refine reads_alloc _ fun _ => Reads.state fun r hr => ?_
  have hlength : us.flatten.length = us.length * width := by
    rw [List.length_flatten, List.map_congr_left hlen, List.map_const', List.sum_replicate_nat]
  -- every unit takes at least one byte, so there are fewer units than bytes to come
  have hfuel : us.length < r.length - r.position + 1 := by
    have hle := h.le
    have hmem : r.stream.mem = c.mem := congrArg Cursor.mem hr
    have hpos : r.stream.memPos = c.pos := congrArg Cursor.pos hr
    have hunits : us.length ≤ us.length * width := Nat.le_mul_of_pos_right _ hwidth
    simp only [BinaryReader.length, BinaryReader.position, IStream.length, hmem, hpos]
    rw [List.length_append, hlength] at hle
    omega
  have hbe : r.bigEndian = c.bigEndian := congrArg Cursor.bigEndian hr
  rw [hbe]
  exact (parses_terminated us hlen hzero _ 64 [] hfuel c h).bind (reads_onHeap hdecode htext _)

/-- A string of known length. -/
theorem parses_strN {decode : Decode} (hdecode : ∀ bs, Steady (decode bs)) {x text : List UInt8}
    (htext : granted (decode x) = some text) (c : Cursor) :
    Parses (readStrN x.length decode) c x text := by
  intro h
  unfold readStrN
  split
  · next h0 =>
      have hx := List.length_eq_zero_iff.1 h0
      subst hx
      exact reads_onHeap (hdecode _) htext c
  · exact reads_alloc _ fun _ => (parses_bytes c x h).bind (reads_onHeap (hdecode x) htext _)

end BinaryReader

/-! ## Computations that a willing allocator lets succeed -/

/-- Under an allocator that grants everything, `m` returns `a`. -/
def Yields {α : Type} (m : Fallible Heap SfError α) (a : α) : Prop :=
  ∀ heap : Heap, heap.Calm → ∃ heap', m heap = (.ok a, heap') ∧ heap'.Calm

section

variable {α β : Type} {m : Fallible Heap SfError α} {f : α → Fallible Heap SfError β} {a : α} {b : β}

theorem Yields.pure (a : α) : Yields (Pure.pure a) a := fun heap hcalm => ⟨heap, rfl, hcalm⟩

theorem Yields.bind (hm : Yields m a) (hf : Yields (f a) b) : Yields (m >>= f) b := by
  intro heap hcalm
  obtain ⟨heap1, hrun, hcalm1⟩ := hm heap hcalm
  obtain ⟨heap2, hrest, hcalm2⟩ := hf heap1 hcalm1
  exact ⟨heap2, by rw [bind_ok hrun, hrest], hcalm2⟩

theorem Yields.alloc {m : Fallible Heap SfError α} (hm : Yields m a) : Yields (Heap.alloc >>= fun _ => m) a := by
  intro heap hcalm
  obtain ⟨junk, heap1, hrun, hcalm1⟩ := Heap.alloc_calm hcalm
  obtain ⟨heap2, hrest, hcalm2⟩ := hm heap1 hcalm1
  exact ⟨heap2, by rw [bind_ok hrun, hrest], hcalm2⟩

theorem Yields.reads (h : Yields m a) (c : BinaryReader.Cursor) : BinaryReader.Reads (BinaryReader.onHeap m) c a c := by
  intro r hr hcalm
  obtain ⟨heap', hrun, hcalm'⟩ := h r.heap hcalm
  exact ⟨{ r with heap := heap' }, by rw [BinaryReader.onHeap, zoom_run, hrun], hr, hcalm'⟩

end

end SoulsFormats
