import SoulsFormats.Core.Accepted
import SoulsFormats.Core.Layout
import SoulsFormats.Core.Scan

set_option autoImplicit false

/-! # Formats without offsets

A format that is written from front to back needs no places: what is written, what is read and what was read
are byte strings, which are put together along the code. `Sends` says what a writer writes, `ReadsBack` that a
reader takes it for a value, and `Consumes` what the bytes are that a successful reader has moved over. -/

namespace SoulsFormats

open Bytes Fallible

/-! ## Counts

A count is stored as a signed word. -/

theorem wordBytes_u16 (be : Bool) (n : Nat) : wordBytes be 2 (UInt16.ofNat n).toNat = wordBytes be 2 n := by
  rw [UInt16.toNat_ofNat']
  exact wordBytes_mod be 2 n

theorem wordBytes_u32 (be : Bool) (n : Nat) : wordBytes be 4 (UInt32.ofNat n).toNat = wordBytes be 4 n := by
  rw [UInt32.toNat_ofNat']
  exact wordBytes_mod be 4 n

theorem wordBytes_i16 (be : Bool) (n : Nat) : wordBytes be 2 (Int16.ofNat n).toUInt16.toNat = wordBytes be 2 n := by
  rw [Int16.toUInt16_ofNat', UInt16.toNat_ofNat']
  exact wordBytes_mod be 2 n

theorem wordBytes_i32 (be : Bool) (n : Nat) : wordBytes be 4 (Int32.ofNat n).toUInt32.toNat = wordBytes be 4 n := by
  rw [Int32.toUInt32_ofNat', UInt32.toNat_ofNat']
  exact wordBytes_mod be 4 n

theorem int16_eq_ofNat {v : Int16} (h : 0 ≤ v.toInt) : v = Int16.ofNat v.toInt.toNat := by
  rw [← Int16.ofInt_eq_ofNat, Int.toNat_of_nonneg h, Int16.ofInt_toInt]

theorem int32_eq_ofNat {v : Int32} (h : 0 ≤ v.toInt) : v = Int32.ofNat v.toInt.toNat := by
  rw [← Int32.ofInt_eq_ofNat, Int.toNat_of_nonneg h, Int32.ofInt_toInt]

/-! ## Writing -/

namespace BinaryWriter

section

variable {σ : Type} {S : FileSlots σ} {be long : Bool} {m m' : WriteM Unit} {x y : List UInt8} {P Q : Prop}

/-- Wherever the writer stands, `m` writes `x` there, and `P` holds if it succeeds. -/
def Sends (S : FileSlots σ) (be long : Bool) (m : WriteM Unit) (x : List UInt8) (P : Prop) : Prop :=
  ∀ pos, Puts S m ⟨pos, be, long⟩ (fun _ st => st = ⟨pos + x.length, be, long⟩ ∧ P) fun _ _ B => Holds B pos x

theorem Sends.imp (hm : Sends S be long m x P) (h : P → Q) : Sends S be long m x Q :=
  fun pos => (hm pos).conseq fun _ _ hst => ⟨⟨hst.1, h hst.2⟩, fun _ hB => hB⟩

theorem Sends.then (hm : Sends S be long m x P) (hm' : P → Sends S be long m' y Q) :
    Sends S be long (m >>= fun _ => m') (x ++ y) Q := by
  intro pos
  refine (hm pos).seq fun _ st hst => ?_
  obtain ⟨rfl, hP⟩ := hst
  refine (hm' hP (pos + x.length)).conseq fun _ st hst => ⟨?_, fun B hy hx => holds_append.2 ⟨hx, hy⟩⟩
  rw [List.length_append, ← Nat.add_assoc]
  exact hst

theorem Sends.nothing : Sends S be long (pure ()) [] True := by
  intro pos
  refine Puts.here (Puts.done ⟨rfl, trivial⟩ fun B hB => holds_nil.2 hB)

theorem Sends.check {p : Prop} [Decidable p] {e : SfError} (hm : p → Sends S be long m x P) :
    Sends S be long (Fallible.check p e >>= fun _ => m) x P :=
  fun pos => Puts.check fun hp => hm hp pos

theorem sends_fail (e : SfError) : Sends S be long (fail e) x P := fun _ => puts_fail e

theorem sends_scalar (k : Scalar) (v : k.Value) :
    Sends S be long (writeScalar k v) (scalarBytes be long k v) True := by
  intro pos
  refine Puts.last (Puts.scalar k (Puts.done ⟨?_, trivial⟩ fun B hB => hB))
  rw [length_scalarBytes]

theorem sends_u8 (v : UInt8) : Sends S be long (writeU8 v) [v] True := sends_scalar .u8 v

theorem sends_i16 (v : Int16) : Sends S be long (writeI16 v) (wordBytes be 2 v.toUInt16.toNat) True :=
  sends_scalar .i16 v

theorem sends_i32 (v : Int32) : Sends S be long (writeI32 v) (wordBytes be 4 v.toUInt32.toNat) True :=
  sends_scalar .i32 v

theorem sends_bytes (x : List UInt8) : Sends S be long (writeBytes x) x True :=
  fun _ => Puts.last (Puts.bytes (Puts.done ⟨rfl, trivial⟩ fun _ hB => hB))

theorem sends_ascii {os : Win32} (hos : os.AsciiCompatible) {t : List UInt8} (ht : Win32.isPlain t = true) :
    Sends S be long (writeAscii os (some t) false) t True :=
  fun _ => Puts.last (Puts.ascii hos ht (Puts.done ⟨rfl, trivial⟩ fun _ hB => hB))

/-- A step that is only made if there is something to write. -/
theorem Sends.given {c : Bool} (hm : c = true → Sends S be long m x True) (hx : c = false → x = []) :
    Sends S be long (Fallible.given c () m) x True := by
  cases c with
  | true => exact hm rfl
  | false =>
      rw [hx rfl]
      exact Sends.nothing

theorem sends_each {γ : Type} {write : γ → WriteM Unit} {bytes : γ → List UInt8} {P : γ → Prop} (l : List γ)
    (h : ∀ a ∈ l, Sends S be long (write a) (bytes a) (P a)) :
    Sends S be long (writeEach write l) (l.flatMap bytes) (∀ a ∈ l, P a) := by
  induction l with
  | nil => exact Sends.nothing.imp fun _ => nofun
  | cons a l ih =>
      refine (h a List.mem_cons_self).then fun hP => ?_
      refine (ih fun b hb => h b (List.mem_cons_of_mem a hb)).imp fun hl => ?_
      simpa using ⟨hP, hl⟩

theorem sends_array {γ : Type} {write : γ → WriteM Unit} {bytes : γ → List UInt8} (l : List γ)
    (h : ∀ a, Sends S be long (write a) (bytes a) True) :
    Sends S be long (defineWriteArray write l) (l.flatMap bytes) True := by
  intro pos w w' v hw hrun
  rw [defineWriteArray, bind_ok (writerOpen_ok hw.atEnd.inv.ready)] at hrun
  exact ((sends_each l fun a _ => h a).imp fun _ => trivial) pos w w' v hw hrun

end

end BinaryWriter

namespace BinaryReader

variable {α β : Type} {be : Bool} {m : ReadM α} {f : α → ReadM β} {x y : List UInt8} {a : α} {b : β}

/-! ## Numbers that are stored in words -/

section

variable {mem : List UInt8} {pos n : Nat} {long flex : Bool} {steps : List Nat} {c2 : Cursor}

theorem Reads.i64Nat {f : Int64 → ReadM β} (h : Holds mem pos (wordBytes be 8 n))
    (hf : Reads (f (Int64.ofNat n)) ⟨mem, pos + 8, be, long, steps, flex⟩ b c2) :
    Reads (readI64 >>= f) ⟨mem, pos, be, long, steps, flex⟩ b c2 :=
  (parses_i64_ofNat ⟨mem, pos, be, long, steps, flex⟩ n).step h (by rwa [length_wordBytes])

theorem Reads.i32Nat {f : Int32 → ReadM β} (h : Holds mem pos (wordBytes be 4 n))
    (hf : Reads (f (Int32.ofNat n)) ⟨mem, pos + 4, be, long, steps, flex⟩ b c2) :
    Reads (readI32 >>= f) ⟨mem, pos, be, long, steps, flex⟩ b c2 :=
  Reads.i32 (by rwa [wordBytes_i32]) hf

theorem Reads.u32Nat {f : UInt32 → ReadM β} (h : Holds mem pos (wordBytes be 4 n))
    (hf : Reads (f (UInt32.ofNat n)) ⟨mem, pos + 4, be, long, steps, flex⟩ b c2) :
    Reads (readU32 >>= f) ⟨mem, pos, be, long, steps, flex⟩ b c2 :=
  Reads.u32 (by rwa [wordBytes_u32]) hf

theorem Reads.u16Nat {f : UInt16 → ReadM β} (h : Holds mem pos (wordBytes be 2 n))
    (hf : Reads (f (UInt16.ofNat n)) ⟨mem, pos + 2, be, long, steps, flex⟩ b c2) :
    Reads (readU16 >>= f) ⟨mem, pos, be, long, steps, flex⟩ b c2 :=
  Reads.u16 (by rwa [wordBytes_u16]) hf

end

/-! ## Words in a block -/

theorem hostWords_succ (size n : Nat) (bs : List UInt8) :
    hostWords size (n + 1) bs = leNat (bs.take size) :: hostWords size n (bs.drop size) := by
  simp only [hostWords, List.range_succ_eq_map, List.map_cons, List.map_map, Nat.zero_mul, List.drop_zero]
  congr 1
  refine List.map_congr_left fun i _ => ?_
  simp only [Function.comp_apply, List.drop_drop]
  congr 3
  rw [Nat.succ_mul, Nat.add_comm]

/-- The words in the byte order of the reader. -/
def orderedWords (be : Bool) (size n : Nat) (bs : List UInt8) : List Nat :=
  if be then (hostWords size n bs).map (bswap size) else hostWords size n bs

theorem orderedWords_succ {be : Bool} {size n : Nat} {bs rest : List UInt8} (hlen : bs.length = size) :
    orderedWords be size (n + 1) (bs ++ rest) = wordNat be bs :: orderedWords be size n rest := by
  subst hlen
  cases be with
  | false => simp [orderedWords, hostWords_succ, wordNat]
  | true => simp [orderedWords, hostWords_succ, wordNat, bswap_leNat]

/-- The words of a block spell it. -/
theorem orderedWords_flatMap (be : Bool) (size : Nat) {n : Nat} {bs : List UInt8} (hlen : bs.length = n * size) :
    (orderedWords be size n bs).flatMap (wordBytes be size) = bs := by
  induction n generalizing bs with
  | zero =>
      rw [Nat.zero_mul] at hlen
      cases be <;> simp [orderedWords, hostWords, List.length_eq_zero_iff.1 hlen]
  | succ n ih =>
      rw [Nat.succ_mul] at hlen
      have htake : (bs.take size).length = size := by
        rw [List.length_take]
        omega
      have hword := wordBytes_wordNat be (bs.take size)
      rw [htake] at hword
      rw [← List.take_append_drop size bs, orderedWords_succ htake, List.flatMap_cons, hword,
        ih (by rw [List.length_drop]; omega)]

theorem orderedWords_of_flatMap (be : Bool) (size : Nat) {vs : List Nat} (hvs : ∀ v ∈ vs, v < 256 ^ size) :
    orderedWords be size vs.length (vs.flatMap (wordBytes be size)) = vs := by
  induction vs with
  | nil => cases be <;> rfl
  | cons v vs ih =>
      rw [List.flatMap_cons, List.length_cons, orderedWords_succ (length_wordBytes ..), wordNat_wordBytes,
        Nat.mod_eq_of_lt (hvs v List.mem_cons_self), ih fun u hu => hvs u (List.mem_cons_of_mem v hu)]

theorem orderedWords_lt (be : Bool) (size : Nat) {n : Nat} {bs : List UInt8} (hlen : bs.length = n * size) :
    ∀ v ∈ orderedWords be size n bs, v < 256 ^ size := by
  induction n generalizing bs with
  | zero => cases be <;> simp [orderedWords, hostWords]
  | succ n ih =>
      rw [Nat.succ_mul] at hlen
      have htake : (bs.take size).length = size := by
        rw [List.length_take]
        omega
      have hword := wordNat_lt be (bs.take size)
      rw [htake] at hword
      rw [← List.take_append_drop size bs, orderedWords_succ htake]
      simp only [List.mem_cons, forall_eq_or_imp]
      exact ⟨hword, ih (by rw [List.length_drop]; omega)⟩

theorem length_orderedWords (be : Bool) (size n : Nat) (bs : List UInt8) :
    (orderedWords be size n bs).length = n := by
  cases be <;> simp [orderedWords, hostWords]

/-! ## Reading back -/

/-- Standing before the bytes `x`, with this byte order, `m` moves over them and yields `a`. -/
def ReadsBack (be : Bool) (m : ReadM α) (x : List UInt8) (a : α) : Prop :=
  ∀ c : Cursor, c.bigEndian = be → Parses m c x a

theorem ReadsBack.pure (a : α) : ReadsBack be (Pure.pure a) [] a := fun _ _ => (Reads.pure _ _).parses

theorem ReadsBack.bind (hm : ReadsBack be m x a) (hf : ReadsBack be (f a) y b) :
    ReadsBack be (m >>= f) (x ++ y) b :=
  fun c hc => (hm c hc).bind (hf _ hc)

/-- What is read last. -/
theorem ReadsBack.last (hm : ReadsBack be m x a) (g : α → β) (hb : g a = b) :
    ReadsBack be (m >>= fun v => Pure.pure (g v)) x b := by
  intro c hc
  rw [← hb]
  exact (hm c hc).map g

theorem ReadsBack.check {p : Prop} [Decidable p] {e : SfError} {f : Unit → ReadM β} (hp : p)
    (hf : ReadsBack be (f ()) x b) : ReadsBack be (Fallible.check p e >>= f) x b :=
  fun c hc => (hf c hc).check hp

theorem ReadsBack.alloc {f : List UInt8 → ReadM β} (hf : ∀ junk, ReadsBack be (f junk) x b) :
    ReadsBack be (onHeap Heap.alloc >>= f) x b :=
  fun c hc hx => reads_alloc c fun junk => hf junk c hc hx

/-- A step that only asks the allocator. -/
theorem ReadsBack.onHeap {conv : Fallible Heap SfError α} (hconv : Steady conv) (hvalue : granted conv = some a)
    (hf : ReadsBack be (f a) x b) : ReadsBack be (BinaryReader.onHeap conv >>= f) x b :=
  fun c hc hx => (reads_onHeap hconv hvalue c).bind (hf c hc hx)

theorem ReadsBack.each {γ : Type} {bytes : γ → List UInt8} {value : γ → α} (l : List γ)
    (hm : ∀ a ∈ l, ReadsBack be m (bytes a) (value a)) :
    ReadsBack be (readEach m l.length) (l.flatMap bytes) (l.map value) :=
  fun _ hc => parses_readEach l fun a ha c' hbe _ => hm a ha c' (hbe.trans hc)

theorem readsBack_u8 (v : UInt8) : ReadsBack be readU8 [v] v := fun c _ => parses_u8 c v

theorem readsBack_u16 (v : UInt16) : ReadsBack be readU16 (wordBytes be 2 v.toNat) v := by
  rintro c rfl
  exact parses_u16 c v

theorem readsBack_i16 (v : Int16) : ReadsBack be readI16 (wordBytes be 2 v.toUInt16.toNat) v := by
  rintro c rfl
  exact parses_i16 c v

theorem readsBack_i32 (v : Int32) : ReadsBack be readI32 (wordBytes be 4 v.toUInt32.toNat) v := by
  rintro c rfl
  exact parses_i32 c v

theorem readsBack_bytes (x : List UInt8) : ReadsBack be (readBytes x.length) x x := fun c _ => parses_bytes c x

theorem ReadsBack.assert [DecidableEq α] {options : List α} (hm : ReadsBack be m x a) (ha : a ∈ options) :
    ReadsBack be (defineAssertMulti m options) x a :=
  fun c hc => parses_assert (hm c hc) ha

theorem readsBack_asciiN (t : List UInt8) (ht : ∀ b ∈ t, b < 0x80) (hlen : t.length ≤ INT32_MAX) :
    ReadsBack be (readAsciiN t.length) t t := by
  intro c _
  refine parses_strN asciiToUtf8_steady ?_ c
  have hmap : (t.map fun b => if b < 0x80 then b else 0x3F) = t := by
    refine (List.map_congr_left fun b hb => ?_).trans (List.map_id t)
    rw [if_pos (ht b hb), id_eq]
  have hne : t.length ≠ SIZE_MAX := by
    have hmax : INT32_MAX = 2 ^ 31 - 1 := rfl
    have hsize : SIZE_MAX = 2 ^ 64 - 1 := rfl
    omega
  rw [granted_eq_some]
  unfold asciiToUtf8
  split
  · next h0 =>
      rw [List.length_eq_zero_iff.1 h0]
      exact ⟨[], rfl⟩
  · rw [check_bind_pos hne, bind_ok Heap.alloc_nil, hmap]
    exact ⟨[], rfl⟩

theorem parses_array (size n : Nat) (hn : n ≤ SIZE_MAX / size) (x : List UInt8) (hx : x.length = n * size)
    (c : Cursor) : Parses (defineReadArrayRaw size n) c x (orderedWords c.bigEndian size n x) := by
  intro h
  unfold defineReadArrayRaw
  split
  · next h0 =>
      subst h0
      rw [Nat.zero_mul] at hx
      rw [List.length_eq_zero_iff.1 hx]
      cases c.bigEndian <;> exact Reads.pure _ _
  · refine Reads.check hn ?_
    rw [← hx]
    refine (parses_bytes c x h).bind (Reads.state fun r hr => ?_)
    have hbe : r.bigEndian = c.bigEndian := congrArg Cursor.bigEndian hr
    rw [hbe]
    exact Reads.pure _ _

/-- An array of words of one size is read back, whatever the words stand for. -/
theorem readsBack_words (size : Nat) {toNat : α → Nat} {ofNat : Nat → α} (hlt : ∀ v, toNat v < 256 ^ size)
    (hid : ∀ v, ofNat (toNat v) = v) (vs : List α) (hn : vs.length ≤ SIZE_MAX / size) :
    ReadsBack be (defineReadArrayRaw size vs.length >>= fun ws => Pure.pure (ws.map ofNat))
      (vs.flatMap fun v => wordBytes be size (toNat v)) vs := by
  rintro c rfl
  have hx : (vs.flatMap fun v => wordBytes c.bigEndian size (toNat v)).length = vs.length * size :=
    length_flatMap_const vs fun _ _ => length_wordBytes ..
  have hsmall : ∀ n ∈ vs.map toNat, n < 256 ^ size := by
    intro n hn
    obtain ⟨v, -, rfl⟩ := List.mem_map.1 hn
    exact hlt v
  have hwords := orderedWords_of_flatMap c.bigEndian size hsmall
  rw [List.length_map, List.flatMap_map] at hwords
  have h := (parses_array size vs.length hn _ hx c).map fun ws => ws.map ofNat
  rw [hwords, List.map_map] at h
  have hback : vs.map (ofNat ∘ toNat) = vs := (List.map_congr_left fun v _ => hid v).trans (List.map_id vs)
  rwa [hback] at h

theorem readsBack_u16s (vs : List UInt16) (hlen : vs.length ≤ INT32_MAX) :
    ReadsBack be (readU16s vs.length) (vs.flatMap fun v => wordBytes be 2 v.toNat) vs :=
  readsBack_words 2 (fun v => v.toNat_lt) (fun _ => UInt16.ofNat_toNat) vs (hlen.trans (by decide))

theorem readsBack_i16s (vs : List Int16) (hlen : vs.length ≤ INT32_MAX) :
    ReadsBack be (readI16s vs.length) (vs.flatMap fun v => wordBytes be 2 v.toUInt16.toNat) vs :=
  readsBack_words 2 (fun v => v.toUInt16.toNat_lt)
    (fun v => (congrArg UInt16.toInt16 UInt16.ofNat_toNat).trans v.toInt16_toUInt16) vs (hlen.trans (by decide))

theorem readsBack_u32s (vs : List UInt32) (hlen : vs.length ≤ INT32_MAX) :
    ReadsBack be (readU32s vs.length) (vs.flatMap fun v => wordBytes be 4 v.toNat) vs :=
  readsBack_words 4 (fun v => v.toNat_lt) (fun _ => UInt32.ofNat_toNat) vs (hlen.trans (by decide))

theorem readsBack_i32s (vs : List Int32) (hlen : vs.length ≤ INT32_MAX) :
    ReadsBack be (readI32s vs.length) (vs.flatMap fun v => wordBytes be 4 v.toUInt32.toNat) vs :=
  readsBack_words 4 (fun v => v.toUInt32.toNat_lt)
    (fun v => (congrArg UInt32.toInt32 UInt32.ofNat_toNat).trans v.toInt32_toUInt32) vs (hlen.trans (by decide))

/-! ## What was read -/

/-- A reader with these settings that stands at `pos` and in which `m` succeeds has moved over some bytes, and
    `R` holds of what it returns and of them. -/
def Consumes (M : Mode) (pos : Nat) (m : ReadM α) (R : α → List UInt8 → Prop) : Prop :=
  ∀ r : BinaryReader, r.mode = M → r.position = pos → pos ≤ r.stream.mem.length → ∀ a r', m r = (.ok a, r') →
    r'.mode = M ∧ r'.stream.mem = r.stream.mem ∧
      ∃ x, Holds r.stream.mem pos x ∧ r'.position = pos + x.length ∧ R a x

variable {M : Mode} {pos : Nat} {R R' : α → List UInt8 → Prop} {T : β → List UInt8 → Prop}

theorem Consumes.mono (hm : Consumes M pos m R) (h : ∀ a x, R a x → R' a x) : Consumes M pos m R' := by
  intro r hr hpos hle a r' hrun
  obtain ⟨hmode, hmem, x, hx, hpos', hR⟩ := hm r hr hpos hle a r' hrun
  exact ⟨hmode, hmem, x, hx, hpos', h a x hR⟩

theorem Consumes.pure (h : R a []) : Consumes M pos (Pure.pure a) R := by
  intro r hr hpos hle b r' hrun
  cases hrun
  exact ⟨hr, rfl, [], holds_nil.2 hle, hpos, h⟩

theorem consumes_fail (e : SfError) : Consumes M pos (Fallible.fail e : ReadM α) R := by
  intro r _ _ _ a r' hrun
  cases hrun

theorem Consumes.bind (hm : Consumes M pos m R)
    (hf : ∀ a x, R a x → Consumes M (pos + x.length) (f a) fun b y => T b (x ++ y)) :
    Consumes M pos (m >>= f) T := by
  intro r hr hpos hle b r' hrun
  obtain ⟨a, r1, hrun1, hrun2⟩ := bind_eq_ok.1 hrun
  obtain ⟨hmode1, hmem1, x, hx, hpos1, hR⟩ := hm r hr hpos hle a r1 hrun1
  obtain ⟨hmode2, hmem2, y, hy, hpos2, hT⟩ := hf a x hR r1 hmode1 hpos1 (by rw [hmem1]; exact hx.le) b r' hrun2
  refine ⟨hmode2, hmem2.trans hmem1, x ++ y, holds_append.2 ⟨hx, ?_⟩, ?_, hT⟩
  · rwa [hmem1] at hy
  · rw [hpos2, List.length_append, Nat.add_assoc]

theorem Consumes.check {p : Prop} [Decidable p] {e : SfError} {f : Unit → ReadM β}
    (hf : p → Consumes M pos (f ()) T) : Consumes M pos (Fallible.check p e >>= f) T := by
  intro r hr hpos hle b r' hrun
  by_cases hp : p
  · rw [check_bind_pos hp] at hrun
    exact hf hp r hr hpos hle b r' hrun
  · rw [check_bind_neg hp] at hrun
    cases hrun

theorem Consumes.position {f : Nat → ReadM β} (hf : Consumes M pos (f pos) T) :
    Consumes M pos (peek BinaryReader.position >>= f) T := by
  intro r hr hpos hle b r' hrun
  rw [peek_bind_run, hpos] at hrun
  exact hf r hr hpos hle b r' hrun

theorem Consumes.state {f : BinaryReader → ReadM β} (hf : ∀ r, Consumes M pos (f r) T) :
    Consumes M pos (Fallible.state >>= f) T :=
  fun r hr hpos hle b r' hrun => hf r r hr hpos hle b r' hrun

theorem Consumes.onHeap {conv : Fallible Heap SfError α} {f : α → ReadM β}
    (hf : ∀ a, (∃ h h', conv h = (.ok a, h')) → Consumes M pos (f a) T) :
    Consumes M pos (BinaryReader.onHeap conv >>= f) T := by
  intro r hr hpos hle b r' hrun
  obtain ⟨a, r1, hrun1, hrun2⟩ := bind_eq_ok.1 hrun
  rw [BinaryReader.onHeap, zoom_run, Prod.mk.injEq] at hrun1
  obtain ⟨hok, rfl⟩ := hrun1
  exact hf a ⟨_, _, Prod.ext hok rfl⟩ { r with heap := (conv r.heap).2 } hr hpos hle b r' hrun2

/-- A step at the end of a block is one before nothing. -/
theorem Consumes.last (h : Consumes M pos (m >>= Pure.pure) R) : Consumes M pos m R := by
  rwa [bind_pure] at h

theorem Consumes.map (hm : Consumes M pos m R) {g : α → β} (h : ∀ a x, R a x → T (g a) x) :
    Consumes M pos (m >>= fun a => Pure.pure (g a)) T :=
  hm.bind fun a x hR => Consumes.pure (by rw [List.append_nil]; exact h a x hR)

theorem consumes_bytes (n : Nat) : Consumes M pos (readBytes n) fun v x => x = v ∧ v.length = n := by
  intro r hr hpos hle v r' hrun
  have hread := (Prod.mk.inj hrun).1
  have hlen : v.length = n := length_of_read hread
  rw [readBytes, onStream, zoom_run] at hrun
  unfold IStream.read at hrun hread
  by_cases h0 : n = 0
  · rw [if_pos h0] at hrun
    cases hrun
    exact ⟨hr, rfl, [], holds_nil.2 hle, hpos, rfl, hlen⟩
  · rw [if_neg h0, state_bind_run] at hrun hread
    by_cases hroom : (n : Int) ≤ (r.stream.length : Int) - r.stream.memPos
    · rw [check_bind_pos hroom] at hrun
      cases hrun
      have hfit : r.stream.memPos + n ≤ r.stream.mem.length := by
        simp only [IStream.length] at hroom
        omega
      obtain ⟨x, hxlen, hx⟩ := exists_holds hfit
      have hslice := hx.take_drop
      rw [hxlen] at hslice
      refine ⟨hr, rfl, x, ?_, ?_, hslice.symm, hlen⟩
      · rw [← hpos]
        exact hx
      · rw [hxlen, ← hpos]
        rfl
    · rw [check_bind_neg hroom] at hread
      cases hread

theorem consumes_int (n : Nat) :
    Consumes M pos (defineReadInt n) fun v x => x = wordBytes M.bigEndian n v ∧ v < 256 ^ n := by
  refine (consumes_bytes n).bind fun bs x hx => ?_
  obtain ⟨rfl, hlen⟩ := hx
  intro r hr hpos hle v r' hrun
  rw [state_bind_run] at hrun
  have hbe : r.bigEndian = M.bigEndian := congrArg Mode.bigEndian hr
  have hval : (if r.bigEndian then bswap n (leNat x) else leNat x) = wordNat M.bigEndian x := by
    rw [hbe]
    cases M.bigEndian
    · rfl
    · subst hlen
      exact bswap_leNat x
  rw [hval] at hrun
  cases hrun
  have hlt := wordNat_lt M.bigEndian x
  have hword := wordBytes_wordNat M.bigEndian x
  rw [hlen] at hlt hword
  exact ⟨hr, rfl, [], holds_nil.2 hle, hpos, by rw [List.append_nil, hword], hlt⟩

theorem consumes_u8 : Consumes M pos readU8 fun v x => x = [v] := by
  refine (consumes_bytes 1).map fun bs x hx => ?_
  obtain ⟨rfl, hlen⟩ := hx
  obtain ⟨b, rfl⟩ := List.length_eq_one_iff.1 hlen
  rfl

theorem consumes_u16 : Consumes M pos readU16 fun v x => x = wordBytes M.bigEndian 2 v.toNat := by
  refine (consumes_int 2).map fun v x hx => ?_
  rw [hx.1, UInt16.toNat_ofNat_of_lt' hx.2]

theorem consumes_u32 : Consumes M pos readU32 fun v x => x = wordBytes M.bigEndian 4 v.toNat := by
  refine (consumes_int 4).map fun v x hx => ?_
  rw [hx.1, UInt32.toNat_ofNat_of_lt' hx.2]

theorem consumes_i16 : Consumes M pos readI16 fun v x => x = wordBytes M.bigEndian 2 v.toUInt16.toNat :=
  consumes_u16.map fun v x hx => by rw [hx, UInt16.toUInt16_toInt16]

theorem consumes_i32 : Consumes M pos readI32 fun v x => x = wordBytes M.bigEndian 4 v.toUInt32.toNat :=
  consumes_u32.map fun v x hx => by rw [hx, UInt32.toUInt32_toInt32]

/-- A reader that is not flexible has checked what it asserts. -/
theorem consumes_assert [DecidableEq α] {options : List α} (hflex : M.isFlexible = false)
    (hm : Consumes M pos m R) : Consumes M pos (defineAssertMulti m options) fun v x => R v x ∧ v ∈ options := by
  refine Consumes.check fun _ => hm.bind fun v x hx => ?_
  intro r hr hpos hle b r' hrun
  have hno : ¬ r.isFlexible = true := by
    rw [show r.isFlexible = M.isFlexible from congrArg Mode.isFlexible hr, hflex]
    decide
  rw [state_bind_run, if_neg hno] at hrun
  have hrest : Consumes M (pos + x.length) (Fallible.check (v ∈ options) SfError.badMagic >>= fun _ => Pure.pure v)
      fun b y => R b (x ++ y) ∧ b ∈ options :=
    Consumes.check fun hv => Consumes.pure (by rw [List.append_nil]; exact ⟨hx, hv⟩)
  exact hrest r hr hpos hle b r' hrun

theorem consumes_asciiN (n : Nat) : Consumes M pos (readAsciiN n) fun t x =>
    x.length = n ∧ t = x.map fun b => if b < 0x80 then b else 0x3F := by
  have hconv : ∀ x : List UInt8, Returns (asciiToUtf8 x) fun t => t = x.map fun b => if b < 0x80 then b else 0x3F := by
    intro x
    refine Returns.ite (fun h0 => Returns.after fun _ => Returns.pure ?_) fun _ =>
      Returns.check fun _ => Returns.after fun _ => Returns.pure rfl
    rw [List.length_eq_zero_iff.1 h0, List.map_nil]
  unfold readAsciiN readStrN
  split
  · next h0 =>
      refine Consumes.last (Consumes.onHeap fun t ht => ?_)
      obtain ⟨h, h', ht⟩ := ht
      have hnil := (hconv []) h t h' ht
      exact Consumes.pure ⟨h0.symm, hnil⟩
  · refine Consumes.onHeap fun _ _ => (consumes_bytes n).bind fun bs x hx => ?_
    obtain ⟨rfl, hlen⟩ := hx
    refine Consumes.last (Consumes.onHeap fun t ht => ?_)
    obtain ⟨h, h', ht⟩ := ht
    have hval := (hconv x) h t h' ht
    refine Consumes.pure ?_
    rw [List.append_nil]
    exact ⟨hlen, hval⟩

theorem consumes_array (size n : Nat) : Consumes M pos (defineReadArrayRaw size n) fun vs x =>
    x = vs.flatMap (wordBytes M.bigEndian size) ∧ vs.length = n ∧ ∀ v ∈ vs, v < 256 ^ size := by
  unfold defineReadArrayRaw
  split
  · next h0 => exact Consumes.pure ⟨rfl, h0.symm, fun _ hv => absurd hv List.not_mem_nil⟩
  · refine Consumes.check fun _ => (consumes_bytes (n * size)).bind fun bs x hx => ?_
    obtain ⟨rfl, hlen⟩ := hx
    intro r hr hpos hle vs r' hrun
    have hbe : r.bigEndian = M.bigEndian := congrArg Mode.bigEndian hr
    have hrun' : (.ok (orderedWords M.bigEndian size n x), r) = ((.ok vs, r') : Except SfError (List Nat) × _) := by
      rw [state_bind_run, hbe] at hrun
      exact hrun
    cases hrun'
    have hspell := orderedWords_flatMap M.bigEndian size hlen
    exact ⟨hr, rfl, [], holds_nil.2 hle, hpos, (List.append_nil x).trans hspell.symm, length_orderedWords ..,
      orderedWords_lt M.bigEndian size hlen⟩

theorem consumes_i32s (n : Nat) : Consumes M pos (readI32s n) fun vs x =>
    x = vs.flatMap (fun v => wordBytes M.bigEndian 4 v.toUInt32.toNat) ∧ vs.length = n := by
  refine (consumes_array 4 n).map fun vs x hx => ?_
  obtain ⟨rfl, hlen, hlt⟩ := hx
  refine ⟨?_, by rw [List.length_map, hlen]⟩
  rw [List.flatMap_map]
  refine List.flatMap_congr fun v hv => ?_
  rw [UInt32.toUInt32_toInt32, UInt32.toNat_ofNat_of_lt' (hlt v hv)]

end BinaryReader

end SoulsFormats
