import Mathlib.Tactic.Common
import Mathlib.Tactic.Ring
import Mathlib.Data.List.Basic

set_option autoImplicit false

/-! # Byte strings: fixed-width words, slices and overwriting

Everything here is about lists and natural numbers. `wordBytes big n v` is the `n`-byte encoding of
`v` in either byte order and `wordNat` reads it back; `Holds data p x` says that `data` contains the
slice `x` at offset `p`, and splits along `++`; `overwrite data p x` stores `x` at `p`, extending
`data` (with zeros, where `p` lies past its end) as far as needed. -/

namespace Bytes

/-! ## Words -/

/-- The `n` low bytes of `v`, least significant first. -/
def leBytes : Nat → Nat → List UInt8
  | 0, _ => []
  | n + 1, v => UInt8.ofNat v :: leBytes n (v / 256)

/-- The number whose base-256 digits, least significant first, are the bytes of the list. -/
def leNat : List UInt8 → Nat
  | [] => 0
  | b :: bs => b.toNat + 256 * leNat bs

/-- The `n` low bytes of `v` in the given byte order. -/
def wordBytes (big : Bool) (n v : Nat) : List UInt8 :=
  if big then (leBytes n v).reverse else leBytes n v

/-- The number a byte string spells in the given byte order. -/
def wordNat (big : Bool) (bs : List UInt8) : Nat :=
  leNat (if big then bs.reverse else bs)

@[simp] theorem length_leBytes (n v : Nat) : (leBytes n v).length = n := by
  induction n generalizing v with
  | zero => rfl
  | succ n ih => simp [leBytes, ih]

@[simp] theorem length_wordBytes (big : Bool) (n v : Nat) : (wordBytes big n v).length = n := by
  cases big <;> simp [wordBytes]

theorem leNat_leBytes (n v : Nat) : leNat (leBytes n v) = v % 256 ^ n := by
  induction n generalizing v with
  | zero => simp [leBytes, leNat, Nat.mod_one]
  | succ n ih =>
      have hlow : (UInt8.ofNat v).toNat = v % 256 := by simp
      rw [leBytes, leNat, ih, hlow, pow_succ', Nat.mod_mul]

theorem wordNat_wordBytes (big : Bool) (n v : Nat) :
    wordNat big (wordBytes big n v) = v % 256 ^ n := by
  cases big <;> simp [wordNat, wordBytes, leNat_leBytes]

theorem leNat_lt (bs : List UInt8) : leNat bs < 256 ^ bs.length := by
  induction bs with
  | nil => simp [leNat]
  | cons b bs ih =>
      have hb : b.toNat < 256 := b.toNat_lt
      rw [leNat, List.length_cons, pow_succ']
      omega

theorem wordNat_lt (big : Bool) (bs : List UInt8) : wordNat big bs < 256 ^ bs.length := by
  cases big
  · exact leNat_lt bs
  · simpa [wordNat] using leNat_lt bs.reverse

theorem leBytes_leNat (bs : List UInt8) : leBytes bs.length (leNat bs) = bs := by
  induction bs with
  | nil => rfl
  | cons b bs ih =>
      have hb : b.toNat < 256 := b.toNat_lt
      have hlow : UInt8.ofNat (b.toNat + 256 * leNat bs) = b := by
        rw [← UInt8.toNat_inj, UInt8.toNat_ofNat']
        omega
      have hhigh : (b.toNat + 256 * leNat bs) / 256 = leNat bs := by omega
      rw [List.length_cons, leNat, leBytes, hlow, hhigh, ih]

theorem wordBytes_wordNat (big : Bool) (bs : List UInt8) :
    wordBytes big bs.length (wordNat big bs) = bs := by
  cases big
  · exact leBytes_leNat bs
  · have h := leBytes_leNat bs.reverse
    rw [List.length_reverse] at h
    simp [wordBytes, wordNat, h]

/-- Only the low `n` bytes of a number are stored. -/
theorem leBytes_mod (n v : Nat) : leBytes n (v % 256 ^ n) = leBytes n v := by
  have h := leBytes_leNat (leBytes n v)
  rwa [leNat_leBytes, length_leBytes] at h

theorem wordBytes_mod (big : Bool) (n v : Nat) :
    wordBytes big n (v % 256 ^ n) = wordBytes big n v := by
  cases big <;> simp [wordBytes, leBytes_mod]

/-- Two numbers have the same `n`-byte encoding exactly if they agree modulo `256 ^ n`. -/
theorem wordBytes_inj {big : Bool} {n v w : Nat} :
    wordBytes big n v = wordBytes big n w ↔ v % 256 ^ n = w % 256 ^ n := by
  constructor
  · intro h
    rw [← wordNat_wordBytes big, h, wordNat_wordBytes]
  · intro h
    rw [← wordBytes_mod, h, wordBytes_mod]

theorem wordBytes_zero (be : Bool) (n : Nat) : wordBytes be n 0 = List.replicate n 0 := by
  have hle : ∀ n, leBytes n 0 = List.replicate n (0 : UInt8) := by
    intro n
    induction n with
    | zero => rfl
    | succ n ih => simp [leBytes, ih, List.replicate_succ]
  cases be <;> simp [wordBytes, hle]

/-- A word of `n` bytes with its bytes in reverse order. -/
def bswap (n v : Nat) : Nat := leNat (leBytes n v).reverse

theorem leBytes_bswap (n v : Nat) : leBytes n (bswap n v) = (leBytes n v).reverse := by
  have h := leBytes_leNat (leBytes n v).reverse
  rwa [List.length_reverse, length_leBytes] at h

theorem bswap_leNat (bs : List UInt8) : bswap bs.length (leNat bs) = leNat bs.reverse := by
  rw [bswap, leBytes_leNat]

theorem wordBytes_one (big : Bool) (v : Nat) : wordBytes big 1 v = [UInt8.ofNat v] := by
  cases big <;> rfl

theorem leBytes_add (m n v : Nat) :
    leBytes (m + n) v = leBytes m v ++ leBytes n (v / 256 ^ m) := by
  induction m generalizing v with
  | zero => simp [leBytes]
  | succ m ih =>
      have hdiv : v / 256 / 256 ^ m = v / 256 ^ (m + 1) := by
        rw [Nat.div_div_eq_div_mul, pow_succ']
      rw [Nat.succ_add, leBytes, leBytes, ih, hdiv, List.cons_append]

/-- The low bytes of a little-endian word come first. -/
theorem wordBytes_false_add (m n v : Nat) :
    wordBytes false (m + n) v = wordBytes false m v ++ wordBytes false n (v / 256 ^ m) :=
  leBytes_add m n v

/-- The high bytes of a big-endian word come first. -/
theorem wordBytes_true_add (m n v : Nat) :
    wordBytes true (m + n) v = wordBytes true m (v / 256 ^ n) ++ wordBytes true n v := by
  simp only [wordBytes, if_true]
  rw [Nat.add_comm, leBytes_add, List.reverse_append]

theorem leNat_eq_zero {bs : List UInt8} : leNat bs = 0 ↔ ∀ b ∈ bs, b = 0 := by
  induction bs with
  | nil => simp [leNat]
  | cons b bs ih =>
      have hb : b.toNat = 0 ↔ b = 0 := by rw [← UInt8.toNat_inj]; rfl
      rw [leNat, Nat.add_eq_zero_iff, hb, Nat.mul_eq_zero, ih]
      simp

/-- Whether a word is 0 does not depend on the byte order. -/
theorem wordNat_eq_zero (big : Bool) {bs : List UInt8} : wordNat big bs = 0 ↔ ∀ b ∈ bs, b = 0 := by
  rcases big <;> simp [wordNat, leNat_eq_zero]

theorem wordNat_wordBytes_eq_zero (big big' : Bool) (n v : Nat) :
    wordNat big (wordBytes big' n v) = 0 ↔ v % 256 ^ n = 0 := by
  rw [wordNat_eq_zero, ← wordNat_eq_zero big', wordNat_wordBytes]

/-! ## Slices -/

variable {α : Type}

/-- `data` contains the slice `x` at offset `p`. -/
def Holds (data : List α) (p : Nat) (x : List α) : Prop :=
  ∃ pre post, data = pre ++ x ++ post ∧ pre.length = p

theorem Holds.le {data x : List α} {p : Nat} (h : Holds data p x) :
    p + x.length ≤ data.length := by
  obtain ⟨pre, post, rfl, rfl⟩ := h
  simp

theorem holds_nil {data : List α} {p : Nat} : Holds data p [] ↔ p ≤ data.length := by
  constructor
  · intro h
    simpa using h.le
  · intro h
    exact ⟨data.take p, data.drop p, by simp, by simp [h]⟩

theorem holds_self (data : List α) : Holds data 0 data := ⟨[], [], by simp, rfl⟩

theorem holds_append {data x y : List α} {p : Nat} :
    Holds data p (x ++ y) ↔ Holds data p x ∧ Holds data (p + x.length) y := by
  constructor
  · rintro ⟨pre, post, rfl, rfl⟩
    exact ⟨⟨pre, y ++ post, by simp, rfl⟩, ⟨pre ++ x, post, by simp, by simp⟩⟩
  · rintro ⟨⟨pre, post, hdata, rfl⟩, ⟨pre', post', hdata', hlen⟩⟩
    refine ⟨pre, post', ?_, rfl⟩
    have hpre : pre ++ x = pre' := by
      have heq : (pre ++ x) ++ post = pre' ++ (y ++ post') := by
        rw [← hdata, hdata', List.append_assoc]
      exact (List.append_inj heq (by simp [hlen])).1
    rw [hdata', ← hpre]
    simp

theorem holds_cons {data x : List α} {a : α} {p : Nat} :
    Holds data p (a :: x) ↔ Holds data p [a] ∧ Holds data (p + 1) x := by
  rw [← List.singleton_append, holds_append]
  simp

theorem Holds.append_right {data x : List α} {p : Nat} (h : Holds data p x) (y : List α) :
    Holds (data ++ y) p x := by
  obtain ⟨pre, post, rfl, rfl⟩ := h
  exact ⟨pre, post ++ y, by simp, rfl⟩

theorem Holds.append_left {data x : List α} {p : Nat} (h : Holds data p x) (y : List α) :
    Holds (y ++ data) (y.length + p) x := by
  obtain ⟨pre, post, rfl, rfl⟩ := h
  exact ⟨y ++ pre, post, by simp, by simp⟩

theorem holds_length_append (data x : List α) : Holds (data ++ x) data.length x :=
  ⟨data, [], by simp, rfl⟩

theorem Holds.take_drop {data x : List α} {p : Nat} (h : Holds data p x) :
    (data.drop p).take x.length = x := by
  obtain ⟨pre, post, rfl, rfl⟩ := h
  simp

/-- A part of a run of one value is such a run. -/
theorem Holds.of_replicate {data : List α} {a : α} {p n : Nat} (h : Holds data p (List.replicate n a)) (i : Nat)
    {k : Nat} (hi : i + k ≤ n) : Holds data (p + i) (List.replicate k a) := by
  have hsplit : List.replicate n a = List.replicate i a ++ (List.replicate k a ++ List.replicate (n - i - k) a) := by
    rw [List.replicate_append_replicate, List.replicate_append_replicate]
    congr 1
    omega
  rw [hsplit, holds_append, List.length_replicate, holds_append] at h
  exact h.2.1

/-- A slice, read index by index. -/
theorem holds_iff_getElem? {data x : List α} {p : Nat} :
    Holds data p x ↔ p + x.length ≤ data.length ∧ ∀ i, i < x.length → data[p + i]? = x[i]? := by
  constructor
  · intro h
    refine ⟨h.le, fun i hi => ?_⟩
    obtain ⟨pre, post, rfl, rfl⟩ := h
    rw [List.append_assoc, List.getElem?_append_right (by omega), List.getElem?_append_left (by omega)]
    congr 1
    omega
  · rintro ⟨hle, hget⟩
    have hx : (data.drop p).take x.length = x := by
      apply List.ext_getElem?
      intro i
      rw [List.getElem?_take]
      split
      · next hi => rw [List.getElem?_drop, hget i hi]
      · next hi => rw [List.getElem?_eq_none (by omega)]
    refine ⟨data.take p, data.drop (p + x.length), ?_, by simp; omega⟩
    conv_rhs => rw [← hx]
    rw [List.append_assoc]
    simp only [List.length_take, List.length_drop]
    rw [show min x.length (data.length - p) = x.length by omega, ← List.drop_drop,
      List.take_append_drop, List.take_append_drop]

/-- There is a slice wherever there is room for it. -/
theorem exists_holds {data : List α} {p n : Nat} (h : p + n ≤ data.length) :
    ∃ x, x.length = n ∧ Holds data p x := by
  refine ⟨(data.drop p).take n, by simp; omega, data.take p, data.drop (p + n), ?_, by simp; omega⟩
  rw [List.append_assoc, ← List.drop_drop, List.take_append_drop, List.take_append_drop]

theorem length_flatMap_const {β : Type} {f : β → List α} {width : Nat} (l : List β)
    (hf : ∀ b ∈ l, (f b).length = width) : (l.flatMap f).length = l.length * width := by
  induction l with
  | nil => simp
  | cons b l ih =>
      rw [List.flatMap_cons, List.length_append, hf b List.mem_cons_self,
        ih fun b' hb' => hf b' (List.mem_cons_of_mem b hb'), List.length_cons, Nat.succ_mul,
        Nat.add_comm]

/-- Slices of one length, one after another, are one slice. -/
theorem holds_flatMap {β : Type} {data : List α} {base width : Nat} {f : β → List α}
    (hf : ∀ b, (f b).length = width) (l : List β) (hbase : base ≤ data.length)
    (h : ∀ j b, l[j]? = some b → Holds data (base + j * width) (f b)) :
    Holds data base (l.flatMap f) := by
  induction l generalizing base with
  | nil => exact holds_nil.2 hbase
  | cons b l ih =>
      have hfirst : Holds data base (f b) := by simpa using h 0 b rfl
      have hle := hfirst.le
      rw [List.flatMap_cons, holds_append]
      refine ⟨hfirst, ih hle fun j b' hb' => ?_⟩
      have hnext := h (j + 1) b' hb'
      have hpos : base + (f b).length + j * width = base + (j + 1) * width := by
        rw [hf, Nat.succ_mul]
        omega
      rwa [hpos]

/-- Slices of one string at one offset and of one length are equal. -/
theorem Holds.unique {data x y : List α} {p : Nat} (hx : Holds data p x) (hy : Holds data p y)
    (hlen : x.length = y.length) : x = y := by
  rw [← hx.take_drop, ← hy.take_drop, hlen]

/-! ## Overwriting -/

/-- Store `x` at offset `p`; a gap between the end of `data` and `p` is filled with zeros. -/
def overwrite (data : List UInt8) (p : Nat) (x : List UInt8) : List UInt8 :=
  data.take p ++ List.replicate (p - data.length) 0 ++ x ++ data.drop (p + x.length)

theorem length_overwrite (data : List UInt8) (p : Nat) (x : List UInt8) :
    (overwrite data p x).length = max data.length (p + x.length) := by
  simp only [overwrite, List.length_append, List.length_take, List.length_replicate,
    List.length_drop]
  omega

theorem overwrite_gap {data x : List UInt8} {p : Nat} (h : data.length ≤ p) :
    overwrite data p x = data ++ List.replicate (p - data.length) 0 ++ x := by
  rw [overwrite, List.take_of_length_le h, List.drop_of_length_le (by omega), List.append_nil]

/-- Inside the slice stored, the result is the slice. -/
theorem getElem?_overwrite_of_mem {data x : List UInt8} {p i : Nat} (hp : p ≤ i)
    (hi : i < p + x.length) : (overwrite data p x)[i]? = x[i - p]? := by
  have hlen : (data.take p ++ List.replicate (p - data.length) 0).length = p := by
    simp only [List.length_append, List.length_take, List.length_replicate]
    omega
  rw [overwrite, List.append_assoc, List.getElem?_append_right (by omega), hlen,
    List.getElem?_append_left (by omega)]

/-- Outside the slice stored, the bytes that were there are unchanged. -/
theorem getElem?_overwrite_of_not_mem {data x : List UInt8} {p i : Nat}
    (hlen : i < data.length ∨ p ≤ data.length) (hi : i < p ∨ p + x.length ≤ i) :
    (overwrite data p x)[i]? = data[i]? := by
  have hpre : (data.take p ++ List.replicate (p - data.length) 0).length = p := by
    simp only [List.length_append, List.length_take, List.length_replicate]
    omega
  rw [overwrite]
  rcases hi with hi | hi
  · rw [List.append_assoc, List.getElem?_append_left (by omega)]
    by_cases hin : i < data.length
    · rw [List.getElem?_append_left (by rw [List.length_take]; omega), List.getElem?_take_of_lt hi]
    · rw [List.getElem?_eq_none (by rw [hpre]; omega), List.getElem?_eq_none (by omega)]
  · rw [List.getElem?_append_right (by rw [List.length_append, hpre]; omega), List.getElem?_drop,
      List.length_append, hpre]
    congr 1
    omega

/-- Stores of equal length agree at an index where the data agree and, inside the slice, what is
    stored agrees. -/
theorem getElem?_overwrite_congr {data data' x y : List UInt8} {p i : Nat}
    (hlen : data.length = data'.length) (hxy : x.length = y.length)
    (hdata : i < p ∨ p + x.length ≤ i → data[i]? = data'[i]?)
    (hx : p ≤ i → i < p + x.length → x[i - p]? = y[i - p]?) :
    (overwrite data p x)[i]? = (overwrite data' p y)[i]? := by
  by_cases hin : p ≤ i ∧ i < p + x.length
  · rw [getElem?_overwrite_of_mem hin.1 hin.2, getElem?_overwrite_of_mem hin.1 (hxy ▸ hin.2)]
    exact hx hin.1 hin.2
  · have hout : i < p ∨ p + x.length ≤ i := by omega
    by_cases hshort : i < data.length ∨ p ≤ data.length
    · rw [getElem?_overwrite_of_not_mem hshort hout,
        getElem?_overwrite_of_not_mem (hlen ▸ hshort) (hxy ▸ hout)]
      exact hdata hout
    · -- the index lies in the gap, or past the end
      by_cases hip : i < p
      · have hgap : ∀ l z : List UInt8, l.length = data.length → (overwrite l p z)[i]?
            = (List.replicate (p - data.length) (0 : UInt8))[i - data.length]? := by
          intro l z hl
          have hlong : (l ++ List.replicate (p - l.length) 0).length = p := by
            rw [List.length_append, List.length_replicate]
            omega
          rw [overwrite_gap (by omega), List.getElem?_append_left (by omega),
            List.getElem?_append_right (by omega), hl]
        rw [hgap data x rfl, hgap data' y hlen.symm]
      · rw [List.getElem?_eq_none (by rw [length_overwrite]; omega),
          List.getElem?_eq_none (by rw [length_overwrite]; omega)]

theorem holds_overwrite_self (data x : List UInt8) (p : Nat) : Holds (overwrite data p x) p x := by
  rw [holds_iff_getElem?, length_overwrite]
  refine ⟨by omega, fun i hi => ?_⟩
  rw [getElem?_overwrite_of_mem (by omega) (by omega)]
  congr 1
  omega

theorem take_overwrite_self (buf x : List UInt8) : (overwrite buf 0 x).take x.length = x := by
  have hheld := (holds_overwrite_self buf x 0).take_drop
  rwa [List.drop_zero] at hheld

/-- A slice that is disjoint from the one stored survives. -/
theorem Holds.overwrite {data x y : List UInt8} {p q : Nat} (h : Holds data q y)
    (hdisj : q + y.length ≤ p ∨ p + x.length ≤ q) : Holds (overwrite data p x) q y := by
  rw [holds_iff_getElem?] at h ⊢
  rw [length_overwrite]
  refine ⟨by omega, fun i hi => ?_⟩
  rw [getElem?_overwrite_of_not_mem (.inl (by omega)) (by omega)]
  exact h.2 i hi

/-- Two stores side by side are one store. -/
theorem overwrite_overwrite_append (data x y : List UInt8) (p : Nat) :
    Bytes.overwrite (Bytes.overwrite data p x) (p + x.length) y = Bytes.overwrite data p (x ++ y) := by
  have hpre : (data.take p ++ List.replicate (p - data.length) 0).length = p := by
    simp only [List.length_append, List.length_take, List.length_replicate]
    omega
  have hgap : p + x.length - (Bytes.overwrite data p x).length = 0 := by
    rw [length_overwrite]
    omega
  have htake : (Bytes.overwrite data p x).take (p + x.length)
      = data.take p ++ List.replicate (p - data.length) 0 ++ x := by
    rw [Bytes.overwrite]
    exact List.take_left' (by rw [List.length_append, hpre])
  have hdrop : (Bytes.overwrite data p x).drop (p + x.length + y.length)
      = data.drop (p + (x ++ y).length) := by
    rw [Bytes.overwrite, List.drop_append, List.drop_of_length_le (by
      rw [List.length_append, hpre]
      omega), List.length_append, hpre, List.nil_append, List.drop_drop, List.length_append]
    congr 1
    omega
  rw [Bytes.overwrite, hgap, htake, hdrop, Bytes.overwrite]
  simp

end Bytes
