import SoulsFormats.Core.Texts

set_option autoImplicit false

/-! # Reading step by step

The steps of `Reads` before a continuation, for cursors that are spelled out: what is needed of a step is
the slice of the data that it reads. They are the counterpart of the steps of `Puts`. -/

namespace SoulsFormats

open Bytes Fallible

namespace BinaryReader

variable {α β : Type} {mem : List UInt8} {pos : Nat} {be long flex : Bool} {steps : List Nat} {b : β}
  {c2 : Cursor}

/-! ## Scalars -/

/-- A step whose bytes are known. -/
theorem Parses.step {m : ReadM α} {a : α} {x : List UInt8} {f : α → ReadM β}
    (hm : Parses m ⟨mem, pos, be, long, steps, flex⟩ x a) (hx : Holds mem pos x)
    (hf : Reads (f a) ⟨mem, pos + x.length, be, long, steps, flex⟩ b c2) :
    Reads (m >>= f) ⟨mem, pos, be, long, steps, flex⟩ b c2 :=
  (hm hx).bind hf

/-- A step at the end of a block is one before nothing. -/
theorem Reads.last {m : ReadM α} {a : α} {c c' : Cursor} (h : Reads (m >>= Pure.pure) c a c') :
    Reads m c a c' := by
  rwa [bind_pure] at h

/-- Both branches of a test lead on. -/
theorem Reads.ite {p : Prop} [Decidable p] {m m' : ReadM α} {a : α} {c c' : Cursor}
    (hm : p → Reads m c a c') (hm' : ¬ p → Reads m' c a c') : Reads (if p then m else m') c a c' := by
  split
  · next hp => exact hm hp
  · next hp => exact hm' hp

/-- A step that is only made under a condition: `n` bytes or none. -/
theorem Reads.given {c : Bool} {d v : α} {n : Nat} {m : ReadM α} {f : α → ReadM β}
    (hm : c = true → Reads m ⟨mem, pos, be, long, steps, flex⟩ v ⟨mem, pos + n, be, long, steps, flex⟩)
    (hd : c = false → v = d)
    (hf : Reads (f v) ⟨mem, pos + (if c then n else 0), be, long, steps, flex⟩ b c2) :
    Reads (Fallible.given c d m >>= f) ⟨mem, pos, be, long, steps, flex⟩ b c2 := by
  cases c with
  | false =>
      rw [hd rfl] at hf
      exact (Reads.pure d _).bind hf
  | true => exact (hm rfl).bind hf

section

variable {n : Nat}

theorem Reads.u8 {v : UInt8} {f : UInt8 → ReadM β} (h : Holds mem pos [v])
    (hf : Reads (f v) ⟨mem, pos + 1, be, long, steps, flex⟩ b c2) :
    Reads (readU8 >>= f) ⟨mem, pos, be, long, steps, flex⟩ b c2 :=
  (parses_u8 _ v).step h hf

theorem Reads.bool {v : Bool} {f : Bool → ReadM β} (h : Holds mem pos [if v then 1 else 0])
    (hf : Reads (f v) ⟨mem, pos + 1, be, long, steps, flex⟩ b c2) :
    Reads (readBool >>= f) ⟨mem, pos, be, long, steps, flex⟩ b c2 :=
  (parses_bool _ v).step h hf

theorem Reads.u16 {v : UInt16} {f : UInt16 → ReadM β} (h : Holds mem pos (wordBytes be 2 v.toNat))
    (hf : Reads (f v) ⟨mem, pos + 2, be, long, steps, flex⟩ b c2) :
    Reads (readU16 >>= f) ⟨mem, pos, be, long, steps, flex⟩ b c2 :=
  (parses_u16 ⟨mem, pos, be, long, steps, flex⟩ v).step h (by rwa [length_wordBytes])

theorem Reads.i16 {v : Int16} {f : Int16 → ReadM β}
    (h : Holds mem pos (wordBytes be 2 v.toUInt16.toNat))
    (hf : Reads (f v) ⟨mem, pos + 2, be, long, steps, flex⟩ b c2) :
    Reads (readI16 >>= f) ⟨mem, pos, be, long, steps, flex⟩ b c2 :=
  (parses_i16 ⟨mem, pos, be, long, steps, flex⟩ v).step h (by rwa [length_wordBytes])

theorem Reads.u32 {v : UInt32} {f : UInt32 → ReadM β} (h : Holds mem pos (wordBytes be 4 v.toNat))
    (hf : Reads (f v) ⟨mem, pos + 4, be, long, steps, flex⟩ b c2) :
    Reads (readU32 >>= f) ⟨mem, pos, be, long, steps, flex⟩ b c2 :=
  (parses_u32 ⟨mem, pos, be, long, steps, flex⟩ v).step h (by rwa [length_wordBytes])

theorem Reads.i32 {v : Int32} {f : Int32 → ReadM β}
    (h : Holds mem pos (wordBytes be 4 v.toUInt32.toNat))
    (hf : Reads (f v) ⟨mem, pos + 4, be, long, steps, flex⟩ b c2) :
    Reads (readI32 >>= f) ⟨mem, pos, be, long, steps, flex⟩ b c2 :=
  (parses_i32 ⟨mem, pos, be, long, steps, flex⟩ v).step h (by rwa [length_wordBytes])

theorem Reads.i64 {v : Int64} {f : Int64 → ReadM β}
    (h : Holds mem pos (wordBytes be 8 v.toUInt64.toNat))
    (hf : Reads (f v) ⟨mem, pos + 8, be, long, steps, flex⟩ b c2) :
    Reads (readI64 >>= f) ⟨mem, pos, be, long, steps, flex⟩ b c2 :=
  (parses_i64 ⟨mem, pos, be, long, steps, flex⟩ v).step h (by rwa [length_wordBytes])

theorem Reads.bytes {x : List UInt8} {f : List UInt8 → ReadM β} (h : Holds mem pos x)
    (hn : n = x.length) (hf : Reads (f x) ⟨mem, pos + n, be, long, steps, flex⟩ b c2) :
    Reads (readBytes n >>= f) ⟨mem, pos, be, long, steps, flex⟩ b c2 := by
  subst hn
  exact (parses_bytes _ x).step h hf

/-- Whatever stands where there is room for a word is read as some word. -/
theorem exists_reads_int (be long : Bool) (steps : List Nat) (flex : Bool) (h : pos + n ≤ mem.length) :
    ∃ v, Reads (defineReadInt n) ⟨mem, pos, be, long, steps, flex⟩ v ⟨mem, pos + n, be, long, steps, flex⟩ := by
  obtain ⟨x, rfl, hx⟩ := exists_holds h
  exact ⟨_, parses_word ⟨mem, pos, be, long, steps, flex⟩ x hx⟩

theorem exists_reads_i32 (be : Bool) (steps : List Nat) (flex : Bool) (h : pos + 4 ≤ mem.length) :
    ∃ v, Reads readI32 ⟨mem, pos, be, long, steps, flex⟩ v ⟨mem, pos + 4, be, long, steps, flex⟩ := by
  obtain ⟨v, hv⟩ := exists_reads_int be long steps flex h
  have hword : Reads readU32 ⟨mem, pos, be, long, steps, flex⟩ (UInt32.ofNat v)
      ⟨mem, pos + 4, be, long, steps, flex⟩ := hv.bind (Reads.pure _ _)
  exact ⟨(UInt32.ofNat v).toInt32, hword.bind (Reads.pure _ _)⟩

theorem exists_reads_i64 (be : Bool) (steps : List Nat) (flex : Bool) (h : pos + 8 ≤ mem.length) :
    ∃ v, Reads readI64 ⟨mem, pos, be, long, steps, flex⟩ v ⟨mem, pos + 8, be, long, steps, flex⟩ := by
  obtain ⟨v, hv⟩ := exists_reads_int be long steps flex h
  have hword : Reads readU64 ⟨mem, pos, be, long, steps, flex⟩ (UInt64.ofNat v)
      ⟨mem, pos + 8, be, long, steps, flex⟩ := hv.bind (Reads.pure _ _)
  exact ⟨(UInt64.ofNat v).toInt64, hword.bind (Reads.pure _ _)⟩

/-! ## Values that are checked -/

/-- A byte that is among the options. -/
theorem Reads.assertU8 {v : UInt8} {options : List UInt8} {f : UInt8 → ReadM β}
    (h : Holds mem pos [v]) (hv : v ∈ options)
    (hf : Reads (f v) ⟨mem, pos + 1, be, long, steps, flex⟩ b c2) :
    Reads (BinaryReader.assertU8 options >>= f) ⟨mem, pos, be, long, steps, flex⟩ b c2 :=
  (parses_assert (parses_u8 _ v) hv).step h hf

theorem Reads.assertI16 {v : Int16} {options : List Int16} {f : Int16 → ReadM β}
    (h : Holds mem pos (wordBytes be 2 v.toUInt16.toNat)) (hv : v ∈ options)
    (hf : Reads (f v) ⟨mem, pos + 2, be, long, steps, flex⟩ b c2) :
    Reads (BinaryReader.assertI16 options >>= f) ⟨mem, pos, be, long, steps, flex⟩ b c2 :=
  (parses_assert (parses_i16 ⟨mem, pos, be, long, steps, flex⟩ v) hv).step h
    (by rwa [length_wordBytes])

theorem Reads.assertI32 {v : Int32} {options : List Int32} {f : Int32 → ReadM β}
    (h : Holds mem pos (wordBytes be 4 v.toUInt32.toNat)) (hv : v ∈ options)
    (hf : Reads (f v) ⟨mem, pos + 4, be, long, steps, flex⟩ b c2) :
    Reads (BinaryReader.assertI32 options >>= f) ⟨mem, pos, be, long, steps, flex⟩ b c2 :=
  (parses_assert (parses_i32 ⟨mem, pos, be, long, steps, flex⟩ v) hv).step h
    (by rwa [length_wordBytes])

/-- The same where a flexible reader does not look. -/
theorem Reads.assertedU8 {v : UInt8} {options : List UInt8} {f : UInt8 → ReadM β}
    (h : Holds mem pos [v]) (hne : options ≠ []) (hv : flex = false → v ∈ options)
    (hf : Reads (f v) ⟨mem, pos + 1, be, long, steps, flex⟩ b c2) :
    Reads (BinaryReader.assertU8 options >>= f) ⟨mem, pos, be, long, steps, flex⟩ b c2 :=
  (parses_asserted (parses_u8 _ v) hne hv).step h hf

theorem Reads.assertI64 {v : Int64} {options : List Int64} {f : Int64 → ReadM β}
    (h : Holds mem pos (wordBytes be 8 v.toUInt64.toNat)) (hv : v ∈ options)
    (hf : Reads (f v) ⟨mem, pos + 8, be, long, steps, flex⟩ b c2) :
    Reads (defineAssertMulti readI64 options >>= f) ⟨mem, pos, be, long, steps, flex⟩ b c2 :=
  (parses_assert (parses_i64 ⟨mem, pos, be, long, steps, flex⟩ v) hv).step h
    (by rwa [length_wordBytes])

theorem Reads.assertBool {v : Bool} {options : List Bool} {f : Bool → ReadM β}
    (h : Holds mem pos [if v then 1 else 0]) (hv : v ∈ options)
    (hf : Reads (f v) ⟨mem, pos + 1, be, long, steps, flex⟩ b c2) :
    Reads (BinaryReader.assertBool options >>= f) ⟨mem, pos, be, long, steps, flex⟩ b c2 :=
  (parses_assert (parses_bool _ v) hv).step h hf

theorem Reads.enum8 {v : UInt8} {options : List UInt8} {f : UInt8 → ReadM β}
    (h : Holds mem pos [v]) (hv : v ∈ options)
    (hf : Reads (f v) ⟨mem, pos + 1, be, long, steps, flex⟩ b c2) :
    Reads (readEnum8 options >>= f) ⟨mem, pos, be, long, steps, flex⟩ b c2 :=
  (parses_enum (parses_u8 _ v) hv).step h hf

/-- A magic. -/
theorem Reads.ascii {x : List UInt8} {f : Unit → ReadM β} (h : Holds mem pos x)
    (hf : Reads (f ()) ⟨mem, pos + x.length, be, long, steps, flex⟩ b c2) :
    Reads (assertAscii x >>= f) ⟨mem, pos, be, long, steps, flex⟩ b c2 := by
  have hrest : Reads (readBytes x.length >>= fun buf => Fallible.check (buf = x) SfError.badMagic)
      ⟨mem, pos, be, long, steps, flex⟩ () ⟨mem, pos + x.length, be, long, steps, flex⟩ :=
    (parses_bytes _ x).step h (Reads.last (Reads.check rfl (Reads.pure () _)))
  refine Reads.bind ?_ hf
  unfold assertAscii
  split
  · exact reads_alloc _ fun _ => hrest
  · exact hrest

end

/-- The field of a text. -/
theorem Reads.fixStr {os : Win32} {n : Nat} {t : List UInt8} {f : List UInt8 → ReadM β} (hn : 0 < n)
    (ht : os.Fits .shiftJis t) (hlen : (os.encoded .shiftJis t).length ≤ n) (hshort : n ≤ INT32_MAX)
    (h : Holds mem pos (fixedText os n t)) (hf : Reads (f t) ⟨mem, pos + n, be, long, steps, flex⟩ b c2) :
    Reads (readFixStr os n >>= f) ⟨mem, pos, be, long, steps, flex⟩ b c2 :=
  (parses_readFixStr hn ht hlen hshort _).step h (by rwa [length_fixedText hlen])

/-! ## Positions -/

theorem Reads.setBig {be' : Bool} {f : Unit → ReadM β}
    (hf : Reads (f ()) ⟨mem, pos, be', long, steps, flex⟩ b c2) :
    Reads (BinaryReader.setBigEndian be' >>= f) ⟨mem, pos, be, long, steps, flex⟩ b c2 :=
  (Reads.setBigEndian be' _).bind hf

theorem Reads.position {f : Nat → ReadM β}
    (hf : Reads (f pos) ⟨mem, pos, be, long, steps, flex⟩ b c2) :
    Reads (Fallible.peek BinaryReader.position >>= f) ⟨mem, pos, be, long, steps, flex⟩ b c2 :=
  Reads.peek (fun _ hr => congrArg Cursor.pos hr) hf

/-- A seek inside the data. -/
theorem Reads.seek {p : Int} {q : Nat} {f : Unit → ReadM β} (hpq : p = q) (hq : q ≤ mem.length)
    (hf : Reads (f ()) ⟨mem, q, be, long, steps, flex⟩ b c2) :
    Reads (onStream (IStream.seek p) >>= f) ⟨mem, pos, be, long, steps, flex⟩ b c2 :=
  (reads_seek hpq hq).bind hf

theorem Reads.skip {n : Nat} {f : Unit → ReadM β} (hn : pos + n ≤ mem.length)
    (hf : Reads (f ()) ⟨mem, pos + n, be, long, steps, flex⟩ b c2) :
    Reads (BinaryReader.skip n >>= f) ⟨mem, pos, be, long, steps, flex⟩ b c2 := by
  refine Reads.bind ?_ hf
  refine Reads.last ?_
  unfold BinaryReader.skip
  rw [bind_assoc]
  refine Reads.position ?_
  rw [bind_pure]
  exact reads_seek (by simp) hn

/-- A getter that reads what stands at its offset. -/
theorem Reads.got {m : ReadM α} {a : α} {x : List UInt8} {p : Int} {q : Nat} {f : α → ReadM β}
    (hpq : p = q) (hx : Holds mem q x) (hpos : pos ≤ mem.length)
    (hm : Parses m ⟨mem, q, be, long, pos :: steps, flex⟩ x a)
    (hf : Reads (f a) ⟨mem, pos, be, long, steps, flex⟩ b c2) :
    Reads (defineGet p m >>= f) ⟨mem, pos, be, long, steps, flex⟩ b c2 := by
  subst hpq
  exact (reads_get_parses (c := ⟨mem, pos, be, long, steps, flex⟩) hx hpos hm).bind hf

/-! ## Loops -/

/-- A loop whose elements start and end at known cursors. -/
theorem reads_readEach_at {m : ReadM α} (c : Nat → Cursor) (l : List α)
    (hm : ∀ i a, l[i]? = some a → Reads m (c i) a (c (i + 1))) :
    Reads (readEach m l.length) (c 0) l (c l.length) := by
  induction l generalizing c with
  | nil => exact Reads.pure _ _
  | cons a l ih =>
      have hfirst := hm 0 a rfl
      have hrest := ih (fun i => c (i + 1)) fun i a ha => hm (i + 1) a (by simpa using ha)
      exact hfirst.bind (hrest.bind (Reads.pure _ _))

end BinaryReader

end SoulsFormats
