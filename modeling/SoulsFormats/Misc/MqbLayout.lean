import Mathlib.Logic.Function.Iterate
import Mathlib.Data.List.Iterate
import SoulsFormats.Misc.Mqb

set_option autoImplicit false

/-! # Where things stand in an MQB file

The records of a file stand one after the other; the timelines of a cut and the tables in which they name its
events are found by their offsets. `MqbFile` says where everything stands from the bytes alone, and the reader
passes the same places: `Spans` gives the places a read starts and ends at, and what it then knows of its value. -/

namespace SoulsFormats

open Bytes Fallible Rdr

/-! ## The places -/

/-- The bytes of a file, with the byte order and the width of an offset that its header says. -/
structure MqbFile where
  data : List UInt8
  be : Bool
  long : Bool
deriving DecidableEq, Repr

namespace MqbFile

variable (f : MqbFile)

/-- The file that bytes are. -/
def ofBytes (bytes : List UInt8) : MqbFile :=
  { data := bytes, be := bytes.getD 4 0 = 0xFF, long := bytes.getD 6 0 = 0xFF }

def word (n p : Nat) : Nat :=
  if f.be then bswap n (leNat ((f.data.drop p).take n)) else leNat ((f.data.drop p).take n)

def i32 (p : Nat) : Int32 := (UInt32.ofNat (f.word 4 p)).toInt32

/-- How often a loop runs whose bound stands at `p`. -/
def count (p : Nat) : Nat := (f.i32 p).toInt.toNat

def varSize : Nat := if f.long then 8 else 4

def var (p : Nat) : Nat :=
  if f.long then (UInt64.ofNat (f.word 8 p)).toNat else (UInt32.ofNat (f.word 4 p)).toNat

/-- How many bytes of a value with this type, member count and length stand behind the record of its parameter. -/
def tailBytes (memberCount len : Int32) : MqbParamType → Nat
  | .string | .custom => len.toInt.toNat
  | .color => 4
  | .intColor => 20
  | .vector => 4 * min 4 (max 1 memberCount.toInt.toNat) + 4
  | _ => 0

def tailSize (p : Nat) : Nat :=
  match MqbParamType.ofCode (UInt32.ofNat (f.word 4 (p + 0x40))) with
  | some type => tailBytes (f.i32 (p + 0x44)) (f.i32 (p + 0x48)) type
  | none => 0

def parameterEnd (p : Nat) : Nat := p + 0x60 + f.tailSize p

def eventEnd (p : Nat) : Nat :=
  let q := f.parameterEnd^[f.count (p + 0x24)] (p + 0x30)
  q + 0x20 + 0x70 * f.count (q + 4)

def resourceEnd (p : Nat) : Nat := f.parameterEnd^[f.count (p + 0x4C)] (p + 0x50)

/-- The offsets of the events of a cut. -/
def events (p : Nat) : List Nat := List.iterate f.eventEnd (p + 0x60) (f.count (p + 0x40))

def cutEnd (p : Nat) : Nat := f.eventEnd^[f.count (p + 0x40)] (p + 0x60)

def timelineSize : Nat := if f.long then 32 else 20

/-- What stands in the event table of the timeline at `p`. -/
def eventTable (p : Nat) : List Nat :=
  (List.iterate (· + f.varSize) (f.var p) (f.count (p + f.varSize))).map f.var

/-- What stands in the event tables of a cut. -/
def eventTables (p : Nat) : List Nat :=
  let first := f.var (p + if f.long then 0x58 else 0x54)
  (List.iterate (· + f.timelineSize) first (f.count (p + 0x50))).flatMap f.eventTable

/-- The offsets of the cuts; they stand behind the header and the resources. -/
def cuts : List Nat :=
  let header := f.count 12
  List.iterate f.cutEnd (f.resourceEnd^[f.count (header + 0x44)] (header + 0x60)) (f.count (header + 0x48))

/-! ## Order -/

theorem le_iterate {s : Nat → Nat} (hs : ∀ p, p ≤ s p) (n p : Nat) : p ≤ s^[n] p := by
  induction n generalizing p with
  | zero => exact le_rfl
  | succ n ih => exact (hs p).trans (ih (s p))

theorem lt_eventEnd (p : Nat) : p < f.eventEnd p := by
  have hle := le_iterate (s := f.parameterEnd) (fun p => by unfold parameterEnd; omega) (f.count (p + 0x24)) (p + 0x30)
  simp only [eventEnd]
  omega

/-- Records that stand one after the other have different places. -/
theorem nodup_iterate {step : Nat → Nat} (hstep : ∀ p, p < step p) (n p : Nat) : (List.iterate step p n).Nodup := by
  have hbehind : ∀ n p, ∀ q ∈ List.iterate step p n, p ≤ q := by
    intro n
    induction n with
    | zero => simp
    | succ n ih =>
        intro p q hq
        rcases List.mem_cons.1 hq with rfl | hq
        · exact le_rfl
        · exact (hstep p).le.trans (ih _ q hq)
  induction n generalizing p with
  | zero => simp
  | succ n ih => exact List.nodup_cons.2 ⟨fun hp => absurd (hbehind n _ p hp) (by have := hstep p; omega), ih _⟩

/-- No two events stand at one place. -/
theorem nodup_events (p : Nat) : (f.events p).Nodup := nodup_iterate f.lt_eventEnd _ _

/-! ## Reading at a place -/

/-- The reader is one of this file. -/
def Of (r : Rdr) : Prop := r.data = f.data ∧ r.be = f.be ∧ r.var64 = f.long

variable {f} {α β : Type} {m : RdrM α} {k : α → RdrM β} {P Q : α → Prop} {R : β → Prop} {p q s : Nat}

/-- A read that starts at `p` ends at `q` if it succeeds, with a value that satisfies `Q`. -/
def Spans (f : MqbFile) (p q : Nat) (m : RdrM α) (Q : α → Prop) : Prop :=
  ∀ r, f.Of r → r.pos = p → Post m r fun a r' => Q a ∧ f.Of r' ∧ r'.pos = q

/-- A read that may end anywhere. -/
def Stays (f : MqbFile) (m : RdrM α) : Prop := ∀ r, f.Of r → Post m r fun _ r' => f.Of r'

theorem Spans.pure {a : α} (ha : Q a) : Spans f p p (Pure.pure a : RdrM α) Q := fun _ hr hp => Post.pure ⟨ha, hr, hp⟩

theorem Spans.fail (e : SfError) : Spans f p q (Fallible.fail e : RdrM α) Q := fun _ _ _ => Post.fail

theorem Spans.bind (hm : Spans f p q m P) (hk : ∀ a, P a → Spans f q s (k a) R) : Spans f p s (m >>= k) R :=
  fun r hr hp => (hm r hr hp).bind fun a r' h => hk a h.1 r' h.2.1 h.2.2

theorem Spans.mono (hm : Spans f p q m P) (h : ∀ a, P a → Q a) : Spans f p q m Q :=
  fun r hr hp => (hm r hr hp).mono fun a _ ha => ⟨h a ha.1, ha.2⟩

theorem Spans.check {c : Prop} [Decidable c] {e : SfError} {k : Unit → RdrM β} (hk : c → Spans f p q (k ()) R) :
    Spans f p q (Fallible.check c e >>= k) R :=
  fun r hr hp => (Post.check fun hc => ⟨hc, rfl⟩ : Post (Fallible.check c e) r fun _ r' => c ∧ r' = r).bind
    fun _ _ h => h.2 ▸ hk h.1 r hr hp

theorem Spans.jump {k : Unit → RdrM β} {n : Nat} (hk : Spans f n q (k ()) R) : Spans f p q (Rdr.jump n >>= k) R :=
  fun r hr _ => hk { r with pos := n } hr rfl

theorem Spans.pos {k : Nat → RdrM β} (hk : Spans f p q (k p) R) : Spans f p q (peek Rdr.pos >>= k) R :=
  fun r hr hp => by
    have h := hk r hr hp
    rwa [← hp] at h

/-- What is read at another place, before the reader is set back to `p`. -/
theorem Spans.aside {n : Nat} (hm : Stays f m) (hk : ∀ a, Spans f p q (k a) R) :
    Spans f n q (m >>= fun a => Rdr.jump p >>= fun _ => k a) R :=
  fun r hr _ => (hm r hr).bind fun a r' hr' => hk a { r' with pos := p } hr' rfl

theorem Spans.given {c : Bool} {d : α} (htrue : c = true → Spans f p q m Q)
    (hfalse : c = false → p = q ∧ Q d) : Spans f p q (Fallible.given c d m) Q := by
  cases c with
  | false =>
      obtain ⟨rfl, hd⟩ := hfalse rfl
      exact Spans.pure hd
  | true => exact htrue rfl

theorem Spans.stays {step : Nat → Nat} {Q : Nat → α → Prop} (h : ∀ p, Spans f p (step p) m (Q p)) : Stays f m :=
  fun r hr => (h r.pos r hr rfl).mono fun _ _ ha => ha.2.1

theorem Stays.pure (a : α) : Stays f (Pure.pure a : RdrM α) := fun _ hr => Post.pure hr

theorem Stays.fail (e : SfError) : Stays f (Fallible.fail e : RdrM α) := fun _ _ => Post.fail

theorem Stays.bind (hm : Stays f m) (hk : ∀ a, Stays f (k a)) : Stays f (m >>= k) :=
  fun r hr => (hm r hr).bind fun a r' hr' => hk a r' hr'

theorem Stays.check {c : Prop} [Decidable c] {e : SfError} : Stays f (Fallible.check c e : RdrM Unit) :=
  fun _ hr => Post.check fun _ => hr

theorem Stays.peek (g : Rdr → α) : Stays f (Fallible.peek g) := fun _ hr => Post.pure hr

theorem Stays.jump (n : Nat) : Stays f (Rdr.jump n) := fun _ hr => Post.pure hr

theorem Stays.ite {c : Prop} [Decidable c] {m' : RdrM α} (hm : Stays f m) (hm' : Stays f m') :
    Stays f (if c then m else m') := by
  split
  · exact hm
  · exact hm'

theorem Stays.given {c : Bool} {d : α} (hm : Stays f m) : Stays f (Fallible.given c d m) := Stays.ite hm (Stays.pure d)

theorem stays_readGrown {first : Nat} {elem : Nat → RdrM Unit → RdrM α}
    (h : ∀ i room, Stays f room → Stays f (elem i room)) (halloc : Stays f alloc) (n count cap : Nat) :
    Stays f (readGrown first elem n count cap) := by
  induction n generalizing count cap with
  | zero => exact Stays.pure _
  | succ n ih => exact (h _ _ halloc.given).bind fun a => (ih _ _).bind fun l => Stays.pure _

/-! ### The loops -/

theorem spans_readGrown {k : Nat} {g : Nat → RdrM Unit → RdrM α} {s : Nat → Nat} {Q : Nat → α → Prop}
    (halloc : ∀ q, Spans f q q alloc fun _ => True)
    (h : ∀ p i room, (∀ q, Spans f q q room fun _ => True) → Spans f p (s p) (g i room) (Q p)) (n count cap p : Nat) :
    Spans f p (s^[n] p) (readGrown k g n count cap) fun l => List.Forall₂ Q (List.iterate s p n) l := by
  induction n generalizing count cap p with
  | zero => exact Spans.pure .nil
  | succ n ih =>
      refine (h p _ _ fun q => Spans.given (fun _ => halloc q) fun _ => ⟨rfl, trivial⟩).bind fun a ha => ?_
      exact (ih _ _ (s p)).bind fun l hl => Spans.pure (.cons ha hl)

theorem spans_readEach {step : Nat → Nat} {Q : Nat → α → Prop} (h : ∀ p, Spans f p (step p) m (Q p)) (n p : Nat) :
    Spans f p (step^[n] p) (readEach m n) fun l => List.Forall₂ Q (List.iterate step p n) l := by
  induction n generalizing p with
  | zero => exact Spans.pure .nil
  | succ n ih => exact (h p).bind fun a ha => (ih (step p)).bind fun l hl => Spans.pure (.cons ha hl)

/-! ### The words -/

theorem spans_alloc (p : Nat) : Spans f p p alloc fun _ => True := by
  intro r hr hp a r' hrun
  obtain ⟨_, r1, hzoom, hpure⟩ := bind_eq_ok.1 hrun
  cases hpure
  rw [zoom_run] at hzoom
  rw [← (Prod.mk.inj hzoom).2]
  exact ⟨trivial, hr, hp⟩

theorem spans_readExact (n p : Nat) : Spans f p (p + n) (readExact n) fun bs => bs = (f.data.drop p).take n := by
  intro r hr hp bs r' hrun
  unfold readExact at hrun
  rw [state_bind_run] at hrun
  by_cases hc : n ≤ r.data.length ∧ r.pos ≤ r.data.length - n
  · rw [check_bind_pos hc] at hrun
    cases hrun
    exact ⟨by rw [hr.1, hp], hr, by rw [← hp]⟩
  · rw [check_bind_neg hc] at hrun
    cases hrun

theorem spans_readWord (n p : Nat) : Spans f p (p + n) (readWord n) fun v => v = f.word n p := by
  refine (spans_readExact n p).bind fun bs hbs => ?_
  intro r hr hp
  refine Post.pure ⟨?_, hr, hp⟩
  rw [hbs, hr.2.1, word]

theorem spans_readU8 (p : Nat) : Spans f p (p + 1) readU8 fun v => v = ((f.data.drop p).take 1).headD 0 :=
  (spans_readExact 1 p).bind fun _ h => Spans.pure (by rw [h])

theorem spans_readU16 (p : Nat) : Spans f p (p + 2) readU16 fun _ => True :=
  (spans_readWord 2 p).bind fun _ _ => Spans.pure trivial

theorem spans_readU32 (p : Nat) : Spans f p (p + 4) readU32 fun v => v = UInt32.ofNat (f.word 4 p) :=
  (spans_readWord 4 p).bind fun _ h => Spans.pure (by rw [h])

theorem spans_readU64 (p : Nat) : Spans f p (p + 8) readU64 fun v => v = UInt64.ofNat (f.word 8 p) :=
  (spans_readWord 8 p).bind fun _ h => Spans.pure (by rw [h])

theorem spans_readI32 (p : Nat) : Spans f p (p + 4) readI32 fun v => v = f.i32 p :=
  (spans_readU32 p).bind fun _ h => Spans.pure (by rw [h, i32])

theorem spans_readVar (p : Nat) : Spans f p (p + f.varSize) readVar fun v => v = f.var p := by
  intro r hr hp
  rw [readVar, Post]
  simp only [state_bind_run]
  rw [hr.2.2, varSize]
  cases hlong : f.long with
  | false =>
      refine ((spans_readU32 p).bind fun v hv => Spans.pure ?_) r hr hp
      rw [hv, var, hlong]
      rfl
  | true =>
      refine ((spans_readU64 p).bind fun v hv => Spans.pure ?_) r hr hp
      rw [hv, var, hlong]
      rfl

theorem spans_asserted {c : Prop} [Decidable c] {e : SfError} (p : Nat) :
    Spans f p p (Fallible.check c e : RdrM Unit) fun _ => True :=
  fun _ hr hp => Post.check fun _ => ⟨trivial, hr, hp⟩

theorem spans_assertI32 (v : Int32) (p : Nat) : Spans f p (p + 4) (assertI32 v) fun _ => True :=
  (spans_readI32 p).bind fun _ _ => spans_asserted _

theorem spans_assertI64 (v : Int64) (p : Nat) : Spans f p (p + 8) (assertI64 v) fun _ => True :=
  ((spans_readU64 p).bind (R := fun _ => True) fun _ _ => Spans.pure trivial).bind fun _ _ => spans_asserted _

theorem stays_readUnits (n : Nat) : Stays f (readUnits n) := by
  induction n with
  | zero => exact Stays.pure _
  | succ n ih =>
      refine (Spans.stays spans_readU16).bind fun _ => Stays.ite (Stays.pure _) ?_
      exact ih.bind fun _ => Stays.pure _

theorem spans_readFixstrW {bytes : Nat} (heven : bytes % 2 = 0) (p : Nat) :
    Spans f p (p + bytes) (readFixstrW bytes) fun _ => True := by
  refine Spans.check fun _ => ?_
  intro r hr hp
  refine Post.bind (P := fun _ r' => r' = r) (Post.pure rfl) ?_
  rintro _ _ rfl
  refine (Spans.check fun _ => Spans.pos ?_ : Spans f p (p + bytes) _ fun _ => True) _ hr hp
  refine Spans.aside (p := p + bytes / 2 * 2) (stays_readUnits _) fun us => ?_
  have hbytes : p + bytes / 2 * 2 = p + bytes := by omega
  rw [hbytes]
  exact (spans_alloc _).bind fun _ _ => Spans.pure trivial

/-! ## The records -/

theorem stays_mqbReadSequence (start stop : Nat) : Stays f (mqbReadSequence start stop) := by
  have halloc : Stays f alloc := Spans.stays spans_alloc
  have hi32 : Stays f readI32 := Spans.stays spans_readI32
  have hu32 : Stays f readU32 := Spans.stays spans_readU32
  have hzero : ∀ v, Stays f (assertI32 v) := fun v => Spans.stays (spans_assertI32 v)
  have hpoint : ∀ type pointType, Stays f (mqbReadPoint type pointType) := by
    intro type pointType
    have hbyte : Stays f (do
        let v ← readU8
        let pad ← readU16
        check (pad = 0) SfError.badMagic
        let pad ← readU8
        check (pad = 0) SfError.badMagic
        Pure.pure v.toUInt32) :=
      (Spans.stays spans_readU8).bind fun _ => (Spans.stays spans_readU16).bind fun _ => Stays.check.bind fun _ =>
        (Spans.stays spans_readU8).bind fun _ => Stays.check.bind fun _ => Stays.pure _
    refine halloc.bind fun _ => (Stays.ite hbyte (Stays.ite hu32 (Stays.ite hu32 (Stays.fail _)))).bind fun _ => ?_
    exact (hzero 0).bind fun _ => hi32.bind fun _ => (hzero 0).bind fun _ => hu32.given.bind fun _ =>
      hu32.given.bind fun _ => Stays.pure _
  refine halloc.bind fun _ => (hzero _).bind fun _ => hi32.bind fun _ => hu32.bind fun _ => hi32.bind fun _ =>
    Stays.check.bind fun _ => hi32.bind fun _ => Stays.check.bind fun _ => hi32.bind fun _ => hi32.bind fun _ =>
    Stays.check.bind fun _ => Stays.check.bind fun _ => (Stays.peek _).bind fun _ => (Stays.jump _).bind fun _ => ?_
  refine (stays_readGrown (fun _ _ hroom => (hpoint _ _).bind fun _ => hroom.bind fun _ => Stays.pure _) halloc _ _ _).bind
    fun _ => ?_
  exact (Stays.jump _).bind fun _ => Stays.pure _

/-- How many bytes the first `switch` of `read_parameter` reads. -/
def headBytes : MqbParamType → Nat
  | .bool | .sbyte | .byte => 1
  | .short => 2
  | _ => 4

/-- What the first `switch` leaves for the second: the value, or its length. -/
def HeadOf (len : Int32) : MqbParamType → MqbHead → Prop
  | .string, head => head = .string len
  | .custom, head => head = .custom len
  | .color, head => head = .color len
  | .intColor, head => head = .intColor len
  | .vector, head => head = .vector len
  | _, head => ∃ v, head = .whole v

theorem spans_mqbReadHead (type : MqbParamType) (p : Nat) :
    Spans f p (p + headBytes type) (mqbReadHead type) (HeadOf (f.i32 p) type) := by
  cases type
  case bool | sbyte | byte => exact (spans_readU8 p).bind fun _ _ => Spans.pure ⟨_, rfl⟩
  case short => exact (spans_readU16 p).bind fun _ _ => Spans.pure ⟨_, rfl⟩
  case int => exact (spans_readI32 p).bind fun _ _ => Spans.pure ⟨_, rfl⟩
  case uint | float => exact (spans_readU32 p).bind fun _ _ => Spans.pure ⟨_, rfl⟩
  case string | custom | color | intColor | vector =>
    exact (spans_readI32 p).bind fun _ hlen => Spans.pure (by rw [hlen]; rfl)

/-- A value of less than four bytes is padded. -/
theorem spans_mqbReadValuePad (type : MqbParamType) (p : Nat) :
    Spans f (p + headBytes type) (p + 4) (mqbReadValuePad type) fun _ => True := by
  have h8 : ∀ q, Spans f q (q + 1) (do
      let z8 ← readU8
      check (z8 = 0) SfError.badMagic) fun _ => True := fun q => (spans_readU8 q).bind fun _ _ => spans_asserted _
  have h16 : ∀ q, Spans f q (q + 2) (do
      let z16 ← readU16
      check (z16 = 0) SfError.badMagic) fun _ => True := fun q => (spans_readU16 q).bind fun _ _ => spans_asserted _
  cases type
  case bool | sbyte | byte => exact (h8 _).bind fun _ _ => h16 _
  case short => exact (Spans.pure (Q := fun _ => True) trivial).bind fun _ _ => h16 _
  all_goals exact (Spans.pure (Q := fun _ => True) trivial).bind fun _ _ => Spans.pure trivial

theorem spans_mqbReadTail {type : MqbParamType} {memberCount len : Int32} {head : MqbHead} (hhead : HeadOf len type head)
    (start stop p : Nat) :
    Spans f p (p + tailBytes memberCount len type) (mqbReadTail memberCount start stop head) fun _ => True := by
  cases type
  case bool | sbyte | byte | short | int | uint | float =>
    obtain ⟨v, rfl⟩ := hhead
    exact Spans.pure trivial
  case string =>
    subst hhead
    exact Spans.check fun hlen => (spans_readFixstrW (by omega) p).bind fun _ _ => Spans.pure trivial
  case custom =>
    subst hhead
    refine Spans.check fun hlen => Spans.bind (P := fun _ => True) (Spans.given (fun _ => ?_) fun hnone => ?_)
      fun _ _ => Spans.pure trivial
    · exact (spans_alloc p).bind fun _ _ => (spans_readExact _ p).mono fun _ _ => trivial
    · have hzero : len.toInt.toNat = 0 := by
        have hle := of_decide_eq_false hnone
        omega
      simp [tailBytes, hzero]
  case color =>
    subst hhead
    refine Spans.check fun _ => Spans.pos ?_
    exact (spans_readU8 p).bind fun _ _ => (spans_readU8 (p + 1)).bind fun _ _ => (spans_readU8 (p + 2)).bind fun _ _ =>
      (spans_readU8 (p + 3)).bind fun _ _ => Spans.check fun _ => Spans.pos (Spans.pure trivial)
  case intColor =>
    subst hhead
    refine Spans.check fun _ => Spans.pos ?_
    exact (spans_readI32 p).bind fun _ _ => (spans_readI32 (p + 4)).bind fun _ _ => (spans_readI32 (p + 8)).bind fun _ _ =>
      (spans_readI32 (p + 12)).bind fun _ _ => Spans.pos ((spans_assertI32 0 (p + 16)).bind fun _ _ => Spans.pure trivial)
  case vector =>
    subst hhead
    refine Spans.check fun _ => Spans.check fun _ => Spans.pos ?_
    have hmember : ∀ n q, 1 ≤ n → Spans f (q + 4 * min n (max 1 memberCount.toInt.toNat))
        (q + 4 * min (n + 1) (max 1 memberCount.toInt.toNat))
        (given (decide ((n : Int) < memberCount.toInt)) 0 readF32) fun _ => True := by
      intro n q hn
      refine Spans.given (fun hlt => ?_) fun hle => ?_
      · have hlt := of_decide_eq_true hlt
        have hq : q + 4 * min (n + 1) (max 1 memberCount.toInt.toNat) =
            q + 4 * min n (max 1 memberCount.toInt.toNat) + 4 := by omega
        rw [hq]
        exact (spans_readU32 _).mono fun _ _ => trivial
      · have hle := of_decide_eq_false hle
        exact ⟨by omega, trivial⟩
    have hfirst : p + 4 = p + 4 * min 1 (max 1 memberCount.toInt.toNat) := by omega
    refine ((spans_readU32 p).mono fun _ _ => trivial : Spans f p (p + 4) readF32 fun _ => True).bind fun _ _ => ?_
    rw [hfirst]
    exact (hmember 1 p (by decide)).bind fun _ _ => (hmember 2 p (by decide)).bind fun _ _ =>
      (hmember 3 p (by decide)).bind fun _ _ =>
      Spans.pos ((spans_assertI32 0 _).bind fun _ _ => Spans.pure trivial)

theorem spans_mqbReadParameter (p : Nat) : Spans f p (f.parameterEnd p) mqbReadParameter fun _ => True := by
  refine (spans_alloc p).bind fun _ _ => (spans_readFixstrW (by decide) p).bind fun name _ => ?_
  refine (spans_readU32 (p + 0x40)).bind fun type htype => (spans_readI32 (p + 0x44)).bind fun memberCount hcount => ?_
  refine Spans.pos ?_
  rcases hof : MqbParamType.ofCode type with _ | type'
  · exact Spans.fail _
  have hend : f.parameterEnd p = p + 0x60 + tailBytes memberCount (f.i32 (p + 0x48)) type' := by
    rw [parameterEnd, tailSize, ← htype, hof, hcount]
  rw [hend]
  refine (spans_mqbReadHead type' (p + 0x48)).bind fun head hhead => Spans.pos ?_
  refine (spans_mqbReadValuePad type' (p + 0x48)).bind fun _ _ => (spans_assertI32 0 _).bind fun _ _ => ?_
  refine (spans_readI32 _).bind fun sequencesOffset _ => (spans_readI32 _).bind fun sequenceCount _ => ?_
  refine (spans_assertI32 0 _).bind fun _ _ => (spans_assertI32 0 _).bind fun _ _ => ?_
  refine (spans_mqbReadTail hhead _ _ (p + 0x60)).bind fun tail _ => ?_
  refine Spans.bind (P := fun _ => True) (Spans.given (fun _ => Spans.pos (Spans.jump (Spans.aside ?_ ?_))) fun _ =>
    ⟨rfl, trivial⟩) fun _ _ => Spans.pure trivial
  · exact stays_readGrown (fun _ _ hroom => (stays_mqbReadSequence _ _).bind fun _ => hroom.bind fun _ => Stays.pure _)
      (Spans.stays spans_alloc) _ _ _
  · exact fun _ => Spans.pure trivial

theorem spans_mqbReadParameters (count : Int32) (p : Nat) :
    Spans f p (f.parameterEnd^[count.toInt.toNat] p) (mqbReadParameters count) fun _ => True := by
  refine (spans_readGrown (Q := fun _ _ => True) spans_alloc (fun p i room hroom => ?_) _ _ _ p).mono fun _ _ => trivial
  exact (spans_mqbReadParameter p).bind fun _ _ => (hroom _).bind fun _ _ => Spans.pure trivial

theorem spans_mqbReadTransform (p : Nat) : Spans f p (p + 0x70) mqbReadTransform fun _ => True := by
  have hf32 : ∀ q, Spans f q (q + 4) readF32 fun _ => True := fun q => (spans_readU32 q).mono fun _ _ => trivial
  have hvec3 : ∀ q, Spans f q (q + 12) mqbReadVec3 fun _ => True := fun q =>
    (hf32 q).bind fun _ _ => (hf32 _).bind fun _ _ => (hf32 _).bind fun _ _ => Spans.pure trivial
  exact (hf32 p).bind fun _ _ => (hvec3 _).bind fun _ _ => (hvec3 _).bind fun _ _ => (hvec3 _).bind fun _ _ =>
    (hvec3 _).bind fun _ _ => (hvec3 _).bind fun _ _ => (hvec3 _).bind fun _ _ => (hvec3 _).bind fun _ _ =>
    (hvec3 _).bind fun _ _ => (hvec3 _).bind fun _ _ => Spans.pure trivial

theorem iterate_add (n k p : Nat) : (· + n)^[k] p = p + n * k := by
  induction k generalizing p with
  | zero => rfl
  | succ k ih => rw [Function.iterate_succ_apply, ih, Nat.mul_succ]; omega

theorem spans_mqbReadEventAt (p : Nat) : Spans f p (f.eventEnd p) mqbReadEventAt fun _ => True := by
  have hzero := spans_assertI32 (f := f) 0
  refine (spans_alloc p).bind fun _ _ => ?_
  refine (spans_readI32 p).bind fun _ _ => (spans_readI32 _).bind fun _ _ => (spans_readI32 _).bind fun _ _ => ?_
  refine (spans_readI32 _).bind fun _ _ => (spans_readI32 _).bind fun _ _ => (spans_readI32 _).bind fun _ _ => ?_
  refine (spans_readI32 _).bind fun _ _ => (spans_readI32 _).bind fun _ _ => (spans_readI32 _).bind fun _ _ => ?_
  refine Spans.check fun _ => (spans_readI32 (p + 0x24)).bind fun paramCount hparams => (spans_readI32 _).bind fun _ _ => ?_
  refine (hzero _).bind fun _ _ => (spans_mqbReadParameters paramCount (p + 0x30)).bind fun _ _ => (hzero _).bind
    fun _ _ => (spans_readI32 _).bind fun transformCount htransforms => ?_
  refine (spans_readEach (Q := fun _ _ => True) hzero 6 _).bind fun _ _ => ?_
  have hloop := spans_readGrown (f := f) (k := 8) (s := (· + 0x70)) (Q := fun _ _ => True)
    (g := fun _ room => do
      room
      mqbReadTransform) spans_alloc (fun p i room hroom => (hroom p).bind fun _ _ => spans_mqbReadTransform p)
    transformCount.toInt.toNat 0 0
  have hend : f.eventEnd p = (· + 0x70)^[transformCount.toInt.toNat]
      ((· + 4)^[6] (f.parameterEnd^[paramCount.toInt.toNat] (p + 0x30) + 4 + 4)) := by
    rw [iterate_add, iterate_add, eventEnd, count, count, ← hparams, ← htransforms]
  rw [hend]
  exact (hloop _).bind fun _ _ => Spans.pure trivial

theorem spans_mqbReadResource (i : Nat) {room : RdrM Unit} (hroom : ∀ q, Spans f q q room fun _ => True) (p : Nat) :
    Spans f p (f.resourceEnd p) (mqbReadResource i room) fun _ => True := by
  refine (hroom p).bind fun _ _ => (spans_alloc p).bind fun _ _ => (spans_alloc p).bind fun _ _ => ?_
  refine (spans_readFixstrW (by decide) p).bind fun _ _ => (spans_readI32 _).bind fun _ _ => (spans_readI32 _).bind
    fun _ _ => Spans.check fun _ => (spans_readI32 _).bind fun _ _ => ?_
  refine (spans_readI32 (p + 0x4C)).bind fun parameterCount hparams => ?_
  rw [resourceEnd, count, ← hparams]
  exact (spans_mqbReadParameters parameterCount (p + 0x50)).bind fun _ _ => Spans.pure trivial

/-- Behind the version and the size of the header. -/
theorem spans_mqbReadExtra {version : MqbVersion} (hlong : f.long = decide (version = .darkSouls2Scholar)) :
    Spans f (16 + f.varSize) (mqbHeaderSize version).toInt.toNat (mqbReadExtra version) fun _ => True := by
  have hzero := spans_assertI32 (f := f) 0
  cases version
  case darkSouls2 =>
    rw [varSize, hlong]
    exact (Spans.pure (Q := fun _ => True) trivial).bind fun _ _ => Spans.pure trivial
  case darkSouls2Scholar =>
    rw [varSize, hlong]
    refine Spans.bind (P := fun _ => True) ?_ fun _ _ => Spans.pure (Q := fun _ => True) trivial
    exact (spans_readEach (Q := fun _ _ => True) hzero 4 24).bind fun _ _ => Spans.pure trivial
  case bloodborne =>
    rw [varSize, hlong]
    refine (Spans.pure (Q := fun _ => True) trivial).bind fun _ _ => ?_
    exact (spans_assertI32 1 20).bind fun _ _ => (hzero 24).bind fun _ _ => (hzero 28).bind fun _ _ => Spans.pure trivial
  case darkSouls3 =>
    rw [varSize, hlong]
    refine (Spans.pure (Q := fun _ => True) trivial).bind fun _ _ => ?_
    exact (spans_assertI32 1 20).bind fun _ _ => (hzero 24).bind fun _ _ => (hzero 28).bind fun _ _ => hzero 32

end MqbFile

end SoulsFormats
