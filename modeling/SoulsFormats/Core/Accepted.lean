import SoulsFormats.Core.Texts
import SoulsFormats.Library.Returns

set_option autoImplicit false

/-! # What is known of data that was read

A reader checks what it reads, and a text that it returns was decoded from bytes without a terminator. -/

namespace SoulsFormats

open Bytes Fallible BinaryReader

/-- The code pages can store again what they have decoded, as those of Windows can. -/
structure Win32.Faithful (os : Win32) : Prop where
  utf16 : ∀ us, (∀ u ∈ us, u ≠ 0) → os.Fits16 (os.ofUnits us)
  mbcs : ∀ cp x, (∀ b ∈ x, b ≠ 0) → os.Fits cp (os.decoded cp x)

theorem Win32.fits_nil (os : Win32) (cp : CodePage) : os.Fits cp [] := by
  refine ⟨nofun, ?_, ?_⟩
  · simp [Win32.encoded, Win32.units]
  · simp [Win32.encoded, Win32.units, Win32.decoded]

theorem Win32.ascii_faithful : Win32.ascii.Faithful := by
  have hofUnits : ∀ us, (∀ u ∈ us, u ≠ 0) →
      (∀ b ∈ Win32.ascii.ofUnits us, b < 0x80) ∧ ∀ b ∈ Win32.ascii.ofUnits us, b ≠ 0 := by
    intro us hus
    unfold Win32.ofUnits
    simp only [Win32.ascii]
    split
    · exact ⟨fun b hb => absurd hb List.not_mem_nil, fun b hb => absurd hb List.not_mem_nil⟩
    · split
      · next hall =>
          rw [List.all_eq_true] at hall
          constructor
          · intro b hb
            obtain ⟨u, hu, rfl⟩ := List.mem_map.1 hb
            have hlt := UInt16.lt_iff_toNat_lt.1 (of_decide_eq_true (hall u hu))
            rw [UInt8.lt_iff_toNat_lt, UInt16.toNat_toUInt8]
            exact (Nat.mod_le _ _).trans_lt hlt
          · intro b hb h0
            obtain ⟨u, hu, rfl⟩ := List.mem_map.1 hb
            have hlt := UInt16.lt_iff_toNat_lt.1 (of_decide_eq_true (hall u hu))
            change u.toNat < 128 at hlt
            have hnat := congrArg UInt8.toNat h0
            rw [UInt16.toNat_toUInt8] at hnat
            change u.toNat % 256 = 0 at hnat
            exact hus u hu (UInt16.toNat_inj.1 (by change u.toNat = 0; omega))
      · exact ⟨fun b hb => absurd hb List.not_mem_nil, fun b hb => absurd hb List.not_mem_nil⟩
  constructor
  · intro us hus
    exact Win32.ascii_compatible.fits16 (hofUnits us hus).1 (hofUnits us hus).2
  · intro cp x hx
    unfold Win32.decoded
    split
    · exact Win32.fits_nil _ _
    · have hunits : ∀ u ∈ Win32.ascii.MultiByteToWideChar cp x, u ≠ 0 := by
        intro u hu
        simp only [Win32.ascii] at hu
        split at hu
        · obtain ⟨b, hb, rfl⟩ := List.mem_map.1 hu
          exact Win32.toUInt16_ne_zero (hx b hb)
        · cases hu
      exact Win32.ascii_compatible.fits (hofUnits _ hunits).1 (hofUnits _ hunits).2

/-! ## Conversions -/

section

variable {os : Win32}

theorem returns_mbcsToUtf8 (cp : CodePage) (x : List UInt8) :
    Returns (mbcsToUtf8 os cp x) fun t => t = os.decoded cp x := by
  unfold Win32.decoded
  refine Returns.ite (fun hx => ?_) fun hx => ?_
  · refine Returns.after fun _ => Returns.pure ?_
    rw [if_pos (List.length_eq_zero_iff.1 hx)]
  · refine Returns.check fun _ => Returns.check fun hwide => Returns.after fun _ => Returns.check fun _ =>
      Returns.after fun _ => Returns.pure ?_
    rw [if_neg (fun h => hx (by rw [h]; rfl)), Win32.ofUnits, if_neg (List.length_pos_iff.1 hwide)]

theorem returns_utf16ToUtf8 (be : Bool) (x : List UInt8) :
    Returns (utf16ToUtf8 os be x) fun t => t = os.ofUnits (codeUnits be x) := by
  unfold Win32.ofUnits utf16ToUtf8
  refine Returns.ite (fun hx => ?_) fun hx => ?_
  · refine Returns.after fun _ => Returns.pure ?_
    rw [if_pos (List.length_eq_zero_iff.1 hx)]
  · have hne : ¬ codeUnits be x = [] := fun h => hx (by rw [h]; rfl)
    have hrest : Returns (do
        let out := os.WideCharToMultiByte .utf8 (codeUnits be x)
        Fallible.check (0 < out.length) SfError.invalidArg
        let _ ← Heap.alloc
        Pure.pure out) fun t => t = if codeUnits be x = [] then [] else
          os.WideCharToMultiByte .utf8 (codeUnits be x) :=
      Returns.check fun _ => Returns.after fun _ => Returns.pure (by rw [if_neg hne])
    refine Returns.check fun _ => ?_
    exact Returns.ite (fun _ => Returns.after fun _ => hrest) fun _ => hrest

end

namespace BinaryReader

/-! ## Settings -/

/-- The settings of a reader. -/
structure Mode where
  bigEndian : Bool
  varintLong : Bool
  isFlexible : Bool

def mode (r : BinaryReader) : Mode := ⟨r.bigEndian, r.varintLong, r.isFlexible⟩

/-- `m` changes no setting. -/
class Modeless {α : Type} (m : ReadM α) : Prop where
  mode_eq : ∀ r, (m r).2.mode = r.mode

section Modeless

variable {α β : Type} {m : ReadM α} {f : α → ReadM β}

instance (a : α) : Modeless (Pure.pure a : ReadM α) := ⟨fun _ => rfl⟩

instance (e : SfError) : Modeless (Fallible.fail e : ReadM α) := ⟨fun _ => rfl⟩

instance : Modeless (state : ReadM BinaryReader) := ⟨fun _ => rfl⟩

instance (g : BinaryReader → α) : Modeless (peek g : ReadM α) := ⟨fun _ => rfl⟩

instance (x : Except SfError α) : Modeless (Fallible.lift x : ReadM α) := ⟨fun _ => rfl⟩

instance [Modeless m] : Modeless (attempt m) := ⟨fun r => Modeless.mode_eq (m := m) r⟩

instance [Modeless m] [∀ a, Modeless (f a)] : Modeless (m >>= f) := by
  constructor
  intro r
  have hm := Modeless.mode_eq (m := m) r
  rw [bind_run]
  rcases hrun : m r with ⟨e | a, r1⟩
  · rw [hrun] at hm
    exact hm
  · rw [hrun] at hm
    exact (Modeless.mode_eq (m := f a) r1).trans hm

instance {c : Prop} [Decidable c] {m' : ReadM α} [Modeless m] [Modeless m'] :
    Modeless (if c then m else m') := by
  split
  · infer_instance
  · infer_instance

instance (c : Prop) [Decidable c] (e : SfError) : Modeless (Fallible.check c e : ReadM Unit) := by
  unfold Fallible.check
  infer_instance

instance (c : Bool) (d : α) [Modeless m] : Modeless (Fallible.given c d m) := by
  unfold Fallible.given
  infer_instance

instance (m : Fallible IStream SfError α) : Modeless (onStream m) := ⟨fun _ => rfl⟩

instance (m : Fallible Heap SfError α) : Modeless (onHeap m) := ⟨fun _ => rfl⟩

instance (n : Nat) : Modeless (readBytes n) := by
  unfold readBytes
  infer_instance

instance (n : Nat) : Modeless (defineReadInt n) := by
  unfold defineReadInt
  infer_instance

instance : Modeless readU8 := by
  unfold readU8
  infer_instance

instance : Modeless readBool := by
  unfold readBool
  infer_instance

instance : Modeless readU16 := by
  unfold readU16
  infer_instance

instance : Modeless readU32 := by
  unfold readU32
  infer_instance

instance : Modeless readU64 := by
  unfold readU64
  infer_instance

instance : Modeless readI8 := by
  unfold readI8
  infer_instance

instance : Modeless readI16 := by
  unfold readI16
  infer_instance

instance : Modeless readI32 := by
  unfold readI32
  infer_instance

instance : Modeless readI64 := by
  unfold readI64
  infer_instance

instance : Modeless readF32 := by
  unfold readF32
  infer_instance

instance : Modeless readVarint := by
  unfold readVarint
  infer_instance

instance (n : Nat) : Modeless (readU8s n) := by
  unfold readU8s
  infer_instance

instance (n : Int) : Modeless (skip n) := by
  unfold skip
  infer_instance

instance [DecidableEq α] (options : List α) [Modeless m] : Modeless (defineAssertMulti m options) := by
  unfold defineAssertMulti
  infer_instance

instance (options : List UInt8) : Modeless (assertU8 options) := by
  unfold assertU8
  infer_instance

instance (options : List Int32) : Modeless (assertI32 options) := by
  unfold assertI32
  infer_instance

instance [DecidableEq α] (options : List α) [Modeless m] : Modeless (defineEnumRead m options) := by
  unfold defineEnumRead
  infer_instance

instance (x : List UInt8) : Modeless (assertAscii x) := by
  unfold assertAscii
  infer_instance

instance [Modeless m] (n : Nat) : Modeless (readEach m n) := by
  induction n with
  | zero =>
      unfold readEach
      infer_instance
  | succ n ih =>
      unfold readEach
      infer_instance

instance (width fuel cap : Nat) (buf : List UInt8) : Modeless (readTerminated width fuel cap buf) := by
  induction fuel generalizing cap buf with
  | zero =>
      unfold readTerminated
      infer_instance
  | succ fuel ih =>
      unfold readTerminated
      infer_instance

instance (width : Nat) (decode : Bool → Decode) : Modeless (readStrTerminated width decode) := by
  unfold readStrTerminated
  infer_instance

instance (pos : Int) : Modeless (stepIn pos) := by
  constructor
  intro r
  rw [stepIn, peek_bind_run]
  have hpush : Modeless (stepsPush r.position) := by
    have hset : ∀ f : BinaryReader → BinaryReader, (∀ r, (f r).mode = r.mode) → Modeless (update f : ReadM Unit) :=
      fun f hf => ⟨hf⟩
    have hcap := hset (fun r => { r with stepsCap := if r.stepsCap ≠ 0 then r.stepsCap * 2 else 8 }) fun _ => rfl
    have hsteps := hset (fun r => { r with steps := r.position :: r.steps }) fun _ => rfl
    have hsteps' : ∀ pos, Modeless (update (fun r => { r with steps := pos :: r.steps }) : ReadM Unit) :=
      fun pos => hset _ fun _ => rfl
    unfold stepsPush
    infer_instance
  exact Modeless.mode_eq (m := stepsPush r.position >>= fun _ => onStream (IStream.seek pos)) r

instance : Modeless stepOut := by
  constructor
  intro r
  rw [stepOut, state_bind_run]
  rcases r.steps with _ | ⟨pos, rest⟩
  · rfl
  · rfl

instance (off : Int) [Modeless m] : Modeless (defineGet off m) := by
  unfold defineGet
  have hlast : ∀ (e : Except SfError α) (e2 : Except SfError Unit), Modeless (match e, e2 with
      | .error err, _ => Fallible.fail err
      | .ok _, .error err => Fallible.fail err
      | .ok v, .ok () => Pure.pure v : ReadM α) := by
    rintro (e | v) (e2 | ⟨⟩)
    · exact inferInstanceAs (Modeless (Fallible.fail e))
    · exact inferInstanceAs (Modeless (Fallible.fail e))
    · exact inferInstanceAs (Modeless (Fallible.fail e2))
    · exact inferInstanceAs (Modeless (Pure.pure v))
  infer_instance

instance (os : Win32) : Modeless (readShiftJis os) := by
  unfold readShiftJis
  infer_instance

instance (os : Win32) : Modeless (readUtf16 os) := by
  unfold readUtf16
  infer_instance

instance (os : Win32) (off : Int) : Modeless (getShiftJis os off) := by
  unfold getShiftJis
  infer_instance

instance (os : Win32) (off : Int) : Modeless (getUtf16 os off) := by
  unfold getUtf16
  infer_instance

instance (off : Int) (n : Nat) : Modeless (getBytes off n) := by
  unfold getBytes
  infer_instance

instance (off : Int) : Modeless (getU8 off) := by
  unfold getU8
  infer_instance

end Modeless

/-! ## What is accepted -/

section Accepts

variable {α β : Type} {m : ReadM α} {f : α → ReadM β} {M : Mode} {P Q : α → Prop} {R : β → Prop}

/-- What `m` returns with these settings satisfies `Q`. -/
def Accepts (M : Mode) (m : ReadM α) (Q : α → Prop) : Prop :=
  ∀ r, r.mode = M → ∀ a r', m r = (.ok a, r') → Q a

theorem Accepts.trivial : Accepts M m fun _ => True := fun _ _ _ _ _ => True.intro

theorem Accepts.pure {a : α} (h : Q a) : Accepts M (Pure.pure a) Q := by
  intro r _ b r' hrun
  cases hrun
  exact h

theorem Accepts.mono (hm : Accepts M m P) (h : ∀ a, P a → Q a) : Accepts M m Q :=
  fun r hr a r' hrun => h a (hm r hr a r' hrun)

theorem Accepts.bind [Modeless m] (hm : Accepts M m P) (hf : ∀ a, P a → Accepts M (f a) R) :
    Accepts M (m >>= f) R := by
  intro r hr b r' hrun
  obtain ⟨a, r1, hrun1, hrun2⟩ := bind_eq_ok.1 hrun
  have hmode := Modeless.mode_eq (m := m) r
  rw [hrun1] at hmode
  exact hf a (hm r hr a r1 hrun1) r1 (hmode.trans hr) b r' hrun2

/-- Nothing is said of the first step. -/
theorem Accepts.after [Modeless m] (hf : ∀ a, Accepts M (f a) R) : Accepts M (m >>= f) R :=
  Accepts.trivial.bind fun a _ => hf a

theorem Accepts.check {c : Prop} [Decidable c] {e : SfError} {f : Unit → ReadM β}
    (hf : c → Accepts M (f ()) R) : Accepts M (Fallible.check c e >>= f) R := by
  intro r hr b r' hrun
  by_cases hc : c
  · rw [check_bind_pos hc] at hrun
    exact hf hc r hr b r' hrun
  · rw [check_bind_neg hc] at hrun
    cases hrun

theorem Accepts.ite {c : Prop} [Decidable c] {m' : ReadM α} (hm : c → Accepts M m Q)
    (hm' : ¬ c → Accepts M m' Q) : Accepts M (if c then m else m') Q := by
  split
  · next hc => exact hm hc
  · next hc => exact hm' hc

theorem Accepts.given {c : Bool} {d : α} (hm : c = true → Accepts M m Q) (hd : c = false → Q d) :
    Accepts M (Fallible.given c d m) Q := by
  cases c with
  | false => exact Accepts.pure (hd rfl)
  | true => exact hm rfl

theorem Accepts.setBigEndian {be : Bool} {f : Unit → ReadM β}
    (hf : Accepts { M with bigEndian := be } (f ()) R) : Accepts M (BinaryReader.setBigEndian be >>= f) R := by
  intro r hr b r' hrun
  refine hf { r with bigEndian := be } ?_ b r' hrun
  rw [← hr]
  rfl

theorem accepts_onHeap {m : Fallible Heap SfError α} (hm : Returns m Q) : Accepts M (onHeap m) Q :=
  fun r _ a r' hrun => hm.zoom r a r' hrun

theorem accepts_readEach [Modeless m] (hm : Accepts M m Q) (n : Nat) :
    Accepts M (readEach m n) fun l => l.length = n ∧ ∀ a ∈ l, Q a := by
  induction n with
  | zero => exact Accepts.pure ⟨rfl, nofun⟩
  | succ n ih =>
      refine hm.bind fun a ha => ih.bind fun l hl => Accepts.pure ⟨by simp [hl.1], ?_⟩
      simp only [List.mem_cons, forall_eq_or_imp]
      exact ⟨ha, hl.2⟩

theorem accepts_assert [DecidableEq α] [Modeless m] (options : List α) :
    Accepts M (defineAssertMulti m options) fun v => M.isFlexible = false → v ∈ options := by
  refine Accepts.check fun _ => Accepts.after fun v => ?_
  intro r hr a r' hrun
  rw [state_bind_run] at hrun
  split at hrun
  · next hflex =>
      cases hrun
      intro hno
      rw [← hr] at hno
      exact absurd hflex (by simp [show r.isFlexible = false from hno])
  · next hflex =>
      by_cases hv : v ∈ options
      · rw [check_bind_pos hv] at hrun
        cases hrun
        exact fun _ => hv
      · rw [check_bind_neg hv] at hrun
        cases hrun

/-- What a getter returns is what is read. -/
theorem accepts_get [Modeless m] (hm : Accepts M m Q) (off : Int) : Accepts M (defineGet off m) Q := by
  intro r hr a r' hrun
  obtain ⟨_, r1, hin, hrun⟩ := bind_eq_ok.1 hrun
  have hmode := Modeless.mode_eq (m := stepIn off) r
  rw [hin] at hmode
  rw [attempt_bind_run, attempt_bind_run] at hrun
  rcases hread : m r1 with ⟨e | v, r2⟩
  · rw [hread] at hrun
    cases hrun
  · rw [hread] at hrun
    rcases hout : stepOut r2 with ⟨e | ⟨⟩, r3⟩
    · simp only [hout] at hrun
      cases hrun
    · simp only [hout] at hrun
      cases hrun
      exact hm r1 (hmode.trans hr) a r2 hread

/-! ## Texts -/

variable {os : Win32}

theorem length_of_read {n : Nat} {s : IStream} {x : List UInt8} (h : (IStream.read n s).1 = .ok x) :
    x.length = n := by
  unfold IStream.read at h
  split at h
  · next h0 =>
      cases h
      exact h0.symm
  · rw [state_bind_run] at h
    by_cases hroom : (n : Int) ≤ (s.length : Int) - s.memPos
    · rw [check_bind_pos hroom] at h
      cases h
      rw [List.length_take, List.length_drop]
      simp only [IStream.length] at hroom
      omega
    · rw [check_bind_neg hroom] at h
      cases h

/-- The bytes up to a terminator are whole units, none of which is zero. -/
theorem accepts_readTerminated {width fuel cap : Nat} {buf : List UInt8} (us : List (List UInt8))
    (hbuf : buf = us.flatten) (hus : ∀ u ∈ us, u.length = width ∧ u ≠ List.replicate width 0) :
    Accepts M (readTerminated width fuel cap buf) fun x => ∃ us : List (List UInt8), x = us.flatten ∧
      ∀ u ∈ us, u.length = width ∧ u ≠ List.replicate width 0 := by
  induction fuel generalizing cap buf us with
  | zero => exact fun _ _ _ _ hrun => by cases hrun
  | succ fuel ih =>
      have hunit : Accepts M (readBytes width) fun u => u.length = width := by
        intro r _ u r' hrun
        have hlen := length_of_read (Prod.mk.inj hrun).1
        exact hlen
      refine hunit.bind fun u hu => Accepts.ite (fun _ => Accepts.pure ⟨us, hbuf, hus⟩) fun hne => ?_
      have hnext : buf ++ u = (us ++ [u]).flatten := by simp [hbuf]
      have hall : ∀ v ∈ us ++ [u], v.length = width ∧ v ≠ List.replicate width 0 := by
        intro v hv
        rcases List.mem_append.1 hv with hv | hv
        · exact hus v hv
        · rw [List.mem_singleton.1 hv]
          exact ⟨hu, hne⟩
      exact Accepts.ite (fun _ => Accepts.after fun _ => ih _ hnext hall) fun _ => ih _ hnext hall

theorem accepts_readStrTerminated (width : Nat) {decode : Bool → Decode} {D : Bool → List UInt8 → List UInt8}
    (hdecode : ∀ be x, Returns (decode be x) fun t => t = D be x) :
    Accepts M (readStrTerminated width decode) fun t => ∃ (be : Bool) (us : List (List UInt8)),
      t = D be us.flatten ∧ ∀ u ∈ us, u.length = width ∧ u ≠ List.replicate width 0 := by
  refine Accepts.after fun _ => Accepts.after fun r => ?_
  refine (accepts_readTerminated [] rfl nofun).bind fun x hx => ?_
  obtain ⟨us, rfl, hus⟩ := hx
  exact accepts_onHeap ((hdecode _ _).mono fun t ht => ⟨_, us, ht, hus⟩)

theorem codeUnits_flatten (be : Bool) {us : List (List UInt8)} (hus : ∀ u ∈ us, u.length = 2) :
    codeUnits be us.flatten = us.map fun u => UInt16.ofNat (wordNat be u) := by
  induction us with
  | nil => rfl
  | cons u us ih =>
      obtain ⟨a, b, rfl⟩ := List.length_eq_two.1 (hus u List.mem_cons_self)
      simp only [List.flatten_cons, List.cons_append, List.nil_append, codeUnits, List.map_cons]
      rw [ih fun v hv => hus v (List.mem_cons_of_mem _ hv)]

/-- A text that was read can be stored again. -/
theorem accepts_readUtf16 (hos : os.Faithful) : Accepts M (readUtf16 os) fun t => os.Fits16 t := by
  refine (accepts_readStrTerminated 2 (D := fun be x => os.ofUnits (codeUnits be x)) fun be x => ?_).mono ?_
  · cases be with
    | false => exact returns_utf16ToUtf8 false x
    | true => exact returns_utf16ToUtf8 true x
  · rintro t ⟨be, us, rfl, hus⟩
    refine hos.utf16 _ fun u hu => ?_
    rw [codeUnits_flatten be fun u hu => (hus u hu).1] at hu
    obtain ⟨v, hv, rfl⟩ := List.mem_map.1 hu
    obtain ⟨hlen, hne⟩ := hus v hv
    -- a unit of two bytes is zero only if both are
    obtain ⟨a, b, rfl⟩ := List.length_eq_two.1 hlen
    intro h0
    apply hne
    have hnat := congrArg UInt16.toNat h0
    have ha := a.toNat_lt
    have hb := b.toNat_lt
    have hzero : a.toNat = 0 ∧ b.toNat = 0 := by
      cases be with
      | false =>
          simp [wordNat, leNat] at hnat
          omega
      | true =>
          simp [wordNat, leNat] at hnat
          omega
    have ha0 : a = 0 := UInt8.toNat_inj.1 hzero.1
    have hb0 : b = 0 := UInt8.toNat_inj.1 hzero.2
    rw [ha0, hb0]
    rfl

theorem accepts_readShiftJis (hos : os.Faithful) : Accepts M (readShiftJis os) fun t => os.Fits .shiftJis t := by
  refine (accepts_readStrTerminated 1 (D := fun _ x => os.decoded .shiftJis x) fun _ x =>
    returns_mbcsToUtf8 .shiftJis x).mono ?_
  rintro t ⟨_, us, rfl, hus⟩
  refine hos.mbcs .shiftJis _ fun b hb h0 => ?_
  obtain ⟨u, hu, hbu⟩ := List.mem_flatten.1 hb
  obtain ⟨hlen, hne⟩ := hus u hu
  obtain ⟨a, rfl⟩ := List.length_eq_one_iff.1 hlen
  rw [← List.mem_singleton.1 hbu, h0] at hne
  exact hne rfl

theorem accepts_getUtf16 (hos : os.Faithful) (off : Int) : Accepts M (getUtf16 os off) fun t => os.Fits16 t :=
  accepts_get (m := readUtf16 os) (accepts_readUtf16 hos) off

theorem accepts_getShiftJis (hos : os.Faithful) (off : Int) :
    Accepts M (getShiftJis os off) fun t => os.Fits .shiftJis t :=
  accepts_get (m := readShiftJis os) (accepts_readShiftJis hos) off

end Accepts

end BinaryReader

end SoulsFormats
