import SoulsFormats.Core.Granting
import SoulsFormats.Core.Texts

set_option autoImplicit false

/-! # The layout of a file

A format knows its slots by what they are for, as a type `σ`; `FileSlots` names them and says where they are. A slot can
only be filled if it is live, and it is where it was reserved, so that it is enough to know of every slot where it is
reserved. Where a writer stands is a `Stand`. `Puts S m st P F` says of every successful run of `m` from `st` that it
comes to some stand with `P` and that the final file, whatever is still written, satisfies `F`; `Lays` is `Puts` where the
value and the stand are known before. A format is laid out by composing these rules along its code, as it is read back
with those of `Reads`. -/

namespace SoulsFormats

open Bytes Fallible

namespace BinaryWriter

variable {σ : Type}

/-- The slots of a format: their names and kinds, which differ, and their offsets. `granting` says that the
    allocator is known to grant everything, which only some formats rely on. -/
structure FileSlots (σ : Type) where
  key : σ → ResKey
  addr : σ → Nat
  key_inj : Function.Injective key
  granting : Prop := False

/-- Where a writer stands, and with what flags. -/
structure Stand where
  pos : Nat
  bigEndian : Bool
  varintLong : Bool

/-- `n` bytes further on. -/
def Stand.advance (st : Stand) (n : Nat) : Stand := { st with pos := st.pos + n }

@[simp] theorem Stand.advance_zero (st : Stand) : st.advance 0 = st := rfl

@[simp] theorem Stand.advance_advance (st : Stand) (m n : Nat) : (st.advance m).advance n = st.advance (m + n) := by
  simp only [advance, Nat.add_assoc]

/-- The writer stands at its end and there, and its slots are where they belong. -/
structure Stand.Describes (S : FileSlots σ) (st : Stand) (w : BinaryWriter) : Prop where
  atEnd : AtEnd (fun _ => False) w
  pos : w.position = st.pos
  bigEndian : w.bigEndian = st.bigEndian
  varintLong : w.varintLong = st.varintLong
  granting : S.granting → w.Granting
  slots : ∀ s p, w.reserved (S.key s) = some p → p = S.addr s

/-! ## Names with a number -/

/-- Names for the slots of a format, none of which has a digit. A slot's name may be followed by a
    number. -/
structure Labels (φ : Type) where
  base : φ → String
  kind : φ → SfresKind
  noDigits : ∀ a, (cstr (base a)).any isDigit = false
  inj : ∀ a b, cstr (base a) = cstr (base b) → a = b

variable {φ : Type}

/-- What a label without a digit and a number spell. -/
theorem numbered_inj {x y : List UInt8} {i j : Option Nat} (hx : x.any isDigit = false)
    (hy : y.any isDigit = false) (h : x ++ i.elim [] decimal = y ++ j.elim [] decimal) :
    x = y ∧ i = j := by
  have htake : ∀ (z : List UInt8) (k : Option Nat), z.any isDigit = false →
      (z ++ k.elim [] decimal).takeWhile (fun b => !isDigit b) = z := by
    intro z k hz
    have hpos : ∀ b ∈ z, (!isDigit b) = true := by simpa using hz
    rw [List.takeWhile_append_of_pos hpos]
    cases k with
    | none => simp
    | some n =>
        rcases hn : decimal n with _ | ⟨b, rest⟩
        · exact absurd hn (decimal_ne_nil n)
        · have hb : isDigit b = true := isDigit_of_mem_decimal b (by rw [hn]; exact List.mem_cons_self)
          simp [hn, hb]
  have hxy : x = y := by rw [← htake x i hx, h, htake y j hy]
  subst hxy
  refine ⟨rfl, ?_⟩
  have hnum := List.append_cancel_left h
  cases i with
  | none =>
      cases j with
      | none => rfl
      | some n => exact absurd hnum.symm (decimal_ne_nil n)
  | some m =>
      cases j with
      | none => exact absurd hnum (decimal_ne_nil m)
      | some n => exact congrArg some (decimal_inj hnum)

/-- The slots with these names. -/
def Labels.slots (L : Labels φ) (addr : φ → Option Nat → Nat) (granting : Prop := False) :
    FileSlots (φ × Option Nat) where
  granting := granting
  key s := (cstr (L.base s.1) ++ s.2.elim [] decimal, L.kind s.1)
  addr s := addr s.1 s.2
  key_inj := by
    rintro ⟨a, i⟩ ⟨b, j⟩ h
    obtain ⟨hbase, hindex⟩ := numbered_inj (L.noDigits a) (L.noDigits b) (congrArg Prod.fst h)
    exact Prod.ext (L.inj a b hbase) hindex

section

variable (L : Labels φ) (addr : φ → Option Nat → Nat) (granting : Prop) (a : φ) (i : Nat)

@[simp] theorem Labels.addr_slots (k : Option Nat) : (L.slots addr granting).addr (a, k) = addr a k := rfl

theorem Labels.key_none : (L.slots addr granting).key (a, none) = (cstr (L.base a), L.kind a) := by
  simp [slots]

end

variable {α β : Type} {S : FileSlots σ}

/-- If `m` succeeds from `st`, it comes to a stand with `P` and the final file satisfies `F`. -/
def Puts (S : FileSlots σ) (m : WriteM α) (st : Stand) (P : α → Stand → Prop)
    (F : α → Stand → List UInt8 → Prop) : Prop :=
  ∀ (w w' : BinaryWriter) (v : α), st.Describes S w → m w = (.ok v, w') →
    ∃ st', st'.Describes S w' ∧ P v st' ∧
      ∀ B, Becomes (fun _ => False) w' B → Becomes (fun _ => False) w B ∧ F v st' B

variable {m : WriteM α} {f : α → WriteM β} {st : Stand} {P P1 : α → Stand → Prop}
  {Q : β → Stand → Prop} {F F1 : α → Stand → List UInt8 → Prop} {G : β → Stand → List UInt8 → Prop}

/-! ## Composition -/

theorem Puts.done {a : α} (hP : P a st) (hF : ∀ B, F a st B) : Puts S (pure a) st P F := by
  intro w w' v hw hrun
  cases hrun
  exact ⟨st, hw, hP, fun B hB => ⟨hB, hF B⟩⟩

/-- What `m` puts into the file is at hand for what the rest must show of it. -/
theorem Puts.seq (hm : Puts S m st P F)
    (hf : ∀ v st', P v st' → Puts S (f v) st' Q fun u st2 B => F v st' B → G u st2 B) :
    Puts S (m >>= f) st Q G := by
  intro w w2 u hw hrun
  obtain ⟨v, w1, hm1, hf1⟩ := bind_eq_ok.1 hrun
  obtain ⟨st1, hw1, hP, hF⟩ := hm w w1 v hw hm1
  obtain ⟨st2, hw2, hQ, hG⟩ := hf v st1 hP w1 w2 u hw1 hf1
  refine ⟨st2, hw2, hQ, fun B hB => ?_⟩
  obtain ⟨hB1, hFG⟩ := hG B hB
  obtain ⟨hB0, hFB⟩ := hF B hB1
  exact ⟨hB0, hFG hFB⟩

theorem Puts.conseq (hm : Puts S m st P F)
    (h : ∀ v st', P v st' → P1 v st' ∧ ∀ B, F v st' B → F1 v st' B) : Puts S m st P1 F1 := by
  intro w w' v hw hrun
  obtain ⟨st', hw', hP, hF⟩ := hm w w' v hw hrun
  obtain ⟨hP1, hF1⟩ := h v st' hP
  exact ⟨st', hw', hP1, fun B hB => ⟨(hF B hB).1, hF1 B (hF B hB).2⟩⟩

theorem Puts.mono (hm : Puts S m st P F) (h : ∀ v st', P v st' → ∀ B, F v st' B → F1 v st' B) :
    Puts S m st P F1 :=
  hm.conseq fun v st' hP => ⟨hP, h v st' hP⟩

/-- A step at the end of a block is one before nothing. -/
theorem Puts.last (h : Puts S (m >>= pure) st P F) : Puts S m st P F := by
  rwa [bind_pure] at h

/-- The final file reaches at least where the writer stands. -/
theorem Puts.here (hm : Puts S m st P fun v st' B => st.pos ≤ B.length → F v st' B) :
    Puts S m st P F := by
  intro w w' v hw hrun
  obtain ⟨st', hw', hP, hF⟩ := hm w w' v hw hrun
  refine ⟨st', hw', hP, fun B hB => ?_⟩
  obtain ⟨hB0, hFB⟩ := hF B hB
  exact ⟨hB0, hFB (by rw [← hw.pos, hw.atEnd.position]; exact hB0.1)⟩

theorem puts_fail (e : SfError) : Puts S (fail e : WriteM α) st P F := by
  intro w w' v hw hrun
  cases hrun

/-- What is checked holds in the rest of the run. -/
theorem Puts.check {p : Prop} [Decidable p] {e : SfError} {f : Unit → WriteM β}
    (hf : p → Puts S (f ()) st Q G) : Puts S (Fallible.check p e >>= f) st Q G := by
  intro w w' v hw hrun
  by_cases hp : p
  · rw [check_bind_pos hp] at hrun
    exact hf hp w w' v hw hrun
  · rw [check_bind_neg hp] at hrun
    cases hrun

theorem Puts.ite {c : Prop} [Decidable c] {m' : WriteM α} (hm : c → Puts S m st P F)
    (hm' : ¬ c → Puts S m' st P F) : Puts S (if c then m else m') st P F := by
  split
  · next hc => exact hm hc
  · next hc => exact hm' hc

/-- What asks the allocator writes nothing. -/
theorem Puts.onHeap {conv : Fallible Heap SfError α} {f : α → WriteM β} (hconv : Keeps Heap.Calm conv)
    (hf : ∀ v, (∃ h h', conv h = (.ok v, h')) → Puts S (f v) st Q G) :
    Puts S (onHeap conv >>= f) st Q G := by
  intro w w' u hw hrun
  have hkeeps := onHeap_granting hconv w
  obtain ⟨v, w1, hconv, hrest⟩ := bind_eq_ok.1 hrun
  rw [hconv] at hkeeps
  have hwrote := post_onHeap hw.atEnd.inv.ready conv _ _ hconv
  obtain ⟨hw1, hmap, hfinal⟩ := hw.atEnd.wrote hwrote
  have hok : ∃ h h', conv h = (.ok v, h') := by
    rw [BinaryWriter.onHeap, onStream, zoom_run, zoom_run, Prod.mk.injEq] at hconv
    exact ⟨_, _, Prod.ext hconv.1 rfl⟩
  have hstand : st.Describes S w1 :=
    ⟨hw1, hwrote.position.trans hw.pos, hwrote.bigEndian.trans hw.bigEndian,
      hwrote.varintLong.trans hw.varintLong, fun hS => hkeeps (hw.granting hS),
      by rw [hmap]; exact hw.slots⟩
  obtain ⟨st', hw', hQ, hG⟩ := hf v hok w1 w' u hstand hrest
  exact ⟨st', hw', hQ, fun B hB => ⟨(hfinal B (hG B hB).1).1, (hG B hB).2⟩⟩

theorem Puts.alloc {f : List UInt8 → WriteM β} (hf : ∀ v, Puts S (f v) st Q G) :
    Puts S (BinaryWriter.onHeap Heap.alloc >>= f) st Q G :=
  Puts.onHeap Heap.alloc_keeps fun v _ => hf v

/-! ## Steps -/

section

variable {pos : Nat} {be long : Bool} {f : Unit → WriteM β}

/-- A step that writes some bytes at the end. -/
theorem Puts.emits {m : WriteM Unit} {x : List UInt8}
    (hm : ∀ w : BinaryWriter, Stand.Describes S ⟨pos, be, long⟩ w →
      ∃ o, EmitsAt w m o ∧ ∀ bs, o = some bs → bs = x)
    (hf : Puts S (f ()) ⟨pos + x.length, be, long⟩ Q fun u st B => Holds B pos x → G u st B) :
    Puts S (m >>= f) ⟨pos, be, long⟩ Q G := by
  intro w w' v hw hrun
  obtain ⟨u, w1, hm1, hf1⟩ := bind_eq_ok.1 hrun
  obtain ⟨o, hemits, ho⟩ := hm w hw
  obtain ⟨bs, hbs, hwrote⟩ := hemits.wrote hm1
  rw [ho bs hbs] at hwrote
  obtain ⟨hw1, hmap, hfinal⟩ := hw.atEnd.wrote hwrote
  rw [hw.pos] at hfinal
  have hstand : Stand.Describes S ⟨pos + x.length, be, long⟩ w1 :=
    ⟨hw1, by rw [hwrote.position, hw.pos], hwrote.bigEndian.trans hw.bigEndian,
      hwrote.varintLong.trans hw.varintLong, fun hS => hemits.granting (hw.granting hS) _ _ hm1,
      by rw [hmap]; exact hw.slots⟩
  obtain ⟨st', hw', hQ, hG⟩ := hf w1 w' v hstand hf1
  refine ⟨st', hw', hQ, fun B hB => ?_⟩
  obtain ⟨hB1, hGB⟩ := hG B hB
  exact ⟨(hfinal B hB1).1, hGB (hfinal B hB1).2⟩

theorem Puts.scalar (k : Scalar) {v : k.Value}
    (hf : Puts S (f ()) ⟨pos + kindWidth (scalarKind long k), be, long⟩ Q
      fun u st B => Holds B pos (scalarBytes be long k v) → G u st B) :
    Puts S (writeScalar k v >>= f) ⟨pos, be, long⟩ Q G := by
  refine Puts.emits (x := scalarBytes be long k v) (fun w hw => ?_) ?_
  · have h := emitsAt_writeScalar hw.atEnd.inv.ready k v
    rw [hw.bigEndian, hw.varintLong] at h
    exact ⟨_, h, fun bs hbs => (Option.some.inj hbs).symm⟩
  · rwa [length_scalarBytes]

theorem Puts.u8 {v : UInt8}
    (hf : Puts S (f ()) ⟨pos + 1, be, long⟩ Q fun u st B => Holds B pos [v] → G u st B) :
    Puts S (writeU8 v >>= f) ⟨pos, be, long⟩ Q G := Puts.scalar .u8 hf

theorem Puts.bool {v : Bool}
    (hf : Puts S (f ()) ⟨pos + 1, be, long⟩ Q
      fun u st B => Holds B pos [if v then 1 else 0] → G u st B) :
    Puts S (writeBool v >>= f) ⟨pos, be, long⟩ Q G := Puts.scalar .bool hf

theorem Puts.u16 {v : UInt16}
    (hf : Puts S (f ()) ⟨pos + 2, be, long⟩ Q
      fun u st B => Holds B pos (wordBytes be 2 v.toNat) → G u st B) :
    Puts S (writeU16 v >>= f) ⟨pos, be, long⟩ Q G := Puts.scalar .u16 hf

theorem Puts.i16 {v : Int16}
    (hf : Puts S (f ()) ⟨pos + 2, be, long⟩ Q
      fun u st B => Holds B pos (wordBytes be 2 v.toUInt16.toNat) → G u st B) :
    Puts S (writeI16 v >>= f) ⟨pos, be, long⟩ Q G := Puts.scalar .i16 hf

theorem Puts.u32 {v : UInt32}
    (hf : Puts S (f ()) ⟨pos + 4, be, long⟩ Q
      fun u st B => Holds B pos (wordBytes be 4 v.toNat) → G u st B) :
    Puts S (writeU32 v >>= f) ⟨pos, be, long⟩ Q G := Puts.scalar .u32 hf

theorem Puts.i32 {v : Int32}
    (hf : Puts S (f ()) ⟨pos + 4, be, long⟩ Q
      fun u st B => Holds B pos (wordBytes be 4 v.toUInt32.toNat) → G u st B) :
    Puts S (writeI32 v >>= f) ⟨pos, be, long⟩ Q G := Puts.scalar .i32 hf

theorem Puts.i64 {v : Int64}
    (hf : Puts S (f ()) ⟨pos + 8, be, long⟩ Q
      fun u st B => Holds B pos (wordBytes be 8 v.toUInt64.toNat) → G u st B) :
    Puts S (writeI64 v >>= f) ⟨pos, be, long⟩ Q G := Puts.scalar .i64 hf

theorem Puts.bytes {x : List UInt8}
    (hf : Puts S (f ()) ⟨pos + x.length, be, long⟩ Q fun u st B => Holds B pos x → G u st B) :
    Puts S (writeBytes x >>= f) ⟨pos, be, long⟩ Q G :=
  Puts.emits (fun _ hw => ⟨_, emitsAt_writeBytes hw.atEnd.inv.ready x,
    fun _ hbs => (Option.some.inj hbs).symm⟩) hf

theorem Puts.pattern {n : Nat} {v : UInt8}
    (hf : Puts S (f ()) ⟨pos + n, be, long⟩ Q
      fun u st B => Holds B pos (List.replicate n v) → G u st B) :
    Puts S (writePattern n v >>= f) ⟨pos, be, long⟩ Q G := by
  refine Puts.emits (fun _ hw => ⟨_, emitsAt_writePattern hw.atEnd.inv.ready n v,
    fun _ hbs => (Option.some.inj hbs).symm⟩) ?_
  rwa [List.length_replicate]

theorem Puts.pad {align : Int} (halign : 0 < align)
    (hf : Puts S (f ()) ⟨pos + padLength pos align, be, long⟩ Q G) :
    Puts S (BinaryWriter.pad align >>= f) ⟨pos, be, long⟩ Q G := by
  refine Puts.emits (x := List.replicate (padLength pos align) 0) (fun w hw => ?_) ?_
  · have h := emitsAt_padByte hw.atEnd.inv.ready align 0
    rw [hw.pos, if_pos halign] at h
    exact ⟨_, h, fun bs hbs => (Option.some.inj hbs).symm⟩
  · rw [List.length_replicate]
    exact hf.mono fun _ _ _ _ hG _ => hG

theorem Puts.padRelative {start align : Int} (halign : 0 < align) (hstart : start ≤ pos)
    (hf : Puts S (f ()) ⟨pos + padLength (pos - start) align, be, long⟩ Q G) :
    Puts S (BinaryWriter.padRelative start align >>= f) ⟨pos, be, long⟩ Q G := by
  refine Puts.emits (x := List.replicate (padLength (pos - start) align) 0) (fun w hw => ?_) ?_
  · have h := emitsAt_padRelative hw.atEnd.inv.ready start align
    rw [hw.pos, if_pos ⟨halign, hstart⟩] at h
    exact ⟨_, h, fun bs hbs => (Option.some.inj hbs).symm⟩
  · rw [List.length_replicate]
    exact hf.mono fun _ _ _ _ hG _ => hG

theorem Puts.position {f : Nat → WriteM β} (hf : Puts S (f pos) ⟨pos, be, long⟩ Q G) :
    Puts S (peek BinaryWriter.position >>= f) ⟨pos, be, long⟩ Q G := by
  intro w w' u hw hrun
  rw [peek_bind_run, hw.pos] at hrun
  exact hf w w' u hw hrun

theorem Puts.setBigEndian {be' : Bool} (hf : Puts S (f ()) ⟨pos, be', long⟩ Q G) :
    Puts S (BinaryWriter.setBigEndian be' >>= f) ⟨pos, be, long⟩ Q G := by
  intro w w' v hw hrun
  obtain ⟨u, w1, hset, hf1⟩ := bind_eq_ok.1 hrun
  have hcall : (WriterCall.setBigEndian be').run .ascii w = (.ok u, w1) := hset
  obtain ⟨hw1, hmap, -, -, hfinal⟩ := hw.atEnd.forward (c := .setBigEndian be') trivial nofun hcall
  cases hset
  obtain ⟨st', hw', hQ, hG⟩ := hf _ w' v
    ⟨hw1, hw.pos, rfl, hw.varintLong, hw.granting, by rw [hmap]; exact hw.slots⟩ hf1
  exact ⟨st', hw', hQ, fun B hB => ⟨(hfinal B (hG B hB).1).1, (hG B hB).2⟩⟩

theorem Puts.setVarintLong {long' : Bool} (hf : Puts S (f ()) ⟨pos, be, long'⟩ Q G) :
    Puts S (BinaryWriter.setVarintLong long' >>= f) ⟨pos, be, long⟩ Q G := by
  intro w w' v hw hrun
  obtain ⟨u, w1, hset, hf1⟩ := bind_eq_ok.1 hrun
  have hcall : (WriterCall.setVarintLong long').run .ascii w = (.ok u, w1) := hset
  obtain ⟨hw1, hmap, -, -, hfinal⟩ := hw.atEnd.forward (c := .setVarintLong long') trivial nofun hcall
  cases hset
  obtain ⟨st', hw', hQ, hG⟩ := hf _ w' v
    ⟨hw1, hw.pos, hw.bigEndian, rfl, hw.granting, by rw [hmap]; exact hw.slots⟩ hf1
  exact ⟨st', hw', hQ, fun B hB => ⟨(hfinal B (hG B hB).1).1, (hG B hB).2⟩⟩

/-! ## Steps whose result is dropped -/

/-- A byte that is written without a look at the result is there if the allocator grants everything and there
    is room for it. -/
theorem Puts.dropped {v : UInt8} (hgranting : S.granting) (hfit : pos + 1 ≤ SIZE_MAX)
    (hf : Puts S (f ()) ⟨pos + 1, be, long⟩ Q fun u st B => Holds B pos [v] → G u st B) :
    Puts S ((attempt (writeU8 v) >>= fun _ => pure ()) >>= f) ⟨pos, be, long⟩ Q G := by
  refine Puts.emits (x := [v]) (fun w hw => ?_) hf
  have hpos : w.position = pos := hw.pos
  have h := emitsAt_writeBytes hw.atEnd.inv.ready [v]
  obtain ⟨w1, hrun, hwrote, hcalm⟩ := h.succeeds rfl (hw.granting hgranting) (fun _ => by rw [hpos]; exact hfit)
  have hdrop : (attempt (writeU8 v) >>= fun _ => pure ()) w = writeBytes [v] w := by
    rw [attempt_bind_run, writeU8, hrun]
    rfl
  exact ⟨some [v], h.congr hdrop, fun bs hbs => (Option.some.inj hbs).symm⟩

/-- The byte after it is written with a look at the result, and makes sure that there is room. -/
theorem Puts.droppedU8 {v u : UInt8} (hgranting : S.granting)
    (hf : Puts S (writeU8 u >>= f) ⟨pos + 1, be, long⟩ Q fun u st B => Holds B pos [v] → G u st B) :
    Puts S ((attempt (writeU8 v) >>= fun _ => pure ()) >>= fun _ => writeU8 u >>= f) ⟨pos, be, long⟩ Q G := by
  by_cases hfit : pos + 1 ≤ SIZE_MAX
  · exact Puts.dropped hgranting hfit hf
  · intro w w' a hw hrun
    have hpos : w.position = pos := hw.pos
    have hfull : ∀ b, writeU8 b w = (.error .outOfRange, w) :=
      writeU8_full hw.atEnd.inv.ready (by rw [hpos]; omega)
    rw [bind_assoc, attempt_bind_run, hfull v, pure_bind, bind_error (hfull u)] at hrun
    cases hrun

/-- A request to the allocator whose outcome is only looked at. -/
theorem Puts.asked {f : Except SfError (List UInt8) → WriteM β}
    (hf : ∀ e, Puts S (f e) ⟨pos, be, long⟩ Q G) :
    Puts S (attempt (BinaryWriter.onHeap Heap.alloc) >>= f) ⟨pos, be, long⟩ Q G := by
  have h : Puts S (BinaryWriter.onHeap (attempt Heap.alloc) >>= f) ⟨pos, be, long⟩ Q G :=
    Puts.onHeap Heap.alloc_keeps.attempt fun e _ => hf e
  exact h

/-! ## Optional steps -/

/-- A step that is only made under a condition: `n` bytes or none. -/
theorem Puts.given {c : Bool} {m : WriteM Unit} {n : Nat} {F : List UInt8 → Prop}
    (hm : c = true → Puts S m ⟨pos, be, long⟩ (fun _ st => st = ⟨pos + n, be, long⟩) fun _ _ => F)
    (hf : Puts S (f ()) ⟨pos + (if c then n else 0), be, long⟩ Q fun u st B => (c = true → F B) → G u st B) :
    Puts S (Fallible.given c () m >>= f) ⟨pos, be, long⟩ Q G := by
  cases c with
  | false => exact hf.mono fun _ _ _ B hG => hG nofun
  | true =>
      refine (hm rfl).seq fun _ st' hst' => ?_
      rw [hst']
      exact hf.mono fun _ _ _ B hG hF => hG fun _ => hF

/-! ## Slots -/

/-- A slot is reserved; if the format has it, this is where it belongs. -/
theorem Puts.reserveNamed {k : Scalar} {name : List UInt8}
    (haddr : ∀ s, S.key s = (name, scalarKind long k) → S.addr s = pos)
    (hf : Puts S (f ()) ⟨pos + kindWidth (scalarKind long k), be, long⟩ Q G) :
    Puts S (reserveScalar k name >>= f) ⟨pos, be, long⟩ Q G := by
  intro w w' v hw hrun
  obtain ⟨u, w1, hres, hf1⟩ := bind_eq_ok.1 hrun
  have hkeeps := reserveScalar_granting k name w
  rw [hres] at hkeeps
  have hlong : w.varintLong = long := hw.varintLong
  obtain ⟨hw1, hset, -, hmap, hpos, hback⟩ := hw.atEnd.reserve hres
  rw [hlong] at hmap hpos
  have hstand : Stand.Describes S ⟨pos + kindWidth (scalarKind long k), be, long⟩ w1 := by
    refine ⟨hw1, by rw [hpos, hw.pos], (congrArg Prod.fst hset).trans hw.bigEndian,
      (congrArg (fun s => s.2.1) hset).trans hw.varintLong, fun hS => hkeeps (hw.granting hS),
      fun s p hp => ?_⟩
    rw [hmap] at hp
    by_cases hs : S.key s = (name, scalarKind long k)
    · rw [hs, Function.update_self, hw.pos] at hp
      cases hp
      exact (haddr s hs).symm
    · rw [Function.update_of_ne hs] at hp
      exact hw.slots s p hp
  obtain ⟨st', hw', hQ, hG⟩ := hf w1 w' v hstand hf1
  exact ⟨st', hw', hQ, fun B hB => ⟨hback B (hG B hB).1, (hG B hB).2⟩⟩

/-- A slot is reserved where it belongs. -/
theorem Puts.reserve {k : Scalar} {name : List UInt8} (s : σ)
    (hs : S.key s = (name, scalarKind long k)) (haddr : S.addr s = pos)
    (hf : Puts S (f ()) ⟨pos + kindWidth (scalarKind long k), be, long⟩ Q G) :
    Puts S (reserveScalar k name >>= f) ⟨pos, be, long⟩ Q G :=
  Puts.reserveNamed (fun _ hs' => S.key_inj (hs'.trans hs.symm) ▸ haddr) hf

theorem Puts.reserveU32 {name : List UInt8} (s : σ) (hs : S.key s = (name, .u32))
    (haddr : S.addr s = pos) (hf : Puts S (f ()) ⟨pos + 4, be, long⟩ Q G) :
    Puts S (BinaryWriter.reserveU32 name >>= f) ⟨pos, be, long⟩ Q G :=
  Puts.reserve (k := .u32) s hs haddr hf

theorem Puts.reserveI32 {name : List UInt8} (s : σ) (hs : S.key s = (name, .i32))
    (haddr : S.addr s = pos) (hf : Puts S (f ()) ⟨pos + 4, be, long⟩ Q G) :
    Puts S (BinaryWriter.reserveI32 name >>= f) ⟨pos, be, long⟩ Q G :=
  Puts.reserve (k := .i32) s hs haddr hf

theorem Puts.reserveI64 {name : List UInt8} (s : σ) (hs : S.key s = (name, .i64))
    (haddr : S.addr s = pos) (hf : Puts S (f ()) ⟨pos + 8, be, long⟩ Q G) :
    Puts S (BinaryWriter.reserveI64 name >>= f) ⟨pos, be, long⟩ Q G :=
  Puts.reserve (k := .i64) s hs haddr hf

/-- A slot that is not among the slots of the format is reserved somewhere. -/
theorem Puts.reserveOther {k : Scalar} {name : List UInt8} (hs : ∀ s, S.key s ≠ (name, scalarKind long k))
    (hf : Puts S (f ()) ⟨pos + kindWidth (scalarKind long k), be, long⟩ Q G) :
    Puts S (reserveScalar k name >>= f) ⟨pos, be, long⟩ Q G :=
  Puts.reserveNamed (fun s' hs' => absurd hs' (hs s')) hf

/-- A slot that can be filled is filled where the format has it. -/
theorem Puts.fillNamed {k : Scalar} {name : List UInt8} {v : k.Value}
    (hf : Puts S (f ()) ⟨pos, be, long⟩ Q fun u st B =>
      (∀ s, S.key s = (name, scalarKind long k) → Holds B (S.addr s) (scalarBytes be long k v)) → G u st B) :
    Puts S (fillScalar k name v >>= f) ⟨pos, be, long⟩ Q G := by
  intro w w' u hw hrun
  obtain ⟨u1, w1, hfill, hf1⟩ := bind_eq_ok.1 hrun
  have hkeeps := fillScalar_granting k name v w
  rw [hfill] at hkeeps
  have hlong : w.varintLong = long := hw.varintLong
  have hbe : w.bigEndian = be := hw.bigEndian
  obtain ⟨hw1, hset, hpos, q, hq, hmap, hfinal⟩ := hw.atEnd.fill hfill
  rw [hlong] at hq hmap
  rw [hbe, hlong] at hfinal
  have hstand : Stand.Describes S ⟨pos, be, long⟩ w1 := by
    refine ⟨hw1, hpos.trans hw.pos, (congrArg Prod.fst hset).trans hw.bigEndian,
      (congrArg (fun s => s.2.1) hset).trans hw.varintLong, fun hS => hkeeps (hw.granting hS),
      fun s p hp => ?_⟩
    rw [hmap] at hp
    by_cases hs : S.key s = (name, scalarKind long k)
    · rw [hs, Function.update_self] at hp
      cases hp
    · rw [Function.update_of_ne hs] at hp
      exact hw.slots s p hp
  obtain ⟨st', hw', hQ, hG⟩ := hf w1 w' u hstand hf1
  refine ⟨st', hw', hQ, fun B hB => ?_⟩
  obtain ⟨hB1, hGB⟩ := hG B hB
  refine ⟨(hfinal B hB1).1, hGB fun s hs => ?_⟩
  rw [← hs] at hq
  rw [← hw.slots s q hq]
  exact (hfinal B hB1).2

/-- A slot of the format is filled where it belongs. -/
theorem Puts.fill {k : Scalar} {name : List UInt8} {v : k.Value} (s : σ)
    (hs : S.key s = (name, scalarKind long k))
    (hf : Puts S (f ()) ⟨pos, be, long⟩ Q
      fun u st B => Holds B (S.addr s) (scalarBytes be long k v) → G u st B) :
    Puts S (fillScalar k name v >>= f) ⟨pos, be, long⟩ Q G :=
  Puts.fillNamed (hf.mono fun _ _ _ _ hG hheld => hG (hheld s hs))

theorem Puts.fillOther {k : Scalar} {name : List UInt8} {v : k.Value} (hf : Puts S (f ()) ⟨pos, be, long⟩ Q G) :
    Puts S (fillScalar k name v >>= f) ⟨pos, be, long⟩ Q G :=
  Puts.fillNamed (hf.mono fun _ _ _ _ hG _ => hG)

theorem Puts.fillU32 {name : List UInt8} {v : UInt32} (s : σ) (hs : S.key s = (name, .u32))
    (hf : Puts S (f ()) ⟨pos, be, long⟩ Q
      fun u st B => Holds B (S.addr s) (wordBytes be 4 v.toNat) → G u st B) :
    Puts S (BinaryWriter.fillU32 name v >>= f) ⟨pos, be, long⟩ Q G := Puts.fill (k := .u32) s hs hf

theorem Puts.fillI32 {name : List UInt8} {v : Int32} (s : σ) (hs : S.key s = (name, .i32))
    (hf : Puts S (f ()) ⟨pos, be, long⟩ Q
      fun u st B => Holds B (S.addr s) (wordBytes be 4 v.toUInt32.toNat) → G u st B) :
    Puts S (BinaryWriter.fillI32 name v >>= f) ⟨pos, be, long⟩ Q G := Puts.fill (k := .i32) s hs hf

theorem Puts.fillI64 {name : List UInt8} {v : Int64} (s : σ) (hs : S.key s = (name, .i64))
    (hf : Puts S (f ()) ⟨pos, be, long⟩ Q
      fun u st B => Holds B (S.addr s) (wordBytes be 8 v.toUInt64.toNat) → G u st B) :
    Puts S (BinaryWriter.fillI64 name v >>= f) ⟨pos, be, long⟩ Q G := Puts.fill (k := .i64) s hs hf

/-! ## Texts -/

variable {os : Win32} {t : List UInt8}

theorem Puts.utf16 (ht : ∀ b ∈ t, b ≠ 0)
    (hf : Puts S (f ()) ⟨pos + (storedText os true be t).length, be, long⟩ Q
      fun u st B => Holds B pos (storedText os true be t) → G u st B) :
    Puts S (writeUtf16 os (some t) true >>= f) ⟨pos, be, long⟩ Q G := by
  refine Puts.emits (fun w hw => ?_) hf
  have hbe : w.bigEndian = be := hw.bigEndian
  rw [← hbe]
  exact emitsAt_writeUtf16 ht hw.atEnd.inv.ready

theorem Puts.shiftJis (ht : ∀ b ∈ t, b ≠ 0)
    (hf : Puts S (f ()) ⟨pos + (storedText os false be t).length, be, long⟩ Q
      fun u st B => Holds B pos (storedText os false be t) → G u st B) :
    Puts S (writeShiftJis os (some t) true >>= f) ⟨pos, be, long⟩ Q G := by
  refine Puts.emits (fun w hw => ?_) hf
  have hbe : w.bigEndian = be := hw.bigEndian
  rw [← hbe]
  exact emitsAt_writeShiftJis ht hw.atEnd.inv.ready

/-- The field of a text of at most `n` bytes. -/
theorem Puts.fixStr {n : Nat} (hn : 0 < n) (ht : ∀ b ∈ t, b ≠ 0) (hlen : (os.encoded .shiftJis t).length ≤ n)
    (hf : Puts S (f ()) ⟨pos + n, be, long⟩ Q
      fun u st B => Holds B pos (fixedText os n t) → G u st B) :
    Puts S (writeFixStr os (some t) n 0 >>= f) ⟨pos, be, long⟩ Q G := by
  refine Puts.emits (x := fixedText os n t) (fun w hw => ?_) ?_
  · exact emitsAt_writeFixStr hn ht hlen hw.atEnd.inv.ready
  · rwa [length_fixedText hlen]

/-- A magic. -/
theorem Puts.ascii (hos : os.AsciiCompatible) (ht : Win32.isPlain t = true)
    (hf : Puts S (f ()) ⟨pos + t.length, be, long⟩ Q fun u st B => Holds B pos t → G u st B) :
    Puts S (writeAscii os (some t) false >>= f) ⟨pos, be, long⟩ Q G := by
  obtain ⟨hascii, hnul⟩ := Win32.isPlain_iff.1 ht
  refine Puts.emits (fun w hw => ?_) hf
  refine ⟨_, emitsAt_writeStr hw.atEnd.inv.ready (fun _ => utf8ToMbcs_steady os .usAscii) (some t) false,
    fun bs hbs => ?_⟩
  rw [granted_utf8ToMbcs hnul hbs, hos.encoded hascii]
  simp

end

/-! ## Loops -/

/-- The rule of a loop over a list: `I i` holds of the stand before the `i`-th round, and what the
    rounds put into the file stays there. -/
theorem puts_forIndexed {γ : Type} {f : Nat → γ → WriteM Unit} (I : Nat → Stand → Prop)
    {F : Nat → γ → List UInt8 → Prop} (l : List γ)
    (hstep : ∀ i a st, l[i]? = some a → I i st →
      Puts S (f i a) st (fun _ => I (i + 1)) fun _ _ B => F i a B) (hI : I 0 st) :
    Puts S (forIndexed f 0 l) st (fun _ => I l.length)
      fun _ _ B => ∀ i a, l[i]? = some a → F i a B := by
  suffices h : ∀ (rest : List γ) (k : Nat) (st : Stand), l.drop k = rest → I k st →
      Puts S (forIndexed f k rest) st (fun _ => I (k + rest.length)) fun _ _ B =>
        ∀ i a, rest[i]? = some a → F (k + i) a B by
    have h0 := h l 0 st rfl hI
    rw [Nat.zero_add] at h0
    exact h0.mono fun _ _ _ B hB i a ha => by simpa using hB i a ha
  intro rest
  induction rest with
  | nil =>
      intro k st _ hk
      exact Puts.done hk fun B i a ha => by simp at ha
  | cons a rest ih =>
      intro k st hdrop hk
      have ha : l[k]? = some a := by
        rw [← Nat.add_zero k, ← List.getElem?_drop, hdrop]
        rfl
      refine (hstep k a st ha hk).seq fun _ st' hk' => ?_
      have hrest := ih (k + 1) st' (by rw [← List.drop_drop, hdrop]; rfl) hk'
      rw [Nat.add_right_comm, Nat.add_assoc] at hrest
      refine hrest.mono fun _ _ _ B hB hfirst i b hb => ?_
      cases i with
      | zero =>
          cases hb
          exact hfirst
      | succ i =>
          have h := hB i b hb
          rwa [Nat.add_right_comm, Nat.add_assoc] at h

/-! ## One stand -/

/-- If `m` succeeds from `st`, its value is `a`, it comes to `st'` and the final file satisfies `F`. -/
abbrev Lays (S : FileSlots σ) (m : WriteM α) (st : Stand) (a : α) (st' : Stand) (F : List UInt8 → Prop) : Prop :=
  Puts S m st (fun v s => v = a ∧ s = st') fun _ _ => F

/-- From `st` on, `m` writes the bytes `x`. -/
abbrev Emits (S : FileSlots σ) (m : WriteM Unit) (st : Stand) (x : List UInt8) : Prop :=
  Lays S m st () (st.advance x.length) fun B => Holds B st.pos x

section

variable {a : α} {st1 : Stand} {F : List UInt8 → Prop} {x y : List UInt8}

theorem Lays.seq (hm : Lays S m st a st1 F) (hf : Puts S (f a) st1 Q fun u st2 B => F B → G u st2 B) :
    Puts S (m >>= f) st Q G := by
  refine Puts.seq hm ?_
  rintro _ _ ⟨rfl, rfl⟩
  exact hf

theorem Lays.mono {F1 : List UInt8 → Prop} (hm : Lays S m st a st1 F) (h : ∀ B, F B → F1 B) : Lays S m st a st1 F1 :=
  Puts.mono hm fun _ _ _ => h

/-- Two emissions, one after the other. -/
theorem Lays.emits {m : WriteM Unit} {f : Unit → WriteM Unit} (hm : Emits S m st x)
    (hf : Emits S (f ()) (st.advance x.length) y) : Emits S (m >>= f) st (x ++ y) := by
  have hend : (st.advance x.length).advance y.length = st.advance (x ++ y).length := by
    rw [Stand.advance_advance, List.length_append]
  exact Lays.seq hm (hf.conseq fun _ _ hv => ⟨⟨hv.1, hv.2.trans hend⟩, fun B hB hfirst => holds_append.2 ⟨hfirst, hB⟩⟩)

theorem emits_pure (st : Stand) : Emits S (pure ()) st [] :=
  Puts.here (Puts.done ⟨rfl, rfl⟩ fun _ hle => holds_nil.2 hle)

theorem emits_scalar (k : Scalar) (v : k.Value) (st : Stand) :
    Emits S (writeScalar k v) st (scalarBytes st.bigEndian st.varintLong k v) :=
  Puts.last (Puts.scalar k (Puts.done ⟨rfl, by rw [length_scalarBytes]; rfl⟩ fun _ hB => hB))

theorem emits_bytes (x : List UInt8) (st : Stand) : Emits S (writeBytes x) st x :=
  Puts.last (Puts.bytes (Puts.done ⟨rfl, rfl⟩ fun _ hB => hB))

/-- The loop comes to `P i` before its `i`-th round. -/
theorem lays_forIndexed {γ : Type} {f : Nat → γ → WriteM Unit} {P : Nat → Stand} {F : Nat → γ → List UInt8 → Prop}
    (l : List γ) (hstep : ∀ i a, l[i]? = some a → Lays S (f i a) (P i) () (P (i + 1)) (F i a)) :
    Lays S (forIndexed f 0 l) (P 0) () (P l.length) fun B => ∀ i a, l[i]? = some a → F i a B := by
  refine (puts_forIndexed (S := S) (fun i st => st = P i) l (fun i a st ha hst => ?_) rfl).conseq
    fun _ _ hst => ⟨⟨rfl, hst⟩, fun _ => id⟩
  subst hst
  exact (hstep i a ha).conseq fun _ _ hv => ⟨hv.2, fun _ => id⟩

/-- A loop that writes each element as bytes. -/
theorem emits_forIndexed {γ : Type} {f : Nat → γ → WriteM Unit} {bytes : γ → List UInt8} (l : List γ)
    (hf : ∀ a ∈ l, ∀ i n, Emits S (f i a) (st.advance n) (bytes a)) (k : Nat) :
    Emits S (forIndexed f k l) st (l.flatMap bytes) := by
  induction l generalizing st k with
  | nil => exact emits_pure st
  | cons a l ih =>
      have hfirst := hf a List.mem_cons_self k 0
      rw [Stand.advance_zero] at hfirst
      refine hfirst.emits (ih (fun b hb i n => ?_) (k + 1))
      rw [Stand.advance_advance]
      exact hf b (List.mem_cons_of_mem a hb) i _

end

/-- The places that the rounds of a loop have chosen. -/
theorem exists_places {γ π : Type} [Inhabited π] {l : List γ} {F : Nat → γ → π → Prop}
    (h : ∀ i a, l[i]? = some a → ∃ p, F i a p) : ∃ p : Nat → π, ∀ i a, l[i]? = some a → F i a (p i) := by
  have hchoice : ∀ i, ∃ p, ∀ a, l[i]? = some a → F i a p := by
    intro i
    rcases ha : l[i]? with _ | a
    · exact ⟨default, nofun⟩
    · obtain ⟨p, hp⟩ := h i a ha
      exact ⟨p, fun b hb => by cases hb; exact hp⟩
  exact Classical.skolem.1 hchoice

/-! ## The whole file -/

/-- What a writer over an empty stream ends with is the final file. -/
theorem Puts.content {body : WriteM Unit} {be : Bool} {P : Unit → Stand → Prop}
    {F : Unit → Stand → List UInt8 → Prop} (h : Puts S body ⟨0, be, false⟩ P F) {s : OStream}
    (hempty : s.memSize = 0) (hpos : s.memPos = 0) (hgranting : S.granting → s.heap.Calm)
    {w' : BinaryWriter} (hrun : body (createOver s be) = (.ok (), w')) :
    ∃ st, P () st ∧ F () st w'.content ∧ w'.content.length = st.pos ∧ w'.content.length ≤ SIZE_MAX := by
  have hstart : Stand.Describes S ⟨0, be, false⟩ (createOver s be) :=
    ⟨atEnd_createOver hempty hpos be, hpos, rfl, rfl, hgranting, fun s p hp => by cases hp⟩
  obtain ⟨st, hw', hP, hfinal⟩ := h _ _ _ hstart hrun
  have hlen := length_content hw'.atEnd.inv.ready.1
  refine ⟨st, hP, (hfinal _ (becomes_self hw'.atEnd)).2, ?_, hlen.trans_le hw'.atEnd.inv.fits⟩
  rw [hlen, ← hw'.atEnd.position, hw'.pos]

/-- **What a successful `_write_to_memory` returns is the final file.** -/
theorem Puts.toMemory {body : WriteM Unit} {be : Bool} {P : Unit → Stand → Prop}
    {F : Unit → Stand → List UInt8 → Prop} (h : Puts S body ⟨0, be, false⟩ P F) {heap : Heap}
    {out : List UInt8} (hgranting : S.granting → heap.Calm)
    (hok : (writeToMemory be body heap).1 = .ok out) :
    ∃ st, P () st ∧ F () st out ∧ out.length = st.pos ∧ out.length ≤ SIZE_MAX := by
  obtain ⟨heap', w', hrun, rfl, -, hcalm⟩ := writeToMemory_ok hok
  exact h.content rfl rfl (fun hS => hcalm (hgranting hS)) hrun

/-- The same where room is asked for first, and the block of the stream is handed out. -/
theorem Puts.detached {body : WriteM Unit} {be : Bool} {P : Unit → Stand → Prop}
    {F : Unit → Stand → List UInt8 → Prop} (h : Puts S body ⟨0, be, false⟩ P F) {heap : Heap}
    {out : List UInt8} {estimate : Nat} (hgranting : S.granting → heap.Calm)
    (hok : (writeDetached estimate be body heap).1 = .ok out) :
    ∃ st, P () st ∧ F () st out ∧ out.length = st.pos ∧ out.length ≤ SIZE_MAX := by
  have hrun : writeDetached estimate be body heap = (.ok out, (writeDetached estimate be body heap).2) :=
    Prod.ext hok rfl
  obtain ⟨junk, h1, halloc, hrun⟩ := bind_eq_ok.1 hrun
  have hcalm : S.granting → h1.Calm := by
    intro hS
    have hkept := Heap.alloc_keeps _ (hgranting hS)
    rwa [halloc] at hkept
  -- the room that was reserved is no content
  have hstream : ∃ s : OStream, s.memSize = 0 ∧ s.memPos = 0 ∧ (h1.Calm → s.heap.Calm) ∧
      (if estimate ≠ SIZE_MAX then (OStream.reserve estimate (OStream.openMemory h1)).2
      else OStream.openMemory h1) = s := by
    split
    · have hheap := memGrow_granting estimate (OStream.openMemory h1)
      obtain ⟨fresh, h, hkeeps⟩ := OStream.reserve_keeps (OStream.openMemory h1) estimate
      refine ⟨_, rfl, rfl, fun hcalm => ?_, hkeeps⟩
      have hreserve : (OStream.reserve estimate (OStream.openMemory h1)).2.heap.Calm := by
        rw [OStream.reserve, state_bind_run]
        split
        · exact hcalm
        · exact hheap hcalm
      rwa [hkeeps] at hreserve
    · exact ⟨_, rfl, rfl, fun hcalm => hcalm, rfl⟩
  obtain ⟨s, hempty, hpos, hheap, hs⟩ := hstream
  simp only [hs] at hrun
  obtain ⟨_, w0, _, halloc', hrest⟩ := bind_fst_eq_ok (Prod.mk.inj hrun).1
  obtain ⟨_, w1, hbody, hfinish⟩ := bind_eq_ok.1 hrest
  obtain ⟨_, w2, hclose, hpeek⟩ := bind_eq_ok.1 hfinish
  have hputs : Puts S (BinaryWriter.onHeap Heap.alloc >>= fun _ => body) ⟨0, be, false⟩ P F :=
    Puts.alloc fun _ => h
  have hcontent : out = w1.content := by
    cases hpeek
    rw [finish, state_bind_run] at hclose
    by_cases hlive : 0 < w1.resLive
    · rw [check_bind_neg (not_not.2 hlive)] at hclose
      cases hclose
    · rw [check_bind_pos hlive] at hclose
      cases hclose
      rfl
  rw [hcontent]
  exact hputs.content hempty hpos (fun hS => hheap (hcalm hS)) (by rw [bind_ok halloc', hbody])

end BinaryWriter

end SoulsFormats
