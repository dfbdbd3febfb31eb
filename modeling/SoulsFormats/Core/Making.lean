import SoulsFormats.Core.Layout

set_option autoImplicit false

/-! # Writers that succeed

`Puts` speaks of the runs that succeed. `Makes` says that there is one: where the allocator grants
everything and the file stays small, a write succeeds, a slot can be reserved if it is not live and filled
if it is. What it says of the final file is what `Puts` says. -/

namespace SoulsFormats

open Bytes Fallible

namespace BinaryWriter

/-- For statements that say nothing of the slots. -/
def noSlots : FileSlots Empty where
  key := nofun
  addr := nofun
  key_inj := nofun

/-- Positions up to which the table of reservations can grow. -/
def fileRoom : Nat := 2 ^ 40

variable {σ α β : Type} {S : FileSlots σ}

/-- The allocator grants everything, the live slots are these, and their table is small. -/
structure Room (S : FileSlots σ) (live : Set σ) (w : BinaryWriter) : Prop where
  granting : w.Granting
  live : ∀ k, w.reserved k ≠ none ↔ ∃ s ∈ live, S.key s = k
  sized : Sized w.position w

/-- From `st`, with these slots live, `m` succeeds, and it comes to a stand with `P`. The final file
    satisfies `F`. -/
def Makes (S : FileSlots σ) (m : WriteM α) (st : Stand) (live : Set σ) (P : α → Stand → Set σ → Prop)
    (F : α → Stand → List UInt8 → Prop) : Prop :=
  ∀ w : BinaryWriter, st.Describes S w → Room S live w → ∃ v w' st' live', m w = (.ok v, w') ∧
    st'.Describes S w' ∧ Room S live' w' ∧ P v st' live' ∧
    ∀ B, Becomes (fun _ => False) w' B → Becomes (fun _ => False) w B ∧ F v st' B

variable {m : WriteM α} {f : α → WriteM β} {st : Stand} {live : Set σ} {P P1 : α → Stand → Set σ → Prop}
  {Q : β → Stand → Set σ → Prop} {F F1 : α → Stand → List UInt8 → Prop} {G : β → Stand → List UInt8 → Prop}

/-! ## Composition -/

theorem Makes.done {a : α} (hP : P a st live) (hF : ∀ B, F a st B) : Makes S (pure a) st live P F :=
  fun w hw hroom => ⟨a, w, st, live, rfl, hw, hroom, hP, fun B hB => ⟨hB, hF B⟩⟩

/-- What `m` puts into the file is at hand for what the rest must show of it. -/
theorem Makes.seq (hm : Makes S m st live P F)
    (hf : ∀ v st' live', P v st' live' → Makes S (f v) st' live' Q fun u st2 B => F v st' B → G u st2 B) :
    Makes S (m >>= f) st live Q G := by
  intro w hw hroom
  obtain ⟨v, w1, st1, live1, hrun1, hw1, hroom1, hP, hF⟩ := hm w hw hroom
  obtain ⟨u, w2, st2, live2, hrun2, hw2, hroom2, hQ, hG⟩ := hf v st1 live1 hP w1 hw1 hroom1
  refine ⟨u, w2, st2, live2, by rw [bind_ok hrun1, hrun2], hw2, hroom2, hQ, fun B hB => ?_⟩
  obtain ⟨hB1, hFG⟩ := hG B hB
  obtain ⟨hB0, hFB⟩ := hF B hB1
  exact ⟨hB0, hFG hFB⟩

theorem Makes.conseq (hm : Makes S m st live P F)
    (h : ∀ v st' live', P v st' live' → P1 v st' live' ∧ ∀ B, F v st' B → F1 v st' B) :
    Makes S m st live P1 F1 := by
  intro w hw hroom
  obtain ⟨v, w', st', live', hrun, hw', hroom', hP, hF⟩ := hm w hw hroom
  obtain ⟨hP1, hF1⟩ := h v st' live' hP
  exact ⟨v, w', st', live', hrun, hw', hroom', hP1, fun B hB => ⟨(hF B hB).1, hF1 B (hF B hB).2⟩⟩

theorem Makes.mono (hm : Makes S m st live P F)
    (h : ∀ v st' live', P v st' live' → ∀ B, F v st' B → F1 v st' B) : Makes S m st live P F1 :=
  hm.conseq fun v st' live' hP => ⟨hP, h v st' live' hP⟩

/-- A step at the end of a block is one before nothing. -/
theorem Makes.last (h : Makes S (m >>= pure) st live P F) : Makes S m st live P F := by
  rwa [bind_pure] at h

/-- The final file reaches at least where the writer stands. -/
theorem Makes.here (hm : Makes S m st live P fun v st' B => st.pos ≤ B.length → F v st' B) :
    Makes S m st live P F := by
  intro w hw hroom
  obtain ⟨v, w', st', live', hrun, hw', hroom', hP, hF⟩ := hm w hw hroom
  refine ⟨v, w', st', live', hrun, hw', hroom', hP, fun B hB => ?_⟩
  obtain ⟨hB0, hFB⟩ := hF B hB
  exact ⟨hB0, hFB (by rw [← hw.pos, hw.atEnd.position]; exact hB0.1)⟩

theorem Makes.check {p : Prop} [Decidable p] {e : SfError} {f : Unit → WriteM β} (hp : p)
    (hf : Makes S (f ()) st live Q G) : Makes S (Fallible.check p e >>= f) st live Q G := by
  intro w hw hroom
  rw [check_bind_pos hp]
  exact hf w hw hroom

/-! ## Steps

What a step puts into the file is what `Puts` says of it; here it is shown to succeed. -/

/-- A step that succeeds and of which `Puts` says what it does. -/
theorem Makes.step (live' : Set σ) {P : α → Stand → Prop} (hputs : Puts S m st P F)
    (hruns : ∀ w : BinaryWriter, st.Describes S w → Room S live w → ∃ v w', m w = (.ok v, w') ∧ Room S live' w')
    (hf : ∀ v st', P v st' → Makes S (f v) st' live' Q fun u st2 B => F v st' B → G u st2 B) :
    Makes S (m >>= f) st live Q G := by
  intro w hw hroom
  obtain ⟨v, w1, hrun1, hroom1⟩ := hruns w hw hroom
  obtain ⟨st1, hw1, hP, hF⟩ := hputs w w1 v hw hrun1
  obtain ⟨u, w2, st2, live2, hrun2, hw2, hroom2, hQ, hG⟩ := hf v st1 hP w1 hw1 hroom1
  refine ⟨u, w2, st2, live2, by rw [bind_ok hrun1, hrun2], hw2, hroom2, hQ, fun B hB => ?_⟩
  obtain ⟨hB1, hFG⟩ := hG B hB
  obtain ⟨hB0, hFB⟩ := hF B hB1
  exact ⟨hB0, hFG hFB⟩

section

variable {pos : Nat} {be long : Bool} {f : Unit → WriteM β}

/-- The value of an allocation is of no interest. -/
theorem Makes.alloc {f : List UInt8 → WriteM β} (hf : ∀ junk, Makes S (f junk) st live Q G) :
    Makes S (BinaryWriter.onHeap Heap.alloc >>= f) st live Q G := by
  have hputs : Puts S (BinaryWriter.onHeap Heap.alloc) st (fun _ st' => st' = st) fun _ _ _ => True :=
    Puts.last (Puts.alloc fun _ => Puts.done rfl fun _ => trivial)
  refine Makes.step live hputs (fun w _ hroom => ?_) fun junk st' hst => ?_
  · obtain ⟨junk, h', halloc, hcalm⟩ := Heap.alloc_calm hroom.granting
    refine ⟨junk, { w with stream := { w.stream with heap := h' } }, ?_, hcalm, hroom.live, hroom.sized⟩
    rw [BinaryWriter.onHeap, onStream, zoom_run, zoom_run, halloc]
  · rw [hst]
    exact (hf junk).mono fun _ _ _ _ _ hG _ => hG

/-- A step that writes some bytes at the end. -/
theorem Makes.emits {m : WriteM Unit} {x : List UInt8} (hfit : pos + x.length ≤ fileRoom)
    (hm : ∀ w : BinaryWriter, Stand.Describes S ⟨pos, be, long⟩ w → EmitsAt w m (some x))
    (hf : Makes S (f ()) ⟨pos + x.length, be, long⟩ live Q fun u st B => Holds B pos x → G u st B) :
    Makes S (m >>= f) ⟨pos, be, long⟩ live Q G := by
  have hputs : Puts S m ⟨pos, be, long⟩ (fun _ st => st = ⟨pos + x.length, be, long⟩) fun _ _ B => Holds B pos x :=
    Puts.last (Puts.emits (fun w hw => ⟨_, hm w hw, fun _ hbs => (Option.some.inj hbs).symm⟩)
      (Puts.done rfl fun _ hB => hB))
  refine Makes.step live hputs (fun w hw hroom => ?_) fun _ st' hst => by rwa [hst]
  have hpos : w.position = pos := hw.pos
  have hroom' : pos + x.length ≤ SIZE_MAX := hfit.trans (by decide)
  obtain ⟨w1, hrun, hwrote, hcalm⟩ := (hm w hw).succeeds rfl hroom.granting fun _ => by rwa [hpos]
  obtain ⟨-, hmap, -⟩ := hw.atEnd.wrote hwrote
  obtain ⟨hused, hcap⟩ := hroom.sized
  have hnext : w1.position = w.position + x.length := hwrote.position
  refine ⟨(), w1, hrun, hcalm, by rw [hmap]; exact hroom.live, ?_, ?_⟩
  · rw [hwrote.resUsed]
    omega
  · rw [resCap, hwrote.resSlots]
    rw [resCap] at hcap
    omega

theorem Makes.scalar (k : Scalar) {v : k.Value} (hfit : pos + kindWidth (scalarKind long k) ≤ fileRoom)
    (hf : Makes S (f ()) ⟨pos + kindWidth (scalarKind long k), be, long⟩ live Q
      fun u st B => Holds B pos (scalarBytes be long k v) → G u st B) :
    Makes S (writeScalar k v >>= f) ⟨pos, be, long⟩ live Q G := by
  refine Makes.emits (x := scalarBytes be long k v) (by rwa [length_scalarBytes]) (fun w hw => ?_) ?_
  · have h := emitsAt_writeScalar hw.atEnd.inv.ready k v
    rwa [hw.bigEndian, hw.varintLong] at h
  · rwa [length_scalarBytes]

theorem Makes.u8 {v : UInt8} (hfit : pos + 1 ≤ fileRoom)
    (hf : Makes S (f ()) ⟨pos + 1, be, long⟩ live Q fun u st B => Holds B pos [v] → G u st B) :
    Makes S (writeU8 v >>= f) ⟨pos, be, long⟩ live Q G := Makes.scalar .u8 hfit hf

theorem Makes.u16 {v : UInt16} (hfit : pos + 2 ≤ fileRoom)
    (hf : Makes S (f ()) ⟨pos + 2, be, long⟩ live Q fun u st B => Holds B pos (wordBytes be 2 v.toNat) → G u st B) :
    Makes S (writeU16 v >>= f) ⟨pos, be, long⟩ live Q G := Makes.scalar .u16 hfit hf

theorem Makes.i16 {v : Int16} (hfit : pos + 2 ≤ fileRoom)
    (hf : Makes S (f ()) ⟨pos + 2, be, long⟩ live Q fun u st B =>
      Holds B pos (wordBytes be 2 v.toUInt16.toNat) → G u st B) :
    Makes S (writeI16 v >>= f) ⟨pos, be, long⟩ live Q G := Makes.scalar .i16 hfit hf

theorem Makes.u32 {v : UInt32} (hfit : pos + 4 ≤ fileRoom)
    (hf : Makes S (f ()) ⟨pos + 4, be, long⟩ live Q
      fun u st B => Holds B pos (wordBytes be 4 v.toNat) → G u st B) :
    Makes S (writeU32 v >>= f) ⟨pos, be, long⟩ live Q G := Makes.scalar .u32 hfit hf

theorem Makes.i32 {v : Int32} (hfit : pos + 4 ≤ fileRoom)
    (hf : Makes S (f ()) ⟨pos + 4, be, long⟩ live Q
      fun u st B => Holds B pos (wordBytes be 4 v.toUInt32.toNat) → G u st B) :
    Makes S (writeI32 v >>= f) ⟨pos, be, long⟩ live Q G := Makes.scalar .i32 hfit hf

theorem Makes.bytes {x : List UInt8} (hfit : pos + x.length ≤ fileRoom)
    (hf : Makes S (f ()) ⟨pos + x.length, be, long⟩ live Q fun u st B => Holds B pos x → G u st B) :
    Makes S (writeBytes x >>= f) ⟨pos, be, long⟩ live Q G :=
  Makes.emits hfit (fun _ hw => emitsAt_writeBytes hw.atEnd.inv.ready x) hf

/-- After a pad the position is a little further on. -/
theorem Makes.pad {align : Int} (halign : 0 < align) (hfit : pos + align.toNat ≤ fileRoom)
    (hf : ∀ n < align.toNat, Makes S (f ()) ⟨pos + n, be, long⟩ live Q G) :
    Makes S (BinaryWriter.pad align >>= f) ⟨pos, be, long⟩ live Q G := by
  have hshort : padLength pos align < align.toNat := by
    unfold padLength
    have hmod := Int.emod_nonneg (pos : Int) halign.ne'
    split <;> omega
  refine Makes.emits (x := List.replicate (padLength pos align) 0) (by rw [List.length_replicate]; omega)
    (fun w hw => ?_) ?_
  · have h := emitsAt_padByte hw.atEnd.inv.ready align 0
    rwa [hw.pos, if_pos halign] at h
  · rw [List.length_replicate]
    exact (hf _ hshort).mono fun _ _ _ _ _ hG _ => hG

theorem Makes.position {f : Nat → WriteM β} (hf : Makes S (f pos) ⟨pos, be, long⟩ live Q G) :
    Makes S (peek BinaryWriter.position >>= f) ⟨pos, be, long⟩ live Q G := by
  intro w hw hroom
  rw [peek_bind_run, hw.pos]
  exact hf w hw hroom

theorem Makes.setVarintLong {long' : Bool} (hf : Makes S (f ()) ⟨pos, be, long'⟩ live Q G) :
    Makes S (BinaryWriter.setVarintLong long' >>= f) ⟨pos, be, long⟩ live Q G := by
  have hputs : Puts S (BinaryWriter.setVarintLong long') ⟨pos, be, long⟩ (fun _ st => st = ⟨pos, be, long'⟩)
      fun _ _ _ => True := Puts.last (Puts.setVarintLong (Puts.done rfl fun _ => trivial))
  refine Makes.step live hputs (fun w _ hroom => ⟨(), { w with varintLong := long' }, rfl, hroom.granting, hroom.live,
    hroom.sized⟩) fun _ st' hst => ?_
  rw [hst]
  exact hf.mono fun _ _ _ _ _ hG _ => hG

/-! ## Slots -/

/-- A slot that is not live is reserved where it belongs. -/
theorem Makes.reserve {k : Scalar} {name : List UInt8} (s : σ) (hs : S.key s = (name, scalarKind long k))
    (haddr : S.addr s = pos) (hfree : s ∉ live) (hfit : pos + kindWidth (scalarKind long k) ≤ fileRoom)
    (hf : Makes S (f ()) ⟨pos + kindWidth (scalarKind long k), be, long⟩ (insert s live) Q G) :
    Makes S (reserveScalar k name >>= f) ⟨pos, be, long⟩ live Q G := by
  have hputs : Puts S (reserveScalar k name) ⟨pos, be, long⟩
      (fun _ st => st = ⟨pos + kindWidth (scalarKind long k), be, long⟩) fun _ _ _ => True :=
    Puts.last (Puts.reserve s hs haddr (Puts.done rfl fun _ => trivial))
  refine Makes.step (insert s live) hputs (fun w hw hroom => ?_) fun _ st' hst => by
    rw [hst]
    exact hf.mono fun _ _ _ _ _ hG _ => hG
  have hlong : w.varintLong = long := hw.varintLong
  have hpos : w.position = pos := hw.pos
  have hwidth := kindWidth_pos (scalarKind long k)
  have hlimit : fileRoom = 2 ^ 40 := rfl
  have hmax : SIZE_MAX = 2 ^ 64 - 1 := rfl
  obtain ⟨w1, hinv, hset, hsized, ⟨hrun, -, hmap, -, hnext, -⟩ | ⟨e, -, -, -, -, herr⟩⟩ :=
    reserveScalar_spec hw.atEnd.inv k name
  · rw [hlong, ← hs] at hmap
    rw [hlong] at hnext
    have hkeeps := reserveScalar_granting k name w hroom.granting
    rw [hrun] at hkeeps
    obtain ⟨hused, hcap⟩ := hsized w.position hroom.sized
    refine ⟨(), w1, hrun, hkeeps, fun key => ?_, by omega, by omega⟩
    rw [hmap]
    by_cases hkey : key = S.key s
    · subst hkey
      simp
    · rw [Function.update_of_ne hkey, hroom.live]
      simp only [Set.mem_insert_iff, exists_eq_or_imp]
      exact ⟨fun h => .inr h, fun h => h.resolve_left fun heq => hkey heq.symm⟩
  · exfalso
    rw [hlong, ← hs] at herr
    cases herr with
    | live h =>
        obtain ⟨s', hs', hkey⟩ := (hroom.live _).1 h
        rw [S.key_inj hkey] at hs'
        exact hfree hs'
    | refused h => exact h hroom.granting
    | tooManySlots h =>
        have hcap := hroom.sized.2
        omega
    | tooFar h =>
        rw [hs] at h
        simp only at h
        omega

theorem Makes.reserveU32 {name : List UInt8} (s : σ) (hs : S.key s = (name, .u32)) (haddr : S.addr s = pos)
    (hfree : s ∉ live) (hfit : pos + 4 ≤ fileRoom)
    (hf : Makes S (f ()) ⟨pos + 4, be, long⟩ (insert s live) Q G) :
    Makes S (BinaryWriter.reserveU32 name >>= f) ⟨pos, be, long⟩ live Q G :=
  Makes.reserve (k := .u32) s hs haddr hfree hfit hf

theorem Makes.reserveI32 {name : List UInt8} (s : σ) (hs : S.key s = (name, .i32)) (haddr : S.addr s = pos)
    (hfree : s ∉ live) (hfit : pos + 4 ≤ fileRoom)
    (hf : Makes S (f ()) ⟨pos + 4, be, long⟩ (insert s live) Q G) :
    Makes S (BinaryWriter.reserveI32 name >>= f) ⟨pos, be, long⟩ live Q G :=
  Makes.reserve (k := .i32) s hs haddr hfree hfit hf

/-- A slot that is live is filled where it belongs. -/
theorem Makes.fill {k : Scalar} {name : List UInt8} {v : k.Value} (s : σ)
    (hs : S.key s = (name, scalarKind long k)) (hlive : s ∈ live)
    (hf : Makes S (f ()) ⟨pos, be, long⟩ (live \ {s}) Q
      fun u st B => Holds B (S.addr s) (scalarBytes be long k v) → G u st B) :
    Makes S (fillScalar k name v >>= f) ⟨pos, be, long⟩ live Q G := by
  have hputs : Puts S (fillScalar k name v) ⟨pos, be, long⟩ (fun _ st => st = ⟨pos, be, long⟩)
      fun _ _ B => Holds B (S.addr s) (scalarBytes be long k v) :=
    Puts.last (Puts.fill s hs (Puts.done rfl fun _ hB => hB))
  refine Makes.step (live \ {s}) hputs (fun w hw hroom => ?_) fun _ st' hst => by rwa [hst]
  have hlong : w.varintLong = long := hw.varintLong
  obtain ⟨w1, -, -, hsized, hpos, -, ⟨p, hrun, -, hmap, -⟩ | ⟨e, -, -, -, hcases⟩⟩ :=
    fillScalar_spec hw.atEnd.inv k name v
  · rw [hlong, ← hs] at hmap
    have hkeeps := fillScalar_granting k name v w hroom.granting
    rw [hrun] at hkeeps
    refine ⟨(), w1, hrun, hkeeps, fun key => ?_, by rw [hpos]; exact hsized _ hroom.sized⟩
    rw [hmap]
    by_cases hkey : key = S.key s
    · subst hkey
      rw [Function.update_self]
      simp only [ne_eq, not_true_eq_false, false_iff]
      rintro ⟨s', ⟨-, hne⟩, hsame⟩
      exact hne (S.key_inj hsame)
    · rw [Function.update_of_ne hkey, hroom.live]
      constructor
      · rintro ⟨s', hs', rfl⟩
        exact ⟨s', ⟨hs', fun heq => hkey (congrArg S.key heq)⟩, rfl⟩
      · rintro ⟨s', hs', rfl⟩
        exact ⟨s', hs'.1, rfl⟩
  · exfalso
    rcases hcases with ⟨-, hnone⟩ | ⟨-, hcalm⟩
    · rw [hlong, ← hs] at hnone
      exact (hroom.live _).2 ⟨s, hlive, rfl⟩ hnone
    · exact hcalm hroom.granting

theorem Makes.fillU32 {name : List UInt8} {v : UInt32} (s : σ) (hs : S.key s = (name, .u32)) (hlive : s ∈ live)
    (hf : Makes S (f ()) ⟨pos, be, long⟩ (live \ {s}) Q
      fun u st B => Holds B (S.addr s) (wordBytes be 4 v.toNat) → G u st B) :
    Makes S (BinaryWriter.fillU32 name v >>= f) ⟨pos, be, long⟩ live Q G :=
  Makes.fill (k := .u32) s hs hlive hf

theorem Makes.fillI32 {name : List UInt8} {v : Int32} (s : σ) (hs : S.key s = (name, .i32)) (hlive : s ∈ live)
    (hf : Makes S (f ()) ⟨pos, be, long⟩ (live \ {s}) Q
      fun u st B => Holds B (S.addr s) (wordBytes be 4 v.toUInt32.toNat) → G u st B) :
    Makes S (BinaryWriter.fillI32 name v >>= f) ⟨pos, be, long⟩ live Q G :=
  Makes.fill (k := .i32) s hs hlive hf

end

/-! ## Pieces

What is written from front to back and reserves nothing. -/

/-- Wherever there is room for it, `m` writes `x`. -/
def Delivers (S : FileSlots σ) (be long : Bool) (m : WriteM Unit) (x : List UInt8) : Prop :=
  ∀ (pos : Nat) (live : Set σ), pos + x.length ≤ fileRoom →
    Makes S m ⟨pos, be, long⟩ live (fun _ st live' => st = ⟨pos + x.length, be, long⟩ ∧ live' = live)
      fun _ _ B => Holds B pos x

section

variable {pos : Nat} {be long : Bool} {f : Unit → WriteM β} {m m' : WriteM Unit} {x y : List UInt8}

/-- A piece before the rest. -/
theorem Makes.piece (hm : Delivers S be long m x) (hfit : pos + x.length ≤ fileRoom)
    (hf : Makes S (f ()) ⟨pos + x.length, be, long⟩ live Q fun u st B => Holds B pos x → G u st B) :
    Makes S (m >>= f) ⟨pos, be, long⟩ live Q G := by
  refine (hm pos live hfit).seq fun _ st' live' h => ?_
  obtain ⟨rfl, rfl⟩ := h
  exact hf

theorem Delivers.nothing : Delivers S be long (pure ()) [] := by
  intro pos live hfit
  exact Makes.here (Makes.done ⟨rfl, rfl⟩ fun B hB => holds_nil.2 hB)

theorem Delivers.then (hm : Delivers S be long m x) (hm' : Delivers S be long m' y) :
    Delivers S be long (m >>= fun _ => m') (x ++ y) := by
  intro pos live hfit
  rw [List.length_append] at hfit
  refine Makes.piece hm (by omega) ?_
  refine (hm' (pos + x.length) live (by omega)).conseq fun _ st live' h => ⟨?_, fun B hy hx => ?_⟩
  · rw [List.length_append, ← Nat.add_assoc]
    exact h
  · exact holds_append.2 ⟨hx, hy⟩

theorem delivers_scalar (k : Scalar) (v : k.Value) :
    Delivers S be long (writeScalar k v) (scalarBytes be long k v) := by
  intro pos live hfit
  rw [length_scalarBytes] at hfit ⊢
  exact Makes.last (Makes.scalar k hfit (Makes.done ⟨rfl, rfl⟩ fun _ hB => hB))

theorem delivers_u8 (v : UInt8) : Delivers S be long (writeU8 v) [v] := delivers_scalar .u8 v

theorem delivers_i16 (v : Int16) :
    Delivers S be long (writeI16 v) (wordBytes be 2 v.toUInt16.toNat) := delivers_scalar .i16 v

theorem delivers_i32 (v : Int32) : Delivers S be long (writeI32 v) (wordBytes be 4 v.toUInt32.toNat) :=
  delivers_scalar .i32 v

theorem delivers_f32 (v : UInt32) : Delivers S be long (writeF32 v) (wordBytes be 4 v.toNat) :=
  delivers_scalar .f32 v

theorem delivers_bytes (x : List UInt8) : Delivers S be long (writeBytes x) x := by
  intro pos live hfit
  exact Makes.last (Makes.bytes hfit (Makes.done ⟨rfl, rfl⟩ fun _ hB => hB))

theorem delivers_pattern (n : Nat) (v : UInt8) : Delivers S be long (writePattern n v) (List.replicate n v) := by
  intro pos live hfit
  refine Makes.last (Makes.emits hfit (fun w hw => ?_) (Makes.done ⟨rfl, rfl⟩ fun _ hB => hB))
  exact emitsAt_writePattern hw.atEnd.inv.ready n v

/-- An ASCII text is stored as it is. -/
theorem granted_utf8ToMbcs_ascii {os : Win32} (hos : os.AsciiCompatible) (cp : CodePage) {t : List UInt8}
    (ht : Win32.isPlain t = true) (hlen : t.length ≤ INT32_MAX) :
    granted (utf8ToMbcs os cp (some t) false) = some t := by
  obtain ⟨hascii, hnul⟩ := Win32.isPlain_iff.1 ht
  rw [granted_utf8ToMbcs_fits (hos.fits hascii hnul) hlen, hos.encoded hascii]
  simp

/-- A magic. -/
theorem delivers_ascii {os : Win32} (hos : os.AsciiCompatible) {t : List UInt8} (ht : Win32.isPlain t = true)
    (hlen : t.length ≤ INT32_MAX) : Delivers S be long (writeAscii os (some t) false) t := by
  intro pos live hfit
  refine Makes.last (Makes.emits hfit (fun w hw => ?_) (Makes.done ⟨rfl, rfl⟩ fun _ hB => hB))
  have h := emitsAt_writeStr hw.atEnd.inv.ready (fun _ => utf8ToMbcs_steady os .usAscii) (some t) false
  rwa [granted_utf8ToMbcs_ascii hos .usAscii ht hlen] at h

theorem delivers_each {γ : Type} {write : γ → WriteM Unit} {bytes : γ → List UInt8} (l : List γ)
    (h : ∀ a ∈ l, Delivers S be long (write a) (bytes a)) :
    Delivers S be long (writeEach write l) (l.flatMap bytes) := by
  induction l with
  | nil => exact Delivers.nothing
  | cons a l ih =>
      exact (h a List.mem_cons_self).then (ih fun b hb => h b (List.mem_cons_of_mem a hb))

/-- A piece that is only written under a condition. -/
theorem Delivers.given {c : Bool} (hm : c = true → Delivers S be long m x) (hx : c = false → x = []) :
    Delivers S be long (Fallible.given c () m) x := by
  cases c with
  | true => exact hm rfl
  | false =>
      rw [hx rfl]
      exact Delivers.nothing

end

/-! ## Loops -/

/-- The rule of a loop over a list: `I i` holds before the `i`-th round, and what the rounds put into the file
    stays there. -/
theorem makes_forIndexed {γ : Type} {f : Nat → γ → WriteM Unit} (I : Nat → Stand → Set σ → Prop)
    {F : Nat → γ → List UInt8 → Prop} (l : List γ)
    (hstep : ∀ i a st live, l[i]? = some a → I i st live →
      Makes S (f i a) st live (fun _ => I (i + 1)) fun _ _ B => F i a B) (hI : I 0 st live) :
    Makes S (forIndexed f 0 l) st live (fun _ => I l.length)
      fun _ _ B => ∀ i a, l[i]? = some a → F i a B := by
  suffices h : ∀ (rest : List γ) (k : Nat) (st : Stand) (live : Set σ), l.drop k = rest → I k st live →
      Makes S (forIndexed f k rest) st live (fun _ => I (k + rest.length)) fun _ _ B =>
        ∀ i a, rest[i]? = some a → F (k + i) a B by
    have h0 := h l 0 st live rfl hI
    rw [Nat.zero_add] at h0
    exact h0.mono fun _ _ _ _ B hB i a ha => by simpa using hB i a ha
  intro rest
  induction rest with
  | nil =>
      intro k st live _ hk
      exact Makes.done hk fun B i a ha => by simp at ha
  | cons a rest ih =>
      intro k st live hdrop hk
      have ha : l[k]? = some a := by
        rw [← Nat.add_zero k, ← List.getElem?_drop, hdrop]
        rfl
      refine (hstep k a st live ha hk).seq fun _ st' live' hk' => ?_
      have hrest := ih (k + 1) st' live' (by rw [← List.drop_drop, hdrop]; rfl) hk'
      rw [Nat.add_right_comm, Nat.add_assoc] at hrest
      refine hrest.mono fun _ _ _ _ B hB hfirst i b hb => ?_
      cases i with
      | zero =>
          cases hb
          exact hfirst
      | succ i =>
          have h := hB i b hb
          rwa [Nat.add_right_comm, Nat.add_assoc] at h

/-! ## The whole file -/

/-- **A body that succeeds and fills what it reserves makes a `_write_to_memory` that succeeds.** -/
theorem Makes.toMemory {body : WriteM Unit} {be : Bool} {P : Unit → Stand → Set σ → Prop}
    {F : Unit → Stand → List UInt8 → Prop} (h : Makes S body ⟨0, be, false⟩ ∅ P F)
    (hdone : ∀ st live, P () st live → live = ∅) {heap : Heap} (hcalm : heap.Calm) :
    ∃ out st, (writeToMemory be body heap).1 = .ok out ∧ P () st ∅ ∧ F () st out ∧ out.length = st.pos := by
  obtain ⟨junk1, h1, halloc1, hcalm1⟩ := Heap.alloc_calm hcalm
  obtain ⟨junk2, h2, halloc2, hcalm2⟩ := Heap.alloc_calm hcalm1
  have hstart : Stand.Describes S ⟨0, be, false⟩ (create be h2) :=
    ⟨atEnd_create be h2, rfl, rfl, rfl, fun _ => hcalm2, fun s p hp => by cases hp⟩
  have hempty : Room S ∅ (create be h2) := by
    refine ⟨hcalm2, fun k => ?_, ⟨Nat.le_refl _, Nat.zero_le _⟩⟩
    simp only [Set.mem_empty_iff_false, false_and, exists_false, iff_false]
    exact fun hne => hne rfl
  obtain ⟨u, w, st, live, hrun, hw, hroom, hP, hfinal⟩ := h _ hstart hempty
  have hlive := hdone st live hP
  subst hlive
  have hdead : w.resLive = 0 := by
    rw [hw.atEnd.inv.res.resLive_eq_zero]
    intro k
    by_contra hne
    obtain ⟨s, hs, -⟩ := (hroom.live k).1 hne
    exact hs
  have hlen := length_content hw.atEnd.inv.ready.1
  have hfinish : ∃ w', finishBytes w = (.ok w.content, w') := by
    rw [finishBytes, state_bind_run, check_bind_pos (by omega)]
    rw [toArray]
    rw [bind_assoc, state_bind_run]
    split
    · obtain ⟨junk, g, halloc, -⟩ := Heap.alloc_calm hroom.granting
      have hok : BinaryWriter.onHeap Heap.alloc w = (.ok junk, { w with stream := { w.stream with heap := g } }) := by
        rw [BinaryWriter.onHeap, onStream, zoom_run, zoom_run, halloc]
      rw [bind_assoc, bind_ok hok]
      exact ⟨_, rfl⟩
    · exact ⟨_, rfl⟩
  obtain ⟨w', hfinish⟩ := hfinish
  refine ⟨w.content, st, ?_, hP, (hfinal _ (becomes_self hw.atEnd)).2, ?_⟩
  · rw [writeToMemory, bind_ok halloc1]
    refine (congrArg Prod.fst (bind_ok halloc2 _)).trans ?_
    simp only [bind_ok hrun, hfinish]
  · rw [hlen, ← hw.atEnd.position, hw.pos]

end BinaryWriter

end SoulsFormats
