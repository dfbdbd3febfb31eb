import Mathlib.Data.List.TakeDrop
import SoulsFormats.Core.Making
import SoulsFormats.Core.Sequential

set_option autoImplicit false

/-! # Tables and what their records point to

Formats with tables write the variable parts first and note where each of them is put, then the records with
these offsets. `noteEach` is the loop that takes the notes; its rules relate each element to its note. -/

namespace SoulsFormats

open Bytes Fallible

/-! ## Arrays and vectors -/

/-- A C array of `n` elements. -/
abbrev CArray (α : Type) (n : Nat) := { vs : List α // vs.length = n }

/-- The array that holds what was read. -/
def CArray.ofList {α : Type} (n : Nat) (d : α) (vs : List α) : CArray α n := ⟨vs.takeD n d, List.takeD_length n vs d⟩

theorem CArray.ofList_val {α : Type} {n : Nat} (d : α) (v : CArray α n) : CArray.ofList n d v.1 = v := by
  obtain ⟨vs, rfl⟩ := v
  exact Subtype.ext ((List.takeD_eq_take d (Nat.le_refl _)).trans (List.take_length ..))

/-- `sf_vec3_t`, the coordinates by their bits. -/
structure Vec3 where
  x : UInt32
  y : UInt32
  z : UInt32
deriving DecidableEq, Repr

/-- The bytes of a list of words. -/
def i32sBytes (be : Bool) (vs : List Int32) : List UInt8 := vs.flatMap fun v => wordBytes be 4 v.toUInt32.toNat

def vec3Bytes (be : Bool) (v : Vec3) : List UInt8 :=
  wordBytes be 4 v.x.toNat ++ (wordBytes be 4 v.y.toNat ++ wordBytes be 4 v.z.toNat)

@[simp] theorem length_i32sBytes (be : Bool) (vs : List Int32) : (i32sBytes be vs).length = vs.length * 4 :=
  length_flatMap_const vs fun _ _ => length_wordBytes ..

@[simp] theorem length_vec3Bytes (be : Bool) (v : Vec3) : (vec3Bytes be v).length = 12 := by
  simp [vec3Bytes, length_wordBytes]

/-! ## Two blocks at once -/

/-- Both blocks are asked for before either is looked at. -/
def Heap.allocBoth : Fallible Heap SfError Unit := do
  let a ← attempt Heap.alloc
  let b ← attempt Heap.alloc
  match a, b with
  | .ok _, .ok _ => pure ()
  | _, _ => fail .oom

theorem Heap.allocBoth_calm {h : Heap} (hh : h.Calm) : ∃ h', Heap.allocBoth h = (.ok (), h') ∧ h'.Calm := by
  obtain ⟨junk1, h1, halloc1, hcalm1⟩ := Heap.alloc_calm hh
  obtain ⟨junk2, h2, halloc2, hcalm2⟩ := Heap.alloc_calm hcalm1
  refine ⟨h2, ?_, hcalm2⟩
  rw [allocBoth, attempt_bind_run, attempt_bind_run, halloc1, halloc2]
  rfl

theorem Heap.allocBoth_keeps : Keeps Heap.Calm Heap.allocBoth := by
  refine Heap.alloc_keeps.attempt.bind fun a => Heap.alloc_keeps.attempt.bind fun b => ?_
  cases a <;> cases b <;> first | exact Keeps.pure _ | exact Keeps.fail _

/-! ## Arrays behind an offset -/

/-- An array stands where its offset says. -/
def I32sAt (be : Bool) (B : List UInt8) (vs : List Int32) (offset : Int32) : Prop :=
  ∃ q ≤ INT32_MAX, offset = Int32.ofNat q ∧ Holds B q (i32sBytes be vs)

theorem I32sAt.length_le {be : Bool} {B : List UInt8} {vs : List Int32} {offset : Int32} (h : I32sAt be B vs offset)
    (hB : B.length < 2 ^ 31) : vs.length ≤ INT32_MAX := by
  obtain ⟨q, -, -, hq⟩ := h
  have hle := hq.le
  have hmax : INT32_MAX = 2 ^ 31 - 1 := rfl
  rw [length_i32sBytes] at hle
  omega

/-! ## Records -/

/-- A record of a table. -/
theorem element_at {γ : Type} {B : List UInt8} {bytes : γ → List UInt8} {width base : Nat}
    (hwidth : ∀ a, (bytes a).length = width) {l : List γ} (hB : Holds B base (l.flatMap bytes)) (i : Nat) (a : γ)
    (ha : l[i]? = some a) : Holds B (base + i * width) (bytes a) := by
  induction l generalizing base i with
  | nil => simp at ha
  | cons x l ih =>
      rw [List.flatMap_cons, holds_append, hwidth] at hB
      cases i with
      | zero =>
          cases ha
          simpa using hB.1
      | succ i =>
          have hheld := ih hB.2 i (by simpa using ha)
          rwa [Nat.add_assoc, Nat.add_comm width, ← Nat.succ_mul] at hheld

/-- A record of a table, and the element that it describes. -/
theorem record_at {γ δ : Type} {R : γ → δ → Prop} {l : List γ} {notes : List δ} (hR : List.Forall₂ R l notes)
    {B : List UInt8} {bytes : γ → δ → List UInt8} {width base : Nat} (hwidth : ∀ a d, (bytes a d).length = width)
    (hB : Holds B base ((l.zip notes).flatMap fun e => bytes e.1 e.2)) (i : Nat) (a : γ) (ha : l[i]? = some a) :
    ∃ d, R a d ∧ Holds B (base + i * width) (bytes a d) := by
  obtain ⟨d, hd, hRd⟩ : ∃ d, notes[i]? = some d ∧ R a d := by
    clear hB
    induction hR generalizing i with
    | nil => simp at ha
    | @cons x y l notes hxy _ ih =>
        cases i with
        | zero =>
            cases ha
            exact ⟨y, rfl, hxy⟩
        | succ i => exact ih i (by simpa using ha)
  refine ⟨d, hRd, element_at (fun e => hwidth e.1 e.2) hB i (a, d) ?_⟩
  rw [List.getElem?_zip_eq_some]
  exact ⟨ha, hd⟩

/-! ## Writing -/

namespace BinaryWriter

/-- `sf_binary_writer_write_vec3`. -/
def writeVec3 (v : Vec3) : WriteM Unit := do
  writeF32 v.x
  writeF32 v.y
  writeF32 v.z

/-- `sf_binary_writer_write_i32s`. -/
def writeI32s (vs : List Int32) : WriteM Unit := defineWriteArray writeI32 vs

/-- `sf_binary_writer_write_i16s`. -/
def writeI16s (vs : List Int16) : WriteM Unit := defineWriteArray writeI16 vs

/-- `sf_binary_writer_write_u16s`. -/
def writeU16s (vs : List UInt16) : WriteM Unit := defineWriteArray writeU16 vs

/-- `sf_binary_writer_write_f32s`. -/
def writeF32s (vs : List UInt32) : WriteM Unit := defineWriteArray writeF32 vs

/-- An array whose offset is noted. -/
def noteI32s (vs : List Int32) : WriteM Int32 := do
  let pos ← peek position
  check (pos ≤ INT32_MAX) .outOfRange
  writeI32s vs
  pure (Int32.ofNat pos)

/-- A loop over a list that notes something of each element. -/
def noteEach {γ δ : Type} (f : γ → WriteM δ) : List γ → WriteM (List δ)
  | [] => pure []
  | a :: l => do
    let v ← f a
    let vs ← noteEach f l
    pure (v :: vs)

section

variable {σ γ δ : Type} {S : FileSlots σ} {be long : Bool}

theorem sends_u32 (v : UInt32) : Sends S be long (writeU32 v) (wordBytes be 4 v.toNat) True :=
  sends_scalar .u32 v

theorem sends_f32 (v : UInt32) : Sends S be long (writeF32 v) (wordBytes be 4 v.toNat) True :=
  sends_scalar .f32 v

theorem sends_vec3 (v : Vec3) : Sends S be long (writeVec3 v) (vec3Bytes be v) True :=
  (sends_f32 v.x).then fun _ => (sends_f32 v.y).then fun _ => sends_f32 v.z

theorem sends_i32s (vs : List Int32) : Sends S be long (writeI32s vs) (i32sBytes be vs) True :=
  sends_array vs sends_i32

theorem sends_u16 (v : UInt16) : Sends S be long (writeU16 v) (wordBytes be 2 v.toNat) True := sends_scalar .u16 v

theorem sends_i16s (vs : List Int16) :
    Sends S be long (writeI16s vs) (vs.flatMap fun v => wordBytes be 2 v.toUInt16.toNat) True :=
  sends_array vs sends_i16

theorem sends_u16s (vs : List UInt16) :
    Sends S be long (writeU16s vs) (vs.flatMap fun v => wordBytes be 2 v.toNat) True :=
  sends_array vs sends_u16

theorem sends_f32s (vs : List UInt32) :
    Sends S be long (writeF32s vs) (vs.flatMap fun v => wordBytes be 4 v.toNat) True :=
  sends_array vs sends_f32

/-- Room that is asked for if there is something to put there. -/
theorem Puts.room {β : Type} {Q : β → Stand → Prop} {G : β → Stand → List UInt8 → Prop} {st : Stand} (c : Bool)
    {f : List UInt8 → WriteM β} (hf : ∀ junk, Puts S (f junk) st Q G) :
    Puts S (Fallible.given c [] (BinaryWriter.onHeap Heap.alloc) >>= f) st Q G := by
  cases c with
  | true => exact Puts.alloc hf
  | false => exact hf []

theorem Makes.room {β : Type} {live : Set σ} {Q : β → Stand → Set σ → Prop} {G : β → Stand → List UInt8 → Prop}
    {st : Stand} (c : Bool) {f : List UInt8 → WriteM β} (hf : ∀ junk, Makes S (f junk) st live Q G) :
    Makes S (Fallible.given c [] (BinaryWriter.onHeap Heap.alloc) >>= f) st live Q G := by
  cases c with
  | true => exact Makes.alloc hf
  | false => exact hf []

/-- A step after two branches that come together again. -/
theorem Puts.branch {α β : Type} {Q : β → Stand → Prop} {G : β → Stand → List UInt8 → Prop} {st : Stand} {p : Prop}
    [Decidable p] {m m' : WriteM α} {f : α → WriteM β} (h : Puts S ((if p then m else m') >>= f) st Q G) :
    Puts S (if p then m >>= f else m' >>= f) st Q G := by
  by_cases hp : p
  · rwa [if_pos hp] at h ⊢
  · rwa [if_neg hp] at h ⊢

/-- A step of a block that is written from front to back. -/
theorem Puts.sent {β : Type} {m : WriteM Unit} {x : List UInt8} {p : Prop} {f : Unit → WriteM β} {pos : Nat}
    {Q : β → Stand → Prop} {G : β → Stand → List UInt8 → Prop} (hm : Sends S be long m x p)
    (hf : p → Puts S (f ()) ⟨pos + x.length, be, long⟩ Q fun u st B => Holds B pos x → G u st B) :
    Puts S (m >>= f) ⟨pos, be, long⟩ Q G := by
  refine (hm pos).seq fun _ st hst => ?_
  obtain ⟨rfl, hp⟩ := hst
  exact hf hp

/-- The settings of a writer, wherever it stands. -/
def Stand.Flags (be long : Bool) (st : Stand) : Prop := st.bigEndian = be ∧ st.varintLong = long

theorem delivers_u32 (v : UInt32) : Delivers S be long (writeU32 v) (wordBytes be 4 v.toNat) :=
  delivers_scalar .u32 v

theorem delivers_vec3 (v : Vec3) : Delivers S be long (writeVec3 v) (vec3Bytes be v) :=
  (delivers_f32 v.x).then ((delivers_f32 v.y).then (delivers_f32 v.z))

/-- An array of words. -/
theorem delivers_array {γ : Type} {write : γ → WriteM Unit} {bytes : γ → List UInt8} (vs : List γ)
    (hwrite : ∀ v, Delivers S be long (write v) (bytes v)) :
    Delivers S be long (defineWriteArray write vs) (vs.flatMap bytes) := by
  intro pos live hfit w hw hroom
  rw [defineWriteArray, bind_ok (writerOpen_ok hw.atEnd.inv.ready)]
  exact delivers_each vs (fun v _ => hwrite v) pos live hfit w hw hroom

theorem delivers_i32s (vs : List Int32) : Delivers S be long (writeI32s vs) (i32sBytes be vs) :=
  delivers_array vs delivers_i32

theorem delivers_u16s (vs : List UInt16) :
    Delivers S be long (writeU16s vs) (vs.flatMap fun v => wordBytes be 2 v.toNat) :=
  delivers_array vs fun v => delivers_scalar .u16 v

theorem delivers_i16s (vs : List Int16) :
    Delivers S be long (writeI16s vs) (vs.flatMap fun v => wordBytes be 2 v.toUInt16.toNat) :=
  delivers_array vs delivers_i16

theorem puts_noteI32s (vs : List Int32) (pos : Nat) :
    Puts S (noteI32s vs) ⟨pos, be, long⟩ (fun _ st => st.Flags be long) fun offset _ B => I32sAt be B vs offset := by
  refine Puts.position (Puts.check fun hpos => Puts.sent (sends_i32s vs) fun _ => ?_)
  exact Puts.done ⟨rfl, rfl⟩ fun B hB => ⟨pos, hpos, rfl, hB⟩

theorem makes_noteI32s (vs : List Int32) {pos : Nat} (live : Set σ) (hfit : pos + vs.length * 4 ≤ INT32_MAX) :
    Makes S (noteI32s vs) ⟨pos, be, long⟩ live
      (fun _ st live' => st = ⟨pos + vs.length * 4, be, long⟩ ∧ live' = live) fun offset _ B => I32sAt be B vs offset := by
  have hroom : INT32_MAX ≤ fileRoom := by decide
  have hlen := length_i32sBytes be vs
  refine Makes.position (Makes.check (by omega) (Makes.piece (delivers_i32s vs) (by omega) ?_))
  exact Makes.done ⟨by rw [hlen], rfl⟩ fun B hB => ⟨pos, by omega, rfl, hB⟩

theorem puts_noteEach {f : γ → WriteM δ} {F : γ → δ → List UInt8 → Prop} (l : List γ)
    (hstep : ∀ a ∈ l, ∀ pos, Puts S (f a) ⟨pos, be, long⟩ (fun _ st => st.Flags be long) fun v _ B => F a v B) :
    ∀ pos, Puts S (noteEach f l) ⟨pos, be, long⟩ (fun vs st => st.Flags be long ∧ vs.length = l.length)
      fun vs _ B => List.Forall₂ (fun a v => F a v B) l vs := by
  induction l with
  | nil => exact fun pos => Puts.done ⟨⟨rfl, rfl⟩, rfl⟩ fun B => List.Forall₂.nil
  | cons a l ih =>
      intro pos
      refine (hstep a List.mem_cons_self pos).seq fun v st hst => ?_
      obtain ⟨p, be', long'⟩ := st
      obtain ⟨rfl, rfl⟩ := hst
      refine (ih (fun b hb => hstep b (List.mem_cons_of_mem a hb)) p).seq fun vs st hst => ?_
      refine Puts.done ⟨hst.1, by rw [List.length_cons, List.length_cons, hst.2]⟩ fun B hvs hv => ?_
      exact List.Forall₂.cons hv hvs

/-- The same of a loop that succeeds: as long as there is room for it, an element takes its size. -/
theorem makes_noteEach {f : γ → WriteM δ} {F : γ → δ → List UInt8 → Prop} {size : γ → Nat} {limit : Nat} (l : List γ)
    (hstep : ∀ a ∈ l, ∀ (pos : Nat) (live : Set σ), pos + size a ≤ limit → Makes S (f a) ⟨pos, be, long⟩ live
      (fun _ st live' => st = ⟨pos + size a, be, long⟩ ∧ live' = live) fun v _ B => F a v B) :
    ∀ (pos : Nat) (live : Set σ), pos + (l.map size).sum ≤ limit → Makes S (noteEach f l) ⟨pos, be, long⟩ live
      (fun vs st live' => st = ⟨pos + (l.map size).sum, be, long⟩ ∧ live' = live ∧ vs.length = l.length)
      fun vs _ B => List.Forall₂ (fun a v => F a v B) l vs := by
  induction l with
  | nil => exact fun pos live _ => Makes.done ⟨rfl, rfl, rfl⟩ fun B => List.Forall₂.nil
  | cons a l ih =>
      intro pos live hfit
      rw [List.map_cons, List.sum_cons] at hfit
      refine (hstep a List.mem_cons_self pos live (by omega)).seq fun v st live' hst => ?_
      obtain ⟨rfl, rfl⟩ := hst
      refine (ih (fun b hb => hstep b (List.mem_cons_of_mem a hb)) _ _ (by omega)).seq fun vs st live' hst => ?_
      obtain ⟨rfl, rfl, hlen⟩ := hst
      refine Makes.done ⟨?_, rfl, by rw [List.length_cons, List.length_cons, hlen]⟩
        fun B hvs hv => List.Forall₂.cons hv hvs
      rw [List.map_cons, List.sum_cons, Nat.add_assoc]

end

end BinaryWriter

/-! ## Reading -/

namespace BinaryReader

/-- `sf_binary_reader_read_vec3`. -/
def readVec3 : ReadM Vec3 := do
  let x ← readF32
  let y ← readF32
  let z ← readF32
  pure ⟨x, y, z⟩

/-- Room for one more element in a list that starts with `initial` elements and doubles. -/
def makeRoom (initial count cap : Nat) : ReadM Nat :=
  if cap < count + 1 then do
    let _ ← onHeap Heap.alloc
    pure (max (if cap = 0 then initial else cap * 2) (count + 1))
  else pure cap

/-- A loop that appends what it reads to a list of `count` elements. A round makes room before or after it has
    read the element. -/
def readAppended {α : Type} (initial : Nat) (m : ReadM Nat → ReadM (α × Nat)) : Nat → Nat → Nat → ReadM (List α)
  | 0, _, _ => pure []
  | n + 1, count, cap => do
    let (a, cap) ← m (makeRoom initial count cap)
    let rest ← readAppended initial m n (count + 1) cap
    pure (a :: rest)

/-- An array behind its offset. Room for it is made if it has elements. -/
def readI32sAt (count offset : Int32) : ReadM (List Int32) :=
  given (0 < count.toInt) [] do
    let _ ← onHeap Heap.alloc
    getI32s offset.toInt count.toInt.toNat

/-- What is read between a step-in and a step-out whose outcome is not looked at. -/
def steppedIn {α : Type} (off : Int) (m : ReadM α) : ReadM α := do
  stepIn off
  let e ← attempt m
  let _ ← attempt stepOut
  match e with
  | .ok v => pure v
  | .error err => fail err

section

variable {α β : Type} {mem : List UInt8} {pos : Nat} {be long : Bool} {steps : List Nat} {flex : Bool} {b : β}
  {c2 : Cursor}

theorem Reads.f32 {v : UInt32} {f : UInt32 → ReadM β} (h : Holds mem pos (wordBytes be 4 v.toNat))
    (hf : Reads (f v) ⟨mem, pos + 4, be, long, steps, flex⟩ b c2) :
    Reads (readF32 >>= f) ⟨mem, pos, be, long, steps, flex⟩ b c2 := Reads.u32 h hf

theorem Reads.vec3 {v : Vec3} {f : Vec3 → ReadM β} (h : Holds mem pos (vec3Bytes be v))
    (hf : Reads (f v) ⟨mem, pos + 12, be, long, steps, flex⟩ b c2) :
    Reads (readVec3 >>= f) ⟨mem, pos, be, long, steps, flex⟩ b c2 := by
  obtain ⟨hx, h⟩ := holds_append.1 h
  obtain ⟨hy, hz⟩ := holds_append.1 h
  rw [length_wordBytes] at hy hz
  rw [length_wordBytes] at hz
  exact (Reads.f32 hx (Reads.f32 hy (Reads.f32 hz (Reads.pure v _)))).bind hf

/-- An array at its offset. -/
theorem Reads.gotI32s {vs : List Int32} {p : Int} {q n : Nat} {f : List Int32 → ReadM β} (hpq : p = q)
    (hn : n = vs.length) (hlen : vs.length ≤ INT32_MAX) (hx : Holds mem q (i32sBytes be vs)) (hpos : pos ≤ mem.length)
    (hf : Reads (f vs) ⟨mem, pos, be, long, steps, flex⟩ b c2) :
    Reads (getI32s p n >>= f) ⟨mem, pos, be, long, steps, flex⟩ b c2 := by
  subst hn
  exact Reads.got hpq hx hpos (readsBack_i32s vs hlen _ rfl) hf

/-- An array is read from where it was put. -/
theorem reads_getI32sAt {vs : List Int32} {offset : Int32} (h : I32sAt be mem vs offset) (hmem : mem.length < 2 ^ 31)
    {f : List Int32 → ReadM β} (hpos : pos ≤ mem.length)
    (hf : Reads (f vs) ⟨mem, pos, be, long, steps, flex⟩ b c2) :
    Reads (getI32s offset.toInt vs.length >>= f) ⟨mem, pos, be, long, steps, flex⟩ b c2 := by
  have hlen := h.length_le hmem
  obtain ⟨q, hq, rfl, hheld⟩ := h
  exact Reads.gotI32s (int32_toInt_ofNat hq) rfl hlen hheld hpos hf

/-- The offset of an array without elements is of no meaning. -/
theorem Reads.i32sAt {vs : List Int32} {offset : Int32} (h : vs ≠ [] → I32sAt be mem vs offset)
    (hmem : mem.length < 2 ^ 31) {f : List Int32 → ReadM β} (hlen : vs.length ≤ INT32_MAX) (hpos : pos ≤ mem.length)
    (hf : Reads (f vs) ⟨mem, pos, be, long, steps, flex⟩ b c2) :
    Reads (readI32sAt (Int32.ofNat vs.length) offset >>= f) ⟨mem, pos, be, long, steps, flex⟩ b c2 := by
  unfold readI32sAt
  rw [int32_toInt_ofNat hlen]
  refine Reads.given (v := vs) (n := 0) (fun hcount => ?_) (fun h0 => ?_) (by rwa [ite_self])
  · have hne : vs ≠ [] := List.length_pos_iff.1 (by simpa using hcount)
    exact reads_alloc _ fun _ => Reads.last (reads_getI32sAt (h hne) hmem hpos (Reads.pure _ _))
  · have hlen : vs.length = 0 := by simpa using h0
    exact List.length_eq_zero_iff.1 hlen

theorem reads_allocBoth (c : Cursor) {f : Unit → ReadM β} (hf : Reads (f ()) c b c2) :
    Reads (onHeap Heap.allocBoth >>= f) c b c2 := by
  intro r hr hcalm
  obtain ⟨h', hrun, hcalm'⟩ := Heap.allocBoth_calm hcalm
  have hok : onHeap Heap.allocBoth r = (.ok (), { r with heap := h' }) := by
    rw [onHeap, zoom_run, hrun]
  obtain ⟨r', hrest, hr', hcalm''⟩ := hf { r with heap := h' } hr hcalm'
  exact ⟨r', by rw [bind_ok hok, hrest], hr', hcalm''⟩

theorem reads_makeRoom (initial count cap : Nat) : ∃ cap', ∀ c, Reads (makeRoom initial count cap) c cap' c := by
  unfold makeRoom
  split
  · exact ⟨_, fun c => reads_alloc c fun _ => Reads.pure _ _⟩
  · exact ⟨_, fun c => Reads.pure _ _⟩

/-- Room that is asked for if there is something to put there. -/
theorem Reads.room (p : Bool) {f : List UInt8 → ReadM β} {c1 : Cursor} (hf : ∀ junk, Reads (f junk) c1 b c2) :
    Reads (Fallible.given p [] (BinaryReader.onHeap Heap.alloc) >>= f) c1 b c2 := by
  cases p with
  | true => exact reads_alloc _ hf
  | false => exact hf []

/-- A block that may be asked for. -/
theorem reads_givenAlloc (d : Bool) (c : Cursor) :
    Reads (Fallible.given d () (onHeap Heap.alloc >>= fun _ => Pure.pure ())) c () c := by
  cases d with
  | true => exact reads_alloc c fun _ => Reads.pure () c
  | false => exact Reads.pure () c

theorem Leads.room (p : Bool) {f : List UInt8 → ReadM β} {m' : ReadM β} {c1 : Cursor}
    (hf : ∀ junk, Leads (f junk) c1 m' c2) : Leads (Fallible.given p [] (BinaryReader.onHeap Heap.alloc) >>= f) c1 m' c2 := by
  intro r hr hcalm
  cases p with
  | false => exact hf [] r hr hcalm
  | true =>
      obtain ⟨junk, heap1, halloc, hcalm1⟩ := Heap.alloc_calm hcalm
      obtain ⟨r2, hrun, hr2, hcalm2⟩ := hf junk { r with heap := heap1 } hr hcalm1
      refine ⟨r2, ?_, hr2, hcalm2⟩
      rw [← hrun]
      refine bind_ok ?_ _
      rw [Fallible.given, if_pos rfl, BinaryReader.onHeap, zoom_run, halloc]

/-- A table of records of one width. -/
theorem reads_table {m : ReadM α} {base : Nat} (width : Nat) (l : List α)
    (hm : ∀ i a, l[i]? = some a → Reads m ⟨mem, base + i * width, be, long, steps, flex⟩ a
      ⟨mem, base + i * width + width, be, long, steps, flex⟩) :
    Reads (readEach m l.length) ⟨mem, base, be, long, steps, flex⟩ l
      ⟨mem, base + l.length * width, be, long, steps, flex⟩ := by
  have h := reads_readEach_at (fun i => ⟨mem, base + i * width, be, long, steps, flex⟩) l fun i a ha => by
    have hread := hm i a ha
    rwa [Nat.add_assoc, ← Nat.succ_mul] at hread
  rwa [Nat.zero_mul, Nat.add_zero] at h

/-- The same where room is made for each of them. -/
theorem reads_appended_table {initial : Nat} {m : ReadM Nat → ReadM (α × Nat)} {base : Nat} (width : Nat)
    (l : List α)
    (hm : ∀ i a, l[i]? = some a → ∀ (room : ReadM Nat) (cap : Nat), (∀ c, Reads room c cap c) →
      Reads (m room) ⟨mem, base + i * width, be, long, steps, flex⟩ (a, cap)
        ⟨mem, base + i * width + width, be, long, steps, flex⟩) (count cap : Nat) :
    Reads (readAppended initial m l.length count cap) ⟨mem, base, be, long, steps, flex⟩ l
      ⟨mem, base + l.length * width, be, long, steps, flex⟩ := by
  induction l generalizing base count cap with
  | nil =>
      rw [List.length_nil, Nat.zero_mul, Nat.add_zero]
      exact Reads.pure _ _
  | cons a l ih =>
      obtain ⟨cap', hroom⟩ := reads_makeRoom initial count cap
      have hfirst := hm 0 a rfl _ cap' hroom
      rw [Nat.zero_mul, Nat.add_zero] at hfirst
      have hrest : Reads (readAppended initial m l.length (count + 1) cap') ⟨mem, base + width, be, long, steps, flex⟩ l
          ⟨mem, base + width + l.length * width, be, long, steps, flex⟩ := by
        refine ih (fun i b hb room cap hroom => ?_) (count + 1) cap'
        have hread := hm (i + 1) b (by simpa using hb) room cap hroom
        have hpos : base + (i + 1) * width = base + width + i * width := by
          rw [Nat.succ_mul]
          omega
        rwa [hpos] at hread
      have hend : base + width + l.length * width = base + (a :: l).length * width := by
        rw [List.length_cons, Nat.succ_mul]
        omega
      rw [hend] at hrest
      exact hfirst.bind (hrest.bind (Reads.pure _ _))

/-- A part of the data that is read at its offset leaves the cursor. -/
theorem Reads.steppedIn {m : ReadM α} {a : α} {p : Int} {q stop : Nat} {f : α → ReadM β} (hpq : p = q)
    (hq : q ≤ mem.length) (hpos : pos ≤ mem.length)
    (hm : Reads m ⟨mem, q, be, long, pos :: steps, flex⟩ a ⟨mem, stop, be, long, pos :: steps, flex⟩)
    (hf : Reads (f a) ⟨mem, pos, be, long, steps, flex⟩ b c2) :
    Reads (BinaryReader.steppedIn p m >>= f) ⟨mem, pos, be, long, steps, flex⟩ b c2 := by
  subst hpq
  have hout : Reads stepOut ⟨mem, stop, be, long, pos :: steps, flex⟩ () ⟨mem, pos, be, long, steps, flex⟩ :=
    reads_stepOut rfl hpos
  have hin : Reads (stepIn q) ⟨mem, pos, be, long, steps, flex⟩ () ⟨mem, q, be, long, pos :: steps, flex⟩ :=
    reads_stepIn hq
  exact (hin.bind (hm.attempt.bind (hout.attempt.bind (Reads.pure a _)))).bind hf

end

/-! ## What can be read -/

theorem returns_readEach {α : Type} {Q : α → Prop} {m : ReadM α} (hm : Returns m Q) (n : Nat) :
    Returns (readEach m n) fun l => l.length = n ∧ ∀ a ∈ l, Q a := by
  induction n with
  | zero => exact Returns.pure ⟨rfl, by simp⟩
  | succ n ih =>
      refine hm.bind fun a ha => ih.bind fun l hl => Returns.pure ⟨by rw [List.length_cons, hl.1], ?_⟩
      simpa using ⟨ha, hl.2⟩

theorem returns_defineGet {α : Type} {Q : α → Prop} {m : ReadM α} (hm : Returns m Q) (off : Int) :
    Returns (defineGet off m) Q := by
  refine Returns.after fun _ => ?_
  intro r a r' hrun
  rw [attempt_bind_run, attempt_bind_run] at hrun
  rcases hread : m r with ⟨e | v, r1⟩
  · rw [hread] at hrun
    cases hrun
  · rw [hread] at hrun
    simp only at hrun
    rcases hout : stepOut r1 with ⟨e | u, r2⟩ <;> rw [hout] at hrun <;> cases hrun
    exact hm r _ r1 hread

theorem returns_steppedIn {α : Type} {Q : α → Prop} {m : ReadM α} (hm : Returns m Q) (off : Int) :
    Returns (steppedIn off m) Q := by
  refine Returns.after fun _ => ?_
  intro r a r' hrun
  rw [attempt_bind_run, attempt_bind_run] at hrun
  rcases hread : m r with ⟨e | v, r1⟩
  · rw [hread] at hrun
    cases hrun
  · rw [hread] at hrun
    cases hrun
    exact hm r _ r1 hread

theorem returns_readI32s (n : Nat) : Returns (readI32s n) fun vs => vs.length = n := by
  have harray : Returns (defineReadArrayRaw 4 n) fun vs => vs.length = n := by
    refine Returns.ite (fun h0 => Returns.pure h0.symm) fun _ => Returns.check fun _ => Returns.after fun bs =>
      Returns.after fun r => Returns.pure ?_
    exact length_orderedWords r.bigEndian 4 n bs
  refine harray.bind fun vs hvs => Returns.pure ?_
  rw [List.length_map, hvs]

end BinaryReader

end SoulsFormats
