import SoulsFormats.Core.Tables
import SoulsFormats.Core.Texts

set_option autoImplicit false

/-! # Formats that are read along as they are written

Where padding depends on the position, the bytes of a part are no longer those of its value alone. What stays is
that the reader follows the writer: from where the writer started, it reads a value of the final file, and it
comes to where the writer stopped. `Echoes` says this of a writer and a reader, and its rules put both together
at once. -/

namespace SoulsFormats

open Bytes Fallible BinaryReader BinaryWriter

section

variable {α β σ : Type} {S : FileSlots σ} {be : Bool} {w w' : WriteM Unit} {r : ReadM α} {f : α → ReadM β}
  {a : α} {b : β}

/-- Wherever `w` is run, `r` reads `a` from there, and comes to where `w` has come to. -/
def Echoes (S : FileSlots σ) (be : Bool) (w : WriteM Unit) (r : ReadM α) (a : α) : Prop :=
  ∀ pos, Puts S w ⟨pos, be, false⟩ (fun _ st => ∃ q, st = ⟨q, be, false⟩)
    fun _ st B => ∀ c : Cursor, c.mem = B → c.pos = pos → c.bigEndian = be → Reads r c a { c with pos := st.pos }

/-! ## Composition -/

theorem Echoes.pure (a : α) : Echoes S be (Pure.pure ()) (Pure.pure a) a := by
  intro pos
  refine Puts.done ⟨pos, rfl⟩ fun B c _ hpos _ => ?_
  subst hpos
  exact Reads.pure a c

theorem Echoes.bind (h : Echoes S be w r a) (h' : Echoes S be w' (f a) b) :
    Echoes S be (w >>= fun _ => w') (r >>= f) b := by
  intro pos
  refine (h pos).seq fun _ st hst => ?_
  obtain ⟨q, rfl⟩ := hst
  exact (h' q).mono fun _ _ _ B hB hA c hmem hpos hbe => (hA c hmem hpos hbe).bind (hB _ hmem rfl hbe)

/-- What is written and read last. -/
theorem Echoes.last (h : Echoes S be w r a) (g : α → β) (hb : g a = b) :
    Echoes S be w (r >>= fun v => Pure.pure (g v)) b := by
  have hbind : Echoes S be (w >>= fun _ => Pure.pure ()) (r >>= fun v => Pure.pure (g v)) (g a) :=
    h.bind (Echoes.pure _)
  rwa [bind_pure, hb] at hbind

/-- What is written does not depend on where it stands. -/
theorem Echoes.of_sends {x : List UInt8} {P : Prop} (hw : Sends S be false w x P) (hr : P → ReadsBack be r x a) :
    Echoes S be w r a := by
  intro pos
  refine (hw pos).conseq fun _ st hst => ⟨⟨_, hst.1⟩, fun B hB c hmem hpos hbe => ?_⟩
  obtain ⟨rfl, hP⟩ := hst
  subst hmem hpos
  exact hr hP c hbe hB

/-! ## Steps of the writer -/

theorem Echoes.check {p : Prop} [Decidable p] {e : SfError} (h : p → Echoes S be w r a) :
    Echoes S be (Fallible.check p e >>= fun _ => w) r a :=
  fun pos => Puts.check fun hp => h hp pos

theorem Echoes.writeSetBig (h : Echoes S be w r a) :
    Echoes S be (BinaryWriter.setBigEndian be >>= fun _ => w) r a :=
  fun pos => Puts.setBigEndian (h pos)

/-! ## Steps of the reader -/

theorem Echoes.readCheck {p : Prop} [Decidable p] {e : SfError} {g : Unit → ReadM α} (hp : p)
    (h : Echoes S be w (g ()) a) : Echoes S be w (Fallible.check p e >>= g) a :=
  fun pos => (h pos).mono fun _ _ _ _ hB c hmem hpos hbe => Reads.check hp (hB c hmem hpos hbe)

theorem Echoes.readAlloc {g : List UInt8 → ReadM α} (h : ∀ junk, Echoes S be w (g junk) a) :
    Echoes S be w (BinaryReader.onHeap Heap.alloc >>= g) a := by
  intro pos v v' u hv hrun
  -- the reader's block is not known while the writer runs
  obtain ⟨st, hst, hP, -⟩ := h [] pos v v' u hv hrun
  refine ⟨st, hst, hP, fun B hB => ?_⟩
  have hall : ∀ junk, Becomes (fun _ => False) v B ∧
      ∀ c : Cursor, c.mem = B → c.pos = pos → c.bigEndian = be → Reads (g junk) c a { c with pos := st.pos } := by
    intro junk
    obtain ⟨st', hst', -, hF⟩ := h junk pos v v' u hv hrun
    rw [show st.pos = st'.pos from hst.pos.symm.trans hst'.pos]
    exact hF B hB
  exact ⟨(hall []).1, fun c hmem hpos hbe => reads_alloc c fun junk => (hall junk).2 c hmem hpos hbe⟩

theorem Echoes.readSetBig {g : Unit → ReadM α} (h : Echoes S be w (g ()) a) :
    Echoes S be w (BinaryReader.setBigEndian be >>= g) a := by
  intro pos
  refine (h pos).mono fun _ _ _ B hB c hmem hpos hbe => ?_
  have hset : Reads (BinaryReader.setBigEndian be) c () c := by
    have h := Reads.setBigEndian be c
    rwa [← hbe] at h ⊢
  exact hset.bind (hB c hmem hpos hbe)

/-! ## Values -/

theorem echoes_u8 (v : UInt8) : Echoes S be (writeU8 v) readU8 v :=
  Echoes.of_sends (sends_u8 v) fun _ => readsBack_u8 v

theorem echoes_i32 (v : Int32) : Echoes S be (writeI32 v) readI32 v :=
  Echoes.of_sends (sends_i32 v) fun _ => readsBack_i32 v

theorem echoes_f32 (v : UInt32) : Echoes S be (writeF32 v) readF32 v := by
  refine Echoes.of_sends (sends_scalar .u32 v) fun _ c hc => ?_
  subst hc
  exact parses_u32 c v

theorem echoes_bool (v : Bool) : Echoes S be (writeBool v) readBool v :=
  Echoes.of_sends (sends_scalar .bool v) fun _ c _ => parses_bool c v

theorem echoes_assertU8 (v : UInt8) : Echoes S be (writeU8 v) (assertU8 [v]) v :=
  Echoes.of_sends (sends_u8 v) fun _ => (readsBack_u8 v).assert (List.mem_singleton_self v)

theorem echoes_assertI32 (v : Int32) : Echoes S be (writeI32 v) (assertI32 [v]) v :=
  Echoes.of_sends (sends_i32 v) fun _ => (readsBack_i32 v).assert (List.mem_singleton_self v)

theorem echoes_i32s (vs : List Int32) (hlen : vs.length ≤ INT32_MAX) :
    Echoes S be (writeI32s vs) (readI32s vs.length) vs :=
  Echoes.of_sends (sends_array vs sends_i32) fun _ => readsBack_i32s vs hlen

theorem echoes_f32s (vs : List UInt32) (hlen : vs.length ≤ INT32_MAX) :
    Echoes S be (writeF32s vs) (readF32s vs.length) vs :=
  Echoes.of_sends (sends_array vs (sends_scalar .u32)) fun _ => readsBack_u32s vs hlen

/-- Padding is skipped. -/
theorem echoes_pad {align : Int} (halign : 0 < align) :
    Echoes S be (BinaryWriter.pad align) (BinaryReader.pad align) () := by
  intro pos
  refine Puts.last (Puts.pad halign (Puts.here (Puts.done ⟨_, rfl⟩ fun B hlen c hmem hpos _ => ?_)))
  obtain ⟨mem, q, big, long, steps, flex⟩ := c
  subst hmem hpos
  change q + padLength q align ≤ mem.length at hlen
  unfold BinaryReader.pad
  refine Reads.check halign (Reads.position ?_)
  unfold padLength at hlen ⊢
  by_cases hrem : (q : Int) % align = 0
  · simp only [hrem, if_true]
    exact Reads.pure _ _
  · simp only [hrem, if_false] at hlen ⊢
    have hlt := Int.emod_lt_of_pos (q : Int) halign
    refine reads_seek ?_ hlen
    push_cast
    omega

/-- A loop over elements. -/
theorem Echoes.each {write : α → WriteM Unit} (l : List α) (h : ∀ v ∈ l, Echoes S be (write v) r v) :
    Echoes S be (writeEach write l) (readEach r l.length) l := by
  induction l with
  | nil => exact Echoes.pure []
  | cons v l ih =>
      refine (h v List.mem_cons_self).bind ?_
      exact (ih fun u hu => h u (List.mem_cons_of_mem v hu)).last _ rfl

end

/-! ## Texts -/

theorem utf8ToMbcs_keeps (os : Win32) (cp : CodePage) (t : Option (List UInt8)) (term : Bool) :
    Keeps Heap.Calm (utf8ToMbcs os cp t term) := by
  have hwide : Keeps Heap.Calm (utf8ToWide os (cText (t.getD []))) := by
    refine Keeps.ite (fun _ => Keeps.pure _) fun _ => (Keeps.check _ _).bind fun _ => ?_
    exact (Keeps.check _ _).bind fun _ => Heap.alloc_keeps.bind fun _ => Keeps.pure _
  exact hwide.bind fun _ => (Keeps.check _ _).bind fun _ => Heap.alloc_keeps.bind fun _ => Keeps.pure _

section

variable {α σ : Type} {S : FileSlots σ} {be : Bool} {r : ReadM α} {a : α}

/-- What is written of the encoding of a text. -/
theorem Echoes.encoded {os : Win32} {t : List UInt8} {w : List UInt8 → WriteM Unit} (ht : ∀ b ∈ t, b ≠ 0)
    (h : Echoes S be (w (os.encoded .shiftJis t)) r a) :
    Echoes S be (BinaryWriter.onHeap (utf8ToShiftJis os (some t) false) >>= w) r a := by
  intro pos
  refine Puts.onHeap (utf8ToMbcs_keeps os _ _ _) fun v hv => ?_
  obtain ⟨_, _, hrun⟩ := hv
  have hvalue := granted_utf8ToMbcs ht ((utf8ToMbcs_steady os _ _ _).granted_of_ok hrun)
  rw [if_neg (by decide), List.append_nil] at hvalue
  rw [hvalue]
  exact h pos

theorem readsBack_shiftJisN {os : Win32} {t : List UInt8} (ht : os.Fits .shiftJis t)
    (hlen : (os.encoded .shiftJis t).length ≤ INT32_MAX) :
    ReadsBack be (readShiftJisN os (os.encoded .shiftJis t).length) (os.encoded .shiftJis t) t :=
  fun c _ => parses_strN (mbcsToUtf8_steady os .shiftJis) (granted_mbcsToUtf8 ht hlen) c

/-! ## Files -/

/-- A file that was written is read. -/
theorem Echoes.toMemory {w : WriteM Unit} (h : Echoes S be w r a) {heap heap' : Heap} {out : List UInt8}
    (hgranting : S.granting → heap.Calm) (hok : (writeToMemory be w heap).1 = .ok out) (hcalm : heap'.Calm)
    (flexible : Bool) : (BinaryReader.onMemory out be flexible r heap').1 = .ok a := by
  obtain ⟨st, -, hread, -⟩ := (h 0).toMemory hgranting hok
  obtain ⟨heap1, hrun, -⟩ := onMemory_ok (hread ⟨out, 0, be, false, [], flexible⟩ rfl rfl rfl) hcalm
  rw [hrun]

end

end SoulsFormats
