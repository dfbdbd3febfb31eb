import SoulsFormats.Core.Sequential

set_option autoImplicit false

/-! # Readers with one answer

What a reader gives of known bytes when its allocator grants everything: one value, or nothing. It is the form of
`Reads` and `Refuses` for formats whose texts decide whether they can be read. -/

namespace SoulsFormats

open Bytes Fallible

namespace BinaryReader

section

variable {α β : Type} {m : ReadM α} {f : α → ReadM β} {c c1 c2 : Cursor}

/-- With an allocator that grants everything, `m` gives `a` and stops at `c'`, or gives nothing. -/
def Answers (m : ReadM α) (c : Cursor) (a : Option α) (c' : Cursor) : Prop :=
  match a with
  | some a => Reads m c a c'
  | none => Refuses m c

theorem Reads.answers {a : α} {b : Option β} (hm : Reads m c a c1) (hf : Answers (f a) c1 b c2) :
    Answers (m >>= f) c b c2 := by
  cases b with
  | some b => exact hm.bind hf
  | none => exact hm.refuses hf

theorem Answers.bind {a : Option α} {g : α → Option β} (hm : Answers m c a c1)
    (hf : ∀ v, a = some v → Answers (f v) c1 (g v) c2) : Answers (m >>= f) c (a.bind g) c2 := by
  cases a with
  | some a => exact Reads.answers hm (hf a rfl)
  | none => exact Refuses.bind hm

theorem Answers.pure (a : α) (c : Cursor) : Answers (Pure.pure a) c (some a) c := Reads.pure a c

theorem Answers.map {a : Option α} (hm : Answers m c a c1) (g : α → β) :
    Answers (m >>= fun v => Pure.pure (g v)) c (a.map g) c1 := by
  cases a with
  | some a => exact Reads.bind hm (Reads.pure _ _)
  | none => exact Refuses.bind hm

/-- A check that holds. -/
theorem Answers.passed {p : Prop} [Decidable p] {e : SfError} {f : Unit → ReadM β} {b : Option β} (hp : p)
    (hf : Answers (f ()) c b c2) : Answers (Fallible.check p e >>= f) c b c2 := by
  cases b with
  | some b => exact Reads.check hp hf
  | none =>
      intro r hr hcalm
      rw [check_bind_pos hp]
      exact hf r hr hcalm

/-- A step before bytes that are known. -/
theorem ReadsBack.answers {be : Bool} {x : List UInt8} {a : α} {b : Option β} {mem : List UInt8} {pos n : Nat}
    {long flex : Bool} {steps : List Nat} (hm : ReadsBack be m x a) (hx : Holds mem pos x) (hn : x.length = n)
    (hf : Answers (f a) ⟨mem, pos + n, be, long, steps, flex⟩ b c2) :
    Answers (m >>= f) ⟨mem, pos, be, long, steps, flex⟩ b c2 := by
  subst hn
  exact Reads.answers (hm _ rfl hx) hf

theorem Answers.check {p : Prop} [Decidable p] {e : SfError} {f : Unit → ReadM β} {b : Option β}
    (hf : p → Answers (f ()) c b c2) : Answers (Fallible.check p e >>= f) c (if p then b else none) c2 := by
  by_cases hp : p
  · rw [if_pos hp]
    exact Answers.passed hp (hf hp)
  · rw [if_neg hp]
    exact refuses_check hp

/-- What a whole run gives. -/
theorem Answers.onMemory {data : List UInt8} {be flexible : Bool} {a : Option α}
    (hm : Answers m ⟨data, 0, be, false, [], flexible⟩ a c2) {heap : Heap} (hcalm : heap.Calm) {v : α} :
    (onMemory data be flexible m heap).1 = .ok v ↔ a = some v := by
  cases a with
  | some a =>
      obtain ⟨heap', hrun, -⟩ := onMemory_ok hm hcalm
      rw [hrun, Except.ok.injEq, Option.some.injEq]
  | none => exact ⟨fun h => absurd h (onMemory_refuses hm hcalm v), nofun⟩

/-- A field that holds a text, or bytes that cannot be converted. -/
theorem answers_readFixStr {os : Win32} {n : Nat} (hn : 0 < n) {x : List UInt8} (hx : x.length = n) (c : Cursor)
    (hheld : Holds c.mem c.pos x) :
    Answers (readFixStr os n) c (granted (shiftJisToUtf8 os (cText x))) (c.advance n) := by
  unfold readFixStr
  rw [if_neg hn.ne']
  have hbytes := parses_bytes c x hheld
  rw [hx] at hbytes
  cases hdecode : granted (shiftJisToUtf8 os (cText x)) with
  | some t =>
      exact reads_alloc _ fun _ => hbytes.bind (reads_onHeap (mbcsToUtf8_steady os _ _) hdecode _)
  | none =>
      have hrefuses : Refuses (BinaryReader.onHeap (shiftJisToUtf8 os (cText x))) (c.advance n) := by
        intro r _ _ t ht
        rcases hrun : shiftJisToUtf8 os (cText x) r.heap with ⟨e | v, heap'⟩
        · rw [BinaryReader.onHeap, zoom_run, hrun] at ht
          cases ht
        · have hgranted : granted (shiftJisToUtf8 os (cText x)) = some v :=
            (mbcsToUtf8_steady os _ _).granted_of_ok hrun
          rw [hgranted] at hdecode
          cases hdecode
      intro r hr hcalm t ht
      obtain ⟨junk, heap', halloc, hcalm'⟩ := Heap.alloc_calm hcalm
      have hok : BinaryReader.onHeap Heap.alloc r = (.ok junk, { r with heap := heap' }) := by
        rw [BinaryReader.onHeap, zoom_run, halloc]
      rw [bind_ok hok] at ht
      exact hbytes.refuses hrefuses { r with heap := heap' } hr hcalm' t ht

end

end BinaryReader

end SoulsFormats
