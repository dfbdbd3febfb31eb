import SoulsFormats.Library.Bytes
import SoulsFormats.Library.Sweep

set_option autoImplicit false

/-! # Readers of a place and the writers that undo them

A reader takes a value from `n` bytes at `p`, a writer prints a value. `Undone` says that the writer prints the very
bytes that the value was read from, exactly where a condition on these bytes holds. It is closed under changes of the
value and under reading two places one behind the other. -/

namespace Undoing

open Fallible

variable {ε α β : Type} {mem : List UInt8} {p : Int} {m n : Nat}

/-! ## Places -/

/-- The bytes from `p` on, `n` of them, exist. -/
def Inside (mem : List UInt8) (p : Int) (n : Nat) : Prop := 0 ≤ p ∧ p.toNat + n ≤ mem.length

instance : Decidable (Inside mem p n) := inferInstanceAs (Decidable (_ ∧ _))

def slice (mem : List UInt8) (p : Int) (n : Nat) : List UInt8 := (mem.drop p.toNat).take n

theorem length_slice (h : Inside mem p n) : (slice mem p n).length = n := by
  have hfit := h.2
  rw [slice, List.length_take, List.length_drop]
  omega

theorem Inside.split (hp : 0 ≤ p) : Inside mem p (m + n) ↔ Inside mem p m ∧ Inside mem (p + m) n := by
  unfold Inside
  omega

theorem slice_append (hp : 0 ≤ p) : slice mem p m ++ slice mem (p + m) n = slice mem p (m + n) := by
  have hnext : (p + m).toNat = p.toNat + m := by omega
  rw [slice, slice, slice, hnext, ← List.drop_drop, ← List.take_add]

/-- A part that stands somewhere is the slice there. -/
theorem slice_of_holds {bs : List UInt8} (h : Bytes.Holds mem p.toNat bs) : slice mem p bs.length = bs := h.take_drop

theorem holds_slice (h : Inside mem p n) : Bytes.Holds mem p.toNat (slice mem p n) := by
  obtain ⟨x, rfl, hx⟩ := Bytes.exists_holds h.2
  rwa [slice, hx.take_drop]

/-- Storing at a place leaves a place apart from it as it is. -/
theorem slice_overwrite {bs : List UInt8} {q : Int} (hp : 0 ≤ p) (hq : Inside mem q n)
    (hapart : q + n ≤ p ∨ p + bs.length ≤ q) : slice (Bytes.overwrite mem p.toNat bs) q n = slice mem q n := by
  have hlen := length_slice hq
  have hq0 := hq.1
  have hkeep : Bytes.Holds (Bytes.overwrite mem p.toNat bs) q.toNat (slice mem q n) :=
    (holds_slice hq).overwrite (by omega)
  have hslice := slice_of_holds hkeep
  rwa [hlen] at hslice

/-! ## Undoing -/

/-- Where the reader accepts the place `p`, the writer prints it again exactly if `G` holds. -/
structure Undone (mem : List UInt8) (p : Int) (n : Nat) (r : Except ε α) (w : α → Except ε (List UInt8))
    (G : Prop) : Prop where
  inside : ∀ a, r = .ok a → Inside mem p n
  reads : Inside mem p n → G → ∃ a, r = .ok a
  length : ∀ a bs, w a = .ok bs → bs.length = n
  prints : ∀ a, r = .ok a → (w a = .ok (slice mem p n) ↔ G)

namespace Undone

variable {r : Except ε α} {w : α → Except ε (List UInt8)} {G H : Prop}

theorem congr (h : Undone mem p n r w G) (hG : G ↔ H) : Undone mem p n r w H := by
  rwa [propext hG] at h

/-- The same bytes read as another type. -/
theorem map (h : Undone mem p n r w G) {f : α → β} {w' : β → Except ε (List UInt8)} (hf : ∀ a, w' (f a) = w a)
    (hlength : ∀ b bs, w' b = .ok bs → bs.length = n) :
    Undone mem p n (do let a ← r; pure (f a)) w' G where
  inside := by
    intro b hb
    obtain ⟨a, ha, -⟩ := except_bind_eq_ok.1 hb
    exact h.inside a ha
  reads := by
    intro hinside hG
    obtain ⟨a, rfl⟩ := h.reads hinside hG
    exact ⟨f a, rfl⟩
  length := hlength
  prints := by
    intro b hb
    obtain ⟨a, ha, hfa⟩ := except_bind_eq_ok.1 hb
    cases hfa
    rw [hf]
    exact h.prints a ha

/-- Two places, one behind the other. -/
theorem seq {r' : Except ε β} {w' : β → Except ε (List UInt8)} (h : Undone mem p m r w G)
    (h' : Undone mem (p + m) n r' w' H) :
    Undone mem p (m + n) (do let a ← r; let b ← r'; pure (a, b))
      (fun x => do let xs ← w x.1; let ys ← w' x.2; pure (xs ++ ys)) (G ∧ H) where
  inside := by
    intro x hx
    obtain ⟨a, ha, hrest⟩ := except_bind_eq_ok.1 hx
    obtain ⟨b, hb, -⟩ := except_bind_eq_ok.1 hrest
    have hfirst := h.inside a ha
    exact (Inside.split hfirst.1).2 ⟨hfirst, h'.inside b hb⟩
  reads := by
    intro hinside hGH
    obtain ⟨hfirst, hsecond⟩ := (Inside.split hinside.1).1 hinside
    obtain ⟨a, rfl⟩ := h.reads hfirst hGH.1
    obtain ⟨b, rfl⟩ := h'.reads hsecond hGH.2
    exact ⟨(a, b), rfl⟩
  length := by
    intro x bs hbs
    obtain ⟨xs, hxs, hrest⟩ := except_bind_eq_ok.1 hbs
    obtain ⟨ys, hys, happend⟩ := except_bind_eq_ok.1 hrest
    cases happend
    rw [List.length_append, h.length _ _ hxs, h'.length _ _ hys]
  prints := by
    intro x hx
    obtain ⟨a, ha, hrest⟩ := except_bind_eq_ok.1 hx
    obtain ⟨b, hb, hpair⟩ := except_bind_eq_ok.1 hrest
    cases hpair
    have hfirst := h.inside a ha
    rw [← slice_append hfirst.1, ← h.prints a ha, ← h'.prints b hb]
    constructor
    · intro hbs
      obtain ⟨xs, hxs, hrest⟩ := except_bind_eq_ok.1 hbs
      obtain ⟨ys, hys, happend⟩ := except_bind_eq_ok.1 hrest
      -- The first parts have the same length, so that the halves agree.
      have hlen : xs.length = (slice mem p m).length := by rw [h.length _ _ hxs, length_slice hfirst]
      obtain ⟨rfl, rfl⟩ := List.append_inj (Except.ok.inj happend) hlen
      exact ⟨hxs, hys⟩
    · rintro ⟨hxs, hys⟩
      simp only [hxs, hys]
      rfl

end Undone

end Undoing
