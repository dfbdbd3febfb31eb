import SoulsFormats.Core.ReaderSteps
import SoulsFormats.Core.Tables

set_option autoImplicit false

/-! # Readers that end

A loop that is bounded by the data, or by a number it counts to, is modelled with fuel, of which its caller gives enough.
`Ends` says of a computation that it comes to an end: to a value, or to an error of the source. -/

namespace SoulsFormats

open Bytes Fallible

/-- `m` has no loop that could go on without end. -/
def Ends {σ α : Type} (m : Fallible σ SfError α) : Prop := ∀ s e s', m s = (.error e, s') → e ≠ .nonTermination

section

variable {σ τ α β : Type} {m : Fallible σ SfError α}

theorem Ends.pure (a : α) : Ends (Pure.pure a : Fallible σ SfError α) := nofun

theorem Ends.bind {f : α → Fallible σ SfError β} (hm : Ends m) (hf : ∀ a, Ends (f a)) : Ends (m >>= f) := by
  intro s e s' hrun
  rcases hms : m s with ⟨e1 | a, s1⟩
  · rw [bind_error hms] at hrun
    cases hrun
    exact hm s _ _ hms
  · rw [bind_ok hms] at hrun
    exact hf a s1 e s' hrun

theorem Ends.check (c : Prop) [Decidable c] {e : SfError} (he : e ≠ .nonTermination) :
    Ends (Fallible.check c e : Fallible σ SfError Unit) := by
  intro s e' s' hrun
  rw [check_run] at hrun
  split at hrun
  · cases hrun
  · cases hrun
    exact he

theorem Ends.ite {c : Prop} [Decidable c] {m' : Fallible σ SfError α} (hm : Ends m) (hm' : Ends m') :
    Ends (if c then m else m') := by
  split
  · exact hm
  · exact hm'

theorem Ends.state {f : σ → Fallible σ SfError β} (hf : ∀ s, Ends (f s)) : Ends (Fallible.state >>= f) :=
  fun s e s' hrun => hf s s e s' hrun

theorem Ends.peek (g : σ → α) : Ends (Fallible.peek g : Fallible σ SfError α) := nofun

theorem Ends.zoom {get : σ → τ} {put : τ → σ → σ} {m : Fallible τ SfError α} (hm : Ends m) :
    Ends (Fallible.zoom get put m) := by
  intro s e s' hrun
  rw [zoom_run, Prod.mk.injEq] at hrun
  exact hm (get s) e _ (Prod.ext hrun.1 rfl)

theorem ends_heapAlloc : Ends Heap.alloc := by
  intro heap e heap' hrun
  obtain ⟨rfl, -⟩ := Heap.alloc_error hrun
  decide

end

open BinaryReader

section

variable {α : Type} {m : ReadM α}

theorem ends_alloc : Ends (onHeap Heap.alloc) := ends_heapAlloc.zoom

theorem ends_readBytes (n : Nat) : Ends (readBytes n) := by
  intro r e r' hrun
  rw [readBytes, onStream, zoom_run, IStream.read] at hrun
  split at hrun
  · cases hrun
  · rw [state_bind_run] at hrun
    by_cases hroom : (n : Int) ≤ (r.stream.length : Int) - r.stream.memPos
    · rw [check_bind_pos hroom] at hrun
      cases hrun
    · rw [check_bind_neg hroom] at hrun
      cases hrun
      decide

theorem ends_defineReadInt (n : Nat) : Ends (defineReadInt n) :=
  (ends_readBytes n).bind fun _ => Ends.state fun _ => Ends.pure _

theorem ends_readU8 : Ends readU8 := (ends_readBytes 1).bind fun _ => Ends.pure _

theorem ends_readBool : Ends readBool := ends_readU8.bind fun _ => (Ends.check _ (by decide)).bind fun _ => Ends.pure _

theorem ends_readU32 : Ends readU32 := (ends_defineReadInt 4).bind fun _ => Ends.pure _

theorem ends_readI64 : Ends readI64 :=
  ((ends_defineReadInt 8).bind fun _ => Ends.pure _ : Ends readU64).bind fun _ => Ends.pure _

theorem ends_readI32 : Ends readI32 := ends_readU32.bind fun _ => Ends.pure _

theorem ends_readI32s (n : Nat) : Ends (readI32s n) :=
  (Ends.ite (Ends.pure _) ((Ends.check _ (by decide)).bind fun _ => (ends_readBytes _).bind fun _ =>
    Ends.state fun _ => Ends.pure _)).bind fun _ => Ends.pure _

theorem Ends.defineAssertMulti [DecidableEq α] (hm : Ends m) (options : List α) :
    Ends (defineAssertMulti m options) :=
  (Ends.check _ (by decide)).bind fun _ => hm.bind fun _ => Ends.state fun _ =>
    Ends.ite (Ends.pure _) ((Ends.check _ (by decide)).bind fun _ => Ends.pure _)

theorem ends_assertI32 (options : List Int32) : Ends (assertI32 options) := ends_readI32.defineAssertMulti _

theorem ends_assertBool (options : List Bool) : Ends (assertBool options) := ends_readBool.defineAssertMulti _

theorem ends_assertU8 (options : List UInt8) : Ends (assertU8 options) := ends_readU8.defineAssertMulti _

theorem ends_assertAscii (expected : List UInt8) : Ends (assertAscii expected) := by
  unfold assertAscii
  have hrest : Ends (do
      let buf ← readBytes expected.length
      check (buf = expected) .badMagic : ReadM Unit) := (ends_readBytes _).bind fun _ => Ends.check _ (by decide)
  split
  · exact ends_alloc.bind fun _ => hrest
  · exact hrest

theorem ends_readVec3 : Ends readVec3 :=
  ends_readU32.bind fun _ => ends_readU32.bind fun _ => ends_readU32.bind fun _ => Ends.pure _

theorem ends_readEach (hm : Ends m) (n : Nat) : Ends (readEach m n) := by
  induction n with
  | zero => exact Ends.pure _
  | succ n ih => exact hm.bind fun _ => ih.bind fun _ => Ends.pure _

theorem ends_makeRoom (initial count cap : Nat) : Ends (makeRoom initial count cap) :=
  Ends.ite (ends_alloc.bind fun _ => Ends.pure _) (Ends.pure _)

theorem ends_readAppended {initial : Nat} {m : ReadM Nat → ReadM (α × Nat)} (hm : ∀ room, Ends room → Ends (m room))
    (n count cap : Nat) : Ends (readAppended initial m n count cap) := by
  induction n generalizing count cap with
  | zero => exact Ends.pure _
  | succ n ih => exact (hm _ (ends_makeRoom _ _ _)).bind fun _ => (ih _ _).bind fun _ => Ends.pure _

theorem ends_seek (pos : Int) : Ends (onStream (IStream.seek pos)) := by
  intro r e r' hrun
  rw [onStream, zoom_run, IStream.seek_run] at hrun
  split at hrun
  · split at hrun
    · cases hrun
    · cases hrun
      decide
  · cases hrun
    decide

theorem ends_skip (n : Int) : Ends (skip n) := (Ends.peek _).bind fun _ => ends_seek _

theorem ends_stepIn (off : Int) : Ends (stepIn off) := by
  have hupdate (f : BinaryReader → BinaryReader) : Ends (update f : ReadM Unit) := nofun
  have hpush (pos : Nat) : Ends (stepsPush pos) := by
    unfold stepsPush
    refine Ends.state fun r => ?_
    split
    · exact ends_alloc.bind fun _ => (hupdate _).bind fun _ => hupdate _
    · exact hupdate _
  exact (Ends.peek _).bind fun _ => (hpush _).bind fun _ => ends_seek off

theorem ends_stepOut : Ends stepOut := by
  refine Ends.state fun r => ?_
  cases r.steps with
  | nil =>
      intro r e r' hrun
      cases hrun
      decide
  | cons pos rest => exact fun r e r' hrun => ends_seek pos { r with steps := rest } e r' hrun

theorem Ends.steppedIn (hm : Ends m) (off : Int) : Ends (steppedIn off m) := by
  intro r e r' hrun
  rw [BinaryReader.steppedIn] at hrun
  rcases hin : stepIn off r with ⟨e1 | ⟨⟩, r1⟩
  · rw [bind_error hin] at hrun
    cases hrun
    exact ends_stepIn off r _ _ hin
  · rw [bind_ok hin, attempt_bind_run, attempt_bind_run] at hrun
    rcases hread : m r1 with ⟨e1 | a, r2⟩
    · rw [hread] at hrun
      cases hrun
      exact hm r1 _ _ hread
    · rw [hread] at hrun
      cases hrun

theorem Ends.defineGet (hm : Ends m) (off : Int) : Ends (defineGet off m) := by
  intro r e r' hrun
  rw [BinaryReader.defineGet] at hrun
  rcases hin : stepIn off r with ⟨e1 | ⟨⟩, r1⟩
  · rw [bind_error hin] at hrun
    cases hrun
    exact ends_stepIn off r _ _ hin
  · rw [bind_ok hin, attempt_bind_run, attempt_bind_run] at hrun
    rcases hread : m r1 with ⟨e1 | vs, r2⟩
    · rw [hread] at hrun
      cases hrun
      exact hm r1 _ _ hread
    · rw [hread] at hrun
      rcases hout : stepOut r2 with ⟨e1 | ⟨⟩, r3⟩
      · rw [hout] at hrun
        cases hrun
        exact ends_stepOut r2 _ _ hout
      · rw [hout] at hrun
        cases hrun

theorem ends_readI32sAt (count offset : Int32) : Ends (readI32sAt count offset) :=
  Ends.ite (ends_alloc.bind fun _ => (ends_readI32s _).defineGet _) (Ends.pure _)

/-! ## Texts -/

theorem readBytes_remaining {n : Nat} {r r' : BinaryReader} {x : List UInt8} (hn : 0 < n)
    (h : readBytes n r = (.ok x, r')) : r'.length - r'.position < r.length - r.position := by
  rw [readBytes, onStream, zoom_run, IStream.read, if_neg (by omega), state_bind_run] at h
  by_cases hroom : (n : Int) ≤ (r.stream.length : Int) - r.stream.memPos
  · rw [check_bind_pos hroom] at h
    obtain ⟨-, rfl⟩ := Prod.mk.inj h
    change (n : Int) ≤ (r.stream.mem.length : Int) - r.stream.memPos at hroom
    change r.stream.mem.length - (r.stream.memPos + n) < r.stream.mem.length - r.stream.memPos
    omega
  · rw [check_bind_neg hroom] at h
    cases h

/-- Every unit of a text takes bytes from the stream. -/
theorem readTerminated_ends {width fuel cap : Nat} {buf : List UInt8} {r r' : BinaryReader} {e : SfError}
    (hwidth : 0 < width) (hfuel : r.length - r.position < fuel)
    (hrun : readTerminated width fuel cap buf r = (.error e, r')) : e ≠ .nonTermination := by
  induction fuel generalizing cap buf r with
  | zero => omega
  | succ fuel ih =>
      rw [readTerminated] at hrun
      rcases hread : readBytes width r with ⟨e1 | unit, r1⟩
      · rw [bind_error hread] at hrun
        cases hrun
        exact ends_readBytes width r _ _ hread
      · have hless := readBytes_remaining hwidth hread
        rw [bind_ok hread] at hrun
        split at hrun
        · cases hrun
        · split at hrun
          · rcases halloc : onHeap Heap.alloc r1 with ⟨e1 | junk, r2⟩
            · rw [bind_error halloc] at hrun
              cases hrun
              exact ends_alloc r1 _ _ halloc
            · have hsame : r2.stream = r1.stream := by
                rw [onHeap, zoom_run, Prod.mk.injEq] at halloc
                rw [← halloc.2]
              rw [bind_ok halloc] at hrun
              refine ih ?_ hrun
              simp only [BinaryReader.length, position, hsame] at hless hfuel ⊢
              omega
          · exact ih (by omega) hrun

theorem ends_readStrTerminated {width : Nat} (hwidth : 0 < width) {decode : Bool → Decode}
    (hdecode : ∀ be x, Ends (decode be x)) : Ends (readStrTerminated width decode) := by
  refine ends_alloc.bind fun _ => ?_
  intro r e r' hrun
  rw [state_bind_run] at hrun
  rcases hread : readTerminated width (r.length - r.position + 1) 64 [] r with ⟨e1 | buf, r1⟩
  · rw [bind_error hread] at hrun
    cases hrun
    exact readTerminated_ends hwidth (Nat.lt_succ_self _) hread
  · rw [bind_ok hread] at hrun
    exact (hdecode _ _).zoom r1 e r' hrun

theorem ends_utf16ToUtf8 (os : Win32) (be : Bool) (x : List UInt8) : Ends (utf16ToUtf8 os be x) := by
  have hrest : Ends (do
      let out := os.WideCharToMultiByte .utf8 (codeUnits be x)
      check (0 < out.length) .invalidArg
      let _ ← Heap.alloc
      pure out : Fallible Heap SfError (List UInt8)) :=
    (Ends.check _ (by decide)).bind fun _ => ends_heapAlloc.bind fun _ => Ends.pure _
  unfold utf16ToUtf8
  dsimp only
  split
  · exact ends_heapAlloc.bind fun _ => Ends.pure _
  · refine (Ends.check _ (by decide)).bind fun _ => ?_
    split
    · exact ends_heapAlloc.bind fun _ => hrest
    · exact hrest

theorem ends_getUtf16 (os : Win32) (off : Int) : Ends (getUtf16 os off) := by
  refine Ends.defineGet (ends_readStrTerminated (by decide) fun be x => ?_) off
  unfold utf16Decode
  split
  · exact ends_utf16ToUtf8 os true x
  · exact ends_utf16ToUtf8 os false x

end

end SoulsFormats
