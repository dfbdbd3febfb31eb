import SoulsFormats.Core.BinaryReader
import SoulsFormats.Library.Building

set_option autoImplicit false

/-! # Objects built from a reader

The steps in which a reader builds an object: reads at an offset, and arrays whose elements are read one after
another. -/

namespace SoulsFormats

open Fallible BinaryReader Built

/-- A function that builds an object from a reader. -/
abbrev ConstructM (ω : Type) := BuildM BinaryReader ω SfError

namespace Construct

variable {ω τ α β : Type}

/-- What is done between a step in to an offset and the step out that follows, also after a failure. -/
def constructAt (off : Int) (m : ConstructM ω α) : ConstructM ω α := do
  reading (stepIn off)
  let e ← attempt m
  let e2 ← attempt (reading stepOut)
  match e, e2 with
  | .error err, _ => fail err
  | .ok _, .error err => fail err
  | .ok v, .ok () => pure v

/-- An element that is read as a whole. -/
def readElement (T : TableOf ω τ) (blank : τ) (read : ReadM τ) (i : Nat) : ConstructM ω Unit :=
  element T blank i do
    let x ← reading read
    assign fun _ => x

/-- The accesses that building makes, from a fresh object on. -/
def logOf (fresh : ω) (m : ConstructM ω α) : ReadM (List Access) := fun r =>
  (.ok (m { source := r, object := fresh }).2.log, (m { source := r, object := fresh }).2.source)

/-! ## What is kept -/

section

variable {I : Built BinaryReader ω → Prop} {J : ω → Prop} {T : TableOf ω τ} {blank : τ} {read : ReadM τ} {i : Nat}

theorem constructAt_keeps (hI : ∀ {γ : Type} (m : ReadM γ), Keeps I (reading m)) {off : Int} {m : ConstructM ω α}
    (hm : Keeps I m) : Keeps I (constructAt off m) := by
  refine (hI _).bind fun _ => hm.attempt.bind fun e => (hI _).attempt.bind fun e2 => ?_
  rcases e with err | v
  · exact Keeps.fail _
  · rcases e2 with err | ⟨⟩
    · exact Keeps.fail _
    · exact Keeps.pure _

/-- After the step in, the object and the log are those of the work. -/
theorem constructAt_snd {off : Int} {r r' : BinaryReader} (h : stepIn off r = (.ok (), r')) (m : ConstructM ω α) (o : ω)
    (log : List Access) :
    (constructAt off m ⟨r, o, log⟩).2.object = (m ⟨r', o, log⟩).2.object ∧
      (constructAt off m ⟨r, o, log⟩).2.log = (m ⟨r', o, log⟩).2.log := by
  rw [constructAt, reading_bind_ok h, attempt_bind_run, attempt_bind_run]
  rcases (m ⟨r', o, log⟩).1 with err | v
  · exact ⟨rfl, rfl⟩
  · cases ((reading stepOut : ConstructM ω Unit) (m ⟨r', o, log⟩).2).1 with
    | error err => exact ⟨rfl, rfl⟩
    | ok v => exact ⟨rfl, rfl⟩

theorem readElement_keeps (hset : ∀ l o, l.length = (T.get o).length → J o → J (T.set l o))
    (hin : ∀ o, J o → i < (T.get o).length) : Keeps (SoundWith J) (readElement T blank read i) := by
  apply element_keeps hset hin
  intro b hb
  rcases h : read b.source with ⟨e | x, r⟩
  · rw [reading_bind_error h _ b.object b.log]
    exact hb
  · rw [reading_bind_ok h _ b.object b.log]
    exact hb

theorem readElement_keeps_unsound : Keeps Unsound (readElement T blank read i) :=
  element_keeps_unsound ((reading_keeps_unsound _).bind fun _ => assign_keeps_unsound _)

end

/-! ## Comparing with the reader alone -/

section

variable {b : Built BinaryReader ω}

theorem mirrors_attempt {m : ConstructM ω α} {m' : ReadM β} {Q : α → β → ω → Prop} (h : Mirrors m m' b Q) :
    Mirrors (attempt m) (attempt m') b fun e e' o =>
      (∃ a x, e = .ok a ∧ e' = .ok x ∧ Q a x o) ∨ ∃ err, e = .error err ∧ e' = .error err := by
  constructor
  · intro e' r hrun
    rw [attempt_run] at hrun
    rcases hm' : m' b.source with ⟨err | x, r'⟩
    · obtain ⟨b', hm, hr⟩ := h.2 err r' hm'
      rw [hm'] at hrun
      cases hrun
      exact ⟨.error err, b', by rw [attempt_run, hm], hr, .inr ⟨err, rfl, rfl⟩⟩
    · obtain ⟨a, b', hm, hr, hQ⟩ := h.1 x r' hm'
      rw [hm'] at hrun
      cases hrun
      exact ⟨.ok a, b', by rw [attempt_run, hm], hr, .inl ⟨a, x, rfl, rfl, hQ⟩⟩
  · intro e r hrun
    cases hrun

theorem mirrors_constructAt {off : Int} {m : ConstructM ω α} {m' : ReadM β} {Q : α → β → ω → Prop}
    (h : ∀ b', b'.object = b.object → Mirrors m m' b' Q) : Mirrors (constructAt off m) (defineGet off m') b Q := by
  refine Mirrors.reading_bind fun _ b1 h1 => (mirrors_attempt (h b1 h1)).bind fun e e' b2 h2 => ?_
  refine (mirrors_attempt (Mirrors.reading stepOut)).bind fun e2 e2' b3 h3 => ?_
  rcases h2 with ⟨a, x, rfl, rfl, hQ⟩ | ⟨err, rfl, rfl⟩
  · rcases h3 with ⟨⟨⟩, ⟨⟩, rfl, rfl, -, hobject⟩ | ⟨err2, rfl, rfl⟩
    · exact Mirrors.pure (by rwa [hobject])
    · exact Mirrors.fail err2
  · exact Mirrors.fail err

/-- Elements that are read one after another into blank ones. -/
theorem mirrors_upTo {T : TableOf ω τ} {blank : τ} {m : ConstructM τ Unit} {m' : ReadM β} {val : β → τ}
    (hm : ∀ b, b.object = blank → Mirrors m m' b fun _ x t => t = val x) (n i : Nat) {done rest : List τ}
    {b : Built BinaryReader ω} (hdone : done.length = i)
    (hb : T.get b.object = done ++ List.replicate n blank ++ rest) :
    Mirrors (upTo (fun j => element T blank j m) n i) (readEach m' n) b fun _ xs o =>
      xs.length = n ∧ o = T.set (done ++ xs.map val ++ rest) b.object := by
  induction n generalizing i done b with
  | zero =>
      have hget : T.get b.object = done ++ rest := by simpa using hb
      exact Mirrors.pure ⟨rfl, by simp [← hget, T.set_get]⟩
  | succ n ih =>
      have hblank : (focus T blank i b).object = blank := by
        simp [focus, hb, List.getD_eq_getElem?_getD, hdone]
      have hset (x : β) : (done ++ List.replicate (n + 1) blank ++ rest).set i (val x) =
          (done ++ [val x]) ++ List.replicate n blank ++ rest := by
        rw [List.append_assoc, List.set_append_right _ _ (by omega), hdone, Nat.sub_self, List.replicate_succ,
          List.cons_append, List.set_cons_zero]
        simp
      have hfirst : Mirrors (element T blank i m) m' b fun _ x o =>
          o = T.set ((done ++ [val x]) ++ List.replicate n blank ++ rest) b.object := by
        have := hm _ hblank
        refine ⟨fun x r hrun => ?_, fun e r hrun => ?_⟩
        · obtain ⟨a, b', hrun', hr, ht⟩ := this.1 x r hrun
          refine ⟨a, _, by rw [element_run, hrun'], hr, ?_⟩
          simp only [ht, hb, hset]
        · obtain ⟨b', hrun', hr⟩ := this.2 e r hrun
          exact ⟨_, by rw [element_run, hrun'], hr⟩
      have hloop : readEach m' (n + 1) = (do
          let x ← m'
          let xs ← readEach m' n
          pure (x :: xs)) := rfl
      have hpure : upTo (fun j => element T blank j m) (n + 1) i = (do
          element T blank i m
          upTo (fun j => element T blank j m) n (i + 1)
          pure ()) := by simp [upTo]
      rw [hloop, hpure]
      refine hfirst.bind fun _ x b1 h1 => ?_
      have hlen : (done ++ [val x]).length = i + 1 := by simp [hdone]
      refine (ih (i + 1) hlen (by rw [h1, T.get_set])).bind fun _ xs b2 h2 => ?_
      exact Mirrors.pure ⟨by simp [h2.1], by rw [h2.2, h1, T.set_set]; simp⟩

theorem mirrors_readElements {T : TableOf ω τ} {blank : τ} {read : ReadM τ} {n : Nat}
    (hb : T.get b.object = List.replicate n blank) :
    Mirrors (upTo (readElement T blank read) n 0) (readEach read n) b fun _ xs o =>
      xs.length = n ∧ o = T.set xs b.object := by
  have hone (b : Built BinaryReader τ) : Mirrors (reading read >>= fun x => assign fun _ => x) read b
      fun _ x t => t = id x := by
    have h : Mirrors (reading read >>= fun x => assign fun _ => x) (read >>= pure) b fun _ x t => t = id x :=
      Mirrors.reading_bind fun x _ _ => Mirrors.assign_pure rfl
    rwa [bind_pure] at h
  have hblank : T.get b.object = [] ++ List.replicate n blank ++ [] := by simp [hb]
  have hall := mirrors_upTo (fun b _ => hone b) n 0 List.length_nil hblank
  exact hall.mono fun _ xs o h => ⟨h.1, by simpa using h.2⟩

end

end Construct

end SoulsFormats
