import SoulsFormats.Core.BackPatch

set_option autoImplicit false

/-! # What the final file holds

A program that only writes forward, reserves and fills determines the bytes of the final file piece by
piece, long before the file is complete: every byte that is not open is there to stay. `AtEnd X w`
says that `w` writes forward and that the live slices and the indices in `X` are all that is open;
`Becomes X w B` that the final bytes `B` agree with `w` everywhere else. Each operation leads from
`Becomes` after it to `Becomes` before it, and to a slice of `B`. -/

namespace SoulsFormats

open Bytes Fallible OpenAddressing

namespace BinaryWriter

variable {X : Nat → Prop} {w w1 w' : BinaryWriter} {B : List UInt8}

/-- The writer stands at its end, and no two of its open slices overlap. -/
structure AtEnd (X : Nat → Prop) (w : BinaryWriter) : Prop where
  inv : w.Inv
  position : w.position = w.length
  apart : ∀ k k' p p', w.reserved k = some p → w.reserved k' = some p' → k ≠ k' →
    p + kindWidth k.2 ≤ p' ∨ p' + kindWidth k'.2 ≤ p
  clear : ∀ k p i, w.reserved k = some p → X i → i < p ∨ p + kindWidth k.2 ≤ i
  below : ∀ i, X i → i < w.length

/-- The byte at `i` is still to be decided. -/
def IsOpen (X : Nat → Prop) (w : BinaryWriter) (i : Nat) : Prop :=
  X i ∨ ∃ k p, w.reserved k = some p ∧ p ≤ i ∧ i < p + kindWidth k.2

/-- `B` is what the file may still become. -/
def Becomes (X : Nat → Prop) (w : BinaryWriter) (B : List UInt8) : Prop :=
  w.length ≤ B.length ∧ ∀ i, i < w.length → ¬ IsOpen X w i → B[i]? = w.content[i]?

/-- A writer over an empty stream, whatever room the stream has. -/
theorem atEnd_createOver {s : OStream} (hempty : s.memSize = 0) (hpos : s.memPos = 0) (be : Bool) :
    AtEnd (fun _ => False) (createOver s be) := by
  refine ⟨createOver_inv hempty be, hpos.trans hempty.symm, ?_, ?_, ?_⟩
  · intro k k' p p' hp
    cases hp
  · intro k p i hp
    cases hp
  · intro i hi
    exact hi.elim

theorem atEnd_create (be : Bool) (heap : Heap) : AtEnd (fun _ => False) (create be heap) :=
  atEnd_createOver rfl rfl be

/-- The file may stay as it is. -/
theorem becomes_self (h : AtEnd X w) : Becomes X w w.content :=
  ⟨(length_content h.inv.ready.1).ge, fun _ _ _ => rfl⟩

/-- What is finished is what the writer holds, and no reservation is open then. -/
theorem finishBytes_ok {w w' : BinaryWriter} {out : List UInt8} (h : finishBytes w = (.ok out, w')) :
    w.content = out ∧ w.resLive = 0 := by
  rw [finishBytes, state_bind_run] at h
  obtain ⟨_, w2, hcheck, hfinish⟩ := bind_eq_ok.1 h
  obtain ⟨bytes, w3, harray, hfinish⟩ := bind_eq_ok.1 hfinish
  obtain ⟨_, w4, hclose, hpure⟩ := bind_eq_ok.1 hfinish
  cases hpure
  rw [check_run] at hcheck
  split at hcheck
  swap
  · cases hcheck
  next hlive =>
    cases hcheck
    refine ⟨?_, by omega⟩
    rw [toArray, state_bind_run] at harray
    split at harray
    · obtain ⟨_, w5, -, hpure⟩ := bind_eq_ok.1 harray
      cases hpure
      rfl
    · cases harray
      rfl

/-- What a successful `_write_to_memory` returns is what the body leaves, and no reservation is open
    then. -/
theorem writeToMemory_ok {be : Bool} {body : WriteM Unit} {heap : Heap} {out : List UInt8}
    (h : (writeToMemory be body heap).1 = .ok out) :
    ∃ heap' w', body (create be heap') = (.ok (), w') ∧ w'.content = out ∧ w'.resLive = 0 ∧
      (heap.Calm → heap'.Calm) := by
  have hrun : writeToMemory be body heap = (.ok out, (writeToMemory be body heap).2) := Prod.ext h rfl
  obtain ⟨_, h1, halloc, hrun⟩ := bind_eq_ok.1 hrun
  obtain ⟨_, h2, halloc', hrun⟩ := bind_eq_ok.1 hrun
  have hcalm : heap.Calm → h2.Calm := by
    intro hcalm
    have hcalm1 := Heap.alloc_keeps _ hcalm
    rw [halloc] at hcalm1
    have hcalm2 := Heap.alloc_keeps _ hcalm1
    rwa [halloc'] at hcalm2
  have hbody : (body >>= fun _ => finishBytes) (create be h2)
      = (.ok out, ((body >>= fun _ => finishBytes) (create be h2)).2) :=
    Prod.ext (Prod.mk.inj hrun).1 rfl
  obtain ⟨_, w1, hbody, hfinish⟩ := bind_eq_ok.1 hbody
  obtain ⟨hcontent, hlive⟩ := finishBytes_ok hfinish
  exact ⟨h2, w1, hbody, hcontent, hlive, hcalm⟩

/-! ## One operation -/

/-- Writing bytes at the end. -/
theorem AtEnd.wrote (h : AtEnd X w) {x : List UInt8} (hwrote : Wrote x w w') :
    AtEnd X w' ∧ w'.reserved = w.reserved ∧
      ∀ B, Becomes X w' B → Becomes X w B ∧ Holds B w.position x := by
  have hmap : w'.reserved = w.reserved := reserved_of_slots hwrote.resSlots
  by_cases hx : x = []
  · subst hx
    have hcontent : w'.content = w.content := by rw [hwrote.content, if_pos rfl]
    have hlen : w'.length = w.length := by rw [hwrote.length h.inv.ready.1, if_pos rfl]
    have hpos : w'.position = w.position := hwrote.position
    have hopen : ∀ i, IsOpen X w' i ↔ IsOpen X w i := by
      intro i
      rw [IsOpen, IsOpen, hmap]
    refine ⟨⟨?_, by rw [hpos, hlen, h.position], by rw [hmap]; exact h.apart,
      by rw [hmap]; exact h.clear, by rw [hlen]; exact h.below⟩, hmap, fun B hB => ⟨?_, ?_⟩⟩
    · refine ⟨hwrote.ready h.inv.ready, ?_, by rw [hlen]; exact h.inv.fits, ?_⟩
      · exact h.inv.res.of_slots hwrote.resSlots hwrote.resUsed hwrote.resLive
      · rw [hmap, hlen]
        exact h.inv.inside
    · refine ⟨hlen ▸ hB.1, fun i hi hclosed => ?_⟩
      rw [← hcontent]
      exact hB.2 i (hlen ▸ hi) (mt (hopen i).1 hclosed)
    · rw [holds_nil, h.position, ← hlen]
      exact hB.1
  · have hcontent : w'.content = overwrite w.content w.position x := by
      rw [hwrote.content, if_neg hx]
    have hlen : w'.length = w.length + x.length := by
      rw [hwrote.length h.inv.ready.1, if_neg hx, h.position]
      omega
    have hclen := length_content h.inv.ready.1
    have hfits := hwrote.fits hx
    refine ⟨⟨?_, ?_, by rw [hmap]; exact h.apart, by rw [hmap]; exact h.clear, ?_⟩, hmap,
      fun B hB => ⟨?_, ?_⟩⟩
    · refine ⟨hwrote.ready h.inv.ready, ?_, ?_, ?_⟩
      · exact h.inv.res.of_slots hwrote.resSlots hwrote.resUsed hwrote.resLive
      · rw [hlen, ← h.position]
        exact hfits
      · intro k p hp
        rw [hmap] at hp
        have hin := h.inv.inside k p hp
        omega
    · rw [hwrote.position, hlen, h.position]
    · intro i hi
      have hlt := h.below i hi
      omega
    · refine ⟨by have hle := hB.1; omega, fun i hi hclosed => ?_⟩
      have hclosed' : ¬ IsOpen X w' i := by
        rw [IsOpen, hmap]
        exact hclosed
      rw [hB.2 i (by omega) hclosed', hcontent]
      exact getElem?_overwrite_of_not_mem (.inl (by omega)) (.inl (by rw [h.position]; omega))
    · have hstored : Holds w'.content w.position x := by
        rw [hcontent]
        exact holds_overwrite_self _ _ _
      rw [holds_iff_getElem?] at hstored ⊢
      refine ⟨by have hle := hB.1; rw [h.position]; omega, fun i hi => ?_⟩
      have hclosed : ¬ IsOpen X w' (w.position + i) := by
        rw [IsOpen, hmap, h.position]
        rintro (hX | ⟨k, p, hp, -, hlt⟩)
        · have hlt := h.below _ hX
          omega
        · have hin := h.inv.inside k p hp
          omega
      rw [hB.2 _ (by rw [hlen, h.position]; omega) hclosed]
      exact hstored.2 i hi

/-- Reserving a slice at the end. -/
theorem AtEnd.reserve (h : AtEnd X w) {k : Scalar} {name : List UInt8}
    (hrun : reserveScalar k name w = (.ok (), w')) :
    AtEnd X w' ∧ w'.settings = w.settings ∧
      w.reserved (name, scalarKind w.varintLong k) = none ∧
      w'.reserved = Function.update w.reserved (name, scalarKind w.varintLong k) (some w.position) ∧
      w'.position = w.position + kindWidth (scalarKind w.varintLong k) ∧
      ∀ B, Becomes X w' B → Becomes X w B := by
  obtain ⟨w2, hinv, hset, -, ⟨hok, hfree, hmap, hcontent, hpos, hfits⟩ | ⟨e, herr, -⟩⟩ :=
    reserveScalar_spec h.inv k name
  · rw [hok] at hrun
    cases hrun
    have hclen := length_content h.inv.ready.1
    have hlen : w'.length = w.length + kindWidth (scalarKind w.varintLong k) := by
      rw [← length_content hinv.ready.1, hcontent, length_overwrite, List.length_replicate,
        length_content h.inv.ready.1, h.position]
      omega
    -- a live slice of `w'` is the new one or lies below it
    have hcases : ∀ key p, w'.reserved key = some p →
        (key = (name, scalarKind w.varintLong k) ∧ p = w.position) ∨
          w.reserved key = some p ∧ p + kindWidth key.2 ≤ w.position := by
      intro key p hp
      rw [hmap] at hp
      by_cases hkey : key = (name, scalarKind w.varintLong k)
      · rw [hkey, Function.update_self] at hp
        cases hp
        exact .inl ⟨hkey, rfl⟩
      · rw [Function.update_of_ne hkey] at hp
        exact .inr ⟨hp, by rw [h.position]; exact h.inv.inside key p hp⟩
    refine ⟨⟨hinv, by rw [hpos, hlen, h.position], ?_, ?_, ?_⟩, hset, hfree, hmap, hpos,
      fun B hB => ⟨by have hle := hB.1; omega, fun i hi hclosed => ?_⟩⟩
    · intro key key' p p' hp hp' hne
      rcases hcases key p hp with ⟨rfl, rfl⟩ | ⟨hlive, hle⟩
      · rcases hcases key' p' hp' with ⟨rfl, rfl⟩ | ⟨-, hle'⟩
        · exact absurd rfl hne
        · exact .inr hle'
      · rcases hcases key' p' hp' with ⟨rfl, rfl⟩ | ⟨hlive', -⟩
        · exact .inl hle
        · exact h.apart key key' p p' hlive hlive' hne
    · intro key p i hp hX
      rcases hcases key p hp with ⟨rfl, rfl⟩ | ⟨hlive, -⟩
      · rw [h.position]
        exact .inl (h.below i hX)
      · exact h.clear key p i hlive hX
    · intro i hX
      have hlt := h.below i hX
      omega
    · have hclosed' : ¬ IsOpen X w' i := by
        rintro (hX | ⟨key, p, hp, hlow, hhigh⟩)
        · exact hclosed (.inl hX)
        · rcases hcases key p hp with ⟨rfl, rfl⟩ | ⟨hlive, -⟩
          · rw [h.position] at hlow
            omega
          · exact hclosed (.inr ⟨key, p, hlive, hlow, hhigh⟩)
      rw [hB.2 i (by omega) hclosed', hcontent]
      exact getElem?_overwrite_of_not_mem (.inl (by omega)) (.inl (by rw [h.position]; omega))
  · rw [herr] at hrun
    cases hrun

/-- Filling a slice closes it. -/
theorem AtEnd.fill (h : AtEnd X w) {k : Scalar} {name : List UInt8} {v : k.Value}
    (hrun : fillScalar k name v w = (.ok (), w')) :
    AtEnd X w' ∧ w'.settings = w.settings ∧ w'.position = w.position ∧
      ∃ p, w.reserved (name, scalarKind w.varintLong k) = some p ∧
        w'.reserved = Function.update w.reserved (name, scalarKind w.varintLong k) none ∧
        ∀ B, Becomes X w' B →
          Becomes X w B ∧ Holds B p (scalarBytes w.bigEndian w.varintLong k v) := by
  obtain ⟨w2, hinv, hset, -, hpos, hlen, ⟨p, hok, hlive, hmap, hcontent⟩ | ⟨e, herr, -⟩⟩ :=
    fillScalar_spec h.inv k name v
  · rw [hok] at hrun
    cases hrun
    have hwidth : (scalarBytes w.bigEndian w.varintLong k v).length
        = kindWidth (scalarKind w.varintLong k) := length_scalarBytes ..
    have hclen := length_content h.inv.ready.1
    have hinside := h.inv.inside _ p hlive
    have hcases : ∀ key q, w'.reserved key = some q →
        key ≠ (name, scalarKind w.varintLong k) ∧ w.reserved key = some q := by
      intro key q hq
      rw [hmap] at hq
      by_cases hkey : key = (name, scalarKind w.varintLong k)
      · rw [hkey, Function.update_self] at hq
        cases hq
      · rw [Function.update_of_ne hkey] at hq
        exact ⟨hkey, hq⟩
    refine ⟨⟨hinv, by rw [hpos, hlen, h.position], ?_, ?_, by rw [hlen]; exact h.below⟩, hset, hpos,
      p, hlive, hmap, fun B hB => ⟨⟨hlen ▸ hB.1, fun i hi hclosed => ?_⟩, ?_⟩⟩
    · intro key key' q q' hq hq' hne
      exact h.apart key key' q q' (hcases key q hq).2 (hcases key' q' hq').2 hne
    · intro key q i hq hX
      exact h.clear key q i (hcases key q hq).2 hX
    · have hout : i < p ∨ p + kindWidth (scalarKind w.varintLong k) ≤ i := by
        by_contra hin
        exact hclosed (.inr ⟨_, p, hlive, by omega, by simp only; omega⟩)
      have hclosed' : ¬ IsOpen X w' i := by
        rintro (hX | ⟨key, q, hq, hlow, hhigh⟩)
        · exact hclosed (.inl hX)
        · exact hclosed (.inr ⟨key, q, (hcases key q hq).2, hlow, hhigh⟩)
      rw [hB.2 i (by omega) hclosed', hcontent]
      exact getElem?_overwrite_of_not_mem (.inl (by omega)) (by rw [hwidth]; exact hout)
    · have hstored : Holds w'.content p (scalarBytes w.bigEndian w.varintLong k v) := by
        rw [hcontent]
        exact holds_overwrite_self _ _ _
      simp only at hinside
      rw [holds_iff_getElem?] at hstored ⊢
      refine ⟨by have hle := hB.1; omega, fun i hi => ?_⟩
      have hclosed : ¬ IsOpen X w' (p + i) := by
        rintro (hX | ⟨key, q, hq, hlow, hhigh⟩)
        · rcases h.clear _ p _ hlive hX with hlt | hge
          · omega
          · simp only at hge
            omega
        · obtain ⟨hne, hq'⟩ := hcases key q hq
          rcases h.apart key _ q p hq' hlive hne with hle | hle
          · omega
          · simp only at hle
            omega
      rw [hB.2 _ (by omega) hclosed]
      exact hstored.2 i hi
  · rw [herr] at hrun
    cases hrun

/-- From `w` the program has gone on to `w'`: what was open still is, nothing else has been opened,
    and the final bytes satisfy `F`. -/
structure Extends (X : Nat → Prop) (w w' : BinaryWriter) (F : List UInt8 → Prop) : Prop where
  atEnd : AtEnd X w'
  settings : w'.settings = w.settings
  reserved : w'.reserved = w.reserved
  position_le : w.position ≤ w'.position
  final : ∀ B, Becomes X w' B → Becomes X w B ∧ F B

theorem Extends.bigEndian {F : List UInt8 → Prop} (h : Extends X w w' F) :
    w'.bigEndian = w.bigEndian := congrArg Prod.fst h.settings

theorem Extends.varintLong {F : List UInt8 → Prop} (h : Extends X w w' F) :
    w'.varintLong = w.varintLong := congrArg (fun s => s.2.1) h.settings

theorem Extends.refl {F : List UInt8 → Prop} (h : AtEnd X w) (hF : ∀ B, Becomes X w B → F B) :
    Extends X w w F :=
  ⟨h, rfl, rfl, le_rfl, fun B hB => ⟨hB, hF B hB⟩⟩

theorem Extends.trans {F G : List UInt8 → Prop} (h : Extends X w w1 F) (h' : Extends X w1 w' G) :
    Extends X w w' fun B => F B ∧ G B := by
  refine ⟨h'.atEnd, h'.settings.trans h.settings, h'.reserved.trans h.reserved,
    h.position_le.trans h'.position_le, fun B hB => ?_⟩
  obtain ⟨hB1, hG⟩ := h'.final B hB
  obtain ⟨hB0, hF⟩ := h.final B hB1
  exact ⟨hB0, hF, hG⟩

theorem Extends.mono {F G : List UInt8 → Prop} (h : Extends X w w' F) (hFG : ∀ B, F B → G B) :
    Extends X w w' G :=
  ⟨h.atEnd, h.settings, h.reserved, h.position_le, fun B hB =>
    ⟨(h.final B hB).1, hFG B (h.final B hB).2⟩⟩

theorem AtEnd.extends (h : AtEnd X w) {x : List UInt8} (hwrote : Wrote x w w') :
    Extends X w w' fun B => Holds B w.position x := by
  obtain ⟨hend, hmap, hfinal⟩ := h.wrote hwrote
  refine ⟨hend, ?_, hmap, by rw [hwrote.position]; omega, hfinal⟩
  simp only [BinaryWriter.settings, hwrote.bigEndian, hwrote.varintLong, hwrote.steps]

/-! ## A region that is written twice -/

/-- What has just been written may still be written over. -/
theorem AtEnd.reopen (h : AtEnd X w) {x : List UInt8} (hwrote : Wrote x w w') :
    AtEnd (fun i => X i ∨ w.position ≤ i ∧ i < w.position + x.length) w' ∧
      ∀ B, Becomes (fun i => X i ∨ w.position ≤ i ∧ i < w.position + x.length) w' B →
        Becomes X w B := by
  obtain ⟨h', hmap, -⟩ := h.wrote hwrote
  have hlen : w'.length = w.length + x.length := by
    rw [← h'.position, hwrote.position, h.position]
  have hbelow : ∀ k p, w'.reserved k = some p → p + kindWidth k.2 ≤ w.position := by
    intro k p hp
    rw [hmap] at hp
    rw [h.position]
    exact h.inv.inside k p hp
  refine ⟨⟨h'.inv, h'.position, h'.apart, ?_, ?_⟩, fun B hB => ⟨?_, fun i hi hclosed => ?_⟩⟩
  · rintro k p i hp (hX | ⟨hlow, -⟩)
    · exact h'.clear k p i hp hX
    · have hle := hbelow k p hp
      omega
  · rintro i (hX | ⟨-, hhigh⟩)
    · exact h'.below i hX
    · rw [hlen, ← h.position]
      exact hhigh
  · have hle := hB.1
    omega
  · have hpos := h.position
    have hclosed' : ¬ IsOpen (fun i => X i ∨ w.position ≤ i ∧ i < w.position + x.length) w' i := by
      rintro ((hX | ⟨hlow, -⟩) | ⟨k, p, hp, hlow, hhigh⟩)
      · exact hclosed (.inl hX)
      · omega
      · exact hclosed (.inr ⟨k, p, hmap ▸ hp, hlow, hhigh⟩)
    rw [hB.2 i (by omega) hclosed', hwrote.content]
    split
    · rfl
    · rw [getElem?_overwrite_of_not_mem (.inl (by rw [length_content h.inv.ready.1]; exact hi))
        (.inl (by omega))]

/-- Stepping in to a region that is open, writing exactly that region, and stepping out. -/
theorem AtEnd.patch {p : Nat} {x : List UInt8} {w2 w3 : BinaryWriter}
    (h : AtEnd (fun i => X i ∨ p ≤ i ∧ i < p + x.length) w) (hX : ∀ i, X i → i < p)
    (hlen : p + x.length ≤ w.length) (hin : stepIn p w = (.ok (), w1)) (hwrote : Wrote x w1 w2)
    (hout : stepOut w2 = (.ok (), w3)) :
    AtEnd X w3 ∧ w3.settings = w.settings ∧ w3.position = w.position ∧ w3.reserved = w.reserved ∧
      ∀ B, Becomes X w3 B →
        Becomes (fun i => X i ∨ p ≤ i ∧ i < p + x.length) w B ∧ Holds B p x := by
  obtain ⟨q, g, cap, hq, rfl⟩ := stepIn_ok_inv h.inv.ready hin
  have hqp : p = q := Int.ofNat.inj hq
  subst hqp
  have hready : Ready { w with
      stream := { w.stream with heap := g, memPos := p }
      steps := w.position :: w.steps
      stepsCap := cap } := h.inv.ready
  obtain ⟨pos, rest, hsteps, rfl⟩ := stepOut_ok_inv (hwrote.ready hready) hout
  rw [hwrote.steps] at hsteps
  cases hsteps
  have hclen := length_content h.inv.ready.1
  have hmap : BinaryWriter.reserved { w2 with
      stream := { w2.stream with memPos := w.position }, steps := w.steps } = w.reserved :=
    reserved_of_slots hwrote.resSlots
  have hlen3 : w2.stream.memSize = w.length := by
    have hl := hwrote.length hready.1
    change w2.stream.memSize = _ at hl
    rw [hl]
    change (if x = [] then w.length else max w.length (p + x.length)) = w.length
    split
    · rfl
    · exact Nat.max_eq_left hlen
  have hcontent : ∀ i, i < w.length → (i < p ∨ p + x.length ≤ i) →
      w2.content[i]? = w.content[i]? := by
    intro i hi hout
    rw [hwrote.content]
    split
    · rfl
    · exact getElem?_overwrite_of_not_mem (.inl (by
        change i < w.content.length
        rw [hclen]
        exact hi)) hout
  have hclear : ∀ k q, w.reserved k = some q → ∀ i, p ≤ i → i < p + x.length →
      i < q ∨ q + kindWidth k.2 ≤ i :=
    fun k q hq i hlow hhigh => h.clear k q i hq (.inr ⟨hlow, hhigh⟩)
  have hset : (w2.bigEndian, w2.varintLong, w.steps) = w.settings := by
    rw [hwrote.bigEndian, hwrote.varintLong]
    rfl
  refine ⟨⟨⟨⟨?_, ?_⟩, ?_, ?_, ?_⟩, ?_, ?_, ?_, ?_⟩, hset, rfl, hmap, fun B hB => ⟨⟨?_, ?_⟩, ?_⟩⟩
  · exact hwrote.wf
  · exact (hwrote.closed.trans h.inv.ready.2)
  · exact h.inv.res.of_slots hwrote.resSlots hwrote.resUsed hwrote.resLive
  · show w2.stream.memSize ≤ SIZE_MAX
    rw [hlen3]
    exact h.inv.fits
  · intro k q hq
    rw [hmap] at hq
    show q + kindWidth k.2 ≤ w2.stream.memSize
    rw [hlen3]
    exact h.inv.inside k q hq
  · show w.position = w2.stream.memSize
    rw [hlen3, h.position]
  · rw [hmap]
    exact h.apart
  · intro k q i hq hXi
    rw [hmap] at hq
    exact h.clear k q i hq (.inl hXi)
  · intro i hXi
    show i < w2.stream.memSize
    rw [hlen3]
    exact h.below i (.inl hXi)
  · have hle := hB.1
    change w2.stream.memSize ≤ B.length at hle
    rwa [hlen3] at hle
  · intro i hi hclosed
    have hclosed' : ¬ IsOpen X { w2 with
        stream := { w2.stream with memPos := w.position }, steps := w.steps } i := by
      rw [IsOpen, hmap]
      rintro (hXi | hlive)
      · exact hclosed (.inl (.inl hXi))
      · exact hclosed (.inr hlive)
    have hget := hB.2 i (by show i < w2.stream.memSize; rw [hlen3]; exact hi) hclosed'
    rw [hget]
    refine hcontent i hi ?_
    by_contra hin
    exact hclosed (.inl (.inr ⟨by omega, by omega⟩))
  · have hstored : x = [] ∨ Holds w2.content p x := by
      by_cases hx : x = []
      · exact .inl hx
      · right
        rw [hwrote.content, if_neg hx]
        exact holds_overwrite_self _ _ _
    have hle := hB.1
    change w2.stream.memSize ≤ B.length at hle
    rw [hlen3] at hle
    rcases hstored with rfl | hstored
    · rw [holds_nil]
      simp only [List.length_nil] at hlen
      omega
    · rw [holds_iff_getElem?] at hstored ⊢
      refine ⟨by omega, fun i hi => ?_⟩
      have hclosed : ¬ IsOpen X { w2 with
          stream := { w2.stream with memPos := w.position }, steps := w.steps } (p + i) := by
        rw [IsOpen, hmap]
        rintro (hXi | ⟨k, q, hq, hlow, hhigh⟩)
        · have hlt := hX _ hXi
          omega
        · have hsep := hclear k q hq (p + i) (by omega) (by omega)
          omega
      have hget := hB.2 (p + i) (by show p + i < w2.stream.memSize; rw [hlen3]; omega) hclosed
      rw [hget]
      exact hstored.2 i hi

/-! ## Straight-line programs -/

/-- The calls that only go forward: writes, reservations and the two flags. -/
def WriterCall.IsForward : WriterCall → Prop
  | stepIn _ => False
  | stepOut => False
  | fill _ _ _ => False
  | _ => True

/-- The keys a program reserves. -/
def reservedKeys (long : Bool) : List WriterCall → List ResKey
  | [] => []
  | .reserve k name :: rest => (name, scalarKind long k) :: reservedKeys long rest
  | c :: rest => reservedKeys (c.varintLongAfter long) rest

/-- The final bytes of a program from the position `pos` on, where `ρ` gives what is filled in. -/
def layout (os : Win32) (ρ : ResKey → List UInt8) (be long : Bool) (pos : Nat) :
    List WriterCall → List UInt8
  | [] => []
  | .reserve k name :: rest =>
    ρ (name, scalarKind long k) ++
      layout os ρ be long (pos + kindWidth (scalarKind long k)) rest
  | c :: rest =>
    (c.bytes os be long pos).getD [] ++
      layout os ρ (c.bigEndianAfter be) (c.varintLongAfter long)
        (pos + ((c.bytes os be long pos).getD []).length) rest

/-- One forward call, other than a reservation: the bytes it leaves are final. -/
theorem AtEnd.forward {os : Win32} {c : WriterCall} (h : AtEnd X w) (hc : c.IsForward)
    (hres : ∀ k name, c ≠ .reserve k name) (hrun : c.run os w = (.ok (), w')) :
    AtEnd X w' ∧ w'.reserved = w.reserved ∧ w'.steps = w.steps ∧
      w'.position = w.position
        + ((c.bytes os w.bigEndian w.varintLong w.position).getD []).length ∧
      ∀ B, Becomes X w' B → Becomes X w B ∧
        Holds B w.position ((c.bytes os w.bigEndian w.varintLong w.position).getD []) := by
  have hflag : ∀ w2 : BinaryWriter, w2.stream = w.stream → w2.closed = w.closed →
      w2.resSlots = w.resSlots → w2.resUsed = w.resUsed → w2.resLive = w.resLive →
      w2.steps = w.steps → AtEnd X w2 ∧ w2.reserved = w.reserved ∧ w2.steps = w.steps ∧
        w2.position = w.position + ([] : List UInt8).length ∧
        ∀ B, Becomes X w2 B → Becomes X w B ∧ Holds B w.position [] := by
    intro w2 hstream hclosed hslots hused hlive hsteps
    have hmap : w2.reserved = w.reserved := reserved_of_slots hslots
    have hpos : w2.position = w.position := by rw [BinaryWriter.position, hstream]; rfl
    have hlen : w2.length = w.length := by rw [BinaryWriter.length, hstream]; rfl
    have hcontent : w2.content = w.content := by rw [BinaryWriter.content, hstream]; rfl
    refine ⟨⟨⟨⟨by rw [hstream]; exact h.inv.ready.1, hclosed.trans h.inv.ready.2⟩,
      h.inv.res.of_slots hslots hused hlive, by rw [hlen]; exact h.inv.fits,
      by rw [hmap, hlen]; exact h.inv.inside⟩, by rw [hpos, hlen, h.position],
      by rw [hmap]; exact h.apart, by rw [hmap]; exact h.clear, by rw [hlen]; exact h.below⟩,
      hmap, hsteps, hpos, fun B hB => ⟨⟨hlen ▸ hB.1, fun i hi hclosed => ?_⟩, ?_⟩⟩
    · have hclosed' : ¬ IsOpen X w2 i := by
        rw [IsOpen, hmap]
        exact hclosed
      rw [hB.2 i (hlen ▸ hi) hclosed', hcontent]
    · rw [holds_nil, h.position, ← hlen]
      exact hB.1
  by_cases hwrite : c.IsWrite
  · obtain ⟨bs, hbs, hwrote⟩ := (c.emitsAt os hwrite h.inv.ready).wrote hrun
    obtain ⟨hend, hmap, hfinal⟩ := h.wrote hwrote
    rw [hbs]
    exact ⟨hend, hmap, hwrote.steps, hwrote.position, hfinal⟩
  · cases c with
    | stepIn pos => exact hc.elim
    | stepOut => exact hc.elim
    | fill k name v => exact hc.elim
    | reserve k name => exact absurd rfl (hres k name)
    | setBigEndian be =>
        cases hrun
        exact hflag _ rfl rfl rfl rfl rfl rfl
    | setVarintLong l =>
        cases hrun
        exact hflag _ rfl rfl rfl rfl rfl rfl
    | _ => exact absurd trivial hwrite

/-- **What a straight-line program leaves in the final file.** Its keys stay live, and with the bytes
    that are filled in under them the final bytes from its start on are its `layout`. -/
theorem AtEnd.runAll {os : Win32} (cs : List WriterCall) (hcs : ∀ c ∈ cs, c.IsForward)
    (h : AtEnd X w) (hrun : runAll os cs w = (.ok (), w')) :
    AtEnd X w' ∧ w'.steps = w.steps ∧
      w'.bigEndian = cs.foldl WriterCall.bigEndianAfter w.bigEndian ∧
      w'.varintLong = cs.foldl WriterCall.varintLongAfter w.varintLong ∧
      (∀ key, w.reserved key ≠ none → w'.reserved key = w.reserved key) ∧
      (∀ key, w.reserved key = none →
        (w'.reserved key ≠ none ↔ key ∈ reservedKeys w.varintLong cs)) ∧
      ∀ ρ : ResKey → List UInt8,
        (∀ key ∈ reservedKeys w.varintLong cs, (ρ key).length = kindWidth key.2) →
        w'.position = w.position
          + (layout os ρ w.bigEndian w.varintLong w.position cs).length ∧
        ∀ B, Becomes X w' B → Becomes X w B ∧
          ((∀ key ∈ reservedKeys w.varintLong cs, ∀ p, w'.reserved key = some p →
            Holds B p (ρ key)) →
          Holds B w.position (layout os ρ w.bigEndian w.varintLong w.position cs)) := by
  induction cs generalizing w with
  | nil =>
      cases hrun
      refine ⟨h, rfl, rfl, rfl, fun _ _ => rfl, fun key hkey => ?_, fun ρ _ => ⟨rfl, fun B hB =>
        ⟨hB, fun _ => ?_⟩⟩⟩
      · simp [hkey, reservedKeys]
      · rw [layout, holds_nil, h.position]
        exact hB.1
  | cons c rest ih =>
      obtain ⟨w1, hc, hrest⟩ := runAll_cons_eq_ok hrun
      obtain ⟨hbe, hlong⟩ := flags_after h.inv hc
      have hforward := hcs c List.mem_cons_self
      have hothers : ∀ c ∈ rest, c.IsForward := fun c' hc' => hcs c' (List.mem_cons_of_mem c hc')
      by_cases hreserve : ∃ k name, c = .reserve k name
      · obtain ⟨k, name, rfl⟩ := hreserve
        obtain ⟨h1, hset, hfree, hmap, hpos, hback⟩ := h.reserve hc
        obtain ⟨h2, hsteps, hbe2, hlong2, hkeep, hnew, hlay⟩ := ih hothers h1 hrest
        have hsteps1 : w1.steps = w.steps := congrArg (fun s => s.2.2) hset
        rw [hbe, hlong] at hlay
        rw [hlong] at hnew hlong2
        rw [hbe] at hbe2
        have hlive : w'.reserved (name, scalarKind w.varintLong k) = some w.position := by
          rw [hkeep _ (by rw [hmap, Function.update_self]; exact Option.some_ne_none _), hmap,
            Function.update_self]
        refine ⟨h2, hsteps.trans hsteps1, hbe2, hlong2, ?_, ?_, fun ρ hρ => ?_⟩
        · intro key hkey
          have hne : key ≠ (name, scalarKind w.varintLong k) := by
            rintro rfl
            exact hkey hfree
          rw [hkeep key (by rw [hmap, Function.update_of_ne hne]; exact hkey), hmap,
            Function.update_of_ne hne]
        · intro key hkey
          rw [reservedKeys, List.mem_cons]
          by_cases hne : key = (name, scalarKind w.varintLong k)
          · rw [hne, hlive]
            simp
          · have h1key : w1.reserved key = none := by rw [hmap, Function.update_of_ne hne, hkey]
            rw [hnew key h1key]
            simp only [hne, false_or]
            rfl
        · obtain ⟨hpos2, hlayout⟩ := hlay ρ fun key hkey => hρ key (List.mem_cons_of_mem _ hkey)
          have hwidth := hρ (name, scalarKind w.varintLong k) List.mem_cons_self
          rw [hpos] at hpos2 hlayout
          refine ⟨?_, fun B hB => ?_⟩
          · rw [hpos2, layout, List.length_append, hwidth, Nat.add_assoc]
            rfl
          · obtain ⟨hB1, hslice⟩ := hlayout B hB
            refine ⟨hback B hB1, fun hfilled => ?_⟩
            rw [layout, holds_append, hwidth]
            exact ⟨hfilled _ List.mem_cons_self _ hlive,
              hslice fun key hkey => hfilled key (List.mem_cons_of_mem _ hkey)⟩
      · have hres : ∀ k name, c ≠ .reserve k name := fun k name heq => hreserve ⟨k, name, heq⟩
        obtain ⟨h1, hmap, hsteps1, hpos, hback⟩ := h.forward hforward hres hc
        obtain ⟨h2, hsteps, hbe2, hlong2, hkeep, hnew, hlay⟩ := ih hothers h1 hrest
        have hkeys : reservedKeys w.varintLong (c :: rest)
            = reservedKeys (c.varintLongAfter w.varintLong) rest := by
          cases c <;> first | rfl | exact absurd rfl (hres _ _)
        have hcons : ∀ ρ, layout os ρ w.bigEndian w.varintLong w.position (c :: rest)
            = (c.bytes os w.bigEndian w.varintLong w.position).getD [] ++
              layout os ρ (c.bigEndianAfter w.bigEndian) (c.varintLongAfter w.varintLong)
                (w.position
                  + ((c.bytes os w.bigEndian w.varintLong w.position).getD []).length) rest := by
          intro ρ
          cases c <;> first | rfl | exact absurd rfl (hres _ _)
        rw [hbe, hlong, hpos] at hlay
        rw [hlong] at hnew hlong2
        rw [hbe] at hbe2
        rw [hmap] at hkeep hnew
        rw [hkeys]
        refine ⟨h2, hsteps.trans hsteps1, hbe2, hlong2, hkeep, hnew, fun ρ hρ => ?_⟩
        obtain ⟨hpos2, hlayout⟩ := hlay ρ hρ
        rw [hcons]
        refine ⟨by rw [hpos2, List.length_append, Nat.add_assoc], fun B hB => ?_⟩
        obtain ⟨hB1, hslice⟩ := hlayout B hB
        obtain ⟨hB0, hhere⟩ := hback B hB1
        exact ⟨hB0, fun hfilled => holds_append.2 ⟨hhere, hslice hfilled⟩⟩

end BinaryWriter

end SoulsFormats
