import SoulsFormats.Core.Layout
import SoulsFormats.Core.Scan

set_option autoImplicit false

/-! # Two files at once

An archive may be split: the headers are in one file and the data in another. Two readers or two writers
then take turns, and ask one allocator. What is known of one of them alone is known of it here. -/

namespace SoulsFormats

open Bytes Fallible

/-- Two readers, and what their allocator will answer next. -/
structure ReaderPair where
  bhd : BinaryReader
  bdt : BinaryReader
  heap : Heap

abbrev ReadPairM := Fallible ReaderPair SfError

namespace ReaderPair

variable {α β : Type}

def onBhd (m : ReadM α) : ReadPairM α :=
  zoom (fun p => { p.bhd with heap := p.heap }) (fun r p => { p with bhd := r, heap := r.heap }) m

def onBdt (m : ReadM α) : ReadPairM α :=
  zoom (fun p => { p.bdt with heap := p.heap }) (fun r p => { p with bdt := r, heap := r.heap }) m

def onHeap (m : Fallible Heap SfError α) : ReadPairM α :=
  zoom ReaderPair.heap (fun h p => { p with heap := h }) m

/-- Run `m` on readers over two blocks; the streams are allocated first, then the readers. -/
def onMemory (bhd bdt : List UInt8) (flexible : Bool) (m : ReadPairM α) : Fallible Heap SfError α := do
  let _ ← Heap.alloc
  let _ ← Heap.alloc
  let _ ← Heap.alloc
  let _ ← Heap.alloc
  fun heap =>
    let (r, p) := m ⟨BinaryReader.create bhd false flexible heap, BinaryReader.create bdt false flexible heap,
      heap⟩
    (r, p.heap)

/-- From the cursors `c` and `d`, `m` yields `a` and stops at `c'` and `d'`. -/
def Reads (m : ReadPairM α) (c d : BinaryReader.Cursor) (a : α) (c' d' : BinaryReader.Cursor) : Prop :=
  ∀ p : ReaderPair, p.bhd.cursor = c → p.bdt.cursor = d → p.heap.Calm →
    ∃ p' : ReaderPair, m p = (.ok a, p') ∧ p'.bhd.cursor = c' ∧ p'.bdt.cursor = d' ∧ p'.heap.Calm

variable {a : α} {b : β} {f : α → ReadPairM β} {c d c1 d1 c2 d2 : BinaryReader.Cursor}

theorem Reads.pure (a : α) (c d : BinaryReader.Cursor) : Reads (Pure.pure a) c d a c d :=
  fun p hc hd hcalm => ⟨p, rfl, hc, hd, hcalm⟩

theorem Reads.bind {m : ReadPairM α} (hm : Reads m c d a c1 d1) (hf : Reads (f a) c1 d1 b c2 d2) :
    Reads (m >>= f) c d b c2 d2 := by
  intro p hc hd hcalm
  obtain ⟨p1, hrun, hc1, hd1, hcalm1⟩ := hm p hc hd hcalm
  obtain ⟨p2, hrun2, h2⟩ := hf p1 hc1 hd1 hcalm1
  exact ⟨p2, (bind_ok hrun f).trans hrun2, h2⟩

theorem Reads.onBhd {m : ReadM α} (hm : BinaryReader.Reads m c a c1) : Reads (onBhd m) c d a c1 d := by
  intro p hc hd hcalm
  obtain ⟨r, hrun, hc1, hcalm1⟩ := hm { p.bhd with heap := p.heap } hc hcalm
  exact ⟨{ p with bhd := r, heap := r.heap }, by rw [ReaderPair.onBhd, zoom_run, hrun], hc1, hd, hcalm1⟩

theorem Reads.onBdt {m : ReadM α} (hm : BinaryReader.Reads m d a d1) : Reads (onBdt m) c d a c d1 := by
  intro p hc hd hcalm
  obtain ⟨r, hrun, hd1, hcalm1⟩ := hm { p.bdt with heap := p.heap } hd hcalm
  exact ⟨{ p with bdt := r, heap := r.heap }, by rw [ReaderPair.onBdt, zoom_run, hrun], hc, hd1, hcalm1⟩

theorem Reads.alloc {f : List UInt8 → ReadPairM β} (hf : ∀ junk, Reads (f junk) c d b c2 d2) :
    Reads (ReaderPair.onHeap Heap.alloc >>= f) c d b c2 d2 := by
  intro p hc hd hcalm
  obtain ⟨junk, h, halloc, hcalm1⟩ := Heap.alloc_calm hcalm
  have hrun : ReaderPair.onHeap Heap.alloc p = (.ok junk, { p with heap := h }) := by
    rw [ReaderPair.onHeap, zoom_run, halloc]
  rw [bind_ok hrun]
  exact hf junk _ hc hd hcalm1

theorem onMemory_ok {bhd bdt : List UInt8} {flexible : Bool} {m : ReadPairM α} (c1 d1 : BinaryReader.Cursor)
    (hm : Reads m ⟨bhd, 0, false, false, [], flexible⟩ ⟨bdt, 0, false, false, [], flexible⟩ a c1 d1)
    {heap : Heap} (hcalm : heap.Calm) : (onMemory bhd bdt flexible m heap).1 = .ok a := by
  obtain ⟨_, h1, halloc1, hcalm1⟩ := Heap.alloc_calm hcalm
  obtain ⟨_, h2, halloc2, hcalm2⟩ := Heap.alloc_calm hcalm1
  obtain ⟨_, h3, halloc3, hcalm3⟩ := Heap.alloc_calm hcalm2
  obtain ⟨_, h4, halloc4, hcalm4⟩ := Heap.alloc_calm hcalm3
  obtain ⟨p, hrun, -⟩ := hm ⟨BinaryReader.create bhd false flexible h4,
    BinaryReader.create bdt false flexible h4, h4⟩ rfl rfl hcalm4
  rw [onMemory, bind_ok halloc1, bind_ok halloc2, bind_ok halloc3]
  refine (congrArg Prod.fst (bind_ok halloc4 _)).trans ?_
  simp only [hrun]

end ReaderPair

/-- Two writers, and what their allocator will answer next. -/
structure WriterPair where
  bhd : BinaryWriter
  bdt : BinaryWriter
  heap : Heap

abbrev WritePairM := Fallible WriterPair SfError

/-- A writer whose allocator will give other answers. -/
def BinaryWriter.withHeap (w : BinaryWriter) (heap : Heap) : BinaryWriter :=
  { w with stream := { w.stream with heap := heap } }

namespace WriterPair

open BinaryWriter (Stand Puts FileSlots Becomes)

variable {α β : Type}

def onBhd (m : WriteM α) : WritePairM α :=
  zoom (fun p => p.bhd.withHeap p.heap) (fun w p => { p with bhd := w, heap := w.stream.heap }) m

def onBdt (m : WriteM α) : WritePairM α :=
  zoom (fun p => p.bdt.withHeap p.heap) (fun w p => { p with bdt := w, heap := w.stream.heap }) m

/-- Finish one writer after the other. -/
def finishBytes : WritePairM (List UInt8 × List UInt8) := do
  let bhd ← onBhd BinaryWriter.finishBytes
  let bdt ← onBdt BinaryWriter.finishBytes
  pure (bhd, bdt)

/-- Write with two writers over fresh streams. -/
def writeToMemory (body : WritePairM Unit) : Fallible Heap SfError (List UInt8 × List UInt8) := do
  let _ ← Heap.alloc
  let _ ← Heap.alloc
  let _ ← Heap.alloc
  let _ ← Heap.alloc
  fun heap =>
    let (r, p) := (body >>= fun _ => finishBytes)
      ⟨BinaryWriter.create false heap, BinaryWriter.create false heap, heap⟩
    (r, p.heap)

variable {σ : Type} {S : FileSlots σ}

/-- Where the two writers stand. -/
structure Describes (S : FileSlots σ) (st td : Stand) (p : WriterPair) : Prop where
  bhd : st.Describes S (p.bhd.withHeap p.heap)
  bdt : td.Describes S (p.bdt.withHeap p.heap)

/-- The answers of the allocator do not move a writer. -/
theorem describes_withHeap {st : Stand} {w : BinaryWriter} (h : st.Describes S w) {heap : Heap}
    (hheap : S.granting → heap.Calm) : st.Describes S (w.withHeap heap) :=
  { atEnd :=
      { inv := ⟨h.atEnd.inv.ready, ⟨h.atEnd.inv.res.table, h.atEnd.inv.res.used, h.atEnd.inv.res.live⟩,
          h.atEnd.inv.fits, h.atEnd.inv.inside⟩
        position := h.atEnd.position
        apart := h.atEnd.apart
        clear := h.atEnd.clear
        below := h.atEnd.below }
    pos := h.pos
    bigEndian := h.bigEndian
    varintLong := h.varintLong
    granting := hheap
    slots := h.slots }

/-- `Puts` for two files. -/
def PutsPair (S : FileSlots σ) (m : WritePairM α) (st td : Stand) (P : α → Stand → Stand → Prop)
    (F : α → List UInt8 → List UInt8 → Prop) : Prop :=
  ∀ (p p' : WriterPair) (v : α), Describes S st td p → m p = (.ok v, p') →
    ∃ st' td', Describes S st' td' p' ∧ P v st' td' ∧
      ∀ B D, Becomes (fun _ => False) p'.bhd B → Becomes (fun _ => False) p'.bdt D →
        Becomes (fun _ => False) p.bhd B ∧ Becomes (fun _ => False) p.bdt D ∧ F v B D

variable {st td : Stand} {m : WriteM α} {f : α → WritePairM β} {P : α → Stand → Prop}
  {F : α → Stand → List UInt8 → Prop} {Q : β → Stand → Stand → Prop} {G : β → List UInt8 → List UInt8 → Prop}

theorem PutsPair.done {a : β} (hQ : Q a st td) (hG : ∀ B D, G a B D) : PutsPair S (pure a) st td Q G := by
  intro p p' v hp hrun
  cases hrun
  exact ⟨st, td, hp, hQ, fun B D hB hD => ⟨hB, hD, hG B D⟩⟩

theorem PutsPair.seq {m : WritePairM α} {P : α → Stand → Stand → Prop} {F : α → List UInt8 → List UInt8 → Prop}
    (hm : PutsPair S m st td P F)
    (hf : ∀ v st' td', P v st' td' → PutsPair S (f v) st' td' Q fun u B D => F v B D → G u B D) :
    PutsPair S (m >>= f) st td Q G := by
  intro p p2 u hp hrun
  obtain ⟨v, p1, hm1, hf1⟩ := bind_eq_ok.1 hrun
  obtain ⟨st1, td1, hp1, hP, hF⟩ := hm p p1 v hp hm1
  obtain ⟨st2, td2, hp2, hQ, hG⟩ := hf v st1 td1 hP p1 p2 u hp1 hf1
  refine ⟨st2, td2, hp2, hQ, fun B D hB hD => ?_⟩
  obtain ⟨hB1, hD1, hFG⟩ := hG B D hB hD
  obtain ⟨hB0, hD0, hFBD⟩ := hF B D hB1 hD1
  exact ⟨hB0, hD0, hFG hFBD⟩

theorem PutsPair.mono {m : WritePairM β} {G' : β → List UInt8 → List UInt8 → Prop} (hm : PutsPair S m st td Q G)
    (h : ∀ v st' td', Q v st' td' → ∀ B D, G v B D → G' v B D) : PutsPair S m st td Q G' := by
  intro p p' v hp hrun
  obtain ⟨st', td', hp', hQ, hG⟩ := hm p p' v hp hrun
  refine ⟨st', td', hp', hQ, fun B D hB hD => ?_⟩
  obtain ⟨hB0, hD0, hGBD⟩ := hG B D hB hD
  exact ⟨hB0, hD0, h v st' td' hQ B D hGBD⟩

/-- What one writer does alone. -/
theorem PutsPair.onBhd (hm : Puts S m st P F) :
    PutsPair S (onBhd m) st td (fun v st' td' => P v st' ∧ td' = td) fun v B _ => ∃ st', P v st' ∧ F v st' B := by
  intro p p' v hp hrun
  rw [WriterPair.onBhd, zoom_run] at hrun
  obtain ⟨hv, rfl⟩ := Prod.mk.inj hrun
  obtain ⟨st', hw', hP, hF⟩ := hm _ _ v hp.bhd (Prod.ext hv rfl)
  refine ⟨st', td, ⟨hw', describes_withHeap hp.bdt hw'.granting⟩, ⟨hP, rfl⟩, fun B D hB hD => ?_⟩
  obtain ⟨hB0, hFB⟩ := hF B hB
  exact ⟨hB0, hD, st', hP, hFB⟩

theorem PutsPair.onBdt (hm : Puts S m td P F) :
    PutsPair S (onBdt m) st td (fun v st' td' => P v td' ∧ st' = st) fun v _ D => ∃ td', P v td' ∧ F v td' D := by
  intro p p' v hp hrun
  rw [WriterPair.onBdt, zoom_run] at hrun
  obtain ⟨hv, rfl⟩ := Prod.mk.inj hrun
  obtain ⟨td', hw', hP, hF⟩ := hm _ _ v hp.bdt (Prod.ext hv rfl)
  refine ⟨st, td', ⟨describes_withHeap hp.bhd hw'.granting, hw'⟩, ⟨hP, rfl⟩, fun B D hB hD => ?_⟩
  obtain ⟨hD0, hFD⟩ := hF D hD
  exact ⟨hB, hD0, td', hP, hFD⟩

/-- **What is returned of two successful writers are the two final files.** -/
theorem PutsPair.toMemory {body : WritePairM Unit} {P : Unit → Stand → Stand → Prop}
    {F : Unit → List UInt8 → List UInt8 → Prop}
    (h : PutsPair S body ⟨0, false, false⟩ ⟨0, false, false⟩ P F) {heap : Heap} (hcalm : heap.Calm)
    {bhd bdt : List UInt8} (hok : (writeToMemory body heap).1 = .ok (bhd, bdt)) : F () bhd bdt := by
  have hrun : writeToMemory body heap = (.ok (bhd, bdt), (writeToMemory body heap).2) := Prod.ext hok rfl
  obtain ⟨_, h1, halloc1, hrun⟩ := bind_eq_ok.1 hrun
  obtain ⟨_, h2, halloc2, hrun⟩ := bind_eq_ok.1 hrun
  obtain ⟨_, h3, halloc3, hrun⟩ := bind_eq_ok.1 hrun
  obtain ⟨_, h4, halloc4, hrun⟩ := bind_eq_ok.1 hrun
  have hcalm1 := Heap.alloc_keeps _ hcalm
  rw [halloc1] at hcalm1
  have hcalm2 := Heap.alloc_keeps _ hcalm1
  rw [halloc2] at hcalm2
  have hcalm3 := Heap.alloc_keeps _ hcalm2
  rw [halloc3] at hcalm3
  have hcalm4 := Heap.alloc_keeps _ hcalm3
  rw [halloc4] at hcalm4
  have hstart : Stand.Describes S ⟨0, false, false⟩ (BinaryWriter.create false h4) :=
    ⟨BinaryWriter.atEnd_create false h4, rfl, rfl, rfl, fun _ => hcalm4, fun s p hp => by cases hp⟩
  have hrun : (body >>= fun _ => finishBytes) ⟨.create false h4, .create false h4, h4⟩
      = (.ok (bhd, bdt), ((body >>= fun _ => finishBytes) ⟨.create false h4, .create false h4, h4⟩).2) :=
    Prod.ext (Prod.mk.inj hrun).1 rfl
  obtain ⟨_, p, hbody, hrun⟩ := bind_eq_ok.1 hrun
  have hpair : Describes S ⟨0, false, false⟩ ⟨0, false, false⟩ ⟨.create false h4, .create false h4, h4⟩ :=
    ⟨hstart, hstart⟩
  obtain ⟨st, td, hp, -, hfinal⟩ := h _ _ _ hpair hbody
  obtain ⟨hB, hD⟩ := And.intro (BinaryWriter.becomes_self hp.bhd.atEnd) (BinaryWriter.becomes_self hp.bdt.atEnd)
  obtain ⟨x, p1, hfinish1, hrun⟩ := bind_eq_ok.1 hrun
  obtain ⟨y, p2, hfinish2, hpure⟩ := bind_eq_ok.1 hrun
  rw [WriterPair.onBhd, zoom_run] at hfinish1
  rw [WriterPair.onBdt, zoom_run] at hfinish2
  obtain ⟨hx, rfl⟩ := Prod.mk.inj hfinish1
  obtain ⟨hy, rfl⟩ := Prod.mk.inj hfinish2
  cases (Prod.mk.inj hpure).1
  obtain ⟨rfl, -⟩ := BinaryWriter.finishBytes_ok (Prod.ext hx rfl)
  obtain ⟨rfl, -⟩ := BinaryWriter.finishBytes_ok (Prod.ext hy rfl)
  exact (hfinal _ _ hB hD).2.2

end WriterPair

end SoulsFormats
