import Mathlib.Data.Int.Interval
import Mathlib.Order.Interval.Finset.Defs
import SoulsFormats.Core.Alike
import SoulsFormats.Core.Ends
import SoulsFormats.Library.Descent
import SoulsFormats.Navmesh.Nvm

set_option autoImplicit false

/-! # The descent into the boxes of an NVM navmesh

The record of a box gives the offsets of its children freely, so that a box can stand in itself. Whether the reader
returns is decided by the graph of the records alone: the boxes are entered one after another, and nothing is done
behind the children. -/

namespace SoulsFormats

open Bytes Fallible BinaryReader

/-! ## The record of a box -/

/-- What `read_box` reads before the children. -/
structure NvmBoxHead where
  minCorner : Vec3
  maxCorner : Vec3
  triangleIndices : List Int32
  childOffsets : List Int32
deriving DecidableEq, Repr

/-- The part of `read_box` before the children. -/
def nvmReadBoxHead : ReadM NvmBoxHead := do
  let _ ← onHeap Heap.alloc
  let minCorner ← readVec3
  let triCount ← readI32
  let maxCorner ← readVec3
  let triOffset ← readI32
  let offset0 ← readI32
  let offset1 ← readI32
  let offset2 ← readI32
  let offset3 ← readI32
  let _ ← assertI32 [0]
  let _ ← assertI32 [0]
  let _ ← assertI32 [0]
  let _ ← assertI32 [0]
  check (0 ≤ triCount.toInt) .outOfRange
  let triangleIndices ← readI32sAt triCount triOffset
  pure ⟨minCorner, maxCorner, triangleIndices, [offset0, offset1, offset2, offset3]⟩

/-- The loop of `read_box` over the children. -/
def nvmReadBoxesAt (readBox : ReadM NvmBox) : List Int32 → ReadM (List NvmBox)
  | [] => pure []
  | offset :: offsets => do
    let child ← nvmReadBoxAt readBox offset
    let children ← nvmReadBoxesAt readBox offsets
    pure (child :: children)

/-- The box of a record and its children. -/
def NvmBoxHead.box (head : NvmBoxHead) (children : List NvmBox) : NvmBox :=
  .box head.minCorner head.maxCorner head.triangleIndices (children.getD 0 .null) (children.getD 1 .null)
    (children.getD 2 .null) (children.getD 3 .null)

theorem nvmReadBox_succ (fuel : Nat) :
    nvmReadBox (fuel + 1) = (do
      let head ← nvmReadBoxHead
      let children ← nvmReadBoxesAt (nvmReadBox fuel) head.childOffsets
      pure (head.box children)) := by
  rw [nvmReadBox, nvmReadBoxHead]
  simp only [nvmReadBoxesAt, NvmBoxHead.box, bind_assoc, pure_bind]
  rfl

theorem alike_nvmReadBoxHead : Alike nvmReadBoxHead := by
  unfold nvmReadBoxHead
  refine Alike.alloc (alike_readVec3.bind fun _ => alike_readI32.bind fun _ => alike_readVec3.bind fun _ => ?_)
  refine alike_readI32.bind fun _ => alike_readI32.bind fun _ => alike_readI32.bind fun _ => ?_
  refine alike_readI32.bind fun _ => alike_readI32.bind fun _ => ?_
  refine (alike_assertI32 _).bind fun _ => (alike_assertI32 _).bind fun _ => ?_
  refine (alike_assertI32 _).bind fun _ => (alike_assertI32 _).bind fun _ => ?_
  exact (Alike.check _ _).bind fun _ => (alike_readI32sAt _ _).bind fun _ => Alike.pure _

theorem ends_nvmReadBoxHead : Ends nvmReadBoxHead := by
  unfold nvmReadBoxHead
  refine ends_alloc.bind fun _ => ends_readVec3.bind fun _ => ends_readI32.bind fun _ => ends_readVec3.bind fun _ => ?_
  refine ends_readI32.bind fun _ => ends_readI32.bind fun _ => ends_readI32.bind fun _ => ?_
  refine ends_readI32.bind fun _ => ends_readI32.bind fun _ => ?_
  refine (ends_assertI32 _).bind fun _ => (ends_assertI32 _).bind fun _ => ?_
  refine (ends_assertI32 _).bind fun _ => (ends_assertI32 _).bind fun _ => ?_
  exact (Ends.check _ (by decide)).bind fun _ => (ends_readI32sAt _ _).bind fun _ => Ends.pure _

theorem alike_nvmReadBoxAt {readBox : ReadM NvmBox} (h : Alike readBox) (offset : Int32) :
    Alike (nvmReadBoxAt readBox offset) :=
  Alike.ite (Alike.pure _) (h.steppedIn _)

theorem alike_nvmReadBoxesAt {readBox : ReadM NvmBox} (h : Alike readBox) (offsets : List Int32) :
    Alike (nvmReadBoxesAt readBox offsets) := by
  induction offsets with
  | nil => exact Alike.pure _
  | cons offset offsets ih => exact (alike_nvmReadBoxAt h offset).bind fun _ => ih.bind fun _ => Alike.pure _

theorem alike_nvmReadBox (fuel : Nat) : Alike (nvmReadBox fuel) := by
  induction fuel with
  | zero => exact Alike.fail _
  | succ fuel ih =>
      rw [nvmReadBox_succ]
      exact alike_nvmReadBoxHead.bind fun _ => (alike_nvmReadBoxesAt ih _).bind fun _ => Alike.pure _

/-! ## The file around the boxes -/

/-- What `sf_nvm_read_from_memory` reads before the boxes. -/
structure NvmPreamble where
  bigEndian : Bool
  vertices : List Vec3
  triangles : List NvmTriangle
  rootBoxOffset : Int32
  entityCount : Int32
  entityOffset : Int32
deriving DecidableEq, Repr

/-- What is read once the byte order is known. -/
def nvmReadPreambleIn (bigEndian : Bool) : ReadM NvmPreamble := do
  let vertexCount ← readI32
  let _ ← assertI32 [0x80]
  check (0 ≤ vertexCount.toInt) .outOfRange
  let triangleCount ← readI32
  check (0x80 + vertexCount.toInt * 0xC ≤ INT32_MAX) .undefinedBehaviour
  let _ ← assertI32 [0x80 + vertexCount * 0xC]
  check (0 ≤ triangleCount.toInt) .outOfRange
  let rootBoxOffset ← readI32
  let _ ← assertI32 [0]
  let entityCount ← readI32
  let entityOffset ← readI32
  check (0 ≤ entityCount.toInt ∧ 0 ≤ rootBoxOffset.toInt ∧ 0 ≤ entityOffset.toInt) .outOfRange
  let _ ← readEach (assertI32 [0]) 23
  let vertices ← readAppended 16 (fun room => do
    let v ← readVec3
    let cap ← room
    pure (v, cap)) vertexCount.toInt.toNat 0 0
  let triangles ← readAppended 16 (fun room => do
    let cap ← room
    let t ← nvmReadTriangle
    pure (t, cap)) triangleCount.toInt.toNat 0 0
  pure ⟨bigEndian, vertices, triangles, rootBoxOffset, entityCount, entityOffset⟩

def nvmReadPreamble : ReadM NvmPreamble := do
  let _ ← onHeap Heap.alloc
  let magic ← assertI32 [1, 0x1000000]
  setBigEndian (magic ≠ 1)
  nvmReadPreambleIn (magic ≠ 1)

def nvmReadEntities (entityCount entityOffset : Int32) : ReadM (List NvmEntity) :=
  steppedIn entityOffset.toInt (readAppended 4 (fun room => do
    let cap ← room
    let e ← nvmReadEntity
    pure (e, cap)) entityCount.toInt.toNat 0 0)

theorem nvmRead_eq (fuel : Nat) :
    nvmRead fuel = (do
      let file ← nvmReadPreamble
      let rootBox ← steppedIn file.rootBoxOffset.toInt (nvmReadBox fuel)
      let entities ← nvmReadEntities file.entityCount file.entityOffset
      pure ⟨file.bigEndian, file.vertices, file.triangles, rootBox, entities⟩) := by
  rw [nvmRead, nvmReadPreamble]
  simp only [nvmReadPreambleIn, nvmReadEntities, bind_assoc, pure_bind]

theorem alike_nvmReadPreambleIn (be : Bool) : Alike (nvmReadPreambleIn be) := by
  unfold nvmReadPreambleIn
  refine alike_readI32.bind fun _ => (alike_assertI32 _).bind fun _ => (Alike.check _ _).bind fun _ => ?_
  refine alike_readI32.bind fun _ => (Alike.check _ _).bind fun _ => (alike_assertI32 _).bind fun _ => ?_
  refine (Alike.check _ _).bind fun _ => alike_readI32.bind fun _ => (alike_assertI32 _).bind fun _ => ?_
  refine alike_readI32.bind fun _ => alike_readI32.bind fun _ => (Alike.check _ _).bind fun _ => ?_
  refine (alike_readEach (alike_assertI32 _) 23).bind fun _ => ?_
  refine (alike_readAppended (fun room hroom => ?_) _ 0 0).bind fun _ =>
    (alike_readAppended (fun room hroom => ?_) _ 0 0).bind fun _ => Alike.pure _
  · exact alike_readVec3.bind fun _ => hroom.bind fun _ => Alike.pure _
  · refine hroom.bind fun _ => Alike.bind ?_ fun _ => Alike.pure _
    refine alike_readI32.bind fun _ => alike_readI32.bind fun _ => alike_readI32.bind fun _ => ?_
    refine alike_readI32.bind fun _ => alike_readI32.bind fun _ => alike_readI32.bind fun _ => ?_
    exact alike_readI32.bind fun _ => (Alike.check _ _).bind fun _ => Alike.pure _

theorem alike_nvmReadPreamble : Alike nvmReadPreamble :=
  Alike.alloc ((alike_assertI32 _).bind fun _ => (alike_setBigEndian _).bind fun _ => alike_nvmReadPreambleIn _)

theorem ends_nvmReadPreamble : Ends nvmReadPreamble := by
  unfold nvmReadPreamble nvmReadPreambleIn
  refine ends_alloc.bind fun _ => (ends_assertI32 _).bind fun _ => Ends.bind nofun fun _ => ?_
  refine ends_readI32.bind fun _ => (ends_assertI32 _).bind fun _ => (Ends.check _ (by decide)).bind fun _ => ?_
  refine ends_readI32.bind fun _ => (Ends.check _ (by decide)).bind fun _ => (ends_assertI32 _).bind fun _ => ?_
  refine (Ends.check _ (by decide)).bind fun _ => ends_readI32.bind fun _ => (ends_assertI32 _).bind fun _ => ?_
  refine ends_readI32.bind fun _ => ends_readI32.bind fun _ => (Ends.check _ (by decide)).bind fun _ => ?_
  refine (ends_readEach (ends_assertI32 _) 23).bind fun _ => ?_
  refine (ends_readAppended (fun room hroom => ?_) _ 0 0).bind fun _ =>
    (ends_readAppended (fun room hroom => ?_) _ 0 0).bind fun _ => Ends.pure _
  · exact ends_readVec3.bind fun _ => hroom.bind fun _ => Ends.pure _
  · refine hroom.bind fun _ => Ends.bind ?_ fun _ => Ends.pure _
    refine ends_readI32.bind fun _ => ends_readI32.bind fun _ => ends_readI32.bind fun _ => ?_
    refine ends_readI32.bind fun _ => ends_readI32.bind fun _ => ends_readI32.bind fun _ => ?_
    exact ends_readI32.bind fun _ => (Ends.check _ (by decide)).bind fun _ => Ends.pure _

theorem alike_nvmReadEntities (entityCount entityOffset : Int32) :
    Alike (nvmReadEntities entityCount entityOffset) := by
  refine (alike_readAppended (fun room hroom => ?_) _ 0 0).steppedIn _
  refine hroom.bind fun _ => Alike.bind ?_ fun _ => Alike.pure _
  refine alike_readI32.bind fun _ => alike_readI32.bind fun _ => alike_readI32.bind fun _ => ?_
  exact (alike_assertI32 _).bind fun _ => (Alike.check _ _).bind fun _ => (alike_readI32sAt _ _).bind fun _ =>
    Alike.pure _

theorem ends_nvmReadEntities (entityCount entityOffset : Int32) : Ends (nvmReadEntities entityCount entityOffset) := by
  refine (ends_readAppended (fun room hroom => ?_) _ 0 0).steppedIn _
  refine hroom.bind fun _ => Ends.bind ?_ fun _ => Ends.pure _
  refine ends_readI32.bind fun _ => ends_readI32.bind fun _ => ends_readI32.bind fun _ => ?_
  exact (ends_assertI32 _).bind fun _ => (Ends.check _ (by decide)).bind fun _ => (ends_readI32sAt _ _).bind fun _ =>
    Ends.pure _

theorem alike_nvmRead (fuel : Nat) : Alike (nvmRead fuel) := by
  rw [nvmRead_eq]
  exact alike_nvmReadPreamble.bind fun _ => ((alike_nvmReadBox fuel).steppedIn _).bind fun _ =>
    (alike_nvmReadEntities _ _).bind fun _ => Alike.pure _

/-! ## The graph of the boxes -/

section

variable (data : List UInt8) (be flexible : Bool)

/-- A reader over the file, in its byte order, that is granted everything. -/
def boxReader : BinaryReader := create data be flexible []

/-- What a call for the box at an offset comes to. -/
def boxRun (fuel : Nat) (p : Int) : Except SfError NvmBox :=
  (steppedIn p (nvmReadBox fuel) (boxReader data be flexible)).1

/-- The boxes of a file by their offsets; an offset of zero stands for no box. -/
def boxDescent : Descent Int where
  enter p :=
    match (steppedIn p nvmReadBoxHead (boxReader data be flexible)).1 with
    | .error _ => none
    | .ok head => some ((head.childOffsets.filter fun offset => offset ≠ 0).map Int32.toInt)
  leave _ := true

variable {data be flexible}

theorem boxReader_onFile : OnFile data ⟨be, false, flexible⟩ (boxReader data be flexible) :=
  ⟨rfl, Nat.zero_le _, rfl, Heap.calm_nil⟩

set_option synthInstance.maxSize 1024 in
instance : Modeless nvmReadBoxHead := by
  unfold nvmReadBoxHead
  infer_instance

instance (readBox : ReadM NvmBox) [Modeless readBox] (offset : Int32) : Modeless (nvmReadBoxAt readBox offset) := by
  unfold nvmReadBoxAt
  infer_instance

instance (readBox : ReadM NvmBox) [Modeless readBox] (offsets : List Int32) :
    Modeless (nvmReadBoxesAt readBox offsets) := by
  induction offsets with
  | nil =>
      unfold nvmReadBoxesAt
      infer_instance
  | cons offset offsets ih =>
      unfold nvmReadBoxesAt
      infer_instance

instance (fuel : Nat) : Modeless (nvmReadBox fuel) := by
  induction fuel with
  | zero =>
      unfold nvmReadBox
      infer_instance
  | succ fuel ih =>
      rw [nvmReadBox_succ]
      infer_instance

/-- The loop over the children makes the calls for the offsets that are not zero, one after another. -/
theorem nvmReadBoxesAt_fst (fuel : Nat) (offsets : List Int32) {r : BinaryReader}
    (hr : OnFile data ⟨be, false, flexible⟩ r) :
    match ((offsets.filter fun offset => offset ≠ 0).map Int32.toInt).mapM (boxRun data be flexible fuel) with
    | .ok _ => ∃ children, (nvmReadBoxesAt (nvmReadBox fuel) offsets r).1 = .ok children
    | .error e => (nvmReadBoxesAt (nvmReadBox fuel) offsets r).1 = .error e := by
  induction offsets generalizing r with
  | nil => exact ⟨[], rfl⟩
  | cons offset offsets ih =>
      rw [nvmReadBoxesAt]
      by_cases hzero : offset = 0
      · have hnull : nvmReadBoxAt (nvmReadBox fuel) offset r = (.ok .null, r) := by rw [nvmReadBoxAt, if_pos hzero]; rfl
        rw [List.filter_cons_of_neg (by simpa using hzero), bind_ok hnull]
        have hrest := ih hr
        split at hrest
        · obtain ⟨children, hchildren⟩ := hrest
          exact ⟨.null :: children, by rw [bind_ok (Prod.ext hchildren rfl)]; rfl⟩
        · next e _ => rw [bind_error (Prod.ext hrest rfl)]
      · have hcall : (nvmReadBoxAt (nvmReadBox fuel) offset r).1 = boxRun data be flexible fuel offset.toInt := by
          rw [nvmReadBoxAt, if_neg hzero]
          exact steppedIn_fst (alike_nvmReadBox fuel) hr boxReader_onFile _
        rw [List.filter_cons_of_pos (by simpa using hzero), List.map_cons, List.mapM_cons]
        cases hrun : boxRun data be flexible fuel offset.toInt with
        | error e =>
            rw [hrun] at hcall
            exact congrArg Prod.fst (bind_error (Prod.ext hcall rfl) _)
        | ok b =>
            rw [hrun] at hcall
            have hchild : nvmReadBoxAt (nvmReadBox fuel) offset r = (.ok b, _) := Prod.ext hcall rfl
            have hrest := ih (hr.after (alike_nvmReadBoxAt (alike_nvmReadBox fuel) offset) hchild)
            rw [bind_ok hchild]
            cases hbelow : ((offsets.filter fun offset => offset ≠ 0).map Int32.toInt).mapM
                (boxRun data be flexible fuel) with
            | error e =>
                rw [hbelow] at hrest
                exact congrArg Prod.fst (bind_error (Prod.ext hrest rfl) _)
            | ok bs =>
                rw [hbelow] at hrest
                obtain ⟨children, hchildren⟩ := hrest
                exact ⟨b :: children, congrArg Prod.fst (bind_ok (Prod.ext hchildren rfl) _)⟩

theorem boxDescent_enter {p : Int} {head : NvmBoxHead}
    (h : (steppedIn p nvmReadBoxHead (boxReader data be flexible)).1 = .ok head) :
    (boxDescent data be flexible).enter p =
      some ((head.childOffsets.filter fun offset => offset ≠ 0).map Int32.toInt) := by
  simp only [boxDescent, h]

/-- The calls for boxes make the descent. -/
theorem boxDescent_runs : (boxDescent data be flexible).Runs .nonTermination (boxRun data be flexible) where
  zero p := by
    cases hin : stepIn p (boxReader data be flexible) with
    | mk x r1 =>
        cases x with
        | ok _ => exact Or.inl (steppedIn_run hin)
        | error e =>
            refine Or.inr ⟨?_, e, ?_⟩
            · simp only [boxDescent, steppedIn, bind_error hin]
            · rw [boxRun, steppedIn, bind_error hin]
  refused n p henter := by
    cases hhead : (steppedIn p nvmReadBoxHead (boxReader data be flexible)).1 with
    | ok head => simp [boxDescent, hhead] at henter
    | error e =>
        refine ⟨e, ends_nvmReadBoxHead.steppedIn p _ _ _ (Prod.ext hhead rfl), ?_⟩
        rw [boxRun, nvmReadBox_succ]
        exact steppedIn_bind_error hhead _
  below n p l e henter hbelow := by
    cases hhead : (steppedIn p nvmReadBoxHead (boxReader data be flexible)).1 with
    | error e => simp [boxDescent, hhead] at henter
    | ok head =>
        rw [boxDescent_enter hhead, Option.some.injEq] at henter
        subst henter
        obtain ⟨r1, hr1, hrun⟩ := steppedIn_bind_ok alike_nvmReadBoxHead boxReader_onFile hhead fun head => do
          let children ← nvmReadBoxesAt (nvmReadBox n) head.childOffsets
          pure (head.box children)
        have hchildren := nvmReadBoxesAt_fst n head.childOffsets hr1
        rw [hbelow] at hchildren
        rw [boxRun, nvmReadBox_succ, hrun, bind_error (Prod.ext hchildren rfl)]
  behind n p l bs _ _ hleave := by cases hleave
  left n p l bs henter hbelow _ := by
    cases hhead : (steppedIn p nvmReadBoxHead (boxReader data be flexible)).1 with
    | error e => simp [boxDescent, hhead] at henter
    | ok head =>
        rw [boxDescent_enter hhead, Option.some.injEq] at henter
        subst henter
        obtain ⟨r1, hr1, hrun⟩ := steppedIn_bind_ok alike_nvmReadBoxHead boxReader_onFile hhead fun head => do
          let children ← nvmReadBoxesAt (nvmReadBox n) head.childOffsets
          pure (head.box children)
        have hchildren := nvmReadBoxesAt_fst n head.childOffsets hr1
        rw [hbelow] at hchildren
        obtain ⟨children, hchildren⟩ := hchildren
        refine ⟨head.box children, ?_⟩
        rw [boxRun, nvmReadBox_succ, hrun, bind_ok (Prod.ext hchildren rfl)]
        rfl

theorem boxDescent_enter_inRange {p : Int} (h : ((boxDescent data be flexible).enter p).isSome) :
    0 ≤ p ∧ p ≤ data.length := by
  cases stepsIn (@boxReader_onFile data be flexible).twin p with
  | refused hc _ => exact absurd Heap.calm_nil hc
  | inside hoff _ _ _ _ _ _ _ => exact hoff
  | outside _ hrun _ => simp [boxDescent, steppedIn, bind_error hrun] at h

theorem boxDescent_children_le (q : Int) (l : List Int) (h : (boxDescent data be flexible).enter q = some l) :
    l.length ≤ 4 := by
  have hhead : Returns nvmReadBoxHead fun head => head.childOffsets.length = 4 := by
    unfold nvmReadBoxHead
    iterate 13 refine Returns.after fun _ => ?_
    exact Returns.after fun _ => Returns.after fun _ => Returns.pure rfl
  cases hrun : (steppedIn q nvmReadBoxHead (boxReader data be flexible)).1 with
  | error e => simp [boxDescent, hrun] at h
  | ok head =>
      rw [boxDescent_enter hrun, Option.some.injEq] at h
      subst h
      rw [List.length_map]
      exact (List.length_filter_le _ _).trans_eq ((returns_steppedIn hhead q).of_fst hrun)

/-! ## The whole file -/

/-- A file names a root box, to be read in a byte order. -/
def RootBox (data : List UInt8) (flexible be : Bool) (root : Int) : Prop :=
  ∃ file, (nvmReadPreamble (create data false flexible [])).1 = .ok file ∧ file.bigEndian = be ∧
    file.rootBoxOffset.toInt = root

/-- The reader comes to an end with every allocator, and the calls that it makes for boxes, as the boxes that it visits,
    are bounded by the size of the file. -/
structure NvmTerminates (data : List UInt8) (flexible : Bool) : Prop where
  returns : ∀ heap, (nvmReadFromMemory flexible data heap).1 ≠ .error .nonTermination
  called : ∀ be root, RootBox data flexible be root →
    (boxDescent data be flexible).calls (boxRun data be flexible) (data.length + 2) root ≤ 5 ^ (data.length + 2)
  visited : ∀ be root, RootBox data flexible be root →
    ∀ n, (boxDescent data be flexible).visits n root ≤ 5 ^ (data.length + 2)

instance : Modeless nvmReadTriangle := by
  unfold nvmReadTriangle
  infer_instance

instance (be : Bool) : Modeless (nvmReadPreambleIn be) := by
  unfold nvmReadPreambleIn
  have hvertices (n : Nat) : Modeless (readAppended 16 (fun room => do
      let v ← readVec3
      let cap ← room
      pure (v, cap)) n 0 0) := modeless_readAppended (fun room _ => inferInstance) n 0 0
  have htriangles (n : Nat) : Modeless (readAppended 16 (fun room => do
      let cap ← room
      let t ← nvmReadTriangle
      pure (t, cap)) n 0 0) := modeless_readAppended (fun room _ => inferInstance) n 0 0
  iterate 12 refine .bind inferInstance fun _ => ?_
  infer_instance

theorem returns_nvmReadPreambleIn (be : Bool) : Returns (nvmReadPreambleIn be) fun file => file.bigEndian = be := by
  unfold nvmReadPreambleIn
  iterate 15 refine Returns.after fun _ => ?_
  exact Returns.pure rfl

/-- Behind the preamble the reader is somewhere in the file, in the byte order that the file is in. -/
theorem onFile_nvmReadPreamble {file : NvmPreamble} {r r1 : BinaryReader} (hr : OnFile data ⟨be, false, flexible⟩ r)
    (h : nvmReadPreamble r = (.ok file, r1)) : OnFile data ⟨file.bigEndian, false, flexible⟩ r1 := by
  unfold nvmReadPreamble at h
  obtain ⟨junk, r2, halloc, h⟩ := bind_eq_ok.1 h
  obtain ⟨magic, r3, hmagic, h⟩ := bind_eq_ok.1 h
  obtain ⟨⟨⟩, r4, hset, h⟩ := bind_eq_ok.1 h
  have h2 := hr.after (Alike.alloc (Alike.pure ())) (bind_ok halloc fun _ => pure ())
  have h3 := h2.after (alike_assertI32 _) hmagic
  cases hset
  have hmode := h3.mode
  simp only [BinaryReader.mode, Mode.mk.injEq] at hmode
  have h4 : OnFile data ⟨magic ≠ 1, false, flexible⟩ { r3 with bigEndian := magic ≠ 1 } :=
    ⟨h3.mem, h3.inBounds, by simp [BinaryReader.mode, hmode.2], h3.calm⟩
  have hfile := returns_nvmReadPreambleIn (magic ≠ 1) _ _ _ h
  rw [hfile]
  exact h4.after (alike_nvmReadPreambleIn _) h

/-- A reader that is granted everything fails to end in the boxes only. -/
theorem nvmRead_stuck_iff (data : List UInt8) (flexible : Bool) (fuel : Nat) :
    (nvmRead fuel (create data false flexible [])).1 = .error .nonTermination ↔
      ∃ be root, RootBox data flexible be root ∧ boxRun data be flexible fuel root = .error .nonTermination := by
  have hcreated : OnFile data ⟨false, false, flexible⟩ (create data false flexible []) := boxReader_onFile
  rw [nvmRead_eq]
  rcases hfile : nvmReadPreamble (create data false flexible []) with ⟨e | file, r1⟩
  · rw [bind_error hfile]
    constructor
    · rintro ⟨⟩
      exact absurd rfl (ends_nvmReadPreamble _ _ _ hfile)
    · rintro ⟨be, root, ⟨file, hread, -, -⟩, -⟩
      rw [hfile] at hread
      cases hread
  · have hr1 := onFile_nvmReadPreamble hcreated hfile
    have hroot (be : Bool) (root : Int) :
        RootBox data flexible be root ↔ file.bigEndian = be ∧ file.rootBoxOffset.toInt = root := by
      constructor
      · rintro ⟨file', hread, hbe, hroot⟩
        rw [hfile] at hread
        cases hread
        exact ⟨hbe, hroot⟩
      · rintro ⟨hbe, hroot⟩
        exact ⟨file, by rw [hfile], hbe, hroot⟩
    have hbox : (steppedIn file.rootBoxOffset.toInt (nvmReadBox fuel) r1).1 =
        boxRun data file.bigEndian flexible fuel file.rootBoxOffset.toInt :=
      steppedIn_fst (alike_nvmReadBox fuel) hr1 boxReader_onFile _
    rw [bind_ok hfile]
    have hbelow : ((do
        let rootBox ← steppedIn file.rootBoxOffset.toInt (nvmReadBox fuel)
        let entities ← nvmReadEntities file.entityCount file.entityOffset
        pure ⟨file.bigEndian, file.vertices, file.triangles, rootBox, entities⟩ : ReadM Nvm) r1).1 =
          .error .nonTermination ↔
        boxRun data file.bigEndian flexible fuel file.rootBoxOffset.toInt = .error .nonTermination := by
      rw [← hbox]
      rcases hrun : steppedIn file.rootBoxOffset.toInt (nvmReadBox fuel) r1 with ⟨e | box, r2⟩
      · rw [bind_error hrun]
        simp
      · -- nothing behind the boxes goes on without end
        have hends : Ends (do
            let entities ← nvmReadEntities file.entityCount file.entityOffset
            pure ⟨file.bigEndian, file.vertices, file.triangles, box, entities⟩ : ReadM Nvm) :=
          (ends_nvmReadEntities _ _).bind fun _ => Ends.pure _
        rw [bind_ok hrun]
        constructor
        · intro h
          exact absurd rfl (hends r2 _ _ (Prod.ext h rfl))
        · nofun
    rw [hbelow]
    constructor
    · intro h
      exact ⟨_, _, (hroot _ _).2 ⟨rfl, rfl⟩, h⟩
    · rintro ⟨be, root, hr, h⟩
      obtain ⟨rfl, rfl⟩ := (hroot be root).1 hr
      exact h

/-- The allocator does not decide whether a file is read to the end, except that it can refuse a request. -/
theorem nvmReadFromMemory_ends_iff (data : List UInt8) (flexible : Bool) :
    (∀ heap, (nvmReadFromMemory flexible data heap).1 ≠ .error .nonTermination) ↔
      (nvmRead (data.length + 2) (create data false flexible [])).1 ≠ .error .nonTermination := by
  constructor
  · intro h
    exact h []
  · intro h heap
    unfold nvmReadFromMemory
    rcases onMemory_cases data false flexible heap with ⟨heap', hreader⟩ | hnone
    · rw [hreader]
      have htwin : Twin (create data false flexible heap') (create data false flexible []) :=
        ⟨rfl, Nat.zero_le _, rfl, Heap.calm_nil⟩
      cases alike_nvmRead (data.length + 2) _ _ htwin with
      | refused _ hrun =>
          rw [hrun]
          nofun
      | failed hrun hrun0 =>
          rw [hrun]
          rwa [hrun0] at h
      | same hrun _ _ _ _ _ _ =>
          rw [hrun]
          nofun
    · rw [hnone]
      nofun

theorem finite_boxDescent : {p | ((boxDescent data be flexible).enter p).isSome}.Finite := by
  refine (Set.finite_Icc (0 : Int) data.length).subset ?_
  intro p hp
  exact boxDescent_enter_inRange hp

/-- Where no cycle can be entered, no path has more steps than there are offsets. -/
theorem boxDescent_within {root : Int} (h : ¬ RunsIntoCycle (boxDescent data be flexible).Enters root) :
    Within (boxDescent data be flexible).Enters (data.length + 1) root := by
  have hcard : (Finset.Icc (0 : Int) data.length).card = data.length + 1 := by simp
  rw [← hcard]
  refine within_card ?_ h
  rintro p - ⟨q, hpq⟩
  obtain ⟨before, after, henter, -⟩ := hpq
  exact Finset.mem_Icc.2 (boxDescent_enter_inRange (Option.isSome_of_eq_some henter))

/-- A file without vertices and triangles, whose root box behind the header is its own first child. -/
def selfContainedBox : List UInt8 :=
  [1, 0, 0x80, 0, 0x80, 0x80, 0, 0, 0x80].flatMap (leBytes 4) ++ leBytes 92 0 ++
    [0, 0, 0, 0, 0, 0, 0, 0, 0x80, 0, 0, 0, 0, 0, 0, 0].flatMap (leBytes 4)

end

end SoulsFormats
