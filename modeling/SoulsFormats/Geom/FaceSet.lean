import Mathlib.Data.List.Basic
import SoulsFormats.Core.Result

set_option autoImplicit false

/-! # Face sets of FLVER2 models

The part of `flver2_faceset.c` that turns a triangle strip into a list of triangles. Both passes over the strip
make the same walk; `stripSweep` is that walk, and each pass is the walk with its own body. -/

namespace SoulsFormats

open Fallible

/-- `sf_flver2_face_set`, as far as the triangulation reads it. -/
structure Flver2FaceSet where
  triangleStrip : Bool
  indexSize : UInt8
  indexCount : Nat
  indices : Option (List UInt32)
  sized : ∀ l ∈ indices, l.length = indexCount

/-- Three indices in the order in which a triangle has them. -/
abbrev Triangle := UInt32 × UInt32 × UInt32

def Triangle.toList (t : Triangle) : List UInt32 := [t.1, t.2.1, t.2.2]

/-- `faceset_is_degenerate`. -/
def facesetIsDegenerate (t : Triangle) : Bool := t.1 == t.2.1 || t.2.1 == t.2.2 || t.2.2 == t.1

/-- The index that restarts a strip of 16-bit indices. -/
def RESTART_INDEX : UInt32 := 0xFFFF

namespace Flver2FaceSet

def indexAt (fs : Flver2FaceSet) (i : Nat) : Except SfError UInt32 :=
  match (fs.indices.getD [])[i]? with
  | some v => .ok v
  | none => .error .undefinedBehaviour

def restartAt (fs : Flver2FaceSet) (i : Nat) : Except SfError Bool :=
  if fs.indexSize = 16 ∧ i < fs.indexCount then do
    let v ← fs.indexAt i
    pure (v == RESTART_INDEX)
  else pure false

end Flver2FaceSet

section

variable {τ : Type} (visit : τ → Nat → Triangle → Except SfError τ) (fs : Flver2FaceSet)

/-- The triples of one segment, with their positions in it. -/
def stripSegment (start len : Nat) (t : τ) : Except SfError τ :=
  (List.range (len - 2)).foldlM (fun t j => do
    let i0 ← fs.indexAt (start + j)
    let i1 ← fs.indexAt (start + j + 1)
    let i2 ← fs.indexAt (start + j + 2)
    visit t j (i0, i1, i2)) t

/-- One round of the walk; beside its value it carries where the segment starts. -/
def stripRound (s : τ × Nat) (i : Nat) : Except SfError (τ × Nat) := do
  let restart ← fs.restartAt i
  if i = fs.indexCount ∨ restart = true then do
    let t ← stripSegment visit fs s.2 (i - s.2) s.1
    pure (t, i + 1)
  else pure s

def stripSweep (t : τ) : Except SfError τ := do
  let s ← (List.range (fs.indexCount + 1)).foldlM (stripRound visit fs) (t, 0)
  pure s.1

end

/-- `faceset_strip_triangle_count`. -/
def facesetStripTriangleCount (fs : Flver2FaceSet) (filterDegenerate : Bool) : Except SfError Nat :=
  stripSweep (fun total _ t =>
    pure (if !filterDegenerate || !facesetIsDegenerate t then total + 1 else total)) fs 0

/-- `triangles[out++] = v`. -/
def putIndex (s : List UInt32 × Nat) (v : UInt32) : Except SfError (List UInt32 × Nat) :=
  if s.2 < s.1.length then .ok (s.1.set s.2 v, s.2 + 1) else .error .undefinedBehaviour

/-- The first two indices of a triangle change places at an odd position. -/
def windTriangle (j : Nat) (t : Triangle) : Triangle := if j % 2 = 0 then t else (t.2.1, t.1, t.2.2)

/-- The second pass of `sfi_flver2_face_set_triangulate`, into a block of that size. -/
def facesetEmitTriangles (fs : Flver2FaceSet) (filterDegenerate : Bool) (triangles : List UInt32) :
    Except SfError (List UInt32 × Nat) :=
  stripSweep (fun s j t =>
    if filterDegenerate && facesetIsDegenerate t then pure s
    else (windTriangle j t).toList.foldlM putIndex s) fs (triangles, 0)

/-- The indices of `n` words that a block holds before they are written. -/
def junkIndices (junk : List UInt8) (n : Nat) : List UInt32 :=
  (junk.map fun b => b.toUInt32).takeD n 0

/-- `sfi_flver2_face_set_triangulate`: the indices, none of which stand for a null pointer, and their number. -/
def flver2FaceSetTriangulate (fs : Flver2FaceSet) (filterDegenerate : Bool) :
    Fallible Heap SfError (List UInt32 × Nat) := do
  check (¬ (0 < fs.indexCount ∧ fs.indices = none)) .invalidArg
  if fs.triangleStrip = false then
    if fs.indexCount = 0 then pure ([], 0)
    else do
      check (fs.indexCount ≤ SIZE_MAX / 4) .outOfRange
      let _ ← Heap.alloc
      pure (fs.indices.getD [], fs.indexCount)
  else do
    let triCount ← lift (facesetStripTriangleCount fs filterDegenerate)
    if triCount = 0 then pure ([], 0)
    else do
      check (triCount ≤ SIZE_MAX / 12) .outOfRange
      let junk ← Heap.alloc
      lift (facesetEmitTriangles fs filterDegenerate (junkIndices junk (triCount * 3)))

end SoulsFormats
