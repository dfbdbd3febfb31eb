import SoulsFormats.Compression.Dcx
import SoulsFormats.Core.Scan

set_option autoImplicit false

/-! # Files that may be compressed

Most formats are read through `sf_get_decompressed_reader`: a file that starts as a DCX container is
decompressed first, and read with a reader of its own. -/

namespace SoulsFormats

open Bytes Fallible BinaryReader

/-- `has_dcx_magic`. -/
def hasDcxMagic (buf : List UInt8) : Bool :=
  4 ≤ buf.length && (buf.take 4 == dcxTag "DCP" || buf.take 4 == dcxTag "DCX")

/-- Run `m` on the reader that `sf_get_decompressed_reader` hands out. -/
def withDecompressedReader {α : Type} (codecs : Codecs) (m : ReadM α) : ReadM α := do
  let pos ← peek position
  let length ← peek BinaryReader.length
  let remaining : Int := length - pos
  let magic ← if 4 ≤ remaining then getU8s pos 4 else pure []
  if hasDcxMagic magic then do
    let _ ← onHeap Heap.alloc
    let raw ← getU8s pos remaining.toNat
    let (decompressed, _) ← onHeap (dcxDecompressFromBuffer codecs raw)
    let r ← state
    onHeap (onMemory decompressed false r.isFlexible m)
  else m

/-- Go on with the reader that `sf_get_decompressed_reader` hands out. -/
def openDecompressed (codecs : Codecs) : ReadM Unit := do
  let pos ← peek position
  let length ← peek BinaryReader.length
  let remaining : Int := length - pos
  let magic ← if 4 ≤ remaining then getU8s pos 4 else pure []
  if hasDcxMagic magic then do
    let _ ← onHeap Heap.alloc
    let raw ← getU8s pos remaining.toNat
    let (decompressed, _) ← onHeap (dcxDecompressFromBuffer codecs raw)
    let _ ← onHeap Heap.alloc
    let _ ← onHeap Heap.alloc
    update fun r => create decompressed false r.isFlexible r.heap
  else pure ()

section

variable {α : Type} (codecs : Codecs) {m : ReadM α} {mem : List UInt8} {be long flex : Bool}
  {steps : List Nat} {a : α} {c' : Cursor}

/-- A file that does not start as a container is read as it is. -/
theorem reads_withDecompressedReader {magic : List UInt8} (hmagic : Holds mem 0 magic)
    (hlen : magic.length = 4) (hno : hasDcxMagic magic = false)
    (hm : Reads m ⟨mem, 0, be, long, steps, flex⟩ a c') :
    Reads (withDecompressedReader codecs m) ⟨mem, 0, be, long, steps, flex⟩ a c' := by
  have hle := hmagic.le
  have hread : ∀ c : Cursor, Parses (readU8s 4) c magic magic := by
    intro c
    have h := parses_bytes c magic
    rwa [hlen] at h
  refine Reads.position ?_
  refine Reads.peek (v := mem.length) (fun r hr => congrArg (fun c => c.mem.length) hr) ?_
  simp only
  rw [if_pos (by omega)]
  refine Reads.got (q := 0) rfl hmagic (Nat.zero_le _) (hread _) ?_
  rwa [if_neg (by simp [hno])]

theorem reads_openDecompressed {magic : List UInt8} (hmagic : Holds mem 0 magic)
    (hlen : magic.length = 4) (hno : hasDcxMagic magic = false) :
    Reads (openDecompressed codecs) ⟨mem, 0, be, long, steps, flex⟩ () ⟨mem, 0, be, long, steps, flex⟩ := by
  have hle := hmagic.le
  have hread : ∀ c : Cursor, Parses (readU8s 4) c magic magic := by
    intro c
    have h := parses_bytes c magic
    rwa [hlen] at h
  refine Reads.position ?_
  refine Reads.peek (v := mem.length) (fun r hr => congrArg (fun c => c.mem.length) hr) ?_
  simp only
  rw [if_pos (by omega)]
  refine Reads.got (q := 0) rfl hmagic (Nat.zero_le _) (hread _) ?_
  rw [if_neg (by simp [hno])]
  exact Reads.pure _ _

/-- A whole run over such a file. -/
theorem onMemory_withDecompressedReader {magic : List UInt8} (hmagic : Holds mem 0 magic)
    (hlen : magic.length = 4) (hno : hasDcxMagic magic = false)
    (hm : Reads m ⟨mem, 0, be, false, [], flex⟩ a c') {heap : Heap} (hcalm : heap.Calm) :
    (onMemory mem be flex (withDecompressedReader codecs m) heap).1 = .ok a := by
  obtain ⟨_, hok, -⟩ := onMemory_ok (reads_withDecompressedReader codecs hmagic hlen hno hm) hcalm
  exact congrArg Prod.fst hok

end

end SoulsFormats
