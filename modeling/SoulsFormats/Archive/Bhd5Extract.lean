import SoulsFormats.Archive.Bhd5
import SoulsFormats.Core.Stream

set_option autoImplicit false

/-! # Extracting files of a BHD5 archive

The model of `extract_file`: the payload of a file is read from the data and decrypted in the ranges of its key. The
block cipher is the one of the platform. Allocations succeed, and so do its calls. -/

namespace SoulsFormats

open Fallible

/-- The decryption of one block of 16 bytes under a key. -/
structure BlockCipher where
  decrypt : List UInt8 → List UInt8 → List UInt8
  length_decrypt : ∀ key block, block.length = 16 → (decrypt key block).length = 16

/-- As many blocks one after another, each on its own. -/
def decryptBlocks (decrypt : List UInt8 → List UInt8) : Nat → List UInt8 → List UInt8
  | 0, s => s
  | n + 1, s => decrypt (s.take 16) ++ decryptBlocks decrypt n (s.drop 16)

/-- A part of a buffer is decrypted in its place. -/
def decryptAt (decrypt : List UInt8 → List UInt8) (buf : List UInt8) (offset size : Nat) : List UInt8 :=
  buf.take offset ++ decryptBlocks decrypt (size / 16) ((buf.drop offset).take size) ++ buf.drop (offset + size)

section

variable (cipher : BlockCipher)

/-- `sfi_aes_decrypt_ecb_buffer` on `size` bytes of a buffer from `offset` on. -/
def aesDecryptEcbBuffer (key buf : List UInt8) (offset size : Nat) : Except SfError (List UInt8) :=
  if size % 16 ≠ 0 then .error .invalidArg else .ok (decryptAt (cipher.decrypt key) buf offset size)

/-- What `decrypt_ranges` does with a range that starts at `start` and ends at `stop`. -/
def decryptRange (bdtLength : Nat) (f : Bhd5File) (n : Nat) (buf : List UInt8) (range : Bhd5Range) :
    Except SfError (List UInt8) :=
  let start := range.startOffset.toInt
  let stop := range.endOffset.toInt
  let fileOffset := f.fileOffset.toInt
  let decrypt (relStart relEnd : Int) : Except SfError (List UInt8) :=
    if relStart < 0 ∨ relEnd < relStart ∨ n < relEnd then .error .truncated
    else if bdtLength < stop ∧ bdtLength < relEnd + fileOffset then .error .truncated
    else aesDecryptEcbBuffer cipher f.aesKey buf relStart.toNat (relEnd - relStart).toNat
  if start = stop then .ok buf
  else if start < 0 ∨ stop < start then .error .outOfRange
  else if n < stop then
    -- the range is taken to be one of the whole data
    if start < fileOffset ∨ stop < fileOffset then .error .truncated
    else decrypt (start - fileOffset) (stop - fileOffset)
  else decrypt start stop

/-- `decrypt_ranges`, with the ranges that `aes_ranges` points to. -/
def decryptRanges (bdtLength : Nat) (f : Bhd5File) (ranges : List Bhd5Range) (buf : List UInt8) (n : Nat) :
    Except SfError (List UInt8) :=
  if f.hasAesKey then ranges.foldlM (decryptRange cipher bdtLength f n) buf else .ok buf

/-- `extract_file`. -/
def extractFile (bdt : List UInt8) (f : Bhd5File) (ranges : List Bhd5Range) : Except SfError (List UInt8) :=
  let fileOffset := f.fileOffset.toInt
  let n := f.paddedSize.toNat
  -- the difference is compared as a `uint64_t`
  if fileOffset < 0 ∨ (bdt.length - fileOffset) % 2 ^ 64 < n then .error .truncated
  else do
    let read : Fallible IStream SfError (List UInt8) := do
      IStream.seek fileOffset
      if 0 < n then IStream.read n else pure []
    let buf ← (read { mem := bdt, memPos := 0 }).1
    decryptRanges cipher bdt.length f ranges buf n

end

end SoulsFormats
