import SoulsFormats.Core.BinaryReader

set_option autoImplicit false

/-! # BHD5 indexes

The model of `parse_bhd5`: buckets of file headers, and for each file the ranges that its hash and its key are about.
The ranges of all files are kept in two pools; a pass over the files counts them, a second one fills the pools. -/

namespace SoulsFormats

open Bytes Fallible BinaryReader

/-- `sf_bhd5_game_t`. -/
inductive Bhd5Game where
  | sekiro | eldenRing | nightreign | armoredCore6 | darkSouls3
deriving DecidableEq, Repr

/-- `sf_bhd5_range_t`. -/
structure Bhd5Range where
  startOffset : Int64
  endOffset : Int64
deriving DecidableEq, Repr

/-- `sf_bhd5_bucket_t`. -/
structure Bhd5Bucket where
  count : Nat
  firstFile : Nat
deriving DecidableEq, Repr

/-- `sf_bhd5_file_t`; its ranges are in a pool from an index on, or nowhere. -/
structure Bhd5File where
  pathHash : UInt64
  paddedSize : UInt32
  unpaddedSize : UInt64
  fileOffset : Int64
  hasShaHash : Bool := false
  shaHash : List UInt8 := []
  shaRangeCount : Nat := 0
  shaRanges : Option Nat := none
  hasAesKey : Bool := false
  aesKey : List UInt8 := []
  aesRangeCount : Nat := 0
  aesRanges : Option Nat := none
deriving DecidableEq, Repr

/-- A pool with its cursor; a range that was not stored yet is nothing. -/
structure RangePool where
  ranges : List (Option Bhd5Range)
  cursor : Nat
deriving DecidableEq, Repr

/-- `sf_bhd5`, without the stream of the data. -/
structure Bhd5 where
  game : Bhd5Game
  bigEndian : Bool
  unk05 : Bool
  salt : List UInt8
  buckets : List Bhd5Bucket
  files : List Bhd5File
  shaRangePool : List (Option Bhd5Range)
  aesRangePool : List (Option Bhd5Range)
deriving DecidableEq, Repr

/-- `read_i32_nonnegative`. -/
def readI32Nonnegative : ReadM Nat := do
  let v ← readI32
  check (0 ≤ v.toInt) .outOfRange
  pure v.toInt.toNat

/-! ## Ranges -/

/-- `plausible_range_count`, for a count that is not negative. -/
def plausibleRangeCount (r : BinaryReader) (pos count : Nat) : Bool :=
  count ≤ 1000000 && pos ≤ r.length && count * 16 ≤ r.length - pos

/-- `add_range_count`. -/
def addRangeCount (total count : Nat) : Except SfError Nat :=
  if SIZE_MAX - total < count then .error .outOfRange else .ok (total + count)

/-- A new pool, with the cursor at its start. -/
def RangePool.empty (count : Nat) : RangePool := { ranges := List.replicate count none, cursor := 0 }

/-- `alloc_range_pool`; a range has 16 bytes. -/
def allocRangePool (count : Nat) : ReadM RangePool :=
  if count = 0 then pure (.empty 0)
  else do
    check (count ≤ SIZE_MAX / 16) .outOfRange
    let _ ← onHeap Heap.alloc
    pure (.empty count)

/-- `read_range_array`: `n` ranges, from the index `i` of the pool on. -/
def readRangeArray : Nat → Nat → List (Option Bhd5Range) → ReadM (List (Option Bhd5Range))
  | 0, _, ranges => pure ranges
  | n + 1, i, ranges => do
    let startOffset ← readI64
    let endOffset ← readI64
    check (i < ranges.length) .undefinedBehaviour
    readRangeArray n (i + 1) (ranges.set i (some { startOffset := startOffset, endOffset := endOffset }))

/-- What stands before the ranges: a key or a hash, and how many there are. -/
def readRangeHead (keySize : Nat) : ReadM (List UInt8 × Nat) := do
  let key ← readBytes keySize
  let count ← readI32Nonnegative
  let r ← state
  check (plausibleRangeCount r r.position count = true) .truncated
  pure (key, count)

/-- A key or a hash with its ranges, which go to where the cursor of the pool is. -/
def readRangesInto (keySize : Nat) (pool : RangePool) : ReadM (List UInt8 × Nat × Option Nat × RangePool) := do
  let (key, count) ← readRangeHead keySize
  if 0 < count then do
    -- the cursor may point to the end of the pool, but not behind it
    check (pool.cursor + count ≤ pool.ranges.length) .undefinedBehaviour
    let ranges ← readRangeArray count pool.cursor pool.ranges
    pure (key, count, some pool.cursor, { ranges := ranges, cursor := pool.cursor + count })
  else pure (key, count, none, pool)

/-- `read_aes_key_range_count`. -/
def readAesKeyRangeCount (aesKeyOffset : Int64) : ReadM Nat :=
  defineGet aesKeyOffset.toInt do
    let (_, count) ← readRangeHead 16
    pure count

/-- `read_aes_key_into`. -/
def readAesKeyInto (file : Bhd5File) (aesKeyOffset : Int64) (pool : RangePool) : ReadM (Bhd5File × RangePool) :=
  defineGet aesKeyOffset.toInt do
    let (key, count, ranges, pool) ← readRangesInto 16 pool
    pure ({ file with hasAesKey := true, aesKey := key, aesRangeCount := count, aesRanges := ranges }, pool)

/-- `read_sha_hash_range_count`. -/
def readShaHashRangeCount (shaHashOffset : Int64) : ReadM Nat :=
  defineGet shaHashOffset.toInt do
    let (_, count) ← readRangeHead 32
    pure count

/-- `read_sha_hash_into`. -/
def readShaHashInto (file : Bhd5File) (shaHashOffset : Int64) (pool : RangePool) : ReadM (Bhd5File × RangePool) :=
  defineGet shaHashOffset.toInt do
    let (hash, count, ranges, pool) ← readRangesInto 32 pool
    pure ({ file with hasShaHash := true, shaHash := hash, shaRangeCount := count, shaRanges := ranges }, pool)

/-! ## File headers -/

/-- What a file header says, with the offsets of the hash and the key, which are zero where there is none. -/
structure Bhd5Entry where
  pathHash : UInt64
  paddedSize : UInt32
  unpaddedSize : UInt64
  fileOffset : Int64
  shaOffset : Int64
  aesOffset : Int64
deriving DecidableEq, Repr

/-- The file before its hash and its key are read. -/
def Bhd5Entry.file (entry : Bhd5Entry) : Bhd5File :=
  { pathHash := entry.pathHash
    paddedSize := entry.paddedSize
    unpaddedSize := entry.unpaddedSize
    fileOffset := entry.fileOffset }

/-- `read_file_header`. -/
def readFileHeader (game : Bhd5Game) : ReadM Bhd5Entry := do
  let (pathHash, padded, unpadded, fileOffset, shaOffset, aesOffset) ←
    match game with
    | .darkSouls3 | .sekiro => do
      let hash32 ← readU32
      let padded ← readI32Nonnegative
      let fileOffset ← readI64
      let shaOffset ← readI64
      let aesOffset ← readI64
      let unpadded ← readI64
      check (0 ≤ unpadded.toInt) .outOfRange
      pure (hash32.toUInt64, padded, unpadded.toInt.toNat, fileOffset, shaOffset, aesOffset)
    | .eldenRing | .nightreign | .armoredCore6 => do
      let hash64 ← readU64
      let padded ← readI32Nonnegative
      let unpadded ← readI32Nonnegative
      let fileOffset ← readI64
      let shaOffset ← readI64
      let aesOffset ← readI64
      pure (hash64, padded, unpadded, fileOffset, shaOffset, aesOffset)
  check (0 ≤ fileOffset.toInt ∧ 0 ≤ shaOffset.toInt ∧ 0 ≤ aesOffset.toInt) .outOfRange
  pure
    { pathHash := pathHash
      paddedSize := UInt32.ofNat padded
      unpaddedSize := UInt64.ofNat unpadded
      fileOffset := fileOffset
      shaOffset := shaOffset
      aesOffset := aesOffset }

/-- How many elements there is room for behind `xalloc(n * size)`, where the product is a `size_t`. -/
def roomFor (n size : Nat) : Nat := n * size % 2 ^ 64 / size

/-- The loop over the buckets: the buckets with the offsets of their headers, and how many files there are. -/
def readBuckets (is64Bit : Bool) (room : Nat) : Nat → Nat → Nat → ReadM (List (Bhd5Bucket × Int64) × Nat)
  | 0, _, total => pure ([], total)
  | n + 1, i, total => do
    let count ← readI32Nonnegative
    let headerOffset ←
      if is64Bit then do
        let unknownFlag ← readI32
        check (unknownFlag = 1) .badMagic
        readI64
      else do
        let off32 ← readI32Nonnegative
        pure (Int64.ofNat off32)
    check (i < room) .undefinedBehaviour
    check (0 ≤ headerOffset.toInt) .outOfRange
    check (count ≤ SIZE_MAX - total) .outOfRange
    let (rest, total') ← readBuckets is64Bit room n (i + 1) (total + count)
    pure (({ count := count, firstFile := total }, headerOffset) :: rest, total')

/-- The headers of one bucket, `n` from the file `i` on. -/
def readBucketFiles (game : Bhd5Game) (room : Nat) : Nat → Nat → ReadM (List Bhd5Entry)
  | 0, _ => pure []
  | n + 1, i => do
    check (i < room) .undefinedBehaviour
    let entry ← readFileHeader game
    let rest ← readBucketFiles game room n (i + 1)
    pure (entry :: rest)

/-- The headers of all buckets; each bucket starts with the file behind those before it. -/
def readFiles (game : Bhd5Game) (room : Nat) : List (Bhd5Bucket × Int64) → ReadM (List Bhd5Entry)
  | [] => pure []
  | (bucket, headerOffset) :: buckets => do
    let entries ←
      if bucket.count = 0 then pure []
      else do
        stepIn headerOffset.toInt
        let entries ← readBucketFiles game room bucket.count bucket.firstFile
        stepOut
        pure entries
    let rest ← readFiles game room buckets
    pure (entries ++ rest)

/-! ## The index -/

/-- Whether `parse_bhd5` takes the header for one of the 64-bit kind. -/
def testIs64Bit : ReadM Bool := do
  let r ← state
  if 0x28 < r.length then do
    let test0 ← attempt (getI32 0x14)
    match test0 with
    | .error _ => pure false
    | .ok v0 => do
      let test1 ← attempt (getI32 0x1C)
      match test1 with
      | .error _ => pure false
      | .ok v1 => pure (v0 == 0 && v1 == 0)
  else pure false

/-- The byte order. -/
def readEndian : ReadM Bool := do
  assertAscii (cstr "BHD5")
  let endian ← readI8
  check (endian = 0 ∨ endian = -1) .badMagic
  pure (endian == 0)

/-- What is read before the ranges, in the byte order of the file. -/
structure Bhd5Index where
  unk05 : Bool
  salt : List UInt8
  buckets : List Bhd5Bucket
  entries : List Bhd5Entry
deriving DecidableEq, Repr

/-- How many buckets there are, and where. -/
def readBucketCount (is64Bit : Bool) : ReadM (Int × Int) :=
  if is64Bit then do
    let bucketCount ← readI64
    let bucketsOffset ← readI64
    pure (bucketCount.toInt, bucketsOffset.toInt)
  else do
    let bc32 ← readI32Nonnegative
    let bo32 ← readI32Nonnegative
    pure ((bc32 : Int), (bo32 : Int))

/-- The part of `parse_bhd5` from the byte order on to the file headers. -/
def readIndex (game : Bhd5Game) : ReadM Bhd5Index := do
  let unk05 ← readBool
  let _ ← assertU8 [0]
  let _ ← assertU8 [0]
  let _ ← assertI32 [1]
  let _ ← readI32
  let is64Bit ← testIs64Bit
  let (bucketCount, bucketsOffset) ← readBucketCount is64Bit
  check (0 ≤ bucketCount ∧ 0 ≤ bucketsOffset) .outOfRange
  let saltLen ← readI32Nonnegative
  let salt ← readAsciiN saltLen
  let n := bucketCount.toNat
  let _ ← given (0 < n) [] (onHeap Heap.alloc)
  let _ ← given (0 < n) [] (onHeap Heap.alloc)
  stepIn bucketsOffset
  let (buckets, total) ← readBuckets is64Bit (min (roomFor n 16) (roomFor n 8)) n 0 0
  stepOut
  let _ ← given (0 < total) [] (onHeap Heap.alloc)
  let _ ← given (0 < total) [] (onHeap Heap.alloc)
  let _ ← given (0 < total) [] (onHeap Heap.alloc)
  let entries ← readFiles game (min (roomFor total 128) (roomFor total 8)) buckets
  pure { unk05 := unk05, salt := salt, buckets := buckets.map (·.1), entries := entries }

/-! ## The two passes over the ranges -/

/-- The hash of a file in the first pass. -/
def countShaRanges (entry : Bhd5Entry) (total : Nat) : ReadM Nat :=
  if entry.shaOffset = 0 then pure total
  else do
    let count ← readShaHashRangeCount entry.shaOffset
    lift (addRangeCount total count)

/-- The key of a file in the first pass. -/
def countAesRanges (entry : Bhd5Entry) (total : Nat) : ReadM Nat :=
  if entry.aesOffset = 0 then pure total
  else do
    let count ← readAesKeyRangeCount entry.aesOffset
    lift (addRangeCount total count)

/-- The first pass: how many ranges there are for the hashes and for the keys. -/
def countRanges : List Bhd5Entry → Nat → Nat → ReadM (Nat × Nat)
  | [], shaTotal, aesTotal => pure (shaTotal, aesTotal)
  | entry :: entries, shaTotal, aesTotal => do
    let shaTotal ← countShaRanges entry shaTotal
    let aesTotal ← countAesRanges entry aesTotal
    countRanges entries shaTotal aesTotal

/-- The hash of a file in the second pass. -/
def fillShaRanges (entry : Bhd5Entry) (file : Bhd5File) (pool : RangePool) : ReadM (Bhd5File × RangePool) :=
  if entry.shaOffset = 0 then pure (file, pool) else readShaHashInto file entry.shaOffset pool

/-- The key of a file in the second pass. -/
def fillAesRanges (entry : Bhd5Entry) (file : Bhd5File) (pool : RangePool) : ReadM (Bhd5File × RangePool) :=
  if entry.aesOffset = 0 then pure (file, pool) else readAesKeyInto file entry.aesOffset pool

/-- The second pass: the files with their ranges, and the pools with the cursors that are reached. -/
def fillRanges : List Bhd5Entry → RangePool → RangePool → ReadM (List Bhd5File × RangePool × RangePool)
  | [], sha, aes => pure ([], sha, aes)
  | entry :: entries, sha, aes => do
    let (file, sha) ← fillShaRanges entry entry.file sha
    let (file, aes) ← fillAesRanges entry file aes
    let (files, sha, aes) ← fillRanges entries sha aes
    pure (file :: files, sha, aes)

/-- `parse_bhd5` up to the passes: the byte order, and what is read in it. -/
def readUpToRanges (game : Bhd5Game) : ReadM (Bool × Bhd5Index) := do
  let bigEndian ← readEndian
  setBigEndian bigEndian
  let index ← readIndex game
  pure (bigEndian, index)

/-- `parse_bhd5`. -/
def parseBhd5 (game : Bhd5Game) : ReadM Bhd5 := do
  let (bigEndian, index) ← readUpToRanges game
  let (shaTotal, aesTotal) ← countRanges index.entries 0 0
  let shaPool ← allocRangePool shaTotal
  let aesPool ← allocRangePool aesTotal
  let (files, sha, aes) ← fillRanges index.entries shaPool aesPool
  pure
    { game := game
      bigEndian := bigEndian
      unk05 := index.unk05
      salt := index.salt
      buckets := index.buckets
      files := files
      shaRangePool := sha.ranges
      aesRangePool := aes.ranges }

/-- `parse_bhd5` on the bytes of an index. -/
def parseBhd5Bytes (game : Bhd5Game) (flexible : Bool) (bytes : List UInt8) : Fallible Heap SfError Bhd5 :=
  onMemory bytes false flexible (parseBhd5 game)

end SoulsFormats
