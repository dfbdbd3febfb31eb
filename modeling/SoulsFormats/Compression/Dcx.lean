import SoulsFormats.Core.Result
import SoulsFormats.Library.Stores

set_option autoImplicit false

/-! # DCX containers

The decoder and the encoder of `dcx.c` with the wrappers around zlib, zstd and Oodle. The three libraries
are `Codecs`, of which nothing is known here. An access outside a buffer ends a run with
`undefinedBehaviour`; a range that a codec is given counts as accessed. -/

namespace SoulsFormats

open Bytes Fallible

/-- What the code calls of zlib, zstd and Oodle. An `Option` is `none` where the call does not report
    success; otherwise it holds the bytes produced. -/
structure Codecs where
  /-- `compressBound`. -/
  compressBound : Nat → Nat
  /-- `deflate` with `Z_FINISH`: level, input and `avail_out`. -/
  deflate : Int → List UInt8 → Nat → Option (List UInt8)
  /-- `inflate` with `Z_FINISH`: window bits, input and `avail_out`. -/
  inflate : Int → List UInt8 → Nat → Option (List UInt8)
  /-- `ZSTD_compressBound`. -/
  zstdBound : Nat → Nat
  /-- `ZSTD_compress2`: level, input and capacity. -/
  zstdCompress : Int → List UInt8 → Nat → Option (List UInt8)
  /-- `ZSTD_decompress`: input and capacity. -/
  zstdDecompress : List UInt8 → Nat → Option (List UInt8)
  /-- Whether the DLL of Oodle is found. -/
  oodleLoads : Bool
  /-- `OodleLZ_GetCompressedBufferSizeNeeded`. -/
  oodleBound : Nat → Int
  /-- `OodleLZ_Compress`: compressor, level and input. It reports failure by producing nothing. -/
  oodleCompress : Int → Int → List UInt8 → List UInt8
  /-- `OodleLZ_Decompress`: input and size of the output. -/
  oodleDecompress : List UInt8 → Nat → Option (List UInt8)

/-- Codecs that fail. -/
def failingCodecs : Codecs where
  compressBound n := n
  deflate _ _ _ := none
  inflate _ _ _ := none
  zstdBound n := n
  zstdCompress _ _ _ := none
  zstdDecompress _ _ := none
  oodleLoads := false
  oodleBound n := n
  oodleCompress _ _ _ := []
  oodleDecompress _ _ := none

/-- `sf_dcx_type_t`. -/
inductive DcxType where
  | unknown
  | none
  | zlib
  | dcpEdge
  | dcpDflt
  | dcxEdge
  | dcxDflt
  | dcxKrak
  | dcxZstd
deriving DecidableEq, Repr

/-- `sf_dcx_compression_info_t`, the union with its tag. -/
inductive DcxCompressionInfo where
  | unknown
  | none
  | zlib
  | dcpEdge
  | dcpDflt
  | dcxEdge
  | dcxDflt (unk04 unk10 unk14 : Int32) (unk30 unk38 : UInt8)
  | dcxKrak (compressionLevel : UInt8) (oodleCompressorType : Int)
  | dcxZstd (compressionLevel : UInt8)
deriving DecidableEq, Repr

def DcxCompressionInfo.type : DcxCompressionInfo → DcxType
  | unknown => .unknown
  | none => .none
  | zlib => .zlib
  | dcpEdge => .dcpEdge
  | dcpDflt => .dcpDflt
  | dcxEdge => .dcxEdge
  | dcxDflt .. => .dcxDflt
  | dcxKrak .. => .dcxKrak
  | dcxZstd .. => .dcxZstd

/-- `SF_OODLE_LZ_COMPRESSOR_KRAKEN`. -/
def oodleKraken : Int := 8

/-- What the code calls a tag: four characters, the last of which may be a NUL. -/
def dcxTag (s : String) : List UInt8 := (cstr s ++ [0]).take 4

abbrev DcxM := Fallible Heap SfError

/-! ## Buffers -/

/-- `len` bytes of the input from `off` on. -/
def inputAt (input : List UInt8) (off len : Nat) : DcxM (List UInt8) := do
  check (off + len ≤ input.length) .undefinedBehaviour
  pure ((input.drop off).take len)

/-- The range of a buffer that is going to be written. -/
def outputAt (buf : List UInt8) (off len : Nat) : DcxM Unit :=
  check (off + len ≤ buf.length) .undefinedBehaviour

def byteAt (input : List UInt8) (off : Nat) : DcxM UInt8 := do
  let bs ← inputAt input off 1
  pure (bs.headD 0)

/-- `be32`. -/
def be32 (input : List UInt8) (off : Nat) : DcxM Nat := do
  let bs ← inputAt input off 4
  pure (wordNat true bs)

/-- `tag`. -/
def hasTag (input : List UInt8) (off : Nat) (tag : List UInt8) : DcxM Bool := do
  let bs ← inputAt input off 4
  pure (bs == tag)

/-- A block of `size` bytes, or of one byte if that is none. -/
def allocBlock (size : Nat) : DcxM (List UInt8) := do
  let junk ← Heap.alloc
  let size := if size = 0 then 1 else size
  pure ((junk ++ List.replicate size 0).take size)

/-! ## The codecs -/

section

variable (codecs : Codecs)

def adlerStep (s : UInt32 × UInt32) (byte : UInt8) : UInt32 × UInt32 :=
  let a := (s.1 + byte.toUInt32) % 65521
  (a, (s.2 + a) % 65521)

/-- `adler32_sf`. -/
def adler32 (data : List UInt8) : UInt32 :=
  let s := data.foldl adlerStep (1, 0)
  (s.2 <<< 16) ||| s.1

/-- `sfi_deflate_raw_decompress`, into `buf` at `outPos`. -/
def deflateRawDecompress (input : List UInt8) (off size : Nat) (buf : List UInt8) (outPos outSize : Nat) :
    DcxM (List UInt8) := do
  let bs ← inputAt input off size
  outputAt buf outPos outSize
  -- `avail_in` and `avail_out` are `uInt`
  match codecs.inflate (-15) (bs.take (size % 2 ^ 32)) (outSize % 2 ^ 32) with
  | none => fail .decompress
  | some x => do
    check (x.length = outSize) .decompress
    pure (overwrite buf outPos x)

/-- The second byte of a zlib stream. -/
def zlibLevels : List UInt8 := [0x01, 0x5E, 0x9C, 0xDA]

/-- `sfi_zlib_decompress`. The checksum is read whether the stream could be decoded or not. -/
def zlibDecompress (input : List UInt8) (off size outSize : Nat) : DcxM (List UInt8) := do
  check (6 ≤ size) .truncated
  let first ← byteAt input off
  check (first = 0x78) .badMagic
  let second ← byteAt input (off + 1)
  check (zlibLevels.contains second = true) .badMagic
  let buf ← allocBlock outSize
  let r ← attempt (deflateRawDecompress codecs input (off + 2) (size - 6) buf 0 outSize)
  let expect ← be32 input (off + size - 4)
  match r with
  | .error e => fail e
  | .ok buf => do
    let x := buf.take outSize
    check (expect = (adler32 x).toNat) .decompress
    pure x

/-- `sfi_zstd_decompress`. -/
def zstdDecompress (input : List UInt8) (off size outSize : Nat) : DcxM (List UInt8) := do
  let buf ← allocBlock outSize
  let bs ← inputAt input off size
  outputAt buf 0 outSize
  match codecs.zstdDecompress bs outSize with
  | none => fail .decompress
  | some x => do
    check (x.length = outSize) .decompress
    pure ((overwrite buf 0 x).take outSize)

/-- `sfi_oodle_decompress`, into `buf`. -/
def oodleDecompress (input : List UInt8) (off size : Nat) (buf : List UInt8) (outSize : Nat) :
    DcxM (List UInt8) := do
  check (codecs.oodleLoads = true) .oodleNotFound
  let bs ← inputAt input off size
  outputAt buf 0 outSize
  match codecs.oodleDecompress bs outSize with
  | none => fail .decompress
  | some x => do
    check (x.length = outSize) .decompress
    pure ((overwrite buf 0 x).take outSize)

/-- `sfi_deflate_raw_compress`. -/
def deflateRawCompress (x : List UInt8) (level : Int) : DcxM (List UInt8) := do
  -- `uLong` has 32 bits on Windows, `uInt` everywhere
  let bound := codecs.compressBound (x.length % 2 ^ 32)
  let _ ← Heap.alloc
  match codecs.deflate level (x.take (x.length % 2 ^ 32)) (bound % 2 ^ 32) with
  | none => fail .decompress
  | some raw => pure raw

/-- `sfi_zlib_compress`. -/
def zlibCompress (x : List UInt8) : DcxM (List UInt8) := do
  let raw ← deflateRawCompress codecs x 9
  let _ ← Heap.alloc
  pure ([0x78, 0xDA] ++ raw ++ wordBytes true 4 (adler32 x).toNat)

/-- `sfi_zstd_compress`. -/
def zstdCompress (x : List UInt8) (level : Int) : DcxM (List UInt8) := do
  let cap := codecs.zstdBound x.length
  let _ ← Heap.alloc
  -- `ZSTD_createCCtx`
  let _ ← Heap.alloc
  match codecs.zstdCompress level x cap with
  | none => fail .decompress
  | some z => pure z

/-- `sfi_oodle_compress_into`. -/
def oodleCompressInto (compressor level : Int) (x : List UInt8) (dstCap : Nat) : DcxM (List UInt8) := do
  check (codecs.oodleLoads = true) .oodleNotFound
  let bound := codecs.oodleBound x.length
  check (0 < bound) .decompress
  check (bound ≤ dstCap) .outOfRange
  let z := codecs.oodleCompress compressor level x
  check (z ≠ []) .decompress
  pure z

end

/-! ## Decoding -/

section

variable (codecs : Codecs) (input : List UInt8)

/-- The type of the first tag that stands at `off`. -/
def firstTag (off : Nat) : List (List UInt8 × DcxType) → DcxM DcxType
  | [] => pure .unknown
  | (tag, type) :: rest => do
    let found ← hasTag input off tag
    if found then pure type else firstTag off rest

/-- `sf_dcx_sniff`. -/
def dcxSniff : DcxM DcxType :=
  if input.length < 4 then pure .unknown
  else do
    let dcp ← hasTag input 0 (dcxTag "DCP")
    if dcp then
      if 8 ≤ input.length then
        firstTag input 4 [(dcxTag "DFLT", .dcpDflt), (dcxTag "EDGE", .dcpEdge)]
      else pure .unknown
    else do
      let dcx ← hasTag input 0 (dcxTag "DCX")
      if dcx then
        if 0x2C ≤ input.length then
          firstTag input 0x28 [(dcxTag "EDGE", .dcxEdge), (dcxTag "DFLT", .dcxDflt),
            (dcxTag "KRAK", .dcxKrak), (dcxTag "ZSTD", .dcxZstd)]
        else pure .unknown
      else do
        let first ← byteAt input 0
        let second ← byteAt input 1
        pure (if first = 0x78 ∧ zlibLevels.contains second = true then .zlib else .unknown)

/-- `read_compression_info`. -/
def readCompressionInfo : DcxM DcxCompressionInfo := do
  let type ← dcxSniff input
  match type with
  | .zlib => pure .zlib
  | .dcpDflt => pure .dcpDflt
  | .dcpEdge => pure .dcpEdge
  | .dcxEdge => pure .dcxEdge
  | .dcxDflt => do
    check (0x39 ≤ input.length) .truncated
    let unk04 ← be32 input 0x04
    let unk10 ← be32 input 0x10
    let unk14 ← be32 input 0x14
    let unk30 ← byteAt input 0x30
    let unk38 ← byteAt input 0x38
    pure (.dcxDflt (UInt32.ofNat unk04).toInt32 (UInt32.ofNat unk10).toInt32
      (UInt32.ofNat unk14).toInt32 unk30 unk38)
  | .dcxKrak => do
    check (0x31 ≤ input.length) .truncated
    let level ← byteAt input 0x30
    pure (.dcxKrak level oodleKraken)
  | .dcxZstd => do
    check (0x31 ≤ input.length) .truncated
    let level ← byteAt input 0x30
    pure (.dcxZstd level)
  | .unknown => pure .unknown
  | .none => pure .none

/-- The loop of `decompress_plain_zlib`: the capacity doubles, in `size_t`, until the output fits. -/
def plainZlibTries : Nat → Nat → DcxM (List UInt8)
  | 0, _ => fail .decompress
  | tries + 1, cap => do
    let _ ← Heap.alloc
    let bs ← inputAt input 0 (input.length % 2 ^ 32)
    -- the range of the block that the codec is given
    check (cap % 2 ^ 32 ≤ cap) .undefinedBehaviour
    match codecs.inflate 15 bs (cap % 2 ^ 32) with
    | some x => pure x
    | none => plainZlibTries tries (cap * 2 % 2 ^ 64)

/-- `decompress_plain_zlib`. -/
def decompressPlainZlib : DcxM (List UInt8) :=
  let cap := (input.length * 4 + 1024) % 2 ^ 64
  plainZlibTries codecs input 12 (if cap < 4096 then 4096 else cap)

/-- Where the chunks and their table are, and how many there are. -/
structure EdgeTable where
  dataStart : Nat
  table : Nat
  count : Nat

def dcxEdgeTable : DcxM EdgeTable := do
  check (0x50 ≤ input.length) .badMagic
  let dcs ← hasTag input 0x18 (dcxTag "DCS")
  check (dcs = true) .badMagic
  let dcp ← hasTag input 0x24 (dcxTag "DCP")
  check (dcp = true) .badMagic
  let edge ← hasTag input 0x28 (dcxTag "EDGE")
  check (edge = true) .badMagic
  let dcaStart := 0x44
  let dcaSize ← be32 input (dcaStart + 4)
  let table := dcaStart + 8 + 0x24
  let count ← be32 input (dcaStart + 8 + 0x1C)
  pure { dataStart := dcaStart + dcaSize, table := table, count := count }

def dcpEdgeTable (csize : Nat) : DcxM EdgeTable := do
  let dataStart := 0x30
  let dca := dataStart + csize
  check (dca + 0x28 ≤ input.length) .badMagic
  let dcaTag ← hasTag input dca (dcxTag "DCA")
  check (dcaTag = true) .badMagic
  let egdt ← hasTag input (dca + 8) (dcxTag "EgdT")
  check (egdt = true) .badMagic
  let table := dca + 8 + 0x20
  let count ← be32 input (dca + 8 + 0x18)
  pure { dataStart := dataStart, table := table, count := count }

/-- The difference of two `size_t`, at most a chunk's size. -/
def edgeChunkUsize (usize outPos : Nat) : Nat := min ((usize + 2 ^ 64 - outPos) % 2 ^ 64) 0x10000

/-- The loop over the chunks. -/
def edgeChunks (edge : EdgeTable) (usize : Nat) : Nat → Nat → Nat → List UInt8 → DcxM (List UInt8)
  | 0, _, _, dst => pure dst
  | count + 1, i, outPos, dst => do
    let entry := edge.table + i * 16
    let off ← be32 input (entry + 4)
    let sz ← be32 input (entry + 8)
    let comp ← be32 input (entry + 12)
    let chunkUsize := edgeChunkUsize usize outPos
    check (edge.dataStart + off + sz ≤ input.length ∧ outPos + chunkUsize ≤ usize) .truncated
    if comp ≠ 0 then do
      let dst ← deflateRawDecompress codecs input (edge.dataStart + off) sz dst outPos chunkUsize
      edgeChunks edge usize count (i + 1) (outPos + chunkUsize) dst
    else do
      -- a stored chunk is copied with the size that its entry claims
      let bs ← inputAt input (edge.dataStart + off) sz
      outputAt dst outPos sz
      edgeChunks edge usize count (i + 1) (outPos + sz) (overwrite dst outPos bs)

/-- `decompress_edge`. -/
def decompressEdge (dcx : Bool) : DcxM (List UInt8) := do
  let pos := if dcx then 0x18 else 0x20
  check (pos + 12 ≤ input.length) .badMagic
  let dcs ← hasTag input pos (dcxTag "DCS")
  check (dcs = true) .badMagic
  let usize ← be32 input (pos + 4)
  let csize ← be32 input (pos + 8)
  let dst ← allocBlock usize
  let edge ← if dcx then dcxEdgeTable input else dcpEdgeTable input csize
  check (edge.count ≤ 0x100000 ∧ edge.table + edge.count * 16 ≤ input.length) .truncated
  let dst ← edgeChunks codecs input edge usize edge.count 0 0 dst
  pure (dst.take usize)

/-- The payload of a container of that type. -/
def decompressPayload : DcxType → DcxM (List UInt8)
  | .zlib => decompressPlainZlib codecs input
  | .dcpDflt => do
    check (0x30 ≤ input.length) .truncated
    let outSize ← be32 input 0x24
    let size ← be32 input 0x28
    zlibDecompress codecs input 0x2C size outSize
  | .dcpEdge => decompressEdge codecs input false
  | .dcxEdge => decompressEdge codecs input true
  | .dcxDflt => do
    check (0x4C ≤ input.length) .truncated
    let outSize ← be32 input 0x1C
    let size ← be32 input 0x20
    zlibDecompress codecs input 0x4C size outSize
  | .dcxKrak => do
    check (0x4C ≤ input.length) .truncated
    let outSize ← be32 input 0x1C
    let buf ← allocBlock outSize
    let size ← be32 input 0x20
    oodleDecompress codecs input 0x4C size buf outSize
  | .dcxZstd => do
    check (0x4C ≤ input.length) .truncated
    let outSize ← be32 input 0x1C
    let size ← be32 input 0x20
    zstdDecompress codecs input 0x4C size outSize
  | .unknown => fail .unsupportedVersion
  | .none => fail .unsupportedVersion

/-- `sf_dcx_decompress_from_buffer`. -/
def dcxDecompressFromBuffer : DcxM (List UInt8 × DcxCompressionInfo) := do
  let info ← readCompressionInfo input
  let x ← decompressPayload codecs input info.type
  pure (x, info)

end

/-! ## Encoding -/

section

variable (codecs : Codecs) (x : List UInt8)

/-- The four bytes that `wr32` stores. -/
def be32Bytes (v : Nat) : List UInt8 := wordBytes true 4 v

/-- `wrap_dcp_dflt`. -/
def wrapDcpDflt : DcxM (List UInt8) := do
  let z ← zlibCompress codecs x
  let _ ← Heap.alloc
  pure (dcxTag "DCP" ++ dcxTag "DFLT" ++ be32Bytes 0x20 ++ be32Bytes 0x09000000 ++ be32Bytes 0
    ++ be32Bytes 0 ++ be32Bytes 0 ++ be32Bytes 0x00010100 ++ dcxTag "DCS" ++ be32Bytes x.length
    ++ be32Bytes z.length ++ z ++ dcxTag "DCA" ++ be32Bytes 8)

/-- What the header says of a payload that is not EDGE: its words, its two bytes and its name. -/
structure DcxHeader where
  unk04 : Int32
  unk10 : Int32
  unk14 : Int32
  level : UInt8
  unk38 : UInt8
  format : String

def dcxHeader : DcxCompressionInfo → DcxHeader
  | .dcxDflt unk04 unk10 unk14 unk30 unk38 =>
    { unk04 := unk04, unk10 := unk10, unk14 := unk14, level := unk30, unk38 := unk38, format := "DFLT" }
  | .dcxZstd level =>
    { unk04 := 0x11000, unk10 := 0x44, unk14 := 0x4C, level := level, unk38 := 0, format := "ZSTD" }
  | .dcxKrak level _ =>
    { unk04 := 0x11000, unk10 := 0x44, unk14 := 0x4C, level := level, unk38 := 0, format := "KRAK" }
  | _ => { unk04 := 0x11000, unk10 := 0x44, unk14 := 0x4C, level := 0, unk38 := 0, format := "KRAK" }

/-- `wrap_dcx_write_header`. -/
def wrapDcxHeader (header : DcxHeader) (inSize csz : Nat) : List UInt8 :=
  dcxTag "DCX" ++ be32Bytes header.unk04.toUInt32.toNat ++ be32Bytes 0x18 ++ be32Bytes 0x24
    ++ be32Bytes header.unk10.toUInt32.toNat ++ be32Bytes header.unk14.toUInt32.toNat ++ dcxTag "DCS"
    ++ be32Bytes inSize ++ be32Bytes csz ++ dcxTag "DCP" ++ dcxTag header.format ++ be32Bytes 0x20
    ++ [header.level, 0, 0, 0] ++ be32Bytes 0 ++ be32Bytes (header.unk38.toNat * 2 ^ 24) ++ be32Bytes 0
    ++ be32Bytes 0x00010100 ++ dcxTag "DCA" ++ be32Bytes 8

/-- `wrap_dcx_payload`. -/
def wrapDcxPayload (info : DcxCompressionInfo) : DcxM (List UInt8) :=
  match info with
  | .dcxKrak level compressor => do
    check (codecs.oodleLoads = true) .oodleNotFound
    let bound := codecs.oodleBound x.length
    check (0 < bound) .decompress
    let _ ← Heap.alloc
    let z ← oodleCompressInto codecs compressor level.toNat x bound.toNat
    pure (wrapDcxHeader (dcxHeader info) x.length z.length ++ z)
  | .dcxDflt .. => do
    let z ← zlibCompress codecs x
    let _ ← Heap.alloc
    pure (wrapDcxHeader (dcxHeader info) x.length z.length ++ z)
  | .dcxZstd level => do
    let z ← zstdCompress codecs x level.toNat
    let _ ← Heap.alloc
    pure (wrapDcxHeader (dcxHeader info) x.length z.length ++ z)
  | _ => fail .invalidArg

/-- `align16`. -/
def align16 (n : Nat) : Nat := (n + 15) / 16 * 16

/-- The number of the chunks, of which there is at least one. -/
def edgeCount (inSize : Nat) : Nat :=
  let chunks := (inSize + 0xFFFF) / 0x10000 % 2 ^ 32
  if chunks = 0 then 1 else chunks

def edgeChunkSize (inSize i : Nat) : Nat := min (inSize - i * 0x10000) 0x10000

/-- What `body` stores for the chunks from the `i`-th on, `off` bytes of which have been placed. -/
def edgeLoop (inSize : Nat) (body : Nat → Nat → List Store) :
    Nat → Nat → Nat → List Store
  | 0, _, _ => []
  | count + 1, i, off =>
    body i off ++ edgeLoop inSize body count (i + 1) (off + align16 (edgeChunkSize inSize i))

/-- The size of the chunks from the `i`-th on, each padded. -/
def edgePadded (inSize : Nat) : Nat → Nat → Nat
  | 0, _ => 0
  | count + 1, i => align16 (edgeChunkSize inSize i) + edgePadded inSize count (i + 1)

/-- The entry of a chunk in a table at `table`. -/
def edgeEntry (inSize table i off : Nat) : List Store :=
  [(table + i * 16 + 4, be32Bytes off), (table + i * 16 + 8, be32Bytes (edgeChunkSize inSize i))]

/-- The bytes of a chunk, if there are any. -/
def edgeData (dataStart i off : Nat) : List Store :=
  if 0 < edgeChunkSize x.length i then
    [(dataStart + off, (x.drop (i * 0x10000)).take (edgeChunkSize x.length i))]
  else []

/-- The header that `wrap_edge` stores for a DCX container, up to the table. -/
def dcxEdgeHeader (inSize chunks padded : Nat) : List Store :=
  [(0, dcxTag "DCX"), (4, be32Bytes 0x10000), (8, be32Bytes 0x18), (12, be32Bytes 0x24),
    (16, be32Bytes 0x24), (20, be32Bytes (0x50 + chunks * 16)), (24, dcxTag "DCS"),
    (28, be32Bytes inSize), (32, be32Bytes padded), (36, dcxTag "DCP" ++ dcxTag "EDGE"),
    (44, be32Bytes 0x20), (48, be32Bytes 0x09000000), (52, be32Bytes 0x10000),
    (64, be32Bytes 0x00100100), (68, dcxTag "DCA"), (72, be32Bytes (0x24 + chunks * 16 + 8)),
    (76, dcxTag "EgdT"), (80, be32Bytes 0x00010100), (84, be32Bytes 0x24), (88, be32Bytes 0x10),
    (92, be32Bytes 0x10000), (96, be32Bytes (inSize % 0x10000)), (100, be32Bytes (0x24 + chunks * 16)),
    (104, be32Bytes chunks), (108, be32Bytes 0x100000)]

/-- The stores of `wrap_edge` for a DCX container. -/
def wrapDcxEdge (chunks padded : Nat) : List Store :=
  dcxEdgeHeader x.length chunks padded
    ++ edgeLoop x.length (fun i off => edgeEntry x.length 112 i off
      ++ edgeData x (0x70 + chunks * 16) i off) chunks 0 0

/-- The header that `wrap_edge` stores for a DCP container, up to the chunks. -/
def dcpEdgeHeader (inSize padded : Nat) : List Store :=
  [(0, dcxTag "DCP" ++ dcxTag "EDGE"), (8, be32Bytes 0x20), (12, be32Bytes 0x09000000),
    (16, be32Bytes 0x10000), (28, be32Bytes 0x00100100), (32, dcxTag "DCS"), (36, be32Bytes inSize),
    (40, be32Bytes padded)]

/-- What follows the chunks, up to the table. -/
def dcpEdgeTrailer (dcaPos chunks dca : Nat) : List Store :=
  [(dcaPos, dcxTag "DCA"), (dcaPos + 4, be32Bytes dca), (dcaPos + 8, dcxTag "EgdT"),
    (dcaPos + 12, be32Bytes 0x10000), (dcaPos + 16, be32Bytes 0x20), (dcaPos + 20, be32Bytes 0x10),
    (dcaPos + 24, be32Bytes 0x10000), (dcaPos + 28, be32Bytes (0x20 + chunks * 16)),
    (dcaPos + 32, be32Bytes chunks), (dcaPos + 36, be32Bytes 0x100000)]

/-- The stores of `wrap_edge` for a DCP container. -/
def wrapDcpEdge (chunks padded dca : Nat) : List Store :=
  let dcaPos := 48 + padded
  dcpEdgeHeader x.length padded ++ edgeLoop x.length (edgeData x 48) chunks 0 0
    ++ dcpEdgeTrailer dcaPos chunks dca ++ edgeLoop x.length (edgeEntry x.length (dcaPos + 40)) chunks 0 0

/-- `wrap_edge`. -/
def wrapEdge (dcx : Bool) : DcxM (List UInt8) := do
  let chunks := edgeCount x.length
  let padded := edgePadded x.length chunks 0
  let _ ← Heap.alloc
  if dcx then
    pure (applyStores (List.replicate (0x70 + chunks * 16 + padded) 0) (wrapDcxEdge x chunks padded))
  else
    let dca := 8 + 0x20 + chunks * 16
    pure (applyStores (List.replicate (0x30 + padded + dca) 0) (wrapDcpEdge x chunks padded dca))

/-- `sf_dcx_compress_to_buffer`. -/
def dcxCompressToBuffer (info : DcxCompressionInfo) : DcxM (List UInt8) :=
  match info with
  | .none => do
    let _ ← Heap.alloc
    pure x
  | .zlib => zlibCompress codecs x
  | .dcpDflt => wrapDcpDflt codecs x
  | .dcpEdge => wrapEdge x false
  | .dcxEdge => wrapEdge x true
  | .dcxDflt .. => wrapDcxPayload codecs x info
  | .dcxKrak .. => wrapDcxPayload codecs x info
  | .dcxZstd .. => wrapDcxPayload codecs x info
  | .unknown => fail .invalidArg

end

end SoulsFormats
