import SoulsFormats.Compression.Dcx

set_option autoImplicit false

/-! # DCX and the allocator

The encoder and the decoder only ask the allocator: what requests do not change of it they do not change. -/

namespace SoulsFormats

open Bytes Fallible

/-! ## Decoding -/

section

variable {I : Heap → Prop} {codecs : Codecs} {input : List UInt8}

theorem inputAt_keeps (off len : Nat) : Keeps I (inputAt input off len) :=
  (Keeps.check _ _).bind fun _ => Keeps.pure _

theorem byteAt_keeps (off : Nat) : Keeps I (byteAt input off) :=
  (inputAt_keeps _ _).bind fun _ => Keeps.pure _

theorem be32_keeps (off : Nat) : Keeps I (be32 input off) :=
  (inputAt_keeps _ _).bind fun _ => Keeps.pure _

theorem hasTag_keeps (off : Nat) (tag : List UInt8) : Keeps I (hasTag input off tag) :=
  (inputAt_keeps _ _).bind fun _ => Keeps.pure _

theorem deflateRawDecompress_keeps (off size : Nat) (buf : List UInt8) (outPos outSize : Nat) :
    Keeps I (deflateRawDecompress codecs input off size buf outPos outSize) := by
  refine (inputAt_keeps _ _).bind fun bs => (Keeps.check _ _).bind fun _ => ?_
  cases codecs.inflate (-15) (bs.take (size % 2 ^ 32)) (outSize % 2 ^ 32) with
  | none => exact Keeps.fail _
  | some x => exact (Keeps.check _ _).bind fun _ => Keeps.pure _

theorem oodleDecompress_keeps (off size : Nat) (buf : List UInt8) (outSize : Nat) :
    Keeps I (oodleDecompress codecs input off size buf outSize) := by
  refine (Keeps.check _ _).bind fun _ => (inputAt_keeps _ _).bind fun bs => (Keeps.check _ _).bind fun _ => ?_
  cases codecs.oodleDecompress bs outSize with
  | none => exact Keeps.fail _
  | some x => exact (Keeps.check _ _).bind fun _ => Keeps.pure _

theorem firstTag_keeps (off : Nat) (tags : List (List UInt8 × DcxType)) :
    Keeps I (firstTag input off tags) := by
  induction tags with
  | nil => exact Keeps.pure _
  | cons tag tags ih => exact (hasTag_keeps _ _).bind fun _ => Keeps.ite (fun _ => Keeps.pure _) fun _ => ih

theorem dcxSniff_keeps : Keeps I (dcxSniff input) := by
  refine Keeps.ite (fun _ => Keeps.pure _) fun _ => (hasTag_keeps _ _).bind fun _ => ?_
  refine Keeps.ite (fun _ => Keeps.ite (fun _ => firstTag_keeps _ _) fun _ => Keeps.pure _) fun _ => ?_
  refine (hasTag_keeps _ _).bind fun _ => Keeps.ite (fun _ => ?_) fun _ => ?_
  · exact Keeps.ite (fun _ => firstTag_keeps _ _) fun _ => Keeps.pure _
  · exact (byteAt_keeps _).bind fun _ => (byteAt_keeps _).bind fun _ => Keeps.pure _

theorem readCompressionInfo_keeps : Keeps I (readCompressionInfo input) := by
  refine dcxSniff_keeps.bind fun type => ?_
  have hlevel : ∀ f : UInt8 → DcxCompressionInfo, Keeps I (do
      check (0x31 ≤ input.length) .truncated
      let level ← byteAt input 0x30
      pure (f level)) := fun f =>
    (Keeps.check _ _).bind fun _ => (byteAt_keeps _).bind fun _ => Keeps.pure _
  cases type with
  | dcxDflt =>
      refine (Keeps.check _ _).bind fun _ => (be32_keeps _).bind fun _ => (be32_keeps _).bind fun _ => ?_
      refine (be32_keeps _).bind fun _ => (byteAt_keeps _).bind fun _ => (byteAt_keeps _).bind fun _ => ?_
      exact Keeps.pure _
  | dcxKrak => exact hlevel fun level => .dcxKrak level oodleKraken
  | dcxZstd => exact hlevel .dcxZstd
  | _ => exact Keeps.pure _

theorem edgeChunks_keeps (edge : EdgeTable) (usize count i outPos : Nat) (dst : List UInt8) :
    Keeps I (edgeChunks codecs input edge usize count i outPos dst) := by
  induction count generalizing i outPos dst with
  | zero => exact Keeps.pure _
  | succ count ih =>
      refine (be32_keeps _).bind fun _ => (be32_keeps _).bind fun _ => (be32_keeps _).bind fun _ => ?_
      refine (Keeps.check _ _).bind fun _ => Keeps.ite (fun _ => ?_) fun _ => ?_
      · exact (deflateRawDecompress_keeps _ _ _ _ _).bind fun _ => ih _ _ _
      · exact (inputAt_keeps _ _).bind fun _ => (Keeps.check _ _).bind fun _ => ih _ _ _

variable [Heap.Kept I]

theorem allocBlock_keeps (size : Nat) : Keeps I (allocBlock size) :=
  Heap.Kept.keeps.bind fun _ => Keeps.pure _

theorem zlibDecompress_keeps (off size outSize : Nat) :
    Keeps I (zlibDecompress codecs input off size outSize) := by
  refine (Keeps.check _ _).bind fun _ => (byteAt_keeps _).bind fun _ => (Keeps.check _ _).bind fun _ => ?_
  refine (byteAt_keeps _).bind fun _ => (Keeps.check _ _).bind fun _ => (allocBlock_keeps _).bind fun buf => ?_
  refine (deflateRawDecompress_keeps _ _ _ _ _).attempt.bind fun r => (be32_keeps _).bind fun _ => ?_
  cases r with
  | error e => exact Keeps.fail _
  | ok buf => exact (Keeps.check _ _).bind fun _ => Keeps.pure _

theorem zstdDecompress_keeps (off size outSize : Nat) :
    Keeps I (zstdDecompress codecs input off size outSize) := by
  refine (allocBlock_keeps _).bind fun buf => (inputAt_keeps _ _).bind fun bs => ?_
  refine (Keeps.check _ _).bind fun _ => ?_
  cases codecs.zstdDecompress bs outSize with
  | none => exact Keeps.fail _
  | some x => exact (Keeps.check _ _).bind fun _ => Keeps.pure _

theorem plainZlibTries_keeps (tries cap : Nat) : Keeps I (plainZlibTries codecs input tries cap) := by
  induction tries generalizing cap with
  | zero => exact Keeps.fail _
  | succ tries ih =>
      refine Heap.Kept.keeps.bind fun _ => (inputAt_keeps _ _).bind fun bs => (Keeps.check _ _).bind fun _ => ?_
      cases codecs.inflate 15 bs (cap % 2 ^ 32) with
      | none => exact ih _
      | some x => exact Keeps.pure _

theorem decompressEdge_keeps (dcx : Bool) : Keeps I (decompressEdge codecs input dcx) := by
  have htag : ∀ {β : Type} (off : Nat) (tag : List UInt8) (f : Unit → DcxM β), (∀ u, Keeps I (f u)) →
      Keeps I (hasTag input off tag >>= fun found => check (found = true) .badMagic >>= f) :=
    fun off tag f hf => (hasTag_keeps _ _).bind fun _ => (Keeps.check _ _).bind hf
  have htable : Keeps I (dcxEdgeTable input) := by
    refine (Keeps.check _ _).bind fun _ => htag _ _ _ fun _ => htag _ _ _ fun _ => htag _ _ _ fun _ => ?_
    exact (be32_keeps _).bind fun _ => (be32_keeps _).bind fun _ => Keeps.pure _
  have hdcp : ∀ csize, Keeps I (dcpEdgeTable input csize) := by
    intro csize
    refine (Keeps.check _ _).bind fun _ => htag _ _ _ fun _ => htag _ _ _ fun _ => ?_
    exact (be32_keeps _).bind fun _ => Keeps.pure _
  refine (Keeps.check _ _).bind fun _ => htag _ _ _ fun _ => (be32_keeps _).bind fun _ => ?_
  refine (be32_keeps _).bind fun csize => (allocBlock_keeps _).bind fun _ => ?_
  have hrest : ∀ (edge : EdgeTable) (usize : Nat) (dst : List UInt8), Keeps I (do
      check (edge.count ≤ 0x100000 ∧ edge.table + edge.count * 16 ≤ input.length) .truncated
      let dst ← edgeChunks codecs input edge usize edge.count 0 0 dst
      pure (dst.take usize)) := fun edge usize dst =>
    (Keeps.check _ _).bind fun _ => (edgeChunks_keeps _ _ _ _ _ _).bind fun _ => Keeps.pure _
  cases dcx with
  | false => exact (hdcp csize).bind fun edge => hrest edge _ _
  | true => exact htable.bind fun edge => hrest edge _ _

theorem decompressPayload_keeps (type : DcxType) : Keeps I (decompressPayload codecs input type) := by
  cases type with
  | zlib => exact plainZlibTries_keeps _ _
  | dcpDflt =>
      exact (Keeps.check _ _).bind fun _ => (be32_keeps _).bind fun _ => (be32_keeps _).bind fun _ =>
        zlibDecompress_keeps _ _ _
  | dcpEdge => exact decompressEdge_keeps false
  | dcxEdge => exact decompressEdge_keeps true
  | dcxDflt =>
      exact (Keeps.check _ _).bind fun _ => (be32_keeps _).bind fun _ => (be32_keeps _).bind fun _ =>
        zlibDecompress_keeps _ _ _
  | dcxKrak =>
      exact (Keeps.check _ _).bind fun _ => (be32_keeps _).bind fun _ => (allocBlock_keeps _).bind fun _ =>
        (be32_keeps _).bind fun _ => oodleDecompress_keeps _ _ _ _
  | dcxZstd =>
      exact (Keeps.check _ _).bind fun _ => (be32_keeps _).bind fun _ => (be32_keeps _).bind fun _ =>
        zstdDecompress_keeps _ _ _
  | unknown => exact Keeps.fail _
  | none => exact Keeps.fail _

theorem dcxDecompressFromBuffer_keeps : Keeps I (dcxDecompressFromBuffer codecs input) :=
  readCompressionInfo_keeps.bind fun _ => (decompressPayload_keeps _).bind fun _ => Keeps.pure _

end

/-! ## Encoding -/

section

variable {I : Heap → Prop} [Heap.Kept I] {codecs : Codecs} {x : List UInt8}

theorem zlibCompress_keeps : Keeps I (zlibCompress codecs x) := by
  have hraw : Keeps I (deflateRawCompress codecs x 9) := by
    refine Heap.Kept.keeps.bind fun _ => ?_
    cases codecs.deflate 9 (x.take (x.length % 2 ^ 32)) (codecs.compressBound (x.length % 2 ^ 32) % 2 ^ 32) with
    | none => exact Keeps.fail _
    | some raw => exact Keeps.pure _
  exact hraw.bind fun _ => Heap.Kept.keeps.bind fun _ => Keeps.pure _

theorem zstdCompress_keeps (level : Int) : Keeps I (zstdCompress codecs x level) := by
  refine Heap.Kept.keeps.bind fun _ => Heap.Kept.keeps.bind fun _ => ?_
  cases codecs.zstdCompress level x (codecs.zstdBound x.length) with
  | none => exact Keeps.fail _
  | some z => exact Keeps.pure _

theorem wrapDcxPayload_keeps (info : DcxCompressionInfo) : Keeps I (wrapDcxPayload codecs x info) := by
  cases info with
  | dcxKrak level compressor =>
      refine (Keeps.check _ _).bind fun _ => (Keeps.check _ _).bind fun _ => Heap.Kept.keeps.bind fun _ => ?_
      refine Keeps.bind ?_ fun _ => Keeps.pure _
      exact (Keeps.check _ _).bind fun _ => (Keeps.check _ _).bind fun _ => (Keeps.check _ _).bind fun _ =>
        (Keeps.check _ _).bind fun _ => Keeps.pure _
  | dcxDflt => exact zlibCompress_keeps.bind fun _ => Heap.Kept.keeps.bind fun _ => Keeps.pure _
  | dcxZstd level => exact (zstdCompress_keeps _).bind fun _ => Heap.Kept.keeps.bind fun _ => Keeps.pure _
  | _ => exact Keeps.fail _

theorem wrapEdge_keeps (dcx : Bool) : Keeps I (wrapEdge x dcx) :=
  Heap.Kept.keeps.bind fun _ => Keeps.ite (fun _ => Keeps.pure _) fun _ => Keeps.pure _

theorem dcxCompressToBuffer_keeps (info : DcxCompressionInfo) :
    Keeps I (dcxCompressToBuffer codecs x info) := by
  cases info with
  | none => exact Heap.Kept.keeps.bind fun _ => Keeps.pure _
  | zlib => exact zlibCompress_keeps
  | dcpDflt => exact zlibCompress_keeps.bind fun _ => Heap.Kept.keeps.bind fun _ => Keeps.pure _
  | dcpEdge => exact wrapEdge_keeps false
  | dcxEdge => exact wrapEdge_keeps true
  | dcxDflt => exact wrapDcxPayload_keeps _
  | dcxKrak => exact wrapDcxPayload_keeps _
  | dcxZstd => exact wrapDcxPayload_keeps _
  | unknown => exact Keeps.fail _

end

end SoulsFormats
