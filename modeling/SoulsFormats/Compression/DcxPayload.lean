import SoulsFormats.Compression.DcxBounds

set_option autoImplicit false

/-! # The DCX containers that hold one payload

The containers that `wrap_dcp_dflt` and `wrap_dcx_payload` write are decoded to the text and the info they
were made of, as long as the size of the compressed payload fits its field of four bytes. The encoder does
not check that. -/

namespace SoulsFormats

open Bytes Fallible

/-! ## The codecs -/

/-- What the three libraries promise: what one of them has compressed it decompresses. A stream that is
    too large for the size field is not decoded from a part of it. -/
structure Codecs.Inverts (codecs : Codecs) : Prop where
  deflate_le : ∀ level x avail raw, codecs.deflate level x avail = some raw → raw.length ≤ avail
  inflate_deflate : ∀ level x avail raw, codecs.deflate level x avail = some raw →
    codecs.inflate (-15) raw x.length = some x
  zstd : ∀ level x cap z, codecs.zstdCompress level x cap = some z →
    codecs.zstdDecompress z x.length = some x
  zstd_part : ∀ level x cap z, codecs.zstdCompress level x cap = some z → 2 ^ 32 ≤ z.length →
    ∀ n < z.length, codecs.zstdDecompress (z.take n) x.length ≠ some x
  oodle : ∀ compressor level x, codecs.oodleCompress compressor level x ≠ [] →
    codecs.oodleDecompress (codecs.oodleCompress compressor level x) x.length = some x
  oodle_part : ∀ compressor level x, 2 ^ 32 ≤ (codecs.oodleCompress compressor level x).length →
    ∀ n < (codecs.oodleCompress compressor level x).length,
      codecs.oodleDecompress ((codecs.oodleCompress compressor level x).take n) x.length ≠ some x

/-! ## What stands in a container -/

section

variable {input : List UInt8} {off : Nat}

@[simp] theorem length_be32Bytes (v : Nat) : (be32Bytes v).length = 4 := length_wordBytes ..

theorem wordAt_of_holds {v : Nat} (h : Holds input off (be32Bytes v)) :
    wordAt input off = v % 2 ^ 32 := by
  have htake := h.take_drop
  rw [length_be32Bytes] at htake
  rw [wordAt, htake]
  exact wordNat_wordBytes true 4 v

theorem tagAt_of_holds {t : List UInt8} (ht : t.length = 4) (h : Holds input off t)
    (tag : List UInt8) : tagAt input off tag = (t == tag) := by
  have htake := h.take_drop
  rw [ht] at htake
  rw [tagAt, htake]

theorem octetAt_of_holds {b : UInt8} {t : List UInt8} (h : Holds input off (b :: t)) :
    octetAt input off = b := by
  have htake := (holds_cons.1 h).1.take_drop
  rw [octetAt, show (1 : Nat) = [b].length from rfl, htake]
  rfl

/-- A calm allocator grants the block. -/
theorem allocBlock_calm (size : Nat) {heap : Heap} (hcalm : heap.Calm) :
    ∃ buf heap', allocBlock size heap = (.ok buf, heap') ∧ size ≤ buf.length ∧ heap'.Calm := by
  obtain ⟨junk, heap', halloc, hcalm'⟩ := Heap.alloc_calm hcalm
  have hrun : allocBlock size heap = (.ok _, heap') := bind_ok halloc _
  refine ⟨_, heap', hrun, ?_, hcalm'⟩
  rw [length_allocBlock hrun]
  split <;> omega

end

/-! ## zlib data -/

section

variable {codecs : Codecs} {input x : List UInt8} {off : Nat} {heap : Heap}

/-- The bytes of a zlib stream. -/
def zlibStream (raw x : List UInt8) : List UInt8 :=
  [0x78, 0xDA] ++ raw ++ wordBytes true 4 (adler32 x).toNat

@[simp] theorem length_zlibStream (raw x : List UInt8) :
    (zlibStream raw x).length = raw.length + 6 := by
  simp [zlibStream, length_wordBytes]

theorem zlibDecompress_ok (hinv : codecs.Inverts) {level : Int} {avail : Nat} {raw : List UInt8}
    (hraw : codecs.deflate level x avail = some raw) (hsize : raw.length < 2 ^ 32)
    (hx : x.length < 2 ^ 32) (h : Holds input off (zlibStream raw x)) (hcalm : heap.Calm) :
    (zlibDecompress codecs input off (raw.length + 6) x.length heap).1 = .ok x := by
  have hle := h.le
  rw [length_zlibStream] at hle
  unfold zlibStream at h
  rw [List.append_assoc, holds_append, holds_append] at h
  obtain ⟨hhead, hbody, hsum⟩ := h
  have hfirst : octetAt input off = 0x78 := octetAt_of_holds hhead
  have hsecond : octetAt input (off + 1) = 0xDA := octetAt_of_holds (holds_cons.1 hhead).2
  obtain ⟨buf, heap', halloc, hbuf, -⟩ := allocBlock_calm x.length hcalm
  have hbytes : ((input.drop (off + 2)).take raw.length).take (raw.length % 2 ^ 32) = raw := by
    have hraw' : Holds input (off + 2) raw := hbody
    rw [hraw'.take_drop, Nat.mod_eq_of_lt hsize, List.take_length]
  have hdecode : deflateRawDecompress codecs input (off + 2) (raw.length + 6 - 6) buf 0 x.length heap'
      = (.ok (overwrite buf 0 x), heap') := by
    rw [Nat.add_sub_cancel, deflateRawDecompress_eq_ok codecs input (by omega) (by omega)]
    refine ⟨x, ?_, rfl, rfl, rfl⟩
    rw [hbytes, Nat.mod_eq_of_lt hx]
    exact hinv.inflate_deflate level x avail raw hraw
  have hsum' : Holds input (off + (raw.length + 6) - 4) (be32Bytes (adler32 x).toNat) := by
    have hat : off + (raw.length + 6) - 4 = off + [(0x78 : UInt8), 0xDA].length + raw.length := by
      simp
      omega
    rw [hat]
    exact hsum
  have hadler : (adler32 x).toNat % 2 ^ 32 = (adler32 x).toNat := Nat.mod_eq_of_lt (adler32 x).toNat_lt
  unfold zlibDecompress
  rw [check_bind_pos (by omega), byteAt_bind (by omega), hfirst, check_bind_pos rfl,
    byteAt_bind (by omega), hsecond, check_bind_pos (by decide), bind_ok halloc, attempt_bind_run, hdecode,
    be32_bind (by omega), wordAt_of_holds hsum', hadler]
  simp only
  rw [take_overwrite_self, check_bind_pos rfl]
  rfl

/-- A zlib stream is refused if its size is given as less than six bytes. -/
theorem zlibDecompress_short {size outSize : Nat} (hsize : size < 6) :
    (zlibDecompress codecs input off size outSize heap).1 = .error .truncated := by
  unfold zlibDecompress
  rw [check_bind_neg (by omega)]

/-! ## zstd and Oodle data -/

/-- What the wrappers do with a codec's answer. -/
theorem codecAnswer_eq_ok (answer : Option (List UInt8)) (buf : List UInt8) :
    ((match answer with
      | none => fail .decompress
      | some y => do
        check (y.length = x.length) .decompress
        pure ((overwrite buf 0 y).take x.length) : DcxM (List UInt8)) heap).1 = .ok x ↔
      answer = some x := by
  rcases answer with _ | y
  · simp [fail]
  · by_cases hlen : y.length = x.length
    · simp only [check_bind_pos hlen]
      rw [← hlen, take_overwrite_self]
      simp [pure_run]
    · simp only [check_bind_neg hlen]
      constructor
      · intro h
        cases h
      · intro h
        cases h
        exact absurd rfl hlen

theorem zstdDecompress_eq_ok {size : Nat} (hin : off + size ≤ input.length) (hcalm : heap.Calm) :
    (zstdDecompress codecs input off size x.length heap).1 = .ok x ↔
      codecs.zstdDecompress ((input.drop off).take size) x.length = some x := by
  obtain ⟨buf, heap', halloc, hbuf, -⟩ := allocBlock_calm x.length hcalm
  have hout : 0 + x.length ≤ buf.length := by omega
  unfold zstdDecompress outputAt
  rw [bind_ok halloc, inputAt_bind hin, check_bind_pos hout]
  exact codecAnswer_eq_ok _ buf

theorem oodleDecompress_eq_ok {size : Nat} {buf : List UInt8} (hloads : codecs.oodleLoads = true)
    (hin : off + size ≤ input.length) (hbuf : x.length ≤ buf.length) :
    (oodleDecompress codecs input off size buf x.length heap).1 = .ok x ↔
      codecs.oodleDecompress ((input.drop off).take size) x.length = some x := by
  have hout : 0 + x.length ≤ buf.length := by omega
  unfold oodleDecompress outputAt
  rw [check_bind_pos hloads, inputAt_bind hin, check_bind_pos hout]
  exact codecAnswer_eq_ok _ buf

end

/-! ## The containers that hold one payload -/

section

variable {codecs : Codecs} {x out z : List UInt8} {heap : Heap}

/-- What the decoder looks at in the header of a DCX container. -/
structure DcxHeaderAt (out : List UInt8) (header : DcxHeader) (inSize csz : Nat) : Prop where
  magic : Holds out 0 (dcxTag "DCX")
  unk04 : Holds out 4 (be32Bytes header.unk04.toUInt32.toNat)
  unk10 : Holds out 0x10 (be32Bytes header.unk10.toUInt32.toNat)
  unk14 : Holds out 0x14 (be32Bytes header.unk14.toUInt32.toNat)
  inSize : Holds out 0x1C (be32Bytes inSize)
  csz : Holds out 0x20 (be32Bytes csz)
  format : Holds out 0x28 (dcxTag header.format)
  level : Holds out 0x30 [header.level, 0, 0, 0]
  unk38 : Holds out 0x38 (be32Bytes (header.unk38.toNat * 2 ^ 24))

theorem length_dcxTag {s : String} (hs : s.toList.length = 4) : (dcxTag s).length = 4 := by
  simp [dcxTag, cstr, hs]

theorem length_wrapDcxHeader {header : DcxHeader} (hformat : header.format.toList.length = 4)
    (inSize csz : Nat) : (wrapDcxHeader header inSize csz).length = 0x4C := by
  have h1 : (dcxTag "DCX").length = 4 := by decide
  have h2 : (dcxTag "DCS").length = 4 := by decide
  have h3 : (dcxTag "DCP").length = 4 := by decide
  have h4 : (dcxTag "DCA").length = 4 := by decide
  delta wrapDcxHeader
  simp [h1, h2, h3, h4, length_dcxTag hformat]

theorem dcxHeaderAt {header : DcxHeader} (hformat : header.format.toList.length = 4) {inSize csz : Nat}
    (h : Holds out 0 (wrapDcxHeader header inSize csz)) : DcxHeaderAt out header inSize csz := by
  have h1 : (dcxTag "DCX").length = 4 := by decide
  have h2 : (dcxTag "DCS").length = 4 := by decide
  have h3 : (dcxTag "DCP").length = 4 := by decide
  have h4 := length_dcxTag hformat
  delta wrapDcxHeader at h
  simp only [holds_append, List.length_append, length_be32Bytes, h1, h2, h3, h4,
    List.length_cons, List.length_nil, Nat.reduceAdd, and_assoc] at h
  obtain ⟨hmagic, h04, -, -, h10, h14, -, hin, hcsz, -, hname, -, hlevel, -, h38, -⟩ := h
  exact ⟨hmagic, h04, h10, h14, hin, hcsz, hname, hlevel, h38⟩

section

variable {header : DcxHeader} {inSize csz : Nat}

theorem int32_of_wordAt {off : Nat} {v : Int32} (h : Holds out off (be32Bytes v.toUInt32.toNat)) :
    (UInt32.ofNat (wordAt out off)).toInt32 = v := by
  rw [wordAt_of_holds h, Nat.mod_eq_of_lt v.toUInt32.toNat_lt, UInt32.ofNat_toNat,
    Int32.toInt32_toUInt32]

/-- The high byte of a word comes first. -/
theorem octetAt_high {off : Nat} {b : UInt8} (h : Holds out off (be32Bytes (b.toNat * 2 ^ 24))) :
    octetAt out off = b := by
  have hbytes : be32Bytes (b.toNat * 2 ^ 24) = [b] ++ wordBytes true 3 (b.toNat * 2 ^ 24) := by
    rw [be32Bytes, show (4 : Nat) = 1 + 3 from rfl, wordBytes_true_add, wordBytes_one]
    simp
  rw [hbytes] at h
  exact octetAt_of_holds h

theorem DcxHeaderAt.type (h : DcxHeaderAt out header inSize csz) (hlen : 0x4C ≤ out.length)
    (hformat : header.format.toList.length = 4) :
    dcxTypeOf out = (([(dcxTag "EDGE", .dcxEdge), (dcxTag "DFLT", .dcxDflt), (dcxTag "KRAK", .dcxKrak),
      (dcxTag "ZSTD", .dcxZstd)].find? fun entry => dcxTag header.format == entry.1).map
        Prod.snd).getD .unknown := by
  have hdcx : (dcxTag "DCX").length = 4 := by decide
  unfold dcxTypeOf firstTagOf
  rw [if_neg (by omega), tagAt_of_holds hdcx h.magic, tagAt_of_holds hdcx h.magic, if_neg (by decide),
    if_pos (by decide), if_pos (by omega)]
  simp only [tagAt_of_holds (length_dcxTag hformat) h.format]

end

/-- The container whose info and payload are known. -/
theorem dcxDecompress_eq_ok {info : DcxCompressionInfo} (htype : dcxTypeOf out = info.type)
    (hlen : dcxInfoSize info.type ≤ out.length) (hinfo : dcxInfoOf out info.type = info) :
    (dcxDecompressFromBuffer codecs out heap).1 = .ok (x, info) ↔
      (decompressPayload codecs out info.type heap).1 = .ok x := by
  have hrun := readCompressionInfo_run out (by rwa [htype]) heap
  rw [htype, hinfo] at hrun
  unfold dcxDecompressFromBuffer
  rw [bind_ok hrun, bind_run]
  rcases decompressPayload codecs out info.type heap with ⟨e | y, heap'⟩
  · simp
  · simp [pure_run]

/-- The size of the compressed payload fits its field. -/
def DcxPayloadFits (codecs : Codecs) (x : List UInt8) : DcxCompressionInfo → Prop
  | .dcpDflt => ∀ raw, codecs.deflate 9 x (codecs.compressBound x.length % 2 ^ 32) = some raw →
      raw.length + 6 < 2 ^ 32
  | .dcxDflt .. => ∀ raw, codecs.deflate 9 x (codecs.compressBound x.length % 2 ^ 32) = some raw →
      raw.length + 6 < 2 ^ 32
  | .dcxZstd level => ∀ z, codecs.zstdCompress level.toNat x (codecs.zstdBound x.length) = some z →
      z.length < 2 ^ 32
  | .dcxKrak level compressor => (codecs.oodleCompress compressor level.toNat x).length < 2 ^ 32
  | _ => True

theorem zlibCompress_eq_ok (hx : x.length < 2 ^ 32) {heap' : Heap}
    (h : zlibCompress codecs x heap = (.ok z, heap')) :
    ∃ raw, codecs.deflate 9 x (codecs.compressBound x.length % 2 ^ 32) = some raw ∧
      z = zlibStream raw x := by
  obtain ⟨raw, heap1, hraw, h⟩ := bind_eq_ok.1 h
  obtain ⟨junk, heap2, -, hpure⟩ := bind_eq_ok.1 h
  cases hpure
  refine ⟨raw, ?_, rfl⟩
  unfold deflateRawCompress at hraw
  simp only [Nat.mod_eq_of_lt hx, List.take_length] at hraw
  obtain ⟨junk', heap3, -, hraw⟩ := bind_eq_ok.1 hraw
  rcases hd : codecs.deflate 9 x (codecs.compressBound x.length % 2 ^ 32) with _ | raw'
  · rw [hd] at hraw
    cases hraw
  · rw [hd] at hraw
    cases hraw
    rfl

/-- A zlib payload is decoded if its size fits; a size that does not is taken for one below six. -/
theorem zlibPayload_iff (hinv : codecs.Inverts) {raw : List UInt8}
    (hraw : codecs.deflate 9 x (codecs.compressBound x.length % 2 ^ 32) = some raw)
    (hx : x.length < 2 ^ 32) {off : Nat} (h : Holds out off (zlibStream raw x)) (hcalm : heap.Calm) :
    (zlibDecompress codecs out off ((raw.length + 6) % 2 ^ 32) x.length heap).1 = .ok x ↔
      raw.length + 6 < 2 ^ 32 := by
  have hsize : raw.length < 2 ^ 32 :=
    lt_of_le_of_lt (hinv.deflate_le _ _ _ _ hraw) (Nat.mod_lt _ (by decide))
  constructor
  · intro hok
    by_contra hlarge
    rw [zlibDecompress_short (by omega)] at hok
    cases hok
  · intro hfits
    rw [Nat.mod_eq_of_lt hfits]
    exact zlibDecompress_ok hinv hraw hsize hx h hcalm

/-- Any payload whose decoder takes it whole, but no part of it. -/
theorem payload_iff (decode : List UInt8 → Option (List UInt8)) {off : Nat} (h : Holds out off z)
    (hwhole : decode z = some x) (hpart : 2 ^ 32 ≤ z.length → ∀ n < z.length, decode (z.take n) ≠ some x) :
    decode ((out.drop off).take (z.length % 2 ^ 32)) = some x ↔ z.length < 2 ^ 32 := by
  have hbytes : (out.drop off).take (z.length % 2 ^ 32) = z.take (z.length % 2 ^ 32) := by
    have htake := congrArg (List.take (z.length % 2 ^ 32)) h.take_drop
    rwa [List.take_take, min_eq_left (Nat.mod_le _ _)] at htake
  rw [hbytes]
  constructor
  · intro hok
    by_contra hlarge
    refine hpart (by omega) _ ?_ hok
    exact lt_of_lt_of_le (Nat.mod_lt _ (by decide)) (by omega)
  · intro hfits
    rwa [Nat.mod_eq_of_lt hfits, List.take_length]

/-- What is right about a container: it has the type of the info, and it is decoded to the text and the
    info exactly if the payload's size fits. -/
def DcxDecodes (codecs : Codecs) (x : List UInt8) (info : DcxCompressionInfo) (out : List UInt8) : Prop :=
  dcxTypeOf out = info.type ∧ ∀ heap : Heap, heap.Calm →
    ((dcxDecompressFromBuffer codecs out heap).1 = .ok (x, info) ↔ DcxPayloadFits codecs x info)

theorem wrapDcpDflt_decodes (hinv : codecs.Inverts) (hx : x.length < 2 ^ 32)
    (hok : (wrapDcpDflt codecs x heap).1 = .ok out) : DcxDecodes codecs x .dcpDflt out := by
  obtain ⟨z, heap1, hz, hrest⟩ := bind_eq_ok.1
    (Prod.ext hok rfl : wrapDcpDflt codecs x heap = (.ok out, (wrapDcpDflt codecs x heap).2))
  obtain ⟨junk, heap2, -, hpure⟩ := bind_eq_ok.1 hrest
  obtain ⟨raw, hraw, rfl⟩ := zlibCompress_eq_ok hx hz
  have hout := (Prod.mk.inj hpure).1
  rw [Except.ok.injEq] at hout
  have h1 : (dcxTag "DCP").length = 4 := by decide
  have h2 : (dcxTag "DFLT").length = 4 := by decide
  have h3 : (dcxTag "DCS").length = 4 := by decide
  have h4 : (dcxTag "DCA").length = 4 := by decide
  have hall := holds_self out
  have hlen : 0x30 ≤ out.length := by
    rw [← hout]
    simp [h1, h2, h3, h4]
    omega
  rw [← hout] at hall
  simp only [holds_append, List.length_append, length_be32Bytes, h1, h2, h3, h4,
    Nat.reduceAdd, and_assoc] at hall
  rw [hout] at hall
  obtain ⟨hmagic, hname, -, -, -, -, -, -, -, hsize, hcsz, hz, -, -⟩ := hall
  have htype : dcxTypeOf out = .dcpDflt := by
    unfold dcxTypeOf firstTagOf
    rw [if_neg (by omega), tagAt_of_holds h1 hmagic, if_pos (by decide), if_pos (by omega)]
    simp only [tagAt_of_holds h2 hname]
    decide
  refine ⟨htype, fun heap' hcalm => ?_⟩
  rw [dcxDecompress_eq_ok htype (Nat.zero_le _) rfl]
  unfold decompressPayload DcxCompressionInfo.type
  simp only
  rw [check_bind_pos hlen, be32_bind (by omega), be32_bind (by omega), wordAt_of_holds hsize,
    wordAt_of_holds hcsz, Nat.mod_eq_of_lt hx, length_zlibStream, zlibPayload_iff hinv hraw hx hz hcalm]
  rw [DcxPayloadFits, hraw]
  simp only [Option.some.injEq, forall_eq']

/-- What the decoder finds in a container with the header of `wrap_dcx_write_header`. -/
structure DcxContainer (x : List UInt8) (info : DcxCompressionInfo) (z out : List UInt8) : Prop where
  header : DcxHeaderAt out (dcxHeader info) x.length z.length
  payload : Holds out 0x4C z
  length : 0x4C ≤ out.length

theorem length_dcxHeader_format (info : DcxCompressionInfo) :
    (dcxHeader info).format.toList.length = 4 := by
  have hname : ∀ s ∈ ["DFLT", "ZSTD", "KRAK"], s.toList.length = 4 := by decide
  apply hname
  cases info <;> simp [dcxHeader]

theorem dcxContainer {info : DcxCompressionInfo}
    (hout : wrapDcxHeader (dcxHeader info) x.length z.length ++ z = out) : DcxContainer x info z out := by
  have hformat := length_dcxHeader_format info
  have hlen := length_wrapDcxHeader hformat x.length z.length
  have hall := holds_self out
  rw [← hout, holds_append, hlen, hout] at hall
  refine ⟨dcxHeaderAt hformat hall.1, by simpa using hall.2, ?_⟩
  rw [← hout, List.length_append, hlen]
  omega

theorem wrapDcxDflt_decodes (hinv : codecs.Inverts) (hx : x.length < 2 ^ 32)
    {unk04 unk10 unk14 : Int32} {unk30 unk38 : UInt8}
    (hok : (wrapDcxPayload codecs x (.dcxDflt unk04 unk10 unk14 unk30 unk38) heap).1 = .ok out) :
    DcxDecodes codecs x (.dcxDflt unk04 unk10 unk14 unk30 unk38) out := by
  obtain ⟨z, heap1, hz, hrest⟩ := bind_eq_ok.1 (Prod.ext hok rfl :
    wrapDcxPayload codecs x (.dcxDflt unk04 unk10 unk14 unk30 unk38) heap = (.ok out, _))
  obtain ⟨junk, heap2, -, hpure⟩ := bind_eq_ok.1 hrest
  obtain ⟨raw, hraw, rfl⟩ := zlibCompress_eq_ok hx hz
  have hout := (Prod.mk.inj hpure).1
  rw [Except.ok.injEq] at hout
  have hcontainer := dcxContainer hout
  have hheader := hcontainer.header
  have hlen := hcontainer.length
  have htype : dcxTypeOf out = .dcxDflt := by
    rw [hheader.type hlen (length_dcxHeader_format _),
      show (dcxHeader (.dcxDflt unk04 unk10 unk14 unk30 unk38)).format = "DFLT" from rfl]
    decide
  have hinfo : dcxInfoOf out .dcxDflt = .dcxDflt unk04 unk10 unk14 unk30 unk38 := by
    unfold dcxInfoOf
    rw [int32_of_wordAt hheader.unk04, int32_of_wordAt hheader.unk10, int32_of_wordAt hheader.unk14,
      octetAt_of_holds hheader.level, octetAt_high hheader.unk38]
    rfl
  refine ⟨htype, fun heap' hcalm => ?_⟩
  rw [dcxDecompress_eq_ok htype (by simp only [DcxCompressionInfo.type, dcxInfoSize]; omega) hinfo]
  unfold decompressPayload DcxCompressionInfo.type
  simp only
  rw [check_bind_pos hlen, be32_bind (by omega), be32_bind (by omega), wordAt_of_holds hheader.inSize,
    wordAt_of_holds hheader.csz, Nat.mod_eq_of_lt hx, length_zlibStream,
    zlibPayload_iff hinv hraw hx hcontainer.payload hcalm]
  rw [DcxPayloadFits, hraw]
  simp only [Option.some.injEq, forall_eq']

theorem wrapDcxZstd_decodes (hinv : codecs.Inverts) (hx : x.length < 2 ^ 32) {level : UInt8}
    (hok : (wrapDcxPayload codecs x (.dcxZstd level) heap).1 = .ok out) :
    DcxDecodes codecs x (.dcxZstd level) out := by
  obtain ⟨z, heap1, hz, hrest⟩ := bind_eq_ok.1 (Prod.ext hok rfl :
    wrapDcxPayload codecs x (.dcxZstd level) heap = (.ok out, _))
  obtain ⟨junk, heap2, -, hpure⟩ := bind_eq_ok.1 hrest
  have hout := (Prod.mk.inj hpure).1
  rw [Except.ok.injEq] at hout
  have hzstd : codecs.zstdCompress level.toNat x (codecs.zstdBound x.length) = some z := by
    obtain ⟨_, _, -, hz⟩ := bind_eq_ok.1 hz
    obtain ⟨_, _, -, hz⟩ := bind_eq_ok.1 hz
    rcases hc : codecs.zstdCompress level.toNat x (codecs.zstdBound x.length) with _ | z'
    · rw [hc] at hz
      cases hz
    · rw [hc] at hz
      cases hz
      rfl
  have hcontainer := dcxContainer hout
  have hheader := hcontainer.header
  have hlen := hcontainer.length
  have htype : dcxTypeOf out = .dcxZstd := by
    rw [hheader.type hlen (length_dcxHeader_format _),
      show (dcxHeader (.dcxZstd level)).format = "ZSTD" from rfl]
    decide
  have hinfo : dcxInfoOf out .dcxZstd = .dcxZstd level := by
    unfold dcxInfoOf
    rw [octetAt_of_holds hheader.level]
    rfl
  refine ⟨htype, fun heap' hcalm => ?_⟩
  rw [dcxDecompress_eq_ok htype (by simp only [DcxCompressionInfo.type, dcxInfoSize]; omega) hinfo]
  unfold decompressPayload DcxCompressionInfo.type
  simp only
  have hin : 0x4C + z.length % 2 ^ 32 ≤ out.length :=
    (Nat.add_le_add_left (Nat.mod_le _ _) _).trans hcontainer.payload.le
  rw [check_bind_pos hlen, be32_bind (by omega), be32_bind (by omega), wordAt_of_holds hheader.inSize,
    wordAt_of_holds hheader.csz, Nat.mod_eq_of_lt hx, zstdDecompress_eq_ok hin hcalm,
    payload_iff (fun bs => codecs.zstdDecompress bs x.length) hcontainer.payload
      (hinv.zstd _ _ _ _ hzstd) (hinv.zstd_part _ _ _ _ hzstd)]
  rw [DcxPayloadFits, hzstd]
  simp only [Option.some.injEq, forall_eq']

theorem wrapDcxKrak_decodes (hinv : codecs.Inverts) (hx : x.length < 2 ^ 32) {level : UInt8}
    (hok : (wrapDcxPayload codecs x (.dcxKrak level oodleKraken) heap).1 = .ok out) :
    DcxDecodes codecs x (.dcxKrak level oodleKraken) out := by
  obtain ⟨_, heap1, hloads, hrest⟩ := bind_eq_ok.1 (Prod.ext hok rfl :
    wrapDcxPayload codecs x (.dcxKrak level oodleKraken) heap = (.ok out, _))
  have hloads : codecs.oodleLoads = true := by
    rw [check_run] at hloads
    split at hloads
    · assumption
    · cases hloads
  obtain ⟨_, heap2, -, hrest⟩ := bind_eq_ok.1 hrest
  obtain ⟨junk, heap3, -, hrest⟩ := bind_eq_ok.1 hrest
  obtain ⟨z, heap4, hz, hpure⟩ := bind_eq_ok.1 hrest
  have hout := (Prod.mk.inj hpure).1
  rw [Except.ok.injEq] at hout
  obtain ⟨hne, rfl⟩ : codecs.oodleCompress oodleKraken level.toNat x ≠ [] ∧
      z = codecs.oodleCompress oodleKraken level.toNat x := by
    obtain ⟨_, _, -, hz⟩ := bind_eq_ok.1 hz
    obtain ⟨_, _, -, hz⟩ := bind_eq_ok.1 hz
    obtain ⟨_, _, -, hz⟩ := bind_eq_ok.1 hz
    obtain ⟨_, _, hcheck, hz⟩ := bind_eq_ok.1 hz
    rw [check_run] at hcheck
    split at hcheck
    next hne =>
      cases hz
      exact ⟨hne, rfl⟩
    · cases hcheck
  have hcontainer := dcxContainer hout
  have hheader := hcontainer.header
  have hlen := hcontainer.length
  have htype : dcxTypeOf out = .dcxKrak := by
    rw [hheader.type hlen (length_dcxHeader_format _),
      show (dcxHeader (.dcxKrak level oodleKraken)).format = "KRAK" from rfl]
    decide
  have hinfo : dcxInfoOf out .dcxKrak = .dcxKrak level oodleKraken := by
    unfold dcxInfoOf
    rw [octetAt_of_holds hheader.level]
    rfl
  refine ⟨htype, fun heap' hcalm => ?_⟩
  rw [dcxDecompress_eq_ok htype (by simp only [DcxCompressionInfo.type, dcxInfoSize]; omega) hinfo]
  unfold decompressPayload DcxCompressionInfo.type
  simp only
  have hin : 0x4C + (codecs.oodleCompress oodleKraken level.toNat x).length % 2 ^ 32 ≤ out.length :=
    (Nat.add_le_add_left (Nat.mod_le _ _) _).trans hcontainer.payload.le
  obtain ⟨buf, heap5, halloc, hbuf, -⟩ := allocBlock_calm x.length hcalm
  rw [check_bind_pos hlen, be32_bind (by omega), wordAt_of_holds hheader.inSize, Nat.mod_eq_of_lt hx,
    bind_ok halloc, be32_bind (by omega), wordAt_of_holds hheader.csz,
    oodleDecompress_eq_ok hloads hin hbuf,
    payload_iff (fun bs => codecs.oodleDecompress bs x.length) hcontainer.payload
      (hinv.oodle _ _ _ hne) (hinv.oodle_part _ _ _)]
  rfl

end

end SoulsFormats
