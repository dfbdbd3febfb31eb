import Mathlib.Data.List.Pairwise
import SoulsFormats.Archive.Bhd5Extract

set_option autoImplicit false

/-! # The encrypted ranges of a file

A range of a file may be stored relative to the payload or to the whole data. `decrypt_ranges` guesses which, and a
range that is stored in the second way but ends where the first payload of this size would end is guessed wrong. -/

namespace SoulsFormats

open Fallible

/-! ## Blocks in a buffer -/

section

variable {decrypt : List UInt8 → List UInt8} (hdecrypt : ∀ block, block.length = 16 → (decrypt block).length = 16)

/-- The block with a number. -/
def blockAt (s : List UInt8) (k : Nat) : List UInt8 := (s.drop (16 * k)).take 16

theorem length_blockAt {s : List UInt8} {k : Nat} (h : 16 * (k + 1) ≤ s.length) : (blockAt s k).length = 16 := by
  simp only [blockAt, List.length_take, List.length_drop]
  omega

theorem blockAt_getElem? {s : List UInt8} {k j : Nat} (hj : j < 16) : (blockAt s k)[j]? = s[16 * k + j]? := by
  rw [blockAt, List.getElem?_take_of_lt hj, List.getElem?_drop]

include hdecrypt

theorem length_decryptBlocks {n : Nat} {s : List UInt8} (hs : 16 * n ≤ s.length) :
    (decryptBlocks decrypt n s).length = s.length := by
  induction n generalizing s with
  | zero => rfl
  | succ n ih =>
      have hblock : (decrypt (s.take 16)).length = 16 := hdecrypt _ (by simp; omega)
      have hrest : (decryptBlocks decrypt n (s.drop 16)).length = s.length - 16 := by
        rw [ih (by simp; omega), List.length_drop]
      simp only [decryptBlocks, List.length_append, hblock, hrest]
      omega

/-- Each byte comes from the block that it was in. -/
theorem decryptBlocks_getElem? {n : Nat} {s : List UInt8} (hs : s.length = 16 * n) {i : Nat} (hi : i < s.length) :
    (decryptBlocks decrypt n s)[i]? = (decrypt (blockAt s (i / 16)))[i % 16]? := by
  induction n generalizing s i with
  | zero => omega
  | succ n ih =>
      have hblock : (decrypt (s.take 16)).length = 16 := hdecrypt _ (by simp; omega)
      by_cases hfirst : i < 16
      · rw [decryptBlocks, List.getElem?_append_left (by omega), Nat.div_eq_of_lt hfirst, Nat.mod_eq_of_lt hfirst]
        rfl
      · have hdiv : i / 16 = (i - 16) / 16 + 1 := by omega
        have hmod : i % 16 = (i - 16) % 16 := by omega
        have hshift : blockAt (s.drop 16) ((i - 16) / 16) = blockAt s (i / 16) := by
          rw [blockAt, blockAt, List.drop_drop, hdiv]
          congr 2
          omega
        rw [decryptBlocks, List.getElem?_append_right (by omega), hblock,
          ih (by simp; omega) (by simp; omega), hshift, hmod]

theorem length_decryptAt {buf : List UInt8} {offset size : Nat} (h : offset + size ≤ buf.length) :
    (decryptAt decrypt buf offset size).length = buf.length := by
  have hpart : ((buf.drop offset).take size).length = size := by simp; omega
  have hdec := length_decryptBlocks hdecrypt (n := size / 16) (s := (buf.drop offset).take size) (by omega)
  simp only [decryptAt, List.length_append, hdec, hpart, List.length_take, List.length_drop]
  omega

/-- Bytes outside of the part are as they were. -/
theorem decryptAt_outside {buf : List UInt8} {offset size : Nat} (h : offset + size ≤ buf.length) {i : Nat}
    (hi : i < offset ∨ offset + size ≤ i) : (decryptAt decrypt buf offset size)[i]? = buf[i]? := by
  have hpart : ((buf.drop offset).take size).length = size := by simp; omega
  have hdec := length_decryptBlocks hdecrypt (n := size / 16) (s := (buf.drop offset).take size) (by omega)
  have htake : (buf.take offset).length = offset := by simp; omega
  rw [decryptAt]
  rcases hi with hbefore | hbehind
  · rw [List.getElem?_append_left (by simp only [List.length_append]; omega), List.getElem?_append_left (by omega),
      List.getElem?_take_of_lt hbefore]
  · rw [List.getElem?_append_right (by simp only [List.length_append]; omega), List.getElem?_drop]
    congr 1
    simp only [List.length_append]
    omega

/-- Bytes inside of the part come from its blocks. -/
theorem decryptAt_inside {buf : List UInt8} {k m : Nat} (h : 16 * k + 16 * m ≤ buf.length) {i : Nat}
    (hfrom : 16 * k ≤ i) (hto : i < 16 * k + 16 * m) :
    (decryptAt decrypt buf (16 * k) (16 * m))[i]? = (decrypt (blockAt buf (i / 16)))[i % 16]? := by
  have hpart : ((buf.drop (16 * k)).take (16 * m)).length = 16 * m := by simp; omega
  have hdec := length_decryptBlocks hdecrypt (n := 16 * m / 16) (s := (buf.drop (16 * k)).take (16 * m)) (by omega)
  have htake : (buf.take (16 * k)).length = 16 * k := by simp; omega
  have hblock : blockAt ((buf.drop (16 * k)).take (16 * m)) ((i - 16 * k) / 16) = blockAt buf (i / 16) := by
    rw [blockAt, blockAt, List.drop_take, List.drop_drop, List.take_take]
    congr 2 <;> omega
  rw [decryptAt, List.getElem?_append_left (by simp only [List.length_append]; omega),
    List.getElem?_append_right (by omega), htake,
    decryptBlocks_getElem? hdecrypt (by omega) (by omega), hblock]
  congr 1
  omega

end

/-! ## The layout of a file -/

/-- Bytes of a payload. -/
structure PayloadRange where
  start : Nat
  stop : Nat
deriving DecidableEq, Repr

namespace PayloadRange

def Covers (r : PayloadRange) (i : Nat) : Prop := r.start ≤ i ∧ i < r.stop

instance (r : PayloadRange) (i : Nat) : Decidable (r.Covers i) := inferInstanceAs (Decidable (_ ∧ _))

/-- Two ranges that have no byte in common. -/
def Apart (r r' : PayloadRange) : Prop := ∀ i, ¬ (r.Covers i ∧ r'.Covers i)

theorem Apart.symm {r r' : PayloadRange} (h : r.Apart r') : r'.Apart r := fun i hi => h i hi.symm

instance : Std.Symm Apart := ⟨fun _ _ h => h.symm⟩

/-- The range as it is stored, from an offset on. -/
def storedFrom (offset : Nat) (r : PayloadRange) : Bhd5Range :=
  { startOffset := Int64.ofNat (r.start + offset), endOffset := Int64.ofNat (r.stop + offset) }

end PayloadRange

/-- A file with the ranges of its payload that are encrypted. -/
structure EncryptedFile where
  file : Bhd5File
  offset : Nat
  ranges : List PayloadRange
  fileOffset_eq : file.fileOffset = Int64.ofNat offset
  -- the data has a length that is an `int64_t`
  inData : offset + file.paddedSize.toNat < 2 ^ 63
  keyed : ranges ≠ [] → file.hasAesKey = true
  aligned : ∀ r ∈ ranges, 16 ∣ r.start ∧ 16 ∣ r.stop
  inside : ∀ r ∈ ranges, r.start ≤ r.stop ∧ r.stop ≤ file.paddedSize.toNat
  apart : ranges.Pairwise PayloadRange.Apart

namespace EncryptedFile

def size (e : EncryptedFile) : Nat := e.file.paddedSize.toNat

/-- The data has the whole payload. -/
def Stored (e : EncryptedFile) (bdt : List UInt8) : Prop := e.offset + e.size ≤ bdt.length ∧ bdt.length < 2 ^ 63

def payload (e : EncryptedFile) (bdt : List UInt8) : List UInt8 := (bdt.drop e.offset).take e.size

end EncryptedFile

/-! ## What is meant -/

def Covered (ranges : List PayloadRange) (i : Nat) : Prop := ∃ r ∈ ranges, r.Covers i

instance (ranges : List PayloadRange) (i : Nat) : Decidable (Covered ranges i) :=
  inferInstanceAs (Decidable (∃ r ∈ ranges, r.Covers i))

/-- A byte of the payload: one of a decrypted block where a range covers it, and the stored one elsewhere. -/
def decryptedByte (decrypt : List UInt8 → List UInt8) (ranges : List PayloadRange) (payload : List UInt8) (i : Nat) :
    UInt8 :=
  if Covered ranges i then (decrypt (blockAt payload (i / 16))).getD (i % 16) 0 else payload.getD i 0

/-- The payload with exactly the covered blocks decrypted. -/
def decryptedPayload (decrypt : List UInt8 → List UInt8) (ranges : List PayloadRange) (payload : List UInt8) :
    List UInt8 :=
  (List.range payload.length).map (decryptedByte decrypt ranges payload)

/-- The file is extracted as it is meant to be, whether its ranges are relative to the payload or to the data, and in
whatever order they are listed. -/
def ExtractsConsistently (cipher : BlockCipher) (e : EncryptedFile) (bdt : List UInt8) : Prop :=
  ∀ listed : List PayloadRange, listed.Perm e.ranges →
    let meant := decryptedPayload (cipher.decrypt e.file.aesKey) e.ranges (e.payload bdt)
    extractFile cipher bdt e.file (listed.map (PayloadRange.storedFrom 0)) = .ok meant ∧
      extractFile cipher bdt e.file (listed.map (PayloadRange.storedFrom e.offset)) = .ok meant

/-! ## Decrypting range by range -/

section

variable {decrypt : List UInt8 → List UInt8} {ranges : List PayloadRange} {payload : List UInt8}

@[simp] theorem length_decryptedPayload : (decryptedPayload decrypt ranges payload).length = payload.length := by
  simp [decryptedPayload]

theorem decryptedPayload_getElem? {i : Nat} (hi : i < payload.length) :
    (decryptedPayload decrypt ranges payload)[i]? = some (decryptedByte decrypt ranges payload i) := by
  simp [decryptedPayload, hi]

theorem decryptedPayload_uncovered {i : Nat} (h : ¬ Covered ranges i) :
    (decryptedPayload decrypt ranges payload)[i]? = payload[i]? := by
  by_cases hi : i < payload.length
  · rw [decryptedPayload_getElem? hi, decryptedByte, if_neg h]
    simp [hi]
  · rw [List.getElem?_eq_none (by simpa using hi), List.getElem?_eq_none (by simpa using hi)]

@[simp] theorem decryptedPayload_nil : decryptedPayload decrypt [] payload = payload :=
  List.ext_getElem? fun i => decryptedPayload_uncovered (by simp [Covered])

theorem decryptedPayload_covered (hdecrypt : ∀ block, block.length = 16 → (decrypt block).length = 16) {i : Nat}
    (hi : 16 * (i / 16 + 1) ≤ payload.length) (h : Covered ranges i) :
    (decryptedPayload decrypt ranges payload)[i]? = (decrypt (blockAt payload (i / 16)))[i % 16]? := by
  have hlen : (decrypt (blockAt payload (i / 16))).length = 16 := hdecrypt _ (length_blockAt hi)
  have hj : i % 16 < (decrypt (blockAt payload (i / 16))).length := by omega
  rw [decryptedPayload_getElem? (by omega), decryptedByte, if_pos h, List.getD_eq_getElem?_getD,
    List.getElem?_eq_getElem hj, Option.getD_some]

/-- The order of the ranges does not matter for what is meant. -/
theorem decryptedPayload_perm {ranges' : List PayloadRange} (h : ranges'.Perm ranges) :
    decryptedPayload decrypt ranges' payload = decryptedPayload decrypt ranges payload := by
  apply List.map_congr_left
  intro i _
  have hcovered : Covered ranges' i ↔ Covered ranges i := by simp only [Covered, h.mem_iff]
  simp only [decryptedByte, hcovered]

/-- A range is decrypted after others that are apart from it. -/
theorem decryptAt_decryptedPayload (hdecrypt : ∀ block, block.length = 16 → (decrypt block).length = 16)
    {r : PayloadRange} (haligned : 16 ∣ r.start ∧ 16 ∣ r.stop) (hinside : r.start ≤ r.stop ∧ r.stop ≤ payload.length)
    (hapart : ∀ r' ∈ ranges, r.Apart r') :
    decryptAt decrypt (decryptedPayload decrypt ranges payload) r.start (r.stop - r.start) =
      decryptedPayload decrypt (r :: ranges) payload := by
  obtain ⟨⟨k, hk⟩, ⟨l, hl⟩⟩ := haligned
  have hsize : r.stop - r.start = 16 * (l - k) := by omega
  have hroom : 16 * k + 16 * (l - k) ≤ (decryptedPayload decrypt ranges payload).length := by simp; omega
  have huncovered {i : Nat} (hi : r.Covers i) : ¬ Covered ranges i := by
    rintro ⟨r', hr', hi'⟩
    exact hapart r' hr' i ⟨hi, hi'⟩
  apply List.ext_getElem?
  intro i
  rw [hsize, hk]
  by_cases hi : r.Covers i
  · have hcovered : Covered (r :: ranges) i := ⟨r, by simp, hi⟩
    have hlow := hi.1
    have hhigh := hi.2
    have hblock : blockAt (decryptedPayload decrypt ranges payload) (i / 16) = blockAt payload (i / 16) := by
      apply List.ext_getElem?
      intro j
      by_cases hj : j < 16
      · -- no byte of this block is covered by one of the others
        rw [blockAt_getElem? hj, blockAt_getElem? hj,
          decryptedPayload_uncovered (huncovered ⟨by omega, by omega⟩)]
      · rw [List.getElem?_eq_none, List.getElem?_eq_none] <;> simp [blockAt] <;> omega
    rw [decryptAt_inside hdecrypt hroom (by omega) (by omega), hblock,
      decryptedPayload_covered hdecrypt (by omega) hcovered]
  · have hout : i < 16 * k ∨ 16 * k + 16 * (l - k) ≤ i := by
      simp only [PayloadRange.Covers] at hi
      omega
    have hiff : Covered (r :: ranges) i ↔ Covered ranges i := by simp [Covered, hi]
    rw [decryptAt_outside hdecrypt hroom hout]
    by_cases hlen : i < payload.length
    · rw [decryptedPayload_getElem? hlen, decryptedPayload_getElem? hlen, decryptedByte, decryptedByte]
      simp only [hiff]
    · rw [List.getElem?_eq_none (by simpa using hlen), List.getElem?_eq_none (by simpa using hlen)]

end

/-! ## What the code does -/

/-- Where the payload starts that a stored range is taken to be in, with the range: at the start of the payload, or
at the start of the data where the range does not end in a payload that starts there. -/
def EncryptedFile.takenFrom (e : EncryptedFile) (shift : Nat) (r : PayloadRange) : Nat :=
  if e.size < r.stop + shift then r.start + shift - e.offset else r.start + shift

/-- The payload after the ranges, each one decrypted where it is taken to be. -/
def EncryptedFile.decrypted (cipher : BlockCipher) (e : EncryptedFile) (shift : Nat) (listed : List PayloadRange)
    (buf : List UInt8) : List UInt8 :=
  listed.foldl (fun buf r => decryptAt (cipher.decrypt e.file.aesKey) buf (e.takenFrom shift r) (r.stop - r.start)) buf

section

variable {cipher : BlockCipher} {e : EncryptedFile} {bdt : List UInt8} {shift : Nat} {listed : List PayloadRange}

theorem decryptAt_nothing (decrypt : List UInt8 → List UInt8) (buf : List UInt8) (offset : Nat) :
    decryptAt decrypt buf offset 0 = buf := by simp [decryptAt, decryptBlocks]

theorem EncryptedFile.Stored.length_payload (h : e.Stored bdt) : (e.payload bdt).length = e.size := by
  have := h.1
  simp only [payload, List.length_take, List.length_drop]
  omega

/-- The taken range is in the payload. -/
theorem EncryptedFile.takenFrom_le (hshift : shift = 0 ∨ shift = e.offset) {r : PayloadRange} (hr : r ∈ e.ranges) :
    e.takenFrom shift r + (r.stop - r.start) ≤ e.size := by
  have hin := e.inside r hr
  rw [← size] at hin
  unfold takenFrom
  split <;> omega

theorem decryptRange_stored (h : e.Stored bdt) (hshift : shift = 0 ∨ shift = e.offset) {r : PayloadRange}
    (hr : r ∈ e.ranges) (buf : List UInt8) :
    decryptRange cipher bdt.length e.file e.size buf (r.storedFrom shift) =
      .ok (decryptAt (cipher.decrypt e.file.aesKey) buf (e.takenFrom shift r) (r.stop - r.start)) := by
  have hin := e.inside r hr
  have haligned := e.aligned r hr
  have hdata := e.inData
  have hroom := h.1
  rw [← EncryptedFile.size] at hin hdata
  have hoffset : e.file.fileOffset.toInt = e.offset := by
    rw [e.fileOffset_eq, Int64.toInt_ofNat_of_lt (by omega)]
  have hstart : (r.storedFrom shift).startOffset.toInt = (r.start + shift : Nat) :=
    Int64.toInt_ofNat_of_lt (by omega)
  have hstop : (r.storedFrom shift).endOffset.toInt = (r.stop + shift : Nat) :=
    Int64.toInt_ofNat_of_lt (by omega)
  have hblocks : (r.stop - r.start) % 16 = 0 := by omega
  simp only [decryptRange, hstart, hstop, hoffset]
  by_cases hempty : r.start = r.stop
  · rw [if_pos (by omega), show r.stop - r.start = 0 by omega, decryptAt_nothing]
  rw [if_neg (by omega), if_neg (by omega)]
  by_cases hbeyond : e.size < r.stop + shift
  · -- the shift is the offset of the file
    have hfile : shift = e.offset := by omega
    have htaken : e.takenFrom shift r = r.start := by simp only [EncryptedFile.takenFrom, if_pos hbeyond]; omega
    rw [if_pos (by omega), if_neg (by omega), if_neg (by omega), if_neg (by omega), htaken, aesDecryptEcbBuffer]
    rw [show (((r.stop + shift : Nat) : Int) - e.offset - (((r.start + shift : Nat) : Int) - e.offset)).toNat =
      r.stop - r.start by omega, if_neg (by omega)]
    congr 2
    omega
  · have htaken : e.takenFrom shift r = r.start + shift := if_neg hbeyond
    rw [if_neg (by omega), if_neg (by omega), if_neg (by omega), htaken, aesDecryptEcbBuffer]
    rw [show (((r.stop + shift : Nat) : Int) - ((r.start + shift : Nat) : Int)).toNat = r.stop - r.start by omega,
      if_neg (by omega)]
    congr 2

theorem foldlM_decryptRange_stored (h : e.Stored bdt) (hshift : shift = 0 ∨ shift = e.offset)
    (hlisted : ∀ r ∈ listed, r ∈ e.ranges) (buf : List UInt8) :
    (listed.map (PayloadRange.storedFrom shift)).foldlM (decryptRange cipher bdt.length e.file e.size) buf =
      .ok (e.decrypted cipher shift listed buf) := by
  induction listed generalizing buf with
  | nil => rfl
  | cons r listed ih =>
      rw [List.map_cons, List.foldlM_cons, decryptRange_stored h hshift (hlisted r (by simp))]
      exact ih (fun r' hr' => hlisted r' (by simp [hr'])) _

/-- The extraction succeeds, and every range is decrypted where it is taken to be. -/
theorem extractFile_stored (h : e.Stored bdt) (hshift : shift = 0 ∨ shift = e.offset) (hlisted : listed.Perm e.ranges) :
    extractFile cipher bdt e.file (listed.map (PayloadRange.storedFrom shift)) =
      .ok (e.decrypted cipher shift listed (e.payload bdt)) := by
  have hdata := e.inData
  have hroom := h.1
  have hshort := h.2
  rw [← EncryptedFile.size] at hdata
  have hoffset : e.file.fileOffset.toInt = e.offset := by
    rw [e.fileOffset_eq, Int64.toInt_ofNat_of_lt (by omega)]
  have hread : (do
      IStream.seek e.offset
      if 0 < e.size then IStream.read e.size else pure [] : Fallible IStream SfError (List UInt8))
        { mem := bdt, memPos := 0 } =
      (.ok (e.payload bdt), { mem := bdt, memPos := e.offset + e.size }) := by
    have hholds : Bytes.Holds bdt e.offset (e.payload bdt) :=
      ⟨bdt.take e.offset, (bdt.drop e.offset).drop e.size,
        by rw [List.append_assoc, EncryptedFile.payload, List.take_append_drop, List.take_append_drop], by simp; omega⟩
    rw [bind_ok (IStream.seek_ok (by simp only [IStream.length]; omega))]
    split
    · have hlen := h.length_payload
      have := IStream.read_holds (s := { mem := bdt, memPos := e.offset }) hholds
      rwa [hlen] at this
    · next hzero => simp [EncryptedFile.payload, show e.size = 0 by omega]
  have hdecrypt : decryptRanges cipher bdt.length e.file (listed.map (PayloadRange.storedFrom shift)) (e.payload bdt)
      e.size = .ok (e.decrypted cipher shift listed (e.payload bdt)) := by
    have hfold := @foldlM_decryptRange_stored cipher e bdt shift listed h hshift (fun _ => hlisted.mem_iff.1) (e.payload bdt)
    unfold decryptRanges
    split
    · exact hfold
    · next hkey =>
        have hnone : e.ranges = [] := by_contra fun hsome => hkey (e.keyed hsome)
        rw [hnone, List.perm_nil] at hlisted
        rw [hlisted]
        rfl
  simp only [extractFile, hoffset]
  rw [if_neg (by rw [← EncryptedFile.size]; omega), ← EncryptedFile.size, hread]
  exact hdecrypt

/-- Where all ranges are taken to be where they are, the result is what is meant. -/
theorem decrypted_eq_decryptedPayload (h : e.Stored bdt) (hlisted : listed.Perm e.ranges)
    (hright : ∀ r ∈ e.ranges, r.start < r.stop → e.takenFrom shift r = r.start) :
    e.decrypted cipher shift listed (e.payload bdt) =
      decryptedPayload (cipher.decrypt e.file.aesKey) e.ranges (e.payload bdt) := by
  -- the ranges that are done are apart from the ones that are left
  have hrun (done : List PayloadRange) (hmem : ∀ r ∈ listed, r ∈ e.ranges)
      (hapart : (done.reverse ++ listed).Pairwise PayloadRange.Apart) :
      e.decrypted cipher shift listed (decryptedPayload (cipher.decrypt e.file.aesKey) done (e.payload bdt)) =
        decryptedPayload (cipher.decrypt e.file.aesKey) (listed.reverse ++ done) (e.payload bdt) := by
    clear hlisted
    induction listed generalizing done with
    | nil => rfl
    | cons r listed ih =>
        have hr := hmem r (by simp)
        have hfrom : decryptAt (cipher.decrypt e.file.aesKey)
            (decryptedPayload (cipher.decrypt e.file.aesKey) done (e.payload bdt)) (e.takenFrom shift r)
            (r.stop - r.start) =
            decryptAt (cipher.decrypt e.file.aesKey)
              (decryptedPayload (cipher.decrypt e.file.aesKey) done (e.payload bdt)) r.start (r.stop - r.start) := by
          by_cases hsome : r.start < r.stop
          · rw [hright r hr hsome]
          · rw [show r.stop - r.start = 0 by omega, decryptAt_nothing, decryptAt_nothing]
        have hdone : ∀ r' ∈ done, r.Apart r' := by
          intro r' hr'
          have := (List.pairwise_append.1 hapart).2.2 r' (by simpa using hr') r (by simp)
          exact this.symm
        have hin := e.inside r hr
        rw [EncryptedFile.decrypted, List.foldl_cons, hfrom,
          decryptAt_decryptedPayload (cipher.length_decrypt _) (e.aligned r hr)
            (by rw [h.length_payload]; exact hin) hdone]
        rw [← EncryptedFile.decrypted, ih (r :: done) (fun r' hr' => hmem r' (by simp [hr'])) (by simpa using hapart)]
        simp
  have hapart : listed.Pairwise PayloadRange.Apart :=
    (hlisted.pairwise_iff fun hab => hab.symm).2 e.apart
  have := hrun [] (fun r => hlisted.mem_iff.1) (by simpa using hapart)
  rw [decryptedPayload_nil, List.append_nil] at this
  rw [this]
  exact decryptedPayload_perm ((List.reverse_perm _).trans hlisted)

/-- A byte that no range is taken to have stays as it is. -/
theorem decrypted_untouched (hshift : shift = 0 ∨ shift = e.offset) (hlisted : ∀ r ∈ listed, r ∈ e.ranges)
    {buf : List UInt8} (hbuf : buf.length = e.size) {i : Nat}
    (hi : ∀ r ∈ listed, i < e.takenFrom shift r ∨ e.takenFrom shift r + (r.stop - r.start) ≤ i) :
    (e.decrypted cipher shift listed buf)[i]? = buf[i]? := by
  induction listed generalizing buf with
  | nil => rfl
  | cons r listed ih =>
      have hroom : e.takenFrom shift r + (r.stop - r.start) ≤ buf.length := by
        rw [hbuf]
        exact EncryptedFile.takenFrom_le hshift (hlisted r (by simp))
      rw [EncryptedFile.decrypted, List.foldl_cons, ← EncryptedFile.decrypted,
        ih (fun r' hr' => hlisted r' (by simp [hr'])) (by rw [length_decryptAt (cipher.length_decrypt _) hroom, hbuf])
          fun r' hr' => hi r' (by simp [hr']),
        decryptAt_outside (cipher.length_decrypt _) hroom (hi r (by simp))]

end

/-! ## When the guess is right -/

/-- Data in which the payload of a file is the same block over and over. -/
def EncryptedFile.repeated (e : EncryptedFile) (block : List UInt8) : List UInt8 :=
  List.replicate e.offset 0 ++ (List.range e.size).map fun i => block.getD (i % 16) 0

section

variable {cipher : BlockCipher} {e : EncryptedFile} {block : List UInt8}

theorem EncryptedFile.stored_repeated : e.Stored (e.repeated block) := by
  have hdata := e.inData
  rw [← size] at hdata
  simp only [Stored, repeated, List.length_append, List.length_replicate, List.length_map, List.length_range]
  omega

theorem EncryptedFile.payload_repeated :
    e.payload (e.repeated block) = (List.range e.size).map fun i => block.getD (i % 16) 0 := by
  have hlen : (List.replicate e.offset (0 : UInt8)).length = e.offset := by simp
  rw [payload, repeated, List.drop_left' hlen, List.take_of_length_le (by simp)]

theorem EncryptedFile.blockAt_repeated (hblock : block.length = 16) {k : Nat} (hk : 16 * (k + 1) ≤ e.size) :
    blockAt (e.payload (e.repeated block)) k = block := by
  apply List.ext_getElem?
  intro j
  by_cases hj : j < 16
  · have hmod : (16 * k + j) % 16 = j := by omega
    rw [blockAt_getElem? hj, payload_repeated, List.getElem?_map, List.getElem?_range (by omega), Option.map_some, hmod,
      List.getD_eq_getElem?_getD, List.getElem?_eq_getElem (by omega), Option.getD_some]
  · rw [List.getElem?_eq_none (by simp [blockAt]; omega), List.getElem?_eq_none (by omega)]

/-- The leftmost range that is taken to be relative, but is not, has a first byte that stays encrypted. -/
theorem exists_misplaced (hoffset : e.offset ≠ 0)
    (h : ¬ ∀ r ∈ e.ranges, r.start < r.stop → e.size < r.stop + e.offset) :
    ∃ r ∈ e.ranges, r.start < r.stop ∧
      ∀ r' ∈ e.ranges, r.start < e.takenFrom e.offset r' ∨
        e.takenFrom e.offset r' + (r'.stop - r'.start) ≤ r.start := by
  push Not at h
  have hmisplaced : ∃ s, ∃ r ∈ e.ranges, r.start = s ∧ r.start < r.stop ∧ r.stop + e.offset ≤ e.size := by
    obtain ⟨r, hr, hsome, hend⟩ := h
    exact ⟨r.start, r, hr, rfl, hsome, hend⟩
  obtain ⟨r, hr, hstart, hsome, hend⟩ := Nat.find_spec hmisplaced
  refine ⟨r, hr, hsome, fun r' hr' => ?_⟩
  have hin := e.inside r' hr'
  by_cases hbeyond : e.size < r'.stop + e.offset
  · -- this range is decrypted where it is, apart from the leftmost one
    have htaken : e.takenFrom e.offset r' = r'.start := by simp only [EncryptedFile.takenFrom, if_pos hbeyond]; omega
    have hne : r ≠ r' := by
      rintro rfl
      omega
    have hapart : r.Apart r' := e.apart.forall hr hr' hne
    have := hapart r.start
    simp only [PayloadRange.Covers] at this
    omega
  · have htaken : e.takenFrom e.offset r' = r'.start + e.offset := if_neg hbeyond
    by_cases hsome' : r'.start < r'.stop
    · have := Nat.find_min' hmisplaced ⟨r', hr', rfl, hsome', by omega⟩
      omega
    · omega

/-- For a cipher that changes the first byte of some block, a file is extracted consistently from all data if and only
if it is at the start of the data or each of its ranges ends, in the data, behind a payload that starts there. -/
theorem extractsConsistently_iff (cipher : BlockCipher) (e : EncryptedFile)
    (hchanges : ∃ block, block.length = 16 ∧ (cipher.decrypt e.file.aesKey block)[0]? ≠ block[0]?) :
    (∀ bdt, e.Stored bdt → ExtractsConsistently cipher e bdt) ↔
      e.offset = 0 ∨ ∀ r ∈ e.ranges, r.start < r.stop → e.size < r.stop + e.offset := by
  constructor
  · intro hall
    by_contra hcontra
    push Not at hcontra
    obtain ⟨hoffset, hmisplaced⟩ := hcontra
    obtain ⟨r, hr, hsome, hleft⟩ := exists_misplaced hoffset (by push Not; exact hmisplaced)
    obtain ⟨block, hblock, hne⟩ := hchanges
    have hstored : e.Stored (e.repeated block) := EncryptedFile.stored_repeated
    have hin := e.inside r hr
    rw [← EncryptedFile.size] at hin
    obtain ⟨⟨k, hk⟩, ⟨l, hl⟩⟩ := e.aligned r hr
    have hresult := (hall _ hstored e.ranges (.refl _)).2
    rw [extractFile_stored hstored (.inr rfl) (.refl _), Except.ok.injEq] at hresult
    have hbyte := congrArg (·[r.start]?) hresult
    have hdiv : r.start / 16 = k := by omega
    have hmod : r.start % 16 = 0 := by omega
    have hlast : 16 * (k + 1) ≤ e.size := by omega
    have hfirst : (e.payload (e.repeated block))[r.start]? = block[0]? := by
      have hat := blockAt_getElem? (s := e.payload (e.repeated block)) (k := k) (j := 0) (by omega)
      rw [EncryptedFile.blockAt_repeated hblock hlast] at hat
      rw [hat]
      congr 1
    rw [decrypted_untouched (.inr rfl) (fun _ => id) hstored.length_payload hleft, hfirst,
      decryptedPayload_covered (cipher.length_decrypt _) (by rw [hstored.length_payload, hdiv]; exact hlast)
        ⟨r, hr, le_rfl, hsome⟩, hdiv, hmod, EncryptedFile.blockAt_repeated hblock hlast] at hbyte
    exact hne hbyte.symm
  · intro hcond bdt hstored listed hlisted
    constructor
    · rw [extractFile_stored hstored (.inl rfl) hlisted, decrypted_eq_decryptedPayload hstored hlisted]
      intro r hr _
      have hin := e.inside r hr
      rw [← EncryptedFile.size] at hin
      simp only [EncryptedFile.takenFrom]
      rw [if_neg (by omega)]
      rfl
    · rw [extractFile_stored hstored (.inr rfl) hlisted, decrypted_eq_decryptedPayload hstored hlisted]
      intro r hr hsome
      simp only [EncryptedFile.takenFrom]
      rcases hcond with hzero | hbeyond
      · split <;> omega
      · rw [if_pos (hbeyond r hr hsome)]
        omega

end

/-! ## A range that is guessed wrong -/

/-- A cipher that is only known on one block, with the key, the block and the result of the test vector of AES-128. -/
def vectorCipher : BlockCipher where
  decrypt key block :=
    if key = (List.range 16).map UInt8.ofNat ∧
        block = [0x69, 0xc4, 0xe0, 0xd8, 0x6a, 0x7b, 0x04, 0x30, 0xd8, 0xcd, 0xb7, 0x80, 0x70, 0xb4, 0xc5, 0x5a] then
      [0x00, 0x11, 0x22, 0x33, 0x44, 0x55, 0x66, 0x77, 0x88, 0x99, 0xaa, 0xbb, 0xcc, 0xdd, 0xee, 0xff]
    else block
  length_decrypt key block h := by
    split
    · rfl
    · exact h

/-- Three blocks behind a block of other data, the first one encrypted. -/
def secondBlockFile : EncryptedFile where
  file :=
    { pathHash := 0x1234
      paddedSize := 48
      unpaddedSize := 48
      fileOffset := 16
      hasAesKey := true
      aesKey := (List.range 16).map UInt8.ofNat
      aesRangeCount := 1
      aesRanges := some 0 }
  offset := 16
  ranges := [{ start := 0, stop := 16 }]
  fileOffset_eq := rfl
  inData := by decide
  keyed _ := rfl
  aligned := by decide
  inside := by decide
  apart := by simp

/-- Data with four times the block of the vector. -/
def vectorData : List UInt8 :=
  (List.replicate 4
    [0x69, 0xc4, 0xe0, 0xd8, 0x6a, 0x7b, 0x04, 0x30, 0xd8, 0xcd, 0xb7, 0x80, 0x70, 0xb4, 0xc5, 0x5a]).flatten

/-- The absolute range `[16, 32)` is decrypted as the second block of the payload. -/
theorem secondBlockFile_not_consistent :
    secondBlockFile.Stored vectorData ∧ ¬ ExtractsConsistently vectorCipher secondBlockFile vectorData := by
  refine ⟨⟨by decide, by decide⟩, fun h => ?_⟩
  have := (h secondBlockFile.ranges (.refl _)).2
  revert this
  decide +kernel

/-- For this file, the data matters. -/
theorem secondBlockFile_consistently_iff :
    (∃ block, block.length = 16 ∧
      (vectorCipher.decrypt secondBlockFile.file.aesKey block)[0]? ≠ block[0]?) ∧
      ((∀ bdt, secondBlockFile.Stored bdt → ExtractsConsistently vectorCipher secondBlockFile bdt) ↔
        secondBlockFile.offset = 0 ∨
          ∀ r ∈ secondBlockFile.ranges, r.start < r.stop → secondBlockFile.size < r.stop + secondBlockFile.offset) := by
  have hchanges : ∃ block, block.length = 16 ∧
      (vectorCipher.decrypt secondBlockFile.file.aesKey block)[0]? ≠ block[0]? :=
    ⟨vectorData.take 16, by decide +kernel, by decide +kernel⟩
  exact ⟨hchanges, extractsConsistently_iff vectorCipher secondBlockFile hchanges⟩

end SoulsFormats
