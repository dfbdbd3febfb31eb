import SoulsFormats.Archive.Bhd5
import SoulsFormats.Core.Defined
import SoulsFormats.Core.Scanned
import SoulsFormats.Library.Carving

set_option autoImplicit false

/-! # The range pools of a BHD5 index

Both passes read the counts at the same offsets of the same data, so that the second one carves the pools that the
first one has measured, one file after another. The second pass compares no cursor with the end of its pool: that it stays inside whatever it
reads, also when the index is refused in the end, follows from the counts. -/

namespace SoulsFormats

open Bytes Fallible BinaryReader

/-! ## What is stored -/

/-- `n` ranges from a position on. -/
def storedRanges (be : Bool) (data : List UInt8) : Nat → Nat → List Bhd5Range
  | _, 0 => []
  | p, n + 1 =>
    { startOffset := i64Of be data p, endOffset := i64Of be data (p + 8) } :: storedRanges be data (p + 16) n

/-- The ranges behind the key or the hash at an offset; there are none at the offset zero. -/
def rangesStoredAt (be : Bool) (data : List UInt8) (keySize : Nat) (offset : Int64) : List Bhd5Range :=
  if offset = 0 then []
  else
    let p := offset.toInt.toNat + keySize
    storedRanges be data (p + 4) (i32Of be data p).toInt.toNat

@[simp] theorem length_storedRanges (be : Bool) (data : List UInt8) (p n : Nat) :
    (storedRanges be data p n).length = n := by
  induction n generalizing p with
  | zero => rfl
  | succ n ih => simp [storedRanges, ih]

/-! ## What the reader keeps -/

section

variable {data : List UInt8} {be : Bool}

theorem readI32Nonnegative_onData : Keeps (OnData data be) readI32Nonnegative :=
  readI32_onData.bind fun _ => (Keeps.check _ _).bind fun _ => Keeps.pure _

theorem readRangeHead_onData (keySize : Nat) : Keeps (OnData data be) (readRangeHead keySize) :=
  (readBytes_onData keySize).bind fun _ => readI32Nonnegative_onData.bind fun _ => Keeps.state.bind fun _ =>
    (Keeps.check _ _).bind fun _ => Keeps.pure _

theorem readRangeArray_onData (n i : Nat) (ranges : List (Option Bhd5Range)) :
    Keeps (OnData data be) (readRangeArray n i ranges) := by
  induction n generalizing i ranges with
  | zero => exact Keeps.pure _
  | succ n ih =>
      exact readI64_onData.bind fun _ => readI64_onData.bind fun _ => (Keeps.check _ _).bind fun _ => ih _ _

theorem readRangesInto_onData (keySize : Nat) (pool : RangePool) :
    Keeps (OnData data be) (readRangesInto keySize pool) := by
  refine (readRangeHead_onData keySize).bind fun ⟨key, count⟩ => Keeps.ite (fun _ => ?_) fun _ => Keeps.pure _
  exact (Keeps.check _ _).bind fun _ => (readRangeArray_onData _ _ _).bind fun _ => Keeps.pure _

theorem getRangeHead_onData (keySize : Nat) (off : Int64) : Keeps (OnData data be) (defineGet off.toInt do
    let (_, count) ← readRangeHead keySize
    pure count) := by
  refine get_onData ((readRangeHead_onData keySize).bind ?_) _
  exact fun ⟨_, count⟩ => Keeps.pure count

theorem readShaHashInto_onData (file : Bhd5File) (off : Int64) (pool : RangePool) :
    Keeps (OnData data be) (readShaHashInto file off pool) := by
  refine get_onData ((readRangesInto_onData 32 pool).bind ?_) _
  exact fun ⟨_, _, _, _⟩ => Keeps.pure _

theorem readAesKeyInto_onData (file : Bhd5File) (off : Int64) (pool : RangePool) :
    Keeps (OnData data be) (readAesKeyInto file off pool) := by
  refine get_onData ((readRangesInto_onData 16 pool).bind ?_) _
  exact fun ⟨_, _, _, _⟩ => Keeps.pure _

end

/-! ## One key or one hash -/

section

variable {r r' : BinaryReader}

theorem readI32Nonnegative_eq_ok {n : Nat} (h : readI32Nonnegative r = (.ok n, r')) :
    n = (i32Of r.bigEndian r.stream.mem r.position).toInt.toNat ∧ Moved r 4 r' := by
  obtain ⟨v, r1, hv, h⟩ := bind_eq_ok.1 h
  obtain ⟨rfl, hmoved⟩ := readI32_eq_ok hv
  obtain ⟨⟨⟩, r2, hcheck, hpure⟩ := bind_eq_ok.1 h
  rw [check_run] at hcheck
  split at hcheck
  · cases hcheck
    cases hpure
    exact ⟨rfl, hmoved⟩
  · cases hcheck

theorem readRangeHead_eq_ok {keySize count : Nat} {key : List UInt8}
    (h : readRangeHead keySize r = (.ok (key, count), r')) :
    count = (i32Of r.bigEndian r.stream.mem (r.position + keySize)).toInt.toNat ∧ Moved r (keySize + 4) r' := by
  obtain ⟨key', r1, hkey, h⟩ := bind_eq_ok.1 h
  obtain ⟨-, hmoved⟩ := readBytes_eq_ok hkey
  obtain ⟨n, r2, hn, h⟩ := bind_eq_ok.1 h
  obtain ⟨rfl, hmoved'⟩ := readI32Nonnegative_eq_ok hn
  rw [state_bind_run] at h
  obtain ⟨⟨⟩, r3, hcheck, hpure⟩ := bind_eq_ok.1 h
  rw [check_run] at hcheck
  split at hcheck
  · cases hcheck
    cases hpure
    rw [hmoved.bigEndian, hmoved.mem, hmoved.pos]
    exact ⟨rfl, hmoved.trans hmoved'⟩
  · cases hcheck

theorem readRangeArray_eq_ok {n i : Nat} {before after left : List (Option Bhd5Range)}
    {ranges : List (Option Bhd5Range)} (hbefore : before.length = i) (hafter : after.length = n)
    (h : readRangeArray n i (before ++ after ++ left) r = (.ok ranges, r')) :
    ranges = before ++ (storedRanges r.bigEndian r.stream.mem r.position n).map some ++ left := by
  induction n generalizing i before after r with
  | zero =>
      obtain rfl := List.length_eq_zero_iff.1 hafter
      cases h
      rfl
  | succ n ih =>
      obtain ⟨old, after, rfl⟩ := List.exists_cons_of_length_eq_add_one hafter
      rw [readRangeArray] at h
      obtain ⟨startOffset, r1, hstart, h⟩ := bind_eq_ok.1 h
      obtain ⟨endOffset, r2, hend, h⟩ := bind_eq_ok.1 h
      obtain ⟨⟨⟩, r3, hcheck, hrest⟩ := bind_eq_ok.1 h
      obtain ⟨rfl, hmoved⟩ := readI64_eq_ok hstart
      obtain ⟨rfl, hmoved'⟩ := readI64_eq_ok hend
      rw [check_run] at hcheck
      split at hcheck
      · cases hcheck
        have hboth := hmoved.trans hmoved'
        have hset : ∀ range : Option Bhd5Range,
            (before ++ old :: after ++ left).set i range = before ++ [range] ++ after ++ left := by
          intro range
          simp [← hbefore]
        rw [hset] at hrest
        have hread := ih (by simp [hbefore]) (by simpa using hafter) hrest
        rw [hread, storedRanges, hboth.mem, hboth.bigEndian, hboth.pos, hmoved.mem, hmoved.bigEndian, hmoved.pos]
        simp
      · cases hcheck

/-- A pool with ranges from its start on and room for others behind. -/
structure PoolAt (pool : RangePool) (done : List Bhd5Range) (room : Nat) : Prop where
  ranges : pool.ranges = done.map some ++ List.replicate room none
  cursor : pool.cursor = done.length

theorem PoolAt.length {pool : RangePool} {done : List Bhd5Range} {room : Nat} (h : PoolAt pool done room) :
    pool.ranges.length = done.length + room := by
  rw [h.ranges, List.length_append, List.length_map, List.length_replicate]

/-- The ranges that are read go behind those of the pool. -/
theorem readRangesInto_eq_ok {keySize count room : Nat} {key : List UInt8} {start : Option Nat}
    {pool pool' : RangePool} {done : List Bhd5Range} (hpool : PoolAt pool done room)
    (h : readRangesInto keySize pool r = (.ok (key, count, start, pool'), r')) {content : List Bhd5Range}
    (hcontent : content = storedRanges r.bigEndian r.stream.mem (r.position + (keySize + 4))
      (i32Of r.bigEndian r.stream.mem (r.position + keySize)).toInt.toNat) :
    ∃ room', room = content.length + room' ∧ PoolAt pool' (done ++ content) room' ∧
      (start, count) = (if content.length = 0 then none else some done.length, content.length) := by
  unfold readRangesInto at h
  obtain ⟨⟨key', n⟩, r1, hhead, h⟩ := bind_eq_ok.1 h
  obtain ⟨hn, hmoved⟩ := readRangeHead_eq_ok hhead
  rw [← hn] at hcontent
  have hlen : content.length = n := by rw [hcontent, length_storedRanges]
  dsimp only at h
  split at h
  · next hpos =>
      obtain ⟨⟨⟩, r2, hcheck, h⟩ := bind_eq_ok.1 h
      obtain ⟨ranges, r3, hranges, hpure⟩ := bind_eq_ok.1 h
      rw [check_run] at hcheck
      split at hcheck
      · next hroom =>
          cases hcheck
          cases hpure
          rw [hpool.length, hpool.cursor] at hroom
          have hsplit : pool.ranges =
              done.map some ++ List.replicate count none ++ List.replicate (room - count) none := by
            rw [hpool.ranges, List.append_assoc, List.replicate_append_replicate, Nat.add_sub_cancel' (by omega)]
          rw [hsplit, hpool.cursor] at hranges
          have hread := readRangeArray_eq_ok (List.length_map some) List.length_replicate hranges
          rw [hmoved.mem, hmoved.bigEndian, hmoved.pos, ← hcontent] at hread
          refine ⟨room - count, by omega, ⟨?_, ?_⟩, ?_⟩
          · rw [hread, List.map_append]
          · simp only [hpool.cursor, List.length_append, hlen]
          · rw [hlen, if_neg (by omega), hpool.cursor]
      · cases hcheck
  · next hzero =>
      cases h
      have hnil : content = [] := List.length_eq_zero_iff.1 (by omega)
      subst hnil
      refine ⟨room, by simp, by rwa [List.append_nil], ?_⟩
      rw [← hlen]
      rfl

end

/-! ## The passes -/

section

variable {data : List UInt8} {be : Bool} {r r' : BinaryReader}

/-- The ranges of the hashes, file by file. -/
def shaContents (be : Bool) (data : List UInt8) (entries : List Bhd5Entry) : List (List Bhd5Range) :=
  entries.map fun entry => rangesStoredAt be data 32 entry.shaOffset

/-- The ranges of the keys, file by file. -/
def aesContents (be : Bool) (data : List UInt8) (entries : List Bhd5Entry) : List (List Bhd5Range) :=
  entries.map fun entry => rangesStoredAt be data 16 entry.aesOffset

/-- The part of a pool that a file has for its hash. -/
def Bhd5File.shaSlice (file : Bhd5File) : Option Nat × Nat := (file.shaRanges, file.shaRangeCount)

/-- The part of a pool that a file has for its key. -/
def Bhd5File.aesSlice (file : Bhd5File) : Option Nat × Nat := (file.aesRanges, file.aesRangeCount)

theorem rangesStoredAt_eq {keySize : Nat} {off : Int64} (hoff : off ≠ 0) {r1 : BinaryReader} (hr : OnData data be r1)
    (hpos : r1.position = off.toInt.toNat) : rangesStoredAt be data keySize off =
      storedRanges r1.bigEndian r1.stream.mem (r1.position + (keySize + 4))
        (i32Of r1.bigEndian r1.stream.mem (r1.position + keySize)).toInt.toNat := by
  rw [rangesStoredAt, if_neg hoff, hr.bigEndian, hr.data.1, hpos, ← Nat.add_assoc]

theorem addRangeCount_eq_ok {total count total' : Nat} (h : addRangeCount total count = .ok total') :
    total' = total + count := by
  unfold addRangeCount at h
  split at h
  · cases h
  · cases h
    rfl

/-- What is counted at an offset. -/
theorem getRangeHead_eq_ok {keySize count : Nat} {off : Int64} (hoff : off ≠ 0) (hr : OnData data be r)
    (h : (defineGet off.toInt do
      let (_, count) ← readRangeHead keySize
      pure count) r = (.ok count, r')) : count = (rangesStoredAt be data keySize off).length := by
  obtain ⟨r1, r2, hread, hr1, hpos⟩ := hr.get h
  obtain ⟨⟨key, n⟩, r3, hhead, hpure⟩ := bind_eq_ok.1 hread
  obtain ⟨hn, -⟩ := readRangeHead_eq_ok hhead
  cases hpure
  rw [rangesStoredAt_eq hoff hr1 hpos, length_storedRanges, hn]

/-- One count of the first pass. -/
theorem countRangesAt_eq_ok (keySize : Nat) (off : Int64) {total total' : Nat} (hr : OnData data be r)
    (h : (if off = 0 then pure total else do
      let count ← defineGet off.toInt do
        let (_, count) ← readRangeHead keySize
        pure count
      lift (addRangeCount total count)) r = (.ok total', r')) :
    total' = total + (rangesStoredAt be data keySize off).length ∧ OnData data be r' := by
  split at h
  · next hzero =>
      cases h
      rw [rangesStoredAt, if_pos hzero]
      exact ⟨rfl, hr⟩
  · next hoff =>
      obtain ⟨count, r1, hcount, hadd⟩ := bind_eq_ok.1 h
      rw [lift_run, Prod.mk.injEq] at hadd
      rw [addRangeCount_eq_ok hadd.1, getRangeHead_eq_ok hoff hr hcount]
      exact ⟨rfl, hadd.2 ▸ hr.after (getRangeHead_onData keySize off) hcount⟩

/-- The first pass counts what is stored. -/
theorem countRanges_eq_ok {entries : List Bhd5Entry} {sha aes sha' aes' : Nat} (hr : OnData data be r)
    (h : countRanges entries sha aes r = (.ok (sha', aes'), r')) :
    sha' = sha + ((shaContents be data entries).map List.length).sum ∧
      aes' = aes + ((aesContents be data entries).map List.length).sum ∧ OnData data be r' := by
  induction entries generalizing sha aes r with
  | nil =>
      cases h
      exact ⟨rfl, rfl, hr⟩
  | cons entry entries ih =>
      rw [countRanges] at h
      obtain ⟨sha1, r1, hsha, h⟩ := bind_eq_ok.1 h
      obtain ⟨aes1, r2, haes, hrest⟩ := bind_eq_ok.1 h
      obtain ⟨rfl, hr1⟩ := countRangesAt_eq_ok 32 entry.shaOffset hr hsha
      obtain ⟨rfl, hr2⟩ := countRangesAt_eq_ok 16 entry.aesOffset hr1 haes
      obtain ⟨hshaEnd, haesEnd, hr'⟩ := ih hr2 hrest
      rw [hshaEnd, haesEnd]
      simp [shaContents, aesContents, Nat.add_assoc, hr']

/-- Where the ranges of one file go in a pool that `content` is put behind. -/
def sliceOf (next : Nat) (content : List Bhd5Range) : Option Nat × Nat :=
  (if content.length = 0 then none else some next, content.length)

/-- The hash of a file: its ranges go behind those of the pool. -/
theorem fillShaRanges_eq_ok {entry : Bhd5Entry} {file file' : Bhd5File} {pool pool' : RangePool}
    {done : List Bhd5Range} {room : Nat} (hr : OnData data be r) (hpool : PoolAt pool done room)
    (hfile : file.shaSlice = (none, 0)) (h : fillShaRanges entry file pool r = (.ok (file', pool'), r')) :
    OnData data be r' ∧ file'.aesSlice = file.aesSlice ∧ ∃ content room',
      content = rangesStoredAt be data 32 entry.shaOffset ∧ room = content.length + room' ∧
      PoolAt pool' (done ++ content) room' ∧ file'.shaSlice = sliceOf done.length content := by
  unfold fillShaRanges at h
  split at h
  · next hzero =>
      cases h
      have hnil : rangesStoredAt be data 32 entry.shaOffset = [] := if_pos hzero
      exact ⟨hr, rfl, _, room, hnil.symm, (Nat.zero_add room).symm, by rwa [List.append_nil], hfile⟩
  · next hoff =>
      obtain ⟨r1, r2, hread, hr1, hpos⟩ := hr.get h
      obtain ⟨⟨hash, count, start, pool1⟩, r3, hinto, hpure⟩ := bind_eq_ok.1 hread
      cases hpure
      obtain ⟨room', hroom, hpool', hslice⟩ := readRangesInto_eq_ok hpool hinto (rangesStoredAt_eq hoff hr1 hpos)
      exact ⟨hr.after (readShaHashInto_onData _ _ _) h, rfl, _, room', rfl, hroom, hpool', hslice⟩

/-- The key of a file. -/
theorem fillAesRanges_eq_ok {entry : Bhd5Entry} {file file' : Bhd5File} {pool pool' : RangePool}
    {done : List Bhd5Range} {room : Nat} (hr : OnData data be r) (hpool : PoolAt pool done room)
    (hfile : file.aesSlice = (none, 0)) (h : fillAesRanges entry file pool r = (.ok (file', pool'), r')) :
    OnData data be r' ∧ file'.shaSlice = file.shaSlice ∧ ∃ content room',
      content = rangesStoredAt be data 16 entry.aesOffset ∧ room = content.length + room' ∧
      PoolAt pool' (done ++ content) room' ∧ file'.aesSlice = sliceOf done.length content := by
  unfold fillAesRanges at h
  split at h
  · next hzero =>
      cases h
      have hnil : rangesStoredAt be data 16 entry.aesOffset = [] := if_pos hzero
      exact ⟨hr, rfl, _, room, hnil.symm, (Nat.zero_add room).symm, by rwa [List.append_nil], hfile⟩
  · next hoff =>
      obtain ⟨r1, r2, hread, hr1, hpos⟩ := hr.get h
      obtain ⟨⟨key, count, start, pool1⟩, r3, hinto, hpure⟩ := bind_eq_ok.1 hread
      cases hpure
      obtain ⟨room', hroom, hpool', hslice⟩ := readRangesInto_eq_ok hpool hinto (rangesStoredAt_eq hoff hr1 hpos)
      exact ⟨hr.after (readAesKeyInto_onData _ _ _) h, rfl, _, room', rfl, hroom, hpool', hslice⟩

/-- The second pass carves what is stored, file by file. -/
theorem fillRanges_eq_ok {entries : List Bhd5Entry} {files : List Bhd5File} {sha aes sha' aes' : RangePool}
    {shaDone aesDone : List Bhd5Range} {shaRoom aesRoom : Nat} (hr : OnData data be r)
    (hsha : PoolAt sha shaDone shaRoom) (haes : PoolAt aes aesDone aesRoom)
    (h : fillRanges entries sha aes r = (.ok (files, sha', aes'), r')) :
    (∃ room', shaRoom = (shaContents be data entries).flatten.length + room' ∧
        PoolAt sha' (shaDone ++ (shaContents be data entries).flatten) room') ∧
      (∃ room', aesRoom = (aesContents be data entries).flatten.length + room' ∧
        PoolAt aes' (aesDone ++ (aesContents be data entries).flatten) room') ∧
      files.map Bhd5File.shaSlice = carve shaDone.length ((shaContents be data entries).map List.length) ∧
      files.map Bhd5File.aesSlice = carve aesDone.length ((aesContents be data entries).map List.length) := by
  induction entries generalizing files sha aes shaDone aesDone shaRoom aesRoom r with
  | nil =>
      cases h
      exact ⟨⟨shaRoom, by simp [shaContents], by simpa [shaContents] using hsha⟩,
        ⟨aesRoom, by simp [aesContents], by simpa [aesContents] using haes⟩, rfl, rfl⟩
  | cons entry entries ih =>
      rw [fillRanges] at h
      obtain ⟨⟨file1, sha1⟩, r1, hfillSha, h⟩ := bind_eq_ok.1 h
      obtain ⟨⟨file2, aes1⟩, r2, hfillAes, h⟩ := bind_eq_ok.1 h
      obtain ⟨⟨rest, sha2, aes2⟩, r3, hrest, hpure⟩ := bind_eq_ok.1 h
      cases hpure
      obtain ⟨hr1, haesSlice, c1, room1, hc1, hroom1, hsha1, hslice1⟩ := fillShaRanges_eq_ok hr hsha rfl hfillSha
      obtain ⟨hr2, hshaSlice, c2, room2, hc2, hroom2, haes1, hslice2⟩ :=
        fillAesRanges_eq_ok hr1 haes haesSlice hfillAes
      obtain ⟨⟨shaRoom', hshaRoom, hsha'⟩, ⟨aesRoom', haesRoom, haes'⟩, hshaSlices, haesSlices⟩ :=
        ih hr2 hsha1 haes1 hrest
      have hshaContents : shaContents be data (entry :: entries) = c1 :: shaContents be data entries := by
        rw [hc1]
        rfl
      have haesContents : aesContents be data (entry :: entries) = c2 :: aesContents be data entries := by
        rw [hc2]
        rfl
      rw [hshaContents, haesContents]
      refine ⟨⟨shaRoom', ?_, ?_⟩, ⟨aesRoom', ?_, ?_⟩, ?_, ?_⟩
      · rw [List.flatten_cons, List.length_append]
        omega
      · rwa [List.flatten_cons, ← List.append_assoc]
      · rw [List.flatten_cons, List.length_append]
        omega
      · rwa [List.flatten_cons, ← List.append_assoc]
      · rw [List.map_cons, hshaSlices, hshaSlice, hslice1, List.length_append]
        rfl
      · rw [List.map_cons, haesSlices, hslice2, List.length_append]
        rfl

/-- The second pass over some files first. -/
theorem fillRanges_append {before after : List Bhd5Entry} {files : List Bhd5File} {sha aes sha' aes' : RangePool}
    (h : fillRanges (before ++ after) sha aes r = (.ok (files, sha', aes'), r')) :
    ∃ files1 sha1 aes1 r1 files2, fillRanges before sha aes r = (.ok (files1, sha1, aes1), r1) ∧
      files = files1 ++ files2 ∧ files1.length = before.length := by
  induction before generalizing files sha aes r with
  | nil => exact ⟨[], sha, aes, r, files, rfl, rfl, rfl⟩
  | cons entry before ih =>
      rw [List.cons_append, fillRanges] at h
      obtain ⟨⟨file1, sha1⟩, r1, hfillSha, h⟩ := bind_eq_ok.1 h
      obtain ⟨⟨file2, aes1⟩, r2, hfillAes, h⟩ := bind_eq_ok.1 h
      obtain ⟨⟨rest, sha2, aes2⟩, r3, hrest, hpure⟩ := bind_eq_ok.1 h
      cases hpure
      obtain ⟨files1, sha3, aes3, r4, files2, hrun, rfl, hlen⟩ := ih hrest
      refine ⟨file2 :: files1, sha3, aes3, r4, files2, ?_, rfl, by simp [hlen]⟩
      rw [fillRanges, bind_ok hfillSha]
      dsimp only
      rw [bind_ok hfillAes]
      dsimp only
      rw [bind_ok hrun]
      rfl

end

/-! ## The index -/

section

variable {data : List UInt8} {be : Bool}

theorem testIs64Bit_onData : Keeps (OnData data be) testIs64Bit := by
  have hget : ∀ off, Keeps (OnData data be) (getI32 off) := fun off => get_onData readI32_onData off
  refine Keeps.state.bind fun r => Keeps.ite (fun _ => ?_) fun _ => Keeps.pure _
  refine (hget 0x14).attempt.bind fun test0 => ?_
  cases test0 with
  | error e => exact Keeps.pure _
  | ok v0 =>
      refine (hget 0x1C).attempt.bind fun test1 => ?_
      cases test1 with
      | error e => exact Keeps.pure _
      | ok v1 => exact Keeps.pure _

/-- A bucket and those behind it, once the numbers of the bucket are read. -/
theorem readBucketsRest_onData (is64Bit : Bool) (room n i total : Nat)
    (ih : ∀ i total, Keeps (OnData data be) (readBuckets is64Bit room n i total)) (count : Nat) (headerOffset : Int64) :
    Keeps (OnData data be) (do
      check (i < room) SfError.undefinedBehaviour
      check (0 ≤ headerOffset.toInt) SfError.outOfRange
      check (count ≤ SIZE_MAX - total) SfError.outOfRange
      let (rest, total') ← readBuckets is64Bit room n (i + 1) (total + count)
      Pure.pure (({ count := count, firstFile := total : Bhd5Bucket }, headerOffset) :: rest, total')) := by
  refine (Keeps.check _ _).bind fun _ => (Keeps.check _ _).bind fun _ => (Keeps.check _ _).bind fun _ => ?_
  refine (ih _ _).bind fun l => ?_
  obtain ⟨rest, total'⟩ := l
  exact Keeps.pure _

theorem readBuckets_onData (is64Bit : Bool) (room n i total : Nat) :
    Keeps (OnData data be) (readBuckets is64Bit room n i total) := by
  induction n generalizing i total with
  | zero => exact Keeps.pure _
  | succ n ih =>
      have hrest := readBucketsRest_onData is64Bit room n i total ih
      refine readI32Nonnegative_onData.bind fun count => Keeps.ite (fun _ => ?_) fun _ => ?_
      · refine readI32_onData.bind fun _ => (Keeps.check _ _).bind fun _ => readI64_onData.bind fun off => ?_
        exact hrest count off
      · refine readI32Nonnegative_onData.bind fun off32 => ?_
        exact hrest count (Int64.ofNat off32)

theorem readFileHeader_onData (game : Bhd5Game) : Keeps (OnData data be) (readFileHeader game) := by
  have hu32 : Keeps (OnData data be) readU32 := keeps_onData data be readU32_over
  have hu64 : Keeps (OnData data be) readU64 :=
    keeps_onData data be ((defineReadInt_over 8).bind fun _ => Keeps.pure _)
  unfold readFileHeader
  cases game
  case darkSouls3 | sekiro =>
    refine hu32.bind fun _ => readI32Nonnegative_onData.bind fun _ => readI64_onData.bind fun _ => ?_
    refine readI64_onData.bind fun _ => readI64_onData.bind fun _ => readI64_onData.bind fun _ => ?_
    exact (Keeps.check _ _).bind fun _ => (Keeps.check _ _).bind fun _ => Keeps.pure _
  case eldenRing | nightreign | armoredCore6 =>
    refine hu64.bind fun _ => readI32Nonnegative_onData.bind fun _ => readI32Nonnegative_onData.bind fun _ => ?_
    refine readI64_onData.bind fun _ => readI64_onData.bind fun _ => readI64_onData.bind fun _ => ?_
    exact (Keeps.check _ _).bind fun _ => Keeps.pure _

theorem readBucketFiles_onData (game : Bhd5Game) (room n i : Nat) :
    Keeps (OnData data be) (readBucketFiles game room n i) := by
  induction n generalizing i with
  | zero => exact Keeps.pure _
  | succ n ih =>
      exact (Keeps.check _ _).bind fun _ => (readFileHeader_onData game).bind fun _ => (ih _).bind fun _ =>
        Keeps.pure _

theorem readFiles_onData (game : Bhd5Game) (room : Nat) (buckets : List (Bhd5Bucket × Int64)) :
    Keeps (OnData data be) (readFiles game room buckets) := by
  have hin : ∀ off, Keeps (OnData data be) (stepIn off) := fun off => keeps_onData data be (stepIn_over off)
  have hout : Keeps (OnData data be) stepOut := keeps_onData data be stepOut_over
  induction buckets with
  | nil => exact Keeps.pure _
  | cons bucket buckets ih =>
      obtain ⟨bucket, headerOffset⟩ := bucket
      refine Keeps.ite (fun _ => ih.bind fun _ => Keeps.pure _) fun _ => ?_
      refine (hin _).bind fun _ => (readBucketFiles_onData game room _ _).bind fun _ => hout.bind fun _ => ?_
      exact ih.bind fun _ => Keeps.pure _

theorem readBucketCount_onData (is64Bit : Bool) : Keeps (OnData data be) (readBucketCount is64Bit) := by
  refine Keeps.ite (fun _ => ?_) fun _ => ?_
  · exact readI64_onData.bind fun _ => readI64_onData.bind fun _ => Keeps.pure _
  · exact readI32Nonnegative_onData.bind fun _ => readI32Nonnegative_onData.bind fun _ => Keeps.pure _

theorem readIndex_onData (game : Bhd5Game) : Keeps (OnData data be) (readIndex game) := by
  have hbool : Keeps (OnData data be) readBool := keeps_onData data be readBool_over
  have hu8 : ∀ options, Keeps (OnData data be) (assertU8 options) := fun options =>
    keeps_onData data be (assertU8_over options)
  have hi32 : ∀ options, Keeps (OnData data be) (assertI32 options) := fun options =>
    keeps_onData data be (assertI32_over options)
  have hascii : ∀ n, Keeps (OnData data be) (readAsciiN n) := fun n =>
    Keeps.ite (fun _ => onHeap_onData _) fun _ => (onHeap_onData _).bind fun _ => (readBytes_onData n).bind fun _ =>
      onHeap_onData _
  have hgiven : ∀ c : Bool, Keeps (OnData data be) (given c [] (onHeap Heap.alloc)) := fun c =>
    Keeps.given (onHeap_onData _)
  have hin : ∀ off, Keeps (OnData data be) (stepIn off) := fun off => keeps_onData data be (stepIn_over off)
  have hout : Keeps (OnData data be) stepOut := keeps_onData data be stepOut_over
  unfold readIndex
  refine hbool.bind fun _ => (hu8 _).bind fun _ => (hu8 _).bind fun _ => (hi32 _).bind fun _ => ?_
  refine readI32_onData.bind fun _ => testIs64Bit_onData.bind fun is64Bit => ?_
  refine (readBucketCount_onData is64Bit).bind fun ⟨bucketCount, bucketsOffset⟩ => ?_
  refine (Keeps.check _ _).bind fun _ => ?_
  refine readI32Nonnegative_onData.bind fun _ => (hascii _).bind fun _ => ?_
  refine (hgiven _).bind fun _ => (hgiven _).bind fun _ => (hin _).bind fun _ => ?_
  refine (readBuckets_onData _ _ _ _ _).bind fun ⟨buckets, total⟩ => hout.bind fun _ => ?_
  refine (hgiven _).bind fun _ => (hgiven _).bind fun _ => (hgiven _).bind fun _ => ?_
  exact (readFiles_onData game _ buckets).bind fun _ => Keeps.pure _

/-- The passes start on the data of the index, in its byte order. -/
theorem readUpToRanges_onData {game : Bhd5Game} {r r' : BinaryReader} {bigEndian : Bool} {index : Bhd5Index}
    (hr : OnData data be r) (h : readUpToRanges game r = (.ok (bigEndian, index), r')) : OnData data bigEndian r' := by
  have hi8 : Keeps (Over data fun _ => True) readI8 := readU8_over.bind fun _ => Keeps.pure _
  have hendian : Keeps (OnData data be) readEndian := by
    refine (keeps_onData data be (assertAscii_over _)).bind fun _ => (keeps_onData data be hi8).bind fun _ => ?_
    exact (Keeps.check _ _).bind fun _ => Keeps.pure _
  obtain ⟨bigEndian', r1, hrun, h⟩ := bind_eq_ok.1 h
  obtain ⟨⟨⟩, r2, hset, h⟩ := bind_eq_ok.1 h
  obtain ⟨index', r3, hindex, hpure⟩ := bind_eq_ok.1 h
  have hr1 := hr.after hendian hrun
  cases hset
  cases hpure
  have hr2 : OnData data bigEndian { r1 with bigEndian := bigEndian } := ⟨hr1.data, rfl⟩
  exact hr2.after (readIndex_onData game) hindex

end

/-! ## The pools -/

theorem allocRangePool_eq_ok {count : Nat} {pool : RangePool} {r r' : BinaryReader}
    (h : allocRangePool count r = (.ok pool, r')) : pool = .empty count := by
  unfold allocRangePool at h
  split at h
  · next hzero =>
      cases h
      rw [hzero]
  · obtain ⟨⟨⟩, r1, hcheck, h⟩ := bind_eq_ok.1 h
    obtain ⟨junk, r2, halloc, hpure⟩ := bind_eq_ok.1 h
    cases hpure
    rfl

theorem allocRangePool_onData {data : List UInt8} {be : Bool} (count : Nat) :
    Keeps (OnData data be) (allocRangePool count) :=
  Keeps.ite (fun _ => Keeps.pure _) fun _ => (Keeps.check _ _).bind fun _ => (onHeap_onData _).bind fun _ =>
    Keeps.pure _

theorem poolAt_empty (count : Nat) : PoolAt (.empty count) [] count := ⟨rfl, rfl⟩

/-! ## No cursor leaves its pool -/

theorem never_readI32Nonnegative : Never .undefinedBehaviour readI32Nonnegative :=
  never_readI32.bind fun _ => (Never.check (by decide)).bind fun _ => Never.pure _

theorem never_readRangeHead (keySize : Nat) : Never .undefinedBehaviour (readRangeHead keySize) :=
  (never_readBytes keySize).bind fun _ => never_readI32Nonnegative.bind fun _ => Never.state.bind fun _ =>
    (Never.check (by decide)).bind fun _ => Never.pure _

/-- The loop over the ranges stays inside the pool if they all fit. -/
theorem never_readRangeArray {n i : Nat} {ranges : List (Option Bhd5Range)} (hfit : i + n ≤ ranges.length) :
    Never .undefinedBehaviour (readRangeArray n i ranges) := by
  induction n generalizing i ranges with
  | zero => exact Never.pure _
  | succ n ih =>
      refine never_readI64.bind fun _ => never_readI64.bind fun _ => fun r => ?_
      exact avoids_guard.2 ⟨by omega, ih (by rw [List.length_set]; omega) r⟩

section

variable {data : List UInt8} {be : Bool} {r : BinaryReader} {pool : RangePool} {done : List Bhd5Range} {room : Nat}

/-- The ranges at an offset stay inside a pool that has room for what is stored there. -/
theorem avoids_readRangesInto {keySize : Nat} {off : Int64} (hoff : off ≠ 0) (hr : OnData data be r)
    (hpos : r.position = off.toInt.toNat) (hpool : PoolAt pool done room)
    (hroom : (rangesStoredAt be data keySize off).length ≤ room) :
    Avoids .undefinedBehaviour (readRangesInto keySize pool) r := by
  refine avoids_bind.2 ⟨never_readRangeHead keySize r, ?_⟩
  rintro ⟨key, count⟩ r1 hhead
  obtain ⟨hcount, -⟩ := readRangeHead_eq_ok hhead
  -- the count is read again, and is the one that was counted
  rw [rangesStoredAt_eq hoff hr hpos, length_storedRanges, ← hcount] at hroom
  have hfit : pool.cursor + count ≤ pool.ranges.length := by
    rw [hpool.cursor, hpool.length]
    omega
  dsimp only
  split
  · exact avoids_guard.2 ⟨hfit, ((never_readRangeArray hfit).bind fun _ => Never.pure _) r1⟩
  · exact avoids_pure _

theorem avoids_fillShaRanges {entry : Bhd5Entry} {file : Bhd5File} (hr : OnData data be r)
    (hpool : PoolAt pool done room) (hroom : (rangesStoredAt be data 32 entry.shaOffset).length ≤ room) :
    Avoids .undefinedBehaviour (fillShaRanges entry file pool) r := by
  unfold fillShaRanges
  split
  · exact avoids_pure _
  · next hoff =>
      refine avoids_defineGet fun r1 hin => avoids_bind.2 ⟨?_, fun _ _ _ => avoids_pure _⟩
      exact avoids_readRangesInto hoff (hr.after (keeps_onData data be (stepIn_over _)) hin) (stepIn_position hin)
        hpool hroom

theorem avoids_fillAesRanges {entry : Bhd5Entry} {file : Bhd5File} (hr : OnData data be r)
    (hpool : PoolAt pool done room) (hroom : (rangesStoredAt be data 16 entry.aesOffset).length ≤ room) :
    Avoids .undefinedBehaviour (fillAesRanges entry file pool) r := by
  unfold fillAesRanges
  split
  · exact avoids_pure _
  · next hoff =>
      refine avoids_defineGet fun r1 hin => avoids_bind.2 ⟨?_, fun _ _ _ => avoids_pure _⟩
      exact avoids_readRangesInto hoff (hr.after (keeps_onData data be (stepIn_over _)) hin) (stepIn_position hin)
        hpool hroom

/-- The second pass stays inside pools that have room for everything that is stored for the files to come. -/
theorem avoids_fillRanges {entries : List Bhd5Entry} {sha aes : RangePool} {shaDone aesDone : List Bhd5Range}
    {shaRoom aesRoom : Nat} (hr : OnData data be r) (hsha : PoolAt sha shaDone shaRoom)
    (haes : PoolAt aes aesDone aesRoom) (hshaRoom : ((shaContents be data entries).map List.length).sum ≤ shaRoom)
    (haesRoom : ((aesContents be data entries).map List.length).sum ≤ aesRoom) :
    Avoids .undefinedBehaviour (fillRanges entries sha aes) r := by
  induction entries generalizing r sha aes shaDone aesDone shaRoom aesRoom with
  | nil => exact avoids_pure _
  | cons entry entries ih =>
      simp only [shaContents, aesContents, List.map_cons, List.sum_cons] at hshaRoom haesRoom
      refine avoids_bind.2 ⟨avoids_fillShaRanges hr hsha (by omega), ?_⟩
      rintro ⟨file1, sha1⟩ r1 hfillSha
      obtain ⟨hr1, haesSlice, c1, room1, hc1, hroom1, hsha1, -⟩ := fillShaRanges_eq_ok hr hsha rfl hfillSha
      refine avoids_bind.2 ⟨avoids_fillAesRanges hr1 haes (by omega), ?_⟩
      rintro ⟨file2, aes1⟩ r2 hfillAes
      obtain ⟨hr2, -, c2, room2, hc2, hroom2, haes1, -⟩ := fillAesRanges_eq_ok hr1 haes haesSlice hfillAes
      rw [← hc1] at hshaRoom
      rw [← hc2] at haesRoom
      exact avoids_bind.2 ⟨ih hr2 hsha1 haes1 (by simp only [shaContents]; omega)
        (by simp only [aesContents]; omega), fun _ _ _ => avoids_pure _⟩

end

/-- The pools that the first pass has measured are not left by the second one: whatever it meets, it never ends in an
    access outside of them. -/
def FillsInside (game : Bhd5Game) (start : BinaryReader) : Prop :=
  ∀ bigEndian index counting shaTotal aesTotal counted shaPool shaReader aesPool filling,
    readUpToRanges game start = (.ok (bigEndian, index), counting) →
    countRanges index.entries 0 0 counting = (.ok (shaTotal, aesTotal), counted) →
    allocRangePool shaTotal counted = (.ok shaPool, shaReader) →
    allocRangePool aesTotal shaReader = (.ok aesPool, filling) →
    (fillRanges index.entries shaPool aesPool filling).1 ≠ .error .undefinedBehaviour

/-- What is asked of the passes that start in the states `counting` and `filling`: the first one measures the pools
    that the second one fills, neither cursor leaves its pool, and each file has the ranges that are stored at its own
    offset. -/
structure CarvesPools (data : List UInt8) (entries : List Bhd5Entry) (b : Bhd5) (counting filling : BinaryReader) :
    Prop where
  counted : ∃ r, countRanges entries 0 0 counting = (.ok (b.shaRangePool.length, b.aesRangePool.length), r)
  filled : ∃ r, fillRanges entries (.empty b.shaRangePool.length) (.empty b.aesRangePool.length) filling =
    (.ok (b.files, { ranges := b.shaRangePool, cursor := b.shaRangePool.length },
      { ranges := b.aesRangePool, cursor := b.aesRangePool.length }), r)
  between : ∀ k ≤ entries.length, ∃ sha aes r,
    fillRanges (entries.take k) (.empty b.shaRangePool.length) (.empty b.aesRangePool.length) filling =
        (.ok (b.files.take k, sha, aes), r) ∧
      sha.cursor ≤ b.shaRangePool.length ∧ aes.cursor ≤ b.aesRangePool.length
  sha : Carved b.shaRangePool (shaContents b.bigEndian data entries) (b.files.map Bhd5File.shaSlice)
  aes : Carved b.aesRangePool (aesContents b.bigEndian data entries) (b.files.map Bhd5File.aesSlice)

/-- A pool that is filled to its end. -/
theorem PoolAt.full {pool : RangePool} {done : List Bhd5Range} {room : Nat} (h : PoolAt pool done room)
    (hroom : room = 0) : pool = { ranges := done.map some, cursor := (done.map some).length } := by
  obtain ⟨hranges, hcursor⟩ := h
  obtain ⟨ranges, cursor⟩ := pool
  simp only at hranges hcursor
  rw [hranges, hcursor, hroom, List.replicate_zero, List.append_nil, List.length_map]

/-- The second pass fits into what the first one has counted. -/
theorem fillsInside (game : Bhd5Game) (bytes : List UInt8) (flexible : Bool) (heap : Heap) :
    FillsInside game (BinaryReader.create bytes false flexible heap) := by
  intro bigEndian index r shaTotal aesTotal r1 shaPool r2 aesPool r3 hindex hcount hshaPool haesPool
  obtain rfl := allocRangePool_eq_ok hshaPool
  obtain rfl := allocRangePool_eq_ok haesPool
  have hstart : OnData bytes false (create bytes false flexible heap) := ⟨⟨rfl, Nat.zero_le _⟩, rfl⟩
  have hr := readUpToRanges_onData hstart hindex
  obtain ⟨hshaTotal, haesTotal, hr1⟩ := countRanges_eq_ok hr hcount
  have hr3 := (hr1.after (allocRangePool_onData _) hshaPool).after (allocRangePool_onData _) haesPool
  exact avoids_fillRanges hr3 (poolAt_empty shaTotal) (poolAt_empty aesTotal) (by omega) (by omega)

/-- An index that is accepted has its pools carved exactly. -/
theorem carvesPools_of_ok {game : Bhd5Game} {flexible : Bool} {bytes : List UInt8} {heap : Heap} {b : Bhd5}
    (h : (parseBhd5Bytes game flexible bytes heap).1 = .ok b) :
    ∃ (heap0 : Heap) (index : Bhd5Index) (counting filling : BinaryReader),
      readUpToRanges game (BinaryReader.create bytes false flexible heap0) = (.ok (b.bigEndian, index), counting) ∧
        CarvesPools bytes index.entries b counting filling := by
  obtain ⟨heap0, r5, hparse, -⟩ := onMemory_eq_ok h
  obtain ⟨⟨bigEndian, index⟩, r, hindex, hparse⟩ := bind_eq_ok.1 hparse
  obtain ⟨⟨shaTotal, aesTotal⟩, r1, hcount, hparse⟩ := bind_eq_ok.1 hparse
  obtain ⟨shaPool, r2, hshaPool, hparse⟩ := bind_eq_ok.1 hparse
  obtain ⟨aesPool, r3, haesPool, hparse⟩ := bind_eq_ok.1 hparse
  obtain ⟨⟨files, sha, aes⟩, r4, hfill, hpure⟩ := bind_eq_ok.1 hparse
  cases hpure
  obtain rfl := allocRangePool_eq_ok hshaPool
  obtain rfl := allocRangePool_eq_ok haesPool
  have hstart : OnData bytes false (create bytes false flexible heap0) := ⟨⟨rfl, Nat.zero_le _⟩, rfl⟩
  have hr := readUpToRanges_onData hstart hindex
  obtain ⟨hshaTotal, haesTotal, hr1⟩ := countRanges_eq_ok hr hcount
  have hr3 := (hr1.after (allocRangePool_onData _) hshaPool).after (allocRangePool_onData _) haesPool
  have hspec := fillRanges_eq_ok hr3 (poolAt_empty shaTotal) (poolAt_empty aesTotal) hfill
  obtain ⟨⟨shaRoom, hshaRoom, hsha⟩, ⟨aesRoom, haesRoom, haes⟩, hshaSlices, haesSlices⟩ := hspec
  rw [List.nil_append] at hsha haes
  rw [List.length_flatten] at hshaRoom haesRoom
  -- the totals leave no room behind the last file
  have hshaFull := hsha.full (by omega)
  have haesFull := haes.full (by omega)
  have hshaLen : shaTotal = sha.ranges.length := by
    rw [hshaFull, List.length_map, List.length_flatten, hshaTotal, Nat.zero_add]
  have haesLen : aesTotal = aes.ranges.length := by
    rw [haesFull, List.length_map, List.length_flatten, haesTotal, Nat.zero_add]
  refine ⟨heap0, index, r, r3, hindex, ⟨r1, ?_⟩, ⟨r5, ?_⟩, ?_, ?_, ?_⟩
  · rw [hcount, hshaLen, haesLen]
  · dsimp only
    rw [← hshaLen, ← haesLen, hfill, hshaLen, haesLen]
    have hshaCursor : sha = { ranges := sha.ranges, cursor := sha.ranges.length } := by
      rw [hshaFull]
    have haesCursor : aes = { ranges := aes.ranges, cursor := aes.ranges.length } := by
      rw [haesFull]
    rw [← hshaCursor, ← haesCursor]
  · intro k hk
    dsimp only
    have hsplit := List.take_append_drop k index.entries
    rw [← hsplit] at hfill
    obtain ⟨files1, sha1, aes1, r6, files2, hrun, rfl, hlen⟩ := fillRanges_append hfill
    rw [List.length_take, Nat.min_eq_left hk] at hlen
    obtain ⟨⟨shaRoom1, hshaRoom1, hsha1⟩, ⟨aesRoom1, haesRoom1, haes1⟩, -, -⟩ :=
      fillRanges_eq_ok hr3 (poolAt_empty shaTotal) (poolAt_empty aesTotal) hrun
    have hfiles : (files1 ++ files2).take k = files1 := by rw [← hlen, List.take_left]
    rw [← hshaLen, ← haesLen, hfiles]
    refine ⟨sha1, aes1, r6, hrun, ?_, ?_⟩
    · rw [hsha1.cursor, List.nil_append]
      omega
    · rw [haes1.cursor, List.nil_append]
      omega
  · dsimp only
    rw [hshaSlices, hshaFull]
    exact carved_carve _
  · dsimp only
    rw [haesSlices, haesFull]
    exact carved_carve _

/-- **The pools are carved exactly** for every index that is accepted, and no index makes the second pass leave them. -/
theorem bhd5_pools_carved (game : Bhd5Game) (flexible : Bool) (bytes : List UInt8) :
    (∀ heap, FillsInside game (BinaryReader.create bytes false flexible heap)) ∧
      ∀ (heap : Heap) (b : Bhd5), (parseBhd5Bytes game flexible bytes heap).1 = .ok b →
        ∃ (heap0 : Heap) (index : Bhd5Index) (counting filling : BinaryReader),
          readUpToRanges game (BinaryReader.create bytes false flexible heap0) = (.ok (b.bigEndian, index), counting) ∧
            CarvesPools bytes index.entries b counting filling :=
  ⟨fun heap => fillsInside game bytes flexible heap, fun _ _ h => carvesPools_of_ok h⟩

/-- An index of a bucket with two files, both with the key at 116, that has one range. -/
def sampleBhd5 : List UInt8 :=
  cstr "BHD5" ++ [0xFF, 0, 0, 0] ++ leBytes 4 1 ++ leBytes 4 152 ++ leBytes 4 1 ++ leBytes 4 28 ++ leBytes 4 0
    ++ (leBytes 4 2 ++ leBytes 4 36)
    ++ (leBytes 4 7 ++ leBytes 4 32 ++ leBytes 8 0 ++ leBytes 8 0 ++ leBytes 8 116 ++ leBytes 8 32)
    ++ (leBytes 4 9 ++ leBytes 4 32 ++ leBytes 8 32 ++ leBytes 8 0 ++ leBytes 8 116 ++ leBytes 8 32)
    ++ (leBytes 16 5 ++ leBytes 4 1 ++ leBytes 8 0 ++ leBytes 8 16)

def sampleBhd5Parsed : Bhd5 :=
  { game := .darkSouls3
    bigEndian := false
    unk05 := false
    salt := []
    buckets := [{ count := 2, firstFile := 0 }]
    files :=
      [{ pathHash := 7, paddedSize := 32, unpaddedSize := 32, fileOffset := 0, hasAesKey := true
         aesKey := leBytes 16 5, aesRangeCount := 1, aesRanges := some 0 },
       { pathHash := 9, paddedSize := 32, unpaddedSize := 32, fileOffset := 32, hasAesKey := true
         aesKey := leBytes 16 5, aesRangeCount := 1, aesRanges := some 1 }]
    shaRangePool := []
    aesRangePool := [some { startOffset := 0, endOffset := 16 }, some { startOffset := 0, endOffset := 16 }] }

theorem sampleBhd5_carved :
    ∃ (heap0 : Heap) (index : Bhd5Index) (counting filling : BinaryReader),
      readUpToRanges .darkSouls3 (BinaryReader.create sampleBhd5 false false heap0) = (.ok (false, index), counting) ∧
        CarvesPools sampleBhd5 index.entries sampleBhd5Parsed counting filling :=
  (bhd5_pools_carved .darkSouls3 false sampleBhd5).2 [] sampleBhd5Parsed (by decide +kernel)

end SoulsFormats
