import Mathlib.Algebra.Order.BigOperators.Group.List
import SoulsFormats.Navmesh.Mcp

set_option autoImplicit false

/-! # Reading back navigation volumes

The rooms come back in order, each with its indices: the offset of a room is where its indices were written, and
that of a room without any is not followed. -/

namespace SoulsFormats

open Bytes Fallible

/-! ## What is stored -/

/-- The record of a room. -/
def mcpRoomBytes (be : Bool) (r : McpRoom) (indicesOffset : Int32) : List UInt8 :=
  wordBytes be 4 r.mapId.toNat ++ (wordBytes be 4 r.localIndex.toUInt32.toNat ++
    (wordBytes be 4 (Int32.ofNat r.connectedIndices.length).toUInt32.toNat ++
      (wordBytes be 4 indicesOffset.toUInt32.toNat ++ (vec3Bytes be r.bboxMin ++ vec3Bytes be r.bboxMax))))

@[simp] theorem length_mcpRoomBytes (be : Bool) (r : McpRoom) (indicesOffset : Int32) :
    (mcpRoomBytes be r indicesOffset).length = 40 := by
  simp [mcpRoomBytes, length_wordBytes]

/-- What the file holds: the header, the indices of the rooms and the table of the rooms. -/
structure McpImage (m : Mcp) (offsets : List Int32) (roomsPos : Nat) (B : List UInt8) : Prop where
  magic : Holds B 0 (wordBytes m.bigEndian 4 2)
  unk04 : Holds B 4 (wordBytes m.bigEndian 4 m.unk04.toUInt32.toNat)
  roomCount : Holds B 8 (wordBytes m.bigEndian 4 (Int32.ofNat m.rooms.length).toUInt32.toNat)
  roomsOffset : Holds B 12 (wordBytes m.bigEndian 4 (Int32.ofNat roomsPos).toUInt32.toNat)
  roomsPos_le : roomsPos ≤ INT32_MAX
  roomsAt : List.Forall₂ (fun r offset => I32sAt m.bigEndian B r.connectedIndices offset) m.rooms offsets
  rooms : Holds B roomsPos ((m.rooms.zip offsets).flatMap fun r => mcpRoomBytes m.bigEndian r.1 r.2)

/-! ## Writing -/

section Writing

open BinaryWriter

def mcpLabels : Labels Unit where
  base _ := "RoomsOffset"
  kind _ := .i32
  noDigits _ := by decide
  inj _ _ _ := rfl

abbrev mcpSlots : FileSlots (Unit × Option Nat) := mcpLabels.slots fun _ _ => 12

variable {be long : Bool}

theorem puts_mcpWriteIndices (r : McpRoom) (pos : Nat) :
    Puts mcpSlots (mcpWriteIndices r) ⟨pos, be, long⟩ (fun _ st => st.Flags be long)
      fun offset _ B => I32sAt be B r.connectedIndices offset := by
  refine Puts.position (Puts.check fun hpos => Puts.check fun _ => Puts.sent (sends_i32s r.connectedIndices) fun _ => ?_)
  exact Puts.done ⟨rfl, rfl⟩ fun B hB => ⟨pos, hpos, rfl, hB⟩

theorem sends_mcpWriteRoom (r : McpRoom) (indicesOffset : Int32) :
    Sends mcpSlots be long (mcpWriteRoom r indicesOffset) (mcpRoomBytes be r indicesOffset) True :=
  Sends.check fun _ => (sends_u32 _).then fun _ => (sends_i32 _).then fun _ => (sends_i32 _).then fun _ =>
    (sends_i32 _).then fun _ => (sends_vec3 _).then fun _ => sends_vec3 _

/-- **What is written is the image.** -/
theorem puts_mcpWrite (m : Mcp) : Puts mcpSlots (mcpWrite m) ⟨0, m.bigEndian, false⟩ (fun _ _ => True)
    fun _ _ B => ∃ offsets roomsPos, McpImage m offsets roomsPos B := by
  refine Puts.room _ fun _ => Puts.i32 (Puts.i32 (Puts.i32 (Puts.reserveI32 ((), none) rfl rfl ?_)))
  refine (puts_noteEach m.rooms (fun r _ pos => puts_mcpWriteIndices r pos) _).seq fun offsets st hst => ?_
  obtain ⟨p, be', long'⟩ := st
  obtain ⟨⟨rfl, rfl⟩, -⟩ := hst
  refine Puts.position (Puts.check fun hpos => Puts.fillI32 ((), none) rfl ?_)
  refine Puts.last (Puts.sent ((sends_each _ fun r _ => sends_mcpWriteRoom r.1 r.2).imp fun _ => trivial) fun _ => ?_)
  refine Puts.done trivial fun B rooms roomsOffset roomsAt roomCount unk04 magic => ?_
  exact ⟨offsets, p, magic, unk04, roomCount, roomsOffset, hpos, roomsAt, rooms⟩

/-! ## Writing succeeds -/

/-- How long a file is. -/
def mcpSize (m : Mcp) : Nat :=
  16 + (m.rooms.map fun r => r.connectedIndices.length * 4).sum + m.rooms.length * 40

theorem makes_mcpWriteIndices (r : McpRoom) {pos : Nat} (live : Set (Unit × Option Nat))
    (hfit : pos + r.connectedIndices.length * 4 ≤ INT32_MAX) :
    Makes mcpSlots (mcpWriteIndices r) ⟨pos, be, long⟩ live
      (fun _ st live' => st = ⟨pos + r.connectedIndices.length * 4, be, long⟩ ∧ live' = live) fun _ _ _ => True := by
  have hroom : INT32_MAX ≤ fileRoom := by decide
  have hlen := length_i32sBytes be r.connectedIndices
  refine Makes.position (Makes.check (by omega) (Makes.check (by omega)
    (Makes.piece (delivers_i32s r.connectedIndices) (by omega) ?_)))
  exact Makes.done ⟨by rw [hlen], rfl⟩ fun _ _ => trivial

/-- The indices of all rooms stand one after another. -/
theorem makes_mcpIndices (rooms : List McpRoom) {pos : Nat} (live : Set (Unit × Option Nat))
    (hfit : pos + (rooms.map fun r => r.connectedIndices.length * 4).sum ≤ INT32_MAX) :
    Makes mcpSlots (noteEach mcpWriteIndices rooms) ⟨pos, be, long⟩ live
      (fun offsets st live' => st = ⟨pos + (rooms.map fun r => r.connectedIndices.length * 4).sum, be, long⟩ ∧
        live' = live ∧ offsets.length = rooms.length) fun _ _ _ => True :=
  (makes_noteEach rooms (fun r _ _ live h => makes_mcpWriteIndices r live h) pos live hfit).mono fun _ _ _ _ _ _ => trivial

theorem delivers_mcpWriteRoom {r : McpRoom} (hr : r.connectedIndices.length ≤ INT32_MAX) (indicesOffset : Int32) :
    Delivers mcpSlots be long (mcpWriteRoom r indicesOffset) (mcpRoomBytes be r indicesOffset) := by
  intro pos live hfit
  refine Makes.check hr (Delivers.then (delivers_u32 _) ((delivers_i32 _).then ((delivers_i32 _).then
    ((delivers_i32 _).then ((delivers_vec3 _).then (delivers_vec3 _))))) pos live hfit)

/-- The records of the rooms are all of one size. -/
theorem length_mcpRooms (m : Mcp) {offsets : List Int32} (hlen : offsets.length = m.rooms.length) :
    ((m.rooms.zip offsets).flatMap fun r => mcpRoomBytes m.bigEndian r.1 r.2).length = m.rooms.length * 40 := by
  rw [List.length_flatMap]
  simp only [length_mcpRoomBytes, List.map_const', List.sum_replicate_nat, List.length_zip]
  rw [hlen, Nat.min_self]

theorem makes_mcpWrite {m : Mcp} (hsize : mcpSize m ≤ INT32_MAX) : Makes mcpSlots (mcpWrite m) ⟨0, m.bigEndian, false⟩ ∅
    (fun _ st live => st.pos = mcpSize m ∧ live = ∅) fun _ _ _ => True := by
  have hroom : INT32_MAX ≤ fileRoom := by decide
  have hcount : ∀ r ∈ m.rooms, r.connectedIndices.length ≤ INT32_MAX := by
    intro r hr
    have hle : r.connectedIndices.length * 4 ≤ (m.rooms.map fun r => r.connectedIndices.length * 4).sum :=
      List.le_sum_of_mem (List.mem_map_of_mem hr)
    rw [mcpSize] at hsize
    omega
  rw [mcpSize] at hsize ⊢
  refine Makes.room _ fun _ => ?_
  refine Makes.i32 (by omega) (Makes.i32 (by omega) (Makes.i32 (by omega) (Makes.reserveI32 ((), none) rfl rfl (by simp)
    (by omega) ?_)))
  refine (makes_mcpIndices m.rooms _ (by omega)).seq fun offsets st live hst => ?_
  obtain ⟨rfl, rfl, hlen⟩ := hst
  have hrooms := length_mcpRooms m hlen
  refine Makes.position (Makes.check (by omega) (Makes.fillI32 ((), none) rfl (by simp) ?_))
  refine Makes.last (Makes.piece (delivers_each _ fun r hr => delivers_mcpWriteRoom (hcount r.1 (List.of_mem_zip hr).1) r.2)
    (by omega) ?_)
  exact Makes.done ⟨by rw [hrooms], by simp⟩ fun _ => by simp

end Writing

/-! ## Reading -/

section Reading

open BinaryReader

variable {be : Bool} {B : List UInt8}

/-- The indices of a room are read from where they were put. -/
theorem reads_mcpReadIndices {vs : List Int32} {offset : Int32} (hat : I32sAt be B vs offset) (hB : B.length < 2 ^ 31)
    {pos : Nat} (hpos : pos ≤ B.length) (long : Bool) (steps : List Nat) (flexible : Bool) :
    Reads (mcpReadIndices vs.length offset) ⟨B, pos, be, long, steps, flexible⟩ vs ⟨B, pos, be, long, steps, flexible⟩ := by
  have hlen := hat.length_le hB
  obtain ⟨q, hq, rfl, hheld⟩ := hat
  have hstart : q ≤ B.length := (Nat.le_add_right _ _).trans hheld.le
  rw [mcpReadIndices, int32_toInt_ofNat hq]
  have hin : Reads (stepIn q) ⟨B, pos, be, long, steps, flexible⟩ () ⟨B, q, be, long, pos :: steps, flexible⟩ :=
    reads_stepIn hstart
  have harray : Reads (readI32s vs.length) ⟨B, q, be, long, pos :: steps, flexible⟩ vs
      ⟨B, q + (i32sBytes be vs).length, be, long, pos :: steps, flexible⟩ := readsBack_i32s vs hlen _ rfl hheld
  exact reads_alloc _ fun _ => hin.bind (harray.bind ((reads_stepOut rfl hpos).bind (Reads.pure vs _)))

theorem reads_mcpReadRoom {r : McpRoom} {offset : Int32} (hat : I32sAt be B r.connectedIndices offset)
    (hB : B.length < 2 ^ 31) {pos : Nat} (hrec : Holds B pos (mcpRoomBytes be r offset)) (long : Bool) (steps : List Nat)
    (flexible : Bool) :
    Reads mcpReadRoom ⟨B, pos, be, long, steps, flexible⟩ r ⟨B, pos + 40, be, long, steps, flexible⟩ := by
  have hcount := int32_toInt_ofNat (hat.length_le hB)
  have hoffset : 0 ≤ offset.toInt := by
    obtain ⟨q, hq, rfl, -⟩ := hat
    rw [int32_toInt_ofNat hq]
    exact Int.natCast_nonneg q
  have hle := hrec.le
  rw [length_mcpRoomBytes] at hle
  unfold mcpRoomBytes at hrec
  simp only [holds_append, length_wordBytes, length_vec3Bytes] at hrec
  obtain ⟨hmap, hlocal, hindices, hoff, hmin, hmax⟩ := hrec
  refine Reads.u32 hmap (Reads.i32 hlocal (Reads.i32 hindices (Reads.i32 hoff (Reads.vec3 hmin (Reads.vec3 hmax ?_)))))
  refine Reads.check ⟨by rw [hcount]; exact Int.natCast_nonneg _, hoffset⟩ ?_
  rw [hcount, Int.toNat_natCast]
  refine Reads.given (v := r.connectedIndices) (n := 0) (fun _ => ?_) (fun h0 => ?_) (by rw [ite_self]; exact Reads.pure _ _)
  · exact reads_mcpReadIndices hat hB hle long steps flexible
  · have hlen : r.connectedIndices.length = 0 := by simpa using h0
    exact List.length_eq_zero_iff.1 hlen

variable {m : Mcp} {offsets : List Int32} {roomsPos : Nat}

theorem reads_mcpRead (himage : McpImage m offsets roomsPos B) (hB : B.length < 2 ^ 31) (hcount : m.rooms.length ≤ INT32_MAX)
    (flexible : Bool) :
    Reads mcpRead ⟨B, 0, true, false, [], flexible⟩ m ⟨B, 16, m.bigEndian, false, [], flexible⟩ := by
  have hroomCount := int32_toInt_ofNat hcount
  have hroomsPos := int32_toInt_ofNat himage.roomsPos_le
  have hstart := himage.roomsOffset.le
  rw [length_wordBytes] at hstart
  -- the first word is read in big-endian order, whatever the order of the file
  have hword : ∀ be : Bool, wordBytes true 4 (if be then (2 : Int32) else 0x2000000).toUInt32.toNat = wordBytes be 4 2 := by
    decide
  have hmagic := himage.magic
  rw [← hword] at hmagic
  have horder : ∀ be : Bool, decide ((if be then (2 : Int32) else 0x2000000) = 2) = be := by decide
  have hoption : ∀ be : Bool, (if be then (2 : Int32) else 0x2000000) ∈ [(2 : Int32), 0x2000000] := by decide
  refine reads_alloc _ fun _ => Reads.assertI32 hmagic (hoption _) (Reads.setBig ?_)
  rw [horder]
  refine Reads.i32 himage.unk04 (Reads.i32 himage.roomCount (Reads.i32 himage.roomsOffset (Reads.check (by omega) ?_)))
  simp only [hroomCount, hroomsPos, Int.toNat_natCast]
  refine Reads.room _ fun _ => ?_
  have hrooms : Reads (readEach mcpReadRoom m.rooms.length) ⟨B, roomsPos, m.bigEndian, false, [16], flexible⟩ m.rooms
      ⟨B, roomsPos + m.rooms.length * 40, m.bigEndian, false, [16], flexible⟩ := by
    refine reads_table 40 m.rooms fun i r hr => ?_
    obtain ⟨offset, hat, hrec⟩ := record_at himage.roomsAt (length_mcpRoomBytes m.bigEndian) himage.rooms i r hr
    exact reads_mcpReadRoom hat hB hrec false [16] flexible
  refine Reads.steppedIn rfl ((Nat.le_add_right _ _).trans himage.rooms.le) hstart hrooms ?_
  exact Reads.pure _ _

end Reading

/-! ## What comes back -/

/-- **Rooms that were written come back as they were**, in the byte order of the file; and where the allocator grants
    everything, they are written whenever the file is not too long. -/
theorem mcp_round_trips (m : Mcp) (heap heap' : Heap) (flexible : Bool) (hcalm : heap'.Calm) :
    (∀ out, (mcpWriteToMemory m heap).1 = .ok out → out.length < 2 ^ 31 →
      (mcpReadFromMemory flexible out heap').1 = .ok m) ∧
    (heap.Calm → mcpSize m < 2 ^ 31 → ∃ out, (mcpWriteToMemory m heap).1 = .ok out ∧ out.length = mcpSize m) := by
  constructor
  · intro out hwrite hsize
    unfold mcpWriteToMemory at hwrite
    split at hwrite
    · cases hwrite
    · next hcount =>
        obtain ⟨st, -, ⟨offsets, roomsPos, himage⟩, -, -⟩ := (puts_mcpWrite m).toMemory nofun hwrite
        obtain ⟨_, hrun, -⟩ := BinaryReader.onMemory_ok (reads_mcpRead himage hsize (Nat.not_lt.1 hcount) flexible) hcalm
        exact congrArg Prod.fst hrun
  · intro hheap hsize
    have hmax : INT32_MAX = 2 ^ 31 - 1 := rfl
    have hcount : ¬ INT32_MAX < m.rooms.length := by
      rw [mcpSize] at hsize
      omega
    obtain ⟨out, st, hrun, ⟨hst, -⟩, -, hlen⟩ :=
      (makes_mcpWrite (Nat.le_sub_one_of_lt hsize)).toMemory (fun _ _ h => h.2) hheap
    refine ⟨out, ?_, hlen.trans hst⟩
    rw [mcpWriteToMemory, if_neg hcount]
    exact hrun

/-- Two rooms of a big-endian file; only the second one is connected. -/
def mcpSample : Mcp :=
  let m := mcpAppendRoom (mcpAppendRoom mcpCreateEmpty)
  { m with
    bigEndian := true
    rooms := m.rooms.modify 1 fun r => mcpRoomAppendConnectedIndex (mcpRoomAppendConnectedIndex r 0) (-1) }

theorem mcpSample_round_trips : ∃ out, (mcpWriteToMemory mcpSample []).1 = .ok out ∧ out.length = 104 ∧
    (mcpReadFromMemory false out []).1 = .ok mcpSample := by
  obtain ⟨hback, hwrite⟩ := mcp_round_trips mcpSample [] [] false Heap.calm_nil
  obtain ⟨out, hout, hlen⟩ := hwrite Heap.calm_nil (by decide)
  have hsize : out.length = 104 := hlen.trans (by decide)
  exact ⟨out, hout, hsize, hback out hout (by rw [hsize]; decide)⟩

end SoulsFormats
