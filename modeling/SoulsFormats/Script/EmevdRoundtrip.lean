import SoulsFormats.Script.EmevdImage

set_option autoImplicit false

/-! # Event scripts round trip

An `EmevdFile` is read back as the script it was written from, if what the script stores as varints fits
their width. -/

namespace SoulsFormats

open Bytes Fallible BinaryReader

/-- The ids, indices and offsets fit the varint width of the format. -/
structure EmevdFits (emevd : Emevd) : Prop where
  ids : ∀ event ∈ emevd.events, VarintFits emevd.format.long event.id
  parameters : ∀ event ∈ emevd.events, ∀ parameter ∈ event.parameters,
    VarintFits emevd.format.long parameter.instructionIndex ∧
    VarintFits emevd.format.long parameter.targetStartByte ∧
    VarintFits emevd.format.long parameter.sourceStartByte
  linkedFiles : ∀ offset ∈ emevd.linkedFileOffsets, VarintFits emevd.format.long offset

/-- A reader of a file of the format. -/
structure EmevdCursor (format : EmevdFormat) (c : Cursor) : Prop where
  bigEndian : c.bigEndian = format.bigEndian
  varintLong : c.varintLong = format.long

variable {format : EmevdFormat} {c : Cursor}

theorem EmevdCursor.advance (h : EmevdCursor format c) (n : Nat) :
    EmevdCursor format (c.advance n) := ⟨h.bigEndian, h.varintLong⟩

theorem EmevdCursor.moved (h : EmevdCursor format c) (p : Nat) (steps : List Nat) :
    EmevdCursor format { c with pos := p, steps := steps } := ⟨h.bigEndian, h.varintLong⟩

/-! ## Fields -/

theorem parses_emevdVarint (hc : EmevdCursor format c) {v : Int64} (hv : VarintFits format.long v) :
    Parses readVarint c (emevdVarint format v) v := by
  have h := parses_varint_of_fits c (v := v) (by rwa [hc.varintLong])
  rwa [hc.varintLong, hc.bigEndian] at h

/-- Any varint is read as something. -/
theorem parses_emevdVarint_any (hc : EmevdCursor format c) (v : Int64) :
    ∃ u, Parses readVarint c (emevdVarint format v) u := by
  have h := parses_varint c v
  rw [hc.varintLong, hc.bigEndian] at h
  exact ⟨_, h⟩

theorem parses_emevdI32 (hc : EmevdCursor format c) (v : Int32) :
    Parses readI32 c (emevdI32 format v) v := by
  have h := parses_i32 c v
  rw [hc.bigEndian] at h
  exact h

theorem parses_emevdU32 (hc : EmevdCursor format c) (v : UInt32) :
    Parses readU32 c (emevdU32 format v) v := by
  have h := parses_u32 c v
  rw [hc.bigEndian] at h
  exact h

/-- What a field of `emevdReserveOffset` is read as. -/
def emevdOffsetValue (format : EmevdFormat) (padded : Bool) (offset : Int) : Int64 :=
  if format.before .bloodborne then (Int32.ofInt offset).toInt64
  else if padded then Int64.ofNat (Int32.ofInt offset).toUInt32.toNat
  else Int64.ofInt offset

theorem emevdOffsetValue_ofNat (format : EmevdFormat) (padded : Bool) {p : Nat} (hp : p < 2 ^ 31) :
    emevdOffsetValue format padded p = Int64.ofNat p := by
  have hint : (Int64.ofNat p).toInt = p := Int64.toInt_ofNat_of_lt (by omega)
  unfold emevdOffsetValue
  split
  · refine Int64.toInt_inj.1 ?_
    rw [Int32.toInt_toInt64, Int32.toInt_ofInt_of_le (by omega) (by omega), hint]
  · split
    · have hword : (Int32.ofInt (p : Int)).toUInt32.toNat = p := by
        rw [Int32.ofInt_eq_ofNat, Int32.toUInt32_ofNat', UInt32.toNat_ofNat']
        omega
      rw [hword]
    · exact Int64.ofInt_eq_ofNat

/-- Every way of storing an offset is the varint of what it is read as. -/
theorem emevdOffsetBytes_eq (format : EmevdFormat) (padded : Bool) (offset : Int) :
    emevdOffsetBytes format (format.before .bloodborne) padded offset
      = emevdVarint format (emevdOffsetValue format padded offset) := by
  have hwide : format.before .bloodborne = false → format.long = true ∧ format.bigEndian = false := by
    rcases format <;> decide
  have hnarrow : format.before .bloodborne = true → format.long = false := by
    rcases format <;> decide
  rcases hbefore : format.before .bloodborne with _ | _
  · obtain ⟨hlong, hbe⟩ := hwide hbefore
    rcases padded with _ | _
    · simp [emevdOffsetBytes, emevdSlotBytes, emevdSlotPad, emevdVarint, emevdOffsetValue, hbefore,
        hlong, hbe, BinaryWriter.scalarBytes]
    · have hlt := (Int32.ofInt offset).toUInt32.toNat_lt
      have hzero : (Int32.ofInt offset).toUInt32.toNat / 256 ^ 4 = 0 := Nat.div_eq_of_lt hlt
      have hword : (Int64.ofNat (Int32.ofInt offset).toUInt32.toNat).toUInt64.toNat
          = (Int32.ofInt offset).toUInt32.toNat := by
        rw [Int64.toUInt64_ofNat', UInt64.toNat_ofNat']
        omega
      have hsplit := wordBytes_false_add 4 4 (Int32.ofInt offset).toUInt32.toNat
      rw [hzero] at hsplit
      simp only [emevdOffsetBytes, emevdSlotBytes, emevdSlotPad, emevdVarint, emevdOffsetValue, hbefore,
        hlong, hbe, emevdI32, BinaryWriter.scalarBytes, Bool.false_or, Bool.false_eq_true, if_true,
        if_false, hword]
      exact hsplit.symm
  · have hlong := hnarrow hbefore
    simp [emevdOffsetBytes, emevdSlotBytes, emevdSlotPad, emevdVarint, emevdOffsetValue, hbefore,
      hlong, emevdI32, BinaryWriter.scalarBytes]

theorem varintFits_emevdOffsetValue (format : EmevdFormat) (padded : Bool) (offset : Int) :
    VarintFits format.long (emevdOffsetValue format padded offset) := by
  have hwide : format.before .bloodborne = false → format.long = true := by rcases format <;> decide
  rcases hbefore : format.before .bloodborne with _ | _
  · exact .inl (hwide hbefore)
  · refine .inr ?_
    rw [emevdOffsetValue, hbefore, if_pos rfl, Int32.toInt_toInt64]
    exact ⟨(Int32.ofInt offset).le_toInt, (Int32.ofInt offset).toInt_lt⟩

theorem parses_emevdOffset (hc : EmevdCursor format c) (padded : Bool) (offset : Int) :
    Parses readVarint c (emevdOffsetBytes format (format.before .bloodborne) padded offset)
      (emevdOffsetValue format padded offset) := by
  rw [emevdOffsetBytes_eq]
  exact parses_emevdVarint hc (varintFits_emevdOffsetValue format padded offset)

theorem reads_emevdI64ToSize {n : Nat} (hn : n < 2 ^ 31) (c : Cursor) :
    Reads (emevdI64ToSize (Int64.ofNat n)) c n c := by
  have hint : (Int64.ofNat n).toInt = n := Int64.toInt_ofNat_of_lt (by omega)
  have hcheck : (0 : Int64) ≤ Int64.ofNat n := by
    rw [Int64.le_iff_toInt_le, hint]
    exact Int.natCast_nonneg n
  have h : Reads (emevdI64ToSize (Int64.ofNat n)) c (Int64.ofNat n).toInt.toNat c :=
    (Reads.pure _ _).check hcheck
  rwa [hint] at h

/-! ## Records -/

theorem parses_emevdLayer (hc : EmevdCursor format c) (mask : UInt32) :
    Parses emevdLayerRead c (emevdLayerBytes format mask) mask := by
  have hfits : ∀ v : Int64, -2 ^ 31 ≤ v.toInt ∧ v.toInt < 2 ^ 31 → VarintFits format.long v :=
    fun v hv => .inr hv
  refine (parses_assert (parses_emevdI32 hc 2) (by decide)).bind ?_
  refine (parses_emevdU32 (hc.advance _) mask).bind ?_
  refine (parses_assert (parses_emevdVarint ((hc.advance _).advance _) (hfits 0 (by decide)))
    (by decide)).bind ?_
  refine (parses_assert (parses_emevdVarint (((hc.advance _).advance _).advance _)
    (hfits (-1) (by decide))) (by decide)).bind ?_
  exact (parses_assert (parses_emevdVarint ((((hc.advance _).advance _).advance _).advance _)
    (hfits 1 (by decide))) (by decide)).map fun _ => mask

theorem parses_emevdParameter (hc : EmevdCursor format c) {parameter : EmevdParameter}
    (hfits : VarintFits format.long parameter.instructionIndex ∧
      VarintFits format.long parameter.targetStartByte ∧
      VarintFits format.long parameter.sourceStartByte) :
    Parses emevdParameterRead c (emevdParameterBytes format parameter) parameter := by
  refine (parses_emevdVarint hc hfits.1).bind ?_
  refine (parses_emevdVarint (hc.advance _) hfits.2.1).bind ?_
  refine (parses_emevdVarint ((hc.advance _).advance _) hfits.2.2).bind ?_
  refine (parses_emevdI32 (((hc.advance _).advance _).advance _) _).bind ?_
  exact (parses_emevdI32 ((((hc.advance _).advance _).advance _).advance _) _).map fun v =>
    { parameter with unkId := v }

theorem parses_emevdLayerOffset (hc : EmevdCursor format c) {offset : Int}
    (hoffset : -2 ^ 31 ≤ offset ∧ offset < 2 ^ 31) :
    Parses (emevdReadLayerOffset format) c
      (emevdOffsetBytes format false (format.before .darkSouls3) offset) offset := by
  unfold emevdReadLayerOffset
  rcases hbefore : format.before .darkSouls3 with _ | _
  · have h := (parses_i64 c (Int64.ofInt offset)).map Int64.toInt
    rw [Int64.toInt_ofInt_of_le (by omega) (by omega)] at h
    simpa [emevdOffsetBytes, emevdSlotBytes, emevdSlotPad, BinaryWriter.scalarBytes, hc.bigEndian]
      using h
  · have h : Parses (do
        let layerOffset ← readI32
        let _ ← assertI32 [0]
        pure layerOffset.toInt) c (emevdI32 format (Int32.ofInt offset) ++ emevdI32 format 0)
        (Int32.ofInt offset).toInt := by
      refine (parses_emevdI32 hc _).bind ?_
      exact (parses_assert (parses_emevdI32 (hc.advance _) 0) (by decide)).map fun _ => _
    rw [Int32.toInt_ofInt_of_le (by omega) (by omega)] at h
    simpa [emevdOffsetBytes, emevdSlotBytes, emevdSlotPad] using h

/-! ## Instructions and events -/

/-- The offsets that the header leads to. -/
def Emevd.offsets (emevd : Emevd) (masks : List UInt32) : EmevdOffsets where
  events := emevd.eventsAt
  instructions := emevd.instrsAt
  layers := emevd.layersAt
  parameters := emevd.parametersAt masks
  linkedFiles := emevd.linkedFilesAt masks
  arguments := emevd.argumentsAt masks
  strings := emevd.stringsAt masks

section

variable {emevd : Emevd} {masks : List UInt32} {i j : Nat} {instr : EmevdInstruction}

theorem reads_emevdArgs (hfile : EmevdFile emevd masks c.mem) (hmem : c.mem.length ≤ INT32_MAX)
    (hpos : c.pos ≤ c.mem.length) (hinstr : (emevd.instrs i)[j]? = some instr) :
    Reads (emevdReadArgs (emevd.offsets masks) instr.argData.length
      (emevdOffsetValue emevd.format (emevd.format.before .sekiro)
        (emevdStart instr.argData.length (emevd.argsAt masks i j) (emevd.argumentsAt masks))))
      c instr.argData c := by
  have hdata := (hfile.arguments i j instr hinstr).2
  have hle := hdata.le
  have hbase : emevd.argumentsAt masks ≤ emevd.argsAt masks i j := le_emevdArgsEnd _ _
  have hmax : INT32_MAX = 2 ^ 31 - 1 := rfl
  unfold emevdReadArgs
  split
  next hsize =>
    refine reads_alloc c fun _ => ?_
    have hstart : emevdStart instr.argData.length (emevd.argsAt masks i j) (emevd.argumentsAt masks)
        = (emevd.argsAt masks i j - emevd.argumentsAt masks : Nat) := by
      rw [emevdStart, if_pos hsize]
      omega
    have hint : (Int64.ofNat (emevd.argsAt masks i j - emevd.argumentsAt masks)).toInt
        = (emevd.argsAt masks i j - emevd.argumentsAt masks : Nat) :=
      Int64.toInt_ofNat_of_lt (by omega)
    have hsum : (emevd.offsets masks).arguments
        + (emevd.argsAt masks i j - emevd.argumentsAt masks : Nat) = emevd.argsAt masks i j := by
      simp only [Emevd.offsets]
      omega
    rw [hstart, emevdOffsetValue_ofNat _ _ (by omega), hint]
    have hadd := reads_int64Add (a := (emevd.offsets masks).arguments)
      (b := (emevd.argsAt masks i j - emevd.argumentsAt masks : Nat)) (by omega) c
    rw [hsum] at hadd
    exact hadd.bind (reads_get_parses hdata hpos (parses_bytes _ _))
  next hsize =>
    rw [List.eq_nil_of_length_eq_zero (by omega : instr.argData.length = 0)]
    exact Reads.pure _ _

theorem reads_emevdLayer (hc : EmevdCursor emevd.format c) (hfile : EmevdFile emevd masks c.mem)
    (hmem : c.mem.length ≤ INT32_MAX) (hpos : c.pos ≤ c.mem.length) {layer : Option UInt32}
    {offset : Int} (hoffset : EmevdLayerOffset emevd masks layer offset) :
    Reads (emevdReadLayer (emevd.offsets masks) offset) c layer c := by
  have hmax : INT32_MAX = 2 ^ 31 - 1 := rfl
  unfold emevdReadLayer
  rcases layer with _ | mask
  · cases hoffset
    exact Reads.pure _ _
  · obtain ⟨l, hl, rfl⟩ := hoffset
    have hheld := hfile.layers l mask hl
    have hle := hheld.le
    have hbase : emevd.layersAt ≤ emevd.layerAt l := Nat.le_add_right _ _
    have hsum : (emevd.offsets masks).layers + ((emevd.layerAt l : Int) - emevd.layersAt)
        = emevd.layerAt l := by
      simp only [Emevd.offsets]
      omega
    have hadd := reads_int64Add (a := (emevd.offsets masks).layers)
      (b := (emevd.layerAt l : Int) - emevd.layersAt) (by omega) c
    rw [hsum] at hadd
    rw [if_pos (by omega)]
    exact hadd.bind ((reads_get_parses hheld hpos (parses_emevdLayer (hc.moved _ _) mask)).bind
      (Reads.pure _ _))

theorem EmevdFile.instruction {B : List UInt8} (hfile : EmevdFile emevd masks B)
    (hinstr : (emevd.instrs i)[j]? = some instr) :
    ∃ layer, EmevdLayerOffset emevd masks instr.layer layer ∧
      Holds B (emevd.instrAt i j) (emevdInstructionBytes emevd.format instr
        (emevdStart instr.argData.length (emevd.argsAt masks i j) (emevd.argumentsAt masks)) layer) := by
  obtain ⟨layer, hlayer, hslot⟩ := hfile.layerOffsets i j instr hinstr
  rcases hi : emevd.events[i]? with _ | event
  · rw [Emevd.instrs, hi] at hinstr
    simp at hinstr
  · have hwritten := (hfile.instrs i event hi).2 j instr (by rwa [Emevd.instrs, hi] at hinstr)
    exact ⟨layer, hlayer, hwritten _ _ (hfile.arguments i j instr hinstr).1 hslot⟩

theorem EmevdFile.instrAt_le {B : List UInt8} (hfile : EmevdFile emevd masks B)
    (hinstr : (emevd.instrs i)[j]? = some instr) :
    emevd.instrAt i j + (16 + 2 * emevd.format.width) ≤ B.length := by
  obtain ⟨layer, -, hrec⟩ := hfile.instruction hinstr
  have hle := hrec.le
  rwa [length_emevdInstructionBytes] at hle

theorem reads_emevdInstruction (hc : EmevdCursor emevd.format c) (hfile : EmevdFile emevd masks c.mem)
    (hmem : c.mem.length ≤ INT32_MAX) (hpos : c.pos = emevd.instrAt i j)
    (hinstr : (emevd.instrs i)[j]? = some instr) :
    Reads (emevdInstructionRead emevd.format (emevd.offsets masks)) c instr
      (c.advance (16 + 2 * emevd.format.width)) := by
  have hmax : INT32_MAX = 2 ^ 31 - 1 := rfl
  have hend : c.pos + (16 + 2 * emevd.format.width) ≤ c.mem.length ∧
      instr.argData.length < 2 ^ 31 := by
    have hle := hfile.instrAt_le hinstr
    have hdata := (hfile.arguments i j instr hinstr).2.le
    omega
  obtain ⟨layer, hlayer, hrec⟩ := hfile.instruction hinstr
  have hbounds : -2 ^ 31 ≤ layer ∧ layer < 2 ^ 31 := by
    generalize instr.layer = stored at hlayer
    rcases stored with _ | mask
    · cases hlayer
      decide
    · obtain ⟨l, hl, rfl⟩ := hlayer
      have hle := (hfile.layers l mask hl).le
      have hbase : emevd.layersAt ≤ emevd.layerAt l := Nat.le_add_right _ _
      omega
  rw [← hpos] at hrec
  refine (parses_emevdI32 hc instr.bank).then hrec fun hrec => ?_
  refine (parses_emevdI32 (hc.advance _) instr.id).then hrec fun hrec => ?_
  refine (parses_emevdVarint ((hc.advance _).advance _) (varintFits_ofNat hend.2 _)).then hrec
    fun hrec => ?_
  refine (parses_emevdOffset (((hc.advance _).advance _).advance _) _ _).then hrec fun hrec => ?_
  refine ((parses_emevdLayerOffset ((((hc.advance _).advance _).advance _).advance _) hbounds)
    hrec).bind ?_
  refine Reads.at (c.advance (16 + 2 * emevd.format.width)) ?_ ?_
  · simp only [Cursor.advance_advance, length_emevdI32, length_emevdVarint, length_emevdOffsetBytes,
      ← emevd.format.width_eq, Bool.false_eq_true, if_false]
    congr 1
    omega
  refine (reads_emevdI64ToSize hend.2 _).bind ?_
  refine (reads_emevdArgs (c := c.advance _) hfile hmem hend.1 hinstr).bind ?_
  refine (reads_emevdLayer (c := c.advance _) (hc.advance _) hfile hmem hend.1 hlayer).bind ?_
  exact Reads.pure _ _

theorem Emevd.instrs_eq {event : EmevdEvent} (h : emevd.events[i]? = some event) :
    emevd.instrs i = event.instructions := by
  rw [Emevd.instrs, h]
  rfl

theorem reads_emevdAllocArray {count elemSize : Nat} (hcount : count < 2 ^ 31)
    (hsize : 0 < elemSize ∧ elemSize ≤ 64) (c : Cursor) :
    Reads (emevdAllocArray count elemSize) c () c := by
  unfold emevdAllocArray
  split
  · exact Reads.pure _ _
  · refine Reads.check ?_ (reads_alloc c fun _ => Reads.pure _ _)
    have hmax : SIZE_MAX = 2 ^ 64 - 1 := rfl
    rw [Nat.le_div_iff_mul_le hsize.1]
    have h := Nat.mul_le_mul hcount.le hsize.2
    omega

theorem emevdStart_of_pos {n pos base : Nat} (hn : 0 < n) (hbase : base ≤ pos) :
    emevdStart n pos base = (pos - base : Nat) := by
  rw [emevdStart, if_pos hn]
  omega

theorem varintFits_emevdStart {n pos base : Nat} (hpos : 0 < n → pos < 2 ^ 31) (hbase : base ≤ pos)
    (long : Bool) : VarintFits long (Int64.ofInt (emevdStart n pos base)) := by
  rcases Nat.eq_zero_or_pos n with rfl | hn
  · refine .inr ?_
    rw [emevdStart, if_neg (lt_irrefl 0)]
    decide
  · have hlt := hpos hn
    rw [emevdStart_of_pos hn hbase, Int64.ofInt_eq_ofNat]
    exact varintFits_ofNat (by omega) long

/-- The entries of a section are read where its offset leads to. -/
theorem reads_emevdSection {α : Type} {read : ReadM α} {l : List α} {base start stop : Nat}
    {offset : Int64} (hpos : c.pos ≤ c.mem.length) (hbase : base ≤ start)
    (hstart : 0 < l.length → start < 2 ^ 31 ∧ start ≤ c.mem.length ∧
      offset = Int64.ofNat (start - base))
    (hread : Reads (readEach read l.length) { c with pos := start, steps := c.pos :: c.steps } l
      { c with pos := stop, steps := c.pos :: c.steps }) :
    Reads (emevdReadSection base offset l.length read) c l c := by
  unfold emevdReadSection
  split
  next hcount =>
    obtain ⟨hlt, hle, rfl⟩ := hstart hcount
    have hint : (Int64.ofNat (start - base)).toInt = (start - base : Nat) :=
      Int64.toInt_ofNat_of_lt (by omega)
    have hadd := reads_int64Add (a := (base : Int)) (b := (start - base : Nat)) (by omega) c
    have hsum : (base : Int) + (start - base : Nat) = start := by omega
    rw [hsum] at hadd
    rw [hint]
    exact hadd.bind (reads_get hle hpos hread)
  next hcount =>
    rw [List.eq_nil_of_length_eq_zero (by omega : l.length = 0)]
    exact Reads.pure _ _

theorem emevdRestBehaviorOf_value (r : EmevdRestBehavior) : emevdRestBehaviorOf r.value = r := by
  rcases r <;> rfl

theorem EmevdRestBehavior.value_mem (r : EmevdRestBehavior) : r.value ∈ [0, 1, 2] := by
  rcases r <;> decide

theorem EmevdFile.instructions_le {B : List UInt8} {event : EmevdEvent}
    (hfile : EmevdFile emevd masks B) (hi : emevd.events[i]? = some event) :
    (0 < event.instructions.length → emevd.instrAt i 0 ≤ B.length) ∧
      event.instructions.length ≤ B.length := by
  have hinstrs := Emevd.instrs_eq hi
  have hle : ∀ j < event.instructions.length,
      emevd.instrAt i j + (16 + 2 * emevd.format.width) ≤ B.length := by
    intro j hj
    have hget : (emevd.instrs i)[j]? = some event.instructions[j] := by
      rw [hinstrs, List.getElem?_eq_getElem hj]
    exact hfile.instrAt_le hget
  refine ⟨fun hn => by have := hle 0 hn; omega, ?_⟩
  rcases hn : event.instructions.length with _ | n
  · exact Nat.zero_le _
  · have h := hle n (by omega)
    have hmul : n ≤ (emevd.instrsBefore i + n) * (16 + 2 * emevd.format.width) :=
      (Nat.le_add_left _ _).trans (Nat.le_mul_of_pos_right _ (by omega))
    unfold Emevd.instrAt at h
    omega

theorem EmevdFile.parameters_le {B : List UInt8} {event : EmevdEvent}
    (hfile : EmevdFile emevd masks B) (hi : emevd.events[i]? = some event) :
    event.parameters.length ≤ B.length := by
  have hle := (hfile.parameters i event hi).2.le
  rw [length_flatMap_const _ fun parameter _ => length_emevdParameterBytes _ parameter] at hle
  have hmul : event.parameters.length ≤ event.parameters.length * (8 + 3 * emevd.format.width) :=
    Nat.le_mul_of_pos_right _ (by omega)
  omega

theorem reads_emevdInstructions {event : EmevdEvent} (hc : EmevdCursor emevd.format c)
    (hfile : EmevdFile emevd masks c.mem) (hmem : c.mem.length ≤ INT32_MAX)
    (hpos : c.pos ≤ c.mem.length) (hi : emevd.events[i]? = some event) :
    Reads (emevdReadSection (emevd.offsets masks).instructions
      (Int64.ofInt (emevdStart event.instructions.length (emevd.instrAt i 0) emevd.instrsAt))
      event.instructions.length (emevdInstructionRead emevd.format (emevd.offsets masks))) c
      event.instructions c := by
  have hmax : INT32_MAX = 2 ^ 31 - 1 := rfl
  have hinstrs := Emevd.instrs_eq hi
  have hbase : emevd.instrsAt ≤ emevd.instrAt i 0 := Nat.le_add_right _ _
  let c' : Cursor := { c with pos := emevd.instrAt i 0, steps := c.pos :: c.steps }
  have hread : Reads (readEach (emevdInstructionRead emevd.format (emevd.offsets masks))
      event.instructions.length) c' event.instructions
      (c'.advance (event.instructions.length * (16 + 2 * emevd.format.width))) := by
    refine reads_readEach event.instructions c' fun j instr hinstr => ?_
    rw [← hinstrs] at hinstr
    have hat : emevd.instrAt i 0 + j * (16 + 2 * emevd.format.width) = emevd.instrAt i j := by
      simp only [Emevd.instrAt, Nat.add_zero, Nat.add_mul, Nat.add_assoc]
    rw [Nat.succ_mul j, ← Cursor.advance_advance]
    exact reads_emevdInstruction ((hc.moved _ _).advance _) hfile hmem hat hinstr
  refine reads_emevdSection hpos hbase (fun hn => ?_) hread
  have hle := (hfile.instructions_le hi).1 hn
  exact ⟨by omega, hle, by rw [emevdStart_of_pos hn hbase, Int64.ofInt_eq_ofNat]⟩

theorem reads_emevdParameters {event : EmevdEvent} (hc : EmevdCursor emevd.format c)
    (hfits : EmevdFits emevd) (hfile : EmevdFile emevd masks c.mem)
    (hmem : c.mem.length ≤ INT32_MAX) (hpos : c.pos ≤ c.mem.length)
    (hi : emevd.events[i]? = some event) :
    Reads (emevdReadSection (emevd.offsets masks).parameters
      (emevdOffsetValue emevd.format (emevd.format.before .darkSouls3)
        (emevdStart event.parameters.length (emevd.paramAt masks i) (emevd.parametersAt masks)))
      event.parameters.length emevdParameterRead) c event.parameters c := by
  have hmax : INT32_MAX = 2 ^ 31 - 1 := rfl
  have hbase : emevd.parametersAt masks ≤ emevd.paramAt masks i := Nat.le_add_right _ _
  obtain ⟨-, hheld⟩ := hfile.parameters i event hi
  have hle := hheld.le
  have hread := parses_readEach_self (m := emevdParameterRead) (c := { c with
      pos := emevd.paramAt masks i, steps := c.pos :: c.steps }) event.parameters fun parameter hparameter c' hbe hlong =>
      parses_emevdParameter ⟨hbe.trans hc.bigEndian, hlong.trans hc.varintLong⟩
        (hfits.parameters event (List.mem_of_getElem? hi) parameter hparameter)
  refine reads_emevdSection hpos hbase (fun hn => ⟨by omega, by omega, ?_⟩) (hread hheld)
  rw [emevdStart_of_pos hn hbase, emevdOffsetValue_ofNat _ _ (by omega)]

theorem reads_emevdEvent {event : EmevdEvent} (hc : EmevdCursor emevd.format c)
    (hfits : EmevdFits emevd) (hfile : EmevdFile emevd masks c.mem)
    (hmem : c.mem.length ≤ INT32_MAX) (hpos : c.pos = emevd.eventAt i)
    (hi : emevd.events[i]? = some event) :
    Reads (emevdEventRead emevd.format (emevd.offsets masks)) c event
      (c.advance (5 * emevd.format.width + 8)) := by
  have hmax : INT32_MAX = 2 ^ 31 - 1 := rfl
  have hevent : event ∈ emevd.events := List.mem_of_getElem? hi
  have hinstrs : emevd.instrs i = event.instructions := Emevd.instrs_eq hi
  obtain ⟨hslot, -⟩ := hfile.instrs i event hi
  obtain ⟨hslot', hparams⟩ := hfile.parameters i event hi
  have hrec := hfile.events i event hi _ _ hslot hslot'
  have hend : c.pos + (5 * emevd.format.width + 8) ≤ c.mem.length := by
    have hle := hrec.le
    rwa [length_emevdEventBytes, ← hpos] at hle
  obtain ⟨hfirst, hcount⟩ := hfile.instructions_le hi
  have hcount' := hfile.parameters_le hi
  have hbase : emevd.instrsAt ≤ emevd.instrAt i 0 := Nat.le_add_right _ _
  have hbase' : emevd.parametersAt masks ≤ emevd.paramAt masks i := Nat.le_add_right _ _
  rw [← hpos] at hrec
  refine (parses_emevdVarint hc (hfits.ids event hevent)).then hrec fun hrec => ?_
  refine (parses_emevdVarint (hc.advance _) (varintFits_ofNat (by omega) _)).then hrec
    fun hrec => ?_
  refine (parses_emevdVarint ((hc.advance _).advance _) (varintFits_emevdStart (fun hn => ?_)
    hbase _)).then hrec fun hrec => ?_
  · have h := hfirst hn
    omega
  refine (parses_emevdVarint (((hc.advance _).advance _).advance _)
    (varintFits_ofNat (by omega) _)).then hrec fun hrec => ?_
  refine (parses_emevdOffset ((((hc.advance _).advance _).advance _).advance _) _ _).then hrec
    fun hrec => ?_
  refine (parses_enum (parses_emevdU32 (((((hc.advance _).advance _).advance _).advance _).advance _) _)
    event.restBehavior.value_mem).then hrec fun hrec => ?_
  refine Reads.bind (parses_assert (parses_emevdI32
    ((((((hc.advance _).advance _).advance _).advance _).advance _).advance _) 0) (by decide) hrec) ?_
  refine Reads.at (c.advance (5 * emevd.format.width + 8)) ?_ ?_
  · simp only [Cursor.advance_advance, length_emevdI32, length_emevdU32, length_emevdVarint,
      length_emevdOffsetBytes, ← emevd.format.width_eq]
    congr 1
    omega
  refine (reads_emevdI64ToSize (by omega) _).bind ?_
  refine (reads_emevdI64ToSize (by omega) _).bind ?_
  refine (reads_emevdAllocArray (by omega) (by decide) _).bind ?_
  refine (reads_emevdAllocArray (by omega) (by decide) _).bind ?_
  refine (reads_emevdInstructions (c := c.advance _) (hc.advance _) hfile hmem hend hi).bind ?_
  refine (reads_emevdParameters (c := c.advance _) (hc.advance _) hfits hfile hmem hend hi).bind ?_
  rw [emevdRestBehaviorOf_value]
  exact Reads.pure _ _

/-! ## The header -/

theorem emevdFormatOf_props (format : EmevdFormat) :
    emevdFormatOf (emevdWriteProps format).bigEndian (emevdWriteProps format).is64Bit
      (emevdWriteProps format).unk06 (emevdWriteProps format).unk07 (emevdWriteProps format).version
      = some format := by
  rcases format <;> rfl

/-- A reader in the header of the file, before its `k`-th varint. -/
def emevdHeaderCursor (format : EmevdFormat) (mem : List UInt8) (flexible : Bool) (k : Nat) : Cursor :=
  ⟨mem, 16 + k * format.width, format.bigEndian, format.long, [], flexible⟩

variable {mem : List UInt8} {flexible : Bool}

theorem emevdHeaderCursor_advance (k : Nat) :
    (emevdHeaderCursor format mem flexible k).advance format.width
      = emevdHeaderCursor format mem flexible (k + 1) := by
  simp only [emevdHeaderCursor, Cursor.advance, Nat.succ_mul, Nat.add_assoc]

theorem reads_emevdField {k : Nat} {v : Int64} (hheld : EmevdField emevd mem k v)
    (hv : VarintFits emevd.format.long v) :
    Reads readVarint (emevdHeaderCursor emevd.format mem flexible k) v
      (emevdHeaderCursor emevd.format mem flexible (k + 1)) := by
  have h := parses_emevdVarint (c := emevdHeaderCursor emevd.format mem flexible k) ⟨rfl, rfl⟩ hv hheld
  rwa [length_emevdVarint, emevdHeaderCursor_advance] at h

theorem reads_emevdField_any (flexible : Bool) {k : Nat} {v : Int64} (hheld : EmevdField emevd mem k v) :
    ∃ u, Reads readVarint (emevdHeaderCursor emevd.format mem flexible k) u
      (emevdHeaderCursor emevd.format mem flexible (k + 1)) := by
  obtain ⟨u, hu⟩ := parses_emevdVarint_any (c := emevdHeaderCursor emevd.format mem flexible k)
    ⟨rfl, rfl⟩ v
  have h := hu hheld
  rw [length_emevdVarint, emevdHeaderCursor_advance] at h
  exact ⟨u, h⟩

def emevdHeaderOf (emevd : Emevd) (masks : List UInt32) : EmevdHeader where
  format := emevd.format
  bigEndian := emevd.format.bigEndian
  is64Bit := emevd.format.long
  offsets := emevd.offsets masks
  eventCount := Int64.ofNat emevd.events.length
  linkedFileCount := Int64.ofNat emevd.linkedFileOffsets.length
  stringDataSize := Int64.ofNat emevd.stringData.length

theorem reads_emevdShort
    (hheld : emevd.format.long = false →
      Holds mem (16 + 16 * emevd.format.width) (emevdI32 emevd.format 0)) :
    Reads (emevdReadOffsets.assertShort emevd.format.long)
      (emevdHeaderCursor emevd.format mem flexible 16) ()
      ⟨mem, emevd.eventsAt, emevd.format.bigEndian, emevd.format.long, [], flexible⟩ := by
  unfold emevdReadOffsets.assertShort
  by_cases hlong : emevd.format.long = true
  · rw [if_pos hlong]
    refine Reads.at _ ?_ (Reads.pure _ _)
    simp [emevdHeaderCursor, Emevd.eventsAt, hlong]
  · rw [if_neg hlong]
    have hc : EmevdCursor emevd.format (emevdHeaderCursor emevd.format mem flexible 16) := ⟨rfl, rfl⟩
    have h : Parses (assertI32 [0]) _ _ _ := parses_assert (parses_emevdI32 hc 0) (by decide)
    refine (h (hheld (by simpa using hlong))).bind (Reads.at _ ?_ (Reads.pure _ _))
    simp [emevdHeaderCursor, Emevd.eventsAt, hlong, Cursor.advance]

theorem reads_emevdOffsets (hfile : EmevdFile emevd masks mem) (hlen : mem.length = emevd.fileEnd masks) :
    Reads (emevdReadOffsets emevd.format emevd.format.bigEndian emevd.format.long)
      (emevdHeaderCursor emevd.format mem flexible 0) (emevdHeaderOf emevd masks)
      ⟨mem, emevd.eventsAt, emevd.format.bigEndian, emevd.format.long, [], flexible⟩ := by
  have hshort := hfile.short
  have hmax : INT32_MAX = 2 ^ 31 - 1 := rfl
  have hat : ∀ {k p}, EmevdField emevd mem k (Int64.ofNat p) → p < 2 ^ 31 →
      Reads readVarint (emevdHeaderCursor emevd.format mem flexible k) (Int64.ofNat p)
        (emevdHeaderCursor emevd.format mem flexible (k + 1)) :=
    fun hheld hp => reads_emevdField hheld (varintFits_ofNat hp _)
  have hheader := hfile.header
  obtain ⟨u2, hu2⟩ := reads_emevdField_any flexible hheader.instructionCount
  obtain ⟨u5, hu5⟩ := reads_emevdField_any flexible hfile.offset3
  obtain ⟨u6, hu6⟩ := reads_emevdField_any flexible hheader.layerCount
  obtain ⟨u8, hu8⟩ := reads_emevdField_any flexible hheader.parameterCount
  obtain ⟨v12, h12⟩ := hfile.argumentsLength
  obtain ⟨u12, hu12⟩ := reads_emevdField_any flexible h12
  have horder := emevd.starts_le masks
  have hzero : Reads (assertVarint [0]) (emevdHeaderCursor emevd.format mem flexible 4) 0
      (emevdHeaderCursor emevd.format mem flexible 5) := by
    have h : Parses (assertVarint [0]) _ _ _ := parses_assert (parses_emevdVarint
      (c := emevdHeaderCursor emevd.format mem flexible 4) ⟨rfl, rfl⟩ (v := 0) (.inr (by decide)))
      (by decide)
    have hread := h hheader.zero
    rwa [length_emevdVarint, emevdHeaderCursor_advance] at hread
  refine (hat hheader.eventCount (by omega)).bind ?_
  refine (hat hfile.eventsAt (by omega)).bind ?_
  refine hu2.bind ?_
  refine (hat hfile.instrsAt (by omega)).bind ?_
  refine hzero.bind ?_
  refine hu5.bind ?_
  refine hu6.bind ?_
  refine (hat hfile.layersAt (by omega)).bind ?_
  refine hu8.bind ?_
  refine (hat hfile.parametersAt (by omega)).bind ?_
  refine (hat hheader.linkedFileCount (by omega)).bind ?_
  refine (hat hfile.linkedFilesAt (by omega)).bind ?_
  refine hu12.bind ?_
  refine (hat hfile.argumentsAt (by omega)).bind ?_
  refine (hat hheader.stringDataSize (by omega)).bind ?_
  refine (hat hfile.stringsAt (by omega)).bind ?_
  have hint : ∀ {p : Nat}, p < 2 ^ 31 → (Int64.ofNat p).toInt = p := fun hp =>
    Int64.toInt_ofNat_of_lt (by omega)
  rw [hint (by omega : emevd.eventsAt < _), hint (by omega : emevd.instrsAt < _),
    hint (by omega : emevd.layersAt < _), hint (by omega : emevd.parametersAt masks < _),
    hint (by omega : emevd.linkedFilesAt masks < _), hint (by omega : emevd.argumentsAt masks < _),
    hint (by omega : emevd.stringsAt masks < _)]
  refine Reads.bind (reads_emevdShort hheader.short) ?_
  exact Reads.pure _ _

theorem reads_emevdHeader (hfile : EmevdFile emevd masks mem)
    (hlen : mem.length = emevd.fileEnd masks) :
    Reads emevdReadHeader ⟨mem, 0, false, false, [], flexible⟩ (emevdHeaderOf emevd masks)
      ⟨mem, emevd.eventsAt, emevd.format.bigEndian, emevd.format.long, [], flexible⟩ := by
  have hhead := hfile.header.head
  simp only [emevdHead, holds_append] at hhead
  obtain ⟨⟨⟨⟨⟨hmagic, hbe⟩, h64⟩, hu6⟩, hu7⟩, hversion⟩ := hhead
  unfold emevdReadHeader
  refine Reads.bind (parses_bytes _ [0x45, 0x56, 0x44, 0] hmagic) ?_
  refine Reads.check rfl ?_
  refine (parses_bool _ _ hbe).bind ?_
  refine (parses_assert (parses_i8 _ _) ?_ h64).bind ?_
  · split <;> decide
  refine (parses_bool _ _ hu6).bind ?_
  refine (parses_assert (parses_i8 _ _) ?_ hu7).bind ?_
  · split <;> decide
  have hflag : ∀ b : Bool, decide ((if b then -1 else 0 : Int8) = -1) = b := by decide
  rw [hflag, hflag]
  refine (Reads.setBigEndian _ _).bind ((Reads.setVarintLong _ _).bind ?_)
  let c8 : Cursor := ⟨mem, 8, emevd.format.bigEndian, emevd.format.long, [], flexible⟩
  have hc : EmevdCursor emevd.format c8 := ⟨rfl, rfl⟩
  have hmember : (emevdWriteProps emevd.format).version ∈ [0xCC, 0xCD] := by
    rcases emevd.format <;> decide
  refine Reads.at c8 rfl ?_
  refine Reads.bind (parses_assert (parses_emevdI32 hc _) hmember hversion) ?_
  refine Reads.at (c8.advance 4) (congrArg c8.advance (length_emevdI32 _ _)) ?_
  refine Reads.bind (parses_emevdI32 (hc.advance 4) _ hfile.fileSize) ?_
  rw [emevdFormatOf_props]
  refine Reads.at (emevdHeaderCursor emevd.format mem flexible 0) ?_ (reads_emevdOffsets hfile hlen)
  rw [emevdHeaderCursor, Nat.zero_mul, length_emevdI32]
  rfl

/-! ## The file -/

theorem reads_emevdEvents (hfits : EmevdFits emevd) (hfile : EmevdFile emevd masks c.mem)
    (hc : EmevdCursor emevd.format c) (hlen : c.mem.length = emevd.fileEnd masks)
    (hpos : c.pos ≤ c.mem.length) :
    Reads (emevdReadEvents (emevdHeaderOf emevd masks) emevd.events.length) c emevd.events c := by
  have hshort := hfile.short
  have hmax : INT32_MAX = 2 ^ 31 - 1 := rfl
  have horder := emevd.starts_le masks
  unfold emevdReadEvents
  split
  next hcount =>
    refine (reads_emevdAllocArray (by omega) (by decide) _).bind ?_
    let c' : Cursor := { c with pos := emevd.eventsAt, steps := c.pos :: c.steps }
    have hread : Reads (readEach (emevdEventRead emevd.format (emevd.offsets masks))
        emevd.events.length) c' emevd.events
        (c'.advance (emevd.events.length * (5 * emevd.format.width + 8))) := by
      refine reads_readEach emevd.events c' fun i event hi => ?_
      rw [Nat.succ_mul i, ← Cursor.advance_advance]
      exact reads_emevdEvent ((hc.moved _ _).advance _) hfits hfile (hlen.le.trans hshort) rfl hi
    exact reads_get (by omega) hpos hread
  next hcount =>
    rw [List.eq_nil_of_length_eq_zero (by omega : emevd.events.length = 0)]
    exact Reads.pure _ _

theorem reads_emevdLinkedFiles (hfits : EmevdFits emevd) (hfile : EmevdFile emevd masks c.mem)
    (hc : EmevdCursor emevd.format c) (hlen : c.mem.length = emevd.fileEnd masks)
    (hpos : c.pos ≤ c.mem.length) :
    Reads (emevdReadLinkedFiles (emevdHeaderOf emevd masks) emevd.linkedFileOffsets.length) c
      emevd.linkedFileOffsets c := by
  have hshort := hfile.short
  have hmax : INT32_MAX = 2 ^ 31 - 1 := rfl
  have horder := emevd.starts_le masks
  unfold emevdReadLinkedFiles
  split
  next hcount =>
    refine (reads_emevdAllocArray (by omega) (by decide) _).bind ?_
    have hread := parses_readEach_self (m := readVarint) (c := { c with
        pos := emevd.linkedFilesAt masks, steps := c.pos :: c.steps })
      emevd.linkedFileOffsets fun offset hoffset c' hbe hlong =>
        parses_emevdVarint ⟨hbe.trans hc.bigEndian, hlong.trans hc.varintLong⟩
          (hfits.linkedFiles offset hoffset)
    exact reads_get_parses hfile.linkedFiles hpos hread
  next hcount =>
    rw [List.eq_nil_of_length_eq_zero (by omega : emevd.linkedFileOffsets.length = 0)]
    exact Reads.pure _ _

theorem reads_emevdStrings (hfile : EmevdFile emevd masks c.mem) (hpos : c.pos ≤ c.mem.length) :
    Reads (emevdReadStrings (emevdHeaderOf emevd masks) emevd.stringData.length) c
      emevd.stringData c := by
  unfold emevdReadStrings
  split
  next hcount =>
    exact reads_alloc c fun _ => reads_get_parses hfile.strings hpos (parses_bytes _ _)
  next hcount =>
    rw [List.eq_nil_of_length_eq_zero (by omega : emevd.stringData.length = 0)]
    exact Reads.pure _ _

theorem reads_emevd (flexible : Bool) (hfits : EmevdFits emevd) (hfile : EmevdFile emevd masks mem)
    (hlen : mem.length = emevd.fileEnd masks) :
    Reads emevdRead ⟨mem, 0, false, false, [], flexible⟩
      { emevd with bigEndian := emevd.format.bigEndian, is64Bit := emevd.format.long }
      ⟨mem, emevd.eventsAt, emevd.format.bigEndian, emevd.format.long, [], flexible⟩ := by
  have hshort := hfile.short
  have hmax : INT32_MAX = 2 ^ 31 - 1 := rfl
  have horder := emevd.starts_le masks
  let c : Cursor := ⟨mem, emevd.eventsAt, emevd.format.bigEndian, emevd.format.long, [], flexible⟩
  have hc : EmevdCursor emevd.format c := ⟨rfl, rfl⟩
  have hpos : c.pos ≤ c.mem.length := by
    show emevd.eventsAt ≤ mem.length
    omega
  refine reads_alloc _ fun _ => ?_
  refine (reads_emevdHeader hfile hlen).bind ?_
  refine (reads_emevdI64ToSize (by omega) _).bind ?_
  refine (reads_emevdI64ToSize (by omega) _).bind ?_
  refine (reads_emevdI64ToSize (by omega) _).bind ?_
  refine (reads_emevdEvents (c := c) hfits hfile hc hlen hpos).bind ?_
  refine (reads_emevdLinkedFiles (c := c) hfits hfile hc hlen hpos).bind ?_
  refine (reads_emevdStrings (c := c) hfile hpos).bind ?_
  exact Reads.pure _ _

end

/-- **EMEVD round trip.** What is written from a script whose ids, indices and offsets fit the width of
    its format is read back with the same format, events, linked files and strings. -/
theorem emevd_is_read_back (flexible : Bool) (emevd : Emevd) (hfits : EmevdFits emevd)
    (heap heap' : Heap) (hcalm : heap'.Calm) (out : List UInt8)
    (hok : (emevdWriteToMemory emevd heap).1 = .ok out) :
    ∃ emevd', (emevdReadFromMemory flexible out heap').1 = .ok emevd' ∧
      emevd'.format = emevd.format ∧ emevd'.events = emevd.events ∧
      emevd'.linkedFileOffsets = emevd.linkedFileOffsets ∧ emevd'.stringData = emevd.stringData := by
  obtain ⟨hfile, hlen⟩ := emevdWriteToMemory_ok hok
  obtain ⟨heap2, hrun, -⟩ := onMemory_ok (reads_emevd flexible hfits hfile hlen) hcalm
  exact ⟨_, congrArg Prod.fst hrun, rfl, rfl, rfl, rfl⟩

/-- Two events, which share a layer; the second has a parameter. -/
def emevdSample : Emevd :=
  { format := .darkSouls3, bigEndian := false, is64Bit := true
    events := [⟨50, .restart, [⟨2000, 0, [1, 0, 0, 0, 7], some 3⟩, ⟨3, 24, [], none⟩], []⟩,
      ⟨-1, .finish, [⟨2, 1, [9], some 3⟩], [⟨0, 1, 2, 4, 0⟩]⟩]
    linkedFileOffsets := [0, -5], stringData := [65, 0] }

def emevdSampleBytes : List UInt8 :=
  (emevdWriteToMemory emevdSample []).1.toOption.getD []

theorem emevd_sample_is_read_back :
    ∃ emevd', (emevdReadFromMemory false emevdSampleBytes []).1 = .ok emevd' ∧
      emevd'.format = emevdSample.format ∧ emevd'.events = emevdSample.events ∧
      emevd'.linkedFileOffsets = emevdSample.linkedFileOffsets ∧
      emevd'.stringData = emevdSample.stringData :=
  emevd_is_read_back false emevdSample
    ⟨fun _ _ => .inl rfl, fun _ _ _ _ => ⟨.inl rfl, .inl rfl, .inl rfl⟩, fun _ _ => .inl rfl⟩ [] []
    Heap.calm_nil emevdSampleBytes (by decide +kernel)

end SoulsFormats
