import SoulsFormats.Script.EmevdSlots

set_option autoImplicit false

/-! # What the file of an event script holds

The writer goes through the file section by section. Altogether a file that is written is an `EmevdFile`. -/

namespace SoulsFormats

open Bytes Fallible BinaryWriter

/-! ## Fields -/

def emevdStand (format : EmevdFormat) (pos : Nat) : Stand := ⟨pos, format.bigEndian, format.long⟩

def emevdVarint (format : EmevdFormat) (v : Int64) : List UInt8 :=
  scalarBytes format.bigEndian format.long .varint v

def emevdI32 (format : EmevdFormat) (v : Int32) : List UInt8 :=
  scalarBytes format.bigEndian format.long .i32 v

def emevdU32 (format : EmevdFormat) (v : UInt32) : List UInt8 :=
  scalarBytes format.bigEndian format.long .u32 v

@[simp] theorem length_emevdVarint (format : EmevdFormat) (v : Int64) :
    (emevdVarint format v).length = format.width := length_scalarBytes ..

@[simp] theorem length_emevdI32 (format : EmevdFormat) (v : Int32) :
    (emevdI32 format v).length = 4 := length_scalarBytes ..

@[simp] theorem length_emevdU32 (format : EmevdFormat) (v : UInt32) :
    (emevdU32 format v).length = 4 := length_scalarBytes ..

/-- Only the formats before Bloodborne are narrow. -/
theorem EmevdFormat.width_eq (format : EmevdFormat) :
    format.width = if format.before .bloodborne then 4 else 8 := by
  rcases format <;> rfl

variable {α : Type} {S : FileSlots EmevdSlot} {st : Stand} {Q : α → Stand → Prop} {G : α → Stand → List UInt8 → Prop}

theorem puts_emevdName {size : Nat} {name : List UInt8} {f : List UInt8 → WriteM α}
    (hf : Puts S (f name) st Q G) : Puts S (emevdName size name >>= f) st Q G := by
  rw [emevdName, bind_assoc]
  exact Puts.check fun _ => hf

/-! ## Offsets of four or eight bytes -/

variable {format : EmevdFormat} {narrow padded : Bool} {name : List UInt8} {s : EmevdSlot} {pos : Nat}
  {f : Unit → WriteM α}

/-- What fills a slot of four or eight bytes. -/
def emevdSlotBytes (format : EmevdFormat) (narrow : Bool) (offset : Int) : List UInt8 :=
  if narrow then emevdI32 format (Int32.ofInt offset)
  else scalarBytes format.bigEndian format.long .i64 (Int64.ofInt offset)

/-- The zeros behind a padded slot. -/
def emevdSlotPad (format : EmevdFormat) (narrow padded : Bool) : List UInt8 :=
  if narrow then [] else if padded then emevdI32 format 0 else []

/-- The field that `emevdReserveOffset` makes room for. -/
def emevdOffsetBytes (format : EmevdFormat) (narrow padded : Bool) (offset : Int) : List UInt8 :=
  emevdSlotBytes format (narrow || padded) offset ++ emevdSlotPad format narrow padded

theorem length_emevdSlotBytes (offset : Int) :
    (emevdSlotBytes format narrow offset).length = if narrow then 4 else 8 := by
  unfold emevdSlotBytes
  split
  · exact length_emevdI32 _ _
  · exact length_scalarBytes ..

@[simp] theorem length_emevdOffsetBytes (offset : Int) :
    (emevdOffsetBytes format narrow padded offset).length = if narrow then 4 else 8 := by
  rw [emevdOffsetBytes, List.length_append, length_emevdSlotBytes, emevdSlotPad]
  rcases narrow <;> rcases padded <;> simp

theorem holds_emevdOffsetBytes {B : List UInt8} {p : Nat} {offset : Int}
    (hslot : Holds B p (emevdSlotBytes format (narrow || padded) offset))
    (hpad : p + 4 ≤ B.length → Holds B (p + 4) (emevdSlotPad format narrow padded)) :
    Holds B p (emevdOffsetBytes format narrow padded offset) := by
  have hle := hslot.le
  rw [emevdOffsetBytes, holds_append]
  refine ⟨hslot, ?_⟩
  rw [length_emevdSlotBytes] at hle ⊢
  rcases narrow with _ | _
  · rcases padded with _ | _
    · exact holds_nil.2 hle
    · exact hpad hle
  · exact hpad hle

theorem puts_emevdReserveOffset (hs : S.key s = (name, emevdOffsetKind (narrow || padded))) (haddr : S.addr s = pos)
    (hf : Puts S (f ()) (emevdStand format (pos + if narrow then 4 else 8)) Q fun u st B =>
      (pos + 4 ≤ B.length → Holds B (pos + 4) (emevdSlotPad format narrow padded)) → G u st B) :
    Puts S (emevdReserveOffset narrow padded name >>= f) (emevdStand format pos) Q G := by
  unfold emevdReserveOffset
  rcases narrow with _ | _
  · rcases padded with _ | _
    · exact Puts.reserve (k := .i64) s hs haddr (hf.mono fun _ _ _ B hG => hG fun hle => holds_nil.2 hle)
    · simp only [Bool.false_eq_true, if_false, if_true, bind_assoc]
      exact Puts.reserve (k := .i32) s hs haddr (Puts.scalar .i32 (hf.mono fun _ _ _ B hG hB => hG fun _ => hB))
  · exact Puts.reserve (k := .i32) s hs haddr (hf.mono fun _ _ _ B hG => hG fun hle => holds_nil.2 hle)

theorem puts_emevdFillOffset {offset : Int} (hs : S.key s = (name, emevdOffsetKind narrow))
    (hf : Puts S (f ()) (emevdStand format pos) Q fun u st B =>
      Holds B (S.addr s) (emevdSlotBytes format narrow offset) ∧
        (narrow = true → -2 ^ 31 ≤ offset ∧ offset < 2 ^ 31) → G u st B) :
    Puts S (emevdFillOffset narrow name offset >>= f) (emevdStand format pos) Q G := by
  unfold emevdFillOffset
  rcases narrow with _ | _
  · exact Puts.fill (k := .i64) s hs (hf.mono fun _ _ _ B hG hB => hG ⟨hB, nofun⟩)
  · simp only [if_true, bind_assoc]
    refine Puts.check fun hfits => ?_
    exact Puts.fill (k := .i32) s hs (hf.mono fun _ _ _ B hG hB => hG ⟨hB, fun _ => hfits⟩)

/-! ## The header -/

def emevdHead (format : EmevdFormat) : List UInt8 :=
  let props := emevdWriteProps format
  [0x45, 0x56, 0x44, 0] ++ [if props.bigEndian then 1 else 0]
    ++ [(if props.is64Bit then -1 else 0 : Int8).toUInt8] ++ [if props.unk06 then 1 else 0]
    ++ [(if props.unk07 then -1 else 0 : Int8).toUInt8] ++ emevdI32 format props.version

/-- The header's field of the given number, counted in varints, is `v`. -/
def EmevdField (emevd : Emevd) (B : List UInt8) (k : Nat) (v : Int64) : Prop :=
  Holds B (16 + k * emevd.format.width) (emevdVarint emevd.format v)

/-- What the header holds besides the slots. -/
structure EmevdHeaderAt (emevd : Emevd) (masks : List UInt32) (B : List UInt8) : Prop where
  head : Holds B 0 (emevdHead emevd.format)
  eventCount : EmevdField emevd B 0 (Int64.ofNat emevd.events.length)
  instructionCount : EmevdField emevd B 2 (Int64.ofNat (emevd.instrsBefore emevd.events.length))
  zero : EmevdField emevd B 4 0
  layerCount : EmevdField emevd B 6 (Int64.ofNat masks.length)
  parameterCount : EmevdField emevd B 8 (Int64.ofNat (emevd.paramsBefore emevd.events.length))
  linkedFileCount : EmevdField emevd B 10 (Int64.ofNat emevd.linkedFileOffsets.length)
  stringDataSize : EmevdField emevd B 14 (Int64.ofNat emevd.stringData.length)
  short : emevd.format.long = false → Holds B (16 + 16 * emevd.format.width) (emevdI32 emevd.format 0)

theorem puts_emevdCountToI64 {count : Nat} {f : Int64 → WriteM α} (hf : Puts S (f (Int64.ofNat count)) st Q G) :
    Puts S (emevdCountToI64 count >>= f) st Q G := by
  rw [emevdCountToI64, bind_assoc]
  exact Puts.check fun _ => hf

theorem lays_emevdTotalCount {count : EmevdEvent → Nat} (events : List EmevdEvent) (total : Nat) (st : Stand) :
    Lays S (emevdTotalCount count events total) st (Int64.ofNat (total + (events.map count).sum)) st fun _ => True := by
  induction events generalizing total with
  | nil => exact Puts.check fun _ => Puts.done ⟨rfl, rfl⟩ fun _ => trivial
  | cons event events ih =>
      refine Puts.check fun _ => ?_
      rw [List.map_cons, List.sum_cons, ← Nat.add_assoc]
      exact ih _

section

variable {emevd : Emevd} {k : Nat}

theorem puts_emevdField {v : Int64} (hpos : pos = 16 + k * emevd.format.width)
    (hf : Puts (emevdSlots emevd) (f ()) (emevdStand emevd.format (16 + (k + 1) * emevd.format.width)) Q
      fun u st B => EmevdField emevd B k v → G u st B) :
    Puts (emevdSlots emevd) (writeVarint v >>= f) (emevdStand emevd.format pos) Q G := by
  rw [Nat.succ_mul, ← Nat.add_assoc, ← hpos] at hf
  refine Puts.scalar .varint (hf.mono fun _ _ _ B hG hheld => hG ?_)
  rwa [EmevdField, ← hpos]

theorem puts_emevdHeaderSlot {s : EmevdHeaderSlot} (hslot : s ≠ .fileSize) (hk : s.index = k)
    (hpos : pos = 16 + k * emevd.format.width)
    (hf : Puts (emevdSlots emevd) (f ()) (emevdStand emevd.format (16 + (k + 1) * emevd.format.width)) Q G) :
    Puts (emevdSlots emevd) (reserveVarint (cstr s.name) >>= f) (emevdStand emevd.format pos) Q G := by
  have hkey : emevdKey emevd.format (.header s)
      = (cstr s.name, scalarKind emevd.format.long .varint) := by
    rcases s <;> first | rfl | exact absurd rfl hslot
  have haddr : EmevdSlot.addr emevd (.header s) = pos := by
    subst hk
    rcases s <;> first | exact hpos.symm | exact absurd rfl hslot
  rw [Nat.succ_mul, ← Nat.add_assoc, ← hpos] at hf
  exact Puts.reserve (k := .varint) (.header s) hkey haddr hf

end

theorem lays_emevdWriteShort (format : EmevdFormat) (pos : Nat) :
    Lays S (emevdWriteHeader.writeShort format.long) (emevdStand format pos) ()
      (emevdStand format (pos + if format.long then 0 else 4))
      fun B => format.long = false → Holds B pos (emevdI32 format 0) := by
  unfold emevdWriteHeader.writeShort
  by_cases hlong : format.long = true
  · rw [if_pos hlong, if_pos hlong]
    exact .done ⟨rfl, rfl⟩ fun B hnarrow => by simp [hlong] at hnarrow
  · rw [if_neg hlong, if_neg hlong]
    exact .last (.scalar .i32 (.done ⟨rfl, rfl⟩ fun B hB _ => hB))

theorem lays_emevdWriteHeader (emevd : Emevd) (masks : List UInt32) :
    Lays (emevdSlots emevd) (emevdWriteHeader emevd masks.length) ⟨0, false, false⟩ ()
      (emevdStand emevd.format emevd.eventsAt) (EmevdHeaderAt emevd masks) := by
  unfold emevdWriteHeader
  refine puts_emevdCountToI64 ?_
  refine (lays_emevdTotalCount _ _ _).seq ?_
  refine (lays_emevdTotalCount _ _ _).seq ?_
  refine puts_emevdCountToI64 ?_
  refine puts_emevdCountToI64 ?_
  refine puts_emevdCountToI64 ?_
  refine .bytes ?_
  refine .scalar .bool ?_
  refine .scalar .i8 ?_
  refine .scalar .bool ?_
  refine .scalar .i8 ?_
  refine .setBigEndian ?_
  refine .setVarintLong ?_
  refine .scalar .i32 ?_
  refine .reserve (k := .i32) (.header .fileSize) rfl rfl ?_
  refine puts_emevdField (k := 0) (by rw [Nat.zero_mul]; rfl) ?_
  refine puts_emevdHeaderSlot (s := .events) nofun rfl rfl ?_
  refine puts_emevdField rfl ?_
  refine puts_emevdHeaderSlot (s := .instructions) nofun rfl rfl ?_
  refine puts_emevdField rfl ?_
  refine puts_emevdHeaderSlot (s := .offset3) nofun rfl rfl ?_
  refine puts_emevdField rfl ?_
  refine puts_emevdHeaderSlot (s := .layers) nofun rfl rfl ?_
  refine puts_emevdField rfl ?_
  refine puts_emevdHeaderSlot (s := .parameters) nofun rfl rfl ?_
  refine puts_emevdField rfl ?_
  refine puts_emevdHeaderSlot (s := .linkedFiles) nofun rfl rfl ?_
  refine puts_emevdHeaderSlot (s := .argumentsLength) nofun rfl rfl ?_
  refine puts_emevdHeaderSlot (s := .arguments) nofun rfl rfl ?_
  refine puts_emevdField rfl ?_
  refine puts_emevdHeaderSlot (s := .strings) nofun rfl rfl ?_
  have hhead : ∀ B : List UInt8, _ → _ → _ → _ → _ → _ → Holds B 0 (emevdHead emevd.format) :=
    fun B h1 h2 h3 h4 h5 h6 => holds_append.2 ⟨holds_append.2 ⟨holds_append.2 ⟨holds_append.2
      ⟨holds_append.2 ⟨h1, h2⟩, h3⟩, h4⟩, h5⟩, h6⟩
  refine .last ((lays_emevdWriteShort _ _).seq (.done ⟨rfl, rfl⟩ ?_))
  · intro B hshort h14 h10 h8 h6 h4 h2 h0 hver hu7 hu6 h64 hbe hmagic _ _
    rw [Nat.zero_add, ← emevd.paramsBefore_length] at h8
    rw [Nat.zero_add, ← emevd.instrsBefore_length] at h2
    exact ⟨hhead B hmagic hbe h64 hu6 hu7 hver, h0, h2, h4, h6, h8, h10, h14, hshort⟩

/-! ## The events -/

/-- The record of an event, `instrs` and `params` being the offsets in its two slots. -/
def emevdEventBytes (format : EmevdFormat) (event : EmevdEvent) (instrs : Int64) (params : Int) :
    List UInt8 :=
  emevdVarint format event.id ++ (emevdVarint format (Int64.ofNat event.instructions.length)
    ++ (emevdVarint format instrs ++ (emevdVarint format (Int64.ofNat event.parameters.length)
    ++ (emevdOffsetBytes format (format.before .bloodborne) (format.before .darkSouls3) params
    ++ (emevdU32 format event.restBehavior.value ++ emevdI32 format 0)))))

theorem length_emevdEventBytes (format : EmevdFormat) (event : EmevdEvent) (instrs : Int64)
    (params : Int) :
    (emevdEventBytes format event instrs params).length = 5 * format.width + 8 := by
  simp only [emevdEventBytes, List.length_append, length_emevdI32, length_emevdU32,
    length_emevdVarint, length_emevdOffsetBytes, ← format.width_eq]
  omega

/-- Once its slots are filled, the record of the `i`-th event is complete. -/
def EmevdEventWritten (emevd : Emevd) (i : Nat) (event : EmevdEvent) (B : List UInt8) : Prop :=
  ∀ instrs params,
    Holds B (EmevdSlot.addr emevd (.instrs i)) (emevdVarint emevd.format instrs) →
    Holds B (EmevdSlot.addr emevd (.params i))
      (emevdSlotBytes emevd.format (emevd.format.before .darkSouls3) params) →
    Holds B (emevd.eventAt i) (emevdEventBytes emevd.format event instrs params)

theorem lays_emevdEventWrite (emevd : Emevd) (i : Nat) (event : EmevdEvent) :
    Lays (emevdSlots emevd) (emevdEventWrite emevd.format i event) (emevdStand emevd.format (emevd.eventAt i)) ()
      (emevdStand emevd.format (emevd.eventAt (i + 1))) (EmevdEventWritten emevd i event) := by
  unfold emevdEventWrite
  have hwidth := emevd.format.width_eq
  have hpadded : (emevd.format.before .bloodborne || emevd.format.before .darkSouls3)
      = emevd.format.before .darkSouls3 := by rcases emevd.format <;> rfl
  refine .scalar .varint ?_
  refine .scalar .varint ?_
  refine puts_emevdName ?_
  refine .reserve (k := .varint) (.instrs i) rfl ?_ ?_
  · simp only [emevdSlots, EmevdSlot.addr, EmevdFormat.width]
    omega
  refine .scalar .varint ?_
  refine puts_emevdName ?_
  refine puts_emevdReserveOffset (s := .params i) ?_ ?_ ?_
  · rw [hpadded]
    rfl
  · simp only [emevdSlots, EmevdSlot.addr, EmevdFormat.width]
    omega
  refine .scalar .u32 ?_
  refine .last (.scalar .i32 (.done ⟨rfl, ?_⟩ ?_))
  · rw [← hwidth]
    simp only [emevdStand, Emevd.eventAt, EmevdFormat.width, Nat.succ_mul, kindWidth, scalarKind, Stand.mk.injEq, and_self,
      and_true]
    omega
  · intro B hzero hrest hpad hparams hinstrs hid instrs params hinstrsSlot hparamsSlot
    have haddr : EmevdSlot.addr emevd (.instrs i)
        = emevd.eventAt i + emevd.format.width + emevd.format.width := by
      simp only [EmevdSlot.addr]
      omega
    have haddr' : EmevdSlot.addr emevd (.params i) = emevd.eventAt i + emevd.format.width
        + emevd.format.width + emevd.format.width + emevd.format.width := by
      simp only [EmevdSlot.addr]
      omega
    rw [← hpadded, haddr'] at hparamsSlot
    rw [haddr] at hinstrsSlot
    have hoffset := holds_emevdOffsetBytes hparamsSlot hpad
    simp only [emevdEventBytes, holds_append, length_emevdVarint, length_emevdOffsetBytes,
      length_emevdU32]
    exact ⟨hid, hinstrs, hinstrsSlot, hparams, hoffset, hrest, hzero⟩

/-! ## The instructions -/

/-- The offset of `n` entries in the section at `base`; there is none for no entries. -/
def emevdStart (n pos base : Nat) : Int := if 0 < n then pos - base else -1

/-- The record of an instruction, `args` and `layer` being the offsets in its two slots. -/
def emevdInstructionBytes (format : EmevdFormat) (instr : EmevdInstruction) (args layer : Int) :
    List UInt8 :=
  emevdI32 format instr.bank ++ (emevdI32 format instr.id
    ++ (emevdVarint format (Int64.ofNat instr.argData.length)
    ++ (emevdOffsetBytes format (format.before .bloodborne) (format.before .sekiro) args
    ++ emevdOffsetBytes format false (format.before .darkSouls3) layer)))

theorem length_emevdInstructionBytes (format : EmevdFormat) (instr : EmevdInstruction)
    (args layer : Int) :
    (emevdInstructionBytes format instr args layer).length = 16 + 2 * format.width := by
  simp only [emevdInstructionBytes, List.length_append, length_emevdI32, length_emevdVarint,
    length_emevdOffsetBytes, ← format.width_eq, Bool.false_eq_true, if_false]
  omega

/-- Once its slots are filled, the record of the `j`-th instruction of the `i`-th event is complete. -/
def EmevdInstructionWritten (emevd : Emevd) (i j : Nat) (instr : EmevdInstruction) (B : List UInt8) :
    Prop :=
  ∀ args layer,
    Holds B (EmevdSlot.addr emevd (.args i j))
      (emevdSlotBytes emevd.format (emevd.format.before .sekiro) args) →
    Holds B (EmevdSlot.addr emevd (.layer i j))
      (emevdSlotBytes emevd.format (emevd.format.before .darkSouls3) layer) →
    Holds B (emevd.instrAt i j) (emevdInstructionBytes emevd.format instr args layer)

theorem lays_emevdInstructionWrite (emevd : Emevd) (i j : Nat) (instr : EmevdInstruction) :
    Lays (emevdSlots emevd) (emevdInstructionWrite emevd.format i j instr)
      (emevdStand emevd.format (emevd.instrAt i j)) () (emevdStand emevd.format (emevd.instrAt i (j + 1)))
      (EmevdInstructionWritten emevd i j instr) := by
  unfold emevdInstructionWrite
  have hwidth := emevd.format.width_eq
  have hpadded : (emevd.format.before .bloodborne || emevd.format.before .sekiro)
      = emevd.format.before .sekiro := by rcases emevd.format <;> rfl
  have haddr : EmevdSlot.addr emevd (.args i j)
      = emevd.instrAt i j + 4 + 4 + emevd.format.width := by simp only [EmevdSlot.addr]
  have haddr' : EmevdSlot.addr emevd (.layer i j) = emevd.instrAt i j + 4 + 4 + emevd.format.width
      + if emevd.format.before .bloodborne then 4 else 8 := by
    rw [← hwidth]
    simp only [EmevdSlot.addr]
    omega
  refine .scalar .i32 ?_
  refine .scalar .i32 ?_
  refine .scalar .varint ?_
  refine puts_emevdName ?_
  refine puts_emevdReserveOffset (s := .args i j) ?_ haddr ?_
  · rw [hpadded]
    rfl
  refine puts_emevdName ?_
  refine .last (puts_emevdReserveOffset (s := .layer i j) rfl haddr' (.done ⟨rfl, ?_⟩ ?_))
  · rw [← hwidth]
    simp only [emevdStand, Emevd.instrAt, EmevdFormat.width, ← Nat.add_assoc, Nat.succ_mul, kindWidth, scalarKind]
    simp
    omega
  · intro B hlayerPad hargsPad hlen hid hbank args layer hargs hlayer
    rw [← hpadded, haddr] at hargs
    rw [haddr'] at hlayer
    have hargsField := holds_emevdOffsetBytes hargs hargsPad
    have hlayer' : Holds B _ (emevdSlotBytes emevd.format
      (false || emevd.format.before .darkSouls3) layer) := hlayer
    have hlayerField := holds_emevdOffsetBytes hlayer' hlayerPad
    simp only [emevdInstructionBytes, holds_append, length_emevdVarint, length_emevdOffsetBytes,
      length_emevdI32]
    exact ⟨hbank, hid, hlen, hargsField, hlayerField⟩

/-- The instructions of the `i`-th event, and the slot that leads to them. -/
def EmevdInstrsWritten (emevd : Emevd) (i : Nat) (event : EmevdEvent) (B : List UInt8) : Prop :=
  Holds B (EmevdSlot.addr emevd (.instrs i)) (emevdVarint emevd.format
    (Int64.ofInt (emevdStart event.instructions.length (emevd.instrAt i 0) emevd.instrsAt))) ∧
  ∀ j instr, event.instructions[j]? = some instr → EmevdInstructionWritten emevd i j instr B

theorem lays_emevdEventWriteInstructions {emevd : Emevd} {i : Nat} {event : EmevdEvent}
    (h : emevd.events[i]? = some event) :
    Lays (emevdSlots emevd) (emevdEventWriteInstructions emevd.format emevd.instrsAt i event)
      (emevdStand emevd.format (emevd.instrAt i 0)) () (emevdStand emevd.format (emevd.instrAt (i + 1) 0))
      (EmevdInstrsWritten emevd i event) := by
  unfold emevdEventWriteInstructions
  refine puts_emevdName ?_
  refine .position ?_
  refine .fill (k := .varint) (.instrs i) rfl ?_
  have hend : emevd.instrAt i event.instructions.length = emevd.instrAt (i + 1) 0 := by
    simp only [Emevd.instrAt, Emevd.instrsBefore_succ h]
    rfl
  rw [← hend]
  exact (lays_forIndexed (P := fun j => emevdStand emevd.format (emevd.instrAt i j)) event.instructions
    fun j instr _ => lays_emevdInstructionWrite emevd i j instr).mono fun B hB hslot => ⟨hslot, hB⟩

/-! ## The layers -/

def emevdLayerBytes (format : EmevdFormat) (mask : UInt32) : List UInt8 :=
  emevdI32 format 2 ++ (emevdU32 format mask
    ++ (emevdVarint format 0 ++ (emevdVarint format (-1) ++ emevdVarint format 1)))

/-- The side table of the layers, the first of which is the `k`-th. -/
def emevdLayerTable (emevd : Emevd) : Nat → List UInt32 → List (UInt32 × Int)
  | _, [] => []
  | k, mask :: masks =>
    (mask, (emevd.layerAt k : Int) - emevd.layersAt) :: emevdLayerTable emevd (k + 1) masks

theorem lays_emevdLayerWrite (emevd : Emevd) (k : Nat) (mask : UInt32) :
    Lays S (emevdLayerWrite mask) (emevdStand emevd.format (emevd.layerAt k)) ()
      (emevdStand emevd.format (emevd.layerAt (k + 1)))
      fun B => Holds B (emevd.layerAt k) (emevdLayerBytes emevd.format mask) := by
  unfold emevdLayerWrite
  refine .scalar .i32 ?_
  refine .scalar .u32 ?_
  refine .scalar .varint ?_
  refine .scalar .varint ?_
  refine .last (.scalar .varint (.done ⟨rfl, ?_⟩ ?_))
  · simp only [emevdStand, Emevd.layerAt, EmevdFormat.width, Nat.succ_mul, kindWidth, scalarKind, Stand.mk.injEq, and_self,
      and_true]
    omega
  · intro B hone hminus hzero hmask htwo
    simp only [emevdLayerBytes, holds_append, length_emevdVarint, length_emevdI32, length_emevdU32]
    exact ⟨htwo, hmask, hzero, hminus, hone⟩

theorem lays_emevdWriteLayers (emevd : Emevd) (masks : List UInt32) (k : Nat) :
    Lays S (emevdWriteLayers emevd.layersAt masks) (emevdStand emevd.format (emevd.layerAt k))
      (emevdLayerTable emevd k masks) (emevdStand emevd.format (emevd.layerAt (k + masks.length))) fun B =>
        ∀ l mask, masks[l]? = some mask →
          Holds B (emevd.layerAt (k + l)) (emevdLayerBytes emevd.format mask) := by
  induction masks generalizing k with
  | nil => exact .done ⟨rfl, rfl⟩ fun B l mask hmask => by simp at hmask
  | cons mask masks ih =>
      refine .position ?_
      refine (lays_emevdLayerWrite emevd k mask).seq ?_
      have hrest := ih (k + 1)
      rw [Nat.add_right_comm, Nat.add_assoc] at hrest
      refine hrest.seq (.done ⟨rfl, rfl⟩ fun B hB hfirst l mask' hmask => ?_)
      rcases l with _ | l
      · cases hmask
        exact hfirst
      · have h := hB l mask' hmask
        rwa [Nat.add_right_comm, Nat.add_assoc] at h

theorem lays_emevdWriteAllLayers (emevd : Emevd) (masks : List UInt32) :
    Lays S (emevdWriteLayers emevd.layersAt masks) (emevdStand emevd.format emevd.layersAt)
      (emevdLayerTable emevd 0 masks) (emevdStand emevd.format (emevd.argumentsAt masks)) fun B =>
        ∀ l mask, masks[l]? = some mask →
          Holds B (emevd.layerAt l) (emevdLayerBytes emevd.format mask) := by
  have h := lays_emevdWriteLayers (S := S) emevd masks 0
  have hzero : emevd.layerAt 0 = emevd.layersAt := by simp [Emevd.layerAt]
  simp only [Nat.zero_add, hzero] at h
  exact h

theorem find_emevdLayerTable {emevd : Emevd} {masks : List UInt32} {k : Nat} {mask mask' : UInt32}
    {offset : Int} (h : (emevdLayerTable emevd k masks).find? (fun layer => layer.1 = mask)
      = some (mask', offset)) :
    ∃ l, masks[l]? = some mask ∧ offset = (emevd.layerAt (k + l) : Int) - emevd.layersAt := by
  induction masks generalizing k with
  | nil => cases h
  | cons first masks ih =>
      rw [emevdLayerTable, List.find?_cons] at h
      split at h
      next heq =>
        cases h
        exact ⟨0, by simpa using heq, rfl⟩
      next hne =>
        obtain ⟨l, hl, hoffset⟩ := ih h
        exact ⟨l + 1, hl, by rw [hoffset, Nat.add_right_comm, Nat.add_assoc]⟩

/-! ## Loops over all instructions -/

theorem lays_emevdForInstructions {emevd : Emevd} {f : Nat → Nat → EmevdInstruction → WriteM Unit}
    {P : Nat → Nat → Stand} {F : Nat → Nat → EmevdInstruction → List UInt8 → Prop}
    (hstep : ∀ i j instr, (emevd.instrs i)[j]? = some instr →
      Lays S (f i j instr) (P i j) () (P i (j + 1)) (F i j instr))
    (hnext : ∀ i, P (i + 1) 0 = P i (emevd.instrs i).length) :
    Lays S (emevdForInstructions f emevd) (P 0 0) () (P emevd.events.length 0) fun B =>
      ∀ i j instr, (emevd.instrs i)[j]? = some instr → F i j instr B := by
  have h := lays_forIndexed (S := S) (P := fun i => P i 0)
    (f := fun i (event : EmevdEvent) => forIndexed (f i) 0 event.instructions)
    (F := fun i event B => ∀ j instr, event.instructions[j]? = some instr → F i j instr B)
    emevd.events fun i event hi => by
      have hinstrs : emevd.instrs i = event.instructions := by rw [Emevd.instrs, hi]; rfl
      rw [hnext, hinstrs]
      exact lays_forIndexed event.instructions fun j instr hj => hstep i j instr (by rw [hinstrs]; exact hj)
  refine h.mono fun B hB i j instr hj => ?_
  rcases hi : emevd.events[i]? with _ | event
  · rw [Emevd.instrs, hi] at hj
    simp at hj
  · rw [Emevd.instrs, hi] at hj
    exact hB i event hi j instr hj

/-- What the layer slot of an instruction holds. -/
def EmevdLayerOffset (emevd : Emevd) (masks : List UInt32) : Option UInt32 → Int → Prop
  | none, offset => offset = -1
  | some mask, offset =>
    ∃ l, masks[l]? = some mask ∧ offset = (emevd.layerAt l : Int) - emevd.layersAt

def EmevdLayerFilled (emevd : Emevd) (masks : List UInt32) (i j : Nat) (instr : EmevdInstruction)
    (B : List UInt8) : Prop :=
  ∃ offset, EmevdLayerOffset emevd masks instr.layer offset ∧
    Holds B (EmevdSlot.addr emevd (.layer i j))
      (emevdSlotBytes emevd.format (emevd.format.before .darkSouls3) offset)

theorem lays_emevdInstructionFillLayerOffset {emevd : Emevd} {masks : List UInt32} {i j pos : Nat}
    {instr : EmevdInstruction} :
    Lays (emevdSlots emevd) (emevdInstructionFillLayerOffset emevd.format (emevdLayerTable emevd 0 masks)
      i j instr) (emevdStand emevd.format pos) () (emevdStand emevd.format pos)
      (EmevdLayerFilled emevd masks i j instr) := by
  have hfill : ∀ offset, EmevdLayerOffset emevd masks instr.layer offset →
      Lays (emevdSlots emevd) (emevdFillOffset (emevd.format.before .darkSouls3)
        (label "Event" i ++ label "Instr" j ++ cstr "LayerOffset") offset)
        (emevdStand emevd.format pos) () (emevdStand emevd.format pos)
        (EmevdLayerFilled emevd masks i j instr) := fun offset hoffset =>
    .last (puts_emevdFillOffset (s := .layer i j) rfl (.done ⟨rfl, rfl⟩ fun B hB => ⟨offset, hoffset, hB.1⟩))
  unfold emevdInstructionFillLayerOffset
  refine puts_emevdName ?_
  rcases hlayer : instr.layer with _ | mask
  · exact hfill (-1) (by rw [hlayer]; rfl)
  · dsimp only
    rcases hfind : (emevdLayerTable emevd 0 masks).find? (fun layer => layer.1 = mask)
      with _ | ⟨mask', offset⟩
    · rw [hfind]
      exact puts_fail _
    · obtain ⟨l, hl, hoffset⟩ := find_emevdLayerTable hfind
      rw [Nat.zero_add] at hoffset
      rw [hfind]
      exact hfill offset (by rw [hlayer]; exact ⟨l, hl, hoffset⟩)

/-! ## The arguments -/

/-- The arguments of an instruction, and the slot that leads to them. -/
def EmevdArgsWritten (emevd : Emevd) (masks : List UInt32) (i j : Nat) (instr : EmevdInstruction)
    (B : List UInt8) : Prop :=
  Holds B (EmevdSlot.addr emevd (.args i j))
    (emevdSlotBytes emevd.format (emevd.format.before .sekiro)
      (emevdStart instr.argData.length (emevd.argsAt masks i j) (emevd.argumentsAt masks))) ∧
  Holds B (emevd.argsAt masks i j) instr.argData

theorem Emevd.argsAt_succ {emevd : Emevd} {masks : List UInt32} {i j : Nat} {instr : EmevdInstruction}
    (h : (emevd.instrs i)[j]? = some instr) :
    emevd.argsAt masks i (j + 1) = emevdArgsNext (emevd.argsAt masks i j) instr := by
  rw [argsAt, List.take_add_one, h, ← List.append_assoc, emevdArgsEnd, List.foldl_append]
  rfl

theorem Emevd.argsAt_next (emevd : Emevd) (masks : List UInt32) (i : Nat) :
    emevd.argsAt masks (i + 1) 0 = emevd.argsAt masks i (emevd.instrs i).length := by
  rw [argsAt, argsAt, List.take_length, List.take_zero, List.append_nil, List.take_add_one,
    List.flatMap_append]
  rcases hi : emevd.events[i]? with _ | event <;> simp [instrs, hi]

theorem emits_emevdWriteArgData (argData : List UInt8) (st : Stand) :
    Emits S (emevdInstructionWriteArgs.emevdWriteArgData argData) st argData := by
  unfold emevdInstructionWriteArgs.emevdWriteArgData
  split
  · exact emits_bytes _ _
  next hempty =>
    rw [List.eq_nil_of_length_eq_zero (by omega : argData.length = 0)]
    exact emits_pure st

theorem lays_emevdInstructionWriteArgs {emevd : Emevd} {masks : List UInt32} {i j : Nat}
    {instr : EmevdInstruction} (h : (emevd.instrs i)[j]? = some instr) :
    Lays (emevdSlots emevd)
      (emevdInstructionWriteArgs emevd.format (emevd.argumentsAt masks) i j instr)
      (emevdStand emevd.format (emevd.argsAt masks i j)) () (emevdStand emevd.format (emevd.argsAt masks i (j + 1)))
      (EmevdArgsWritten emevd masks i j instr) := by
  unfold emevdInstructionWriteArgs
  refine puts_emevdName ?_
  refine .position ?_
  refine puts_emevdFillOffset (s := .args i j) rfl ?_
  refine (emits_emevdWriteArgData _ _).seq ?_
  refine .last (.pad (by decide) (.done ⟨rfl, ?_⟩ fun B hdata hslot => ⟨hslot.1, hdata⟩))
  rw [Emevd.argsAt_succ h]
  rfl

/-! ## The parameters -/

def emevdParameterBytes (format : EmevdFormat) (parameter : EmevdParameter) : List UInt8 :=
  emevdVarint format parameter.instructionIndex ++ (emevdVarint format parameter.targetStartByte
    ++ (emevdVarint format parameter.sourceStartByte ++ (emevdI32 format parameter.byteCount
    ++ emevdI32 format parameter.unkId)))

@[simp] theorem length_emevdParameterBytes (format : EmevdFormat) (parameter : EmevdParameter) :
    (emevdParameterBytes format parameter).length = 8 + 3 * format.width := by
  simp only [emevdParameterBytes, List.length_append, length_emevdVarint, length_emevdI32]
  omega

/-- The parameters of an event, and the slot that leads to them. -/
def EmevdParamsWritten (emevd : Emevd) (masks : List UInt32) (i : Nat) (event : EmevdEvent)
    (B : List UInt8) : Prop :=
  Holds B (EmevdSlot.addr emevd (.params i))
    (emevdSlotBytes emevd.format (emevd.format.before .darkSouls3)
      (emevdStart event.parameters.length (emevd.paramAt masks i) (emevd.parametersAt masks))) ∧
  Holds B (emevd.paramAt masks i) (event.parameters.flatMap (emevdParameterBytes emevd.format))

theorem emits_emevdParameterWrite (parameter : EmevdParameter) (pos : Nat) :
    Emits S (emevdParameterWrite parameter) (emevdStand format pos) (emevdParameterBytes format parameter) := by
  unfold emevdParameterWrite
  refine .scalar .varint ?_
  refine .scalar .varint ?_
  refine .scalar .varint ?_
  refine .scalar .i32 ?_
  refine .last (.scalar .i32 (.done ⟨rfl, ?_⟩ ?_))
  · rw [length_emevdParameterBytes]
    simp only [emevdStand, Stand.advance, EmevdFormat.width, kindWidth, scalarKind, Stand.mk.injEq, and_self,
      and_true]
    omega
  · intro B hunk hcount hsource htarget hindex
    simp only [emevdParameterBytes, holds_append, length_emevdVarint, length_emevdI32]
    exact ⟨hindex, htarget, hsource, hcount, hunk⟩

theorem lays_emevdEventWriteParameters {emevd : Emevd} {masks : List UInt32} {i : Nat}
    {event : EmevdEvent} (h : emevd.events[i]? = some event) :
    Lays (emevdSlots emevd)
      (emevdEventWriteParameters emevd.format (emevd.parametersAt masks) i event)
      (emevdStand emevd.format (emevd.paramAt masks i)) () (emevdStand emevd.format (emevd.paramAt masks (i + 1)))
      (EmevdParamsWritten emevd masks i event) := by
  unfold emevdEventWriteParameters
  refine puts_emevdName ?_
  refine .position ?_
  refine puts_emevdFillOffset (s := .params i) rfl ?_
  refine (emits_forIndexed event.parameters (fun parameter _ k n => emits_emevdParameterWrite parameter _) 0).conseq ?_
  rintro - - ⟨-, rfl⟩
  refine ⟨⟨rfl, ?_⟩, fun B hB hslot => ⟨hslot.1, hB⟩⟩
  rw [length_flatMap_const _ fun parameter _ => length_emevdParameterBytes _ parameter]
  simp only [emevdStand, Stand.advance, Emevd.paramAt, Emevd.paramsBefore_succ h]
  rw [Nat.add_mul, Nat.add_assoc]

/-! ## The sections -/

section

variable {emevd : Emevd} {s : EmevdHeaderSlot}

theorem puts_emevdFillHeader {v : Int64} (hslot : s ≠ .fileSize)
    (hf : Puts (emevdSlots emevd) (f ()) (emevdStand emevd.format pos) Q
      fun u st B => EmevdField emevd B s.index v → G u st B) :
    Puts (emevdSlots emevd) (fillVarint (cstr s.name) v >>= f) (emevdStand emevd.format pos) Q G := by
  have hkey : emevdKey emevd.format (.header s)
      = (cstr s.name, scalarKind emevd.format.long .varint) := by
    rcases s <;> first | rfl | exact absurd rfl hslot
  have haddr : EmevdSlot.addr emevd (.header s) = 16 + s.index * emevd.format.width := by
    rcases s <;> first | rfl | exact absurd rfl hslot
  refine .fill (k := .varint) (.header s) hkey (hf.mono fun _ _ _ B hG hheld => hG ?_)
  rwa [EmevdField, ← haddr]

theorem puts_emevdFillHere {f : Nat → WriteM α} (hslot : s ≠ .fileSize)
    (hf : Puts (emevdSlots emevd) (f pos) (emevdStand emevd.format pos) Q
      fun u st B => EmevdField emevd B s.index (Int64.ofNat pos) → G u st B) :
    Puts (emevdSlots emevd) (emevdFillHere s.name >>= f) (emevdStand emevd.format pos) Q G := by
  rw [emevdFillHere, bind_assoc]
  refine .position ?_
  rw [bind_assoc]
  exact puts_emevdFillHeader hslot hf

end

theorem lays_emevdWriteLinkedFiles (emevd : Emevd) (masks : List UInt32) :
    Lays S (forIndexed (fun _ => writeVarint) 0 emevd.linkedFileOffsets)
      (emevdStand emevd.format (emevd.linkedFilesAt masks)) () (emevdStand emevd.format (emevd.stringsAt masks))
      fun B => Holds B (emevd.linkedFilesAt masks) (emevd.linkedFileOffsets.flatMap (emevdVarint emevd.format)) := by
  have hone : ∀ offset ∈ emevd.linkedFileOffsets, ∀ i n : Nat, Emits S (writeVarint offset)
      ((emevdStand emevd.format (emevd.linkedFilesAt masks)).advance n)
      (emevdVarint emevd.format offset) := fun offset _ _ _ => emits_scalar .varint offset _
  refine (emits_forIndexed emevd.linkedFileOffsets hone 0).conseq ?_
  rintro - - ⟨-, rfl⟩
  refine ⟨⟨rfl, ?_⟩, fun B => id⟩
  rw [length_flatMap_const _ fun offset _ => length_emevdVarint _ offset]
  rfl

theorem emits_writeStrings (stringData : List UInt8) (st : Stand) :
    Emits S (emevdWriteSections.writeStrings stringData) st stringData := by
  unfold emevdWriteSections.writeStrings
  split
  · exact emits_bytes _ _
  next hempty =>
    rw [List.eq_nil_of_length_eq_zero (by omega : stringData.length = 0)]
    exact emits_pure st

/-- **What the file of an event script holds.** -/
structure EmevdFile (emevd : Emevd) (masks : List UInt32) (B : List UInt8) : Prop where
  header : EmevdHeaderAt emevd masks B
  eventsAt : EmevdField emevd B 1 (Int64.ofNat emevd.eventsAt)
  instrsAt : EmevdField emevd B 3 (Int64.ofNat emevd.instrsAt)
  offset3 : EmevdField emevd B 5 (Int64.ofNat emevd.layersAt)
  layersAt : EmevdField emevd B 7 (Int64.ofNat emevd.layersAt)
  parametersAt : EmevdField emevd B 9 (Int64.ofNat (emevd.parametersAt masks))
  linkedFilesAt : EmevdField emevd B 11 (Int64.ofNat (emevd.linkedFilesAt masks))
  argumentsLength : ∃ v, EmevdField emevd B 12 v
  argumentsAt : EmevdField emevd B 13 (Int64.ofNat (emevd.argumentsAt masks))
  stringsAt : EmevdField emevd B 15 (Int64.ofNat (emevd.stringsAt masks))
  fileSize : Holds B 12 (emevdI32 emevd.format (Int32.ofNat (emevd.fileEnd masks)))
  events : ∀ i event, emevd.events[i]? = some event → EmevdEventWritten emevd i event B
  instrs : ∀ i event, emevd.events[i]? = some event → EmevdInstrsWritten emevd i event B
  layers : ∀ l mask, masks[l]? = some mask →
    Holds B (emevd.layerAt l) (emevdLayerBytes emevd.format mask)
  layerOffsets : ∀ i j instr, (emevd.instrs i)[j]? = some instr →
    EmevdLayerFilled emevd masks i j instr B
  arguments : ∀ i j instr, (emevd.instrs i)[j]? = some instr →
    EmevdArgsWritten emevd masks i j instr B
  parameters : ∀ i event, emevd.events[i]? = some event → EmevdParamsWritten emevd masks i event B
  linkedFiles : Holds B (emevd.linkedFilesAt masks)
    (emevd.linkedFileOffsets.flatMap (emevdVarint emevd.format))
  strings : Holds B (emevd.stringsAt masks) emevd.stringData
  short : emevd.fileEnd masks ≤ INT32_MAX

section

variable (emevd : Emevd) (masks : List UInt32)

theorem lays_emevdWriteEvents :
    Lays (emevdSlots emevd) (forIndexed (emevdEventWrite emevd.format) 0 emevd.events)
      (emevdStand emevd.format emevd.eventsAt) () (emevdStand emevd.format emevd.instrsAt)
      fun B => ∀ i event, emevd.events[i]? = some event → EmevdEventWritten emevd i event B := by
  have hstart : emevd.eventAt 0 = emevd.eventsAt := by simp [Emevd.eventAt]
  rw [← hstart]
  exact lays_forIndexed (P := fun i => emevdStand emevd.format (emevd.eventAt i)) emevd.events
    fun i event _ => lays_emevdEventWrite emevd i event

theorem lays_emevdWriteInstructions :
    Lays (emevdSlots emevd)
      (forIndexed (emevdEventWriteInstructions emevd.format emevd.instrsAt) 0 emevd.events)
      (emevdStand emevd.format emevd.instrsAt) () (emevdStand emevd.format emevd.layersAt)
      fun B => ∀ i event, emevd.events[i]? = some event → EmevdInstrsWritten emevd i event B := by
  have hstart : emevd.instrAt 0 0 = emevd.instrsAt := by simp [Emevd.instrAt, Emevd.instrsBefore]
  have h := lays_forIndexed (S := emevdSlots emevd) (P := fun i => emevdStand emevd.format (emevd.instrAt i 0))
    emevd.events fun i event h => lays_emevdEventWriteInstructions h
  rwa [hstart] at h

theorem lays_emevdFillLayers :
    Lays (emevdSlots emevd)
      (emevdForInstructions (emevdInstructionFillLayerOffset emevd.format (emevdLayerTable emevd 0 masks)) emevd)
      (emevdStand emevd.format (emevd.argumentsAt masks)) () (emevdStand emevd.format (emevd.argumentsAt masks))
      fun B => ∀ i j instr, (emevd.instrs i)[j]? = some instr → EmevdLayerFilled emevd masks i j instr B :=
  lays_emevdForInstructions (P := fun _ _ => emevdStand emevd.format (emevd.argumentsAt masks))
    (fun _ _ _ _ => lays_emevdInstructionFillLayerOffset) fun _ => rfl

theorem lays_emevdWriteArgs :
    Lays (emevdSlots emevd)
      (emevdForInstructions (emevdInstructionWriteArgs emevd.format (emevd.argumentsAt masks)) emevd)
      (emevdStand emevd.format (emevd.argumentsAt masks)) () (emevdStand emevd.format (emevd.argumentsEnd masks))
      fun B => ∀ i j instr, (emevd.instrs i)[j]? = some instr → EmevdArgsWritten emevd masks i j instr B := by
  have hstart : emevd.argsAt masks 0 0 = emevd.argumentsAt masks := by simp [Emevd.argsAt, emevdArgsEnd]
  have hend : emevd.argsAt masks emevd.events.length 0 = emevd.argumentsEnd masks := by
    simp [Emevd.argsAt, Emevd.argumentsEnd]
  have h := lays_emevdForInstructions (S := emevdSlots emevd)
    (P := fun i j => emevdStand emevd.format (emevd.argsAt masks i j))
    (fun i j instr h => lays_emevdInstructionWriteArgs h) fun i => congrArg _ (emevd.argsAt_next masks i)
  rwa [hstart, hend] at h

theorem lays_emevdWriteParameters :
    Lays (emevdSlots emevd)
      (forIndexed (emevdEventWriteParameters emevd.format (emevd.parametersAt masks)) 0 emevd.events)
      (emevdStand emevd.format (emevd.parametersAt masks)) () (emevdStand emevd.format (emevd.linkedFilesAt masks))
      fun B => ∀ i event, emevd.events[i]? = some event → EmevdParamsWritten emevd masks i event B := by
  have hstart : emevd.paramAt masks 0 = emevd.parametersAt masks := by simp [Emevd.paramAt, Emevd.paramsBefore]
  have h := lays_forIndexed (S := emevdSlots emevd) (P := fun i => emevdStand emevd.format (emevd.paramAt masks i))
    emevd.events fun i event h => lays_emevdEventWriteParameters h
  rwa [hstart] at h

theorem lays_emevdWriteSections :
    Lays (emevdSlots emevd) (emevdWriteSections emevd masks) (emevdStand emevd.format emevd.eventsAt) ()
      (emevdStand emevd.format (emevd.fileEnd masks)) fun B => EmevdHeaderAt emevd masks B → EmevdFile emevd masks B := by
  unfold emevdWriteSections
  refine puts_emevdFillHere (s := .events) nofun ?_
  refine (lays_emevdWriteEvents emevd).seq ?_
  refine puts_emevdFillHere (s := .instructions) nofun ?_
  refine (lays_emevdWriteInstructions emevd).seq ?_
  refine puts_emevdFillHere (s := .offset3) nofun ?_
  refine puts_emevdFillHere (s := .layers) nofun ?_
  refine (lays_emevdWriteAllLayers emevd masks).seq ?_
  refine (lays_emevdFillLayers emevd masks).seq ?_
  refine puts_emevdFillHere (s := .arguments) nofun ?_
  refine (lays_emevdWriteArgs emevd masks).seq ?_
  refine .padRelative (by decide) (by exact_mod_cast emevd.argumentsAt_le masks) ?_
  refine .position ?_
  refine puts_emevdFillHeader (s := .argumentsLength) nofun ?_
  refine puts_emevdFillHere (s := .parameters) nofun ?_
  refine (lays_emevdWriteParameters emevd masks).seq ?_
  refine puts_emevdFillHere (s := .linkedFiles) nofun ?_
  refine (lays_emevdWriteLinkedFiles emevd masks).seq ?_
  refine puts_emevdFillHere (s := .strings) nofun ?_
  refine (emits_writeStrings emevd.stringData _).seq ?_
  refine .position ?_
  refine .check fun hshort => ?_
  refine .last (.fill (k := .i32) (.header .fileSize) rfl (.done ⟨rfl, rfl⟩ ?_))
  intro B hsize hstrings hstringsAt hlinked hlinkedAt hparams hparamsAt hlen hargs hargsAt hlayerFill
    hlayers hlayersAt hoffset3 hinstrs hinstrsAt hevents heventsAt hheader
  exact ⟨hheader, heventsAt, hinstrsAt, hoffset3, hlayersAt, hparamsAt, hlinkedAt, ⟨_, hlen⟩, hargsAt,
    hstringsAt, hsize, hevents, hinstrs, hlayers, hlayerFill, hargs, hparams, hlinked, hstrings,
    by exact_mod_cast hshort⟩

end

/-! ## The file -/

/-- The masks of the layers in the order of their first use, after those of `layers`. -/
def emevdMasks : List EmevdInstruction → List UInt32 → List UInt32
  | [], layers => layers
  | instr :: instrs, layers =>
    match instr.layer with
    | none => emevdMasks instrs layers
    | some mask => emevdMasks instrs (if mask ∈ layers then layers else layers ++ [mask])

theorem lays_emevdCollectLayers (instrs : List EmevdInstruction) (layers : List UInt32) (st : Stand) :
    Lays S (emevdCollectLayers instrs layers) st (emevdMasks instrs layers) st fun _ => True := by
  induction instrs generalizing layers with
  | nil => exact .done ⟨rfl, rfl⟩ fun _ => trivial
  | cons instr instrs ih =>
      rcases hlayer : instr.layer with _ | mask
      · simp only [emevdCollectLayers, emevdMasks, hlayer]
        exact ih layers
      · simp only [emevdCollectLayers, emevdMasks, hlayer]
        by_cases hmem : mask ∈ layers
        · rw [if_pos hmem, if_pos hmem]
          exact ih layers
        · rw [if_neg hmem, if_neg hmem]
          exact .check fun _ => .alloc fun _ => ih _

theorem lays_emevdAllocLayerOffsets (layerCount : Nat) (st : Stand) :
    Lays S (emevdAllocLayerOffsets layerCount) st () st fun _ => True := by
  unfold emevdAllocLayerOffsets
  split
  · exact .check fun _ => .alloc fun _ => .done ⟨rfl, rfl⟩ fun _ => trivial
  · exact .done ⟨rfl, rfl⟩ fun _ => trivial

def Emevd.masks (emevd : Emevd) : List UInt32 :=
  emevdMasks (emevd.events.flatMap EmevdEvent.instructions) []

theorem lays_emevdWrite (emevd : Emevd) :
    Lays (emevdSlots emevd) (emevdWrite emevd) ⟨0, false, false⟩ ()
      (emevdStand emevd.format (emevd.fileEnd emevd.masks)) (EmevdFile emevd emevd.masks) := by
  refine (lays_emevdCollectLayers _ _ _).seq ?_
  refine (lays_emevdAllocLayerOffsets _ _).seq ?_
  refine (lays_emevdWriteHeader emevd emevd.masks).seq ?_
  exact (lays_emevdWriteSections emevd emevd.masks).mono fun B hB hheader _ _ => hB hheader

/-- **What is written is the file.** -/
theorem emevdWriteToMemory_ok {emevd : Emevd} {heap : Heap} {B : List UInt8}
    (h : (emevdWriteToMemory emevd heap).1 = .ok B) :
    EmevdFile emevd emevd.masks B ∧ B.length = emevd.fileEnd emevd.masks := by
  obtain ⟨st, ⟨-, rfl⟩, hfile, hlength, -⟩ := (lays_emevdWrite emevd).toMemory nofun h
  exact ⟨hfile, hlength⟩

end SoulsFormats
