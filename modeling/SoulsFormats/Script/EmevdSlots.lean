import SoulsFormats.Core.Layout
import SoulsFormats.Script.Emevd

set_option autoImplicit false

/-! # The slots of an event script

The slots that the writer reserves have names of their own (`emevdKey_inj`), so a slot is known by what
it is for: `EmevdSlot`. Where each slot and each section is follows from the script and its layers. -/

namespace SoulsFormats

open Bytes Fallible BinaryWriter

/-! ## The slots -/

/-- The slots of the header. -/
inductive EmevdHeaderSlot where
  | fileSize | events | instructions | offset3 | layers | parameters | linkedFiles
  | argumentsLength | arguments | strings
deriving DecidableEq, Repr

def EmevdHeaderSlot.name : EmevdHeaderSlot → String
  | fileSize => "FileSize"
  | events => "EventsOffset"
  | instructions => "InstructionsOffset"
  | offset3 => "Offset3"
  | layers => "LayersOffset"
  | parameters => "ParametersOffset"
  | linkedFiles => "LinkedFilesOffset"
  | argumentsLength => "ArgumentsLength"
  | arguments => "ArgumentsOffset"
  | strings => "StringsOffset"

/-- The slots of a file. -/
inductive EmevdSlot where
  | header (slot : EmevdHeaderSlot)
  | instrs (event : Nat)
  | params (event : Nat)
  | args (event instr : Nat)
  | layer (event instr : Nat)
deriving DecidableEq, Repr

def EmevdFormat.bigEndian (format : EmevdFormat) : Bool := (emevdWriteProps format).bigEndian

def EmevdFormat.long (format : EmevdFormat) : Bool := (emevdWriteProps format).is64Bit

def EmevdSlot.name : EmevdSlot → List UInt8
  | header slot => cstr slot.name
  | instrs event => label "Event" event ++ cstr "InstrsOffset"
  | params event => label "Event" event ++ cstr "ParamsOffset"
  | args event instr => label "Event" event ++ label "Instr" instr ++ cstr "ArgsOffset"
  | layer event instr => label "Event" event ++ label "Instr" instr ++ cstr "LayerOffset"

/-- The kind of an offset of four or eight bytes. -/
def emevdOffsetKind (narrow : Bool) : SfresKind := if narrow then .i32 else .i64

def EmevdSlot.kind (format : EmevdFormat) : EmevdSlot → SfresKind
  | header .fileSize => .i32
  | header _ => scalarKind format.long .varint
  | instrs _ => scalarKind format.long .varint
  | params _ => emevdOffsetKind (format.before .darkSouls3)
  | args _ _ => emevdOffsetKind (format.before .sekiro)
  | layer _ _ => emevdOffsetKind (format.before .darkSouls3)

def emevdKey (format : EmevdFormat) (slot : EmevdSlot) : ResKey := (slot.name, slot.kind format)

theorem EmevdHeaderSlot.name_inj {a b : EmevdHeaderSlot} (h : cstr a.name = cstr b.name) : a = b := by
  rcases a <;> rcases b <;> first | rfl | (revert h; decide)

theorem EmevdHeaderSlot.sixth (a : EmevdHeaderSlot) : ∀ b ∈ (cstr a.name)[5]?, isDigit b = false := by
  refine isDigit_eq_false_of_any ?_
  rcases a <;> decide

theorem sixth_event (n : Nat) (x : List UInt8) :
    ∃ b, (label "Event" n ++ x)[5]? = some b ∧ isDigit b = true := by
  obtain ⟨b, bs, hb⟩ := List.exists_cons_of_ne_nil (decimal_ne_nil n)
  refine ⟨b, ?_, isDigit_of_mem_decimal b (by rw [hb]; exact List.mem_cons_self)⟩
  rw [label, hb]
  rfl

theorem header_ne_event (a : EmevdHeaderSlot) (n : Nat) (x : List UInt8) :
    cstr a.name ≠ label "Event" n ++ x := by
  intro h
  obtain ⟨b, hb, hdigit⟩ := sixth_event n x
  rw [← h] at hb
  rw [a.sixth b hb] at hdigit
  cases hdigit

theorem event_append_inj {m n : Nat} {x y : List UInt8} (hx : ∀ b ∈ x.head?, isDigit b = false)
    (hy : ∀ b ∈ y.head?, isDigit b = false) (h : label "Event" m ++ x = label "Event" n ++ y) :
    m = n ∧ x = y := by
  rw [label, label, List.append_assoc, List.append_assoc] at h
  exact decimal_append_inj hx hy (List.append_cancel_left h)

theorem instr_append_inj {m n : Nat} {x y : List UInt8} (hx : ∀ b ∈ x.head?, isDigit b = false)
    (hy : ∀ b ∈ y.head?, isDigit b = false) (h : label "Instr" m ++ x = label "Instr" n ++ y) :
    m = n ∧ x = y := by
  rw [label, label, List.append_assoc, List.append_assoc] at h
  exact decimal_append_inj hx hy (List.append_cancel_left h)

/-- After `Instr` the one goes on with a letter, the other with a number. -/
theorem instrs_ne_instr (n : Nat) (x : List UInt8) : cstr "InstrsOffset" ≠ label "Instr" n ++ x := by
  intro h
  rw [label, List.append_assoc] at h
  have hsplit : cstr "Instr" ++ cstr "sOffset" = cstr "Instr" ++ (decimal n ++ x) := h
  have hrest := List.append_cancel_left hsplit
  obtain ⟨b, bs, hb⟩ := List.exists_cons_of_ne_nil (decimal_ne_nil n)
  have hdigit := isDigit_of_mem_decimal b (by rw [hb]; exact List.mem_cons_self)
  rw [hb] at hrest
  rw [← (List.cons.inj hrest).1] at hdigit
  cases hdigit

theorem emevdSlot_name_inj {s s' : EmevdSlot} (h : s.name = s'.name) : s = s' := by
  have hI : ∀ (n : Nat) (x : List UInt8), ∀ b ∈ (label "Instr" n ++ x).head?, isDigit b = false := by
    rintro n x b hb
    cases hb
    rfl
  have hi : ∀ b ∈ (cstr "InstrsOffset").head?, isDigit b = false :=
    isDigit_eq_false_of_any (by decide)
  have hp : ∀ b ∈ (cstr "ParamsOffset").head?, isDigit b = false :=
    isDigit_eq_false_of_any (by decide)
  have ha : ∀ b ∈ (cstr "ArgsOffset").head?, isDigit b = false :=
    isDigit_eq_false_of_any (by decide)
  have hl : ∀ b ∈ (cstr "LayerOffset").head?, isDigit b = false :=
    isDigit_eq_false_of_any (by decide)
  rcases s with a | i | i | ⟨i, j⟩ | ⟨i, j⟩ <;> rcases s' with a' | i' | i' | ⟨i', j'⟩ | ⟨i', j'⟩ <;>
    simp only [EmevdSlot.name, List.append_assoc] at h
  · rw [EmevdHeaderSlot.name_inj h]
  · exact absurd h (header_ne_event _ _ _)
  · exact absurd h (header_ne_event _ _ _)
  · exact absurd h (header_ne_event _ _ _)
  · exact absurd h (header_ne_event _ _ _)
  · exact absurd h.symm (header_ne_event _ _ _)
  · rw [(event_append_inj hi hi h).1]
  · exact absurd (event_append_inj hi hp h).2 (by decide)
  · exact absurd (event_append_inj hi (hI _ _) h).2 (instrs_ne_instr _ _)
  · exact absurd (event_append_inj hi (hI _ _) h).2 (instrs_ne_instr _ _)
  · exact absurd h.symm (header_ne_event _ _ _)
  · exact absurd (event_append_inj hp hi h).2 (by decide)
  · rw [(event_append_inj hp hp h).1]
  · exact absurd (event_append_inj hp (hI _ _) h).2 nofun
  · exact absurd (event_append_inj hp (hI _ _) h).2 nofun
  · exact absurd h.symm (header_ne_event _ _ _)
  · exact absurd (event_append_inj (hI _ _) hi h).2.symm (instrs_ne_instr _ _)
  · exact absurd (event_append_inj (hI _ _) hp h).2.symm nofun
  · obtain ⟨rfl, hrest⟩ := event_append_inj (hI _ _) (hI _ _) h
    rw [(instr_append_inj ha ha hrest).1]
  · obtain ⟨rfl, hrest⟩ := event_append_inj (hI _ _) (hI _ _) h
    exact absurd (instr_append_inj ha hl hrest).2 (by decide)
  · exact absurd h.symm (header_ne_event _ _ _)
  · exact absurd (event_append_inj (hI _ _) hi h).2.symm (instrs_ne_instr _ _)
  · exact absurd (event_append_inj (hI _ _) hp h).2.symm nofun
  · obtain ⟨rfl, hrest⟩ := event_append_inj (hI _ _) (hI _ _) h
    exact absurd (instr_append_inj hl ha hrest).2 (by decide)
  · obtain ⟨rfl, hrest⟩ := event_append_inj (hI _ _) (hI _ _) h
    rw [(instr_append_inj hl hl hrest).1]

/-- **No two slots share a key.** -/
theorem emevdKey_inj (format : EmevdFormat) : Function.Injective (emevdKey format) :=
  fun _ _ h => emevdSlot_name_inj (congrArg Prod.fst h)

/-! ## The addresses -/

/-- The width of a varint. -/
def EmevdFormat.width (format : EmevdFormat) : Nat := kindWidth (scalarKind format.long .varint)

theorem EmevdFormat.width_pos (format : EmevdFormat) : 0 < format.width := kindWidth_pos _

/-- The number of a field of the header, in varints. -/
def EmevdHeaderSlot.index : EmevdHeaderSlot → Nat
  | fileSize => 0
  | events => 1
  | instructions => 3
  | offset3 => 5
  | layers => 7
  | parameters => 9
  | linkedFiles => 11
  | argumentsLength => 12
  | arguments => 13
  | strings => 15

namespace Emevd

variable (emevd : Emevd)

/-- The instructions of the events before the `i`-th. -/
def instrsBefore (i : Nat) : Nat :=
  ((emevd.events.map fun event => event.instructions.length).take i).sum

def paramsBefore (i : Nat) : Nat :=
  ((emevd.events.map fun event => event.parameters.length).take i).sum

/-- Where the events start. -/
def eventsAt : Nat := 16 + 16 * emevd.format.width + if emevd.format.long then 0 else 4

def eventAt (i : Nat) : Nat := emevd.eventsAt + i * (5 * emevd.format.width + 8)

def instrsAt : Nat := emevd.eventAt emevd.events.length

def instrAt (i j : Nat) : Nat :=
  emevd.instrsAt + (emevd.instrsBefore i + j) * (16 + 2 * emevd.format.width)

def layersAt : Nat := emevd.instrAt emevd.events.length 0

def layerAt (k : Nat) : Nat := emevd.layersAt + k * (8 + 3 * emevd.format.width)

theorem instrsBefore_length : emevd.instrsBefore emevd.events.length
    = (emevd.events.map fun event => event.instructions.length).sum := by
  rw [instrsBefore, List.take_of_length_le (List.length_map _).le]

theorem paramsBefore_length : emevd.paramsBefore emevd.events.length
    = (emevd.events.map fun event => event.parameters.length).sum := by
  rw [paramsBefore, List.take_of_length_le (List.length_map _).le]

variable {emevd} {i : Nat} {event : EmevdEvent}

theorem instrsBefore_succ (h : emevd.events[i]? = some event) :
    emevd.instrsBefore (i + 1) = emevd.instrsBefore i + event.instructions.length := by
  have hmap : (emevd.events.map fun event => event.instructions.length)[i]?
      = some event.instructions.length := by rw [List.getElem?_map, h]; rfl
  rw [instrsBefore, List.take_add_one, hmap, List.sum_append]
  simp [instrsBefore]

theorem paramsBefore_succ (h : emevd.events[i]? = some event) :
    emevd.paramsBefore (i + 1) = emevd.paramsBefore i + event.parameters.length := by
  have hmap : (emevd.events.map fun event => event.parameters.length)[i]?
      = some event.parameters.length := by rw [List.getElem?_map, h]; rfl
  rw [paramsBefore, List.take_add_one, hmap, List.sum_append]
  simp [paramsBefore]

end Emevd

/-- Where the next instruction's arguments are. -/
def emevdArgsNext (pos : Nat) (instr : EmevdInstruction) : Nat :=
  pos + instr.argData.length + padLength (pos + instr.argData.length : Nat) 4

/-- Where the arguments of the instructions end that start at `pos`. -/
def emevdArgsEnd (pos : Nat) (instrs : List EmevdInstruction) : Nat := instrs.foldl emevdArgsNext pos

theorem le_emevdArgsEnd (pos : Nat) (instrs : List EmevdInstruction) :
    pos ≤ emevdArgsEnd pos instrs := by
  induction instrs generalizing pos with
  | nil => exact le_rfl
  | cons instr instrs ih =>
      have hnext : pos ≤ emevdArgsNext pos instr := by
        unfold emevdArgsNext
        omega
      exact hnext.trans (ih _)

namespace Emevd

variable (emevd : Emevd) (masks : List UInt32)

def argumentsAt : Nat := emevd.layerAt masks.length

/-- The instructions of the `i`-th event. -/
def instrs (i : Nat) : List EmevdInstruction := (emevd.events[i]?.map (·.instructions)).getD []

/-- Where the arguments of the `j`-th instruction of the `i`-th event are. -/
def argsAt (i j : Nat) : Nat :=
  emevdArgsEnd (emevd.argumentsAt masks)
    ((emevd.events.take i).flatMap EmevdEvent.instructions ++ (emevd.instrs i).take j)

def argumentsEnd : Nat :=
  emevdArgsEnd (emevd.argumentsAt masks) (emevd.events.flatMap EmevdEvent.instructions)

theorem argumentsAt_le : emevd.argumentsAt masks ≤ emevd.argumentsEnd masks :=
  le_emevdArgsEnd _ _

def parametersAt : Nat :=
  emevd.argumentsEnd masks
    + padLength (emevd.argumentsEnd masks - emevd.argumentsAt masks : Int) 0x10

def paramAt (i : Nat) : Nat :=
  emevd.parametersAt masks + emevd.paramsBefore i * (8 + 3 * emevd.format.width)

def linkedFilesAt : Nat := emevd.paramAt masks emevd.events.length

def stringsAt : Nat :=
  emevd.linkedFilesAt masks + emevd.linkedFileOffsets.length * emevd.format.width

def fileEnd : Nat := emevd.stringsAt masks + emevd.stringData.length

/-- The sections, in order. -/
theorem starts_le : emevd.eventsAt + emevd.events.length ≤ emevd.instrsAt ∧
    emevd.instrsAt ≤ emevd.layersAt ∧ emevd.layersAt ≤ emevd.argumentsAt masks ∧
    emevd.argumentsAt masks ≤ emevd.parametersAt masks ∧
    emevd.parametersAt masks ≤ emevd.linkedFilesAt masks ∧
    emevd.linkedFilesAt masks + emevd.linkedFileOffsets.length ≤ emevd.stringsAt masks ∧
    emevd.stringsAt masks + emevd.stringData.length = emevd.fileEnd masks := by
  have hwidth := emevd.format.width_pos
  refine ⟨?_, Nat.le_add_right _ _, Nat.le_add_right _ _, ?_, Nat.le_add_right _ _, ?_, rfl⟩
  · exact Nat.add_le_add_left (Nat.le_mul_of_pos_right _ (by omega)) _
  · exact (emevd.argumentsAt_le masks).trans (Nat.le_add_right _ _)
  · exact Nat.add_le_add_left (Nat.le_mul_of_pos_right _ hwidth) _

end Emevd

def EmevdSlot.addr (emevd : Emevd) : EmevdSlot → Nat
  | header .fileSize => 12
  | header slot => 16 + slot.index * emevd.format.width
  | instrs i => emevd.eventAt i + 2 * emevd.format.width
  | params i => emevd.eventAt i + 4 * emevd.format.width
  | args i j => emevd.instrAt i j + 8 + emevd.format.width
  | layer i j => emevd.instrAt i j + 8 + 2 * emevd.format.width

def emevdSlots (emevd : Emevd) : FileSlots EmevdSlot where
  key := emevdKey emevd.format
  addr := EmevdSlot.addr emevd
  key_inj := emevdKey_inj emevd.format

end SoulsFormats
