import SoulsFormats.Param.Cells

set_option autoImplicit false

/-! # Where bit fields start

The bit of its window at which a field starts is decided by the types and the declared sizes of the fields up to
it. -/

namespace SoulsFormats

open Bytes Fallible

/-- What decides where a field goes: its type and its declared size in bits. -/
structure BitSlot where
  type : ParamdefDefType
  bitSize : Int32
deriving DecidableEq

namespace BitSlot

def isBit (s : BitSlot) : Bool := s.type.isBitType && s.bitSize != -1

def size (s : BitSlot) : Nat := s.bitSize.toInt.toNat

/-- The field goes into a window, given by its limit and the bits that are taken. -/
def goesInto (s : BitSlot) : Option (Nat × Nat) → Bool
  | some (limit, used) => s.isBit && s.type.bitLimit == limit && decide (used + s.size ≤ limit)
  | none => false

/-- The bit of its window at which the field starts; 0 for a field on its own. -/
def start (s : BitSlot) : Option (Nat × Nat) → Nat
  | some (limit, used) => if s.goesInto (some (limit, used)) then used else 0
  | none => 0

/-- The window behind the field. -/
def after (s : BitSlot) (window : Option (Nat × Nat)) : Option (Nat × Nat) :=
  if s.isBit then some (s.type.bitLimit, s.start window + s.size) else none

/-- Where fields start, one after another. -/
def starts : Option (Nat × Nat) → List BitSlot → List Nat
  | _, [] => []
  | window, s :: rest => s.start window :: starts (s.after window) rest

theorem start_none (s : BitSlot) : s.start none = 0 := rfl

theorem start_of_not_goesInto {s : BitSlot} {window : Option (Nat × Nat)} (h : s.goesInto window = false) :
    s.start window = 0 := by
  rcases window with _ | ⟨limit, used⟩
  · rfl
  · rw [start, h, if_neg Bool.false_ne_true]

theorem goesInto_of_not_isBit {s : BitSlot} (h : s.isBit = false) (window : Option (Nat × Nat)) :
    s.goesInto window = false := by
  rcases window with _ | ⟨limit, used⟩
  · rfl
  · rw [goesInto, h]
    rfl

end BitSlot

def ParamdefField.slot (f : ParamdefField) : BitSlot := ⟨f.displayType, f.bitSize⟩

def FieldLayoutEntry.slot (e : FieldLayoutEntry) : BitSlot := ⟨e.displayType, e.declaredBitSize⟩

def ParamCell.slot (c : ParamCell) : BitSlot := ⟨c.displayType, c.bitSize⟩

/-- The fields of a description that count. -/
def Paramdef.slots (d : Paramdef) : List BitSlot :=
  (d.fields.filter fun f => !f.isRemoved d.versionAware).map ParamdefField.slot

/-- No bit field starts behind the first byte of its window: the bit fields before it in a window of 16 or 32
    bits take fewer than 8. -/
def Paramdef.startsLow (d : Paramdef) : Bool := (BitSlot.starts none d.slots).all fun start => decide (start < 8)

/-! ## The entries of a layout -/

/-- What every entry of a layout keeps to. -/
structure FieldLayoutEntry.Ok (e : FieldLayoutEntry) : Prop where
  isBitField : e.isBitField = e.slot.isBit
  bitSize : e.isBitField = true → e.bitSize = e.slot.size ∧ 0 < e.bitSize
  bitLimit : e.isBitField = true → e.bitLimit = e.displayType.bitLimit
  fits : e.isBitField = true → e.bitOffset + e.bitSize ≤ e.bitLimit
  byteCount : e.isBitField = false → e.byteCount ≠ 0

/-- The window of a layout that is being built. -/
def LayoutState.window (s : LayoutState) : Option (Nat × Nat) :=
  if s.bitsActive then some (s.bitLimit, s.bitOffset) else none

theorem map_modify_of_eq {α β : Type} {g : α → β} {f : α → α} (h : ∀ a, g (f a) = g a) (l : List α) (i : Nat) :
    (l.modify i f).map g = l.map g := by
  induction l generalizing i with
  | nil => simp
  | cons a l ih => cases i <;> simp [h, ih]

theorem mem_modify {α : Type} {P : α → Prop} {f : α → α} (h : ∀ a, P a → P (f a)) {l : List α}
    (hl : ∀ a ∈ l, P a) (i : Nat) : ∀ a ∈ l.modify i f, P a := by
  induction l generalizing i with
  | nil => simp
  | cons a l ih =>
      rw [List.forall_mem_cons] at hl
      cases i with
      | zero => simpa using ⟨h a hl.1, hl.2⟩
      | succ i => simpa using ⟨hl.1, ih hl.2 i⟩

/-- Where a run of fields leaves the window. -/
def BitSlot.afterAll (window : Option (Nat × Nat)) (slots : List BitSlot) : Option (Nat × Nat) :=
  slots.foldl (fun window s => s.after window) window

theorem BitSlot.starts_append (window : Option (Nat × Nat)) (l l' : List BitSlot) :
    starts window (l ++ l') = starts window l ++ starts (afterAll window l) l' := by
  induction l generalizing window with
  | nil => rfl
  | cons s l ih => simp [starts, ih, afterAll]

/-- What the entries say after the fields of these slots, and the window that is left. -/
structure LayoutState.Lays (s : LayoutState) (slots : List BitSlot) (window : Option (Nat × Nat)) : Prop where
  starts : s.entries.map FieldLayoutEntry.bitOffset = BitSlot.starts none slots
  slots : s.entries.map FieldLayoutEntry.slot = slots
  window : s.window = window
  ok : ∀ e ∈ s.entries, e.Ok

/-- Closing a window changes no slot and no place in a window. -/
theorem LayoutState.Lays.flush {s s' : LayoutState} {slots : List BitSlot} {window : Option (Nat × Nat)}
    (hs : s.Lays slots window) (h : layoutFlushBits s = .ok s') : s'.Lays slots none := by
  unfold layoutFlushBits at h
  split at h
  · next hidle =>
      cases h
      exact ⟨hs.starts, hs.slots, by simpa [LayoutState.window] using hidle, hs.ok⟩
  · split at h
    · cases h
    · split at h
      · cases h
      · cases h
        constructor
        · exact (map_modify_of_eq (f := fun e => { e with checkOrphanedBitsAfter := true }) (fun _ => rfl) _ _).trans
            hs.starts
        · exact (map_modify_of_eq (f := fun e => { e with checkOrphanedBitsAfter := true }) (fun _ => rfl) _ _).trans
            hs.slots
        · rfl
        · exact mem_modify (fun e he => ⟨he.1, he.2, he.3, he.4, he.5⟩) hs.ok _

/-- A field goes into the window that is open, or that window is closed and the field gets its own. -/
theorem layoutOpenWindow_cases {f : ParamdefField} {s s' : LayoutState} (hf : f.isBitField = true)
    (h : layoutOpenWindow f s = .ok s') :
    (f.slot.goesInto s.window = true ∧ s' = s ∧ s.bitsActive = true ∧ s.bitLimit = f.displayType.bitLimit ∧
      s.bitOffset + f.bitSize.toInt.toNat ≤ s.bitLimit) ∨
    (f.slot.goesInto s.window = false ∧ ∃ s1, layoutFlushBits s = .ok s1 ∧
      s' = { s1 with bitsActive := true, bitOffset := 0, bitLimit := f.displayType.bitLimit, lastBitIndex := none }) := by
  have hbit : f.slot.isBit = true := hf
  unfold layoutOpenWindow at h
  split at h
  · next hnew =>
      right
      constructor
      · rw [LayoutState.window]
        split
        · next hactive =>
            rw [hactive] at hnew
            simp only [BitSlot.goesInto, hbit, Bool.true_and, Bool.and_eq_false_iff, beq_eq_false_iff_ne,
              decide_eq_false_iff_not]
            rcases hnew with hnew | hnew | hnew
            · cases hnew
            · exact Or.inl hnew.symm
            · exact Or.inr (by simpa [BitSlot.size, ParamdefField.slot] using hnew)
        · rfl
      · obtain ⟨s1, hflush, h⟩ := except_bind_eq_ok.1 h
        cases h
        exact ⟨s1, hflush, rfl⟩
  · next hold =>
      left
      cases h
      simp only [not_or, Bool.not_eq_true, Bool.not_eq_false', ne_eq, Decidable.not_not, Nat.not_lt] at hold
      obtain ⟨hactive, hlimit, hroom⟩ := hold
      refine ⟨?_, rfl, hactive, hlimit, hroom⟩
      rw [LayoutState.window, hactive, if_pos rfl]
      simp only [BitSlot.goesInto, hbit, Bool.true_and, Bool.and_eq_true, beq_iff_eq, decide_eq_true_eq]
      exact ⟨hlimit.symm, hroom⟩

/-- A bit field finds a window of its type that has room, and starts behind the bits that are taken. -/
theorem LayoutState.Lays.openWindow {f : ParamdefField} {s s' : LayoutState} {slots : List BitSlot}
    {window : Option (Nat × Nat)} (hf : f.isBitField = true)
    (hfits : f.bitSize.toInt.toNat ≤ f.displayType.bitLimit) (hs : s.Lays slots window)
    (h : layoutOpenWindow f s = .ok s') :
    s'.Lays slots (some (f.displayType.bitLimit, f.slot.start window)) ∧ s'.bitLimit = f.displayType.bitLimit ∧
      s'.bitOffset = f.slot.start window ∧ f.slot.start window + f.bitSize.toInt.toNat ≤ f.displayType.bitLimit := by
  have hwindow := hs.window
  obtain ⟨hinto, rfl, hactive, hlimit, hroom⟩ | ⟨hnew, s1, hflush, rfl⟩ := layoutOpenWindow_cases hf h
  · have hw : window = some (s'.bitLimit, s'.bitOffset) := by
      rw [← hwindow, LayoutState.window, hactive, if_pos rfl]
    rw [hwindow, hw] at hinto
    have hstart : f.slot.start window = s'.bitOffset := by rw [hw, BitSlot.start, if_pos hinto]
    rw [hstart]
    refine ⟨⟨hs.starts, hs.slots, ?_, hs.ok⟩, hlimit, rfl, by rw [← hlimit]; exact hroom⟩
    rw [hwindow, hw, hlimit]
  · have hs1 := hs.flush hflush
    rw [BitSlot.start_of_not_goesInto (hwindow ▸ hnew)]
    exact ⟨⟨hs1.starts, hs1.slots, rfl, hs1.ok⟩, rfl, rfl, by simpa using hfits⟩

theorem bitEntry_ok {f : ParamdefField} {s : LayoutState} (hf : f.isBitField = true) (hpos : 0 < f.bitSize.toInt)
    (hlimit : s.bitLimit = f.displayType.bitLimit) (hfits : s.bitOffset + f.bitSize.toInt.toNat ≤ s.bitLimit) :
    (bitEntry f s).Ok where
  isBitField := hf.symm
  bitSize := fun _ => ⟨rfl, Int.pos_iff_toNat_pos.1 hpos⟩
  bitLimit := fun _ => hlimit
  fits := fun _ => hfits
  byteCount := nofun

theorem plainEntry_ok {f : ParamdefField} (offset : Nat) (hf : f.isBitField = false)
    (hcount : fieldByteCount f.displayType f.byteCount f.arrayLength ≠ 0) : (plainEntry f offset).Ok where
  isBitField := hf.symm
  bitSize := nofun
  bitLimit := nofun
  fits := nofun
  byteCount := fun _ => hcount

/-- A field adds its slot and its place. -/
theorem LayoutState.Lays.field {versionAware : Bool} {f : ParamdefField} {s s' : LayoutState} {slots : List BitSlot}
    (hf : f.isRemoved versionAware = false)
    (hs : s.Lays slots (BitSlot.afterAll none slots)) (h : layoutField versionAware s f = .ok s') :
    s'.Lays (slots ++ [f.slot]) (BitSlot.afterAll none (slots ++ [f.slot])) := by
  have hafter : BitSlot.afterAll none (slots ++ [f.slot]) = f.slot.after (BitSlot.afterAll none slots) := by
    simp [BitSlot.afterAll]
  rw [layoutField, hf, if_neg Bool.false_ne_true] at h
  split at h
  · next hbit =>
      unfold layoutBitField at h
      split at h
      · cases h
      · next hpos =>
          split at h
          · cases h
          · next hlimit =>
              rw [not_or, Nat.not_lt] at hlimit
              obtain ⟨s1, hopen, h⟩ := except_bind_eq_ok.1 h
              cases h
              obtain ⟨hs1, hlimit1, hoffset1, hfits⟩ := hs.openWindow hbit hlimit.2 hopen
              have hisBit : f.slot.isBit = true := hbit
              refine ⟨?_, ?_, ?_, ?_⟩
              · rw [BitSlot.starts_append]
                simp [hs1.starts, BitSlot.starts, bitEntry, hoffset1]
              · simp [hs1.slots, bitEntry, FieldLayoutEntry.slot, ParamdefField.slot]
              · rw [hafter, BitSlot.after, hisBit, if_pos rfl, ← hoffset1]
                have hwindow := hs1.window
                rw [LayoutState.window] at hwindow ⊢
                split at hwindow
                · next hactive =>
                    simp only [hactive, if_pos]
                    rw [hlimit1]
                    rfl
                · cases hwindow
              · intro e he
                rcases List.mem_append.1 he with he | he
                · exact hs1.ok e he
                · rw [List.mem_singleton] at he
                  rw [he]
                  exact bitEntry_ok hbit (by omega) hlimit1 (by rw [hoffset1, hlimit1]; exact hfits)
  · next hplain =>
      rw [Bool.not_eq_true] at hplain
      obtain ⟨s1, hflush, h⟩ := except_bind_eq_ok.1 h
      have hs1 := hs.flush hflush
      dsimp only at h
      split at h
      · cases h
      · next hcount =>
          split at h
          · cases h
          · cases h
            have hisBit : f.slot.isBit = false := hplain
            refine ⟨?_, ?_, ?_, ?_⟩
            · rw [BitSlot.starts_append]
              simp [hs1.starts, BitSlot.starts, plainEntry,
                BitSlot.start_of_not_goesInto (BitSlot.goesInto_of_not_isBit hisBit _)]
            · simp [hs1.slots, plainEntry, FieldLayoutEntry.slot, ParamdefField.slot]
            · rw [hafter, BitSlot.after, hisBit, if_neg Bool.false_ne_true]
              exact hs1.window
            · intro e he
              rcases List.mem_append.1 he with he | he
              · exact hs1.ok e he
              · rw [List.mem_singleton] at he
                rw [he]
                exact plainEntry_ok _ hplain hcount

/-- The fields that count, from a list. -/
def countedSlots (versionAware : Bool) (fields : List ParamdefField) : List BitSlot :=
  (fields.filter fun f => !f.isRemoved versionAware).map ParamdefField.slot

theorem countedSlots_append {versionAware : Bool} (done : List ParamdefField) {f : ParamdefField}
    (hf : f.isRemoved versionAware = false) :
    countedSlots versionAware (done ++ [f]) = countedSlots versionAware done ++ [f.slot] := by
  simp [countedSlots, hf]

theorem countedSlots_append_removed {versionAware : Bool} (done : List ParamdefField) {f : ParamdefField}
    (hf : f.isRemoved versionAware = true) :
    countedSlots versionAware (done ++ [f]) = countedSlots versionAware done := by
  simp [countedSlots, hf]

/-- The entries of these fields. -/
def LayoutState.Follows (versionAware : Bool) (done : List ParamdefField) (s : LayoutState) : Prop :=
  s.Lays (countedSlots versionAware done) (BitSlot.afterAll none (countedSlots versionAware done))

theorem LayoutState.Follows.step {versionAware : Bool} (done : List ParamdefField) (f : ParamdefField)
    (s s' : LayoutState) (hs : s.Follows versionAware done) (h : layoutField versionAware s f = .ok s') :
    s'.Follows versionAware (done ++ [f]) := by
  rw [Follows]
  cases hf : f.isRemoved versionAware
  · rw [countedSlots_append done hf]
    exact hs.field hf h
  · rw [layoutField, hf, if_pos rfl] at h
    cases h
    rw [countedSlots_append_removed done hf]
    exact hs

/-- The entries say where the fields start. -/
theorem layoutFields_lays {versionAware : Bool} {fields : List ParamdefField} {s : LayoutState}
    (h : layoutFields versionAware fields = .ok s) : s.Lays (countedSlots versionAware fields) none := by
  obtain ⟨s1, hfold, hflush⟩ := except_bind_eq_ok.1 h
  have hinit : LayoutState.Follows versionAware [] {} := ⟨rfl, rfl, rfl, fun e he => absurd he List.not_mem_nil⟩
  have hs1 : LayoutState.Follows versionAware ([] ++ fields) s1 :=
    foldlM_invariant LayoutState.Follows.step hinit hfold
  rw [List.nil_append, LayoutState.Follows] at hs1
  exact hs1.flush hflush

end SoulsFormats
