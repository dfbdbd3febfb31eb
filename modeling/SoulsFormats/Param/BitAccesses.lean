import Mathlib.Algebra.Order.BigOperators.Group.List
import SoulsFormats.Param.BitWindows

set_option autoImplicit false

/-! # Accesses to the windows of bit fields

The helpers that move bits load and store the eight bytes from the byte on in which the bits start, and the
window is eight bytes long: they are called inside the window exactly if the bits start in its first byte. -/

namespace SoulsFormats

open Bytes Fallible

/-! ## The precondition of the helpers -/

theorem extractBitsUnsigned_of_low (buf : ByteArr 8) {bitOffset bitSize : Nat} (hlow : bitOffset < 8)
    (hpos : 0 < bitSize) (hle : bitSize ≤ 32) : ∃ v, extractBitsUnsigned buf bitOffset bitSize = .ok v := by
  rw [extractBitsUnsigned, if_neg (by omega)]
  exact ⟨_, rfl⟩

theorem extractBitsUnsigned_of_high (buf : ByteArr 8) {bitOffset : Nat} (bitSize : Nat) (hhigh : 8 ≤ bitOffset) :
    extractBitsUnsigned buf bitOffset bitSize = .error .undefinedBehaviour := by
  rw [extractBitsUnsigned, if_pos (by omega)]

theorem extractBitsSigned_of_low (buf : ByteArr 8) {bitOffset bitSize : Nat} (hlow : bitOffset < 8)
    (hpos : 0 < bitSize) (hle : bitSize ≤ 32) : ∃ v, extractBitsSigned buf bitOffset bitSize = .ok v := by
  obtain ⟨u, hu⟩ := extractBitsUnsigned_of_low buf hlow hpos hle
  simp only [extractBitsSigned, hu, Bind.bind, Except.bind]
  split
  · exact ⟨_, rfl⟩
  · exact ⟨_, rfl⟩

theorem insertBits_of_low (buf : ByteArr 8) {bitOffset bitSize : Nat} (value : UInt64) (hlow : bitOffset < 8)
    (hpos : 0 < bitSize) (hle : bitSize ≤ 32) : ∃ window, insertBits buf bitOffset bitSize value = .ok window := by
  rw [insertBits, dif_neg (by omega)]
  exact ⟨_, rfl⟩

theorem FieldLayoutEntry.Ok.bitSize_le {e : FieldLayoutEntry} (he : e.Ok) (hbit : e.isBitField = true) :
    0 < e.bitSize ∧ e.bitSize ≤ 32 := by
  have hfits := he.fits hbit
  have hlimit := he.bitLimit hbit
  have hle := e.displayType.bitLimit_le
  exact ⟨(he.bitSize hbit).2, by omega⟩

theorem extractBits_of_low {e : FieldLayoutEntry} (he : e.Ok) (hbit : e.isBitField = true) (hlow : e.bitOffset < 8)
    (bits : BitReadState) : ∃ r, extractBits e bits = .ok r := by
  obtain ⟨hpos, hle⟩ := he.bitSize_le hbit
  unfold extractBits
  split
  · obtain ⟨v, hv⟩ := extractBitsSigned_of_low bits.window hlow hpos hle
    exact ⟨_, by rw [hv]; rfl⟩
  · obtain ⟨v, hv⟩ := extractBitsUnsigned_of_low bits.window hlow hpos hle
    exact ⟨_, by rw [hv]; rfl⟩

theorem extractBits_of_high {e : FieldLayoutEntry} (hhigh : 8 ≤ e.bitOffset) (bits : BitReadState) :
    extractBits e bits = .error .undefinedBehaviour := by
  have hu := extractBitsUnsigned_of_high bits.window e.bitSize hhigh
  unfold extractBits
  split
  · rw [extractBitsSigned, hu]
    rfl
  · rw [hu]
    rfl

/-! ## The property -/

/-- While a row is read by a layout, the helpers are called inside the window. -/
def FieldLayout.ReadsInside (os : Win32) (layout : FieldLayout) : Prop :=
  ∀ (bigEndian : Bool) (parentRow : Nat) (data : List UInt8) (heap heap' : Heap) (entry : FieldLayoutEntry)
    (rest : List FieldLayoutEntry) (s : ReadCells) (bits : BitReadState),
    Visits (readCell os bigEndian parentRow data) layout.entries {} heap (entry :: rest) s heap' →
    entry.isBitField = true → readBitWindow bigEndian entry data s.bits = .ok bits →
    extractBits entry bits ≠ .error .undefinedBehaviour

/-- A cell of an entry, with a value of its kind. -/
def ParamCell.LaidBy (cell : ParamCell) (entry : FieldLayoutEntry) : Prop :=
  ∃ parentRow value, value.kind = entry.cellKind ∧ cell = initCellFromLayout entry parentRow value

/-- While the bytes of a row are made of cells of a layout, the helper is called inside the window. -/
def FieldLayout.WritesInside (os : Win32) (layout : FieldLayout) : Prop :=
  ∀ (bigEndian : Bool) (cells : List ParamCell) (size : Nat) (heap heap' : Heap) (cell : ParamCell)
    (rest : List ParamCell) (s s' : WrittenCells) (bits : BitWriteState),
    List.Forall₂ ParamCell.LaidBy cells layout.entries →
    Visits (writeCell os bigEndian) cells ⟨List.replicate size 0, 0, none⟩ heap (cell :: rest) s heap' →
    cell.isBit = true →
    writeBitWindow bigEndian cell.displayType.bitLimit cell.bitSize.toInt.toNat s = .ok (s', bits) →
    insertBits bits.window bits.bitOffset cell.bitSize.toInt.toNat (cellBitValue cell) ≠ .error .undefinedBehaviour

/-! ## Reading a row of zeros -/

section Zeros

variable (os : Win32) (bigEndian : Bool)

theorem loadWord_zeros {size offset n : Nat} (h : offset + n ≤ size) :
    loadWord (List.replicate size 0) offset n bigEndian = .ok 0 := by
  rw [loadWord, if_neg (by simpa using h), List.drop_replicate, List.take_replicate]
  have hzero : wordNat bigEndian (List.replicate (min n (size - offset)) 0) = 0 :=
    (wordNat_eq_zero bigEndian).2 fun b hb => List.eq_of_mem_replicate hb
  rw [hzero]

theorem checkRange_ok {offset need size : Nat} (h : offset + need ≤ size) : checkRange offset need size = .ok () := by
  rw [checkRange, if_neg (by omega)]

theorem fixstrWText_zeros (n : Nat) : fixstrWText (List.replicate n 0) = [] := by
  match n with
  | 0 => rfl
  | 1 => rfl
  | n + 2 => rfl

theorem cText_zeros (n : Nat) : cText (List.replicate n 0) = [] := by
  cases n with
  | zero => rfl
  | succ n => rfl

theorem setCellBytes_granted (bytes : List UInt8) : setCellBytes bytes [] = (.ok bytes, []) := by
  unfold setCellBytes given
  split <;> rfl

theorem setCellFixstr_zeros (n : Nat) : setCellFixstr os (List.replicate n 0) [] = (.ok [], []) := by
  rw [setCellFixstr, cText_zeros]
  rfl

theorem setCellFixstrW_zeros (n : Nat) : setCellFixstrW os bigEndian (List.replicate n 0) [] = (.ok [], []) := by
  rw [setCellFixstrW, fixstrWText_zeros]
  cases bigEndian <;> rfl

/-- A field on its own is read from zeros. -/
theorem readNonbitCell_zeros (type : ParamdefDefType) (arrayLength : Int32) {size offset count : Nat}
    (hcount : count ≠ 0) (hsize : offset + count + 8 ≤ size) :
    ∃ value, readNonbitCell os bigEndian type arrayLength (List.replicate size 0) offset count [] = (.ok value, []) := by
  have hword : ∀ n ≤ 8, loadWord (List.replicate size 0) offset n bigEndian = .ok 0 :=
    fun n hn => loadWord_zeros bigEndian (by omega)
  have hbytes : ((List.replicate size (0 : UInt8)).drop offset).take count = List.replicate count 0 := by
    rw [List.drop_replicate, List.take_replicate, Nat.min_eq_left (by omega)]
  have hrange : checkRange offset count (List.replicate size (0 : UInt8)).length = .ok () := by
    rw [List.length_replicate]
    exact checkRange_ok (by omega)
  unfold readNonbitCell
  rw [check_bind_pos hcount, bind_run, lift_run, hrange]
  simp only [hbytes]
  cases type
  case u8 =>
    dsimp only
    split
    · exact ⟨_, by rw [bind_run, setCellBytes_granted]; rfl⟩
    · exact ⟨_, by rw [bind_run, lift_run, hword 1 (by decide)]; rfl⟩
  case dummy8 => exact ⟨_, by dsimp only; rw [bind_run, setCellBytes_granted]; rfl⟩
  case fixstr => exact ⟨_, by dsimp only; rw [bind_run, setCellFixstr_zeros]; rfl⟩
  case fixstrW => exact ⟨_, by dsimp only; rw [bind_run, setCellFixstrW_zeros]; rfl⟩
  case s8 => exact ⟨_, by dsimp only; rw [bind_run, lift_run, hword 1 (by decide)]; rfl⟩
  case s16 | u16 => exact ⟨_, by dsimp only; rw [bind_run, lift_run, hword 2 (by decide)]; rfl⟩
  case s64 | u64 | f64 => exact ⟨_, by dsimp only; rw [bind_run, lift_run, hword 8 (by decide)]; rfl⟩
  all_goals exact ⟨_, by dsimp only; rw [bind_run, lift_run, hword 4 (by decide)]; rfl⟩

/-- The windows of a row of zeros. -/
def ReadCells.Zeros (s : ReadCells) : Prop := ∀ bits, s.bits = some bits → bits.bitValue = 0

theorem startReadBits_zeros {size offset bitLimit : Nat} (hlimit : bitLimit = 8 ∨ bitLimit = 16 ∨ bitLimit = 32)
    (hsize : offset + bitLimit ≤ size) :
    ∃ bits, startReadBits bigEndian (List.replicate size 0) offset bitLimit = .ok bits ∧ bits.bitValue = 0 := by
  have hrange : checkRange offset (bitLimit / 8) (List.replicate size (0 : UInt8)).length = .ok () := by
    rw [List.length_replicate]
    exact checkRange_ok (by omega)
  have hload : loadBitWindow (List.replicate size 0) offset (bitLimit / 8) bigEndian = .ok 0 := by
    rw [loadBitWindow, if_pos (by omega), loadWord_zeros bigEndian (by omega)]
    rfl
  exact ⟨_, by rw [startReadBits, hrange, hload]; rfl, rfl⟩

theorem readBitWindow_zeros {e : FieldLayoutEntry} {s : ReadCells} {size : Nat} (hs : s.Zeros)
    (hlimit : e.bitLimit = 8 ∨ e.bitLimit = 16 ∨ e.bitLimit = 32) (hsize : e.byteOffset + e.bitLimit ≤ size) :
    ∃ bits, readBitWindow bigEndian e (List.replicate size 0) s.bits = .ok bits ∧ bits.bitValue = 0 := by
  have hstart := startReadBits_zeros bigEndian hlimit hsize
  rcases hbits : s.bits with _ | bits
  · exact hstart
  · unfold readBitWindow
    dsimp only
    split
    · exact hstart
    · exact ⟨bits, rfl, hs bits hbits⟩

theorem detectOrphanedBits_zero (bitOffset : Nat) : detectOrphanedBits 0 bitOffset = false := by
  simp [detectOrphanedBits]

theorem FieldLayoutEntry.Ok.limit_cases {e : FieldLayoutEntry} (he : e.Ok) (hbit : e.isBitField = true) :
    e.bitLimit = 8 ∨ e.bitLimit = 16 ∨ e.bitLimit = 32 := by
  have hslot : e.slot.isBit = true := he.isBitField ▸ hbit
  rw [BitSlot.isBit, Bool.and_eq_true] at hslot
  rw [he.bitLimit hbit]
  have htype : e.displayType.isBitType = true := hslot.1
  revert htype
  cases e.displayType <;> decide

/-- An integral value is there for every type of bit fields. -/
theorem assignIntegralCell_ok {type : ParamdefDefType} (h : type.isBitType = true) (signedRaw : Int64) (raw : UInt64) :
    ∃ value, assignIntegralCell type signedRaw raw = .ok value := by
  cases type <;> first | exact ⟨_, rfl⟩ | cases h

/-- An entry that starts low is read from zeros. -/
theorem readCell_zeros {e : FieldLayoutEntry} (he : e.Ok) (hlow : e.bitOffset < 8) (parentRow : Nat)
    (rest : List FieldLayoutEntry) {s : ReadCells} {size : Nat} (hs : s.Zeros)
    (hsize : e.byteOffset + e.byteCount + e.bitLimit + 8 ≤ size) :
    ∃ s', readCell os bigEndian parentRow (List.replicate size 0) e rest s [] = (.ok s', []) ∧ s'.Zeros := by
  unfold readCell
  split
  · next hbit =>
      obtain ⟨bits, hwindow, hzero⟩ := readBitWindow_zeros bigEndian hs (he.limit_cases hbit)
        (show e.byteOffset + e.bitLimit ≤ size by omega)
      obtain ⟨⟨signedRaw, raw⟩, hextract⟩ := extractBits_of_low he hbit hlow bits
      have htype : e.displayType.isBitType = true := by
        have hslot : e.slot.isBit = true := he.isBitField ▸ hbit
        rw [BitSlot.isBit, Bool.and_eq_true] at hslot
        exact hslot.1
      obtain ⟨value, hvalue⟩ := assignIntegralCell_ok htype signedRaw raw
      have hread : readLayoutBitCell bigEndian e (List.replicate size 0) s.bits = .ok (value, bits) := by
        rw [readLayoutBitCell, hwindow]
        simp only [Bind.bind, Except.bind, hextract, hvalue, hzero, detectOrphanedBits_zero, Bool.false_eq_true,
          and_false, if_false]
        rfl
      refine ⟨_, by rw [bind_run, lift_run, hread]; rfl, ?_⟩
      intro bits' hbits'
      cases hbits'
      exact hzero
  · next hplain =>
      rw [Bool.not_eq_true] at hplain
      obtain ⟨value, hvalue⟩ := readNonbitCell_zeros os bigEndian e.displayType e.arrayLength (he.byteCount hplain)
        (show e.byteOffset + e.byteCount + 8 ≤ size by omega)
      exact ⟨⟨s.cells ++ [initCellFromLayout e parentRow value], s.bits⟩, by rw [bind_run, hvalue]; rfl,
        fun bits hbits => hs bits hbits⟩

end Zeros

/-! ## Reading -/

theorem mem_of_visits {σ τ ε α : Type} {step : α → List α → τ → Fallible σ ε τ} {a : α} {l rest : List α} {t t' : τ}
    {s s' : σ} (h : Visits step l t s (a :: rest) t' s') : a ∈ l := by
  have hsuffix : (a :: rest) <:+ l := by
    apply h.invariant (I := fun l' _ _ => l' <:+ l)
    · intro b l' _ _ _ _ hl' _
      exact (List.suffix_cons b l').trans hl'
    · exact List.suffix_refl l
  exact hsuffix.subset List.mem_cons_self

theorem FieldLayout.readsInside_of_low {os : Win32} {layout : FieldLayout} (hok : ∀ e ∈ layout.entries, e.Ok)
    (hlow : ∀ e ∈ layout.entries, e.bitOffset < 8) : layout.ReadsInside os := by
  intro bigEndian parentRow data heap heap' e rest s bits hvisits hbit _ hextract
  have he := mem_of_visits hvisits
  obtain ⟨r, hr⟩ := extractBits_of_low (hok e he) hbit (hlow e he) bits
  rw [hr] at hextract
  cases hextract

/-- A row of zeros leads to the first entry that does not start low. -/
theorem FieldLayout.low_of_readsInside {os : Win32} {layout : FieldLayout} (hok : ∀ e ∈ layout.entries, e.Ok)
    (hplain : ∀ e ∈ layout.entries, e.isBitField = false → e.bitOffset < 8) (h : layout.ReadsInside os) :
    ∀ e ∈ layout.entries, e.bitOffset < 8 := by
  by_contra hcon
  push Not at hcon
  obtain ⟨bad, hbadmem, hbad⟩ := hcon
  obtain ⟨e, hfind⟩ := Option.isSome_iff_exists.1
    (List.find?_isSome (p := fun e : FieldLayoutEntry => decide (8 ≤ e.bitOffset)) |>.2 ⟨bad, hbadmem, by simpa⟩)
  obtain ⟨hhigh, before, after, hsplit, hbefore⟩ := List.find?_eq_some_iff_append.1 hfind
  have hhigh : 8 ≤ e.bitOffset := by simpa using hhigh
  have hemem : e ∈ layout.entries := by simp [hsplit]
  have hbit : e.isBitField = true := by
    by_contra hne
    have := hplain e hemem (by simpa using hne)
    omega
  let room (e : FieldLayoutEntry) : Nat := e.byteOffset + e.byteCount + e.bitLimit + 8
  have hroom : ∀ e ∈ layout.entries, room e ≤ (layout.entries.map room).sum :=
    fun e he => List.le_sum_of_mem (List.mem_map_of_mem he)
  let read := readCell os false 0 (List.replicate (layout.entries.map room).sum 0)
  have hround : ∀ a ∈ before, ∀ l (t : ReadCells) (s : Heap), s = [] ∧ t.Zeros →
      ∃ t1 s1, read a l t s = (.ok t1, s1) ∧ s1 = [] ∧ t1.Zeros := by
    rintro a ha l t s ⟨rfl, ht⟩
    have hmem : a ∈ layout.entries := by simp [hsplit, ha]
    have hlow : a.bitOffset < 8 := by simpa using hbefore a ha
    obtain ⟨t1, hrun, ht1⟩ := readCell_zeros os false (hok a hmem) hlow 0 l ht (hroom a hmem)
    exact ⟨t1, [], hrun, rfl, ht1⟩
  have hvisits : ∃ t' s', Visits read (before ++ e :: after) {} [] (e :: after) t' s' ∧ s' = [] ∧ t'.Zeros :=
    visits_of_rounds (I := fun _ t s => s = [] ∧ ReadCells.Zeros t) hround ⟨rfl, nofun⟩
  obtain ⟨s, heap', hvisits, hheap, hzeros⟩ := hvisits
  have hfits : e.byteOffset + e.bitLimit ≤ (layout.entries.map room).sum := by
    have := hroom e hemem
    dsimp only [room] at this ⊢
    omega
  obtain ⟨bits, hwindow, -⟩ := readBitWindow_zeros false hzeros ((hok e hemem).limit_cases hbit) hfits
  rw [← hsplit] at hvisits
  exact h false 0 _ _ _ e after s bits hvisits hbit hwindow (extractBits_of_high hhigh bits)

/-! ## Writing -/

/-- The cells that are left, with the window that the layout is in behind the cells before them: the window that is
    written is that one, or none where the next cell starts a new one. -/
structure WrittenCells.At (s : WrittenCells) (rest : List ParamCell) (window : Option (Nat × Nat)) : Prop where
  low : ∀ start ∈ BitSlot.starts window (rest.map ParamCell.slot), start < 8
  sized : ∀ c ∈ rest, c.isBit = true → 0 < c.bitSize.toInt ∧ c.bitSize.toInt.toNat ≤ c.displayType.bitLimit
  open_ : ∀ bits, s.bits = some bits → window = some (bits.bitLimit, bits.bitOffset)
  closed : s.bits = none → ∀ next later, rest = next :: later → next.slot.start window = 0

theorem flushWriteBits_bits {bigEndian : Bool} {s s' : WrittenCells} (h : flushWriteBits bigEndian s = .ok s') :
    s'.bits = none := by
  unfold flushWriteBits at h
  split at h
  · next hnone =>
      cases h
      exact hnone
  · obtain ⟨-, -, h⟩ := except_bind_eq_ok.1 h
    obtain ⟨out, -, h⟩ := except_bind_eq_ok.1 h
    cases h
    rfl

theorem slot_start_of_misfit {c : ParamCell} {limit used : Nat}
    (h : c.isBit = true → limit ≠ c.displayType.bitLimit ∨ limit < used + c.bitSize.toInt.toNat) :
    c.slot.start (some (limit, used)) = 0 := by
  apply BitSlot.start_of_not_goesInto
  rw [BitSlot.goesInto]
  cases hbit : c.isBit
  · have hslot : c.slot.isBit = false := hbit
    rw [hslot]
    rfl
  · rcases h hbit with hlimit | hroom
    · have hne : (c.slot.type.bitLimit == limit) = false := by simpa [ParamCell.slot] using Ne.symm hlimit
      simp [hne]
    · have hlt : ¬ used + c.slot.size ≤ limit := by simpa [ParamCell.slot, BitSlot.size] using hroom
      simp [hlt]

/-- The window of a cell is of its type, and the cell is put where it starts in the layout. -/
theorem writeBitWindow_spec {bigEndian : Bool} {c : ParamCell} {rest : List ParamCell} {s s' : WrittenCells}
    {bits : BitWriteState} {window : Option (Nat × Nat)} (hs : s.At (c :: rest) window) (hbit : c.isBit = true)
    (h : writeBitWindow bigEndian c.displayType.bitLimit c.bitSize.toInt.toNat s = .ok (s', bits)) :
    bits.bitLimit = c.displayType.bitLimit ∧ bits.bitOffset = c.slot.start window := by
  have hslot : c.slot.isBit = true := hbit
  unfold writeBitWindow at h
  rcases hbits : s.bits with _ | old
  · rw [hbits] at h
    dsimp only [Option.getD] at h
    have hfits := (hs.sized c List.mem_cons_self hbit).2
    have hstart := hs.closed hbits c rest rfl
    have hroom : ¬ ((emptyWindow c.displayType.bitLimit).bitLimit ≠ c.displayType.bitLimit ∨
        (emptyWindow c.displayType.bitLimit).bitLimit <
          (emptyWindow c.displayType.bitLimit).bitOffset + c.bitSize.toInt.toNat) := by
      dsimp only [emptyWindow]
      omega
    rw [if_neg hroom] at h
    cases h
    exact ⟨rfl, hstart.symm⟩
  · rw [hbits] at h
    dsimp only [Option.getD] at h
    have hwindow := hs.open_ old hbits
    split at h
    · next hnew =>
        obtain ⟨s1, -, h⟩ := except_bind_eq_ok.1 h
        cases h
        refine ⟨rfl, ?_⟩
        rw [hwindow, slot_start_of_misfit fun _ => hnew]
        rfl
    · next hold =>
        cases h
        simp only [not_or, ne_eq, Decidable.not_not, Nat.not_lt] at hold
        refine ⟨hold.1, ?_⟩
        rw [hwindow, BitSlot.start, if_pos]
        simp only [BitSlot.goesInto, hslot, Bool.true_and, Bool.and_eq_true, beq_iff_eq, decide_eq_true_eq]
        exact ⟨hold.1.symm, hold.2⟩

/-- Where the window is closed behind a cell, the next cell starts a new one. -/
theorem start_of_nextRequiresBitFlush {next : ParamCell} {later : List ParamCell} {bits : BitWriteState}
    (hsized : next.isBit = true → 0 < next.bitSize.toInt) (h : nextRequiresBitFlush (next :: later) bits = true) :
    next.slot.start (some (bits.bitLimit, bits.bitOffset)) = 0 := by
  apply slot_start_of_misfit
  intro hbit
  have hpos := hsized hbit
  rw [ParamCell.isBit, Bool.and_eq_true, bne_iff_ne] at hbit
  simp only [nextRequiresBitFlush, hbit.1, Bool.not_true, Bool.false_or, Bool.or_eq_true, decide_eq_true_eq, hbit.2,
    false_or] at h
  rcases h with (hlimit | hle) | hroom
  · exact Or.inl (Ne.symm hlimit)
  · omega
  · exact Or.inr hroom

theorem writeBitCell_at {bigEndian : Bool} {c : ParamCell} {rest : List ParamCell} {s s' : WrittenCells}
    {window : Option (Nat × Nat)} (hs : s.At (c :: rest) window) (hbit : c.isBit = true)
    (h : writeBitCell bigEndian c rest s = .ok s') : s'.At rest (c.slot.after window) := by
  have hslot : c.slot.isBit = true := hbit
  have hsized : ∀ d ∈ rest, d.isBit = true → 0 < d.bitSize.toInt ∧ d.bitSize.toInt.toNat ≤ d.displayType.bitLimit :=
    fun d hd => hs.sized d (List.mem_cons_of_mem c hd)
  have hlow : ∀ start ∈ BitSlot.starts (c.slot.after window) (rest.map ParamCell.slot), start < 8 :=
    fun start hstart => hs.low start (List.mem_cons_of_mem _ hstart)
  unfold writeBitCell at h
  split at h
  · cases h
  split at h
  · cases h
  obtain ⟨⟨s1, bits⟩, hwindow, h⟩ := except_bind_eq_ok.1 h
  obtain ⟨filled, -, h⟩ := except_bind_eq_ok.1 h
  obtain ⟨hlimit, hoffset⟩ := writeBitWindow_spec hs hbit hwindow
  have hafter : c.slot.after window = some (bits.bitLimit, bits.bitOffset + c.bitSize.toInt.toNat) := by
    rw [BitSlot.after, hslot, if_pos rfl, hlimit, hoffset]
    rfl
  dsimp only at h
  split at h
  · next hflush =>
      have hnone := flushWriteBits_bits h
      refine ⟨hlow, hsized, fun b hb => ?_, fun _ next later hrest => ?_⟩
      · rw [hnone] at hb
        cases hb
      · rw [hrest] at hflush
        rw [hafter]
        exact start_of_nextRequiresBitFlush (fun hnext => (hsized next (by simp [hrest]) hnext).1) hflush
  · cases h
    refine ⟨hlow, hsized, fun b hb => ?_, fun hnone => absurd hnone (Option.some_ne_none _)⟩
    cases hb
    exact hafter

theorem writeBytesCell_bits {bytes : List UInt8} {s s' : WrittenCells} (h : writeBytesCell bytes s = .ok s') :
    s'.bits = s.bits := by
  obtain ⟨-, -, h⟩ := except_bind_eq_ok.1 h
  cases h
  rfl

/-- A field on its own does not touch the window. -/
theorem writeNonbitCell_bits (os : Win32) (bigEndian : Bool) (c : ParamCell) (s : WrittenCells) (heap : Heap) :
    Post (writeNonbitCell os bigEndian c s) heap fun s' _ => s'.bits = s.bits := by
  have hword : ∀ n v size heap, Post (do
      let out ← lift (storeWord s.out s.offset n v bigEndian)
      pure { s with out := out, offset := s.offset + size } : Fallible Heap SfError WrittenCells) heap
      fun s' _ => s'.bits = s.bits := by
    intro n v size heap
    exact Post.bind (P := fun _ _ => True) (fun _ _ _ => trivial) fun _ _ _ => Post.pure rfl
  have hbytes : ∀ bytes heap, Post (lift (writeBytesCell bytes s) : Fallible Heap SfError WrittenCells) heap
      fun s' _ => s'.bits = s.bits := by
    intro bytes heap s' heap' hrun
    rw [lift_run, Prod.mk.injEq] at hrun
    exact writeBytesCell_bits hrun.1
  unfold writeNonbitCell
  refine Post.bind (P := fun _ _ => True) (fun _ _ _ => trivial) fun _ heap1 _ => ?_
  refine Post.bind (P := fun _ _ => True) (fun _ _ _ => trivial) fun _ heap2 _ => ?_
  cases c.value
  case dummy8Bit => exact Post.fail
  case u8Array | dummy8Array => exact hbytes _ _
  case fixstr =>
    refine Post.bind (P := fun _ _ => True) (fun _ _ _ => trivial) fun _ _ _ => ?_
    exact Post.pure rfl
  case fixstrW =>
    dsimp only
    cases bigEndian
    · refine Post.bind (P := fun _ _ => True) (fun _ _ _ => trivial) fun _ _ _ => ?_
      exact Post.pure rfl
    · refine Post.bind (P := fun _ _ => True) (fun _ _ _ => trivial) fun _ _ _ => ?_
      exact Post.pure rfl
  all_goals exact hword _ _ _ _

theorem writeCell_at {os : Win32} {bigEndian : Bool} {c : ParamCell} {rest : List ParamCell} {s s' : WrittenCells}
    {heap heap' : Heap} {window : Option (Nat × Nat)} (hs : s.At (c :: rest) window)
    (h : writeCell os bigEndian c rest s heap = (.ok s', heap')) : s'.At rest (c.slot.after window) := by
  unfold writeCell at h
  split at h
  · next hbit =>
      rw [lift_run, Prod.mk.injEq] at h
      exact writeBitCell_at hs hbit h.1
  · next hplain =>
      obtain ⟨s1, heap1, hflush, h⟩ := bind_eq_ok.1 h
      rw [lift_run, Prod.mk.injEq] at hflush
      have hnone : s'.bits = none := by
        rw [writeNonbitCell_bits os bigEndian c s1 heap1 s' heap' h]
        exact flushWriteBits_bits hflush.1
      have hslot : c.slot.isBit = false := Bool.eq_false_iff.2 hplain
      have hafter : c.slot.after window = none := by rw [BitSlot.after, hslot, if_neg Bool.false_ne_true]
      refine ⟨fun start hstart => hs.low start (List.mem_cons_of_mem _ hstart),
        fun d hd => hs.sized d (List.mem_cons_of_mem c hd), fun b hb => ?_, fun _ next later _ => ?_⟩
      · rw [hnone] at hb
        cases hb
      · rw [hafter]
        rfl

theorem map_slot_of_laidBy {cells : List ParamCell} {entries : List FieldLayoutEntry}
    (h : List.Forall₂ ParamCell.LaidBy cells entries) :
    cells.map ParamCell.slot = entries.map FieldLayoutEntry.slot := by
  induction h with
  | nil => rfl
  | cons hcell _ ih =>
      obtain ⟨parentRow, value, -, rfl⟩ := hcell
      rw [List.map_cons, List.map_cons, ih]
      rfl

theorem sized_of_laidBy {cells : List ParamCell} {entries : List FieldLayoutEntry}
    (h : List.Forall₂ ParamCell.LaidBy cells entries) (hok : ∀ e ∈ entries, e.Ok) :
    ∀ c ∈ cells, c.isBit = true → 0 < c.bitSize.toInt ∧ c.bitSize.toInt.toNat ≤ c.displayType.bitLimit := by
  induction h with
  | nil => exact fun e he => absurd he List.not_mem_nil
  | @cons c e cells entries hcell _ ih =>
      rw [List.forall_mem_cons] at hok ⊢
      refine ⟨fun hbit => ?_, ih hok.2⟩
      obtain ⟨parentRow, value, -, rfl⟩ := hcell
      have he : e.isBitField = true := hok.1.isBitField ▸ hbit
      obtain ⟨hsize, hpos⟩ := hok.1.bitSize he
      have hfits := hok.1.fits he
      have hlimit := hok.1.bitLimit he
      have hsize' : e.bitSize = e.declaredBitSize.toInt.toNat := hsize
      show 0 < e.declaredBitSize.toInt ∧ e.declaredBitSize.toInt.toNat ≤ e.displayType.bitLimit
      omega

theorem FieldLayout.writesInside_of_low {os : Win32} {layout : FieldLayout} (hok : ∀ e ∈ layout.entries, e.Ok)
    (hlow : ∀ start ∈ BitSlot.starts none (layout.entries.map FieldLayoutEntry.slot), start < 8) :
    layout.WritesInside os := by
  intro bigEndian cells size heap heap' c rest s s' bits hcells hvisits hbit hwindow hinsert
  have hinit : WrittenCells.At ⟨List.replicate size 0, 0, none⟩ cells none := by
    refine ⟨?_, sized_of_laidBy hcells hok, nofun, fun _ next later _ => rfl⟩
    rw [map_slot_of_laidBy hcells]
    exact hlow
  obtain ⟨window, hs⟩ := hvisits.invariant (I := fun rest s _ => ∃ window, WrittenCells.At s rest window)
    (fun c rest s _ s1 _ hs hrun => by
      obtain ⟨window, hs⟩ := hs
      exact ⟨c.slot.after window, writeCell_at hs hrun⟩)
    ⟨none, hinit⟩
  obtain ⟨-, hoffset⟩ := writeBitWindow_spec hs hbit hwindow
  have hstart : c.slot.start window < 8 := hs.low _ List.mem_cons_self
  obtain ⟨hpos, hfits⟩ := hs.sized c List.mem_cons_self hbit
  have hle := c.displayType.bitLimit_le
  obtain ⟨filled, hfilled⟩ := insertBits_of_low bits.window (cellBitValue c) (hoffset ▸ hstart)
    (show 0 < c.bitSize.toInt.toNat by omega) (by omega)
  rw [hfilled] at hinsert
  cases hinsert

/-! ## Layouts -/

theorem buildFieldLayout_eq_ok {d : Paramdef} {heap heap' : Heap} {layout : FieldLayout}
    (h : buildFieldLayout d heap = (.ok layout, heap')) :
    ∃ s, layoutFields d.versionAware d.fields = .ok s ∧ layout.entries = s.entries := by
  obtain ⟨-, heap1, -, h⟩ := bind_eq_ok.1 h
  obtain ⟨-, heap2, -, h⟩ := bind_eq_ok.1 h
  obtain ⟨s, heap3, hs, h⟩ := bind_eq_ok.1 h
  rw [lift_run, Prod.mk.injEq] at hs
  cases h
  exact ⟨s, hs.1, rfl⟩

theorem slots_eq_countedSlots (d : Paramdef) : d.slots = countedSlots d.versionAware d.fields := rfl

/-- A field on its own starts at bit 0. -/
theorem start_of_plain {entries : List FieldLayoutEntry} (hok : ∀ e ∈ entries, e.Ok) {window : Option (Nat × Nat)}
    (hstarts : entries.map FieldLayoutEntry.bitOffset = BitSlot.starts window (entries.map FieldLayoutEntry.slot)) :
    ∀ e ∈ entries, e.isBitField = false → e.bitOffset = 0 := by
  induction entries generalizing window with
  | nil => exact fun e he => absurd he List.not_mem_nil
  | cons e entries ih =>
      rw [List.forall_mem_cons] at hok ⊢
      obtain ⟨hstart, hrest⟩ := List.cons.inj hstarts
      refine ⟨fun hplain => ?_, ih hok.2 hrest⟩
      have hslot : e.slot.isBit = false := hok.1.isBitField ▸ hplain
      rw [hstart, BitSlot.start_of_not_goesInto (BitSlot.goesInto_of_not_isBit hslot window)]

/-- While rows are read and written by a layout, the helpers that move bits are called inside the window exactly
    if no bit field starts behind its first byte. -/
theorem accesses_inside_iff (os : Win32) (d : Paramdef) (heap heap' : Heap) (layout : FieldLayout)
    (h : buildFieldLayout d heap = (.ok layout, heap')) :
    layout.ReadsInside os ∧ layout.WritesInside os ↔ d.startsLow = true := by
  obtain ⟨s, hs, hentries⟩ := buildFieldLayout_eq_ok h
  have hlays := layoutFields_lays hs
  rw [← slots_eq_countedSlots] at hlays
  have hok : ∀ e ∈ layout.entries, e.Ok := hentries ▸ hlays.ok
  have hslots : layout.entries.map FieldLayoutEntry.slot = d.slots := hentries ▸ hlays.slots
  have hstarts : layout.entries.map FieldLayoutEntry.bitOffset = BitSlot.starts none d.slots := hentries ▸ hlays.starts
  have hiff : d.startsLow = true ↔ ∀ e ∈ layout.entries, e.bitOffset < 8 := by
    rw [Paramdef.startsLow, ← hstarts, List.all_map, List.all_eq_true]
    simp
  constructor
  · intro hinside
    rw [hiff]
    refine FieldLayout.low_of_readsInside hok (fun e he hplain => ?_) hinside.1
    rw [start_of_plain hok (hslots ▸ hstarts) e he hplain]
    exact Nat.zero_lt_succ 7
  · intro hlow
    refine ⟨FieldLayout.readsInside_of_low hok (hiff.1 hlow), FieldLayout.writesInside_of_low hok ?_⟩
    rw [hslots]
    rw [Paramdef.startsLow, List.all_eq_true] at hlow
    exact fun start hstart => by simpa using hlow start hstart

/-! ## Samples -/

/-- A field of a type that is not an array, without texts. -/
def ParamdefField.bare (type : ParamdefDefType) (bitSize : Int32) : ParamdefField where
  displayName := []
  internalType := type.name
  internalName := []
  description := []
  displayFormat := []
  displayType := type
  defaultValue := noDefault
  minimum := noDefault
  maximum := noDefault
  increment := noDefault
  editFlags := 0
  byteCount := Int32.ofNat type.valueSize
  bitSize := bitSize
  arrayLength := 1
  sortId := 0

def Paramdef.bare (fields : List ParamdefField) (rowSize : Int32) : Paramdef where
  paramType := []
  dataVersion := 0
  formatVersion := 104
  bigEndian := false
  unicode := false
  basicFields := false
  fields := fields
  rowSize := rowSize

/-- Two flags of a byte. -/
def byteFlags : Paramdef := .bare [.bare .u8 1, .bare .u8 1] 1

/-- Two halves of a word of 16 bits. -/
def wordHalves : Paramdef := .bare [.bare .u16 8, .bare .u16 8] 2

theorem byte_flags_inside :
    ∃ layout, buildFieldLayout byteFlags [] = (.ok layout, []) ∧
      (layout.ReadsInside .ascii ∧ layout.WritesInside .ascii) := by
  refine ⟨_, rfl, (accesses_inside_iff .ascii byteFlags [] [] _ rfl).2 ?_⟩
  decide

/-- The second half starts at bit 8: its eight bytes end behind the window. -/
theorem word_halves_outside :
    ¬ (∀ (os : Win32) (d : Paramdef) (heap heap' : Heap) (layout : FieldLayout),
        buildFieldLayout d heap = (.ok layout, heap') → layout.ReadsInside os ∧ layout.WritesInside os) := by
  intro hall
  obtain ⟨first, second, size, s, bits, hlayout, hrun, hbit, hoffset, hwindow⟩ :
      ∃ first second size s bits, buildFieldLayout wordHalves [] = (.ok ⟨[first, second], size⟩, []) ∧
        readCell .ascii false 0 [0, 0] first [second] {} [] = (.ok s, []) ∧ second.isBitField = true ∧
        second.bitOffset = 8 ∧ readBitWindow false second [0, 0] s.bits = .ok bits :=
    ⟨_, _, _, _, _, rfl, rfl, rfl, rfl, rfl⟩
  have hvisits : Visits (readCell .ascii false 0 [0, 0]) [first, second] {} [] [second] s [] :=
    Visits.next hrun (Visits.here _ _ _)
  exact (hall _ _ _ _ _ hlayout).1 false 0 [0, 0] [] [] second [] s bits hvisits hbit hwindow
    (extractBits_of_high hoffset.ge bits)

end SoulsFormats
