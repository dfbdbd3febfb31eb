import Mathlib.Algebra.Order.BigOperators.Group.List
import SoulsFormats.Core.Accepted
import SoulsFormats.Core.Tables
import SoulsFormats.Param.BitWindows

set_option autoImplicit false

/-! # The two sizes of a row

The size that a description computes for its rows and the end of the layout are sums over the same fields, those
that do not go into the window in front of them. They count what a field takes by its length and by its declared
bytes. -/

namespace SoulsFormats

open Bytes Fallible BinaryReader

/-! ## The fields that are counted -/

/-- The fields that do not go into the window in front of them. -/
def openersFrom : Option (Nat × Nat) → List ParamdefField → List ParamdefField
  | _, [] => []
  | window, f :: rest =>
    if f.slot.goesInto window then openersFrom (f.slot.after window) rest
    else f :: openersFrom (f.slot.after window) rest

namespace ParamdefField

/-- The bytes that the layout gives to a field or to the window that it opens. -/
def laidSize (f : ParamdefField) : Nat :=
  if f.isBitField then f.displayType.bitLimit / 8 else fieldByteCount f.displayType f.byteCount f.arrayLength

/-- The bytes that the size of a row counts. -/
def counted (f : ParamdefField) : Int :=
  if f.displayType.isArray then f.displayType.valueSize * max f.arrayLength.toInt 0 else f.displayType.valueSize

/-- By how much a name such as `pad[2]` changed the bytes that the field was declared with, and by how much a bit field
    was declared longer than one element. -/
def surplus (f : ParamdefField) : Int :=
  if !f.displayType.isArray then 0
  else if f.isBitField then f.arrayLength.toInt - 1
  else if 0 < f.byteCount.toInt then f.displayType.valueSize * f.arrayLength.toInt - f.byteCount.toInt
  else 0

/-- What the reader makes sure of. -/
structure Declared (f : ParamdefField) : Prop where
  single : f.displayType.isArray = false → f.byteCount.toInt = f.displayType.valueSize
  array : f.displayType.isArray = true → 0 ≤ f.arrayLength.toInt

/-- The sizes of a field differ by its surplus. -/
theorem counted_eq {f : ParamdefField} (hf : f.Declared) : f.counted = f.laidSize + f.surplus := by
  unfold counted laidSize surplus
  cases harray : f.displayType.isArray
  · have hcount := hf.single harray
    have hpos := f.displayType.valueSize_pos
    rw [if_neg Bool.false_ne_true, Bool.not_false, if_pos rfl]
    split
    · next hbit =>
        rw [isBitField, Bool.and_eq_true] at hbit
        have hlimit := ParamdefDefType.bitLimit_of_isBitType hbit.1
        omega
    · rw [fieldByteCount, if_pos (by omega)]
      omega
  · have hlen := hf.array harray
    rw [if_pos rfl, Bool.not_true, if_neg Bool.false_ne_true, max_eq_left hlen]
    split
    · next hbit =>
        rw [isBitField, Bool.and_eq_true] at hbit
        have hone : f.displayType.valueSize = 1 ∧ f.displayType.bitLimit = 8 := by
          revert harray
          have htype := hbit.1
          revert htype
          cases f.displayType <;> decide
        rw [hone.1, hone.2]
        omega
    · rw [fieldByteCount]
      split
      · omega
      · split
        · next hzero =>
            have h0 : f.arrayLength.toInt = 0 := by omega
            rw [h0]
            simp
        · push_cast
          rw [Int.toNat_of_nonneg hlen]
          omega

theorem counted_nonneg (f : ParamdefField) : 0 ≤ f.counted := by
  unfold counted
  split
  · exact Int.mul_nonneg (Int.natCast_nonneg _) (le_max_right _ _)
  · exact Int.natCast_nonneg _

theorem countedSize_eq (f : ParamdefField) :
    f.countedSize = if f.counted ≤ INT32_MAX then .ok f.counted else .error .undefinedBehaviour := by
  unfold countedSize counted
  split
  · rfl
  · rw [if_pos]
    cases f.displayType <;> decide

end ParamdefField

/-! ## The end of a layout -/

/-- Where a layout ends if it is closed. -/
def LayoutState.end_ (s : LayoutState) : Nat := s.offset + if s.bitsActive then s.bitLimit / 8 else 0

theorem layoutFlushBits_end {s s' : LayoutState} (h : layoutFlushBits s = .ok s') :
    s'.bitsActive = false ∧ s'.offset = s.end_ := by
  unfold layoutFlushBits at h
  unfold LayoutState.end_
  split at h
  · next hidle =>
      cases h
      have hidle : s.bitsActive = false := by simpa using hidle
      rw [hidle]
      exact ⟨rfl, rfl⟩
  · next hactive =>
      have hactive : s.bitsActive = true := by simpa using hactive
      rw [hactive]
      split at h
      · cases h
      · split at h
        · cases h
        · cases h
          exact ⟨rfl, rfl⟩

/-- A field that does not go into the window moves the end by what it takes. -/
theorem layoutField_end {versionAware : Bool} {f : ParamdefField} {s s' : LayoutState}
    (hf : f.isRemoved versionAware = false) (h : layoutField versionAware s f = .ok s') :
    s'.end_ = s.end_ + if f.slot.goesInto s.window then 0 else f.laidSize := by
  rw [layoutField, hf, if_neg Bool.false_ne_true] at h
  unfold ParamdefField.laidSize
  split at h
  · next hbit =>
      rw [hbit, if_pos rfl]
      unfold layoutBitField at h
      split at h
      · cases h
      split at h
      · cases h
      obtain ⟨s1, hopen, h⟩ := except_bind_eq_ok.1 h
      cases h
      obtain ⟨hinto, rfl, hactive, -⟩ | ⟨hnew, s2, hflush, rfl⟩ := layoutOpenWindow_cases hbit hopen
      · rw [hinto, if_pos rfl]
        rfl
      · rw [hnew, if_neg Bool.false_ne_true]
        unfold LayoutState.end_
        dsimp only
        rw [if_pos rfl, (layoutFlushBits_end hflush).2]
        rfl
  · next hplain =>
      have hslot : f.slot.isBit = false := Bool.eq_false_iff.2 hplain
      rw [if_neg hplain, BitSlot.goesInto_of_not_isBit hslot, if_neg Bool.false_ne_true]
      obtain ⟨s1, hflush, h⟩ := except_bind_eq_ok.1 h
      dsimp only at h
      split at h
      · cases h
      · split at h
        · cases h
        · cases h
          obtain ⟨hidle, hoffset⟩ := layoutFlushBits_end hflush
          unfold LayoutState.end_ at hoffset ⊢
          dsimp only
          rw [hidle, if_neg Bool.false_ne_true, Nat.add_zero, hoffset]

theorem openersFrom_append (window : Option (Nat × Nat)) (l l' : List ParamdefField) :
    openersFrom window (l ++ l') =
      openersFrom window l ++ openersFrom (BitSlot.afterAll window (l.map ParamdefField.slot)) l' := by
  induction l generalizing window with
  | nil => rfl
  | cons f l ih =>
      simp only [List.cons_append, openersFrom, ih, List.map_cons, BitSlot.afterAll, List.foldl_cons]
      split <;> simp

/-- The fields of a description that count. -/
def liveFields (versionAware : Bool) (fields : List ParamdefField) : List ParamdefField :=
  fields.filter fun f => !f.isRemoved versionAware

/-- The entries of these fields, and where they end. -/
structure LayoutState.Covers (versionAware : Bool) (done : List ParamdefField) (s : LayoutState) : Prop where
  follows : s.Follows versionAware done
  ends : s.end_ = ((openersFrom none (liveFields versionAware done)).map ParamdefField.laidSize).sum

theorem LayoutState.Covers.step {versionAware : Bool} (done : List ParamdefField) (f : ParamdefField)
    (s s' : LayoutState) (hs : s.Covers versionAware done) (h : layoutField versionAware s f = .ok s') :
    s'.Covers versionAware (done ++ [f]) := by
  refine ⟨hs.follows.step done f s s' h, ?_⟩
  cases hf : f.isRemoved versionAware
  · have hlive : liveFields versionAware (done ++ [f]) = liveFields versionAware done ++ [f] := by
      simp [liveFields, hf]
    have hwindow : s.window = BitSlot.afterAll none ((liveFields versionAware done).map ParamdefField.slot) :=
      hs.follows.window
    rw [layoutField_end hf h, hlive, openersFrom_append, List.map_append, List.sum_append, ← hwindow, hs.ends]
    cases hinto : f.slot.goesInto s.window <;> simp [openersFrom, hinto]
  · have hlive : liveFields versionAware (done ++ [f]) = liveFields versionAware done := by
      simp [liveFields, hf]
    rw [layoutField, hf, if_pos rfl] at h
    cases h
    rw [hlive]
    exact hs.ends

/-- A layout ends behind the bytes of the fields that are counted. -/
theorem layoutFields_end {versionAware : Bool} {fields : List ParamdefField} {s : LayoutState}
    (h : layoutFields versionAware fields = .ok s) :
    s.offset = ((openersFrom none (liveFields versionAware fields)).map ParamdefField.laidSize).sum := by
  obtain ⟨s1, hfold, hflush⟩ := except_bind_eq_ok.1 h
  have hinit : LayoutState.Covers versionAware [] {} :=
    ⟨⟨rfl, rfl, rfl, fun e he => absurd he List.not_mem_nil⟩, rfl⟩
  have hs1 : LayoutState.Covers versionAware ([] ++ fields) s1 :=
    foldlM_invariant LayoutState.Covers.step hinit hfold
  rw [(layoutFlushBits_end hflush).2, hs1.ends, List.nil_append]

/-- A bit field has some bits, and no more than a window of its type. -/
def ParamdefField.Fitting (f : ParamdefField) : Prop :=
  f.isBitField = true → 0 < f.bitSize.toInt ∧ f.bitSize.toInt.toNat ≤ f.displayType.bitLimit

theorem layoutFields_fitting {versionAware : Bool} {fields : List ParamdefField} {s : LayoutState}
    (h : layoutFields versionAware fields = .ok s) : ∀ f ∈ liveFields versionAware fields, f.Fitting := by
  intro f hf hbit
  have hlays := layoutFields_lays h
  have hmem : f.slot ∈ s.entries.map FieldLayoutEntry.slot := by
    rw [hlays.slots]
    exact List.mem_map_of_mem hf
  obtain ⟨e, he, hslot⟩ := List.mem_map.1 hmem
  have hok := hlays.ok e he
  have hebit : e.isBitField = true := by
    rw [hok.isBitField, hslot]
    exact hbit
  obtain ⟨hsize, hpos⟩ := hok.bitSize hebit
  have hfits := hok.fits hebit
  have hlimit := hok.bitLimit hebit
  have htype : e.displayType = f.displayType := congrArg BitSlot.type hslot
  rw [hslot] at hsize
  have hsize' : e.bitSize = f.bitSize.toInt.toNat := hsize
  rw [htype] at hlimit
  omega

/-! ## The size of a row -/

/-- The window of the computed size, which is the window of the layout. -/
def foldWindow (window : Option (Nat × Nat)) : Option (Nat × Int) := window.map fun w => (w.1, (w.2 : Int))

/-- A window of 8, 16 or 32 bits, not more than full. -/
def WindowOk (window : Option (Nat × Nat)) : Prop := ∀ w, window = some w → w.2 ≤ w.1 ∧ w.1 ≤ 32

theorem int32Add_ok {a b : Int} (hlo : -2 ^ 31 ≤ a + b) (hhi : a + b ≤ INT32_MAX) : int32Add a b = .ok (a + b) := by
  rw [int32Add, if_pos ⟨hlo, hhi⟩]

theorem start_of_goesInto {slot : BitSlot} {limit used : Nat} (h : slot.goesInto (some (limit, used)) = true) :
    slot.start (some (limit, used)) = used := by
  rw [BitSlot.start, if_pos h]

/-- Both loops put the same fields into windows. -/
theorem foldInto_eq {f : ParamdefField} {window : Option (Nat × Nat)} (hwindow : WindowOk window) (hf : f.Fitting) :
    f.foldInto (foldWindow window) =
      .ok (if f.slot.goesInto window then some ((f.slot.start window : Int) + f.bitSize.toInt) else none) := by
  rcases window with _ | ⟨limit, used⟩
  · rfl
  · obtain ⟨hused, hlimit⟩ := hwindow _ rfl
    unfold ParamdefField.foldInto foldWindow
    dsimp only [Option.map] at hused hlimit ⊢
    split
    · next hsame =>
        obtain ⟨hpos, hfits⟩ := hf hsame.1
        have hmax : INT32_MAX = 2 ^ 31 - 1 := rfl
        have hslot : f.slot.isBit = true := hsame.1
        have hsize : f.slot.size = f.bitSize.toInt.toNat := rfl
        rw [int32Add_ok (by omega) (by omega)]
        have hinto : f.slot.goesInto (some (limit, used)) = decide (used + f.slot.size ≤ limit) := by
          have htype : (f.slot.type.bitLimit == limit) = true := by simpa [ParamdefField.slot] using hsame.2
          rw [BitSlot.goesInto, hslot, htype]
          rfl
        show Except.ok (if (used : Int) + f.bitSize.toInt ≤ limit then some ((used : Int) + f.bitSize.toInt) else none) = _
        by_cases hroom : used + f.slot.size ≤ limit
        · rw [if_pos (by omega), hinto, if_pos (by simpa using hroom), start_of_goesInto (by simpa [hinto] using hroom)]
        · rw [if_neg (by omega), hinto, if_neg (by simpa using hroom)]
    · next hother =>
        rw [if_neg]
        simp only [BitSlot.goesInto, Bool.and_eq_true, beq_iff_eq, decide_eq_true_eq, not_and]
        intro hsame
        exact absurd hsame hother

theorem windowOk_after {f : ParamdefField} {window : Option (Nat × Nat)} (hf : f.Fitting) :
    WindowOk (f.slot.after window) := by
  intro w hw
  unfold BitSlot.after at hw
  split at hw
  · next hbit =>
      cases hw
      obtain ⟨hpos, hfits⟩ := hf hbit
      have hsize : f.slot.size = f.bitSize.toInt.toNat := rfl
      have htype : f.slot.type = f.displayType := rfl
      refine ⟨?_, f.displayType.bitLimit_le⟩
      rcases window with _ | ⟨limit, used⟩
      · rw [BitSlot.start_none, hsize, htype]
        omega
      · rw [show f.slot.start (some (limit, used)) = if f.slot.goesInto (some (limit, used)) then used else 0 from rfl]
        split
        · next hinto =>
            simp only [BitSlot.goesInto, Bool.and_eq_true, beq_iff_eq, decide_eq_true_eq] at hinto
            rw [hinto.1.2]
            exact hinto.2
        · rw [hsize, htype]
          omega
  · cases hw

/-- The bytes that are counted from a window on. -/
def countedSum (window : Option (Nat × Nat)) (fields : List ParamdefField) : Int :=
  ((openersFrom window fields).map ParamdefField.counted).sum

theorem countedSum_nonneg (window : Option (Nat × Nat)) (fields : List ParamdefField) : 0 ≤ countedSum window fields := by
  apply List.sum_nonneg
  intro v hv
  obtain ⟨f, -, rfl⟩ := List.mem_map.1 hv
  exact f.counted_nonneg

theorem foldWindow_after {f : ParamdefField} {window : Option (Nat × Nat)} (hf : f.Fitting)
    (hbit : f.isBitField = true) : foldWindow (f.slot.after window) =
      some (f.displayType.bitLimit, (f.slot.start window : Int) + f.bitSize.toInt) := by
  have hslot : f.slot.isBit = true := hbit
  have hsize : f.slot.size = f.bitSize.toInt.toNat := rfl
  have hpos := (hf hbit).1
  rw [BitSlot.after, hslot, if_pos rfl, foldWindow, Option.map_some, hsize]
  dsimp only
  push_cast
  rw [Int.toNat_of_nonneg hpos.le]
  rfl

/-- The computed size is what is counted, if that is an `int32_t`. -/
theorem computeRowSizeFrom_eq {versionAware : Bool} {fields : List ParamdefField} {size : Int}
    {window : Option (Nat × Nat)} (hsize : 0 ≤ size) (hmax : size ≤ INT32_MAX) (hwindow : WindowOk window)
    (hfit : ∀ f ∈ liveFields versionAware fields, f.Fitting) :
    computeRowSizeFrom versionAware size (foldWindow window) fields =
      if size + countedSum window (liveFields versionAware fields) ≤ INT32_MAX then
        .ok (size + countedSum window (liveFields versionAware fields))
      else .error .undefinedBehaviour := by
  induction fields generalizing size window with
  | nil => simp [computeRowSizeFrom, liveFields, countedSum, openersFrom, hmax]
  | cons f rest ih =>
      rw [computeRowSizeFrom]
      cases hf : f.isRemoved versionAware
      · have hlive : liveFields versionAware (f :: rest) = f :: liveFields versionAware rest := by
          simp [liveFields, hf]
        rw [hlive, List.forall_mem_cons] at hfit
        rw [if_neg Bool.false_ne_true, hlive, foldInto_eq hwindow hfit.1]
        cases hinto : f.slot.goesInto window
        · have hsum : countedSum window (f :: liveFields versionAware rest) =
              f.counted + countedSum (f.slot.after window) (liveFields versionAware rest) := by
            simp [countedSum, openersFrom, hinto]
          have hrest := countedSum_nonneg (f.slot.after window) (liveFields versionAware rest)
          have hcounted := f.counted_nonneg
          have hmin : INT32_MAX = 2 ^ 31 - 1 := rfl
          rw [hsum]
          simp only [Bool.false_eq_true, if_false, Bind.bind, Except.bind, f.countedSize_eq]
          by_cases hfield : f.counted ≤ INT32_MAX
          · rw [if_pos hfield]
            dsimp only
            by_cases hnext : size + f.counted ≤ INT32_MAX
            · rw [int32Add_ok (by omega) hnext]
              have hfold : (if f.isBitField = true then some (f.displayType.bitLimit, f.bitSize.toInt) else none) =
                  foldWindow (f.slot.after window) := by
                cases hbit : f.isBitField
                · have hslot : f.slot.isBit = false := hbit
                  rw [BitSlot.after, hslot]
                  rfl
                · rw [foldWindow_after hfit.1 hbit, BitSlot.start_of_not_goesInto hinto]
                  simp
              dsimp only
              rw [hfold, ih (by omega) hnext (windowOk_after hfit.1) hfit.2, Int.add_assoc]
            · have hover : int32Add size f.counted = .error .undefinedBehaviour := by
                rw [int32Add, if_neg (fun h => hnext h.2)]
              have hlarge : ¬ size + (f.counted + countedSum (f.slot.after window) (liveFields versionAware rest)) ≤
                  INT32_MAX := by omega
              rw [hover, if_neg hlarge]
          · have hlarge : ¬ size + (f.counted + countedSum (f.slot.after window) (liveFields versionAware rest)) ≤
                INT32_MAX := by omega
            rw [if_neg hfield, if_neg hlarge]
        · have hsum : countedSum window (f :: liveFields versionAware rest) =
              countedSum (f.slot.after window) (liveFields versionAware rest) := by
            simp [countedSum, openersFrom, hinto]
          have hbit : f.isBitField = true := by
            by_contra hne
            have hslot : f.slot.isBit = false := Bool.eq_false_iff.2 hne
            rw [BitSlot.goesInto_of_not_isBit hslot] at hinto
            cases hinto
          rw [hsum, ← ih hsize hmax (windowOk_after hfit.1) hfit.2, foldWindow_after hfit.1 hbit]
          rfl
      · have hlive : liveFields versionAware (f :: rest) = liveFields versionAware rest := by
          simp [liveFields, hf]
        rw [if_pos rfl, hlive]
        rw [hlive] at hfit
        exact ih hsize hmax hwindow hfit

theorem computeRowSize_eq {versionAware : Bool} {fields : List ParamdefField}
    (hfit : ∀ f ∈ liveFields versionAware fields, f.Fitting) :
    computeRowSize versionAware fields =
      if countedSum none (liveFields versionAware fields) ≤ INT32_MAX then
        .ok (countedSum none (liveFields versionAware fields))
      else .error .undefinedBehaviour := by
  have hnone : WindowOk none := nofun
  have heq := computeRowSizeFrom_eq (le_refl (0 : Int)) (by decide) hnone hfit
  rwa [Int.zero_add] at heq

/-! ## Fields that were read -/

theorem returns_readByteCount (type : ParamdefDefType) :
    Returns (readByteCount type) fun byteCount => 0 ≤ byteCount.toInt ∧
      (type.isArray = false → byteCount.toInt = type.valueSize) := by
  unfold readByteCount
  refine Returns.after fun byteCount => Returns.check fun hpos => ?_
  split
  · next harray =>
      refine Returns.check fun _ => Returns.pure ⟨hpos, fun h => ?_⟩
      rw [harray] at h
      cases h
  · exact Returns.check fun hsize => Returns.pure ⟨hpos, fun _ => hsize⟩

theorem arrayLength_nonneg {byteCount : Int32} (h : 0 ≤ byteCount.toInt) (size : Nat) :
    0 ≤ (Int32.ofInt (byteCount.toInt / size)).toInt := by
  have hle := Int.ediv_le_self (size : Int) h
  have hnonneg := Int.ediv_nonneg h (Int.natCast_nonneg size)
  have hlt := byteCount.toInt_lt
  rw [Int32.toInt_ofInt_of_le (by omega) (by omega)]
  exact hnonneg

theorem parseArraySuffix_pos {name before : List UInt8} {namedLen : Int32}
    (h : parseArraySuffix name = some (before, namedLen)) : 0 ≤ namedLen.toInt := by
  unfold parseArraySuffix at h
  split at h
  · cases h
  · split at h
    · cases h
    · split at h
      · split at h
        · next hlen =>
            cases h
            have hmax : INT32_MAX = 2 ^ 31 - 1 := rfl
            rw [Int32.toInt_ofInt_of_le (by omega) (by omega)]
            exact hlen.1.le
        · cases h
      · cases h

/-- A name changes no length to a negative one. -/
theorem parseInternalName_nonneg (type : ParamdefDefType) (name : List UInt8) {arrayLength : Int32}
    (h : 0 ≤ arrayLength.toInt) : 0 ≤ (parseInternalName type name arrayLength).2.2.toInt := by
  unfold parseInternalName
  split
  · exact h
  · split
    · split
      · next hsuffix =>
          have hnamed := parseArraySuffix_pos hsuffix
          split
          · exact hnamed
          · split
            · exact hnamed
            · exact h
      · exact h
    · exact h

theorem returns_readInternalName (os : Win32) (h : ParamdefHeader) (type : ParamdefDefType) {arrayLength : Int32}
    (hlen : 0 ≤ arrayLength.toInt) :
    Returns (readInternalName os h type arrayLength) fun r => 0 ≤ r.2.2.toInt := by
  unfold readInternalName
  split
  · exact Returns.after fun name => Returns.pure (parseInternalName_nonneg type _ hlen)
  · exact Returns.after fun _ => Returns.pure hlen

theorem returns_readField (os : Win32) (h : ParamdefHeader) : Returns (readField os h) ParamdefField.Declared := by
  unfold readField
  refine Returns.after fun displayName => Returns.after fun type => Returns.after fun displayFormat =>
    Returns.after fun early => Returns.after fun editFlags => ?_
  refine Returns.bind (returns_readByteCount type) fun byteCount hcount => ?_
  have hlen := arrayLength_nonneg hcount.1 type.valueSize
  split
  · exact Returns.after fun _ => Returns.pure ⟨hcount.2, fun _ => hlen⟩
  · refine Returns.after fun description => Returns.after fun internalType => ?_
    refine Returns.bind (returns_readInternalName os h type hlen) fun name hname => ?_
    refine Returns.after fun sortId => Returns.after fun _ => Returns.after fun late => ?_
    exact Returns.pure ⟨hcount.2, fun _ => hname⟩

theorem returns_readParamdefFields (os : Win32) :
    Returns (readParamdefFields os) fun r => ∀ f ∈ r.2, f.Declared := by
  unfold readParamdefFields
  refine Returns.after fun r => Returns.after fun _ => ?_
  exact Returns.bind (returns_readEach (returns_readField os r.1) r.2) fun fields hfields => Returns.pure hfields.2

/-! ## When the sizes agree -/

/-- The size of a row is computed without an overflow and is the end of the layout, so that the careful mode accepts
    rows of that size only. -/
def RowSizesAgree (fields : List ParamdefField) (layout : LayoutState) : Prop :=
  ∃ rowSize, computeRowSize false fields = .ok rowSize ∧ rowSize = layout.offset ∧
    ∀ detectedSize : Int64, detectedSize ≠ -1 →
      (detectedSizeMatches detectedSize (Int32.ofInt rowSize) = true ↔ detectedSize.toInt = layout.offset)

/-- What names and lengths of bit fields change cancels out, and the fields take less than 2 GiB. -/
def SizesBalance (fields : List ParamdefField) : Prop :=
  ((openersFrom none fields).map ParamdefField.surplus).sum = 0 ∧
    ((openersFrom none fields).map ParamdefField.laidSize).sum ≤ INT32_MAX

instance (fields : List ParamdefField) : Decidable (SizesBalance fields) := inferInstanceAs (Decidable (_ ∧ _))

theorem liveFields_false (fields : List ParamdefField) : liveFields false fields = fields := by
  simp [liveFields, ParamdefField.isRemoved]

theorem countedSum_eq {fields : List ParamdefField} (h : ∀ f ∈ fields, f.Declared) (window : Option (Nat × Nat)) :
    countedSum window fields = ((openersFrom window fields).map ParamdefField.laidSize).sum +
      ((openersFrom window fields).map ParamdefField.surplus).sum := by
  induction fields generalizing window with
  | nil => rfl
  | cons f rest ih =>
      rw [List.forall_mem_cons] at h
      have hrest := ih h.2 (f.slot.after window)
      unfold countedSum at hrest ⊢
      rw [openersFrom]
      split
      · exact hrest
      · simp only [List.map_cons, List.sum_cons, hrest, ParamdefField.counted_eq h.1]
        push_cast
        ring

theorem detectedSizeMatches_iff {detectedSize : Int64} {size : Int} (hne : detectedSize ≠ -1) (hlo : 0 ≤ size)
    (hhi : size ≤ INT32_MAX) :
    detectedSizeMatches detectedSize (Int32.ofInt size) = true ↔ detectedSize.toInt = size := by
  have hmax : INT32_MAX = 2 ^ 31 - 1 := rfl
  have htoInt : (Int32.ofInt size).toInt64.toInt = size := by
    rw [Int32.toInt_toInt64, Int32.toInt_ofInt_of_le (by omega) (by omega)]
  rw [detectedSizeMatches, Bool.or_eq_true, decide_eq_true_eq, decide_eq_true_eq, or_iff_right hne]
  rw [← Int64.toInt_inj, htoInt]

/-- The two sizes of the rows of a description that was read agree exactly if the changes of lengths cancel out and the
    size is an `int32_t`. -/
theorem row_sizes_agree_iff (os : Win32) (flexible : Bool) (data : List UInt8) (heap heap' : Heap) (h : ParamdefHeader)
    (fields : List ParamdefField) (layout : LayoutState)
    (hread : onMemory data false flexible (readParamdefFields os) heap = (.ok (h, fields), heap'))
    (hlayout : layoutFields false fields = .ok layout) : RowSizesAgree fields layout ↔ SizesBalance fields := by
  have hdeclared : ∀ f ∈ fields, f.Declared := by
    obtain ⟨-, heap1, -, hread⟩ := bind_eq_ok.1 hread
    obtain ⟨-, heap2, -, hread⟩ := bind_eq_ok.1 hread
    rw [Prod.mk.injEq] at hread
    exact (returns_readParamdefFields os).of_fst hread.1
  have hend := layoutFields_end hlayout
  have hsize := computeRowSize_eq (layoutFields_fitting hlayout)
  rw [liveFields_false] at hend hsize
  have hsum := countedSum_eq hdeclared none
  rw [← hend] at hsum
  constructor
  · rintro ⟨rowSize, hcompute, hrow, -⟩
    rw [hsize] at hcompute
    split at hcompute
    · next hle =>
        cases hcompute
        refine ⟨by omega, ?_⟩
        rw [← hend]
        omega
    · cases hcompute
  · rintro ⟨hzero, hle⟩
    rw [← hend] at hle
    have hcounted : countedSum none fields = layout.offset := by omega
    refine ⟨layout.offset, ?_, rfl, fun detectedSize hne => ?_⟩
    · rw [hsize, hcounted, if_pos (by omega)]
    · exact detectedSizeMatches_iff hne (Int.natCast_nonneg _) (by omega)

/-! ## Samples -/

/-- A text in a slot. -/
def slotText (size : Nat) (text : List UInt8) : List UInt8 := text ++ List.replicate (size - text.length) 0

/-- A description of version 102 with four bytes in one field, under a name that may say a length. -/
def fourBytesDef (name : List UInt8) : List UInt8 :=
  leBytes 4 0 ++ leBytes 2 0x30 ++ leBytes 2 1 ++ leBytes 2 1 ++ leBytes 2 0xAC ++ slotText 0x20 (cstr "PAD_ST") ++
    [0, 0] ++ leBytes 2 102 ++
  slotText 0x40 (cstr "pad") ++ slotText 8 (cstr "u8") ++ slotText 8 (cstr "%d") ++ List.replicate 16 0 ++
    leBytes 4 0 ++ leBytes 4 4 ++ leBytes 4 0 ++ slotText 0x20 (cstr "u8") ++ slotText 0x20 name

/-- The two sizes of the rows of a file, and whether its changes of lengths cancel out. -/
def rowSizesOf (data : List UInt8) : Option (Int × Nat × Bool) :=
  match (onMemory data false false (readParamdefFields .ascii) []).1 with
  | .ok (_, fields) =>
    match computeRowSize false fields, layoutFields false fields with
    | .ok rowSize, .ok layout => some (rowSize, layout.offset, decide (SizesBalance fields))
    | _, _ => none
  | .error _ => none

theorem rowSizesOf_eq_some {data : List UInt8} {rowSize : Int} {offset : Nat} {balance : Bool}
    (h : rowSizesOf data = some (rowSize, offset, balance)) :
    ∃ header fields heap' layout, onMemory data false false (readParamdefFields .ascii) [] = (.ok (header, fields), heap') ∧
      layoutFields false fields = .ok layout ∧ computeRowSize false fields = .ok rowSize ∧ layout.offset = offset ∧
      decide (SizesBalance fields) = balance := by
  unfold rowSizesOf at h
  rcases hread : onMemory data false false (readParamdefFields .ascii) [] with ⟨e | ⟨header, fields⟩, heap'⟩
  · rw [hread] at h
    cases h
  · rw [hread] at h
    dsimp only at h
    split at h
    · next hcompute hlayout =>
        cases h
        exact ⟨header, fields, heap', _, rfl, hlayout, hcompute, rfl, rfl⟩
    · cases h

theorem four_bytes_agree :
    ∃ header fields heap' layout,
      onMemory (fourBytesDef (cstr "pad[4]")) false false (readParamdefFields .ascii) [] = (.ok (header, fields), heap') ∧
        layoutFields false fields = .ok layout ∧ RowSizesAgree fields layout := by
  have hrun : rowSizesOf (fourBytesDef (cstr "pad[4]")) = some (4, 4, true) := by decide +kernel
  obtain ⟨header, fields, heap', layout, hread, hlayout, -, -, hbalance⟩ := rowSizesOf_eq_some hrun
  exact ⟨header, fields, heap', layout, hread, hlayout,
    (row_sizes_agree_iff _ _ _ _ _ _ _ _ hread hlayout).2 (of_decide_eq_true hbalance)⟩

/-- A name that cuts an array: two bytes are counted, four are laid out. -/
theorem cut_array_disagrees :
    ¬ (∀ (os : Win32) (flexible : Bool) (data : List UInt8) (heap heap' : Heap) (h : ParamdefHeader)
        (fields : List ParamdefField) (layout : LayoutState),
        onMemory data false flexible (readParamdefFields os) heap = (.ok (h, fields), heap') →
        layoutFields false fields = .ok layout → RowSizesAgree fields layout) := by
  intro hall
  have hrun : rowSizesOf (fourBytesDef (cstr "pad[2]")) = some (2, 4, false) := by decide +kernel
  obtain ⟨header, fields, heap', layout, hread, hlayout, hcompute, hoffset, -⟩ := rowSizesOf_eq_some hrun
  obtain ⟨rowSize, hrow, hagree, -⟩ := hall _ _ _ _ _ _ _ _ hread hlayout
  rw [hcompute] at hrow
  cases hrow
  rw [hoffset] at hagree
  exact absurd hagree (by decide)

end SoulsFormats
