import SoulsFormats.Core.Sequential
import SoulsFormats.Effects.Ffxdlse

set_option autoImplicit false

/-! # FFXDLSE effects are read back, and written back

An effect that is written is read back, and what was read from a file with a proper table of class names is
written as the bytes that were read. -/

namespace SoulsFormats

open Bytes Fallible

/-! ## The keys of the lengths -/

/-- The slots of the lengths, by where their objects start. -/
def ffxSlots : BinaryWriter.FileSlots Nat where
  key start := (ffxSerKey start, .i32)
  addr start := start + 6
  key_inj := by
    intro p q h
    have hdigits := List.append_cancel_left (congrArg Prod.fst h)
    rw [← hexValue_digits p, hdigits, hexValue_digits]

/-! ## What is stored -/

/-- The bytes of an integer. -/
def i32Bytes (v : Int32) : List UInt8 := wordBytes false 4 v.toUInt32.toNat

/-- The bytes of a number. -/
def sizeBytes (n : Nat) : List UInt8 := wordBytes false 4 n

section Bytes

variable (cn : FfxClassNames)

/-- The index of a class. -/
def FfxClassNames.word (name : List UInt8) : List UInt8 := wordBytes false 2 ((cn.indexOf name).getD 0 + 1)

/-- An object that holds the bytes `x`. -/
def serBytes (name : List UInt8) (version : Int32) (x : List UInt8) : List UInt8 :=
  cn.word name ++ (i32Bytes version ++ (sizeBytes (10 + x.length) ++ x))

def dlvectorBytes (items : List Int32) : List UInt8 :=
  cn.word CN_DLVECTOR ++ (sizeBytes items.length ++ items.flatMap i32Bytes)

def FfxEvaluatable.bytes : FfxEvaluatable → List UInt8
  | .constant typeField value =>
    serBytes cn CN_EVAL V_EVAL (i32Bytes FfxOpcode.constant.toInt32 ++ (i32Bytes typeField ++ i32Bytes value))
  | .arg opcode typeField unk00 argIndex =>
    serBytes cn CN_EVAL V_EVAL (i32Bytes (FfxOpcode.arg opcode).toInt32 ++
      (i32Bytes typeField ++ (i32Bytes unk00 ++ i32Bytes argIndex)))
  | .leaf opcode typeField =>
    serBytes cn CN_EVAL V_EVAL (i32Bytes (FfxOpcode.leaf opcode).toInt32 ++ i32Bytes typeField)
  | .binary opcode typeField left right =>
    serBytes cn CN_EVAL V_EVAL (i32Bytes (FfxOpcode.binary opcode).toInt32 ++
      (i32Bytes typeField ++ (right.bytes ++ left.bytes)))
  | .not typeField operand =>
    serBytes cn CN_EVAL V_EVAL (i32Bytes FfxOpcode.not.toInt32 ++ (i32Bytes typeField ++ operand.bytes))

def FfxParam.bytes (p : FfxParam) : List UInt8 :=
  serBytes cn CN_PARAM V_PARAM (i32Bytes p.type.value ++ p.payloadAfterType)

def FfxParamList.bytes (pl : FfxParamList) : List UInt8 :=
  serBytes cn CN_PARAM_LIST V_PARAM_LIST (sizeBytes pl.params.length ++
    (i32Bytes pl.unk04 ++ pl.params.flatMap (FfxParam.bytes cn)))

def FfxAction.bytes (a : FfxAction) : List UInt8 :=
  serBytes cn CN_ACTION V_ACTION (i32Bytes a.id ++ a.paramList.bytes cn)

def FfxTrigger.bytes (t : FfxTrigger) : List UInt8 :=
  serBytes cn CN_TRIGGER V_TRIGGER (i32Bytes t.stateIndex ++ t.evaluator.elim [] (FfxEvaluatable.bytes cn))

def FfxState.bytes (s : FfxState) : List UInt8 :=
  serBytes cn CN_STATE V_STATE (sizeBytes s.actions.length ++ (sizeBytes s.triggers.length ++
    (s.actions.flatMap (FfxAction.bytes cn) ++ s.triggers.flatMap (FfxTrigger.bytes cn))))

def FfxStateMap.bytes (sm : FfxStateMap) : List UInt8 :=
  serBytes cn CN_STATE_MAP V_STATE_MAP (sizeBytes sm.states.length ++ sm.states.flatMap (FfxState.bytes cn))

def FfxResourceSet.bytes (rs : FfxResourceSet) : List UInt8 :=
  serBytes cn CN_RESOURCE_SET V_RESOURCE_SET (rs.vectors.flatMap (dlvectorBytes cn))

def FfxEffect.bytes (e : FfxEffect) : List UInt8 :=
  serBytes cn CN_EFFECT V_EFFECT (i32Bytes 0 ++ (i32Bytes e.id ++ (i32Bytes 0 ++ (i32Bytes 0 ++ (i32Bytes 2 ++
    (wordBytes false 2 0 ++ (wordBytes false 2 2 ++ (i32Bytes 0 ++ (e.paramList1.bytes cn ++
      (e.paramList2.bytes cn ++ (e.stateMap.bytes cn ++ (e.resourceSet.bytes cn ++ [0]))))))))))))

/-- A name of the table. -/
def classNameBytes (name : List UInt8) : List UInt8 := sizeBytes name.length ++ name

/-- A whole file. -/
def ffxdlseBytes (e : FfxEffect) : List UInt8 :=
  cstr "DLsE" ++ ([1] ++ ([3] ++ ([0] ++ ([0] ++ (i32Bytes 0 ++ (i32Bytes 0 ++ ([0] ++ (i32Bytes 1 ++
    (wordBytes false 2 cn.names.length ++ (cn.names.flatMap classNameBytes ++ e.bytes cn))))))))))

end Bytes

/-! ## Objects -/

section Objects

open BinaryWriter BinaryReader

variable {cn : FfxClassNames} {name x : List UInt8} {version : Int32}

theorem sends_writeSer {body : WriteM Unit} {P : Prop} (hbody : Sends ffxSlots false false body x P) :
    Sends ffxSlots false false (writeSer cn name version body) (serBytes cn name version x)
      (P ∧ (cn.indexOf name).isSome ∧ 10 + x.length ≤ INT32_MAX) := by
  intro pos
  unfold writeSer writeSerBegin
  cases hidx : cn.indexOf name with
  | none =>
      intro w w' v _ hrun
      cases hrun
  | some idx =>
      have hword : cn.word name = wordBytes false 2 (idx + 1) := by
        rw [FfxClassNames.word, hidx]
        rfl
      simp only [bind_assoc, pure_bind]
      refine Puts.position (Puts.i16 (Puts.i32 (Puts.reserveI32 pos rfl rfl ?_)))
      refine (hbody _).seq fun _ st hst => ?_
      obtain ⟨rfl, hP⟩ := hst
      refine Puts.position (Puts.check fun hfin => Puts.last (Puts.fillI32 pos rfl (Puts.done ⟨?_, hP, rfl, ?_⟩ ?_)))
      · simp only [serBytes, i32Bytes, sizeBytes, FfxClassNames.word, List.length_append, length_wordBytes]
        congr 1
        omega
      · omega
      · intro B hlength hx hversion hindex
        have hsize : pos + 2 + 4 + 4 + x.length - pos = 10 + x.length := by omega
        rw [hsize, wordBytes_i32] at hlength
        rw [wordBytes_i16] at hindex
        refine holds_append.2 ⟨hword ▸ hindex, ?_⟩
        rw [hword, length_wordBytes]
        refine holds_append.2 ⟨hversion, holds_append.2 ⟨?_, ?_⟩⟩
        · rw [i32Bytes, length_wordBytes]
          exact hlength
        · rw [i32Bytes, length_wordBytes, sizeBytes, length_wordBytes]
          exact hx

theorem FfxClassNames.indexOf_spec {idx : Nat} (h : cn.indexOf name = some idx) :
    idx < cn.names.length ∧ cText (cn.names.getD idx []) = cText name := by
  obtain ⟨hlt, heq, -⟩ := List.findIdx?_eq_some_iff_getElem.1 h
  refine ⟨hlt, ?_⟩
  rw [List.getD_eq_getElem?_getD, List.getElem?_eq_getElem hlt]
  simpa using heq

/-- What is read of an object is what it holds, if that ends where the object does. -/
theorem readsBack_readSer {α : Type} {body : Int → ReadM α} {a : α} (hcount : cn.names.length ≤ INT16_MAX)
    (hidx : (cn.indexOf name).isSome) (hlen : 10 + x.length ≤ INT32_MAX)
    (hbody : ∀ (c : Cursor) (fin : Int), c.bigEndian = false → fin = c.pos + x.length → Parses (body fin) c x a) :
    ReadsBack false (readSer cn name version body) (serBytes cn name version x) a := by
  intro c hc hheld
  obtain ⟨mem, pos, be, long, steps, flex⟩ := c
  cases hc
  obtain ⟨idx, hidx⟩ := Option.isSome_iff_exists.1 hidx
  obtain ⟨hlt, hname⟩ := FfxClassNames.indexOf_spec hidx
  have hmax : INT16_MAX = 2 ^ 15 - 1 := rfl
  have hclass : (Int16.ofNat (idx + 1)).toInt = idx + 1 := by
    rw [Int16.toInt_ofNat_of_lt (by omega)]
    rfl
  have hlength : (Int32.ofNat (10 + x.length)).toInt = 10 + x.length := by
    rw [int32_toInt_ofNat hlen]
    rfl
  obtain ⟨hword, hrest⟩ := holds_append.1 hheld
  obtain ⟨hversion, hrest⟩ := holds_append.1 hrest
  obtain ⟨hsize, hx⟩ := holds_append.1 hrest
  rw [FfxClassNames.word, hidx, Option.getD_some] at hword
  simp only [FfxClassNames.word, i32Bytes, sizeBytes, length_wordBytes] at hversion hsize hx
  rw [← wordBytes_i16] at hword
  rw [← wordBytes_i32] at hsize
  unfold readSer readSerHeader
  simp only [bind_assoc, pure_bind]
  refine Reads.position (Reads.i16 hword (Reads.i32 hversion (Reads.i32 hsize ?_)))
  refine Reads.check ⟨by omega, by omega⟩ (Reads.check ?_ (Reads.check ⟨rfl, by omega⟩ ?_))
  · rw [hclass]
    exact hname
  · refine (hbody ⟨mem, pos + 2 + 4 + 4, false, long, steps, flex⟩ _ rfl ?_ hx).bind ?_
    · rw [hlength]
      push_cast
      ring
    · unfold verifyEnd
      simp only [bind_assoc]
      refine Reads.position (Reads.check ?_ (Reads.at _ ?_ (Reads.pure _ _)))
      · rw [hlength]
        push_cast
        ring
      · simp only [serBytes, i32Bytes, sizeBytes, FfxClassNames.word, List.length_append, length_wordBytes,
          Cursor.advance]
        congr 1
        omega

end Objects

/-! ## Allocations -/

section Allocations

open BinaryReader

variable {α : Type} {be : Bool} {read : ReadM α} {bytes : α → List UInt8}

theorem growPtrs_steady (count cap : Nat) : Steady (growPtrs count cap) :=
  Steady.ite (Steady.pure _) (Steady.pure _).alloc_bind

theorem createParamList_steady : Steady createParamList := (Steady.pure _).alloc_bind

theorem createAction_steady : Steady createAction :=
  (createParamList_steady.bind fun _ => Steady.pure _).alloc_bind

theorem createTrigger_steady : Steady createTrigger := (Steady.pure _).alloc_bind

theorem createState_steady : Steady createState := (Steady.pure _).alloc_bind

theorem createStateMap_steady : Steady createStateMap := (Steady.pure _).alloc_bind

theorem createResourceSet_steady : Steady createResourceSet := (Steady.pure _).alloc_bind

theorem createEffect_steady : Steady createEffect := by
  refine Steady.alloc_bind (createParamList_steady.bind fun _ => createParamList_steady.bind fun _ => ?_)
  exact createStateMap_steady.bind fun _ => createResourceSet_steady.bind fun _ => Steady.pure _

theorem ffxdlseCreate_steady : Steady ffxdlseCreate := (createEffect_steady.bind fun _ => Steady.pure _).alloc_bind

/-- Elements that are read into an array which grows. -/
theorem readsBack_readGrowing (l : List α) (h : ∀ a ∈ l, ReadsBack be read (bytes a) a) (count cap : Nat) :
    ReadsBack be (readGrowing read l.length count cap) (l.flatMap bytes) l := by
  induction l generalizing count cap with
  | nil => exact ReadsBack.pure _
  | cons a l ih =>
      have hgrow : granted (growPtrs count cap) = some (if count < cap then cap else if cap = 0 then 4 else cap * 2) := by
        rw [granted_eq_some]
        unfold growPtrs
        split
        · exact ⟨_, rfl⟩
        · exact ⟨_, rfl⟩
      refine ReadsBack.onHeap (growPtrs_steady count cap) hgrow ?_
      refine (h a List.mem_cons_self).bind ?_
      exact (ih (fun b hb => h b (List.mem_cons_of_mem a hb)) (count + 1) _).last _ rfl

end Allocations

/-! ## An effect is read back -/

section ReadBack

open BinaryWriter BinaryReader

variable {cn : FfxClassNames}

theorem readsBack_size {n : Nat} : ReadsBack false readI32 (sizeBytes n) (Int32.ofNat n) := by
  have h : ReadsBack false readI32 (wordBytes false 4 (Int32.ofNat n).toUInt32.toNat) (Int32.ofNat n) :=
    readsBack_i32 _
  rwa [wordBytes_i32] at h

theorem sends_size {n : Nat} : Sends ffxSlots false false (writeI32 (Int32.ofNat n)) (sizeBytes n) True := by
  have h : Sends ffxSlots false false (writeI32 (Int32.ofNat n))
      (wordBytes false 4 (Int32.ofNat n).toUInt32.toNat) True := sends_i32 _
  rwa [wordBytes_i32] at h

theorem sends_int (v : Int32) : Sends ffxSlots false false (writeI32 v) (i32Bytes v) True := sends_i32 v

theorem readsBack_int (v : Int32) : ReadsBack false readI32 (i32Bytes v) v := readsBack_i32 v

theorem sends_writeDlvector (items : List Int32) :
    Sends ffxSlots false false (writeDlvector cn items) (dlvectorBytes cn items)
      (ReadsBack false (readDlvector cn) (dlvectorBytes cn items) items) := by
  unfold writeDlvector readDlvector dlvectorBytes FfxClassNames.word
  cases hidx : cn.indexOf CN_DLVECTOR with
  | none => exact sends_fail _
  | some idx =>
      simp only [Option.getD_some]
      rw [← wordBytes_i16]
      refine Sends.check fun hlen => (sends_i16 _).then fun _ => sends_size.then fun _ => ?_
      refine (Sends.given (fun _ => sends_array items sends_int) fun hno => ?_).imp fun _ => ?_
      · have hnil : items = [] := by simpa using hno
        rw [hnil]
        rfl
      · refine ((readsBack_i16 _).assert (List.mem_singleton_self _)).bind (readsBack_size.bind ?_)
        have hint := int32_toInt_ofNat hlen
        refine ReadsBack.check (by omega) ?_
        cases items with
        | nil => exact ReadsBack.pure _
        | cons v vs =>
            have hne : Int32.ofNat (v :: vs).length ≠ 0 := by
              intro h0
              rw [h0] at hint
              simp at hint
              omega
            rw [if_neg hne, hint, Int.toNat_natCast]
            exact ReadsBack.alloc fun _ => readsBack_i32s _ hlen

theorem FfxOpcode.ofInt32?_toInt32 (opcode : FfxOpcode) : ofInt32? opcode.toInt32 = some opcode := by
  cases opcode with
  | constant => rfl
  | not => rfl
  | arg opcode => cases opcode <;> rfl
  | leaf opcode => cases opcode <;> rfl
  | binary opcode => cases opcode <;> rfl

/-- An object whose content does not look at where it ends. -/
theorem readsBack_ser {α : Type} {name x : List UInt8} {version : Int32} {m : ReadM α} {a : α}
    (hcount : cn.names.length ≤ INT16_MAX) (hser : (cn.indexOf name).isSome ∧ 10 + x.length ≤ INT32_MAX)
    (hm : ReadsBack false m x a) :
    ReadsBack false (readSer cn name version fun _ => m) (serBytes cn name version x) a :=
  readsBack_readSer hcount hser.1 hser.2 fun c _ hc _ => hm c hc

theorem le_length_serBytes (cn : FfxClassNames) (name : List UInt8) (version : Int32) (x : List UInt8) :
    10 + x.length ≤ (serBytes cn name version x).length := by
  simp only [serBytes, i32Bytes, sizeBytes, FfxClassNames.word, List.length_append, length_wordBytes]
  omega

/-- Evaluatables that are written are read back with enough fuel. -/
theorem sends_writeEvaluatable (hcount : cn.names.length ≤ INT16_MAX) (ev : FfxEvaluatable) :
    Sends ffxSlots false false (writeEvaluatable cn ev) (ev.bytes cn)
      (∀ fuel, (ev.bytes cn).length ≤ fuel → ReadsBack false (readEvaluatable cn fuel) (ev.bytes cn) ev) := by
  -- the header of an object uses up fuel, and leaves enough for its operands
  have hfuel : ∀ {x : List UInt8} {fuel : Nat}, (serBytes cn CN_EVAL V_EVAL x).length ≤ fuel →
      ∃ n, fuel = n + 1 ∧ x.length ≤ n := by
    intro x fuel hle
    have hlen := le_length_serBytes cn CN_EVAL V_EVAL x
    exact ⟨fuel - 1, by omega, by omega⟩
  induction ev with
  | constant typeField value =>
      refine (sends_writeSer ((sends_int _).then fun _ => (sends_int _).then fun _ => sends_int _)).imp ?_
      rintro ⟨-, hser⟩ fuel hle
      obtain ⟨fuel, rfl, -⟩ := hfuel hle
      refine readsBack_ser hcount hser ((readsBack_int _).bind ((readsBack_int _).bind ?_))
      rw [FfxOpcode.ofInt32?_toInt32]
      exact ReadsBack.alloc fun _ => (readsBack_int _).last _ rfl
  | arg opcode typeField unk00 argIndex =>
      refine (sends_writeSer ((sends_int _).then fun _ => (sends_int _).then fun _ => (sends_int _).then fun _ =>
        sends_int _)).imp ?_
      rintro ⟨-, hser⟩ fuel hle
      obtain ⟨fuel, rfl, -⟩ := hfuel hle
      refine readsBack_ser hcount hser ((readsBack_int _).bind ((readsBack_int _).bind ?_))
      rw [FfxOpcode.ofInt32?_toInt32]
      exact ReadsBack.alloc fun _ => (readsBack_int _).bind ((readsBack_int _).last _ rfl)
  | leaf opcode typeField =>
      refine (sends_writeSer ((sends_int _).then fun _ => sends_int _)).imp ?_
      rintro ⟨-, hser⟩ fuel hle
      obtain ⟨fuel, rfl, -⟩ := hfuel hle
      refine readsBack_ser hcount hser ((readsBack_int _).bind ?_)
      rw [← List.append_nil (i32Bytes typeField)]
      refine (readsBack_int _).bind ?_
      rw [FfxOpcode.ofInt32?_toInt32]
      exact ReadsBack.alloc fun _ => ReadsBack.pure _
  | binary opcode typeField left right ihleft ihright =>
      refine (sends_writeSer ((sends_int _).then fun _ => (sends_int _).then fun _ => ihright.then fun hright =>
        ihleft.imp fun hleft => And.intro hright hleft)).imp ?_
      rintro ⟨⟨hright, hleft⟩, hser⟩ fuel hle
      obtain ⟨fuel, rfl, hrest⟩ := hfuel hle
      simp only [List.length_append] at hrest
      refine readsBack_ser hcount hser ((readsBack_int _).bind ((readsBack_int _).bind ?_))
      rw [FfxOpcode.ofInt32?_toInt32]
      refine ReadsBack.alloc fun _ => (hright fuel (by omega)).bind ?_
      exact (hleft fuel (by omega)).last _ rfl
  | not typeField operand ih =>
      refine (sends_writeSer ((sends_int _).then fun _ => (sends_int _).then fun _ => ih)).imp ?_
      rintro ⟨hoperand, hser⟩ fuel hle
      obtain ⟨fuel, rfl, hrest⟩ := hfuel hle
      simp only [List.length_append] at hrest
      refine readsBack_ser hcount hser ((readsBack_int _).bind ((readsBack_int _).bind ?_))
      rw [FfxOpcode.ofInt32?_toInt32]
      exact ReadsBack.alloc fun _ => (hoperand fuel (by omega)).last _ rfl

theorem FfxParamType.ofInt32?_value (type : FfxParamType) : ofInt32? type.value = some type := by
  unfold ofInt32?
  rw [dif_pos type.valid]

theorem sends_writeParam (hcount : cn.names.length ≤ INT16_MAX) (p : FfxParam) :
    Sends ffxSlots false false (writeParam cn p) (p.bytes cn) (ReadsBack false (readParam cn) (p.bytes cn) p) := by
  have hpayload : Sends ffxSlots false false (given (0 < p.payloadAfterType.length) () (writeBytes p.payloadAfterType))
      p.payloadAfterType True :=
    Sends.given (fun _ => sends_bytes _) fun hno => by simpa using hno
  refine (sends_writeSer ((sends_int _).then fun _ => hpayload)).imp ?_
  rintro ⟨-, hidx, hlen⟩
  refine readsBack_readSer hcount hidx hlen fun c fin hc hfin => ?_
  refine (readsBack_int p.type.value c hc).bind ?_
  rw [FfxParamType.ofInt32?_value]
  intro hheld
  -- what is left of the object is the payload
  have hrest : fin - ((c.pos + (i32Bytes p.type.value).length : Nat) : Int) = p.payloadAfterType.length := by
    rw [hfin, List.length_append]
    push_cast
    ring
  refine Reads.position (Reads.check ?_ (reads_alloc _ fun _ => ?_))
  · omega
  · rw [hrest, Int.toNat_natCast]
    cases hp : p.payloadAfterType with
    | nil =>
        rw [hp] at hheld
        have hread : Reads (Pure.pure (⟨p.type, []⟩ : FfxParam)) (c.advance (i32Bytes p.type.value).length) p
            ((c.advance (i32Bytes p.type.value).length).advance 0) := by
          rw [← hp]
          exact Reads.pure _ _
        exact (Reads.pure _ _).bind hread
    | cons b bs =>
        rw [hp] at hheld
        have hpos : decide (0 < ((b :: bs).length : Int)) = true := by simp
        unfold given
        rw [if_pos hpos]
        simp only [bind_assoc]
        refine reads_alloc _ fun _ => (parses_bytes _ (b :: bs) hheld).bind ?_
        rw [← hp]
        exact Reads.pure _ _

theorem sends_writeParamList (hcount : cn.names.length ≤ INT16_MAX) (pl : FfxParamList) :
    Sends ffxSlots false false (writeParamList cn pl) (pl.bytes cn)
      (ReadsBack false (readParamList cn) (pl.bytes cn) pl) := by
  refine Sends.check fun hlen => ?_
  refine (sends_writeSer (sends_size.then fun _ => (sends_int _).then fun _ =>
    sends_each pl.params fun p _ => sends_writeParam hcount p)).imp ?_
  rintro ⟨hparams, hser⟩
  have hint := int32_toInt_ofNat hlen
  refine readsBack_ser hcount hser ?_
  refine ReadsBack.onHeap createParamList_steady rfl (readsBack_size.bind ((readsBack_int _).bind ?_))
  rw [hint, Int.toNat_natCast]
  exact ReadsBack.check (by omega) ((readsBack_readGrowing pl.params hparams 0 0).last _ rfl)

theorem sends_writeAction (hcount : cn.names.length ≤ INT16_MAX) (a : FfxAction) :
    Sends ffxSlots false false (writeAction cn a) (a.bytes cn) (ReadsBack false (readAction cn) (a.bytes cn) a) := by
  refine (sends_writeSer ((sends_int _).then fun _ => sends_writeParamList hcount a.paramList)).imp ?_
  rintro ⟨hlist, hser⟩
  refine readsBack_ser hcount hser (ReadsBack.onHeap createAction_steady rfl ((readsBack_int _).bind ?_))
  exact hlist.last _ rfl

theorem sends_writeTrigger (hcount : cn.names.length ≤ INT16_MAX) (t : FfxTrigger) :
    Sends ffxSlots false false (writeTrigger cn t) (t.bytes cn)
      (ReadsBack false (readTrigger cn) (t.bytes cn) t) := by
  obtain ⟨stateIndex, evaluator⟩ := t
  cases evaluator with
  | none => exact sends_fail _
  | some ev =>
      refine (sends_writeSer ((sends_int _).then fun _ => sends_writeEvaluatable hcount ev)).imp ?_
      rintro ⟨hev, hser⟩
      refine readsBack_ser hcount hser (ReadsBack.onHeap createTrigger_steady rfl ((readsBack_int _).bind ?_))
      intro c hc hheld
      refine Reads.state fun r hr => ?_
      have hfuel : (ev.bytes cn).length ≤ r.length - r.position + 1 := by
        have hle : c.pos + (ev.bytes cn).length ≤ c.mem.length := hheld.le
        have hmem : r.stream.mem = c.mem := congrArg Cursor.mem hr
        have hpos : r.stream.memPos = c.pos := congrArg Cursor.pos hr
        simp only [BinaryReader.length, BinaryReader.position, IStream.length, hmem, hpos]
        omega
      exact (hev _ hfuel).last _ rfl c hc hheld

theorem sends_writeState (hcount : cn.names.length ≤ INT16_MAX) (s : FfxState) :
    Sends ffxSlots false false (writeState cn s) (s.bytes cn) (ReadsBack false (readState cn) (s.bytes cn) s) := by
  refine Sends.check fun hlen => ?_
  refine (sends_writeSer (sends_size.then fun _ => sends_size.then fun _ =>
    (sends_each s.actions fun a _ => sends_writeAction hcount a).then fun hactions =>
      (sends_each s.triggers fun t _ => sends_writeTrigger hcount t).imp fun htriggers =>
        And.intro hactions htriggers)).imp ?_
  rintro ⟨⟨hactions, htriggers⟩, hser⟩
  have hint := int32_toInt_ofNat hlen.1
  have hint' := int32_toInt_ofNat hlen.2
  refine readsBack_ser hcount hser (ReadsBack.onHeap createState_steady rfl (readsBack_size.bind
    (readsBack_size.bind ?_)))
  rw [hint, hint', Int.toNat_natCast, Int.toNat_natCast]
  refine ReadsBack.check ⟨by omega, by omega⟩ ((readsBack_readGrowing s.actions hactions 0 0).bind ?_)
  exact (readsBack_readGrowing s.triggers htriggers 0 0).last _ rfl

theorem sends_writeStateMap (hcount : cn.names.length ≤ INT16_MAX) (sm : FfxStateMap) :
    Sends ffxSlots false false (writeStateMap cn sm) (sm.bytes cn)
      (ReadsBack false (readStateMap cn) (sm.bytes cn) sm) := by
  refine Sends.check fun hlen => ?_
  refine (sends_writeSer (sends_size.then fun _ => sends_each sm.states fun s _ => sends_writeState hcount s)).imp ?_
  rintro ⟨hstates, hser⟩
  have hint := int32_toInt_ofNat hlen
  refine readsBack_ser hcount hser (ReadsBack.onHeap createStateMap_steady rfl (readsBack_size.bind ?_))
  rw [hint, Int.toNat_natCast]
  exact ReadsBack.check (by omega) ((readsBack_readGrowing sm.states hstates 0 0).last _ rfl)

theorem sends_writeResourceSet (hcount : cn.names.length ≤ INT16_MAX) (rs : FfxResourceSet) :
    Sends ffxSlots false false (writeResourceSet cn rs) (rs.bytes cn)
      (ReadsBack false (readResourceSet cn) (rs.bytes cn) rs) := by
  refine (sends_writeSer (sends_each rs.vectors fun v _ => sends_writeDlvector v)).imp ?_
  rintro ⟨hvectors, hser⟩
  obtain ⟨vectors, hfive⟩ := rs
  obtain ⟨v0, v1, v2, v3, v4, rfl⟩ : ∃ v0 v1 v2 v3 v4, vectors = [v0, v1, v2, v3, v4] := by
    match vectors, hfive with
    | [v0, v1, v2, v3, v4], _ => exact ⟨v0, v1, v2, v3, v4, rfl⟩
  simp only [List.mem_cons, List.not_mem_nil, or_false, forall_eq_or_imp, forall_eq] at hvectors
  obtain ⟨h0, h1, h2, h3, h4⟩ := hvectors
  refine readsBack_ser hcount hser (ReadsBack.onHeap createResourceSet_steady rfl ?_)
  simp only [List.flatMap_cons, List.flatMap_nil]
  exact h0.bind (h1.bind (h2.bind (h3.bind (h4.bind (ReadsBack.pure _)))))

/-- A constant that is asserted. -/
theorem readsBack_constant (v : Int32) : ReadsBack false (assertI32 [v]) (i32Bytes v) v :=
  (readsBack_i32 v).assert (List.mem_singleton_self v)

theorem sends_writeEffect (hcount : cn.names.length ≤ INT16_MAX) (e : FfxEffect) :
    Sends ffxSlots false false (writeEffect cn e) (e.bytes cn) (ReadsBack false (readEffect cn) (e.bytes cn) e) := by
  refine (sends_writeSer ((sends_int _).then fun _ => (sends_int _).then fun _ => (sends_int _).then fun _ =>
    (sends_int _).then fun _ => (sends_int _).then fun _ => (sends_i16 0).then fun _ => (sends_i16 2).then fun _ =>
    (sends_int _).then fun _ => (sends_writeParamList hcount e.paramList1).then fun hlist1 =>
    (sends_writeParamList hcount e.paramList2).then fun hlist2 =>
    (sends_writeStateMap hcount e.stateMap).then fun hmap =>
    (sends_writeResourceSet hcount e.resourceSet).then fun hset =>
    (sends_u8 0).imp fun _ => And.intro hlist1 (And.intro hlist2 (And.intro hmap hset)))).imp ?_
  rintro ⟨⟨hlist1, hlist2, hmap, hset⟩, hser⟩
  have hzero : ReadsBack false (assertI16 [0]) (wordBytes false 2 0) 0 :=
    (readsBack_i16 0).assert (List.mem_singleton_self 0)
  have htwo : ReadsBack false (assertI16 [2]) (wordBytes false 2 2) 2 :=
    (readsBack_i16 2).assert (List.mem_singleton_self 2)
  have hend : ReadsBack false (assertU8 [0]) [0] 0 := (readsBack_u8 0).assert (List.mem_singleton_self 0)
  refine readsBack_ser hcount hser (ReadsBack.onHeap createEffect_steady rfl ((readsBack_constant 0).bind
    ((readsBack_int _).bind ((readsBack_constant 0).bind ((readsBack_constant 0).bind ((readsBack_constant 2).bind
    (hzero.bind (htwo.bind ((readsBack_constant 0).bind ?_)))))))))
  exact hlist1.bind (hlist2.bind (hmap.bind (hset.bind (hend.last _ rfl))))

end ReadBack

/-! ## Tables of class names -/

section Names

variable {cn : FfxClassNames} {name : List UInt8}

/-- The table with one more name. -/
def FfxClassNames.appended (cn : FfxClassNames) (name : List UInt8) : FfxClassNames :=
  ⟨cn.names ++ [name], if cn.names.length = cn.cap then (if cn.cap = 0 then 8 else cn.cap * 2) else cn.cap⟩

/-- The table of these names. -/
def FfxClassNames.ofNames (names : List (List UInt8)) : FfxClassNames := names.foldl appended init

theorem FfxClassNames.names_foldl (cn : FfxClassNames) (names : List (List UInt8)) :
    (names.foldl appended cn).names = cn.names ++ names := by
  induction names generalizing cn with
  | nil => simp
  | cons name names ih => simp [ih, appended]

theorem FfxClassNames.names_ofNames (names : List (List UInt8)) : (ofNames names).names = names :=
  names_foldl init names

theorem FfxClassNames.ofNames_append (names : List (List UInt8)) (name : List UInt8) :
    ofNames (names ++ [name]) = (ofNames names).appended name := by
  simp [ofNames]

/-- A table that was built name by name, of ASCII names. -/
structure FfxClassNames.Proper (cn : FfxClassNames) : Prop where
  built : cn = ofNames cn.names
  plain : ∀ name ∈ cn.names, Win32.isPlain name = true

theorem FfxClassNames.proper_init : init.Proper := ⟨rfl, nofun⟩

theorem FfxClassNames.Proper.appended (hcn : cn.Proper) (hname : Win32.isPlain name = true) :
    (cn.appended name).Proper := by
  constructor
  · show cn.appended name = ofNames (cn.names ++ [name])
    rw [ofNames_append, ← hcn.built]
  · intro n hn
    rcases List.mem_append.1 hn with hn | hn
    · exact hcn.plain n hn
    · rw [List.mem_singleton.1 hn]
      exact hname

theorem FfxClassNames.returns_appendOwned (cn : FfxClassNames) (name : List UInt8) :
    Returns (cn.appendOwned name) fun cn' => cn' = cn.appended name := by
  unfold appendOwned appended
  refine Returns.ite (fun h => Returns.after fun _ => Returns.pure ?_) fun h => Returns.pure ?_
  · rw [if_pos h]
  · rw [if_neg h]

theorem FfxClassNames.appendOwned_steady (cn : FfxClassNames) (name : List UInt8) : Steady (cn.appendOwned name) :=
  Steady.ite (Steady.pure _).alloc_bind (Steady.pure _)

theorem FfxClassNames.granted_appendOwned (cn : FfxClassNames) (name : List UInt8) :
    granted (cn.appendOwned name) = some (cn.appended name) := by
  rw [granted_eq_some]
  unfold appendOwned appended
  split
  · exact ⟨_, rfl⟩
  · exact ⟨_, rfl⟩

/-- What `strlen` sees of an ASCII string. -/
theorem isPlain_cText (h : ∀ b ∈ name, b < 0x80) : Win32.isPlain (cText name) = true := by
  rw [Win32.isPlain_iff]
  constructor
  · intro b hb
    exact h b ((List.takeWhile_sublist _).subset hb)
  · intro b hb
    simpa using List.mem_takeWhile_imp hb

theorem cText_of_plain (h : Win32.isPlain name = true) : cText name = name :=
  cText_eq_self (Win32.isPlain_iff.1 h).2

theorem ascii_of_all (h : (name.all fun b => b < 0x80) = true) : ∀ b ∈ name, b < 0x80 := by
  simpa using h

theorem FfxClassNames.Proper.returns_add (hcn : cn.Proper) (hname : ∀ b ∈ name, b < 0x80) :
    Returns (cn.add name) Proper := by
  refine Returns.ite (fun _ => Returns.pure hcn) fun _ => Returns.after fun _ => ?_
  refine (returns_appendOwned cn (cText name)).mono ?_
  rintro cn' rfl
  exact hcn.appended (isPlain_cText hname)

theorem FfxClassNames.Proper.returns_copy (hcn : cn.Proper) (names : List (List UInt8))
    (hnames : ∀ name ∈ names, ∀ b ∈ name, b < 0x80) : Returns (cn.copy names) Proper := by
  induction names generalizing cn with
  | nil => exact Returns.pure hcn
  | cons name names ih =>
      refine (hcn.returns_add (hnames name List.mem_cons_self)).bind fun cn' hcn' => ?_
      exact ih hcn' fun n hn => hnames n (List.mem_cons_of_mem name hn)

/-- What is kept by every element is kept by the loop over them. -/
theorem returns_collectEach {α : Type} {collect : FfxClassNames → α → Fallible Heap SfError FfxClassNames}
    {I : FfxClassNames → Prop} (l : List α) (h : ∀ cn, I cn → ∀ a ∈ l, Returns (collect cn a) I) (hcn : I cn) :
    Returns (collectEach collect cn l) I := by
  induction l generalizing cn with
  | nil => exact Returns.pure hcn
  | cons a l ih =>
      refine (h cn hcn a List.mem_cons_self).bind fun cn' hcn' => ?_
      exact ih (fun cn hcn b hb => h cn hcn b (List.mem_cons_of_mem a hb)) hcn'

theorem returns_collectEval (hcn : cn.Proper) (ev : FfxEvaluatable) :
    Returns (collectEval cn ev) FfxClassNames.Proper := by
  have hname : ∀ b ∈ CN_EVAL, b < 0x80 := ascii_of_all rfl
  induction ev generalizing cn with
  | constant => exact hcn.returns_add hname
  | arg => exact hcn.returns_add hname
  | leaf => exact hcn.returns_add hname
  | binary opcode typeField left right ihleft ihright =>
      exact (hcn.returns_add hname).bind fun _ h => (ihright h).bind fun _ h => ihleft h
  | not typeField operand ih => exact (hcn.returns_add hname).bind fun _ h => ih h

theorem returns_collectParamList (hcn : cn.Proper) (pl : FfxParamList) :
    Returns (collectParamList cn pl) FfxClassNames.Proper :=
  (hcn.returns_add (ascii_of_all rfl)).bind fun _ h =>
    Returns.ite (fun _ => h.returns_add (ascii_of_all rfl)) fun _ => Returns.pure h

theorem returns_collectState (hcn : cn.Proper) (s : FfxState) :
    Returns (collectState cn s) FfxClassNames.Proper := by
  have haction : ∀ cn : FfxClassNames, cn.Proper → ∀ a ∈ s.actions, Returns (collectAction cn a) FfxClassNames.Proper :=
    fun cn hcn a _ => (hcn.returns_add (ascii_of_all rfl)).bind fun _ h => returns_collectParamList h a.paramList
  have htrigger : ∀ cn : FfxClassNames, cn.Proper → ∀ t ∈ s.triggers,
      Returns (collectTrigger cn t) FfxClassNames.Proper := by
    rintro cn hcn ⟨stateIndex, evaluator⟩ -
    refine (hcn.returns_add (ascii_of_all rfl)).bind fun _ h => ?_
    cases evaluator with
    | none => exact Returns.fail _
    | some ev => exact returns_collectEval h ev
  refine (hcn.returns_add (ascii_of_all rfl)).bind fun _ h => ?_
  exact (returns_collectEach s.actions haction h).bind fun _ h => returns_collectEach s.triggers htrigger h

/-- The table that is written holds ASCII names. -/
theorem returns_collectClasses (ffx : Ffxdlse) (hnames : ∀ name ∈ ffx.classNames.names, ∀ b ∈ name, b < 0x80) :
    Returns (collectClasses ffx) FfxClassNames.Proper := by
  refine (FfxClassNames.proper_init.returns_copy _ hnames).bind fun _ h => ?_
  refine (h.returns_add (ascii_of_all rfl)).bind fun _ h => (h.returns_add (ascii_of_all rfl)).bind fun _ h => ?_
  refine (returns_collectParamList h _).bind fun _ h => (returns_collectParamList h _).bind fun _ h => ?_
  refine (h.returns_add (ascii_of_all rfl)).bind fun _ h => ?_
  refine (returns_collectEach _ (fun _ h s _ => returns_collectState h s) h).bind fun _ h => ?_
  exact (h.returns_add (ascii_of_all rfl)).bind fun _ h => h.returns_add (ascii_of_all rfl)

end Names

/-! ## Files -/

section Files

open BinaryWriter BinaryReader

variable {os : Win32} {cn : FfxClassNames}

theorem sends_writeClassName (hos : os.AsciiCompatible) {name : List UInt8} (hname : Win32.isPlain name = true) :
    Sends ffxSlots false false (writeClassName os name) (classNameBytes name) (name.length ≤ INT32_MAX) := by
  unfold writeClassName
  rw [cText_of_plain hname]
  exact Sends.check fun hlen => sends_size.then fun _ => (sends_ascii hos hname).imp fun _ => hlen

theorem readsBack_readClassNames (names : List (List UInt8)) (hplain : ∀ name ∈ names, Win32.isPlain name = true)
    (hlen : ∀ name ∈ names, name.length ≤ INT32_MAX) (cn : FfxClassNames) :
    ReadsBack false (readClassNames names.length cn) (names.flatMap classNameBytes)
      (names.foldl FfxClassNames.appended cn) := by
  induction names generalizing cn with
  | nil => exact ReadsBack.pure _
  | cons name names ih =>
      have hint := int32_toInt_ofNat (hlen name List.mem_cons_self)
      have hascii := (Win32.isPlain_iff.1 (hplain name List.mem_cons_self)).1
      have hrest := ih (fun n hn => hplain n (List.mem_cons_of_mem name hn))
        (fun n hn => hlen n (List.mem_cons_of_mem name hn)) (cn.appended name)
      rw [List.flatMap_cons, classNameBytes, List.append_assoc]
      refine readsBack_size.bind ?_
      rw [hint, Int.toNat_natCast]
      refine ReadsBack.check (by omega) ((readsBack_asciiN name hascii (hlen name List.mem_cons_self)).bind ?_)
      exact ReadsBack.onHeap (cn.appendOwned_steady name) (cn.granted_appendOwned name) hrest

theorem readsBack_byte (v : UInt8) : ReadsBack false (assertU8 [v]) [v] v :=
  (readsBack_u8 v).assert (List.mem_singleton_self v)

/-- **An effect that is written is read back**, with the table of its class names. -/
theorem sends_ffxdlseWrite (hos : os.AsciiCompatible) (hcn : cn.Proper) (e : FfxEffect) :
    Sends ffxSlots false false (ffxdlseWrite cn os e) (ffxdlseBytes cn e)
      (ReadsBack false ffxdlseRead (ffxdlseBytes cn e) ⟨cn, e⟩) := by
  refine (sends_bytes _).then fun _ => (sends_u8 _).then fun _ => (sends_u8 _).then fun _ => (sends_u8 _).then
    fun _ => (sends_u8 _).then fun _ => (sends_int _).then fun _ => (sends_int _).then fun _ => (sends_u8 _).then
    fun _ => (sends_int _).then fun _ => Sends.check fun hcount => ?_
  rw [← wordBytes_i16]
  refine (sends_i16 _).then fun _ => (sends_each cn.names fun name hname =>
    sends_writeClassName hos (hcn.plain name hname)).then fun hlens => (sends_writeEffect hcount e).imp fun heffect => ?_
  have hmax : INT16_MAX = 2 ^ 15 - 1 := rfl
  have hint : (Int16.ofNat cn.names.length).toInt = cn.names.length := Int16.toInt_ofNat_of_lt (by omega)
  have hnames := readsBack_readClassNames cn.names hcn.plain hlens .init
  have htable : cn.names.foldl FfxClassNames.appended .init = cn := hcn.built.symm
  rw [htable] at hnames
  have hmagic : ffxdlseBytes cn e = [0x44] ++ ([0x4C] ++ ([0x73] ++ ([0x45] ++ ([1] ++ ([3] ++ ([0] ++ ([0] ++
      (i32Bytes 0 ++ (i32Bytes 0 ++ ([0] ++ (i32Bytes 1 ++ (wordBytes false 2 (Int16.ofNat cn.names.length).toUInt16.toNat ++
      (cn.names.flatMap classNameBytes ++ e.bytes cn))))))))))))) := by
    rw [wordBytes_i16]
    rfl
  rw [hmagic]
  unfold ffxdlseRead ffxdlseReadTable
  simp only [bind_assoc]
  refine ReadsBack.onHeap ffxdlseCreate_steady rfl ((readsBack_byte _).bind ((readsBack_byte _).bind
    ((readsBack_byte _).bind ((readsBack_byte _).bind ((readsBack_byte _).bind ((readsBack_byte _).bind
    ((readsBack_byte _).bind ((readsBack_byte _).bind ((readsBack_constant _).bind ((readsBack_constant _).bind
    ((readsBack_byte _).bind ((readsBack_constant _).bind ((readsBack_i16 _).bind ?_)))))))))))))
  rw [hint, Int.toNat_natCast]
  exact ReadsBack.check (by omega) (hnames.bind (heffect.last _ rfl))

end Files

/-! ## What was read -/

section Consumed

open BinaryReader

variable {cn : FfxClassNames} {M : Mode} {pos : Nat} {name : List UInt8} {version : Int32}

/-- In a table of different names, a class is where its name is. -/
theorem FfxClassNames.indexOf_of_nodup (hcn : (cn.names.map cText).Nodup) {i : Nat} (hi : i < cn.names.length)
    (hname : cText (cn.names.getD i []) = cText name) : cn.indexOf name = some i := by
  rw [List.getD_eq_getElem?_getD, List.getElem?_eq_getElem hi, Option.getD_some] at hname
  refine List.findIdx?_eq_some_iff_getElem.2 ⟨hi, by simpa using hname, fun j hj => ?_⟩
  intro hsame
  have hi' : i < (cn.names.map cText).length := by simpa using hi
  have hj' : j < (cn.names.map cText).length := hj.trans hi'
  have heq : (cn.names.map cText)[j] = (cn.names.map cText)[i] := by
    simp only [List.getElem_map]
    rw [hname]
    simpa using hsame
  exact absurd ((List.Nodup.getElem_inj_iff hcn).1 heq) (Nat.ne_of_lt hj)

/-- The bytes of an object that was read, for a table of different names. -/
theorem consumes_readSer {α : Type} {body : Int → ReadM α} {R : α → List UInt8 → Prop}
    (hcn : (cn.names.map cText).Nodup) (hbe : M.bigEndian = false)
    (hbody : ∀ pos fin, Consumes M pos (body fin) R) :
    Consumes M pos (readSer cn name version body) fun a z =>
      ∃ x, z = serBytes cn name version x ∧ (cn.indexOf name).isSome ∧ R a x := by
  unfold readSer readSerHeader verifyEnd
  simp only [bind_assoc, pure_bind]
  refine Consumes.position (consumes_i16.bind fun index x1 hx1 => consumes_i32.bind fun v x2 hx2 =>
    consumes_i32.bind fun length x3 hx3 => Consumes.check fun hindex => Consumes.check fun hname =>
    Consumes.check fun hlength => (hbody _ _).bind fun a x hx => ?_)
  refine Consumes.position (Consumes.check fun hfin => Consumes.pure ⟨x, ?_, ?_, hx⟩)
  · have hidx := FfxClassNames.indexOf_of_nodup hcn (by omega) hname
    have hword : cn.word name = x1 := by
      rw [FfxClassNames.word, hidx, hx1, hbe, int16_eq_ofNat (v := index) (by omega), wordBytes_i16, Option.getD_some]
      congr 1
      rw [← int16_eq_ofNat (by omega)]
      omega
    have hsize : sizeBytes (10 + x.length) = x3 := by
      rw [hx3, hbe, int32_eq_ofNat (v := length) (by omega), wordBytes_i32, sizeBytes]
      rw [hx1, hx2, hx3, length_wordBytes, length_wordBytes, length_wordBytes] at hfin
      congr 1
      push_cast at hfin
      omega
    rw [serBytes, hword, hsize, i32Bytes, ← hlength.1, ← hbe, ← hx2]
    simp
  · rw [FfxClassNames.indexOf_of_nodup hcn (by omega) hname]
    rfl

/-- What is read as a number that is not negative. -/
theorem consumes_size (hbe : M.bigEndian = false) :
    Consumes M pos readI32 fun v x => 0 ≤ v.toInt → x = sizeBytes v.toInt.toNat := by
  refine consumes_i32.mono fun v x hx hv => ?_
  have hword := wordBytes_i32 false v.toInt.toNat
  rw [← int32_eq_ofNat hv] at hword
  rw [hx, hbe, hword, sizeBytes]

theorem consumes_int32 (hbe : M.bigEndian = false) : Consumes M pos readI32 fun v x => x = i32Bytes v := by
  refine consumes_i32.mono fun v x hx => ?_
  rw [hx, hbe, i32Bytes]

/-- What was read into an array that grows. -/
theorem consumes_readGrowing {α : Type} {read : ReadM α} {bytes : α → List UInt8} {P : α → Prop}
    (hread : ∀ pos, Consumes M pos read fun a x => x = bytes a ∧ P a) (n count cap : Nat) :
    Consumes M pos (readGrowing read n count cap) fun l x =>
      x = l.flatMap bytes ∧ l.length = n ∧ ∀ a ∈ l, P a := by
  induction n generalizing pos count cap with
  | zero => exact Consumes.pure ⟨rfl, rfl, nofun⟩
  | succ n ih =>
      refine Consumes.onHeap fun cap _ => (hread pos).bind fun a x hx => ?_
      refine (ih (count + 1) cap).map fun l y hy => ?_
      obtain ⟨rfl, hP⟩ := hx
      obtain ⟨rfl, hlen, hl⟩ := hy
      refine ⟨by rw [List.flatMap_cons], by rw [List.length_cons, hlen], ?_⟩
      simpa using ⟨hP, hl⟩

/-- A class that is in the table is not added to it. -/
theorem FfxClassNames.returns_add_known (h : (cn.indexOf name).isSome) :
    Returns (cn.add name) fun cn' => cn' = cn := by
  unfold add
  rw [if_pos h]
  exact Returns.pure rfl

/-- A collection that comes to the same table goes on from it. -/
theorem returns_same_bind {m : Fallible Heap SfError FfxClassNames} {f : FfxClassNames → Fallible Heap SfError FfxClassNames}
    {Q : FfxClassNames → Prop} (hm : Returns m fun cn' => cn' = cn) (hf : Returns (f cn) Q) :
    Returns (m >>= f) Q := by
  refine hm.bind fun cn' h => ?_
  rw [h]
  exact hf

theorem returns_collectEach_same {α : Type} {collect : FfxClassNames → α → Fallible Heap SfError FfxClassNames}
    {l : List α} (h : ∀ a ∈ l, Returns (collect cn a) fun cn' => cn' = cn) :
    Returns (collectEach collect cn l) fun cn' => cn' = cn := by
  refine returns_collectEach l (fun cn1 hcn1 a ha => ?_) rfl
  rw [hcn1]
  exact h a ha

theorem consumes_readDlvector (hbe : M.bigEndian = false) (hflex : M.isFlexible = false) :
    Consumes M pos (readDlvector cn) fun items x => x = dlvectorBytes cn items ∧ (cn.indexOf CN_DLVECTOR).isSome := by
  unfold readDlvector dlvectorBytes FfxClassNames.word
  cases hidx : cn.indexOf CN_DLVECTOR with
  | none => exact consumes_fail _
  | some idx =>
      refine (consumes_assert hflex consumes_i16).bind fun v x1 hx1 => ?_
      obtain ⟨rfl, hv⟩ := hx1
      rw [List.mem_singleton.1 hv, hbe, wordBytes_i16]
      refine (consumes_size hbe).bind fun count x2 hx2 => Consumes.check fun hcount => ?_
      rw [hx2 hcount]
      refine Consumes.last ?_
      split
      · next h0 =>
          rw [h0]
          exact (Consumes.pure ⟨by simp [sizeBytes], rfl⟩).map fun _ _ h => h
      · rw [bind_assoc]
        refine Consumes.onHeap fun _ _ => (consumes_i32s _).map fun items x3 hx3 => ?_
        obtain ⟨rfl, hlen⟩ := hx3
        rw [← hlen, hbe]
        exact ⟨rfl, rfl⟩

theorem consumes_constant (hbe : M.bigEndian = false) (hflex : M.isFlexible = false) (v : Int32) :
    Consumes M pos (assertI32 [v]) fun _ x => x = i32Bytes v := by
  refine (consumes_assert hflex (consumes_int32 hbe)).mono fun u x hx => ?_
  rw [hx.1, List.mem_singleton.1 hx.2]

theorem consumes_byte (hflex : M.isFlexible = false) (v : UInt8) :
    Consumes M pos (assertU8 [v]) fun _ x => x = [v] := by
  refine (consumes_assert hflex consumes_u8).mono fun u x hx => ?_
  rw [hx.1, List.mem_singleton.1 hx.2]

section

variable (hcn : (cn.names.map cText).Nodup) (hbe : M.bigEndian = false) (hflex : M.isFlexible = false)

include hcn hbe

theorem consumes_readEvaluatable (fuel : Nat) :
    Consumes M pos (readEvaluatable cn fuel) fun ev x =>
      x = ev.bytes cn ∧ Returns (collectEval cn ev) fun cn' => cn' = cn := by
  induction fuel generalizing pos with
  | zero => exact consumes_fail _
  | succ fuel ih =>
      -- what the object of an evaluatable holds, and that its class is known if the object was read
      have hser : Consumes M pos (readEvaluatable cn (fuel + 1)) fun ev z =>
          ∃ x, z = serBytes cn CN_EVAL V_EVAL x ∧ (cn.indexOf CN_EVAL).isSome ∧
            ((cn.indexOf CN_EVAL).isSome → serBytes cn CN_EVAL V_EVAL x = ev.bytes cn ∧
              Returns (collectEval cn ev) fun cn' => cn' = cn) := by
        refine consumes_readSer hcn hbe fun pos fin => ?_
        refine (consumes_int32 hbe).bind fun v x1 hx1 => (consumes_int32 hbe).bind fun typeField x2 hx2 => ?_
        subst hx1
        subst hx2
        cases hop : FfxOpcode.ofInt32? v with
        | none => exact consumes_fail _
        | some opcode =>
            have hv : opcode.toInt32 = v := by simpa using List.find?_some hop
            subst hv
            refine Consumes.onHeap fun _ _ => ?_
            cases opcode with
            | constant =>
                refine (consumes_int32 hbe).map fun value x3 hx3 hknown => ?_
                subst hx3
                exact ⟨rfl, FfxClassNames.returns_add_known hknown⟩
            | arg opcode =>
                refine (consumes_int32 hbe).bind fun unk00 x3 hx3 => (consumes_int32 hbe).map fun argIndex x4 hx4 hknown => ?_
                subst hx3
                subst hx4
                exact ⟨rfl, FfxClassNames.returns_add_known hknown⟩
            | leaf opcode =>
                refine Consumes.pure fun hknown => ⟨?_, FfxClassNames.returns_add_known hknown⟩
                rw [List.append_nil, FfxEvaluatable.bytes]
            | binary opcode =>
                refine ih.bind fun right x3 hx3 => ih.map fun left x4 hx4 hknown => ?_
                obtain ⟨rfl, hright⟩ := hx3
                obtain ⟨rfl, hleft⟩ := hx4
                exact ⟨rfl, returns_same_bind (FfxClassNames.returns_add_known hknown) (returns_same_bind hright hleft)⟩
            | not =>
                refine ih.map fun operand x3 hx3 hknown => ?_
                obtain ⟨rfl, hoperand⟩ := hx3
                exact ⟨rfl, returns_same_bind (FfxClassNames.returns_add_known hknown) hoperand⟩
      refine hser.mono fun ev z hz => ?_
      obtain ⟨x, rfl, hknown, hrest⟩ := hz
      exact hrest hknown

theorem consumes_readParam :
    Consumes M pos (readParam cn) fun p x => x = p.bytes cn ∧ (cn.indexOf CN_PARAM).isSome := by
  have hser : Consumes M pos (readParam cn) fun p z => ∃ x, z = serBytes cn CN_PARAM V_PARAM x ∧
      (cn.indexOf CN_PARAM).isSome ∧ x = i32Bytes p.type.value ++ p.payloadAfterType := by
    refine consumes_readSer hcn hbe fun pos fin => ?_
    refine (consumes_int32 hbe).bind fun v x1 hx1 => ?_
    subst hx1
    cases htype : FfxParamType.ofInt32? v with
    | none => exact consumes_fail _
    | some type =>
        have hv : type.value = v := by
          unfold FfxParamType.ofInt32? at htype
          split at htype
          · rw [← Option.some.inj htype]
          · cases htype
        subst hv
        refine Consumes.position (Consumes.check fun _ => Consumes.onHeap fun _ _ => ?_)
        have hpayload : ∀ (p : Nat) (c : Bool) (n : Nat), Consumes M p
            (given c [] (onHeap Heap.alloc >>= fun _ => readBytes n)) fun v x => x = v := by
          intro p c n
          cases c with
          | false => exact Consumes.pure rfl
          | true => exact Consumes.onHeap fun _ _ => (consumes_bytes n).mono fun _ _ h => h.1
        refine (hpayload _ _ _).map fun payload x hx => ?_
        subst hx
        rfl
  refine hser.mono fun p z hz => ?_
  obtain ⟨x, rfl, hknown, rfl⟩ := hz
  exact ⟨rfl, hknown⟩

theorem consumes_readParamList :
    Consumes M pos (readParamList cn) fun pl x =>
      x = pl.bytes cn ∧ Returns (collectParamList cn pl) fun cn' => cn' = cn := by
  have hser : Consumes M pos (readParamList cn) fun pl z => ∃ x, z = serBytes cn CN_PARAM_LIST V_PARAM_LIST x ∧
      (cn.indexOf CN_PARAM_LIST).isSome ∧ serBytes cn CN_PARAM_LIST V_PARAM_LIST x = pl.bytes cn ∧
        ∀ p ∈ pl.params, (cn.indexOf CN_PARAM).isSome := by
    refine consumes_readSer hcn hbe fun pos fin => Consumes.onHeap fun _ _ => ?_
    refine (consumes_size hbe).bind fun count x1 hx1 => (consumes_int32 hbe).bind fun unk04 x2 hx2 => ?_
    refine Consumes.check fun hcount => ?_
    refine (consumes_readGrowing (fun pos => consumes_readParam hcn hbe) _ _ _).map fun params x3 hx3 => ?_
    obtain ⟨rfl, hlen, hparams⟩ := hx3
    subst hx2
    rw [hx1 hcount, ← hlen]
    exact ⟨rfl, hparams⟩
  refine hser.mono fun pl z hz => ?_
  obtain ⟨x, rfl, hknown, hbytes, hparams⟩ := hz
  refine ⟨hbytes, returns_same_bind (FfxClassNames.returns_add_known hknown) (Returns.ite (fun hpos => ?_) fun _ =>
    Returns.pure rfl)⟩
  obtain ⟨p, hp⟩ := List.exists_mem_of_length_pos hpos
  exact FfxClassNames.returns_add_known (hparams p hp)

theorem consumes_readAction :
    Consumes M pos (readAction cn) fun a x =>
      x = a.bytes cn ∧ Returns (collectAction cn a) fun cn' => cn' = cn := by
  have hser : Consumes M pos (readAction cn) fun a z => ∃ x, z = serBytes cn CN_ACTION V_ACTION x ∧
      (cn.indexOf CN_ACTION).isSome ∧ serBytes cn CN_ACTION V_ACTION x = a.bytes cn ∧
        Returns (collectParamList cn a.paramList) fun cn' => cn' = cn := by
    refine consumes_readSer hcn hbe fun pos fin => Consumes.onHeap fun _ _ => ?_
    refine (consumes_int32 hbe).bind fun id x1 hx1 => (consumes_readParamList hcn hbe).map fun paramList x2 hx2 => ?_
    subst hx1
    obtain ⟨rfl, hlist⟩ := hx2
    exact ⟨rfl, hlist⟩
  refine hser.mono fun a z hz => ?_
  obtain ⟨x, rfl, hknown, hbytes, hlist⟩ := hz
  exact ⟨hbytes, returns_same_bind (FfxClassNames.returns_add_known hknown) hlist⟩

theorem consumes_readTrigger :
    Consumes M pos (readTrigger cn) fun t x =>
      x = t.bytes cn ∧ Returns (collectTrigger cn t) fun cn' => cn' = cn := by
  have hser : Consumes M pos (readTrigger cn) fun t z => ∃ x, z = serBytes cn CN_TRIGGER V_TRIGGER x ∧
      (cn.indexOf CN_TRIGGER).isSome ∧ serBytes cn CN_TRIGGER V_TRIGGER x = t.bytes cn ∧
        ∃ ev, t.evaluator = some ev ∧ Returns (collectEval cn ev) fun cn' => cn' = cn := by
    refine consumes_readSer hcn hbe fun pos fin => Consumes.onHeap fun _ _ => ?_
    refine (consumes_int32 hbe).bind fun stateIndex x1 hx1 => Consumes.state fun r => ?_
    refine (consumes_readEvaluatable hcn hbe _).map fun ev x2 hx2 => ?_
    subst hx1
    obtain ⟨rfl, hev⟩ := hx2
    exact ⟨rfl, ev, rfl, hev⟩
  refine hser.mono fun t z hz => ?_
  obtain ⟨x, rfl, hknown, hbytes, ev, hsome, hev⟩ := hz
  refine ⟨hbytes, returns_same_bind (FfxClassNames.returns_add_known hknown) ?_⟩
  rw [hsome]
  exact hev

theorem consumes_readState :
    Consumes M pos (readState cn) fun s x =>
      x = s.bytes cn ∧ Returns (collectState cn s) fun cn' => cn' = cn := by
  have hser : Consumes M pos (readState cn) fun s z => ∃ x, z = serBytes cn CN_STATE V_STATE x ∧
      (cn.indexOf CN_STATE).isSome ∧ serBytes cn CN_STATE V_STATE x = s.bytes cn ∧
        (∀ a ∈ s.actions, Returns (collectAction cn a) fun cn' => cn' = cn) ∧
        ∀ t ∈ s.triggers, Returns (collectTrigger cn t) fun cn' => cn' = cn := by
    refine consumes_readSer hcn hbe fun pos fin => Consumes.onHeap fun _ _ => ?_
    refine (consumes_size hbe).bind fun actionCount x1 hx1 => (consumes_size hbe).bind fun triggerCount x2 hx2 => ?_
    refine Consumes.check fun hcount => ?_
    refine (consumes_readGrowing (fun pos => consumes_readAction hcn hbe) _ _ _).bind fun actions x3 hx3 => ?_
    refine (consumes_readGrowing (fun pos => consumes_readTrigger hcn hbe) _ _ _).map fun triggers x4 hx4 => ?_
    obtain ⟨rfl, hlen, hactions⟩ := hx3
    obtain ⟨rfl, hlen', htriggers⟩ := hx4
    rw [hx1 hcount.1, hx2 hcount.2, ← hlen, ← hlen']
    exact ⟨rfl, hactions, htriggers⟩
  refine hser.mono fun s z hz => ?_
  obtain ⟨x, rfl, hknown, hbytes, hactions, htriggers⟩ := hz
  exact ⟨hbytes, returns_same_bind (FfxClassNames.returns_add_known hknown)
    (returns_same_bind (returns_collectEach_same hactions) (returns_collectEach_same htriggers))⟩

theorem consumes_readStateMap :
    Consumes M pos (readStateMap cn) fun sm x => x = sm.bytes cn ∧ (cn.indexOf CN_STATE_MAP).isSome ∧
      ∀ s ∈ sm.states, Returns (collectState cn s) fun cn' => cn' = cn := by
  have hser : Consumes M pos (readStateMap cn) fun sm z => ∃ x, z = serBytes cn CN_STATE_MAP V_STATE_MAP x ∧
      (cn.indexOf CN_STATE_MAP).isSome ∧ serBytes cn CN_STATE_MAP V_STATE_MAP x = sm.bytes cn ∧
        ∀ s ∈ sm.states, Returns (collectState cn s) fun cn' => cn' = cn := by
    refine consumes_readSer hcn hbe fun pos fin => Consumes.onHeap fun _ _ => ?_
    refine (consumes_size hbe).bind fun count x1 hx1 => Consumes.check fun hcount => ?_
    refine (consumes_readGrowing (fun pos => consumes_readState hcn hbe) _ _ _).map fun states x2 hx2 => ?_
    obtain ⟨rfl, hlen, hstates⟩ := hx2
    rw [hx1 hcount, ← hlen]
    exact ⟨rfl, hstates⟩
  refine hser.mono fun sm z hz => ?_
  obtain ⟨x, rfl, hknown, hbytes, hstates⟩ := hz
  exact ⟨hbytes, hknown, hstates⟩

include hflex

theorem consumes_readResourceSet :
    Consumes M pos (readResourceSet cn) fun rs x => x = rs.bytes cn ∧ (cn.indexOf CN_RESOURCE_SET).isSome ∧
      (cn.indexOf CN_DLVECTOR).isSome := by
  have hvector : ∀ pos, Consumes M pos (readDlvector cn) fun items x =>
      x = dlvectorBytes cn items ∧ (cn.indexOf CN_DLVECTOR).isSome :=
    fun pos => consumes_readDlvector hbe hflex
  have hser : Consumes M pos (readResourceSet cn) fun rs z => ∃ x, z = serBytes cn CN_RESOURCE_SET V_RESOURCE_SET x ∧
      (cn.indexOf CN_RESOURCE_SET).isSome ∧ serBytes cn CN_RESOURCE_SET V_RESOURCE_SET x = rs.bytes cn ∧
        (cn.indexOf CN_DLVECTOR).isSome := by
    refine consumes_readSer hcn hbe fun pos fin => Consumes.onHeap fun _ _ => ?_
    refine (hvector _).bind fun v0 x0 hx0 => (hvector _).bind fun v1 x1 hx1 => (hvector _).bind fun v2 x2 hx2 =>
      (hvector _).bind fun v3 x3 hx3 => (hvector _).map fun v4 x4 hx4 => ?_
    rw [hx0.1, hx1.1, hx2.1, hx3.1, hx4.1]
    refine ⟨?_, hx0.2⟩
    simp [FfxResourceSet.bytes]
  refine hser.mono fun rs z hz => ?_
  obtain ⟨x, rfl, hknown, hbytes, hvectors⟩ := hz
  exact ⟨hbytes, hknown, hvectors⟩

/-- The bytes of an effect that was read, all of whose classes are known. -/
theorem consumes_readEffect :
    Consumes M pos (readEffect cn) fun e x => x = e.bytes cn ∧ ∀ ffx : Ffxdlse, ffx.effect = e →
      Returns (FfxClassNames.init.copy ffx.classNames.names) (fun cn' => cn' = cn) →
        Returns (collectClasses ffx) fun cn' => cn' = cn := by
  have hser : Consumes M pos (readEffect cn) fun e z => ∃ x, z = serBytes cn CN_EFFECT V_EFFECT x ∧
      (cn.indexOf CN_EFFECT).isSome ∧ serBytes cn CN_EFFECT V_EFFECT x = e.bytes cn ∧
        (Returns (collectParamList cn e.paramList1) fun cn' => cn' = cn) ∧
        (Returns (collectParamList cn e.paramList2) fun cn' => cn' = cn) ∧
        ((cn.indexOf CN_STATE_MAP).isSome ∧ ∀ s ∈ e.stateMap.states, Returns (collectState cn s) fun cn' => cn' = cn) ∧
        (cn.indexOf CN_RESOURCE_SET).isSome ∧ (cn.indexOf CN_DLVECTOR).isSome := by
    have hconstant : ∀ pos v, Consumes M pos (assertI32 [v]) fun _ x => x = i32Bytes v :=
      fun pos v => consumes_constant hbe hflex v
    have hword : ∀ pos v, Consumes M pos (assertI16 [v]) fun _ x => x = wordBytes false 2 v.toUInt16.toNat := by
      intro pos v
      refine (consumes_assert hflex consumes_i16).mono fun u x hx => ?_
      rw [hx.1, List.mem_singleton.1 hx.2, hbe]
    refine consumes_readSer hcn hbe fun pos fin => Consumes.onHeap fun _ _ => ?_
    refine (hconstant _ 0).bind fun _ x0 hx0 => (consumes_int32 hbe).bind fun id x1 hx1 => (hconstant _ 0).bind
      fun _ x2 hx2 => (hconstant _ 0).bind fun _ x3 hx3 => (hconstant _ 2).bind fun _ x4 hx4 => (hword _ 0).bind
      fun _ x5 hx5 => (hword _ 2).bind fun _ x6 hx6 => (hconstant _ 0).bind fun _ x7 hx7 => ?_
    subst hx0 hx1 hx2 hx3 hx4 hx5 hx6 hx7
    refine (consumes_readParamList hcn hbe).bind fun list1 y1 hy1 => (consumes_readParamList hcn hbe).bind
      fun list2 y2 hy2 => (consumes_readStateMap hcn hbe).bind fun sm y3 hy3 =>
      (consumes_readResourceSet hcn hbe hflex).bind fun rs y4 hy4 => (consumes_byte hflex 0).map fun _ x8 hx8 => ?_
    subst hx8
    obtain ⟨rfl, hlist1⟩ := hy1
    obtain ⟨rfl, hlist2⟩ := hy2
    obtain ⟨rfl, hmap⟩ := hy3
    obtain ⟨rfl, hset⟩ := hy4
    exact ⟨rfl, hlist1, hlist2, hmap, hset⟩
  refine hser.mono fun e z hz => ?_
  obtain ⟨x, rfl, heffect, hbytes, hlist1, hlist2, ⟨hmap, hstates⟩, hset, hvector⟩ := hz
  refine ⟨hbytes, ?_⟩
  rintro ffx rfl hcopy
  refine returns_same_bind hcopy (returns_same_bind (FfxClassNames.returns_add_known heffect) ?_)
  refine returns_same_bind (FfxClassNames.returns_add_known hvector) (returns_same_bind hlist1 ?_)
  refine returns_same_bind hlist2 (returns_same_bind (FfxClassNames.returns_add_known hmap) ?_)
  refine returns_same_bind (returns_collectEach_same hstates) ?_
  exact returns_same_bind (FfxClassNames.returns_add_known hset) (FfxClassNames.returns_add_known hvector)

end

/-! ## The table in a file -/

/-- The data has a table of these class names where a file has it. -/
structure FfxClassTable (data : List UInt8) (names : List (List UInt8)) : Prop where
  count : names.length ≤ INT16_MAX
  lengths : ∀ name ∈ names, name.length ≤ INT32_MAX
  held : Holds data 21 (wordBytes false 2 names.length ++ names.flatMap classNameBytes)

/-- A table can be told from its place and the number of its names. -/
theorem classNames_unique {data : List UInt8} {names names' : List (List UInt8)} {pos : Nat}
    (hcount : names.length = names'.length) (hlen : ∀ name ∈ names, name.length ≤ INT32_MAX)
    (hlen' : ∀ name ∈ names', name.length ≤ INT32_MAX) (h : Holds data pos (names.flatMap classNameBytes))
    (h' : Holds data pos (names'.flatMap classNameBytes)) : names = names' := by
  induction names generalizing names' pos with
  | nil =>
      cases names' with
      | nil => rfl
      | cons name' names' => cases hcount
  | cons name names ih =>
      cases names' with
      | nil => cases hcount
      | cons name' names' =>
          rw [List.flatMap_cons, classNameBytes, List.append_assoc] at h h'
          obtain ⟨hsize, hrest⟩ := holds_append.1 h
          obtain ⟨hsize', hrest'⟩ := holds_append.1 h'
          have hmax : INT32_MAX = 2 ^ 31 - 1 := rfl
          have hone := hlen name List.mem_cons_self
          have hone' := hlen' name' List.mem_cons_self
          have hwords := Holds.unique hsize hsize' (by simp only [sizeBytes, length_wordBytes])
          have hlength : name.length = name'.length := by
            have hmod := wordBytes_inj.1 hwords
            rwa [Nat.mod_eq_of_lt (by omega), Nat.mod_eq_of_lt (by omega)] at hmod
          obtain ⟨hname, htail⟩ := holds_append.1 hrest
          obtain ⟨hname', htail'⟩ := holds_append.1 hrest'
          have hsame : name = name' := by
            simp only [sizeBytes, length_wordBytes] at hname hname'
            exact Holds.unique hname hname' hlength
          subst hsame
          simp only [sizeBytes, length_wordBytes] at htail htail'
          rw [ih (Nat.succ.inj hcount) (fun n hn => hlen n (List.mem_cons_of_mem _ hn))
            (fun n hn => hlen' n (List.mem_cons_of_mem _ hn)) htail htail']

theorem consumes_readClassNames (hbe : M.bigEndian = false) (n : Nat) (cn : FfxClassNames) :
    Consumes M pos (readClassNames n cn) fun cn' x => ∃ names : List (List UInt8), names.length = n ∧
      x = names.flatMap classNameBytes ∧ (∀ name ∈ names, name.length ≤ INT32_MAX) ∧
        cn' = (names.map fun name => name.map fun b => if b < 0x80 then b else 0x3F).foldl FfxClassNames.appended cn := by
  induction n generalizing pos cn with
  | zero => exact Consumes.pure ⟨[], rfl, rfl, nofun, rfl⟩
  | succ n ih =>
      refine (consumes_size hbe).bind fun len x1 hx1 => Consumes.check fun hlen => ?_
      refine (consumes_asciiN _).bind fun name x2 hx2 => Consumes.onHeap fun cn1 hcn1 => ?_
      obtain ⟨hsize, rfl⟩ := hx2
      obtain ⟨h, h', happend⟩ := hcn1
      have hcn1 := cn.returns_appendOwned _ h cn1 h' happend
      refine (ih cn1).mono fun cn' y hy => ?_
      obtain ⟨names, rfl, rfl, hlens, rfl⟩ := hy
      have hmax : INT32_MAX = 2 ^ 31 - 1 := rfl
      have hlt := Int32.toInt_lt len
      refine ⟨x2 :: names, rfl, ?_, ?_, ?_⟩
      · rw [List.flatMap_cons, classNameBytes, hx1 hlen, hsize, List.append_assoc]
      · simp only [List.mem_cons, forall_eq_or_imp]
        exact ⟨by omega, hlens⟩
      · rw [List.map_cons, List.foldl_cons, hcn1]

/-- The bytes up to the effect, of a file that starts like one. -/
theorem consumes_ffxdlseReadTable (hbe : M.bigEndian = false) (hflex : M.isFlexible = false) :
    Consumes M pos ffxdlseReadTable fun cn x => ∃ names : List (List UInt8), names.length ≤ INT16_MAX ∧
      (∀ name ∈ names, name.length ≤ INT32_MAX) ∧
      x = cstr "DLsE" ++ ([1] ++ ([3] ++ ([0] ++ ([0] ++ (i32Bytes 0 ++ (i32Bytes 0 ++ ([0] ++ (i32Bytes 1 ++
        (wordBytes false 2 names.length ++ names.flatMap classNameBytes))))))))) ∧
      cn = .ofNames (names.map fun name => name.map fun b => if b < 0x80 then b else 0x3F) := by
  refine Consumes.onHeap fun ffx hffx => ?_
  obtain ⟨h, h', hcreate⟩ := hffx
  have hinit : ffx.classNames = .init := by
    have hsome := ffxdlseCreate_steady.granted_of_ok hcreate
    cases hsome
    rfl
  refine (consumes_byte hflex _).bind fun _ x0 hx0 => (consumes_byte hflex _).bind fun _ x1 hx1 =>
    (consumes_byte hflex _).bind fun _ x2 hx2 => (consumes_byte hflex _).bind fun _ x3 hx3 =>
    (consumes_byte hflex _).bind fun _ x4 hx4 => (consumes_byte hflex _).bind fun _ x5 hx5 =>
    (consumes_byte hflex _).bind fun _ x6 hx6 => (consumes_byte hflex _).bind fun _ x7 hx7 =>
    (consumes_constant hbe hflex _).bind fun _ x8 hx8 => (consumes_constant hbe hflex _).bind fun _ x9 hx9 =>
    (consumes_byte hflex _).bind fun _ x10 hx10 => (consumes_constant hbe hflex _).bind fun _ x11 hx11 =>
    consumes_i16.bind fun count x12 hx12 => Consumes.check fun hcount => ?_
  subst hx0 hx1 hx2 hx3 hx4 hx5 hx6 hx7 hx8 hx9 hx10 hx11
  refine (consumes_readClassNames hbe _ _).mono fun cn y hy => ?_
  obtain ⟨names, hlen, rfl, hlens, rfl⟩ := hy
  have hlt := Int16.toInt_lt count
  have hmax : INT16_MAX = 2 ^ 15 - 1 := rfl
  have hword : x12 = wordBytes false 2 names.length := by
    rw [hx12, hbe, int16_eq_ofNat hcount, wordBytes_i16, hlen]
  refine ⟨names, by omega, hlens, ?_, ?_⟩
  · rw [hword]
    rfl
  · rw [hinit]
    rfl

/-- Different names without NULs are copied as they are. -/
theorem FfxClassNames.returns_copy_of_nodup (names : List (List UInt8)) (cn : FfxClassNames)
    (hplain : ∀ name ∈ cn.names ++ names, Win32.isPlain name = true) (hnodup : (cn.names ++ names).Nodup) :
    Returns (cn.copy names) fun cn' => cn' = names.foldl appended cn := by
  induction names generalizing cn with
  | nil => exact Returns.pure rfl
  | cons name names ih =>
      have hname : Win32.isPlain name = true := hplain name (by simp)
      have hnew : cn.indexOf name = none := by
        refine List.findIdx?_eq_none_iff.2 fun n hn => ?_
        have hne : n ≠ name := by
          rintro rfl
          exact (List.nodup_append.1 hnodup).2.2 n hn n List.mem_cons_self rfl
        rw [cText_of_plain (hplain n (List.mem_append_left _ hn)), cText_of_plain hname]
        simpa using hne
      have hadd : Returns (cn.add name) fun cn' => cn' = cn.appended name := by
        unfold add
        rw [hnew, if_neg (by decide), cText_of_plain hname]
        exact Returns.after fun _ => returns_appendOwned cn name
      refine hadd.bind fun cn' hcn' => ?_
      subst hcn'
      have hsplit : (cn.appended name).names ++ names = cn.names ++ name :: names := by simp [appended]
      exact ih (cn.appended name) (by rwa [hsplit]) (by rwa [hsplit])

end Consumed

/-! ## The whole run -/

section

variable {os : Win32} {ffx : Ffxdlse} {heap : Heap} {out : List UInt8}

theorem ffxdlseWriteToMemory_eq_ok (hwrite : (ffxdlseWriteToMemory os ffx heap).1 = .ok out) :
    ∃ (cn : FfxClassNames) (heap' : Heap), (collectClasses ffx heap).1 = .ok cn ∧
      (BinaryWriter.writeToMemory false (ffxdlseWrite cn os ffx.effect) heap').1 = .ok out := by
  obtain ⟨cn, heap', heap'', hcollect, hrun⟩ := bind_fst_eq_ok hwrite
  exact ⟨cn, heap', congrArg Prod.fst hcollect, congrArg Prod.fst hrun⟩

/-- What is written is the image of the effect with the table of its classes, which is read back. -/
theorem ffxdlseBytes_of_write {cn : FfxClassNames} (hos : os.AsciiCompatible) (hcn : cn.Proper)
    (hwrite : (BinaryWriter.writeToMemory false (ffxdlseWrite cn os ffx.effect) heap).1 = .ok out) :
    out = ffxdlseBytes cn ffx.effect ∧
      BinaryReader.ReadsBack false ffxdlseRead (ffxdlseBytes cn ffx.effect) ⟨cn, ffx.effect⟩ := by
  obtain ⟨st, ⟨hst, hback⟩, hheld, hlen, -⟩ := (sends_ffxdlseWrite hos hcn ffx.effect 0).toMemory nofun hwrite
  refine ⟨?_, hback⟩
  have hslice := hheld.take_drop
  rw [hst] at hlen
  have hall : (ffxdlseBytes cn ffx.effect).length = out.length := by simpa using hlen.symm
  rw [hall, List.drop_zero, List.take_length] at hslice
  exact hslice

/-- A written effect is read, by a reader whose allocator grants everything. -/
theorem ffxdlseReadFromMemory_ok (hos : os.AsciiCompatible)
    (hnames : ∀ name ∈ ffx.classNames.names, ∀ b ∈ name, b < 0x80)
    (hwrite : (ffxdlseWriteToMemory os ffx heap).1 = .ok out) (flexible : Bool) {heap' : Heap} (hcalm : heap'.Calm) :
    ∃ ffx', (ffxdlseReadFromMemory flexible out heap').1 = .ok ffx' ∧ ffx'.effect = ffx.effect := by
  obtain ⟨cn, heap1, hcollect, hwrite⟩ := ffxdlseWriteToMemory_eq_ok hwrite
  have hcn : cn.Proper := (returns_collectClasses ffx hnames).of_fst hcollect
  obtain ⟨rfl, hback⟩ := ffxdlseBytes_of_write hos hcn hwrite
  have hread := hback ⟨ffxdlseBytes cn ffx.effect, 0, false, false, [], flexible⟩ rfl (holds_self _)
  have hmagic : ffxdlseIs (ffxdlseBytes cn ffx.effect) = true := by
    simp [ffxdlseIs, ffxdlseBytes, cstr]
  have hprefix : BinaryReader.Reads (ffxdlseRead >>= fun ffx => peek BinaryReader.position >>= fun pos => pure (ffx, pos))
      ⟨ffxdlseBytes cn ffx.effect, 0, false, false, [], flexible⟩
      ((⟨cn, ffx.effect⟩ : Ffxdlse), 0 + (ffxdlseBytes cn ffx.effect).length) _ :=
    hread.bind (BinaryReader.Reads.position (BinaryReader.Reads.pure _ _))
  obtain ⟨heap2, hrun, -⟩ := BinaryReader.onMemory_ok hprefix hcalm
  refine ⟨⟨cn, ffx.effect⟩, ?_, rfl⟩
  unfold ffxdlseReadFromMemory ffxdlseReadPrefix
  rw [bind_assoc, check_bind_pos hmagic, bind_ok hrun]
  rfl

end

/-- The effects that the functions of the source lead to: from a new one or from one that was read, by calls. -/
inductive FfxReachable : Ffxdlse → Prop
  | created {heap : Heap} {ffx : Ffxdlse} (h : (ffxdlseCreate heap).1 = .ok ffx) : FfxReachable ffx
  | read {flexible : Bool} {data : List UInt8} {heap : Heap} {ffx : Ffxdlse}
      (h : (ffxdlseReadFromMemory flexible data heap).1 = .ok ffx) : FfxReachable ffx
  | call {ffx : Ffxdlse} (h : FfxReachable ffx) (c : FfxCall) :
      FfxReachable { ffx with effect := ffx.effect.after c }

/-! ## Class names of an effect in memory -/

/-- The class names are ASCII, as what the reader decodes is. -/
def FfxClassNames.Ascii (cn : FfxClassNames) : Prop := ∀ name ∈ cn.names, ∀ b ∈ name, b < 0x80

theorem returns_readAsciiN (n : Nat) : Returns (BinaryReader.readAsciiN n) fun t => ∀ b ∈ t, b < 0x80 := by
  have hconv : ∀ x : List UInt8, Returns (asciiToUtf8 x) fun t => ∀ b ∈ t, b < 0x80 := by
    intro x
    refine Returns.ite (fun _ => Returns.after fun _ => Returns.pure nofun) fun _ =>
      Returns.check fun _ => Returns.after fun _ => Returns.pure ?_
    intro b hb
    obtain ⟨a, -, rfl⟩ := List.mem_map.1 hb
    split
    · assumption
    · decide
  refine Returns.ite (fun _ => Returns.zoom (hconv [])) fun _ => ?_
  exact Returns.after fun _ => Returns.after fun bs => Returns.zoom (hconv bs)

theorem returns_readClassNames (n : Nat) (cn : FfxClassNames) (hcn : cn.Ascii) :
    Returns (readClassNames n cn) FfxClassNames.Ascii := by
  induction n generalizing cn with
  | zero => exact Returns.pure hcn
  | succ n ih =>
      refine Returns.after fun len => Returns.check fun _ => (returns_readAsciiN _).bind fun name hname => ?_
      refine (Returns.zoom (cn.returns_appendOwned name)).bind fun cn' hcn' => ih cn' ?_
      subst hcn'
      intro name' hname'
      rcases List.mem_append.1 hname' with h | h
      · exact hcn name' h
      · rw [List.mem_singleton.1 h]
        exact hname

theorem returns_ffxdlseCreate : Returns ffxdlseCreate fun ffx => ffx.classNames.Ascii := by
  intro h ffx h' hcreate
  cases ffxdlseCreate_steady.granted_of_ok hcreate
  exact nofun

theorem returns_ffxdlseReadTable : Returns ffxdlseReadTable FfxClassNames.Ascii := by
  refine (Returns.zoom returns_ffxdlseCreate).bind fun ffx hffx => ?_
  iterate 13 refine Returns.after fun _ => ?_
  exact Returns.check fun _ => returns_readClassNames _ _ hffx

theorem ffxdlseReadPrefix_eq_ok {flexible : Bool} {data : List UInt8} {heap : Heap} {ffx : Ffxdlse} {n : Nat}
    (h : (ffxdlseReadPrefix flexible data heap).1 = .ok (ffx, n)) :
    ∃ (heap' : Heap) (r' : BinaryReader),
      ffxdlseRead (BinaryReader.create data false flexible heap') = (.ok ffx, r') ∧ r'.position = n := by
  unfold ffxdlseReadPrefix at h
  by_cases hmagic : ffxdlseIs data = true
  · rw [check_bind_pos hmagic] at h
    obtain ⟨heap', r', hrun, -⟩ := BinaryReader.onMemory_eq_ok h
    obtain ⟨ffx', r1, hread, hrest⟩ := bind_eq_ok.1 hrun
    rw [peek_bind_run] at hrest
    cases hrest
    exact ⟨heap', r', hread, rfl⟩
  · rw [check_bind_neg hmagic] at h
    cases h

theorem ffxdlseReadFromMemory_eq_ok {flexible : Bool} {data : List UInt8} {heap : Heap} {ffx : Ffxdlse}
    (h : (ffxdlseReadFromMemory flexible data heap).1 = .ok ffx) :
    ∃ (heap' : Heap) (r' : BinaryReader),
      ffxdlseRead (BinaryReader.create data false flexible heap') = (.ok ffx, r') := by
  obtain ⟨⟨ffx', n⟩, h1, h2, hprefix, hrest⟩ := bind_fst_eq_ok h
  cases hrest
  obtain ⟨heap', r', hread, -⟩ := ffxdlseReadPrefix_eq_ok (congrArg Prod.fst hprefix)
  exact ⟨heap', r', hread⟩

theorem FfxReachable.ascii {ffx : Ffxdlse} (h : FfxReachable ffx) : ffx.classNames.Ascii := by
  induction h with
  | @created heap ffx h => exact returns_ffxdlseCreate.of_fst h
  | @read flexible data heap ffx h =>
      obtain ⟨heap', r', hread⟩ := ffxdlseReadFromMemory_eq_ok h
      obtain ⟨cn, r1, htable, hrest⟩ := bind_eq_ok.1 hread
      obtain ⟨effect, r2, -, hpure⟩ := bind_eq_ok.1 hrest
      cases hpure
      exact returns_ffxdlseReadTable _ _ _ htable
  | call h c ih => exact ih

theorem FfxReachable.calls {ffx : Ffxdlse} (h : FfxReachable ffx) (cs : List FfxCall) :
    FfxReachable { ffx with effect := cs.foldl FfxEffect.after ffx.effect } := by
  induction cs generalizing ffx with
  | nil => exact h
  | cons c cs ih => exact ih (h.call c)

/-! ## The file that was read -/

/-- What a file has before the number of its class names. -/
def ffxdlsePreamble : List UInt8 :=
  cstr "DLsE" ++ ([1] ++ ([3] ++ ([0] ++ ([0] ++ (i32Bytes 0 ++ (i32Bytes 0 ++ ([0] ++ i32Bytes 1)))))))

/-- The table that a strict reader has read is the one in the file. -/
theorem ofNames_of_read {data : List UInt8} {heap : Heap} {cn : FfxClassNames} {r : BinaryReader}
    {names : List (List UInt8)} (hrun : ffxdlseReadTable (BinaryReader.create data false false heap) = (.ok cn, r))
    (htable : FfxClassTable data names) (hplain : ∀ name ∈ names, Win32.isPlain name = true) :
    r.mode = ⟨false, false, false⟩ ∧ r.stream.mem = data ∧ cn = .ofNames names ∧
      ∃ x, Holds data 0 x ∧ r.position = x.length ∧
        x = ffxdlsePreamble ++ (wordBytes false 2 names.length ++ names.flatMap classNameBytes) := by
  have hconsumes := (consumes_ffxdlseReadTable rfl rfl :
    BinaryReader.Consumes ⟨false, false, false⟩ 0 ffxdlseReadTable _)
  obtain ⟨hmode, hmem, x, hx, hpos, names', hcount', hlens', hxeq, rfl⟩ :=
    hconsumes _ rfl rfl (Nat.zero_le _) _ _ hrun
  have hsplit : x = ffxdlsePreamble ++ (wordBytes false 2 names'.length ++ names'.flatMap classNameBytes) := hxeq
  have hheld : Holds data 21 (wordBytes false 2 names'.length ++ names'.flatMap classNameBytes) := by
    rw [hsplit] at hx
    exact (holds_append.1 hx).2
  obtain ⟨hword', hflat'⟩ := holds_append.1 hheld
  obtain ⟨hword, hflat⟩ := holds_append.1 htable.held
  have hmax : INT16_MAX = 2 ^ 15 - 1 := rfl
  have hcount := htable.count
  have hlength : names.length = names'.length := by
    have hmod := wordBytes_inj.1 (Holds.unique hword hword' (by simp only [length_wordBytes]))
    rwa [Nat.mod_eq_of_lt (by omega), Nat.mod_eq_of_lt (by omega)] at hmod
  simp only [length_wordBytes] at hflat hflat'
  have hnames : names = names' := classNames_unique hlength htable.lengths hlens' hflat hflat'
  subst hnames
  have hdecoded : (names.map fun name => name.map fun b => if b < 0x80 then b else 0x3F) = names := by
    refine (List.map_congr_left fun name hname => ?_).trans (List.map_id names)
    refine (List.map_congr_left fun b hb => ?_).trans (List.map_id name)
    exact if_pos ((Win32.isPlain_iff.1 (hplain name hname)).1 b hb)
  rw [hdecoded]
  rw [Nat.zero_add] at hpos
  exact ⟨hmode, hmem, rfl, x, hx, hpos, hsplit⟩

/-- What is written of an effect that a strict reader read from a file with plain, different class names is the
    part of the file that the reader moved over. -/
theorem ffxdlseWriteToMemory_of_read {os : Win32} (hos : os.AsciiCompatible) {data out : List UInt8}
    {heap heap' : Heap} {ffx : Ffxdlse} {n : Nat} {names : List (List UInt8)}
    (hread : (ffxdlseReadPrefix false data heap).1 = .ok (ffx, n)) (htable : FfxClassTable data names)
    (hplain : ∀ name ∈ names, Win32.isPlain name = true) (hnodup : names.Nodup)
    (hwrite : (ffxdlseWriteToMemory os ffx heap').1 = .ok out) : out = data.take n := by
  obtain ⟨heap1, r', hrun, rfl⟩ := ffxdlseReadPrefix_eq_ok hread
  obtain ⟨cn, r1, hrun1, hrun2⟩ := bind_eq_ok.1 hrun
  obtain ⟨effect, r2, hrun2, hpure⟩ := bind_eq_ok.1 hrun2
  cases hpure
  obtain ⟨hmode, hmem, rfl, x, hx, hpos, hxeq⟩ := ofNames_of_read hrun1 htable hplain
  have hnames := FfxClassNames.names_ofNames names
  have hdistinct : ((FfxClassNames.ofNames names).names.map cText).Nodup := by
    rw [hnames, (List.map_congr_left fun name hname => cText_of_plain (hplain name hname)).trans (List.map_id names)]
    exact hnodup
  have heffect := (consumes_readEffect hdistinct rfl rfl :
    BinaryReader.Consumes ⟨false, false, false⟩ r1.position (readEffect (.ofNames names)) _)
  have hle : r1.position ≤ r1.stream.mem.length := by
    rw [hmem, hpos]
    simpa using hx.le
  obtain ⟨-, -, y, hy, hpos', hyeq, hcollect⟩ := heffect r1 hmode rfl hle _ _ hrun2
  -- the writer collects the classes that the file had, and no more
  have hcopy := FfxClassNames.returns_copy_of_nodup names .init (fun name hname => hplain name (by simpa [FfxClassNames.init] using hname))
    (by simpa [FfxClassNames.init] using hnodup)
  obtain ⟨cn, heap2, hcn, hwrite⟩ := ffxdlseWriteToMemory_eq_ok hwrite
  have hsame : cn = .ofNames names := by
    refine (hcollect ⟨.ofNames names, effect⟩ rfl ?_).of_fst hcn
    rw [hnames]
    exact hcopy
  subst hsame
  have hproper : (FfxClassNames.ofNames names).Proper := ⟨by rw [hnames], by rwa [hnames]⟩
  obtain ⟨rfl, -⟩ := ffxdlseBytes_of_write hos hproper hwrite
  have hbytes : ffxdlseBytes (.ofNames names) effect = x ++ y := by
    rw [hxeq, hyeq]
    simp [ffxdlseBytes, ffxdlsePreamble, hnames]
  have hall : Holds data 0 (x ++ y) := by
    refine holds_append.2 ⟨hx, ?_⟩
    rw [Nat.zero_add, ← hpos, ← hmem]
    exact hy
  rw [hbytes, hpos', hpos, ← List.length_append]
  simpa using hall.take_drop.symm

end SoulsFormats
