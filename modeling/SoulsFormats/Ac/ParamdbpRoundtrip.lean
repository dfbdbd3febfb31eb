import SoulsFormats.Ac.Paramdbp
import SoulsFormats.Core.Sequential
import SoulsFormats.Core.Tables
import SoulsFormats.Core.Texts

set_option autoImplicit false

/-! # Reading back a schema

A schema is always written, and its file is always the same bytes. The reader takes the byte order from the
first word: in a little-endian file that word, read the other way round, has to be negative or greater than
the file. -/

namespace SoulsFormats

open Bytes Fallible

/-! ## What is stored -/

/-- A text that the conversion to Shift-JIS, which counts in `int`, accepts and that comes back. -/
structure NameFits (os : Win32) (t : List UInt8) : Prop where
  fits : os.Fits .shiftJis t
  length_le : t.length ≤ INT32_MAX

/-- Both names of a field are given. -/
structure FieldNamed (os : Win32) (f : ParamdbpField) : Prop where
  name : ∃ t, f.displayName = some t ∧ NameFits os t
  fmt : ∃ t, f.displayFormat = some t ∧ NameFits os t

def dbpValueBytes (be : Bool) : (t : DbpType) → t.Value → List UInt8
  | .s8, v => [v.toUInt8]
  | .u8, v => [v]
  | .s16, v => wordBytes be 2 v.toUInt16.toNat
  | .u16, v => wordBytes be 2 v.toNat
  | .s32, v => wordBytes be 4 v.toUInt32.toNat
  | .u32, v => wordBytes be 4 v.toNat
  | .f32, v => wordBytes be 4 v.toNat

def paramdbpFieldBytes (be : Bool) (f : ParamdbpField) : List UInt8 :=
  wordBytes be 4 f.type.toInt32.toUInt32.toNat ++ (wordBytes be 4 (0 : Int32).toUInt32.toNat ++
    (wordBytes be 4 (0 : Int32).toUInt32.toNat ++ (dbpValueBytes be f.type f.defaultVal ++
      (dbpValueBytes be f.type f.increment ++ (dbpValueBytes be f.type f.minimum ++
        dbpValueBytes be f.type f.maximum)))))

def paramdbpNamesBytes (os : Win32) (be : Bool) (f : ParamdbpField) : List UInt8 :=
  storedText os false be (f.displayName.getD []) ++ storedText os false be (f.displayFormat.getD [])

/-- The image of a schema with these fields. -/
def paramdbpBytes (os : Win32) (be : Bool) (fields : List ParamdbpField) : List UInt8 :=
  wordBytes be 4 (Int32.ofNat fields.length).toUInt32.toNat ++ (wordBytes be 4 (0 : Int32).toUInt32.toNat ++
    (wordBytes be 4 (0 : Int32).toUInt32.toNat ++ (wordBytes be 4 (0 : Int32).toUInt32.toNat ++
      (fields.flatMap (fun _ => wordBytes be 4 (0 : Int32).toUInt32.toNat) ++
        (fields.flatMap (paramdbpFieldBytes be) ++ fields.flatMap (paramdbpNamesBytes os be))))))

/-- A little-endian count, read as a big-endian word. -/
def swappedCount (n : Nat) : Int := (UInt32.ofNat (wordNat true (wordBytes false 4 n))).toInt32.toInt

/-- The first word tells the reader the byte order of a file of `size` bytes. -/
def OrderShows (be : Bool) (n size : Nat) : Prop := be = true ∨ swappedCount n < 0 ∨ size < swappedCount n

theorem length_le_paramdbpBytes (os : Win32) (be : Bool) (fields : List ParamdbpField) :
    fields.length ≤ (paramdbpBytes os be fields).length := by
  simp only [paramdbpBytes, List.length_append, length_wordBytes,
    length_flatMap_const fields fun _ _ => length_wordBytes be 4 (0 : Int32).toUInt32.toNat]
  omega

section

variable {os : Win32} {be : Bool} {fields : List ParamdbpField}

/-- The names of a small image are short. -/
theorem FieldNamed.textFits {f : ParamdbpField} (hf : FieldNamed os f) (hmem : f ∈ fields)
    (hsize : (paramdbpBytes os be fields).length < 2 ^ 31) :
    TextFits os false (f.displayName.getD []) ∧ TextFits os false (f.displayFormat.getD []) := by
  obtain ⟨⟨name, hname, hnameFits⟩, fmt, hfmt, hfmtFits⟩ := hf
  have hmax : INT32_MAX = 2 ^ 31 - 1 := rfl
  have hle : (paramdbpNamesBytes os be f).length ≤ (fields.flatMap (paramdbpNamesBytes os be)).length :=
    (List.sublist_flatten_of_mem (List.mem_map_of_mem hmem)).length_le
  simp only [paramdbpBytes, List.length_append] at hsize
  simp only [paramdbpNamesBytes, storedText, Bool.false_eq_true, if_false, List.length_append, hname, hfmt,
    Option.getD_some] at hle ⊢
  refine ⟨⟨hnameFits.fits, ?_⟩, hfmtFits.fits, ?_⟩
  · simp only [Bool.false_eq_true, if_false]
    omega
  · simp only [Bool.false_eq_true, if_false]
    omega

end

/-! ## Building -/

section Building

theorem paramdbpCopyName_steady (name : Option (List UInt8)) : Steady (paramdbpCopyName name) := by
  cases name with
  | none => exact Steady.pure _
  | some t => exact (Steady.pure _).alloc_bind

theorem paramdbpGrow_steady (d : Paramdbp) : Steady (paramdbpGrow d) :=
  Steady.ite (Steady.pure _).alloc_bind (Steady.pure _)

theorem paramdbpAddField_steady (d : Paramdbp) (f : ParamdbpField) : Steady (paramdbpAddField d f) :=
  (paramdbpGrow_steady d).bind fun _ => (paramdbpCopyName_steady _).bind fun _ =>
    (paramdbpCopyName_steady _).bind fun _ => Steady.pure _

theorem paramdbpAddFields_steady (d : Paramdbp) (fields : List ParamdbpField) :
    Steady (paramdbpAddFields d fields) := by
  induction fields generalizing d with
  | nil => exact Steady.pure d
  | cons f fields ih => exact (paramdbpAddField_steady d f).bind fun d' => ih d'

variable {os : Win32}

theorem FieldNamed.copied {f : ParamdbpField} (hf : FieldNamed os f) :
    f.displayName.map cText = f.displayName ∧ f.displayFormat.map cText = f.displayFormat := by
  obtain ⟨⟨name, hname, hnameFits⟩, fmt, hfmt, hfmtFits⟩ := hf
  rw [hname, hfmt, Option.map_some, Option.map_some, cText_eq_self hnameFits.fits.noNul,
    cText_eq_self hfmtFits.fits.noNul]
  exact ⟨rfl, rfl⟩

theorem paramdbpCopyName_run (name : Option (List UInt8)) :
    paramdbpCopyName name [] = (.ok (name.map cText), []) := by
  cases name <;> rfl

/-- A field goes behind the others. -/
theorem paramdbpAddField_run (d : Paramdbp) {f : ParamdbpField} (hf : FieldNamed os f) :
    ∃ cap, paramdbpAddField d f [] = (.ok ⟨d.bigEndian, d.fields ++ [f], cap⟩, []) := by
  obtain ⟨hname, hfmt⟩ := hf.copied
  have hgrow : ∃ cap, paramdbpGrow d [] = (.ok { d with fieldCap := cap }, []) := by
    unfold paramdbpGrow
    split
    · exact ⟨_, rfl⟩
    · exact ⟨d.fieldCap, rfl⟩
  obtain ⟨cap, hgrow⟩ := hgrow
  refine ⟨cap, ?_⟩
  rw [paramdbpAddField, bind_ok hgrow, bind_ok (paramdbpCopyName_run _), bind_ok (paramdbpCopyName_run _), hname,
    hfmt]
  rfl

theorem paramdbpAddFields_granted (d : Paramdbp) (fields : List ParamdbpField)
    (hfields : ∀ f ∈ fields, FieldNamed os f) :
    ∃ cap, granted (paramdbpAddFields d fields) = some ⟨d.bigEndian, d.fields ++ fields, cap⟩ := by
  simp only [granted_eq_some]
  induction fields generalizing d with
  | nil =>
      rw [List.append_nil]
      exact ⟨d.fieldCap, [], rfl⟩
  | cons f fields ih =>
      obtain ⟨cap, hadd⟩ := paramdbpAddField_run d (hfields f List.mem_cons_self)
      obtain ⟨cap', h, hrest⟩ := ih ⟨d.bigEndian, d.fields ++ [f], cap⟩
        fun g hg => hfields g (List.mem_cons_of_mem f hg)
      refine ⟨cap', h, ?_⟩
      rw [paramdbpAddFields, bind_ok hadd, hrest, List.append_assoc, List.singleton_append]

/-- What the calls of the interface build has the given byte order and fields. -/
theorem paramdbpBuild_eq_ok {be : Bool} {fields : List ParamdbpField} (hfields : ∀ f ∈ fields, FieldNamed os f)
    {heap : Heap} {d : Paramdbp} (hbuild : (paramdbpBuild be fields heap).1 = .ok d) :
    d.bigEndian = be ∧ d.fields = fields := by
  have hrun : paramdbpBuild be fields heap = (.ok d, (paramdbpBuild be fields heap).2) := Prod.ext hbuild rfl
  obtain ⟨d0, h1, hcreate, hadd⟩ := bind_eq_ok.1 hrun
  obtain ⟨_, h2, -, hpure⟩ := bind_eq_ok.1 hcreate
  cases hpure
  obtain ⟨cap, hgranted⟩ := paramdbpAddFields_granted ⟨be, [], 0⟩ fields hfields
  rw [(paramdbpAddFields_steady _ _).granted_of_ok hadd] at hgranted
  cases hgranted
  exact ⟨rfl, rfl⟩

/-- Adding fields does not change the byte order. -/
theorem returns_paramdbpAddFields (d : Paramdbp) (fields : List ParamdbpField) :
    Returns (paramdbpAddFields d fields) fun d' => d'.bigEndian = d.bigEndian := by
  induction fields generalizing d with
  | nil => exact Returns.pure rfl
  | cons f fields ih =>
      have hgrow : Returns (paramdbpGrow d) fun d' => d'.bigEndian = d.bigEndian :=
        Returns.ite (fun _ => Returns.after fun _ => Returns.pure rfl) fun _ => Returns.pure rfl
      have hadd : Returns (paramdbpAddField d f) fun d' => d'.bigEndian = d.bigEndian :=
        hgrow.bind fun d' hd' => Returns.after fun _ => Returns.after fun _ => Returns.pure hd'
      exact hadd.bind fun d' hd' => (ih d').mono fun d2 hd2 => hd2.trans hd'

end Building

/-! ## Writing -/

section Writing

open BinaryWriter

variable {os : Win32} {be long : Bool}

theorem delivers_writeDbpValue (t : DbpType) (v : t.Value) :
    Delivers noSlots be long (writeDbpValue t v) (dbpValueBytes be t v) := by
  cases t with
  | s8 => exact delivers_scalar .i8 v
  | u8 => exact delivers_scalar .u8 v
  | s16 => exact delivers_scalar .i16 v
  | u16 => exact delivers_scalar .u16 v
  | s32 => exact delivers_scalar .i32 v
  | u32 => exact delivers_scalar .u32 v
  | f32 => exact delivers_scalar .f32 v

theorem delivers_paramdbpWriteField (f : ParamdbpField) :
    Delivers noSlots be long (paramdbpWriteField f) (paramdbpFieldBytes be f) :=
  (delivers_i32 _).then ((delivers_i32 _).then ((delivers_i32 _).then ((delivers_writeDbpValue _ _).then
    ((delivers_writeDbpValue _ _).then ((delivers_writeDbpValue _ _).then (delivers_writeDbpValue _ _))))))

theorem delivers_shiftJis {t : List UInt8} (ht : NameFits os t) :
    Delivers noSlots be long (writeShiftJis os (some t) true) (storedText os false be t) := by
  intro pos live hfit
  refine Makes.last (Makes.emits hfit (fun w hw => ?_) (Makes.done ⟨rfl, rfl⟩ fun _ hB => hB))
  have h := emitsAt_writeStr hw.atEnd.inv.ready (fun _ => utf8ToMbcs_steady os .shiftJis) (some t) true
  rwa [granted_utf8ToMbcs_fits ht.fits ht.length_le] at h

theorem delivers_paramdbpWriteNames {f : ParamdbpField} (hf : FieldNamed os f) :
    Delivers noSlots be long (paramdbpWriteNames os f) (paramdbpNamesBytes os be f) := by
  obtain ⟨⟨name, hname, hnameFits⟩, fmt, hfmt, hfmtFits⟩ := hf
  unfold paramdbpWriteNames paramdbpNamesBytes
  rw [hname, hfmt]
  exact (delivers_shiftJis hnameFits).then (delivers_shiftJis hfmtFits)

theorem delivers_paramdbpWrite (d : Paramdbp) (hfields : ∀ f ∈ d.fields, FieldNamed os f) :
    Delivers noSlots be long (paramdbpWrite os d) (paramdbpBytes os be d.fields) :=
  (delivers_i32 _).then ((delivers_i32 _).then ((delivers_i32 _).then ((delivers_i32 _).then
    ((delivers_each _ fun _ _ => delivers_i32 0).then
      ((delivers_each _ fun f _ => delivers_paramdbpWriteField f).then
        (delivers_each _ fun f hf => delivers_paramdbpWriteNames (hfields f hf)))))))

/-- **Every schema can be written**, and what is written is its image. -/
theorem paramdbpWriteToMemory_ok {d : Paramdbp} (hfields : ∀ f ∈ d.fields, FieldNamed os f)
    (hsize : (paramdbpBytes os d.bigEndian d.fields).length < 2 ^ 31) {heap : Heap} (hcalm : heap.Calm) :
    (paramdbpWriteToMemory os d heap).1 = .ok (paramdbpBytes os d.bigEndian d.fields) := by
  have hroom : fileRoom = 2 ^ 40 := rfl
  have hpiece : Delivers noSlots d.bigEndian false (paramdbpWrite os d) (paramdbpBytes os d.bigEndian d.fields) :=
    delivers_paramdbpWrite d hfields
  obtain ⟨out, st, hrun, ⟨hst, -⟩, hout, hlen⟩ := (hpiece 0 ∅ (by omega)).toMemory (fun _ _ h => h.2) hcalm
  rw [hst] at hlen
  have hall := hout.take_drop
  simp only [Nat.zero_add] at hlen
  rw [List.drop_zero, ← hlen, List.take_length] at hall
  rw [paramdbpWriteToMemory, hrun, hall]

end Writing

/-! ## Reading -/

section Reading

open BinaryReader

variable {os : Win32} {be : Bool} {fields : List ParamdbpField}

theorem readsBack_readDbpValue (t : DbpType) (v : t.Value) :
    ReadsBack be (readDbpValue t) (dbpValueBytes be t v) v := by
  rintro c rfl
  cases t with
  | s8 => exact parses_i8 c v
  | u8 => exact parses_u8 c v
  | s16 => exact parses_i16 c v
  | u16 => exact parses_u16 c v
  | s32 => exact parses_i32 c v
  | u32 => exact parses_u32 c v
  | f32 => exact parses_u32 c v

/-- What the first pass reads of a field. -/
def ParamdbpField.unnamed (f : ParamdbpField) : ParamdbpField := { f with displayName := none, displayFormat := none }

theorem readsBack_paramdbpReadField (f : ParamdbpField) :
    ReadsBack be paramdbpReadField (paramdbpFieldBytes be f) f.unnamed := by
  refine (readsBack_i32 _).bind ((readsBack_i32 _).bind ((readsBack_i32 _).bind ?_))
  simp only [DbpType.ofInt32_toInt32]
  refine (readsBack_readDbpValue _ f.defaultVal).bind ((readsBack_readDbpValue _ f.increment).bind ?_)
  exact (readsBack_readDbpValue _ f.minimum).bind ((readsBack_readDbpValue _ f.maximum).last _ rfl)

/-- The second pass. -/
theorem readsBack_paramdbpReadNames (hnamed : ∀ f ∈ fields, FieldNamed os f)
    (hfits : ∀ f ∈ fields, TextFits os false (f.displayName.getD []) ∧ TextFits os false (f.displayFormat.getD [])) :
    ReadsBack be (paramdbpReadNames os (fields.map ParamdbpField.unnamed)) (fields.flatMap (paramdbpNamesBytes os be))
      fields := by
  induction fields with
  | nil => exact ReadsBack.pure []
  | cons f fields ih =>
      obtain ⟨hname, hfmt⟩ := hfits f List.mem_cons_self
      obtain ⟨⟨name, hsome, -⟩, fmt, hsomeFmt, -⟩ := hnamed f List.mem_cons_self
      have hrest := ih (fun g hg => hnamed g (List.mem_cons_of_mem f hg))
        fun g hg => hfits g (List.mem_cons_of_mem f hg)
      have htext : ∀ {t : List UInt8}, TextFits os false t →
          ReadsBack be (readShiftJis os) (storedText os false be t) t := by
        rintro t ht c rfl
        exact parses_readShiftJis ht c
      rw [List.map_cons, List.flatMap_cons, paramdbpNamesBytes, List.append_assoc]
      refine (htext hname).bind ((htext hfmt).bind (hrest.last _ ?_))
      obtain ⟨type, displayName, displayFormat, values⟩ := f
      simp only at hsome hsomeFmt
      subst hsome hsomeFmt
      rfl

theorem readsBack_paramdbpReadBody (hnamed : ∀ f ∈ fields, FieldNamed os f)
    (hsize : (paramdbpBytes os be fields).length < 2 ^ 31) :
    ∃ cap, ReadsBack be (paramdbpReadBody os be (Int32.ofNat fields.length))
      ((paramdbpBytes os be fields).drop 4) ⟨be, fields, cap⟩ := by
  have hcount := length_le_paramdbpBytes os be fields
  have hmax : INT32_MAX = 2 ^ 31 - 1 := rfl
  have hint : (Int32.ofNat fields.length).toInt = fields.length := int32_toInt_ofNat (by omega)
  have hn : (Int32.ofNat fields.length).toInt.toNat = fields.length := by rw [hint, Int.toNat_natCast]
  have hcreate : Steady (paramdbpCreate be) := (Steady.pure _).alloc_bind
  obtain ⟨cap, hgranted⟩ := paramdbpAddFields_granted ⟨be, [], 0⟩ fields hnamed
  refine ⟨cap, ?_⟩
  have hdrop : (paramdbpBytes os be fields).drop 4 = (wordBytes be 4 (0 : Int32).toUInt32.toNat ++
      (wordBytes be 4 (0 : Int32).toUInt32.toNat ++ (wordBytes be 4 (0 : Int32).toUInt32.toNat ++
        (fields.flatMap (fun _ => wordBytes be 4 (0 : Int32).toUInt32.toNat) ++
          (fields.flatMap (paramdbpFieldBytes be) ++ fields.flatMap (paramdbpNamesBytes os be)))))) :=
    List.drop_left' (length_wordBytes ..)
  rw [hdrop]
  refine ReadsBack.onHeap hcreate (a := ⟨be, [], 0⟩) rfl ?_
  refine (readsBack_i32 _).bind ((readsBack_i32 _).bind ((readsBack_i32 _).bind ?_))
  rw [hn]
  have hwords : ReadsBack be (readEach readI32 fields.length)
      (fields.flatMap fun _ => wordBytes be 4 (0 : Int32).toUInt32.toNat) (fields.map fun _ => 0) :=
    ReadsBack.each fields fun _ _ => readsBack_i32 0
  refine hwords.bind (ReadsBack.check (by omega) (ReadsBack.alloc fun _ => ?_))
  refine (ReadsBack.each fields fun f _ => readsBack_paramdbpReadField f).bind ?_
  rw [← List.append_nil (fields.flatMap (paramdbpNamesBytes os be))]
  refine (readsBack_paramdbpReadNames hnamed fun f hf => (hnamed f hf).textFits hf hsize).bind ?_
  exact fun c _ _ => (reads_onHeap (paramdbpAddFields_steady _ _) hgranted c)

theorem returns_paramdbpReadBody (n : Int32) : Returns (paramdbpReadBody os be n) fun d => d.bigEndian = be := by
  have hcreate : Returns (paramdbpCreate be) fun d => d.bigEndian = be := Returns.after fun _ => Returns.pure rfl
  refine hcreate.zoom.bind fun d hd => Returns.after fun _ => Returns.after fun _ => Returns.after fun _ =>
    Returns.after fun _ => Returns.after fun _ => Returns.after fun _ => Returns.after fun _ => Returns.after fun tmp => ?_
  exact (returns_paramdbpAddFields d tmp).zoom.mono fun d' hd' => hd'.trans hd

/-- The count is read again, in the other order, from where it stands. -/
theorem reads_paramdbpReadSwapped {B : List UInt8} {v : Int32} (h : Holds B 0 (wordBytes false 4 v.toUInt32.toNat))
    (flexible : Bool) : Reads paramdbpReadSwapped ⟨B, 4, true, false, [], flexible⟩ v ⟨B, 4, false, false, [], flexible⟩ := by
  have hle := h.le
  rw [length_wordBytes] at hle
  have hread : Reads readI32 ⟨B, 0, false, false, [4], flexible⟩ v ⟨B, 4, false, false, [4], flexible⟩ := by
    have hword := parses_i32 ⟨B, 0, false, false, [4], flexible⟩ v h
    rwa [length_wordBytes] at hword
  refine Reads.setBig ((reads_stepIn (p := 0) (Nat.zero_le _)).bind (hread.attempt.bind ?_))
  refine (reads_stepOut (p := 4) rfl (by omega)).attempt.bind fun r hr hcalm => ⟨r, rfl, hr, hcalm⟩

/-- The value of the first word, read as a big-endian one. -/
theorem reads_firstWord {B : List UInt8} {n : Nat} (h : Holds B 0 (wordBytes be 4 n)) (flexible : Bool) :
    ∃ v : Int32, v.toInt = (if be then (UInt32.ofNat n).toInt32.toInt else swappedCount n) ∧
      Reads readI32 ⟨B, 0, true, false, [], flexible⟩ v ⟨B, 4, true, false, [], flexible⟩ := by
  have hlt : ∀ x : List UInt8, x.length = 4 → (UInt32.ofNat (wordNat true x)).toNat = wordNat true x := by
    intro x hx
    have hbound := wordNat_lt true x
    rw [hx] at hbound
    exact UInt32.toNat_ofNat_of_lt' hbound
  refine ⟨(UInt32.ofNat (wordNat true (wordBytes be 4 n))).toInt32, ?_, ?_⟩
  · cases be with
    | true =>
        have hmod : wordNat true (wordBytes true 4 n) = n % 2 ^ 32 := wordNat_wordBytes true 4 n
        rw [if_pos rfl, hmod]
        congr 2
        rw [← UInt32.toNat_inj, UInt32.toNat_ofNat', UInt32.toNat_ofNat', Nat.mod_mod]
    | false => rfl
  · have hback : wordBytes true 4 (UInt32.ofNat (wordNat true (wordBytes be 4 n))).toInt32.toUInt32.toNat
        = wordBytes be 4 n := by
      rw [UInt32.toUInt32_toInt32, hlt _ (length_wordBytes ..)]
      have hword := wordBytes_wordNat true (wordBytes be 4 n)
      rwa [length_wordBytes] at hword
    have hword := parses_i32 ⟨B, 0, true, false, [], flexible⟩ (UInt32.ofNat (wordNat true (wordBytes be 4 n))).toInt32
      (by rwa [hback])
    rwa [length_wordBytes] at hword

/-- How the reader comes from the first word to the fields. -/
theorem leads_paramdbpRead (os : Win32) {B : List UInt8} {n : Nat} (h : Holds B 0 (wordBytes be 4 n)) (hn : n ≤ B.length)
    (hn' : n ≤ INT32_MAX) (flexible : Bool) :
    (OrderShows be n B.length → Leads (paramdbpRead os) ⟨B, 0, true, false, [], flexible⟩
      (paramdbpReadBody os be (Int32.ofNat n)) ⟨B, 4, be, false, [], flexible⟩) ∧
    (¬ OrderShows be n B.length → ∃ v, Leads (paramdbpRead os) ⟨B, 0, true, false, [], flexible⟩
      (paramdbpReadBody os true v) ⟨B, 4, true, false, [], flexible⟩) := by
  obtain ⟨v, hv, hread⟩ := reads_firstWord h flexible
  have hlength : ∀ r : BinaryReader, r.cursor = ⟨B, 0, true, false, [], flexible⟩ → r.length = B.length :=
    fun r hr => congrArg (fun c => c.mem.length) hr
  have hstart : ∀ m' c', Leads (readI32 >>= fun fieldCount => do
        let swapped := decide (fieldCount.toInt < 0 ∨ B.length < fieldCount.toInt)
        let fieldCount ← given swapped fieldCount paramdbpReadSwapped
        paramdbpReadBody os (!swapped) fieldCount) ⟨B, 0, true, false, [], flexible⟩ m' c' →
      Leads (paramdbpRead os) ⟨B, 0, true, false, [], flexible⟩ m' c' := by
    intro m' c' hrest r hr hcalm
    have hrest := hrest r hr hcalm
    rw [← hlength r hr] at hrest
    exact hrest
  have hcount : (Int32.ofNat n).toInt = n := int32_toInt_ofNat hn'
  constructor
  · intro hshows
    refine hstart _ _ (hread.leads ?_)
    cases be with
    | true =>
        have hsame : v = Int32.ofNat n := by
          rw [← Int32.toInt_inj, hv, if_pos rfl, ← Int32.toInt32_toUInt32 (Int32.ofNat n), Int32.toUInt32_ofNat']
        subst hsame
        have hsmall : ¬ ((Int32.ofNat n).toInt < 0 ∨ (B.length : Int) < (Int32.ofNat n).toInt) := by
          rw [hcount]
          omega
        simp only [hsmall, decide_false, Bool.not_false]
        exact Leads.refl _ _
    | false =>
        have hswapped : v.toInt < 0 ∨ (B.length : Int) < v.toInt := by
          rw [hv, if_neg Bool.false_ne_true]
          exact hshows.resolve_left Bool.false_ne_true
        simp only [hswapped, decide_true, Bool.not_true]
        rw [← wordBytes_i32 false n] at h
        exact (reads_paramdbpReadSwapped h flexible).leads (Leads.refl _ _)
  · intro hshows
    refine ⟨v, hstart _ _ (hread.leads ?_)⟩
    have hsmall : ¬ (v.toInt < 0 ∨ (B.length : Int) < v.toInt) := by
      rw [hv]
      cases be with
      | true => exact absurd (.inl rfl) hshows
      | false => exact fun hswapped => hshows (.inr hswapped)
    simp only [hsmall, decide_false, Bool.not_false]
    exact Leads.refl _ _

end Reading

/-! ## What comes back -/

section

variable {os : Win32} {be : Bool} {fields : List ParamdbpField} {d : Paramdbp} {heap : Heap}

theorem holds_paramdbpBytes (os : Win32) (be : Bool) (fields : List ParamdbpField) :
    Holds (paramdbpBytes os be fields) 0 (wordBytes be 4 fields.length) ∧
      Holds (paramdbpBytes os be fields) 4 ((paramdbpBytes os be fields).drop 4) := by
  have htake : (paramdbpBytes os be fields).take 4 = wordBytes be 4 (Int32.ofNat fields.length).toUInt32.toNat :=
    List.take_left' (length_wordBytes ..)
  have hfront : paramdbpBytes os be fields
      = wordBytes be 4 fields.length ++ (paramdbpBytes os be fields).drop 4 := by
    rw [← wordBytes_i32 be fields.length, ← htake, List.take_append_drop]
  refine ⟨⟨[], (paramdbpBytes os be fields).drop 4, ?_, rfl⟩, wordBytes be 4 fields.length, [], ?_, length_wordBytes ..⟩
  · rw [List.nil_append]
    exact hfront
  · rw [List.append_nil]
    exact hfront

/-- Where the first word shows the byte order, the schema comes back. -/
theorem paramdbpReadFromMemory_ok (hnamed : ∀ f ∈ fields, FieldNamed os f)
    (hsize : (paramdbpBytes os be fields).length < 2 ^ 31)
    (hshows : OrderShows be fields.length (paramdbpBytes os be fields).length) (flexible : Bool) (hcalm : heap.Calm) :
    ∃ d, (paramdbpReadFromMemory os flexible (paramdbpBytes os be fields) heap).1 = .ok d ∧
      d.bigEndian = be ∧ d.fields = fields := by
  obtain ⟨hfirst, hrest⟩ := holds_paramdbpBytes os be fields
  have hcount := length_le_paramdbpBytes os be fields
  have hmax : INT32_MAX = 2 ^ 31 - 1 := rfl
  obtain ⟨cap, hbody⟩ := readsBack_paramdbpReadBody hnamed hsize
  have hlead := (leads_paramdbpRead os hfirst hcount (by omega) flexible).1 hshows
  obtain ⟨heap', hrun, -⟩ := BinaryReader.onMemory_ok (hlead.reads (hbody _ rfl hrest)) hcalm
  exact ⟨_, congrArg Prod.fst hrun, rfl, rfl⟩

/-- Where it does not, what comes back is big-endian. -/
theorem paramdbpReadFromMemory_bigEndian {B : List UInt8} {n : Nat} (h : Holds B 0 (wordBytes be 4 n))
    (hn : n ≤ B.length) (hn' : n ≤ INT32_MAX) (hshows : ¬ OrderShows be n B.length) {flexible : Bool}
    (hcalm : heap.Calm) (hread : (paramdbpReadFromMemory os flexible B heap).1 = .ok d) : d.bigEndian = true := by
  obtain ⟨heap', r', hrun, hcalm'⟩ := BinaryReader.onMemory_eq_ok hread
  obtain ⟨v, hlead⟩ := (leads_paramdbpRead os h hn hn' flexible).2 hshows
  obtain ⟨r1, hsame, -, -⟩ := hlead (BinaryReader.create B true flexible heap') rfl (hcalm' hcalm)
  rw [hsame] at hrun
  exact returns_paramdbpReadBody v r1 d r' hrun

/-- **A schema that was built and written comes back as it was, exactly if** it is big-endian or its number of
    fields, in the other byte order, is negative or greater than the file. -/
theorem paramdbp_round_trips_iff (os : Win32) (be flexible : Bool) (fields : List ParamdbpField) (d : Paramdbp)
    (heap heap1 heap2 : Heap) (hbuild : (paramdbpBuild be fields heap).1 = .ok d)
    (hnamed : ∀ f ∈ fields, FieldNamed os f) (hsize : (paramdbpBytes os be fields).length < 2 ^ 31)
    (hcalm1 : heap1.Calm) (hcalm2 : heap2.Calm) :
    ∃ out, (paramdbpWriteToMemory os d heap1).1 = .ok out ∧ out = paramdbpBytes os be fields ∧
      ((∃ d', (paramdbpReadFromMemory os flexible out heap2).1 = .ok d' ∧ d'.bigEndian = d.bigEndian ∧
          d'.fields = d.fields) ↔
        OrderShows be fields.length out.length) := by
  obtain ⟨rfl, rfl⟩ := paramdbpBuild_eq_ok hnamed hbuild
  have hmax : INT32_MAX = 2 ^ 31 - 1 := rfl
  have hcount := length_le_paramdbpBytes os d.bigEndian d.fields
  refine ⟨_, paramdbpWriteToMemory_ok hnamed hsize hcalm1, rfl, ?_, ?_⟩
  · rintro ⟨d', hread, horder, -⟩
    by_contra hshows
    have hbig := paramdbpReadFromMemory_bigEndian (holds_paramdbpBytes os d.bigEndian d.fields).1 hcount (by omega)
      hshows hcalm2 hread
    exact hshows (.inl (horder.symm.trans hbig))
  · intro hshows
    exact paramdbpReadFromMemory_ok hnamed hsize hshows flexible hcalm2

/-- Any schema can be built; where the first word does not show the byte order, what comes back of it has the
    other one. -/
theorem paramdbp_loses_order (hnamed : ∀ f ∈ fields, FieldNamed os f)
    (hsize : (paramdbpBytes os be fields).length < 2 ^ 31)
    (hshows : ¬ OrderShows be fields.length (paramdbpBytes os be fields).length) :
    ∃ d out, (paramdbpBuild be fields []).1 = .ok d ∧ (paramdbpWriteToMemory os d []).1 = .ok out ∧
      out.length < 2 ^ 31 ∧ ∀ d', (paramdbpReadFromMemory os false out []).1 = .ok d' → d'.bigEndian ≠ d.bigEndian := by
  have hmax : INT32_MAX = 2 ^ 31 - 1 := rfl
  have hcount := length_le_paramdbpBytes os be fields
  obtain ⟨cap, hgranted⟩ := paramdbpAddFields_granted ⟨be, [], 0⟩ fields hnamed
  obtain ⟨h, hadd⟩ := granted_eq_some.1 hgranted
  have hcreate : paramdbpCreate be [] = (.ok ⟨be, [], 0⟩, []) := rfl
  have hbuild : (paramdbpBuild be fields []).1 = .ok ⟨be, fields, cap⟩ := by
    rw [paramdbpBuild, bind_ok hcreate, hadd]
    rfl
  refine ⟨⟨be, fields, cap⟩, _, hbuild, paramdbpWriteToMemory_ok hnamed hsize Heap.calm_nil, hsize, fun d' hread hsame => hshows ?_⟩
  have hbig := paramdbpReadFromMemory_bigEndian (holds_paramdbpBytes os be fields).1 hcount (by omega) hshows
    Heap.calm_nil hread
  exact .inl (hsame.symm.trans hbig)

theorem NameFits.plain {t : List UInt8} (ht : Win32.isPlain t = true) (hlen : t.length ≤ INT32_MAX) :
    NameFits Win32.ascii t :=
  ⟨Win32.ascii_compatible.fits (Win32.isPlain_iff.1 ht).1 (Win32.isPlain_iff.1 ht).2, hlen⟩

/-- A field of one byte with a name of `n` letters. -/
def paramdbpByteField (n : Nat) : ParamdbpField :=
  ⟨.s8, some (List.replicate n 0x61), some [0x25, 0x64], 0, 1, -128, 127⟩

theorem paramdbpByteField_named {n : Nat} (hn : n ≤ INT32_MAX) : FieldNamed Win32.ascii (paramdbpByteField n) := by
  have hplain : Win32.isPlain (List.replicate n 0x61) = true := by
    simp only [Win32.isPlain, List.all_eq_true]
    intro b hb
    rw [List.eq_of_mem_replicate hb]
    rfl
  exact ⟨⟨_, rfl, .plain hplain (by rwa [List.length_replicate])⟩, _, rfl, .plain (by decide) (by decide)⟩

/-- A byte and a float. -/
def paramdbpSample : List ParamdbpField :=
  [paramdbpByteField 1, ⟨.f32, some (cstr "speed"), some (cstr "%f"), 0x3F800000, 0x3DCCCCCD, 0, 0x42C80000⟩]

theorem paramdbpSample_named : ∀ f ∈ paramdbpSample, FieldNamed Win32.ascii f := by
  intro f hf
  simp only [paramdbpSample, List.mem_cons, List.not_mem_nil, or_false] at hf
  rcases hf with rfl | rfl
  · exact paramdbpByteField_named (by decide)
  · exact ⟨⟨_, rfl, .plain (by decide) (by decide)⟩, _, rfl, .plain (by decide) (by decide)⟩

theorem paramdbp_sample_round_trips :
    ∃ out, (paramdbpWriteToMemory Win32.ascii ⟨false, paramdbpSample, 8⟩ []).1 = .ok out ∧
      ∃ d', (paramdbpReadFromMemory Win32.ascii false out []).1 = .ok d' ∧ d'.bigEndian = false ∧
        d'.fields = paramdbpSample := by
  obtain ⟨out, hwrite, hout, hiff⟩ := paramdbp_round_trips_iff Win32.ascii false false paramdbpSample
    ⟨false, paramdbpSample, 8⟩ [] [] [] rfl paramdbpSample_named (by decide +kernel) Heap.calm_nil Heap.calm_nil
  refine ⟨out, hwrite, hiff.2 (.inr (.inr ?_))⟩
  rw [hout]
  decide +kernel

/-- 256 little-endian fields with long names: 256 is 65536 in the other byte order, and the file is greater. -/
theorem paramdbp_many_fields_lose_order :
    (∀ f ∈ List.replicate 256 (paramdbpByteField 300), FieldNamed Win32.ascii f) ∧
      ∃ d out, (paramdbpBuild false (List.replicate 256 (paramdbpByteField 300)) []).1 = .ok d ∧
        (paramdbpWriteToMemory Win32.ascii d []).1 = .ok out ∧ out.length < 2 ^ 31 ∧
        ∀ d', (paramdbpReadFromMemory Win32.ascii false out []).1 = .ok d' → d'.bigEndian ≠ d.bigEndian := by
  have hnamed : ∀ f ∈ List.replicate 256 (paramdbpByteField 300), FieldNamed Win32.ascii f := by
    intro f hf
    rw [List.eq_of_mem_replicate hf]
    exact paramdbpByteField_named (by decide)
  have hname : (paramdbpNamesBytes Win32.ascii false (paramdbpByteField 300)).length = 304 := by
    obtain ⟨⟨t, ht, hfits⟩, u, hu, hfits'⟩ := paramdbpByteField_named (n := 300) (by decide)
    cases ht
    cases hu
    decide +kernel
  have hlen : (paramdbpBytes Win32.ascii false (List.replicate 256 (paramdbpByteField 300))).length = 82960 := by
    have heach : ∀ f ∈ List.replicate 256 (paramdbpByteField 300), (paramdbpFieldBytes false f).length = 16 ∧
        (paramdbpNamesBytes Win32.ascii false f).length = 304 := by
      intro f hf
      rw [List.eq_of_mem_replicate hf]
      exact ⟨rfl, hname⟩
    simp only [paramdbpBytes, List.length_append, length_wordBytes, List.length_replicate,
      length_flatMap_const _ fun _ _ => length_wordBytes false 4 (0 : Int32).toUInt32.toNat,
      length_flatMap_const _ fun f hf => (heach f hf).1, length_flatMap_const _ fun f hf => (heach f hf).2]
  refine ⟨hnamed, paramdbp_loses_order hnamed (by rw [hlen]; decide) ?_⟩
  rw [hlen, List.length_replicate, OrderShows]
  decide

end

end SoulsFormats
