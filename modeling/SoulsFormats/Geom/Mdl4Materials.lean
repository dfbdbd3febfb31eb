import SoulsFormats.Core.Alike
import SoulsFormats.Geom.Mdl4Object

set_option autoImplicit false

/-! # Absent parameters of an MDL4 material

A material stops between the number of its parameters and their array exactly if the array is refused; otherwise its
accesses are to parameters that are there. -/

namespace SoulsFormats

open Bytes Fallible BinaryReader Built Construct

/-! ## Fields -/

section

variable {η α β γ : Type} {read : ReadM α} {set : α → η → η} {P : η → List Access → Prop}

/-- What only depends on the object and the log. -/
theorem reading_keeps_object (m : ReadM α) : Keeps (fun b : Built BinaryReader η => P b.object b.log) (reading m) :=
  fun _ hb => hb

theorem storeField_keeps (h : ∀ v o log, P o log → P (set v o) log) :
    Keeps (fun b : Built BinaryReader η => P b.object b.log) (storeField read set) :=
  (reading_keeps_object read).bind fun v b hb => h v b.object b.log hb

theorem mirrors_storeField {f : Unit → ConstructM η β} {f' : α → ReadM γ} {b : Built BinaryReader η} {Q : β → γ → η → Prop}
    (h : ∀ v b', b'.object = set v b.object → Mirrors (f ()) (f' v) b' Q) :
    Mirrors (storeField read set >>= f) (read >>= f') b Q := by
  rw [storeField, bind_assoc]
  refine Mirrors.reading_bind fun v b1 h1 => Mirrors.assign_bind fun b2 h2 => h v b2 ?_
  rw [h2, h1]

end

/-! ## Asking for the arrays -/

section

variable {τ : Type}

theorem allocArray_run (count : Int32) (elemSize : Nat) (zero : τ) (r : BinaryReader) :
    ∃ l r', allocArray count elemSize zero r = (.ok l, r') ∧ (l = [] ∨ l = List.replicate count.toInt.toNat zero) := by
  unfold allocArray
  by_cases hvalid : countValid count elemSize = true ∧ count ≠ 0
  · rw [if_pos hvalid, attempt_bind_run]
    cases (onHeap Heap.alloc r).1 with
    | ok junk => exact ⟨_, _, rfl, .inr rfl⟩
    | error e => exact ⟨_, _, rfl, .inl rfl⟩
  · rw [if_neg hvalid]
    exact ⟨_, _, rfl, .inl rfl⟩

theorem allocArray_zero (elemSize : Nat) (zero : τ) (r : BinaryReader) : allocArray 0 elemSize zero r = (.ok [], r) := by
  unfold allocArray
  rw [if_neg (by simp), pure_run]

theorem allocArray_granted {count : Int32} {elemSize : Nat} (hvalid : countValid count elemSize = true) (hcount : count ≠ 0)
    (zero : τ) {r : BinaryReader} (h : r.heap.Grants) : allocArray count elemSize zero r =
      (.ok (List.replicate count.toInt.toNat zero), { r with heap := (Heap.alloc r.heap).2 }) := by
  obtain ⟨junk, halloc⟩ := Heap.alloc_of_grants h
  have hrun : onHeap Heap.alloc r = (.ok junk, { r with heap := (Heap.alloc r.heap).2 }) := Prod.ext halloc rfl
  rw [allocArray, if_pos ⟨hvalid, hcount⟩, attempt_bind_run, hrun]
  rfl

theorem allocArray_refused {count : Int32} {elemSize : Nat} (hvalid : countValid count elemSize = true) (hcount : count ≠ 0)
    (zero : τ) {r : BinaryReader} (h : ¬ r.heap.Grants) : allocArray count elemSize zero r =
      (.ok [], { r with heap := (Heap.alloc r.heap).2 }) := by
  have hrun : onHeap Heap.alloc r = (.error .oom, { r with heap := (Heap.alloc r.heap).2 }) :=
    Prod.ext (Heap.alloc_of_not_grants h) rfl
  rw [allocArray, if_pos ⟨hvalid, hcount⟩, attempt_bind_run, hrun]
  rfl

/-- An array that is not absent has as many elements as its count says. -/
theorem length_of_not_absent {count : Int32} {zero : τ} {l : List τ} (hl : l = [] ∨ l = List.replicate count.toInt.toNat zero)
    (h : ¬ ArrayAbsent count l) : l = List.replicate count.toInt.toNat zero := by
  rcases hl with rfl | hl
  · have hcount : count.toInt.toNat = 0 := by
      by_contra hpos
      exact h ⟨by omega, rfl⟩
    rw [hcount, List.replicate_zero]
  · exact hl

theorem ArrayAbsent.short {count : Int32} {l : List τ} (h : ArrayAbsent count l) : l.length < count.toInt.toNat := by
  obtain ⟨hcount, hempty⟩ := h
  rw [List.isEmpty_iff.1 hempty, List.length_nil]
  omega

end

/-! ## Materials -/

/-- The parameters of a material are there. -/
def Mdl4MaterialObject.Counted (m : Mdl4MaterialObject) : Prop := m.paramCount ≤ m.params.length

theorem zeroMdl4Material_counted : zeroMdl4Material.Counted := Nat.le_refl 0

section

variable (os : Win32)

/-- What a material has before its parameters. -/
structure Mdl4MaterialHead where
  name : List UInt8
  shader : List UInt8
  unk3c : UInt8
  unk3d : UInt8
  unk3e : UInt8
  paramCount : UInt8
  paramsOffset : Nat

def mdl4MaterialHead : ReadM Mdl4MaterialHead := do
  let name ← readFixStr os 0x1F
  let shader ← readFixStr os 0x1D
  let unk3c ← readU8
  let unk3d ← readU8
  let unk3e ← readU8
  let paramCount ← readU8
  let paramsOffset ← peek position
  pure ⟨name, shader, unk3c, unk3d, unk3e, paramCount, paramsOffset⟩

/-- The rest of a material. -/
def mdl4MaterialRest (head : Mdl4MaterialHead) : ReadM Mdl4Material := do
  given (0 < head.paramCount) () do
    let _ ← onHeap Heap.alloc
    pure ()
  let params ← readEach (mdl4ReadParam os) head.paramCount.toNat
  onStream (IStream.seek (head.paramsOffset + 0x800))
  pure ⟨head.name, head.shader, head.unk3c, head.unk3d, head.unk3e, params⟩

theorem mdl4ReadMaterial_eq : mdl4ReadMaterial os = mdl4MaterialHead os >>= mdl4MaterialRest os := by
  simp only [mdl4ReadMaterial, mdl4MaterialHead, mdl4MaterialRest, bind_assoc, pure_bind]

/-- The parameters are counted, but their array is refused. -/
def Mdl4MaterialHead.ParamsAbsent (head : Mdl4MaterialHead) (r : BinaryReader) : Prop :=
  0 < head.paramCount ∧ ¬ r.heap.Grants

theorem mirrors_mdl4BuildMaterialHead {b : Built BinaryReader Mdl4MaterialObject} (hb : b.object = zeroMdl4Material) :
    Mirrors (mdl4BuildMaterialHead os) (mdl4MaterialHead os) b fun a head o =>
      a = (head.paramCount, head.paramsOffset) ∧
        o = ⟨some head.name, some head.shader, head.unk3c, head.unk3d, head.unk3e, 0, []⟩ := by
  refine mirrors_storeField fun name b1 h1 => mirrors_storeField fun shader b2 h2 => mirrors_storeField fun _ b3 h3 => ?_
  refine mirrors_storeField fun _ b4 h4 => mirrors_storeField fun _ b5 h5 => Mirrors.reading_bind fun _ b6 h6 => ?_
  refine Mirrors.reading_bind fun _ b7 h7 => Mirrors.pure ⟨rfl, ?_⟩
  rw [h7, h6, h5, h4, h3, h2, h1, hb]
  rfl

/-- Nothing is accessed and no count is stored before the parameters. -/
theorem mdl4BuildMaterialHead_keeps (log : List Access) :
    Keeps (fun b => b.object.paramCount = 0 ∧ b.log = log) (mdl4BuildMaterialHead os) := by
  have hstore {α : Type} (read : ReadM α) {set : α → Mdl4MaterialObject → Mdl4MaterialObject}
      (hset : ∀ v o, (set v o).paramCount = o.paramCount) :
      Keeps (fun b => b.object.paramCount = 0 ∧ b.log = log) (storeField read set) :=
    storeField_keeps (P := fun o l => o.paramCount = 0 ∧ l = log) fun v o _ h => ⟨(hset v o).trans h.1, h.2⟩
  refine (hstore _ ?_).bind fun _ => (hstore _ ?_).bind fun _ => (hstore _ ?_).bind fun _ => (hstore _ ?_).bind fun _ =>
    (hstore _ ?_).bind fun _ => Keeps.bind (fun _ hb => hb) fun _ => Keeps.bind (fun _ hb => hb) fun _ => Keeps.pure _
  all_goals exact fun _ _ => rfl

/-! ## The parameters of a material -/

/-- A parameter array that is there is filled. -/
def mdl4FillParams (head : Mdl4MaterialHead) : ConstructM Mdl4MaterialObject Unit := do
  upTo (readElement Mdl4MaterialObject.paramTable zeroMdl4Param (mdl4ReadParam os)) head.paramCount.toNat 0
  reading (onStream (IStream.seek (head.paramsOffset + 0x800)))

/-- `read_material` once the number of parameters is stored. -/
def mdl4BuildParams (paramCount : UInt8) (paramsOffset : Nat) : ConstructM Mdl4MaterialObject Unit := do
  let params ← reading (allocArray (Int32.ofNat paramCount.toNat) mdl4ParamSize zeroMdl4Param)
  assign fun m => { m with params := params }
  check (¬ (0 < paramCount ∧ params.isEmpty = true)) .oom
  upTo (readElement Mdl4MaterialObject.paramTable zeroMdl4Param (mdl4ReadParam os)) paramCount.toNat 0
  reading (onStream (IStream.seek (paramsOffset + 0x800)))

theorem mdl4BuildMaterial_head {b : Built BinaryReader Mdl4MaterialObject} {n : UInt8} {off : Nat} {r : BinaryReader}
    {o : Mdl4MaterialObject} {log : List Access} (h : mdl4BuildMaterialHead os b = (.ok (n, off), ⟨r, o, log⟩)) :
    mdl4BuildMaterial os b = mdl4BuildParams os n off ⟨r, { o with paramCount := n.toNat }, log⟩ := by
  rw [mdl4BuildMaterial, bind_ok h]
  rfl

/-- The material with so many parameters, that are in `params`. -/
def Mdl4MaterialHead.with (head : Mdl4MaterialHead) (params : List Mdl4MaterialParam) : Mdl4MaterialObject :=
  ⟨some head.name, some head.shader, head.unk3c, head.unk3d, head.unk3e, head.paramCount.toNat, params⟩

/-- The reader with the parameter array asked for. -/
def Mdl4MaterialHead.asked (head : Mdl4MaterialHead) (r : BinaryReader) : BinaryReader :=
  if 0 < head.paramCount then { r with heap := (Heap.alloc r.heap).2 } else r

theorem toInt_paramCount (n : UInt8) : (Int32.ofNat n.toNat).toInt = n.toNat := by
  have hn : n.toNat < 2 ^ 8 := n.toNat_lt
  exact Int32.toInt_ofNat_of_lt (by omega)

theorem countValid_params (n : UInt8) : countValid (Int32.ofNat n.toNat) mdl4ParamSize = true := by
  have hn : n.toNat < 2 ^ 8 := n.toNat_lt
  have hbound : n.toNat ≤ SIZE_MAX / mdl4ParamSize := by
    have hmax : 2 ^ 8 ≤ SIZE_MAX / mdl4ParamSize := by decide
    omega
  simp only [countValid, toInt_paramCount, Int.toNat_natCast, Bool.and_eq_true, Bool.or_eq_true, decide_eq_true_eq]
  exact ⟨Int.natCast_nonneg _, .inr hbound⟩

theorem paramCount_ne_zero {n : UInt8} (h : 0 < n) : Int32.ofNat n.toNat ≠ 0 := by
  intro hzero
  have hint := toInt_paramCount n
  rw [hzero] at hint
  have hpos : 0 < n.toNat := UInt8.lt_iff_toNat_lt.1 h
  have : (0 : Int32).toInt = 0 := rfl
  omega

/-- Building a material ends in its head, or stops where the array is refused, or comes to fill the array. -/
theorem mdl4BuildMaterial_cases (b : Built BinaryReader Mdl4MaterialObject) (hb : b.object = zeroMdl4Material) :
    (∃ e r1 b1, mdl4MaterialHead os b.source = (.error e, r1) ∧ mdl4BuildMaterial os b = (.error e, b1) ∧ b1.source = r1 ∧
        b1.object.paramCount = 0 ∧ b1.log = b.log) ∨
      ∃ head r1, mdl4MaterialHead os b.source = (.ok head, r1) ∧
        (head.ParamsAbsent r1 → mdl4BuildMaterial os b = (.error .oom, ⟨head.asked r1, head.with [], b.log⟩)) ∧
          (¬ head.ParamsAbsent r1 → mdl4BuildMaterial os b =
            mdl4FillParams os head ⟨head.asked r1, head.with (List.replicate head.paramCount.toNat zeroMdl4Param), b.log⟩) := by
  have hmirror := mirrors_mdl4BuildMaterialHead os hb
  have hkeeps := mdl4BuildMaterialHead_keeps os b.log b ⟨by rw [hb]; rfl, rfl⟩
  rcases hhead : mdl4MaterialHead os b.source with ⟨e | head, r1⟩
  · obtain ⟨b1, hrun, hsource⟩ := hmirror.2 e r1 hhead
    rw [hrun] at hkeeps
    exact .inl ⟨e, r1, b1, rfl, by rw [mdl4BuildMaterial, bind_error hrun], hsource, hkeeps⟩
  obtain ⟨a, ⟨r, o, log⟩, hrun, rfl, rfl, rfl⟩ := hmirror.1 head r1 hhead
  rw [hrun] at hkeeps
  obtain ⟨-, rfl⟩ := hkeeps
  refine .inr ⟨head, r, rfl, fun habsent => ?_, fun hpresent => ?_⟩
  · -- the count is stored, but there is no array
    obtain ⟨hpos, hrefused⟩ := habsent
    have halloc := allocArray_refused (countValid_params head.paramCount) (paramCount_ne_zero hpos) zeroMdl4Param hrefused
    rw [mdl4BuildMaterial_head os hrun, mdl4BuildParams, reading_bind_ok halloc, assign_bind_run]
    rw [check_bind_neg (not_not.2 ⟨hpos, rfl⟩), Mdl4MaterialHead.asked, if_pos hpos]
    rfl
  · by_cases hpos : 0 < head.paramCount
    · have hgrants : r.heap.Grants := by
        by_contra hrefused
        exact hpresent ⟨hpos, hrefused⟩
      have halloc := allocArray_granted (countValid_params head.paramCount) (paramCount_ne_zero hpos) zeroMdl4Param hgrants
      rw [toInt_paramCount, Int.toNat_natCast] at halloc
      have hsome : ¬ (0 < head.paramCount ∧ (List.replicate head.paramCount.toNat zeroMdl4Param).isEmpty = true) := by
        rintro ⟨-, hempty⟩
        have hpos : 0 < head.paramCount.toNat := UInt8.lt_iff_toNat_lt.1 hpos
        rw [List.isEmpty_iff, List.replicate_eq_nil_iff] at hempty
        omega
      rw [mdl4BuildMaterial_head os hrun, mdl4BuildParams, reading_bind_ok halloc, assign_bind_run, check_bind_pos hsome]
      rw [Mdl4MaterialHead.asked, if_pos hpos]
      rfl
    · have hzero : head.paramCount.toNat = 0 := by
        rw [UInt8.lt_iff_toNat_lt] at hpos
        exact Nat.eq_zero_of_not_pos hpos
      have halloc : allocArray (Int32.ofNat 0) mdl4ParamSize zeroMdl4Param r = (.ok [], r) :=
        allocArray_zero mdl4ParamSize zeroMdl4Param r
      rw [mdl4BuildMaterial_head os hrun, mdl4BuildParams, hzero, reading_bind_ok halloc, assign_bind_run]
      have hsome : ¬ (0 < head.paramCount ∧ ([] : List Mdl4MaterialParam).isEmpty = true) := fun hno => hpos hno.1
      rw [check_bind_pos hsome, Mdl4MaterialHead.asked, if_neg hpos, mdl4FillParams, Mdl4MaterialHead.with]
      rw [hzero]
      rfl

/-- `mdl4ReadMaterial` asks for the array too. -/
theorem Mdl4MaterialHead.given_of_absent {head : Mdl4MaterialHead} {r : BinaryReader} (h : head.ParamsAbsent r) :
    (given (0 < head.paramCount) () do
      let _ ← onHeap Heap.alloc
      pure () : ReadM Unit) r = (.error .oom, head.asked r) := by
  have hask : onHeap Heap.alloc r = (.error .oom, { r with heap := (Heap.alloc r.heap).2 }) :=
    Prod.ext (Heap.alloc_of_not_grants h.2) rfl
  rw [given, decide_eq_true h.1, if_pos rfl, asked, if_pos h.1, bind_error hask]

theorem Mdl4MaterialHead.given_of_not_absent {head : Mdl4MaterialHead} {r : BinaryReader} (h : ¬ head.ParamsAbsent r) :
    (given (0 < head.paramCount) () do
      let _ ← onHeap Heap.alloc
      pure () : ReadM Unit) r = (.ok (), head.asked r) := by
  by_cases hpos : 0 < head.paramCount
  · have hgrants : r.heap.Grants := by
      by_contra hrefused
      exact h ⟨hpos, hrefused⟩
    obtain ⟨junk, halloc⟩ := Heap.alloc_of_grants hgrants
    have hask : onHeap Heap.alloc r = (.ok junk, { r with heap := (Heap.alloc r.heap).2 }) := Prod.ext halloc rfl
    rw [given, decide_eq_true hpos, if_pos rfl, asked, if_pos hpos, bind_ok hask, pure_run]
  · rw [given, decide_eq_false hpos, if_neg Bool.false_ne_true, asked, if_neg hpos, pure_run]

/-- A full array is filled without an access outside of it. -/
theorem mdl4FillParams_sound (head : Mdl4MaterialHead) (b : Built BinaryReader Mdl4MaterialObject)
    (hlength : b.object.params.length = head.paramCount.toNat) (hcount : b.object.paramCount = head.paramCount.toNat) :
    (mdl4FillParams os head b).2.Sound ∧ (mdl4FillParams os head b).2.object.Counted ↔ b.Sound := by
  let J : Mdl4MaterialObject → Prop := fun o => o.params.length = head.paramCount.toNat ∧ o.paramCount = head.paramCount.toNat
  have hkeeps : Keeps (SoundWith J) (mdl4FillParams os head) := by
    refine (upTo_keeps fun j _ hj => readElement_keeps (fun l o hl ho => ⟨hl.trans ho.1, ho.2⟩) fun o ho => ?_).bind fun _ =>
      reading_keeps_with _
    rw [show (Mdl4MaterialObject.paramTable.get o).length = _ from ho.1]
    omega
  have hunsound : Keeps Unsound (mdl4FillParams os head) :=
    (upTo_keeps fun _ _ _ => readElement_keeps_unsound).bind fun _ => reading_keeps_unsound _
  constructor
  · rintro ⟨hsound, -⟩
    by_contra hb
    exact hunsound b hb hsound
  · intro hb
    obtain ⟨hsound, hlen, hcount⟩ := hkeeps b ⟨hb, hlength, hcount⟩
    exact ⟨hsound, (hcount.trans hlen.symm).le⟩

/-- No array of parameters is refused to the material that starts here. -/
def Mdl4ParamsThere (r : BinaryReader) : Prop :=
  ∀ head r', mdl4MaterialHead os r = (.ok head, r') → ¬ head.ParamsAbsent r'

theorem mirrors_mdl4BuildMaterial (b : Built BinaryReader Mdl4MaterialObject) (hb : b.object = zeroMdl4Material) :
    Mirrors (mdl4BuildMaterial os) (mdl4ReadMaterial os) b fun _ x m => m = x.object := by
  rw [mdl4ReadMaterial_eq]
  rcases mdl4BuildMaterial_cases os b hb with ⟨e, r1, b1, hhead, hrun, hsource, -⟩ | ⟨head, r1, hhead, habsent, hpresent⟩
  · refine ⟨fun x r h => ?_, fun e' r h => ?_⟩ <;> rw [bind_error hhead] at h <;> cases h
    exact ⟨b1, hrun, hsource⟩
  by_cases hparams : head.ParamsAbsent r1
  · have hrun := habsent hparams
    have hgiven := Mdl4MaterialHead.given_of_absent hparams
    refine ⟨fun x r h => ?_, fun e' r h => ?_⟩ <;> rw [bind_ok hhead, mdl4MaterialRest, bind_error hgiven] at h <;> cases h
    exact ⟨_, hrun, rfl⟩
  · have hgiven := Mdl4MaterialHead.given_of_not_absent hparams
    have hfill : Mirrors (mdl4FillParams os head) (do
        let params ← readEach (mdl4ReadParam os) head.paramCount.toNat
        onStream (IStream.seek (head.paramsOffset + 0x800))
        pure (⟨head.name, head.shader, head.unk3c, head.unk3d, head.unk3e, params⟩ : Mdl4Material))
        ⟨head.asked r1, head.with (List.replicate head.paramCount.toNat zeroMdl4Param), b.log⟩
        fun _ x m => m = x.object := by
      refine (mirrors_readElements (T := Mdl4MaterialObject.paramTable) rfl).bind fun _ params b2 h2 => ?_
      obtain ⟨hlen, hobject⟩ := h2
      have hlast : Mirrors (reading (onStream (IStream.seek (head.paramsOffset + 0x800))) >>= pure)
          (onStream (IStream.seek (head.paramsOffset + 0x800)) >>= fun _ =>
            pure (⟨head.name, head.shader, head.unk3c, head.unk3d, head.unk3e, params⟩ : Mdl4Material)) b2
          fun _ x m => m = x.object := by
        refine Mirrors.reading_bind fun _ b3 h3 => Mirrors.pure ?_
        rw [h3, hobject, Mdl4Material.object]
        simp only [hlen]
        rfl
      rwa [bind_pure] at hlast
    refine ⟨fun x r h => ?_, fun e' r h => ?_⟩ <;> rw [bind_ok hhead, mdl4MaterialRest, bind_ok hgiven] at h <;>
      rw [hpresent hparams]
    · exact hfill.1 x r h
    · exact hfill.2 e' r h

theorem mdl4_material_settled (b : Built BinaryReader Mdl4MaterialObject) (hb : b.object = zeroMdl4Material) :
    (mdl4BuildMaterial os b).2.Sound ∧ (mdl4BuildMaterial os b).2.object.Counted ↔ b.Sound ∧ Mdl4ParamsThere os b.source := by
  rcases mdl4BuildMaterial_cases os b hb with ⟨e, r1, b1, hhead, hrun, -, hcount, hlog⟩ | ⟨head, r1, hhead, habsent, hpresent⟩
  · have hthere : Mdl4ParamsThere os b.source := fun head r' h => by rw [hhead] at h; cases h
    have hcounted : b1.object.Counted := by
      rw [Mdl4MaterialObject.Counted, hcount]
      exact Nat.zero_le _
    rw [hrun, and_iff_left hthere, and_iff_left hcounted, Sound, hlog]
    rfl
  have hthere : Mdl4ParamsThere os b.source ↔ ¬ head.ParamsAbsent r1 := by
    refine ⟨fun h => h head r1 hhead, fun h head' r' heq => ?_⟩
    rw [hhead] at heq
    cases heq
    exact h
  rw [hthere]
  by_cases hparams : head.ParamsAbsent r1
  · rw [habsent hparams]
    refine iff_of_false (fun h => ?_) fun h => h.2 hparams
    have hcount : head.paramCount.toNat ≤ 0 := h.2
    have hpos : 0 < head.paramCount.toNat := UInt8.lt_iff_toNat_lt.1 hparams.1
    omega
  · rw [hpresent hparams, and_iff_left hparams]
    exact mdl4FillParams_sound os head _ List.length_replicate rfl

theorem mdl4_material_ok (b : Built BinaryReader Mdl4MaterialObject) (hb : b.object = zeroMdl4Material)
    (hrun : (mdl4BuildMaterial os b).1 = .ok ()) : Mdl4ParamsThere os b.source := by
  intro head r' hhead hparams
  rcases mdl4BuildMaterial_cases os b hb with ⟨e, r1, b1, hhead', -⟩ | ⟨head', r1, hhead', habsent, -⟩
  · rw [hhead] at hhead'
    cases hhead'
  · rw [hhead] at hhead'
    cases hhead'
    rw [habsent hparams] at hrun
    cases hrun

end

end SoulsFormats
