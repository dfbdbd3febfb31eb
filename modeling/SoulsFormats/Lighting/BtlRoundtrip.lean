import SoulsFormats.Core.Fields
import SoulsFormats.Lighting.Btl

set_option autoImplicit false

/-! # Reading lights back

The writer states the size of a light that belongs to the version, but writes offsets of the width that was
read; the reader takes the width from the stated size. From version 16 on the two agree only if the offsets are
long. -/

namespace SoulsFormats

open Bytes Fallible

/-! ## What is stored -/

def btlRgbBytes (c : SfColor) : List UInt8 := [c.r] ++ ([c.g] ++ [c.b])

def rgbaBytes (c : SfColor) : List UInt8 := [c.r] ++ ([c.g] ++ ([c.b] ++ [c.a]))

def btlColorsBytes (l : BtlLightColors) : List UInt8 :=
  wordBytes false 4 l.type.toUInt32.toNat ++ ([if l.unk1c then 1 else 0] ++ (btlRgbBytes l.diffuseColor ++
    (wordBytes false 4 l.diffusePower.toNat ++ (btlRgbBytes l.specularColor ++ ([if l.castShadows then 1 else 0] ++
      (wordBytes false 4 l.specularPower.toNat ++ (wordBytes false 4 l.coneAngle.toNat ++
        (wordBytes false 4 l.unk30.toNat ++ (wordBytes false 4 l.unk34.toNat ++ (vec3Bytes false l.position ++
          (vec3Bytes false l.rotation ++ (wordBytes false 4 l.unk50.toUInt32.toNat ++
            (wordBytes false 4 l.unk54.toNat ++ (wordBytes false 4 l.radius.toNat ++
              wordBytes false 4 l.unk5c.toUInt32.toNat))))))))))))))

def btlFlickerBytes (l : BtlLightFlicker) : List UInt8 :=
  l.unk64.1 ++ (wordBytes false 4 l.unk68.toNat ++ (rgbaBytes l.shadowColor ++ (wordBytes false 4 l.unk70.toNat ++
    (wordBytes false 4 l.flickerIntervalMin.toNat ++ (wordBytes false 4 l.flickerIntervalMax.toNat ++
      (wordBytes false 4 l.flickerBrightnessMult.toNat ++ (wordBytes false 4 l.unk80.toUInt32.toNat ++
        (l.unk84.1 ++ wordBytes false 4 l.unk88.toNat))))))))

def btlClipBytes (l : BtlLightClip) : List UInt8 :=
  wordBytes false 4 l.unk90.toNat ++ (wordBytes false 4 (0 : Int32).toUInt32.toNat ++
    (wordBytes false 4 l.unk98.toNat ++ (wordBytes false 4 l.nearClip.toNat ++ (l.unkA0.1 ++
      (wordBytes false 4 l.sharpness.toNat ++ (wordBytes false 4 (0 : Int32).toUInt32.toNat ++
        wordBytes false 4 l.unkAc.toNat))))))

def btlWidthBytes (l : BtlLightWidth) : List UInt8 :=
  wordBytes false 4 l.width.toNat ++ (wordBytes false 4 l.unkBc.toNat ++ (l.unkC0.1 ++ wordBytes false 4 l.unkC4.toNat))

def btlTailBytes (l : BtlLightTail) : List UInt8 :=
  wordBytes false 4 l.unkC8.toNat ++ (wordBytes false 4 l.unkCc.toNat ++ (wordBytes false 4 l.unkD0.toNat ++
    (wordBytes false 4 l.unkD4.toNat ++ (wordBytes false 4 l.unkD8.toNat ++
      (wordBytes false 4 l.unkDc.toUInt32.toNat ++ (wordBytes false 4 l.unkE0.toNat ++
        wordBytes false 4 l.unkE4.toUInt32.toNat))))))

/-- A light whose name starts at `off` in the section of the names. -/
def btlLightBytes (version : Int32) (long : Bool) (l : BtlLight) (off : Int64) : List UInt8 :=
  l.unk00.1 ++ (BinaryWriter.scalarBytes false long .varint off ++ (btlColorsBytes l.toBtlLightColors ++
    (wordBytes false 4 (0 : Int32).toUInt32.toNat ++ (btlFlickerBytes l.toBtlLightFlicker ++
      (wordBytes false 4 (0 : Int32).toUInt32.toNat ++ (btlClipBytes l.toBtlLightClip ++
        (BinaryWriter.scalarBytes false long .varint 0 ++ (btlWidthBytes l.toBtlLightWidth ++
          (if 16 ≤ version.toInt then btlTailBytes l.toBtlLightTail else [])))))))))

/-- A name that starts at `off` in its section, and the zeros behind it. -/
def btlNameBytes (os : Win32) (l : BtlLight) (off : Nat) : List UInt8 :=
  storedText os true false l.name ++ List.replicate (btlNamePad off) 0

/-- The lights, and where the section of the names that reaches `off` puts their names. -/
def btlPlaced (os : Win32) : Nat → List BtlLight → List (BtlLight × Nat)
  | _, [] => []
  | off, l :: rest => (l, off) :: btlPlaced os (off + (btlNameBytes os l off).length) rest

def btlNamesBytes (os : Win32) (lights : List BtlLight) : List UInt8 :=
  (btlPlaced os 0 lights).flatMap fun e => btlNameBytes os e.1 e.2

def btlLightsBytes (os : Win32) (b : Btl) : List UInt8 :=
  (btlPlaced os 0 b.lights).flatMap fun e => btlLightBytes b.version b.longOffsets e.1 (Int64.ofNat e.2)

/-- The image of some lights. -/
def btlBytes (os : Win32) (b : Btl) : List UInt8 :=
  wordBytes false 4 (2 : Int32).toUInt32.toNat ++ (wordBytes false 4 b.version.toUInt32.toNat ++
    (wordBytes false 4 (Int32.ofNat b.lights.length).toUInt32.toNat ++
      (wordBytes false 4 (Int32.ofNat (btlNamesBytes os b.lights).length).toUInt32.toNat ++
        (wordBytes false 4 (0 : Int32).toUInt32.toNat ++ (wordBytes false 4 (btlLightSize b).toUInt32.toNat ++
          (List.replicate 0x24 0 ++ (btlNamesBytes os b.lights ++ btlLightsBytes os b)))))))

theorem length_btlLightBytes (version : Int32) (long : Bool) (l : BtlLight) (off : Int64) :
    (btlLightBytes version long l off).length
      = 0xB8 + (if long then 16 else 8) + (if 16 ≤ version.toInt then 32 else 0) := by
  have htail : (if 16 ≤ version.toInt then btlTailBytes l.toBtlLightTail else []).length
      = if 16 ≤ version.toInt then 32 else 0 := by
    split
    · simp only [btlTailBytes, List.length_append, length_wordBytes]
    · rfl
  have hvarint : ∀ v : Int64, (BinaryWriter.scalarBytes false long .varint v).length = if long then 8 else 4 := by
    intro v
    rw [BinaryWriter.length_scalarBytes]
    cases long <;> rfl
  simp only [btlLightBytes, btlColorsBytes, btlRgbBytes, btlFlickerBytes, rgbaBytes, btlClipBytes, btlWidthBytes,
    List.length_append, length_wordBytes, length_vec3Bytes, List.length_singleton, htail, hvarint, l.unk00.2, l.unk64.2,
    l.unk84.2, l.unkA0.2, l.unkC0.2]
  cases long <;> simp <;> omega

theorem map_fst_btlPlaced (os : Win32) (off : Nat) (lights : List BtlLight) :
    (btlPlaced os off lights).map Prod.fst = lights := by
  induction lights generalizing off with
  | nil => rfl
  | cons l rest ih => rw [btlPlaced, List.map_cons, ih]

theorem length_btlPlaced (os : Win32) (off : Nat) (lights : List BtlLight) :
    (btlPlaced os off lights).length = lights.length := by
  rw [← List.length_map Prod.fst, map_fst_btlPlaced]

/-! ## Writing -/

section Writing

open BinaryWriter

/-- The word for the length of the section of the names. -/
def btlSlots : FileSlots Unit where
  key _ := (cstr "NamesLength", .i32)
  addr _ := 12
  key_inj _ _ _ := rfl

section

variable {σ : Type} {S : FileSlots σ} {os : Win32} {long : Bool}

theorem delivers_btlWriteRgb (c : SfColor) : Delivers S false long (btlWriteRgb c) (btlRgbBytes c) :=
  (delivers_u8 _).then ((delivers_u8 _).then (delivers_u8 _))

theorem delivers_writeRgba (c : SfColor) : Delivers S false long (writeRgba c) (rgbaBytes c) :=
  (delivers_u8 _).then ((delivers_u8 _).then ((delivers_u8 _).then (delivers_u8 _)))

theorem delivers_btlWriteColors (l : BtlLightColors) :
    Delivers S false long (btlWriteColors l) (btlColorsBytes l) :=
  (delivers_u32 _).then ((delivers_bool _).then ((delivers_btlWriteRgb _).then ((delivers_f32 _).then
    ((delivers_btlWriteRgb _).then ((delivers_bool _).then ((delivers_f32 _).then ((delivers_f32 _).then
      ((delivers_f32 _).then ((delivers_f32 _).then ((delivers_vec3 _).then ((delivers_vec3 _).then
        ((delivers_i32 _).then ((delivers_f32 _).then ((delivers_f32 _).then (delivers_i32 _)))))))))))))))

theorem delivers_btlWriteFlicker (l : BtlLightFlicker) :
    Delivers S false long (btlWriteFlicker l) (btlFlickerBytes l) :=
  (delivers_bytes _).then ((delivers_f32 _).then ((delivers_writeRgba _).then ((delivers_f32 _).then
    ((delivers_f32 _).then ((delivers_f32 _).then ((delivers_f32 _).then ((delivers_i32 _).then
      ((delivers_bytes _).then (delivers_f32 _)))))))))

theorem delivers_btlWriteClip (l : BtlLightClip) : Delivers S false long (btlWriteClip l) (btlClipBytes l) :=
  (delivers_f32 _).then ((delivers_i32 _).then ((delivers_f32 _).then ((delivers_f32 _).then
    ((delivers_bytes _).then ((delivers_f32 _).then ((delivers_i32 _).then (delivers_f32 _)))))))

theorem delivers_btlWriteWidth (l : BtlLightWidth) : Delivers S false long (btlWriteWidth l) (btlWidthBytes l) :=
  (delivers_f32 _).then ((delivers_f32 _).then ((delivers_bytes _).then (delivers_f32 _)))

theorem delivers_btlWriteTail (l : BtlLightTail) : Delivers S false long (btlWriteTail l) (btlTailBytes l) :=
  (delivers_f32 _).then ((delivers_f32 _).then ((delivers_f32 _).then ((delivers_f32 _).then
    ((delivers_f32 _).then ((delivers_i32 _).then ((delivers_f32 _).then (delivers_i32 _)))))))

theorem delivers_btlWriteLight (version : Int32) (l : BtlLight) (off : Int64) :
    Delivers S false long (btlWriteLight version l off) (btlLightBytes version long l off) := by
  refine (delivers_bytes _).then ((delivers_varint _).then ((delivers_btlWriteColors _).then ((delivers_i32 _).then
    ((delivers_btlWriteFlicker _).then ((delivers_i32 _).then ((delivers_btlWriteClip _).then
      ((delivers_varint _).then ((delivers_btlWriteWidth _).then ?_))))))))
  by_cases hv : 16 ≤ version.toInt
  · rw [if_pos hv]
    exact Delivers.given (fun _ => delivers_btlWriteTail _) fun h => absurd hv (of_decide_eq_false h)
  · rw [if_neg hv]
    exact Delivers.given (fun h => absurd (of_decide_eq_true h) hv) fun _ => rfl

/-- The names start at `start`; one that comes at `off` behind it is put there. -/
theorem makes_btlWriteName {l : BtlLight} (hl : WideNameFits os l.name) (start off : Nat) (live : Set σ)
    (hfit : start + off + (btlNameBytes os l off).length ≤ fileRoom) :
    Makes S (btlWriteName os start l) ⟨start + off, false, long⟩ live
      (fun v st live' => v = Int64.ofNat off ∧ st = ⟨start + off + (btlNameBytes os l off).length, false, long⟩ ∧
        live' = live)
      fun _ _ B => Holds B (start + off) (btlNameBytes os l off) := by
  have hoff : start + off - start = off := Nat.add_sub_cancel_left ..
  have hname : Delivers S false long (writeUtf16 os (some l.name) true) (storedText os true false l.name) :=
    delivers_utf16 hl
  have hpad : Delivers S false long
      (Fallible.given (decide (off % 0x10 ≠ 0)) () (writePattern (btlNamePad off) 0))
      (List.replicate (btlNamePad off) 0) := by
    refine Delivers.given (fun _ => delivers_pattern _ _) fun h => ?_
    have hzero : off % 0x10 = 0 := by simpa using h
    rw [btlNamePad, if_pos hzero]
    rfl
  unfold btlWriteName
  refine Makes.position ?_
  rw [hoff]
  rw [btlNameBytes, List.length_append] at hfit ⊢
  refine Makes.piece hname (by omega) (Makes.piece hpad (by omega) (Makes.done ⟨rfl, ?_, rfl⟩ fun B hpad hname => ?_))
  · rw [Nat.add_assoc (start + off)]
  · exact holds_append.2 ⟨hname, hpad⟩

theorem makes_btlWriteNames {lights : List BtlLight} (hlights : ∀ l ∈ lights, WideNameFits os l.name)
    (start off : Nat) (live : Set σ)
    (hfit : start + off + ((btlPlaced os off lights).flatMap fun e => btlNameBytes os e.1 e.2).length ≤ fileRoom) :
    Makes S (noteEach (btlWriteName os start) lights) ⟨start + off, false, long⟩ live
      (fun vs st live' => vs = (btlPlaced os off lights).map (fun e => Int64.ofNat e.2) ∧
        st = ⟨start + off + ((btlPlaced os off lights).flatMap fun e => btlNameBytes os e.1 e.2).length, false, long⟩ ∧
        live' = live)
      fun _ _ B => Holds B (start + off) ((btlPlaced os off lights).flatMap fun e => btlNameBytes os e.1 e.2) := by
  induction lights generalizing off with
  | nil => exact Makes.here (Makes.done ⟨rfl, rfl, rfl⟩ fun B hB => holds_nil.2 hB)
  | cons l rest ih =>
      have hfirst : ((btlPlaced os off (l :: rest)).flatMap fun e => btlNameBytes os e.1 e.2)
          = btlNameBytes os l off ++ (btlPlaced os (off + (btlNameBytes os l off).length) rest).flatMap
            fun e => btlNameBytes os e.1 e.2 := List.flatMap_cons
      rw [hfirst, List.length_append] at hfit ⊢
      refine (makes_btlWriteName (hlights l List.mem_cons_self) start off live (by omega)).seq fun v st live' h => ?_
      obtain ⟨rfl, rfl, rfl⟩ := h
      have hrest := ih (fun k hk => hlights k (List.mem_cons_of_mem l hk)) (off + (btlNameBytes os l off).length)
        (by omega)
      rw [← Nat.add_assoc] at hrest
      refine hrest.seq fun vs st live' h => ?_
      obtain ⟨rfl, rfl, rfl⟩ := h
      refine Makes.done ⟨rfl, ?_, rfl⟩ fun B hB hfirst => holds_append.2 ⟨hfirst, hB⟩
      rw [Nat.add_assoc (start + off)]

end

variable {os : Win32} {b : Btl}

theorem length_btlBytes (os : Win32) (b : Btl) :
    (btlBytes os b).length = 60 + (btlNamesBytes os b.lights).length + (btlLightsBytes os b).length := by
  simp only [btlBytes, List.length_append, length_wordBytes, List.length_replicate]
  omega

/-- A block that may be asked for. -/
theorem Makes.givenAlloc {σ β : Type} {S : FileSlots σ} {c : Bool} {st : Stand} {live : Set σ} {f : Unit → WriteM β}
    {Q : β → Stand → Set σ → Prop} {G : β → Stand → List UInt8 → Prop} (hf : Makes S (f ()) st live Q G) :
    Makes S (Fallible.given c () (onHeap Heap.alloc >>= fun _ => pure ()) >>= f) st live Q G := by
  cases c with
  | true =>
      have h : Makes S (onHeap Heap.alloc >>= fun _ => f ()) st live Q G := Makes.alloc fun _ => hf
      rwa [Fallible.given, if_pos rfl, bind_assoc]
  | false => exact hf

/-- The table of the lights, whose offsets were noted. -/
theorem delivers_btlWriteLights {σ : Type} {S : FileSlots σ} (os : Win32) (b : Btl) :
    Delivers S false b.longOffsets (writeEach (fun l => btlWriteLight b.version l.1 l.2)
      (b.lights.zip ((btlPlaced os 0 b.lights).map fun e => Int64.ofNat e.2))) (btlLightsBytes os b) := by
  have hzip : b.lights.zip ((btlPlaced os 0 b.lights).map fun e => Int64.ofNat e.2)
      = (btlPlaced os 0 b.lights).map fun e => (e.1, Int64.ofNat e.2) := by
    have hfst := map_fst_btlPlaced os 0 b.lights
    conv_lhs => arg 1; rw [← hfst]
    exact List.zip_map'
  have hbytes : btlLightsBytes os b = ((btlPlaced os 0 b.lights).map fun e => (e.1, Int64.ofNat e.2)).flatMap
      fun l => btlLightBytes b.version b.longOffsets l.1 l.2 := by
    rw [List.flatMap_map]
    rfl
  rw [hzip, hbytes]
  exact delivers_each _ fun l _ => delivers_btlWriteLight b.version l.1 l.2

theorem makes_btlWrite (hnames : ∀ l ∈ b.lights, WideNameFits os l.name) (hsize : (btlBytes os b).length < 2 ^ 31) :
    Makes btlSlots (btlWrite os b) ⟨0, false, false⟩ ∅
      (fun _ st live => st = ⟨(btlBytes os b).length, false, b.longOffsets⟩ ∧ live = ∅)
      fun _ _ B => Holds B 0 (btlBytes os b) := by
  have hroom : fileRoom = 2 ^ 40 := rfl
  have hlen := length_btlBytes os b
  have hnamesRun : Makes btlSlots (noteEach (btlWriteName os 60) b.lights) ⟨60 + 0, false, b.longOffsets⟩ {()} _ _ :=
    makes_btlWriteNames hnames 60 0 {()} (show 60 + 0 + (btlNamesBytes os b.lights).length ≤ fileRoom by omega)
  refine Makes.setVarintLong (Makes.i32 (by omega) (Makes.i32 (by omega) (Makes.i32 (by omega) ?_)))
  refine Makes.reserveI32 () rfl rfl (Set.notMem_empty _) (by omega) (Makes.i32 (by omega) (Makes.i32 (by omega) ?_))
  rw [insert_empty_eq]
  refine Makes.piece (delivers_pattern 0x24 0) (by rw [List.length_replicate]; omega) (Makes.position ?_)
  rw [List.length_replicate]
  refine Makes.givenAlloc (hnamesRun.seq fun offs st live h => ?_)
  obtain ⟨rfl, rfl, rfl⟩ := h
  refine Makes.position (Makes.fillI32 () rfl rfl ?_)
  refine Makes.last (Makes.piece (delivers_btlWriteLights os b) ?_ (Makes.done ⟨?_, Set.sdiff_self⟩ ?_))
  · show 60 + 0 + (btlNamesBytes os b.lights).length + (btlLightsBytes os b).length ≤ fileRoom
    omega
  · show Stand.mk (60 + 0 + (btlNamesBytes os b.lights).length + (btlLightsBytes os b).length) false b.longOffsets = _
    rw [hlen, Nat.add_zero]
  · intro B hlights hfill hnames hpattern hstated hzero hcount hversion htwo
    have hlength : 60 + 0 + (btlNamesBytes os b.lights).length - 60 = (btlNamesBytes os b.lights).length := by omega
    unfold btlBytes
    simp only [holds_append, length_wordBytes, List.length_replicate]
    refine ⟨htwo, hversion, hcount, ?_, hzero, hstated, hpattern, hnames, hlights⟩
    rw [← hlength]
    exact hfill

/-- **Lights with names that fit are written**, and what is written is their image. -/
theorem btlWriteToBuffer_ok (hnames : ∀ l ∈ b.lights, WideNameFits os l.name)
    (hsize : (btlBytes os b).length < 2 ^ 31) {heap : Heap} (hcalm : heap.Calm) :
    (btlWriteToBuffer os b heap).1 = .ok (btlBytes os b) := by
  obtain ⟨out, st, hrun, ⟨rfl, -⟩, hout, hlen⟩ := (makes_btlWrite hnames hsize).toMemory (fun _ _ h => h.2) hcalm
  have hall := hout.take_drop
  simp only at hlen
  rw [List.drop_zero, ← hlen, List.take_length] at hall
  rw [btlWriteToBuffer, hrun, hall]

end Writing

/-! ## What was read -/

/-- What the reader leaves at a constant. -/
structure BtlLight.Accepted (version : Int32) (l : BtlLight) : Prop where
  diffuse : l.diffuseColor.a = 255
  specular : l.specularColor.a = 255
  tail : ¬ 16 ≤ version.toInt → l.toBtlLightTail = {}

section Accepted

open BinaryReader

theorem returns_btlReadRgb : Returns btlReadRgb fun c => c.a = 255 :=
  Returns.after fun _ => Returns.after fun _ => Returns.after fun _ => Returns.pure rfl

theorem returns_btlReadColors : Returns btlReadColors fun l => l.diffuseColor.a = 255 ∧ l.specularColor.a = 255 := by
  refine Returns.after fun _ => Returns.after fun _ => returns_btlReadRgb.bind fun _ hdiffuse => Returns.after fun _ =>
    returns_btlReadRgb.bind fun _ hspecular => ?_
  iterate 11 refine Returns.after fun _ => ?_
  exact Returns.pure ⟨hdiffuse, hspecular⟩

theorem returns_btlReadLight (version : Int32) : Returns (btlReadLight version) fun e => e.1.Accepted version := by
  refine Returns.after fun _ => Returns.after fun _ => returns_btlReadColors.bind fun _ hcolors => ?_
  iterate 6 refine Returns.after fun _ => ?_
  refine (Returns.given (Q := fun t => ¬ 16 ≤ version.toInt → t = {})
    (fun hv => (Returns.trivial _).mono fun _ _ hno => absurd (of_decide_eq_true hv) hno) fun _ _ => rfl).bind
      fun _ htail => Returns.pure ⟨hcolors.1, hcolors.2, htail⟩

theorem returns_btlReadNames (os : Win32) (namesBuf : List UInt8) (version : Int32) (lights : List (BtlLight × Int64))
    (hlights : ∀ e ∈ lights, e.1.Accepted version) :
    Returns (btlReadNames os namesBuf lights) fun ls => ∀ l ∈ ls, l.Accepted version := by
  induction lights with
  | nil => exact Returns.pure (by simp)
  | cons e rest ih =>
      refine Returns.check fun _ => Returns.after fun _ =>
        (ih fun k hk => hlights k (List.mem_cons_of_mem e hk)).bind fun ls hls => Returns.pure ?_
      have he := hlights e List.mem_cons_self
      simpa using ⟨⟨he.diffuse, he.specular, he.tail⟩, hls⟩

theorem returns_btlReadBody (os : Win32) (version : Int32) (long : Bool) (lightCount namesLength : Nat) :
    Returns (btlReadBody os version long lightCount namesLength) fun b =>
      b.version = version ∧ b.longOffsets = long ∧ ∀ l ∈ b.lights, l.Accepted version := by
  refine Returns.after fun _ => Returns.after fun _ => Returns.after fun _ => ?_
  refine (returns_readEach (returns_btlReadLight version) lightCount).bind fun lights hlights => Returns.after fun _ => ?_
  refine (returns_btlReadNames os _ version lights hlights.2).bind fun ls hls => Returns.after fun _ => ?_
  exact Returns.pure ⟨rfl, rfl, hls⟩

theorem accepts_btlReadVersion (M : Mode) :
    Accepts M btlReadVersion fun v => M.isFlexible = false → v ∈ btlVersions := by
  intro r hr v r' hrun
  rw [btlReadVersion, attempt_bind_run] at hrun
  rcases hread : assertI32 btlVersions r with ⟨e | u, r1⟩ <;> rw [hread] at hrun <;> cases hrun
  exact accepts_assert btlVersions r hr v _ hread

instance : Modeless btlReadVersion := by
  have hrest : ∀ v : Except SfError Int32, Modeless (match v with
      | .ok v => pure v
      | .error _ => fail .unsupportedVersion : ReadM Int32) := by
    intro v
    cases v <;> infer_instance
  unfold btlReadVersion
  infer_instance

/-- What an accepted file decodes to. -/
theorem btlReadFromMemory_accepted {os : Win32} {flexible : Bool} {data : List UInt8} {heap : Heap} {b : Btl}
    (hread : (btlReadFromMemory os flexible data heap).1 = .ok b) :
    (flexible = false → b.version ∈ btlVersions) ∧ ∀ l ∈ b.lights, l.Accepted b.version := by
  obtain ⟨heap', r', hrun, -⟩ := onMemory_eq_ok hread
  have haccepts : Accepts ⟨false, false, flexible⟩ (btlRead os) fun b =>
      (flexible = false → b.version ∈ btlVersions) ∧ ∀ l ∈ b.lights, l.Accepted b.version := by
    refine Accepts.after fun _ => (accepts_btlReadVersion _).bind fun version hversion => ?_
    have hrest : Returns (do
        let lightCount ← readI32
        let namesLength ← readI32
        let _ ← assertI32 [0]
        let lightSize ← assertI32 [0xC0, 0xC8, 0xE8]
        assertPattern 0x24 0
        setVarintLong (lightSize ≠ 0xC0)
        check (0 ≤ lightCount.toInt ∧ 0 ≤ namesLength.toInt) .badMagic
        btlReadBody os version (lightSize ≠ 0xC0) lightCount.toInt.toNat namesLength.toInt.toNat) fun b =>
          b.version = version ∧ ∀ l ∈ b.lights, l.Accepted version := by
      iterate 6 refine Returns.after fun _ => ?_
      exact Returns.check fun _ => (returns_btlReadBody os version _ _ _).mono fun b hb => ⟨hb.1, hb.2.2⟩
    intro r _ b r' hrun
    obtain ⟨rfl, hlights⟩ := hrest r b r' hrun
    exact ⟨hversion, hlights⟩
  exact haccepts _ rfl b r' hrun

end Accepted

/-! ## Reading back -/

section Reading

open BinaryReader

variable {os : Win32} {be : Bool}

theorem readsBack_btlReadRgb {c : SfColor} (hc : c.a = 255) : ReadsBack be btlReadRgb (btlRgbBytes c) c := by
  obtain ⟨a, r, g, b⟩ := c
  cases hc
  exact (readsBack_u8 _).bind ((readsBack_u8 _).bind ((readsBack_u8 _).last _ rfl))

theorem readsBack_readRgba (c : SfColor) : ReadsBack be readRgba (rgbaBytes c) c :=
  (readsBack_u8 _).bind ((readsBack_u8 _).bind ((readsBack_u8 _).bind ((readsBack_u8 _).last _ rfl)))

theorem readsBack_readFixedBytes {n : Nat} (v : FixedBytes n) : ReadsBack be (readFixedBytes n) v.1 v := by
  have h : ReadsBack be (readBytes v.1.length) v.1 v.1 := readsBack_bytes v.1
  rw [v.2] at h
  exact h.last _ (FixedBytes.ofList_val v)

theorem readsBack_btlReadType (t : BtlLightType) : ReadsBack be btlReadType (wordBytes be 4 t.toUInt32.toNat) t := by
  unfold btlReadType
  rw [← List.append_nil (wordBytes be 4 t.toUInt32.toNat)]
  refine (readsBack_u32 t.toUInt32).bind ?_
  rw [BtlLightType.ofUInt32_toUInt32]
  exact ReadsBack.pure t

theorem readsBack_btlReadColors {l : BtlLightColors} (hdiffuse : l.diffuseColor.a = 255)
    (hspecular : l.specularColor.a = 255) : ReadsBack false btlReadColors (btlColorsBytes l) l :=
  (readsBack_btlReadType _).bind ((readsBack_bool _).bind ((readsBack_btlReadRgb hdiffuse).bind
    ((readsBack_f32 _).bind ((readsBack_btlReadRgb hspecular).bind ((readsBack_bool _).bind ((readsBack_f32 _).bind
      ((readsBack_f32 _).bind ((readsBack_f32 _).bind ((readsBack_f32 _).bind ((readsBack_vec3 _).bind
        ((readsBack_vec3 _).bind ((readsBack_i32 _).bind ((readsBack_f32 _).bind ((readsBack_f32 _).bind
          ((readsBack_i32 _).last _ rfl)))))))))))))))

theorem readsBack_btlReadFlicker (l : BtlLightFlicker) : ReadsBack false btlReadFlicker (btlFlickerBytes l) l :=
  (readsBack_readFixedBytes _).bind ((readsBack_f32 _).bind ((readsBack_readRgba _).bind ((readsBack_f32 _).bind
    ((readsBack_f32 _).bind ((readsBack_f32 _).bind ((readsBack_f32 _).bind ((readsBack_i32 _).bind
      ((readsBack_readFixedBytes _).bind ((readsBack_f32 _).last _ rfl)))))))))

/-- A word that is always zero. -/
theorem readsBack_zero : ReadsBack be (assertI32 [0]) (wordBytes be 4 (0 : Int32).toUInt32.toNat) 0 :=
  (readsBack_i32 0).assert List.mem_cons_self

theorem readsBack_btlReadClip (l : BtlLightClip) : ReadsBack false btlReadClip (btlClipBytes l) l :=
  (readsBack_f32 _).bind (readsBack_zero.bind ((readsBack_f32 _).bind ((readsBack_f32 _).bind
    ((readsBack_readFixedBytes _).bind ((readsBack_f32 _).bind (readsBack_zero.bind ((readsBack_f32 _).last _ rfl)))))))

theorem readsBack_btlReadWidth (l : BtlLightWidth) : ReadsBack false btlReadWidth (btlWidthBytes l) l :=
  (readsBack_f32 _).bind ((readsBack_f32 _).bind ((readsBack_readFixedBytes _).bind ((readsBack_f32 _).last _ rfl)))

theorem readsBack_btlReadTail (l : BtlLightTail) : ReadsBack false btlReadTail (btlTailBytes l) l :=
  (readsBack_f32 _).bind ((readsBack_f32 _).bind ((readsBack_f32 _).bind ((readsBack_f32 _).bind
    ((readsBack_f32 _).bind ((readsBack_i32 _).bind ((readsBack_f32 _).bind ((readsBack_i32 _).last _ rfl)))))))

/-- What the first pass reads of a light. -/
def BtlLight.unnamed (l : BtlLight) : BtlLight := { l with name := [] }

theorem parses_btlReadLight {version : Int32} {l : BtlLight} (hl : l.Accepted version) {off : Int64} (c : Cursor)
    (hc : c.bigEndian = false) (hoff : VarintFits c.varintLong off) :
    Parses (btlReadLight version) c (btlLightBytes version c.varintLong l off) (l.unnamed, off) := by
  obtain ⟨mem, pos, be, long, steps, flex⟩ := c
  cases hc
  have hvarint : ∀ (p : Nat) {v : Int64}, VarintFits long v → Parses readVarint ⟨mem, p, false, long, steps, flex⟩
      (BinaryWriter.scalarBytes false long .varint v) v :=
    fun p _ hv => parses_varint_of_fits ⟨mem, p, false, long, steps, flex⟩ hv
  have htail : ReadsBack false (Fallible.given (decide (16 ≤ version.toInt)) {} btlReadTail)
      (if 16 ≤ version.toInt then btlTailBytes l.toBtlLightTail else []) l.toBtlLightTail := by
    by_cases hv : 16 ≤ version.toInt
    · rw [if_pos hv, decide_eq_true hv]
      exact readsBack_btlReadTail l.toBtlLightTail
    · rw [if_neg hv, decide_eq_false hv, hl.tail hv]
      exact ReadsBack.pure _
  refine (readsBack_readFixedBytes l.unk00 _ rfl).bind ((hvarint _ hoff).bind ?_)
  refine (readsBack_btlReadColors hl.diffuse hl.specular _ rfl).bind ((readsBack_zero _ rfl).bind ?_)
  refine (readsBack_btlReadFlicker _ _ rfl).bind ((readsBack_zero _ rfl).bind ((readsBack_btlReadClip _ _ rfl).bind ?_))
  refine (parses_assert (hvarint _ (varintFits_ofNat (by decide) _)) List.mem_cons_self).bind ?_
  exact (readsBack_btlReadWidth _ _ rfl).bind ((htail _ rfl).map _)

/-- The loop over a name stops at the terminator. -/
theorem btlCutName_unitBytes {us : List UInt16} (hus : ∀ u ∈ us, u ≠ 0) (rest : List UInt8) :
    btlCutName (unitBytes false us ++ 0 :: 0 :: rest) = unitBytes false us := by
  induction us with
  | nil => simp [btlCutName]
  | cons u us ih =>
      obtain ⟨x, y, hword⟩ : ∃ x y, wordBytes false 2 u.toNat = [x, y] := ⟨_, _, rfl⟩
      have hne : ¬ (x = 0 ∧ y = 0) := by
        rintro ⟨rfl, rfl⟩
        have hnat := congrArg (wordNat false) hword
        rw [wordNat_wordBytes] at hnat
        have hlt := u.toNat_lt
        have hzero : wordNat false [0, 0] = 0 := rfl
        refine hus u List.mem_cons_self (UInt16.toNat_inj.1 ?_)
        show u.toNat = 0
        omega
      rw [unitBytes_cons, hword, List.append_assoc, List.cons_append, List.cons_append, List.nil_append, btlCutName,
        if_neg hne, ih fun v hv => hus v (List.mem_cons_of_mem u hv)]
      rfl

/-- The names of some lights, each where its offset says. -/
theorem reads_btlReadNames {namesBuf : List UInt8} (hbuf : namesBuf.length < 2 ^ 31) (es : List (BtlLight × Nat))
    (hes : ∀ e ∈ es, WideNameFits os e.1.name ∧ Holds namesBuf e.2 (btlNameBytes os e.1 e.2)) (c : Cursor) :
    Reads (btlReadNames os namesBuf (es.map fun e => (e.1.unnamed, Int64.ofNat e.2))) c (es.map Prod.fst) c := by
  induction es with
  | nil => exact Reads.pure _ _
  | cons e es ih =>
      obtain ⟨l, off⟩ := e
      obtain ⟨hname, hheld⟩ := hes (l, off) List.mem_cons_self
      have hle := hheld.le
      simp only [btlNameBytes, storedText, if_true, List.length_append, length_unitBytes] at hle
      have hmax : INT32_MAX = 2 ^ 31 - 1 := rfl
      have hint : (Int64.ofNat off).toInt = off := int64_toInt_ofNat (by omega)
      have hcut : btlCutName (namesBuf.drop off) = unitBytes false (os.units l.name) := by
        obtain ⟨before, after, hsplit, rfl⟩ := hheld
        rw [hsplit, List.append_assoc, List.drop_left]
        simp only [btlNameBytes, storedText, if_true, List.append_assoc, List.cons_append, List.nil_append]
        exact btlCutName_unitBytes hname.fits.noNul' _
      have hdecode : granted (utf16leToUtf8 os (unitBytes false (os.units l.name))) = some l.name :=
        granted_utf16ToUtf8 hname.fits (by omega)
      rw [List.map_cons, btlReadNames]
      refine Reads.check (by rw [hint]; omega) ?_
      rw [hint, Int.toNat_natCast, hcut]
      refine (reads_onHeap (utf16ToUtf8_steady os false _) hdecode c).bind ?_
      refine (ih fun e he => hes e (List.mem_cons_of_mem _ he)).bind ?_
      rw [cText_eq_self hname.fits.noNul]
      exact Reads.pure _ c

theorem holds_btlPlaced {namesBuf : List UInt8} (off : Nat) (lights : List BtlLight)
    (h : Holds namesBuf off ((btlPlaced os off lights).flatMap fun e => btlNameBytes os e.1 e.2)) :
    ∀ e ∈ btlPlaced os off lights, e.1 ∈ lights ∧ Holds namesBuf e.2 (btlNameBytes os e.1 e.2) := by
  induction lights generalizing off with
  | nil => simp [btlPlaced]
  | cons l rest ih =>
      rw [btlPlaced, List.flatMap_cons, holds_append] at h
      intro e he
      rcases List.mem_cons.1 he with rfl | he
      · exact ⟨List.mem_cons_self, h.1⟩
      · obtain ⟨hmem, hheld⟩ := ih _ h.2 e he
        exact ⟨List.mem_cons_of_mem l hmem, hheld⟩

theorem reads_btlAllocLights (n : Nat) (c : Cursor) : Reads (btlAllocLights n) c () c := by
  unfold btlAllocLights
  by_cases hn : 0 < n
  · rw [decide_eq_true hn]
    exact reads_alloc c fun _ => reads_alloc c fun _ => Reads.pure () c
  · rw [decide_eq_false hn]
    exact Reads.pure () c

theorem reads_btlReadBody {B : List UInt8} {pos : Nat} {b : Btl} (flex : Bool) (hB : B.length < 2 ^ 31)
    (hnames : ∀ l ∈ b.lights, WideNameFits os l.name) (hlights : ∀ l ∈ b.lights, l.Accepted b.version)
    (h : Holds B pos (btlNamesBytes os b.lights ++ btlLightsBytes os b)) :
    ∃ c, Reads (btlReadBody os b.version b.longOffsets b.lights.length (btlNamesBytes os b.lights).length)
      ⟨B, pos, false, b.longOffsets, [], flex⟩ b c := by
  obtain ⟨hheldNames, hheldLights⟩ := holds_append.1 h
  have hleNames := hheldNames.le
  have hplaced := holds_btlPlaced 0 b.lights (holds_self (btlNamesBytes os b.lights))
  refine ⟨⟨B, pos + (btlNamesBytes os b.lights).length + (btlLightsBytes os b).length, false, b.longOffsets, [], flex⟩, ?_⟩
  have hbytes : Reads (Fallible.given (decide (0 < (btlNamesBytes os b.lights).length)) []
      (onHeap Heap.alloc >>= fun _ => readBytes (btlNamesBytes os b.lights).length))
      ⟨B, pos, false, b.longOffsets, [], flex⟩ (btlNamesBytes os b.lights)
      ⟨B, pos + (btlNamesBytes os b.lights).length, false, b.longOffsets, [], flex⟩ := by
    by_cases hpos : 0 < (btlNamesBytes os b.lights).length
    · rw [decide_eq_true hpos]
      exact reads_alloc _ fun _ => parses_bytes _ _ hheldNames
    · have hnil : btlNamesBytes os b.lights = [] := by simpa using hpos
      rw [hnil]
      exact Reads.pure _ _
  have hread : Reads (readEach (btlReadLight b.version) b.lights.length)
      ⟨B, pos + (btlNamesBytes os b.lights).length, false, b.longOffsets, [], flex⟩
      ((btlPlaced os 0 b.lights).map fun e => (e.1.unnamed, Int64.ofNat e.2))
      ⟨B, pos + (btlNamesBytes os b.lights).length + (btlLightsBytes os b).length, false, b.longOffsets, [], flex⟩ := by
    rw [← length_btlPlaced os 0 b.lights]
    refine parses_readEach (btlPlaced os 0 b.lights) (fun e he c hbe hlong => ?_) hheldLights
    obtain ⟨hmem, hheld⟩ := hplaced e he
    have hoff : e.2 < 2 ^ 31 := by
      have hle := hheld.le
      omega
    have hparsed := parses_btlReadLight (hlights e.1 hmem) c hbe (varintFits_ofNat hoff c.varintLong)
    rwa [hlong] at hparsed
  refine hbytes.bind (reads_alloc _ fun _ => (reads_btlAllocLights _ _).bind (hread.bind ?_))
  have hgiven : ∀ (d : Bool) (c : Cursor), Reads (Fallible.given d () (onHeap Heap.allocBoth)) c () c := by
    intro d c
    cases d with
    | true => exact Reads.last (reads_allocBoth c (Reads.pure () c))
    | false => exact Reads.pure () c
  refine (hgiven _ _).bind ?_
  refine (reads_btlReadNames (by omega) (btlPlaced os 0 b.lights) (fun e he => ?_) _).bind ?_
  · obtain ⟨hmem, hheld⟩ := hplaced e he
    exact ⟨hnames e.1 hmem, hheld⟩
  · rw [map_fst_btlPlaced]
    exact (reads_givenAlloc _ _).bind (Reads.pure _ _)

/-- What the reader does with the header. -/
theorem leads_btlRead (os : Win32) {b : Btl} (flex : Bool) (hsize : (btlBytes os b).length < 2 ^ 31)
    (hversion : flex = false → b.version ∈ btlVersions) (hcount : b.lights.length ≤ INT32_MAX) :
    Leads (btlRead os) ⟨btlBytes os b, 0, false, false, [], flex⟩
      (btlReadBody os b.version (btlLightSize b ≠ 0xC0) b.lights.length (btlNamesBytes os b.lights).length)
      ⟨btlBytes os b, 60, false, btlLightSize b ≠ 0xC0, [], flex⟩ := by
  have hlen := length_btlBytes os b
  have hmax : INT32_MAX = 2 ^ 31 - 1 := rfl
  have hheld : Holds (btlBytes os b) 0 (btlBytes os b) := holds_self _
  conv at hheld => arg 3; unfold btlBytes
  simp only [holds_append, length_wordBytes, List.length_replicate] at hheld
  obtain ⟨htwo, hver, hn, hnamesLength, hzero, hstated, hpattern, -, -⟩ := hheld
  have hword : ∀ {p : Nat} {v : Int32}, Holds (btlBytes os b) p (wordBytes false 4 v.toUInt32.toNat) →
      Reads readI32 ⟨btlBytes os b, p, false, false, [], flex⟩ v ⟨btlBytes os b, p + 4, false, false, [], flex⟩ :=
    fun h => Reads.last (Reads.i32 h (Reads.pure _ _))
  have hassert : ∀ {p : Nat} {v : Int32} {options : List Int32}, options ≠ [] → (flex = false → v ∈ options) →
      Holds (btlBytes os b) p (wordBytes false 4 v.toUInt32.toNat) → Reads (assertI32 options)
        ⟨btlBytes os b, p, false, false, [], flex⟩ v ⟨btlBytes os b, p + 4, false, false, [], flex⟩ := by
    intro p v options hne hv h
    have hparsed := parses_asserted (parses_i32 ⟨btlBytes os b, p, false, false, [], flex⟩ v) hne hv h
    rwa [length_wordBytes] at hparsed
  have hlight : btlLightSize b ∈ ([0xC0, 0xC8, 0xE8] : List Int32) := by
    unfold btlLightSize
    split
    · decide
    · split <;> decide
  have hreadVersion : Reads btlReadVersion ⟨btlBytes os b, 4, false, false, [], flex⟩ b.version
      ⟨btlBytes os b, 8, false, false, [], flex⟩ :=
    (hassert (by decide) hversion hver).attempt.bind (Reads.pure _ _)
  have hpad : Reads (assertPattern 0x24 0) ⟨btlBytes os b, 24, false, false, [], flex⟩ ()
      ⟨btlBytes os b, 60, false, false, [], flex⟩ := readsBack_pattern 0x24 0 _ rfl hpattern
  have hlong : Reads (setVarintLong (btlLightSize b ≠ 0xC0)) ⟨btlBytes os b, 60, false, false, [], flex⟩ ()
      ⟨btlBytes os b, 60, false, btlLightSize b ≠ 0xC0, [], flex⟩ := Reads.setVarintLong _ _
  have hcountInt : (Int32.ofNat b.lights.length).toInt = b.lights.length := int32_toInt_ofNat hcount
  have hnamesInt : (Int32.ofNat (btlNamesBytes os b.lights).length).toInt = (btlNamesBytes os b.lights).length :=
    int32_toInt_ofNat (by omega)
  refine (hassert (by decide) (fun _ => List.mem_cons_self) htwo).leads (hreadVersion.leads ((hword hn).leads ?_))
  refine (hword hnamesLength).leads ((hassert (by decide) (fun _ => List.mem_cons_self) hzero).leads ?_)
  refine (hassert (by decide) (fun _ => hlight) hstated).leads (hpad.leads (hlong.leads ?_))
  rw [hcountInt, hnamesInt]
  exact Leads.check ⟨Int.natCast_nonneg _, Int.natCast_nonneg _⟩ (Leads.refl _ _)

/-! ## What the reader needs -/

variable {M : Mode}

theorem spans_btlReadRgb : Spans M btlReadRgb 3 := by
  have h : Spans M btlReadRgb (1 + (1 + 1)) := spans_u8.bind fun _ => spans_u8.bind fun _ => spans_u8.last _
  exact h

theorem spans_readRgba : Spans M readRgba 4 := by
  have h : Spans M readRgba (1 + (1 + (1 + 1))) :=
    spans_u8.bind fun _ => spans_u8.bind fun _ => spans_u8.bind fun _ => spans_u8.last _
  exact h

theorem spans_readFixedBytes (n : Nat) : Spans M (readFixedBytes n) n := (spans_bytes n).last _

theorem spans_btlReadType : Spans M btlReadType 4 := by
  have h : Spans M btlReadType (4 + 0) := by
    refine spans_u32.bind fun v => ?_
    split
    · exact Spans.pure _
    · exact spans_fail _
  exact h

theorem spans_btlReadColors : Spans M btlReadColors 72 := by
  have h : Spans M btlReadColors
      (4 + (1 + (3 + (4 + (3 + (1 + (4 + (4 + (4 + (4 + (12 + (12 + (4 + (4 + (4 + 4))))))))))))))) :=
    spans_btlReadType.bind fun _ => spans_bool.bind fun _ => spans_btlReadRgb.bind fun _ => spans_f32.bind fun _ =>
      spans_btlReadRgb.bind fun _ => spans_bool.bind fun _ => spans_f32.bind fun _ => spans_f32.bind fun _ =>
        spans_f32.bind fun _ => spans_f32.bind fun _ => spans_vec3.bind fun _ => spans_vec3.bind fun _ =>
          spans_i32.bind fun _ => spans_f32.bind fun _ => spans_f32.bind fun _ => spans_i32.last _
  exact h

theorem spans_btlReadFlicker : Spans M btlReadFlicker 40 := by
  have h : Spans M btlReadFlicker (4 + (4 + (4 + (4 + (4 + (4 + (4 + (4 + (4 + 4))))))))) :=
    (spans_readFixedBytes 4).bind fun _ => spans_f32.bind fun _ => spans_readRgba.bind fun _ => spans_f32.bind fun _ =>
      spans_f32.bind fun _ => spans_f32.bind fun _ => spans_f32.bind fun _ => spans_i32.bind fun _ =>
        (spans_readFixedBytes 4).bind fun _ => spans_f32.last _
  exact h

theorem spans_btlReadClip : Spans M btlReadClip 32 := by
  have h : Spans M btlReadClip (4 + (4 + (4 + (4 + (4 + (4 + (4 + 4))))))) :=
    spans_f32.bind fun _ => (spans_assert spans_i32).bind fun _ => spans_f32.bind fun _ => spans_f32.bind fun _ =>
      (spans_readFixedBytes 4).bind fun _ => spans_f32.bind fun _ => (spans_assert spans_i32).bind fun _ =>
        spans_f32.last _
  exact h

theorem spans_btlReadWidth : Spans M btlReadWidth 16 := by
  have h : Spans M btlReadWidth (4 + (4 + (4 + 4))) :=
    spans_f32.bind fun _ => spans_f32.bind fun _ => (spans_readFixedBytes 4).bind fun _ => spans_f32.last _
  exact h

theorem spans_btlReadTail : Spans M btlReadTail 32 := by
  have h : Spans M btlReadTail (4 + (4 + (4 + (4 + (4 + (4 + (4 + 4))))))) :=
    spans_f32.bind fun _ => spans_f32.bind fun _ => spans_f32.bind fun _ => spans_f32.bind fun _ =>
      spans_f32.bind fun _ => spans_i32.bind fun _ => spans_f32.bind fun _ => spans_i32.last _
  exact h

theorem spans_btlReadLight {version : Int32} (hversion : 16 ≤ version.toInt) (hlong : M.varintLong = true) :
    Spans M (btlReadLight version) 0xE8 := by
  have hvarint : Spans M readVarint 8 := by
    have h := spans_varint (M := M)
    rwa [hlong] at h
  have htail : Spans M (Fallible.given (decide (16 ≤ version.toInt)) {} btlReadTail) 32 := by
    rw [decide_eq_true hversion]
    exact spans_btlReadTail
  have h : Spans M (btlReadLight version) (16 + (8 + (72 + (4 + (40 + (4 + (32 + (8 + (16 + 32))))))))) :=
    (spans_readFixedBytes 16).bind fun _ => hvarint.bind fun _ => spans_btlReadColors.bind fun _ =>
      (spans_assert spans_i32).bind fun _ => spans_btlReadFlicker.bind fun _ => (spans_assert spans_i32).bind fun _ =>
        spans_btlReadClip.bind fun _ => (spans_assert hvarint).bind fun _ => spans_btlReadWidth.bind fun _ =>
          htail.last _
  exact h

theorem spans_btlReadNames (namesBuf : List UInt8) (lights : List (BtlLight × Int64)) :
    Spans M (btlReadNames os namesBuf lights) 0 := by
  induction lights with
  | nil => exact Spans.pure _
  | cons e rest ih => exact Spans.check (Spans.onHeap fun _ => ih.last _)

/-- From version 16 on, with long offsets. -/
theorem spans_btlReadBody {version : Int32} {long : Bool} (hversion : 16 ≤ version.toInt) (hlong : M.varintLong = true)
    (lightCount namesLength : Nat) :
    Spans M (btlReadBody os version long lightCount namesLength) (namesLength + lightCount * 0xE8) := by
  have hnamesBuf : Spans M (Fallible.given (decide (0 < namesLength)) []
      (onHeap Heap.alloc >>= fun _ => readBytes namesLength)) namesLength := by
    by_cases hpos : 0 < namesLength
    · rw [decide_eq_true hpos]
      exact Spans.onHeap fun _ => spans_bytes namesLength
    · rw [decide_eq_false hpos, Nat.eq_zero_of_not_pos hpos]
      exact Spans.pure []
  have hnone : ∀ (d : Bool) {α : Type} {conv : Fallible Heap SfError α} {f : α → ReadM Unit},
      (∀ a, Spans M (f a) 0) → Spans M (Fallible.given d () (onHeap conv >>= f)) 0 := by
    intro d α conv f hf
    cases d with
    | true => exact Spans.onHeap hf
    | false => exact Spans.pure ()
  have hlights : Spans M (readEach (btlReadLight version) lightCount) (lightCount * 0xE8) :=
    spans_each (spans_btlReadLight hversion hlong) lightCount
  have h : Spans M (btlReadBody os version long lightCount namesLength)
      (namesLength + (0 + (lightCount * 0xE8 + (0 + (0 + (0 + 0)))))) := by
    refine hnamesBuf.bind fun namesBuf => Spans.onHeap fun _ => ?_
    refine (hnone _ fun _ => Spans.onHeap fun _ => Spans.pure _).bind fun _ => hlights.bind fun lights => ?_
    refine (?_ : Spans M (Fallible.given _ () (onHeap Heap.allocBoth)) 0).bind fun _ => ?_
    · have hboth : Spans M (Fallible.given (decide (0 < lightCount)) () (onHeap Heap.allocBoth >>= pure)) 0 :=
        hnone _ Spans.pure
      rwa [bind_pure] at hboth
    · exact (spans_btlReadNames namesBuf lights).bind fun _ => (hnone _ fun _ => Spans.pure _).bind fun _ => Spans.pure _
  rwa [Nat.zero_add, Nat.add_zero] at h

end Reading

/-! ## What comes back -/

section

open BinaryReader

variable {os : Win32} {b : Btl} {flexible : Bool} {heap : Heap}

/-- The stated size of a light shows the width of the offsets. -/
theorem btlLightSize_eq_short : btlLightSize b = 0xC0 ↔ b.version.toInt < 16 ∧ b.longOffsets = false := by
  unfold btlLightSize
  by_cases hversion : 16 ≤ b.version.toInt
  · rw [if_pos hversion]
    exact ⟨fun h => absurd h (by decide), fun h => absurd h.1 (by omega)⟩
  · rw [if_neg hversion]
    cases b.longOffsets
    · simp
      omega
    · simp

theorem length_lights_le (os : Win32) (b : Btl) : b.lights.length ≤ (btlBytes os b).length := by
  have hlights : (btlLightsBytes os b).length
      = (btlPlaced os 0 b.lights).length * (0xB8 + (if b.longOffsets then 16 else 8)
        + (if 16 ≤ b.version.toInt then 32 else 0)) :=
    length_flatMap_const _ fun e _ => length_btlLightBytes ..
  rw [length_btlPlaced] at hlights
  have hlen := length_btlBytes os b
  have hle : b.lights.length * 1 ≤ (btlLightsBytes os b).length := by
    rw [hlights]
    exact Nat.mul_le_mul_left _ (by omega)
  omega

theorem btlReadFromMemory_ok (hnames : ∀ l ∈ b.lights, WideNameFits os l.name)
    (hversion : flexible = false → b.version ∈ btlVersions) (hlights : ∀ l ∈ b.lights, l.Accepted b.version)
    (hsize : (btlBytes os b).length < 2 ^ 31) (hcalm : heap.Calm)
    (hagree : b.version.toInt < 16 ∨ b.longOffsets = true ∨ b.lights = []) :
    ∃ b', (btlReadFromMemory os flexible (btlBytes os b) heap).1 = .ok b' ∧ b'.version = b.version ∧
      b'.lights = b.lights := by
  have hmax : INT32_MAX = 2 ^ 31 - 1 := rfl
  have hcount := length_lights_le os b
  have hlong : b.lights = [] ∨ decide (btlLightSize b ≠ 0xC0) = b.longOffsets := by
    rw [or_iff_not_imp_left]
    intro hne
    have hshort := btlLightSize_eq_short (b := b)
    cases hb : b.longOffsets <;> simp_all
  have hsame : btlLightsBytes os { b with longOffsets := decide (btlLightSize b ≠ 0xC0) } = btlLightsBytes os b := by
    rcases hlong with hnil | hlong
    · simp [btlLightsBytes, hnil, btlPlaced]
    · rw [hlong]
  have hheld : Holds (btlBytes os b) 60 (btlNamesBytes os b.lights ++ btlLightsBytes os b) := by
    have hall : Holds (btlBytes os b) 0 (btlBytes os b) := holds_self _
    conv at hall => arg 3; unfold btlBytes
    simp only [holds_append, length_wordBytes, List.length_replicate] at hall
    exact holds_append.2 hall.2.2.2.2.2.2.2
  rw [← hsame] at hheld
  have hlead := leads_btlRead os flexible hsize hversion (by omega)
  obtain ⟨c, hbody⟩ := reads_btlReadBody (b := { b with longOffsets := decide (btlLightSize b ≠ 0xC0) }) flexible hsize
    hnames hlights hheld
  obtain ⟨heap', hrun, -⟩ := onMemory_ok (hlead.reads hbody) hcalm
  exact ⟨_, congrArg Prod.fst hrun, rfl, rfl⟩

/-- Where the light is stated to be longer than it is, the last lights are not there. -/
theorem btlReadFromMemory_fails (hversion : flexible = false → b.version ∈ btlVersions)
    (hsize : (btlBytes os b).length < 2 ^ 31) (hcalm : heap.Calm)
    (hdiffer : ¬ (b.version.toInt < 16 ∨ b.longOffsets = true ∨ b.lights = [])) (b' : Btl) :
    (btlReadFromMemory os flexible (btlBytes os b) heap).1 ≠ .ok b' := by
  intro hread
  have hmax : INT32_MAX = 2 ^ 31 - 1 := rfl
  simp only [not_or, Int.not_lt, Bool.not_eq_true] at hdiffer
  obtain ⟨hsixteen, hshort, hne⟩ := hdiffer
  have hstated : decide (btlLightSize b ≠ 0xC0) = true := by
    rw [decide_eq_true_iff, Ne, btlLightSize_eq_short]
    omega
  have hlights : (btlLightsBytes os b).length = (btlPlaced os 0 b.lights).length * 0xE0 := by
    refine length_flatMap_const _ fun e _ => ?_
    rw [length_btlLightBytes, hshort, if_pos hsixteen]
    rfl
  rw [length_btlPlaced] at hlights
  have hlen := length_btlBytes os b
  have hcount := length_lights_le os b
  have hpos := List.length_pos_iff.2 hne
  obtain ⟨heap', r', hrun, hcalm'⟩ := onMemory_eq_ok hread
  obtain ⟨r1, hbody, hr1, -⟩ := leads_btlRead os flexible hsize hversion (by omega)
    (create (btlBytes os b) false flexible heap') rfl (hcalm' hcalm)
  rw [hbody] at hrun
  have hmem : r1.stream.mem = btlBytes os b := congrArg Cursor.mem hr1
  have hat : r1.position = 60 := congrArg Cursor.pos hr1
  have hlong : r1.mode.varintLong = true := (congrArg Cursor.varintLong hr1).trans hstated
  have hroom := (spans_btlReadBody hsixteen hlong b.lights.length (btlNamesBytes os b.lights).length).room rfl
    (by rw [hat, hmem]; omega) hrun
  rw [hat, hmem] at hroom
  omega

/-- **What was read is written, and the reader takes it back exactly if** the version is below 16, the offsets are
    long or there is no light. -/
theorem btl_round_trips_iff (os : Win32) (flexible : Bool) (data : List UInt8) (b : Btl) (heap heap1 heap2 : Heap)
    (hread : (btlReadFromMemory os flexible data heap).1 = .ok b) (hnames : ∀ l ∈ b.lights, WideNameFits os l.name)
    (hsize : (btlBytes os b).length < 2 ^ 31) (hcalm1 : heap1.Calm) (hcalm2 : heap2.Calm) :
    ∃ out, (btlWriteToBuffer os b heap1).1 = .ok out ∧ out = btlBytes os b ∧
      ((∃ b', (btlReadFromMemory os flexible out heap2).1 = .ok b' ∧ b'.version = b.version ∧ b'.lights = b.lights) ↔
        b.version.toInt < 16 ∨ b.longOffsets = true ∨ b.lights = []) := by
  obtain ⟨hversion, hlights⟩ := btlReadFromMemory_accepted hread
  refine ⟨_, btlWriteToBuffer_ok hnames hsize hcalm1, rfl, ?_, ?_⟩
  · rintro ⟨b', hb', -, -⟩
    by_contra hdiffer
    exact btlReadFromMemory_fails hversion hsize hcalm2 hdiffer b' hb'
  · exact btlReadFromMemory_ok hnames hversion hlights hsize hcalm2

/-- A file with the given version and one light, whose bytes are all zero, with offsets of four bytes. -/
def btlDarkFile (version : Int32) : List UInt8 :=
  wordBytes false 4 2 ++ wordBytes false 4 version.toUInt32.toNat ++ wordBytes false 4 1 ++ wordBytes false 4 2 ++
    wordBytes false 4 0 ++ wordBytes false 4 0xC0 ++ List.replicate (0x24 + 2 + if 16 ≤ version.toInt then 0xE0 else 0xC0) 0

/-- What it decodes to. -/
def btlDark (version : Int32) : Btl :=
  let none : FixedBytes 4 := ⟨[0, 0, 0, 0], rfl⟩
  ⟨version, false, [⟨⟨.point, false, ⟨255, 0, 0, 0⟩, 0, ⟨255, 0, 0, 0⟩, false, 0, 0, 0, 0, ⟨0, 0, 0⟩, ⟨0, 0, 0⟩, 0, 0,
    0, 0⟩, ⟨none, 0, ⟨0, 0, 0, 0⟩, 0, 0, 0, 0, 0, none, 0⟩, ⟨0, 0, 0, none, 0, 0⟩, ⟨0, 0, none, 0⟩, {},
    ⟨List.replicate 16 0, rfl⟩, []⟩]⟩

theorem btlDark_named (version : Int32) : ∀ l ∈ (btlDark version).lights, WideNameFits Win32.ascii l.name := by
  have hnil : WideNameFits Win32.ascii [] := .plain Win32.ascii_compatible rfl (by decide)
  simpa [btlDark] using hnil

/-- A lamp and a sun of version 16, with values in all fields. -/
def btlLit : Btl :=
  let lamp : BtlLight :=
    ⟨⟨.point, true, ⟨255, 10, 20, 30⟩, 0x3F800000, ⟨255, 40, 50, 60⟩, true, 1, 2, 3, 4, ⟨5, 6, 7⟩, ⟨8, 9, 10⟩, -11, 12,
      13, -14⟩, ⟨⟨[1, 2, 3, 4], rfl⟩, 15, ⟨16, 17, 18, 19⟩, 20, 21, 22, 23, -24, ⟨[5, 6, 7, 8], rfl⟩, 25⟩,
      ⟨26, 27, 28, ⟨[9, 0, 1, 2], rfl⟩, 29, 30⟩, ⟨31, 32, ⟨[3, 4, 5, 6], rfl⟩, 33⟩, ⟨34, 35, 36, 37, 38, -39, 40, -41⟩,
      ⟨List.replicate 16 42, rfl⟩, cstr "Lamp"⟩
  ⟨16, true, [lamp, { lamp with type := .directional, radius := 43, name := cstr "Sun" }]⟩

theorem btlLit_named : ∀ l ∈ btlLit.lights, WideNameFits Win32.ascii l.name := by
  intro l hl
  simp only [btlLit, List.mem_cons, List.not_mem_nil, or_false] at hl
  rcases hl with rfl | rfl <;> exact .plain Win32.ascii_compatible (by decide) (by decide)

theorem btl_lit_round_trips :
    ∃ out, (btlWriteToBuffer Win32.ascii btlLit []).1 = .ok out ∧
      ∃ b', (btlReadFromMemory Win32.ascii false out []).1 = .ok b' ∧ b'.version = 16 ∧ b'.lights = btlLit.lights := by
  obtain ⟨out, hwrite, -, hiff⟩ := btl_round_trips_iff Win32.ascii false (btlBytes Win32.ascii btlLit) btlLit [] [] []
    (by decide +kernel) btlLit_named (by decide +kernel) Heap.calm_nil Heap.calm_nil
  exact ⟨out, hwrite, hiff.2 (.inr (.inl rfl))⟩

/-- A file of version 16 with offsets of four bytes. -/
theorem btl_short_offsets_not_read_back :
    (btlReadFromMemory Win32.ascii false (btlDarkFile 16) []).1 = .ok (btlDark 16) ∧
      ∃ out, (btlWriteToBuffer Win32.ascii (btlDark 16) []).1 = .ok out ∧ out.length < 2 ^ 31 ∧
        ∀ b', (btlReadFromMemory Win32.ascii false out []).1 ≠ .ok b' := by
  have hsize : (btlBytes Win32.ascii (btlDark 16)).length < 2 ^ 31 := by decide +kernel
  refine ⟨by decide +kernel, _, btlWriteToBuffer_ok (btlDark_named 16) hsize Heap.calm_nil, hsize, fun b' => ?_⟩
  exact btlReadFromMemory_fails (by decide) hsize Heap.calm_nil (by decide) b'

end

end SoulsFormats
