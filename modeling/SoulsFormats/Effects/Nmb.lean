import SoulsFormats.Core.Result
import SoulsFormats.Library.Careful

set_option autoImplicit false

/-! # NMB bundle files

The scan of `nmb.c` for bundles. Lengths and positions are `size_t`, whose sums and differences wrap; what is read of
the input is read byte by byte at a position that is checked against its end. -/

namespace SoulsFormats

open Bytes Fallible

/-! ## Words of the machine -/

/-- A sum of `size_t`. -/
def sizeAdd (a b : Nat) : Nat := (a + b) % 2 ^ 64

/-- A difference of `size_t`. -/
def sizeSub (a b : Nat) : Nat := (a + (2 ^ 64 - b)) % 2 ^ 64

theorem sizeAdd_eq {a b : Nat} (h : a + b < 2 ^ 64) : sizeAdd a b = a + b := Nat.mod_eq_of_lt h

theorem sizeSub_eq {a b : Nat} (hle : b ≤ a) (ha : a < 2 ^ 64) : sizeSub a b = a - b := by
  unfold sizeSub
  omega

/-- `nmb_read_u32_at`. -/
def nmbReadU32At (bytes : List UInt8) (p : Nat) (bigEndian : Bool) : Except SfError Nat :=
  if p + 4 ≤ bytes.length then .ok (wordNat bigEndian ((bytes.drop p).take 4)) else .error .undefinedBehaviour

/-- `nmb_read_u64_at`: the halves, the one with the high bits first. -/
def nmbReadU64At (bytes : List UInt8) (p : Nat) (bigEndian : Bool) : Except SfError Nat := do
  let first ← nmbReadU32At bytes p bigEndian
  let second ← nmbReadU32At bytes (p + 4) bigEndian
  pure (if bigEndian then first * 2 ^ 32 + second else first + second * 2 ^ 32)

/-- `nmb_checked_add`. -/
def nmbCheckedAdd (a b : Nat) : Option Nat := if sizeSub SIZE_MAX b < a then none else some (sizeAdd a b)

/-- `nmb_align_up`. -/
def nmbAlignUp (value alignment : Nat) : Option Nat :=
  if alignment ≤ 1 then some value
  else if value % alignment = 0 then some value
  else nmbCheckedAdd value (alignment - value % alignment)

/-- `nmb_magic_at`: the byte order, if there is a magic among the `size` bytes at `p`. -/
def nmbMagicAt (bytes : List UInt8) (p size : Nat) : Except SfError (Option Bool) :=
  if size < 8 then pure none
  else do
    let firstLe ← nmbReadU32At bytes p false
    let secondLe ← nmbReadU32At bytes (p + 4) false
    if firstLe = 0x18 ∧ (secondLe = 0x6 ∨ secondLe = 0xA) then pure (some false)
    else do
      let firstBe ← nmbReadU32At bytes p true
      let secondBe ← nmbReadU32At bytes (p + 4) true
      if firstBe = 0x18 ∧ (secondBe = 0x6 ∨ secondBe = 0xA) then pure (some true) else pure none

/-! ## Layouts -/

/-- `NMB_MIN_BUNDLE_PREFIX_SIZE`. -/
def nmbMinBundlePrefixSize : Nat := 32

/-- `nmb_bundle_layout_t`. -/
structure NmbBundleLayout where
  dataOffset : Nat
  dataSize : Nat
  nextOffset : Nat
deriving DecidableEq, Repr

/-- A row of `candidates`. -/
structure NmbCandidate where
  varintSize : Nat
  hasX64FormatTag : Bool
  promptStyle : Bool

def nmbCandidates : List NmbCandidate := [⟨8, true, false⟩, ⟨4, false, false⟩, ⟨4, false, true⟩, ⟨8, false, true⟩]

section

variable (bytes : List UInt8)

/-- The part of `nmb_try_layout` that reads the alignment and passes over what follows it. -/
def nmbAlignment (cursor : Nat) (bigEndian : Bool) (c : NmbCandidate) : Except SfError (Option (Nat × Nat)) :=
  let size := bytes.length
  if c.promptStyle ∧ c.varintSize = 8 then
    if sizeSub size 8 < cursor then pure none
    else do
      let alignment ← nmbReadU64At bytes cursor bigEndian
      let cursor := sizeAdd cursor 8
      if sizeSub size 8 < cursor then pure none
      else
        let cursor := sizeAdd cursor 8
        if sizeSub size 4 < cursor then pure none else pure (some (alignment, sizeAdd cursor 4))
  else if c.promptStyle then
    if sizeSub size 12 < cursor then pure none
    else do
      let alignment ← nmbReadU32At bytes cursor bigEndian
      pure (some (alignment, sizeAdd cursor 12))
  else
    if sizeSub size 4 < cursor then pure none
    else do
      let alignment ← nmbReadU32At bytes cursor bigEndian
      let cursor := sizeAdd cursor 4
      if c.hasX64FormatTag then
        if sizeSub size 4 < cursor then pure none else pure (some (alignment, sizeAdd cursor 4))
      else pure (some (alignment, cursor))

/-- The part of `nmb_try_layout` that follows the header, which ends at `cursor`. -/
def nmbPlace (cursor alignment dataSize : Nat) : Option NmbBundleLayout :=
  if INT32_MAX < alignment then none
  else
    match nmbAlignUp cursor alignment with
    | none => none
    | some dataOffset =>
      match nmbCheckedAdd dataOffset dataSize with
      | none => none
      | some nextOffset => if bytes.length < nextOffset then none else some ⟨dataOffset, dataSize, nextOffset⟩

/-- The length of the data, a varint. -/
def nmbDataSizeAt (cursor : Nat) (bigEndian : Bool) (c : NmbCandidate) : Except SfError Nat :=
  if c.varintSize = 8 then nmbReadU64At bytes cursor bigEndian else nmbReadU32At bytes cursor bigEndian

/-- `nmb_try_layout`. -/
def nmbTryLayout (bundleOffset : Nat) (bigEndian : Bool) (c : NmbCandidate) :
    Except SfError (Option NmbBundleLayout) :=
  let size := bytes.length
  let cursor := sizeAdd bundleOffset nmbMinBundlePrefixSize
  if size < cursor then pure none
  else if sizeSub size (if c.varintSize = 8 then 8 else 4) < cursor then pure none
  else do
    let dataSize ← nmbDataSizeAt bytes cursor bigEndian c
    if SIZE_MAX < dataSize then pure none
    else do
      let header ← nmbAlignment bytes (sizeAdd cursor c.varintSize) bigEndian c
      match header with
      | none => pure none
      | some (alignment, cursor) => pure (nmbPlace bytes cursor alignment dataSize)

/-- The loop of `nmb_parse_layout`. -/
def nmbParseLayout (bundleOffset : Nat) (bigEndian : Bool) :
    List NmbCandidate → Except SfError (Option NmbBundleLayout)
  | [] => pure none
  | c :: cs => do
    let size := bytes.length
    let candidate ← nmbTryLayout bytes bundleOffset bigEndian c
    match candidate with
    | none => nmbParseLayout bundleOffset bigEndian cs
    | some candidate =>
      if sizeSub size 0xC ≤ candidate.nextOffset ∨ candidate.nextOffset = size then pure (some candidate)
      else do
        let magic ← nmbMagicAt bytes candidate.nextOffset (sizeSub size candidate.nextOffset)
        match magic with
        | some _ => pure (some candidate)
        | none => nmbParseLayout bundleOffset bigEndian cs

/-! ## Reading -/

/-- `sf_nmb_bundle_t`; its data are those of the raw copy from `dataOffset` on. -/
structure NmbBundle where
  type : UInt32
  rawOffset : Nat
  rawSize : Nat
  dataOffset : Nat
  dataSize : Nat
deriving DecidableEq, Repr

/-- `sf_nmb_t`. -/
structure Nmb where
  raw : List UInt8
  bundles : List NmbBundle
deriving DecidableEq, Repr

/-- The growth in `nmb_push_bundle`: the capacity afterwards. -/
def nmbPushBundle (count capacity : Nat) : Fallible Heap SfError Nat :=
  if count = capacity then do
    let newCapacity := if capacity = 0 then 4 else sizeAdd capacity capacity
    check (capacity ≤ newCapacity) .outOfRange
    let _ ← Heap.alloc
    pure newCapacity
  else pure capacity

/-- The loop of `sf_nmb_read_from_memory`, with `count` bundles pushed. A bundle takes at least the bytes of its
    prefix, so the fuel that the caller gives never runs out. -/
def nmbScan : Nat → Nat → Nat → Nat → Fallible Heap SfError (List NmbBundle)
  | 0, _, _, _ => fail .nonTermination
  | fuel + 1, cursor, count, capacity =>
    let size := bytes.length
    if cursor < size ∧ cursor < sizeSub size 0xC then do
      let magic ← lift (nmbMagicAt bytes cursor (sizeSub size cursor))
      match magic with
      | none => fail .badMagic
      | some bigEndian => do
        let layout ← lift (nmbParseLayout bytes cursor bigEndian nmbCandidates)
        match layout with
        | none => fail .truncated
        | some layout => do
          let type ← lift (nmbReadU32At bytes (sizeAdd cursor 8) bigEndian)
          let capacity ← nmbPushBundle count capacity
          let bundles ← nmbScan fuel layout.nextOffset (count + 1) capacity
          pure (⟨UInt32.ofNat type, cursor, sizeSub layout.nextOffset cursor, layout.dataOffset, layout.dataSize⟩ ::
            bundles)
    else pure []

/-- `sf_nmb_is`. -/
def nmbIs : Except SfError Bool := do
  let magic ← nmbMagicAt bytes 0 bytes.length
  pure magic.isSome

/-- `sf_nmb_read_from_memory`. -/
def nmbReadFromMemory : Fallible Heap SfError Nmb := do
  let is ← lift (nmbIs bytes)
  check (is = true) .badMagic
  let _ ← Heap.alloc
  let _ ← Heap.alloc
  let bundles ← nmbScan bytes (bytes.length + 1) 0 0 0
  pure ⟨bytes, bundles⟩

end

/-! ## What a layout is -/

section

variable {bytes : List UInt8}

theorem nmbReadU32At_ok {p : Nat} (h : p + 4 ≤ bytes.length) (be : Bool) :
    nmbReadU32At bytes p be = .ok (wordNat be ((bytes.drop p).take 4)) := if_pos h

theorem nmbReadU64At_ok {p : Nat} (h : p + 8 ≤ bytes.length) (be : Bool) : ∃ v, nmbReadU64At bytes p be = .ok v := by
  unfold nmbReadU64At
  rw [nmbReadU32At_ok (by omega), nmbReadU32At_ok (by omega)]
  exact ⟨_, rfl⟩

/-- A bundle at `p` starts with a magic in this byte order. -/
def NmbMagic (bytes : List UInt8) (p : Nat) (be : Bool) : Prop :=
  ∃ second, (second = 0x6 ∨ second = 0xA) ∧ Holds bytes p (wordBytes be 4 0x18 ++ wordBytes be 4 second)

theorem nmbMagic_of_words {p : Nat} {be : Bool} (hlen : p + 8 ≤ bytes.length)
    (hfirst : wordNat be ((bytes.drop p).take 4) = 0x18)
    (hsecond : wordNat be ((bytes.drop (p + 4)).take 4) = 0x6 ∨ wordNat be ((bytes.drop (p + 4)).take 4) = 0xA) :
    NmbMagic bytes p be := by
  have hword : ∀ q, q + 4 ≤ bytes.length →
      Holds bytes q (wordBytes be 4 (wordNat be ((bytes.drop q).take 4))) := by
    intro q hq
    obtain ⟨x, hlen4, hx⟩ := exists_holds hq
    rw [← hlen4, hx.take_drop, wordBytes_wordNat]
    exact hx
  refine ⟨_, hsecond, holds_append.2 ⟨hfirst ▸ hword p (by omega), ?_⟩⟩
  rw [length_wordBytes]
  exact hword (p + 4) (by omega)

/-- The search for a magic stays inside the bytes that are left. -/
theorem nmbMagicAt_spec {p size : Nat} (h : p + size ≤ bytes.length) :
    ∃ o, nmbMagicAt bytes p size = .ok o ∧ ∀ be, o = some be → 8 ≤ size ∧ NmbMagic bytes p be := by
  unfold nmbMagicAt
  split
  · exact ⟨none, rfl, nofun⟩
  · next hsize =>
      have hfirst : ∀ be, nmbReadU32At bytes p be = .ok _ := nmbReadU32At_ok (by omega)
      have hsecond : ∀ be, nmbReadU32At bytes (p + 4) be = .ok _ := nmbReadU32At_ok (by omega)
      simp only [hfirst, hsecond, bind, Except.bind, pure, Except.pure]
      split
      · next hle =>
          refine ⟨some false, rfl, ?_⟩
          rintro be ⟨⟩
          exact ⟨by omega, nmbMagic_of_words (by omega) hle.1 hle.2⟩
      · split
        · next hbe =>
            refine ⟨some true, rfl, ?_⟩
            rintro be ⟨⟩
            exact ⟨by omega, nmbMagic_of_words (by omega) hbe.1 hbe.2⟩
        · exact ⟨none, rfl, nofun⟩

theorem nmbCheckedAdd_eq_some {a b c : Nat} (hb : b ≤ SIZE_MAX) (h : nmbCheckedAdd a b = some c) : c = a + b := by
  have hmax : SIZE_MAX = 2 ^ 64 - 1 := rfl
  unfold nmbCheckedAdd at h
  rw [sizeSub_eq hb (by omega)] at h
  split at h
  · cases h
  · next hle =>
      rw [sizeAdd_eq (by omega)] at h
      exact (Option.some.inj h).symm

theorem le_of_nmbAlignUp {value alignment c : Nat} (halign : alignment ≤ INT32_MAX)
    (h : nmbAlignUp value alignment = some c) : value ≤ c := by
  have hmax : INT32_MAX = 2 ^ 31 - 1 := rfl
  have hsize : SIZE_MAX = 2 ^ 64 - 1 := rfl
  unfold nmbAlignUp at h
  split at h
  · exact (Option.some.inj h).le
  · split at h
    · exact (Option.some.inj h).le
    · have hsum := nmbCheckedAdd_eq_some (by omega) h
      omega

/-- What follows the header is behind it and inside the file. -/
theorem nmbPlace_eq_some {cursor alignment dataSize : Nat} {layout : NmbBundleLayout} (hdata : dataSize ≤ SIZE_MAX)
    (h : nmbPlace bytes cursor alignment dataSize = some layout) :
    cursor ≤ layout.dataOffset ∧ layout.dataOffset + layout.dataSize = layout.nextOffset ∧
      layout.nextOffset ≤ bytes.length := by
  unfold nmbPlace at h
  split at h
  · cases h
  · next halign =>
      split at h
      · cases h
      · next dataOffset hup =>
          split at h
          · cases h
          · next nextOffset hadd =>
              split at h
              · cases h
              · next hinside =>
                  cases h
                  have hsum := nmbCheckedAdd_eq_some hdata hadd
                  exact ⟨le_of_nmbAlignUp (by omega) hup, hsum.symm, Nat.le_of_not_lt hinside⟩

/-- A guess that is taken puts the data behind the prefix of the bundle, up to where the next bundle starts. -/
structure NmbBundleLayout.Fits (layout : NmbBundleLayout) (bytes : List UInt8) (bundleOffset : Nat) : Prop where
  prefix_lt : bundleOffset + nmbMinBundlePrefixSize < layout.dataOffset
  data_end : layout.dataOffset + layout.dataSize = layout.nextOffset
  inside : layout.nextOffset ≤ bytes.length

section

variable (hsize : bytes.length < 2 ^ 64)
include hsize

/-- The rest of the header is read inside the file. -/
theorem nmbAlignment_spec {cursor : Nat} (hlow : 32 ≤ cursor) (hhigh : cursor ≤ bytes.length) (be : Bool)
    (c : NmbCandidate) : ∃ o, nmbAlignment bytes cursor be c = .ok o ∧
      ∀ alignment cursor', o = some (alignment, cursor') → cursor < cursor' := by
  have hsub : ∀ n ≤ 32, sizeSub bytes.length n = bytes.length - n := fun n hn => sizeSub_eq (by omega) hsize
  unfold nmbAlignment
  simp only [hsub 8 (by omega), hsub 4 (by omega), hsub 12 (by omega)]
  split
  · split
    · exact ⟨none, rfl, nofun⟩
    · obtain ⟨v, hv⟩ := @nmbReadU64At_ok bytes cursor (by omega) be
      simp only [hv, bind, Except.bind, pure, Except.pure]
      split
      · exact ⟨none, rfl, nofun⟩
      · next hfit =>
          rw [sizeAdd_eq (a := cursor) (by omega)] at hfit
          split
          · exact ⟨none, rfl, nofun⟩
          · next hfit' =>
              rw [sizeAdd_eq (a := cursor) (by omega), sizeAdd_eq (a := cursor + 8) (by omega)] at hfit' ⊢
              refine ⟨_, rfl, ?_⟩
              rintro _ _ ⟨⟩
              rw [sizeAdd_eq (by omega)]
              omega
  · split
    · split
      · exact ⟨none, rfl, nofun⟩
      · rw [nmbReadU32At_ok (by omega)]
        refine ⟨_, rfl, ?_⟩
        rintro _ _ ⟨⟩
        rw [sizeAdd_eq (by omega)]
        omega
    · split
      · exact ⟨none, rfl, nofun⟩
      · rw [nmbReadU32At_ok (by omega), sizeAdd_eq (a := cursor) (by omega)]
        simp only [bind, Except.bind, pure, Except.pure]
        split
        · split
          · exact ⟨none, rfl, nofun⟩
          · refine ⟨_, rfl, ?_⟩
            rintro _ _ ⟨⟩
            rw [sizeAdd_eq (by omega)]
            omega
        · refine ⟨_, rfl, ?_⟩
          rintro _ _ ⟨⟩
          omega

/-- A guess reads nothing outside the file. -/
theorem nmbTryLayout_spec {bundleOffset : Nat} (hroom : bundleOffset + 32 < 2 ^ 64) (be : Bool) {c : NmbCandidate}
    (hc : c.varintSize = 8 ∨ c.varintSize = 4) : ∃ o, nmbTryLayout bytes bundleOffset be c = .ok o ∧
      ∀ layout, o = some layout → layout.Fits bytes bundleOffset := by
  have hmax : SIZE_MAX = 2 ^ 64 - 1 := rfl
  have hwidth : (if c.varintSize = 8 then 8 else 4) = c.varintSize := by
    rcases hc with h | h <;> simp [h]
  unfold nmbTryLayout
  simp only [hwidth, sizeAdd_eq hroom, nmbMinBundlePrefixSize]
  by_cases hpast : bytes.length < bundleOffset + 32
  · rw [if_pos hpast]
    exact ⟨none, rfl, nofun⟩
  · rw [if_neg hpast, sizeSub_eq (by omega) hsize]
    by_cases hshort : bytes.length - c.varintSize < bundleOffset + 32
    · rw [if_pos hshort]
      exact ⟨none, rfl, nofun⟩
    · obtain ⟨dataSize, hread⟩ : ∃ v, nmbDataSizeAt bytes (bundleOffset + 32) be c = .ok v := by
        unfold nmbDataSizeAt
        split
        · exact nmbReadU64At_ok (by omega) be
        · exact ⟨_, nmbReadU32At_ok (by omega) be⟩
      obtain ⟨o, halignment, ho⟩ := @nmbAlignment_spec bytes hsize (bundleOffset + 32 + c.varintSize) (by omega)
        (by omega) be c
      have hnext : sizeAdd (bundleOffset + 32) c.varintSize = bundleOffset + 32 + c.varintSize := sizeAdd_eq (by omega)
      simp only [if_neg hshort, hread, hnext, halignment, bind, Except.bind, pure, Except.pure]
      by_cases hdata : SIZE_MAX < dataSize
      · rw [if_pos hdata]
        exact ⟨none, rfl, nofun⟩
      · rw [if_neg hdata]
        cases o with
        | none => exact ⟨none, rfl, nofun⟩
        | some header =>
            refine ⟨_, rfl, fun layout hlayout => ?_⟩
            obtain ⟨hle, hend, hinside⟩ := nmbPlace_eq_some (Nat.le_of_not_lt hdata) hlayout
            have hlt := ho header.1 header.2 rfl
            exact ⟨by simp only [nmbMinBundlePrefixSize]; omega, hend, hinside⟩

/-- Whichever guess is taken fits, and the look at what comes next stays inside the file. -/
theorem nmbParseLayout_spec {bundleOffset : Nat} (hroom : bundleOffset + 32 < 2 ^ 64) (be : Bool)
    {cs : List NmbCandidate} (hcs : ∀ c ∈ cs, c.varintSize = 8 ∨ c.varintSize = 4) :
    ∃ o, nmbParseLayout bytes bundleOffset be cs = .ok o ∧
      ∀ layout, o = some layout → layout.Fits bytes bundleOffset := by
  induction cs with
  | nil => exact ⟨none, rfl, nofun⟩
  | cons c cs ih =>
      obtain ⟨rest, hrest, hfits⟩ := ih fun c' hc' => hcs c' (List.mem_cons_of_mem c hc')
      obtain ⟨o, htry, ho⟩ := nmbTryLayout_spec hsize hroom be (hcs c List.mem_cons_self)
      unfold nmbParseLayout
      simp only [htry, bind, Except.bind]
      cases o with
      | none => exact ⟨rest, hrest, hfits⟩
      | some candidate =>
          have hcandidate := ho candidate rfl
          have hinside := hcandidate.inside
          have hleft : candidate.nextOffset + sizeSub bytes.length candidate.nextOffset ≤ bytes.length := by
            rw [sizeSub_eq hinside hsize]
            omega
          obtain ⟨magic, hmagic, -⟩ := nmbMagicAt_spec hleft
          by_cases hlast : sizeSub bytes.length 0xC ≤ candidate.nextOffset ∨ candidate.nextOffset = bytes.length
          · simp only [if_pos hlast]
            exact ⟨some candidate, rfl, fun layout hlayout => Option.some.inj hlayout ▸ hcandidate⟩
          · simp only [if_neg hlast, hmagic]
            cases magic with
            | some _ => exact ⟨some candidate, rfl, fun layout hlayout => Option.some.inj hlayout ▸ hcandidate⟩
            | none => exact ⟨rest, hrest, hfits⟩

end

end

/-! ## The bundles tile the file -/

/-- The bundles follow one another from `lo` to `hi`; each starts with a magic, and its data end where it ends. -/
def NmbTiles (bytes : List UInt8) : Nat → List NmbBundle → Nat → Prop
  | lo, [], hi => lo = hi
  | lo, b :: bundles, hi => b.rawOffset = lo ∧ (∃ be, NmbMagic bytes b.rawOffset be) ∧ b.rawOffset < b.dataOffset ∧
      b.dataOffset + b.dataSize = b.rawOffset + b.rawSize ∧ NmbTiles bytes (b.rawOffset + b.rawSize) bundles hi

/-- The errors that only the model has. -/
def SfError.OfModel (e : SfError) : Prop := e = .undefinedBehaviour ∨ e = .nonTermination

theorem careful_alloc : Careful SfError.OfModel Heap.alloc fun _ => True := by
  intro heap
  cases hrun : (Heap.alloc heap).1 with
  | ok junk => trivial
  | error e =>
      obtain ⟨rfl, -⟩ := Heap.alloc_error (Prod.ext hrun rfl)
      rintro (h | h) <;> cases h

theorem careful_nmbPushBundle (count capacity : Nat) :
    Careful SfError.OfModel (nmbPushBundle count capacity) fun _ => True := by
  refine Careful.ite (fun _ => Careful.check ?_ fun _ => ?_) fun _ => Careful.pure trivial
  · rintro (h | h) <;> cases h
  · exact careful_alloc.bind fun _ _ => Careful.pure trivial

theorem nmbCandidates_width : ∀ c ∈ nmbCandidates, c.varintSize = 8 ∨ c.varintSize = 4 := by
  simp [nmbCandidates]

/-- One round of the scan takes a bundle and goes on behind it; the rest of the file measures the fuel. -/
theorem careful_nmbScan {bytes : List UInt8} (hsize : bytes.length + 32 ≤ 2 ^ 64) {fuel cursor : Nat}
    (hcursor : cursor ≤ bytes.length) (hfuel : bytes.length < cursor + fuel) (count capacity : Nat) :
    Careful SfError.OfModel (nmbScan bytes fuel cursor count capacity) fun bundles =>
      ∃ fin, NmbTiles bytes cursor bundles fin ∧ fin ≤ bytes.length ∧ bytes.length - fin < 13 := by
  induction fuel generalizing cursor count capacity with
  | zero => omega
  | succ fuel ih =>
      unfold nmbScan
      refine Careful.ite (fun hgo => ?_) fun hstop => Careful.pure ⟨cursor, rfl, hcursor, ?_⟩
      · have hleft : cursor + sizeSub bytes.length cursor ≤ bytes.length := by
          rw [sizeSub_eq hcursor (by omega)]
          omega
        obtain ⟨magic, hmagic, hm⟩ := nmbMagicAt_spec hleft
        refine Careful.lift hmagic ?_
        cases magic with
        | none => exact Careful.fail (by rintro (h | h) <;> cases h)
        | some be =>
            obtain ⟨hbig, hheld⟩ := hm be rfl
            obtain ⟨o, hlayout, ho⟩ := @nmbParseLayout_spec bytes (by omega) cursor (by omega) be _ nmbCandidates_width
            refine Careful.lift hlayout ?_
            cases o with
            | none => exact Careful.fail (by rintro (h | h) <;> cases h)
            | some layout =>
                have hfits := ho layout rfl
                have hprefix := hfits.prefix_lt
                have hend := hfits.data_end
                have hinside := hfits.inside
                simp only [nmbMinBundlePrefixSize] at hprefix
                have hplace : sizeAdd cursor 8 = cursor + 8 := sizeAdd_eq (by omega)
                have hraw : sizeSub layout.nextOffset cursor = layout.nextOffset - cursor :=
                  sizeSub_eq (by omega) (by omega)
                refine Careful.lift (nmbReadU32At_ok (by omega) be) ?_
                refine (careful_nmbPushBundle count capacity).bind fun _ _ => ?_
                refine (ih hinside (by omega) _ _).bind fun bundles hbundles => Careful.pure ?_
                obtain ⟨fin, htiles, hfin⟩ := hbundles
                have hnext : cursor + sizeSub layout.nextOffset cursor = layout.nextOffset := by omega
                refine ⟨fin, ⟨rfl, ⟨be, hheld⟩, ?_, ?_, ?_⟩, hfin⟩
                · change cursor < layout.dataOffset
                  omega
                · change layout.dataOffset + layout.dataSize = cursor + sizeSub layout.nextOffset cursor
                  omega
                · change NmbTiles bytes (cursor + sizeSub layout.nextOffset cursor) bundles fin
                  rwa [hnext]
      · -- a file of fewer than twelve bytes is scanned to its end
        by_cases hshort : bytes.length < 12
        · omega
        · rw [sizeSub_eq (by omega) (by omega)] at hstop
          omega

/-- **The bundles tile the file.** The scan ends, reads nothing outside the file, and what it accepts is one bundle after
    another from the start of the file, with fewer than 13 bytes left. No object of C reaches the bound on the length. -/
theorem nmbRead_tiles {bytes : List UInt8} (hsize : bytes.length + 32 ≤ 2 ^ 64) (heap : Heap) :
    (nmbReadFromMemory bytes heap).1 ≠ .error .nonTermination ∧
    (nmbReadFromMemory bytes heap).1 ≠ .error .undefinedBehaviour ∧
    ∀ nmb, (nmbReadFromMemory bytes heap).1 = .ok nmb → nmb.raw = bytes ∧
      ∃ fin, NmbTiles bytes 0 nmb.bundles fin ∧ fin ≤ bytes.length ∧ bytes.length - fin < 13 := by
  have hread : Careful SfError.OfModel (nmbReadFromMemory bytes) fun nmb => nmb.raw = bytes ∧
      ∃ fin, NmbTiles bytes 0 nmb.bundles fin ∧ fin ≤ bytes.length ∧ bytes.length - fin < 13 := by
    obtain ⟨magic, hmagic, -⟩ := @nmbMagicAt_spec bytes 0 bytes.length (by omega)
    have his : nmbIs bytes = .ok magic.isSome := by
      unfold nmbIs
      rw [hmagic]
      rfl
    unfold nmbReadFromMemory
    refine Careful.lift his (Careful.check ?_ fun _ => ?_)
    · rintro (h | h) <;> cases h
    · refine careful_alloc.bind fun _ _ => careful_alloc.bind fun _ _ => ?_
      exact (careful_nmbScan hsize (Nat.zero_le _) (by omega) 0 0).bind fun bundles h => Careful.pure ⟨rfl, h⟩
  refine ⟨fun h => ?_, fun h => ?_, fun nmb h => hread.of_ok h⟩
  · exact hread.of_error h (.inr rfl)
  · exact hread.of_error h (.inl rfl)

/-- A file with one bundle of two bytes, and three bytes behind it. -/
def nmbSample : List UInt8 :=
  [0x18, 0, 0, 0, 0xA, 0, 0, 0, 12, 0, 0, 0] ++ List.replicate 20 0 ++ [2, 0, 0, 0, 0, 0, 0, 0] ++
    [4, 0, 0, 0, 0, 0, 0, 0] ++ [7, 8] ++ [1, 1, 1]

/-- The sample is accepted. -/
theorem nmbSample_tiles :
    (nmbReadFromMemory nmbSample []).1 = .ok ⟨nmbSample, [⟨12, 0, 50, 48, 2⟩]⟩ ∧
      ∃ fin, NmbTiles nmbSample 0 [⟨12, 0, 50, 48, 2⟩] fin ∧ fin ≤ 53 ∧ 53 - fin < 13 := by
  have hrun : (nmbReadFromMemory nmbSample []).1 = .ok ⟨nmbSample, [⟨12, 0, 50, 48, 2⟩]⟩ := by decide +kernel
  exact ⟨hrun, ((@nmbRead_tiles nmbSample (by decide) []).2.2 _ hrun).2⟩

end SoulsFormats
