import SoulsFormats.Script.Luagnl

set_option autoImplicit false

/-! # Lists of global names are read back

What the file holds is known piece by piece (`luagnlWriteBody_spec`). The two probes of the reader
find the byte order and the layout exactly where the first offset and the number of names allow it
(`LuagnlDetectable`), and from there the table leads back to the names. -/

namespace SoulsFormats

open Bytes Fallible BinaryReader

variable {os : Win32}

/-! ## The whole file -/

section Image

open BinaryWriter

variable {w w' : BinaryWriter}

theorem length_luagnlWord (be long : Bool) (p : Nat) :
    (luagnlWord be long p).length = luagnlWidth long := length_wordBytes ..

theorem luagnlWriteEnd_spec (long : Bool) (hw : w.Ready) :
    Post (luagnlWriteEnd long) w fun _ w' => Wrote (luagnlWord w.bigEndian long 0) w w' := by
  rcases long with _ | _
  · exact (emitsAt_writeScalar hw .u32 0).post
  · exact (emitsAt_writeScalar hw .i64 0).post

/-- **What the file of a non-empty list holds.** -/
theorem luagnlWriteBody_spec {gnl : Luagnl} (hne : gnl.globals ≠ [])
    (hfit : ∀ t ∈ gnl.globals, TextFits os gnl.longFormat t) (hw : AtEnd (fun _ => False) w)
    (hbe : w.bigEndian = gnl.bigEndian) (hpos : w.position = 0) :
    Post (luagnlWriteBody os gnl) w fun _ w' =>
      w'.content.length ≤ SIZE_MAX ∧ ∃ ps, LuagnlImage os gnl ps w'.content := by
  intro u w' hrun
  obtain ⟨_, w1, hreserve, hrun⟩ := bind_eq_ok.1 hrun
  obtain ⟨_, w2, hend, hrun⟩ := bind_eq_ok.1 hrun
  obtain ⟨_, w3, hnames, hpad⟩ := bind_eq_ok.1 hrun
  obtain ⟨h1, hset1, hpos1, hkeys, -, -⟩ := luagnlReserveOffsets_spec hw _ 0 _ _ hreserve
  have hbe1 : w1.bigEndian = gnl.bigEndian := (congrArg Prod.fst hset1).trans hbe
  have hwrote := luagnlWriteEnd_spec _ h1.inv.ready _ _ hend
  have hzero := h1.extends hwrote
  have hbe2 : w2.bigEndian = gnl.bigEndian := hzero.bigEndian.trans hbe1
  have hpos2 : w2.position = (gnl.globals.length + 1) * luagnlWidth gnl.longFormat := by
    rw [hwrote.position, length_luagnlWord, hpos1, hpos, Nat.succ_mul]
    omega
  have hwidth : 0 < luagnlWidth gnl.longFormat := by rcases gnl.longFormat <;> decide
  obtain ⟨h3, ps, hhead, hfinal⟩ := luagnlWriteGlobals_spec 0 gnl.globals 0 hfit hzero.atEnd
    (by rw [hpos2]; exact Nat.mul_pos (Nat.succ_pos _) hwidth)
    (by
      intro j hj
      rw [hzero.reserved, hkeys j hj, hpos]
      simp) _ _ hnames
  have hcall : (WriterCall.pad 0x10).run os _ = (.ok (), _) := hpad
  obtain ⟨h4, -, -, -, hback⟩ := h3.forward (c := .pad 0x10) trivial nofun hcall
  obtain ⟨hB3, -⟩ := hback _ (becomes_self h4)
  obtain ⟨hB2, hgnames, htable⟩ := hfinal _ hB3
  obtain ⟨-, hterm⟩ := hzero.final _ hB2
  rw [hbe2, hpos2] at hgnames
  rw [hbe2] at htable
  rw [hbe1, hpos1, hpos, Nat.zero_add] at hterm
  refine ⟨(length_content h4.inv.ready.1).trans_le h4.inv.fits, ps,
    by rw [hhead, if_neg hne, hpos2], ?_, hgnames⟩
  refine holds_flatMap (length_luagnlWord _ _) _ (Nat.zero_le _) fun j p hp => ?_
  have hlen := hgnames.length_eq
  rcases lt_or_ge j ps.length with hj | hj
  · rw [List.getElem?_append_left hj] at hp
    simpa using htable j p hp
  · rw [List.getElem?_append_right hj] at hp
    obtain ⟨hj0, rfl⟩ : j - ps.length = 0 ∧ p = 0 := by
      rcases hk : j - ps.length with _ | k
      · rw [hk] at hp
        exact ⟨rfl, (Option.some.inj hp).symm⟩
      · rw [hk] at hp
        simp at hp
    have hjn : j = gnl.globals.length := by omega
    rw [hjn, Nat.zero_add]
    exact hterm

theorem luagnlWriteToMemory_spec {gnl : Luagnl} (hne : gnl.globals ≠ [])
    (hfit : ∀ t ∈ gnl.globals, TextFits os gnl.longFormat t) {heap : Heap} {out : List UInt8}
    (hwrite : (luagnlWriteToMemory os gnl heap).1 = .ok out) :
    out.length ≤ SIZE_MAX ∧ ∃ ps, LuagnlImage os gnl ps out := by
  obtain ⟨heap', w', hrun, rfl, -, -⟩ := writeToMemory_ok hwrite
  exact luagnlWriteBody_spec hne hfit (atEnd_create _ _) rfl rfl _ _ hrun

end Image

/-! ## The probes -/

/-- The two probes tell the byte order and the layout of a list of `n` names; `first` is the first
    offset. A big-endian file needs a first offset with zeros in front, a little-endian one needs low
    bytes that are not, and its second offset must not be the end of the table. -/
def LuagnlDetectable (bigEndian longFormat : Bool) (n : Nat) : Prop :=
  let first := (n + 1) * luagnlWidth longFormat
  if bigEndian then first < if longFormat then 2 ^ 32 else 2 ^ 16
  else first % 2 ^ 16 ≠ 0 ∧ if longFormat then first < 2 ^ 32 else 1 < n

instance (bigEndian longFormat : Bool) (n : Nat) :
    Decidable (LuagnlDetectable bigEndian longFormat n) :=
  inferInstanceAs (Decidable (if bigEndian
    then (n + 1) * luagnlWidth longFormat < if longFormat then 2 ^ 32 else 2 ^ 16
    else (n + 1) * luagnlWidth longFormat % 2 ^ 16 ≠ 0 ∧
      if longFormat then (n + 1) * luagnlWidth longFormat < 2 ^ 32 else 1 < n))

/-- The first two words of the table. -/
theorem LuagnlImage.words {gnl : Luagnl} {ps : List Nat} {B : List UInt8}
    (h : LuagnlImage os gnl ps B) :
    Holds B 0 (luagnlWord gnl.bigEndian gnl.longFormat
      ((gnl.globals.length + 1) * luagnlWidth gnl.longFormat)) ∧
    (gnl.longFormat = false → (gnl.globals.length + 1) * luagnlWidth gnl.longFormat < 2 ^ 32) ∧
    (gnl.globals.length + 1) * luagnlWidth gnl.longFormat ≤ B.length ∧
    ∃ q, Holds B (luagnlWidth gnl.longFormat) (luagnlWord gnl.bigEndian gnl.longFormat q) ∧
      (gnl.longFormat = false → q < 2 ^ 32) ∧ (q = 0 ↔ gnl.globals.length = 1) := by
  have htable := h.table
  have hnames := h.names
  obtain ⟨ps, rfl⟩ : ∃ rest, ps = (gnl.globals.length + 1) * luagnlWidth gnl.longFormat :: rest := by
    obtain ⟨rest, hrest⟩ := List.head?_eq_some_iff.1 h.first
    exact ⟨rest, hrest⟩
  rw [List.cons_append, List.flatMap_cons, holds_append, length_luagnlWord] at htable
  generalize gnl.globals = globals at hnames htable ⊢
  rcases hnames with _ | ⟨hfirst, hrest⟩
  refine ⟨htable.1, hfirst.short, (Nat.le_add_right _ _).trans hfirst.held.le, ?_⟩
  rw [Nat.zero_add] at htable
  rcases hrest with _ | ⟨hsecond, hrest⟩
  · refine ⟨0, ?_, by simp, by simp⟩
    simpa using htable.2
  · rw [List.cons_append, List.flatMap_cons, holds_append] at htable
    refine ⟨_, htable.2.1, hsecond.short, ?_⟩
    have hpos := hsecond.pos
    simp only [List.length_cons]
    omega

/-- The two words that the probes look at. -/
theorem reads_luagnlDetect_bytes {B : List UInt8} (hlen : 8 ≤ B.length) (flexible : Bool)
    {x : List UInt8} (hx : x.length = 2) (hheld : Holds B 0 x) :
    ∃ be long, Reads luagnlDetect ⟨B, 0, false, false, [], flexible⟩ (be, long)
        ⟨B, 0, be, false, [], flexible⟩ ∧ (be = true ↔ wordNat false x = 0) ∧
      ∀ y : List UInt8, y.length = 4 → Holds B (if be then 0 else 4) y →
        (long = true ↔ wordNat false y = 0) := by
  obtain ⟨v, hread, hv⟩ := reads_getI16 (c := ⟨B, 0, false, false, [], flexible⟩) hx hheld
    (Nat.zero_le _)
  have hprobe : (if decide (v = 0) then 0 else 4) + 4 ≤ B.length := by split <;> omega
  obtain ⟨y, hy, hyheld⟩ := exists_holds hprobe
  obtain ⟨u, hread', hu⟩ := reads_getI32 (c := ⟨B, 0, decide (v = 0), false, [], flexible⟩) hy hyheld
    (Nat.zero_le _)
  refine ⟨decide (v = 0), decide (u = 0), ?_, by rw [decide_eq_true_iff, hv], fun y' hy' hheld' => ?_⟩
  · refine hread.bind ((Reads.setBigEndian _ _).bind (Reads.bind ?_ (Reads.pure _ _)))
    have hp : ((if decide (v = 0) then 0 else 4 : Nat) : Int) = if decide (v = 0) then 0 else 4 := by
      split <;> rfl
    rw [hp] at hread'
    exact hread'
  · rw [decide_eq_true_iff, hu, hyheld.unique hheld' (by omega)]

/-- **The probes find the byte order and the layout exactly where these are detectable.** -/
theorem reads_luagnlDetect {gnl : Luagnl} {ps : List Nat} {B : List UInt8}
    (himage : LuagnlImage os gnl ps B) (hsize : B.length ≤ SIZE_MAX) (flexible : Bool) :
    ∃ be long, Reads luagnlDetect ⟨B, 0, false, false, [], flexible⟩ (be, long)
        ⟨B, 0, be, false, [], flexible⟩ ∧
      (be = gnl.bigEndian ∧ long = gnl.longFormat ↔
        LuagnlDetectable gnl.bigEndian gnl.longFormat gnl.globals.length) := by
  obtain ⟨hword, hshort, hfirst, q, hnext, hqshort, hq⟩ := himage.words
  have hmax : SIZE_MAX = 2 ^ 64 - 1 := rfl
  have hn : gnl.globals.length ≠ 0 := by
    intro h0
    have hhead := himage.first
    rw [List.length_eq_zero_iff.1 (himage.names.length_eq.trans h0)] at hhead
    cases hhead
  have hpos : 0 < (gnl.globals.length + 1) * luagnlWidth gnl.longFormat := by
    rcases gnl.longFormat <;> simp [luagnlWidth]
  have hlen : 8 ≤ B.length := by
    have hle := hnext.le
    rw [length_luagnlWord] at hle
    have hwidth : 4 ≤ luagnlWidth gnl.longFormat := by rcases gnl.longFormat <;> decide
    omega
  rw [LuagnlDetectable]
  clear himage
  generalize (gnl.globals.length + 1) * luagnlWidth gnl.longFormat = first at *
  generalize gnl.bigEndian = bigEndian, gnl.longFormat = longFormat at *
  rcases bigEndian with _ | _ <;> rcases longFormat with _ | _
  · -- little-endian and short: the second word is an offset if there are two names
    have hx : Holds B 0 (wordBytes false (2 + 2) first) := hword
    rw [wordBytes_false_add, holds_append] at hx
    obtain ⟨be, long, hread, hbe, hlong⟩ :=
      reads_luagnlDetect_bytes hlen flexible (length_wordBytes ..) hx.1
    refine ⟨be, long, hread, ?_⟩
    rw [wordNat_wordBytes_eq_zero] at hbe
    rcases be with _ | _
    · have hlong' := hlong _ (length_wordBytes ..) hnext
      have hqmod : q % 256 ^ 4 = q := Nat.mod_eq_of_lt (hqshort rfl)
      rw [wordNat_wordBytes_eq_zero, hqmod, hq] at hlong'
      rcases long with _ | _ <;> simp at hbe hlong' ⊢ <;> omega
    · simp at hbe ⊢
      omega
  · -- little-endian and long: the second word is the high half of the first offset
    have hx : Holds B 0 (wordBytes false (2 + 6) first) := hword
    have hy : Holds B 0 (wordBytes false (4 + 4) first) := hword
    rw [wordBytes_false_add, holds_append] at hx hy
    obtain ⟨be, long, hread, hbe, hlong⟩ :=
      reads_luagnlDetect_bytes hlen flexible (length_wordBytes ..) hx.1
    refine ⟨be, long, hread, ?_⟩
    rw [wordNat_wordBytes_eq_zero] at hbe
    rcases be with _ | _
    · have hlong' := hlong _ (length_wordBytes ..) hy.2
      rw [wordNat_wordBytes_eq_zero] at hlong'
      rcases long with _ | _ <;> simp at hbe hlong' ⊢ <;> omega
    · simp at hbe ⊢
      omega
  · have hx : Holds B 0 (wordBytes true (2 + 2) first) := hword
    rw [wordBytes_true_add, holds_append] at hx
    obtain ⟨be, long, hread, hbe, hlong⟩ :=
      reads_luagnlDetect_bytes hlen flexible (length_wordBytes ..) hx.1
    refine ⟨be, long, hread, ?_⟩
    have hfour := hshort rfl
    rw [wordNat_wordBytes_eq_zero] at hbe
    rcases be with _ | _
    · simp at hbe ⊢
      omega
    · have hlong' := hlong _ (length_wordBytes ..) hword
      rw [wordNat_wordBytes_eq_zero] at hlong'
      rcases long with _ | _ <;> simp at hbe hlong' ⊢ <;> omega
  · have hx : Holds B 0 (wordBytes true (2 + 6) first) := hword
    have hy : Holds B 0 (wordBytes true (4 + 4) first) := hword
    rw [wordBytes_true_add, holds_append] at hx hy
    obtain ⟨be, long, hread, hbe, hlong⟩ :=
      reads_luagnlDetect_bytes hlen flexible (length_wordBytes ..) hx.1
    refine ⟨be, long, hread, ?_⟩
    rw [wordNat_wordBytes_eq_zero] at hbe
    rcases be with _ | _
    · simp at hbe ⊢
      omega
    · have hlong' := hlong _ (length_wordBytes ..) hy.1
      rw [wordNat_wordBytes_eq_zero] at hlong'
      rcases long with _ | _ <;> simp at hbe hlong' ⊢ <;> omega

/-! ## The table -/

/-- An entry of the table is read back. -/
theorem parses_luagnlOffset (long : Bool) {p : Nat} (hp : p < if long then 2 ^ 63 else 2 ^ 32)
    (c : Cursor) : Parses (luagnlReadOffset long) c (luagnlWord c.bigEndian long p) (p : Int) := by
  rcases long with _ | _
  · have h := (parses_u32_ofNat c hp).map fun v => (v.toNat : Int)
    rwa [UInt32.toNat_ofNat_of_lt' hp] at h
  · have h := (parses_i64_ofNat c p).map Int64.toInt
    rwa [Int64.toInt_ofNat_of_lt hp] at h

/-- There is room for one more name, unless the list is of an absurd length. -/
theorem reads_luagnlReserveOne (gnl : Luagnl) (c : Cursor) (hlen : gnl.globals.length ≤ 2 ^ 32)
    (hcap : gnl.globalCapacity ≤ max 8 (2 * gnl.globals.length)) :
    ∃ cap ≤ max 8 (2 * (gnl.globals.length + 1)),
      Reads (onHeap (luagnlReserveOne gnl)) c { gnl with globalCapacity := cap } c := by
  have hmax : SIZE_MAX = 2 ^ 64 - 1 := rfl
  unfold luagnlReserveOne
  split
  · exact ⟨gnl.globalCapacity, by omega, reads_onHeap (Steady.pure gnl) rfl c⟩
  · have hnew : (if gnl.globalCapacity ≠ 0 then gnl.globalCapacity * 2 else 8)
        ≤ max 8 (2 * (gnl.globals.length + 1)) := by
      split <;> omega
    refine ⟨_, hnew, reads_onHeap (Steady.check_bind (Steady.pure _).alloc_bind) ?_ c⟩
    rw [granted_eq_some]
    exact ⟨_, check_bind_pos (by omega) _ _ _⟩

/-- **The table is read back**, up to the 0 that ends it. -/
theorem reads_luagnlReadGlobals {limit : Nat} {ps : List Nat} {globals : List (List UInt8)}
    {be long : Bool} {B : List UInt8} (gnl : Luagnl) (c : Cursor) (fuel : Nat)
    (hnames : List.Forall₂ (GlobalAt os be long limit B) ps globals) (hmem : c.mem = B)
    (hbe : c.bigEndian = be) (hlong : gnl.longFormat = long) (hlimit : limit < 2 ^ 63)
    (hfit : ∀ t ∈ globals, TextFits os long t)
    (htable : Holds B c.pos ((ps ++ [0]).flatMap (luagnlWord be long)))
    (hfuel : globals.length < fuel) (hnum : gnl.globals.length + globals.length ≤ 2 ^ 32)
    (hcap : gnl.globalCapacity ≤ max 8 (2 * gnl.globals.length)) :
    ∃ cap c', Reads (luagnlReadGlobals os fuel gnl) c
      { gnl with globals := gnl.globals ++ globals, globalCapacity := cap } c' := by
  induction hnames generalizing gnl c fuel with
  | nil =>
      subst hmem hbe hlong
      obtain ⟨fuel, rfl⟩ : ∃ n, fuel = n + 1 := ⟨fuel - 1, by simp at hfuel; omega⟩
      refine ⟨gnl.globalCapacity, c.advance (luagnlWord c.bigEndian gnl.longFormat 0).length, ?_⟩
      refine (parses_luagnlOffset gnl.longFormat (by split <;> simp) c).then htable fun _ => ?_
      rw [List.append_nil]
      exact Reads.pure gnl _
  | @cons p t ps globals hfirst hrest ih =>
      subst hmem hbe hlong
      obtain ⟨fuel, rfl⟩ : ∃ n, fuel = n + 1 := ⟨fuel - 1, by simp at hfuel; omega⟩
      simp only [List.length_cons] at hfuel hnum
      obtain ⟨cap, hcap', hreserve⟩ := reads_luagnlReserveOne gnl
        (c.advance (luagnlWord c.bigEndian gnl.longFormat p).length) (by omega) hcap
      have hhere := htable
      rw [List.cons_append, List.flatMap_cons] at hhere
      have hafter := (holds_append.1 hhere).2
      obtain ⟨cap', c', hloop⟩ := ih
        { gnl with globals := gnl.globals ++ [t], globalCapacity := cap }
        (c.advance (luagnlWord c.bigEndian gnl.longFormat p).length) fuel rfl rfl rfl
        (fun t' ht' => hfit t' (List.mem_cons_of_mem t ht')) hafter (by omega)
        (by simp only [List.length_append, List.length_singleton]; omega)
        (by simpa only [List.length_append, List.length_singleton] using hcap')
      refine ⟨cap', c', ?_⟩
      have hp : p < if gnl.longFormat then 2 ^ 63 else 2 ^ 32 := by
        have hle := hfirst.le
        have hshort := hfirst.short
        split
        · exact lt_of_le_of_lt hle hlimit
        next hl => exact hshort (Bool.eq_false_of_not_eq_true hl)
      have hne : (p : Int) ≠ 0 := by
        have hpos := hfirst.pos
        omega
      refine (parses_luagnlOffset gnl.longFormat hp c).then hhere fun hafter => ?_
      rw [if_pos hne]
      have htext := reads_getText (hfit t List.mem_cons_self)
        (c := c.advance (luagnlWord c.bigEndian gnl.longFormat p).length) hfirst.held
        ((Nat.le_add_right _ _).trans hafter.le)
      rw [List.append_assoc] at hloop
      exact Reads.bind htext (hreserve.bind hloop)

/-! ## The whole run -/

theorem luagnlReserveOne_flags (gnl : Luagnl) (heap : Heap) :
    Post (luagnlReserveOne gnl) heap fun gnl' _ =>
      gnl'.bigEndian = gnl.bigEndian ∧ gnl'.longFormat = gnl.longFormat := by
  unfold luagnlReserveOne
  refine Post.ite (fun _ => Post.pure ⟨rfl, rfl⟩) fun _ => ?_
  refine Post.bind (P := fun _ _ => True) (Post.check fun _ => trivial) fun _ _ _ => ?_
  exact Post.bind (P := fun _ _ => True) (fun _ _ _ => trivial) fun _ _ _ => Post.pure ⟨rfl, rfl⟩

theorem luagnlReadGlobals_flags (fuel : Nat) (gnl : Luagnl) (r : BinaryReader) :
    Post (luagnlReadGlobals os fuel gnl) r fun gnl' _ =>
      gnl'.bigEndian = gnl.bigEndian ∧ gnl'.longFormat = gnl.longFormat := by
  induction fuel generalizing gnl r with
  | zero => exact Post.fail
  | succ fuel ih =>
      refine Post.bind (fun _ _ _ => trivial) fun offset r1 _ => Post.ite (fun _ => ?_) fun _ =>
        Post.pure ⟨rfl, rfl⟩
      refine Post.bind (fun _ _ _ => trivial) fun str r2 _ => ?_
      refine Post.bind (P := fun gnl1 _ => gnl1.bigEndian = gnl.bigEndian ∧
        gnl1.longFormat = gnl.longFormat) (Post.zoom (luagnlReserveOne_flags gnl r2.heap))
        fun gnl1 r3 hflags => ?_
      exact (ih _ r3).mono fun gnl' _ h => ⟨h.1.trans hflags.1, h.2.trans hflags.2⟩

/-- The flags of a list that has been read are those that the probes have found. -/
theorem luagnlReadFromMemory_flags {B : List UInt8} {flexible be long : Bool} {c' : Cursor}
    (hdetect : Reads luagnlDetect ⟨B, 0, false, false, [], flexible⟩ (be, long) c') {heap : Heap}
    (hcalm : heap.Calm) {gnl : Luagnl}
    (hread : (luagnlReadFromMemory os flexible B heap).1 = .ok gnl) :
    be = gnl.bigEndian ∧ long = gnl.longFormat := by
  have hrun : luagnlReadFromMemory os flexible B heap
      = (.ok gnl, (luagnlReadFromMemory os flexible B heap).2) := Prod.ext hread rfl
  obtain ⟨_, h1, hcheck, hrun⟩ := bind_eq_ok.1 hrun
  have hheap : h1 = heap := by
    rw [check_run] at hcheck
    split at hcheck <;> cases hcheck
    rfl
  subst hheap
  obtain ⟨h2, r', hrun, hcalm2⟩ := onMemory_eq_ok (congrArg Prod.fst hrun)
  obtain ⟨r1, hflags, -, -⟩ := hdetect (create B false flexible h2) rfl (hcalm2 hcalm)
  rw [luagnlRead, bind_ok hflags] at hrun
  obtain ⟨gnl1, r2, hcreate, hrun⟩ := bind_eq_ok.1 hrun
  have hgnl1 : be = gnl1.bigEndian ∧ long = gnl1.longFormat := by
    have hcreate' : (luagnlCreate be long r1.heap).1 = .ok gnl1 := (Prod.mk.inj hcreate).1
    obtain ⟨_, h3, -, hpure⟩ := bind_eq_ok.1 (Prod.ext hcreate' rfl :
      luagnlCreate be long r1.heap = (.ok gnl1, (luagnlCreate be long r1.heap).2))
    cases hpure
    exact ⟨rfl, rfl⟩
  rw [state_bind_run] at hrun
  have hkept := luagnlReadGlobals_flags _ _ _ _ _ hrun
  exact ⟨hgnl1.1.trans hkept.1.symm, hgnl1.2.trans hkept.2.symm⟩

/-- A detectable list, or a short one, is not so long that an offset would not fit. -/
theorem LuagnlImage.length_lt {gnl : Luagnl} {ps : List Nat} {B : List UInt8}
    (h : LuagnlImage os gnl ps B)
    (hdetect : LuagnlDetectable gnl.bigEndian gnl.longFormat gnl.globals.length) :
    gnl.globals.length < 2 ^ 30 := by
  obtain ⟨-, hshort, -, -⟩ := h.words
  rw [LuagnlDetectable] at hdetect
  rcases hl : gnl.longFormat with _ | _
  · have hlt := hshort hl
    rw [hl] at hlt
    simp only [luagnlWidth, Bool.false_eq_true, if_false] at hlt
    omega
  · rw [hl] at hdetect
    generalize gnl.bigEndian = bigEndian at hdetect
    rcases bigEndian with _ | _ <;> simp [luagnlWidth] at hdetect <;> omega

theorem luagnlReadFromMemory_ok {gnl : Luagnl} {ps : List Nat} {B : List UInt8}
    (himage : LuagnlImage os gnl ps B) (hsize : B.length ≤ SIZE_MAX)
    (hfit : ∀ t ∈ gnl.globals, TextFits os gnl.longFormat t)
    (hdetect : LuagnlDetectable gnl.bigEndian gnl.longFormat gnl.globals.length) (flexible : Bool)
    {heap : Heap} (hcalm : heap.Calm) :
    ∃ cap, (luagnlReadFromMemory os flexible B heap).1
      = .ok { gnl with globalCapacity := cap } := by
  obtain ⟨be, long, hprobes, hiff⟩ := reads_luagnlDetect himage hsize flexible
  obtain ⟨rfl, rfl⟩ := hiff.2 hdetect
  have hnum := himage.length_lt hdetect
  have hwords := himage.table.le
  have hwidth : 4 ≤ luagnlWidth gnl.longFormat ∧ luagnlWidth gnl.longFormat ≤ 8 := by
    rcases gnl.longFormat <;> decide
  have hlen : ((ps ++ [0]).flatMap (luagnlWord gnl.bigEndian gnl.longFormat)).length
      = (gnl.globals.length + 1) * luagnlWidth gnl.longFormat := by
    rw [List.length_flatMap, List.map_congr_left fun p _ => length_luagnlWord _ _ p, List.map_const',
      List.sum_replicate_nat, List.length_append, himage.names.length_eq]
    rfl
  have hmul : (gnl.globals.length + 1) * 4 ≤ (gnl.globals.length + 1) * luagnlWidth gnl.longFormat :=
    Nat.mul_le_mul_left _ hwidth.1
  have hmul' : (gnl.globals.length + 1) * luagnlWidth gnl.longFormat ≤ (gnl.globals.length + 1) * 8 :=
    Nat.mul_le_mul_left _ hwidth.2
  obtain ⟨cap, c', hloop⟩ := reads_luagnlReadGlobals
    { bigEndian := gnl.bigEndian, longFormat := gnl.longFormat, globals := [], globalCapacity := 0 }
    ⟨B, 0, gnl.bigEndian, false, [], flexible⟩ (B.length + 1) himage.names rfl rfl rfl (by omega) hfit
    himage.table (by omega) (by simp only [List.length_nil]; omega) (Nat.zero_le _)
  have hcreate : Reads (onHeap (luagnlCreate gnl.bigEndian gnl.longFormat))
      ⟨B, 0, gnl.bigEndian, false, [], flexible⟩
      { bigEndian := gnl.bigEndian, longFormat := gnl.longFormat, globals := [], globalCapacity := 0 }
      ⟨B, 0, gnl.bigEndian, false, [], flexible⟩ :=
    reads_onHeap (Steady.pure _).alloc_bind rfl _
  have hread : Reads (luagnlRead os) ⟨B, 0, false, false, [], flexible⟩
      { gnl with globalCapacity := cap } c' := by
    refine hprobes.bind (hcreate.bind (Reads.state fun r hr => ?_))
    have hlength : r.length = B.length := congrArg (fun c => c.mem.length) hr
    rw [hlength]
    exact hloop
  obtain ⟨_, hok, -⟩ := onMemory_ok hread hcalm
  refine ⟨cap, ?_⟩
  rw [luagnlReadFromMemory, check_bind_pos (by omega)]
  exact congrArg Prod.fst hok

/-- **A list that is written is read back exactly where its layout is detectable.** -/
theorem luagnl_is_read_back_iff (os : Win32) (gnl : Luagnl) (hne : gnl.globals ≠ [])
    (hfit : ∀ t ∈ gnl.globals, TextFits os gnl.longFormat t) (heap : Heap) (out : List UInt8)
    (hwrite : (luagnlWriteToMemory os gnl heap).1 = .ok out) (flexible : Bool) (heap' : Heap)
    (hcalm : heap'.Calm) :
    (∃ gnl', (luagnlReadFromMemory os flexible out heap').1 = .ok gnl' ∧
      gnl'.bigEndian = gnl.bigEndian ∧ gnl'.longFormat = gnl.longFormat ∧
      gnl'.globals = gnl.globals) ↔
    LuagnlDetectable gnl.bigEndian gnl.longFormat gnl.globals.length := by
  obtain ⟨hsize, ps, himage⟩ := luagnlWriteToMemory_spec hne hfit hwrite
  constructor
  · rintro ⟨gnl', hread, hbe, hlong, -⟩
    obtain ⟨be, long, hprobes, hiff⟩ := reads_luagnlDetect himage hsize flexible
    obtain ⟨rfl, rfl⟩ := luagnlReadFromMemory_flags hprobes hcalm hread
    exact hiff.1 ⟨hbe, hlong⟩
  · intro hdetect
    obtain ⟨cap, hread⟩ := luagnlReadFromMemory_ok himage hsize hfit hdetect flexible hcalm
    exact ⟨_, hread, rfl, rfl, rfl⟩

/-- What a list of ASCII names is written to. -/
def luagnlBytes (gnl : Luagnl) : List UInt8 :=
  (luagnlWriteToMemory .ascii gnl []).1.toOption.getD []

/-- Two names. -/
def luagnlSample : Luagnl :=
  { bigEndian := false, longFormat := false, globals := [[65], [66, 67]], globalCapacity := 8 }

theorem luagnl_sample_is_read_back :
    ∃ gnl', (luagnlReadFromMemory .ascii false (luagnlBytes luagnlSample) []).1 = .ok gnl' ∧
      gnl'.bigEndian = luagnlSample.bigEndian ∧ gnl'.longFormat = luagnlSample.longFormat ∧
      gnl'.globals = luagnlSample.globals := by
  have hplain : ∀ t ∈ luagnlSample.globals, Win32.isPlain t = true ∧ t.length ≤ INT32_MAX := by
    decide +kernel
  exact (luagnl_is_read_back_iff .ascii luagnlSample (by decide)
    (fun t ht => TextFits.plain Win32.ascii_compatible (hplain t ht)) [] (luagnlBytes luagnlSample) (by decide +kernel) false []
    Heap.calm_nil).2 (by decide +kernel)

/-- After a single short offset in little-endian order the end of the table is taken for the high half
    of a long one. -/
theorem luagnl_single_name_is_not_read_back :
    let gnl := { luagnlSample with globals := [[65]] }
    (luagnlWriteToMemory .ascii gnl []).1 = .ok (luagnlBytes gnl) ∧
      (luagnlReadFromMemory .ascii false (luagnlBytes gnl) []).1 = .error .outOfRange := by
  decide +kernel

end SoulsFormats
