import Mathlib.Data.List.Range
import SoulsFormats.Geom.FlverMesh
import SoulsFormats.Geom.FlverVertexLayout
import SoulsFormats.Library.Descent

set_option autoImplicit false

/-! # The channels of decoded meshes

The UV pairs and the colours of a mesh are channels: a vertex buffer unpacks those of its own members one after
another from zero on, while the decoded mesh takes over the channel at each member's index. `Channel` is what the
two kinds share; its laws are what unpacking, merging and gathering do to one of them, and everything behind them
is proved once. -/

namespace SoulsFormats.Flver

open Fallible

/-- A vertex buffer of a mesh with its layout. -/
abbrev Section := VertexBuffer × BufferLayout

/-- The buffers of a mesh with their layouts. -/
def Flver2.sections (f : Flver2) (buffers : List VertexBuffer) : Except SfError (List Section) :=
  buffers.mapM fun vb => do
    let layout ← f.layoutOf vb
    pure (vb, layout)

theorem sections_spec {f : Flver2} {buffers : List VertexBuffer} {sections : List Section}
    (h : f.sections buffers = .ok sections) :
    buffers = sections.map Prod.fst ∧ ∀ s ∈ sections, f.layoutOf s.1 = .ok s.2 := by
  have hall := except_mapM_eq_ok h
  induction hall with
  | nil => exact ⟨rfl, by simp⟩
  | @cons vb s buffers sections hs hrest ih =>
      obtain ⟨layout, hlayout, heq⟩ := except_bind_eq_ok.1 hs
      cases heq
      have hmap : f.sections buffers = .ok sections := by
        rw [Flver2.sections, List.mapM_cons] at h
        obtain ⟨s', hs', h⟩ := except_bind_eq_ok.1 h
        obtain ⟨rest, hrest, h⟩ := except_bind_eq_ok.1 h
        cases h
        exact hrest
      obtain ⟨hfst, hlayouts⟩ := ih hmap
      refine ⟨by rw [List.map_cons, ← hfst], fun s hs => ?_⟩
      rcases List.mem_cons.1 hs with rfl | hs
      · exact hlayout
      · exact hlayouts s hs

/-! ## Channels -/

/-- The items of one kind that vertices have several of. -/
structure Channel (α : Type) where
  semantic : LayoutSemantic
  capacity : Nat
  blank : α
  stored : ℚ → List UInt8 → Int → LayoutType → Except SfError (List α)
  width : LayoutType → Nat
  array : DecodedVertex → List α
  count : DecodedVertex → Nat
  maxCount : Attributes → Nat
  arrays : DecodedMesh → List (List α)

/-- The array with these items from a position on. -/
def putItems {α : Type} (l : List α) (i : Nat) (items : List α) : List α :=
  l.take i ++ items ++ l.drop (i + items.length)

namespace Channel

variable {α : Type} (c : Channel α)

/-- The member has items of the channel. -/
def Own (m : LayoutMember) : Prop := m.semantic = c.semantic

instance (m : LayoutMember) : Decidable (c.Own m) := inferInstanceAs (Decidable (_ = _))

/-- What the functions of the decoder do to a channel. -/
structure Lawful : Prop where
  stored_length : ∀ {factor mem p t items}, c.stored factor mem p t = .ok items → items.length = c.width t
  array_zero : c.array .zero = List.replicate c.capacity c.blank
  count_zero : c.count .zero = 0
  decode_other : ∀ {mem ctx v v' m}, vertexDecodeMember mem ctx v m = .ok v' → ¬ (c.Own m ∧ ¬ m.Special) →
    c.array v' = c.array v ∧ c.count v' = c.count v
  decode_own : ∀ {mem ctx v v' m}, vertexDecodeMember mem ctx v m = .ok v' → c.Own m → ¬ m.Special →
    ∃ items, c.stored ctx.uvFactor mem m.structOffset m.type = .ok items ∧
      c.array v' = putItems (c.array v) (c.count v) items ∧ c.count v' = c.count v + items.length ∧
      (c.count v ≤ c.capacity → c.count v' ≤ c.capacity)
  merge_other : ∀ {decoded merged merged' m}, mergeMember decoded merged m = .ok merged' → ¬ c.Own m →
    c.array merged' = c.array merged
  merge_own : ∀ {decoded merged merged' m}, mergeMember decoded merged m = .ok merged' → c.Own m →
    ∀ i : Nat, m.index = i → c.array merged' = if i < c.capacity then
      (c.array merged).set i ((c.array decoded)[i]?.getD c.blank) else c.array merged
  scan_none : c.maxCount .none = 0
  scan_other : ∀ {a a' m}, scanMember a m = .ok a' → ¬ c.Own m → c.maxCount a' = c.maxCount a
  scan_own : ∀ {a a' m}, scanMember a m = .ok a' → c.Own m → raiseCount (c.maxCount a) m.index = .ok (c.maxCount a')
  gather : ∀ a vertices indices, c.arrays (gatherMesh a vertices indices)
    = (List.range (min (c.maxCount a) c.capacity)).map fun k => vertices.map fun v => (c.array v)[k]?.getD c.blank

/-! ## What a mesh stores -/

/-- The members of a section with items of the channel. -/
def membersOf (s : Section) : List LayoutMember := s.2.members.filter fun m => c.Own m

/-- The items of the vertex that begins at this offset, in the order of the members. -/
def storedAt (factor : ℚ) (s : Section) (offset : Nat) : List α :=
  ((c.membersOf s).filter fun m => ¬ m.Special).flatMap fun m =>
    ((c.stored factor s.1.vertexBytes (offset + m.structOffset) m.type).toOption).getD []

/-- The items that each vertex of a mesh has in its buffers. -/
def total (sections : List Section) : Nat :=
  (sections.map fun s => (((c.membersOf s).filter fun m => ¬ m.Special).map fun m => c.width m.type).sum).sum

/-- The items of one vertex of a mesh, buffer by buffer. -/
def storedIn (factor : ℚ) (sections : List Section) (v : Nat) : List α :=
  sections.flatMap fun s => c.storedAt factor s (v * s.1.vertexSize)

/-- The members are numbered across the buffers. -/
def Numbered (sections : List Section) : Prop :=
  (sections.flatMap c.membersOf).map LayoutMember.index
    = (List.range (sections.flatMap c.membersOf).length).map Nat.cast

instance (sections : List Section) : Decidable (c.Numbered sections) := inferInstanceAs (Decidable (_ = _))

/-- The section of each member. -/
def owners (sections : List Section) : List Section := sections.flatMap fun s => (c.membersOf s).map fun _ => s

/-- The item at position `k` among those of the buffer that has the member with the index `k`; a buffer with fewer
    items has a blank there. The vertex is looked for at its offset modulo `2 ^ 32`. -/
def found (factor : ℚ) (sections : List Section) (v k : Nat) : α :=
  match (c.owners sections)[k]? with
  | some s => (c.storedAt factor s (v * s.1.vertexSize % 2 ^ 32))[k]?.getD c.blank
  | none => c.blank

/-- The decoded mesh has one array for each item of a vertex, and each array holds its item of every vertex. -/
structure Kept (factor : ℚ) (sections : List Section) (n : Nat) (out : DecodedMesh) : Prop where
  arrays : n ≠ 0 → (c.arrays out).length = c.total sections
  items : ∀ v < n, ∀ k < c.total sections, ∃ array item, (c.arrays out)[k]? = some array ∧
    array[v]? = some item ∧ (c.storedIn factor sections v)[k]? = some item

/-- There are as many members (counted in a byte) as items, and each item is found where its array is filled from. -/
structure InPlace (factor : ℚ) (sections : List Section) (n : Nat) : Prop where
  members : min ((sections.flatMap c.membersOf).length % 256) c.capacity = c.total sections
  items : ∀ v < n, ∀ k < c.total sections,
    (c.storedIn factor sections v)[k]? = some (c.found factor sections v k)

variable {c} {a a' : Attributes} {mem : List UInt8} {ctx : VertexContext} {v v' w : DecodedVertex}
  {ms : List LayoutMember} {s : Section} {sections : List Section} {f : Flver2}

/-! ## Counting the members -/

theorem raiseCount_of_next {i c' : Nat} (h : raiseCount (i % 256) (i : Int) = .ok c') : c' = (i + 1) % 256 := by
  unfold raiseCount at h
  split at h
  · cases h
  · cases h
    rw [if_pos (by omega)]
    omega

/-- Numbered members raise the count to their number, in a byte. -/
theorem scan_members (hc : c.Lawful) {i : Nat} (hrun : ms.foldlM scanMember a = .ok a')
    (hnum : (ms.filter fun m => c.Own m).map LayoutMember.index
      = (List.range' i (ms.filter fun m => c.Own m).length).map Nat.cast)
    (ha : c.maxCount a = i % 256) : c.maxCount a' = (i + (ms.filter fun m => c.Own m).length) % 256 := by
  induction ms generalizing a i with
  | nil =>
      cases hrun
      simpa using ha
  | cons m ms ih =>
      rw [List.foldlM_cons] at hrun
      obtain ⟨a1, hfirst, hrest⟩ := except_bind_eq_ok.1 hrun
      by_cases hown : c.Own m
      · simp only [List.filter_cons_of_pos (p := fun m => decide (c.Own m)) (decide_eq_true hown), List.map_cons,
          List.length_cons, List.range'_succ, List.cons.injEq] at hnum ⊢
        have hraise := hc.scan_own hfirst hown
        rw [ha, hnum.1] at hraise
        rw [ih hrest hnum.2 (raiseCount_of_next hraise)]
        congr 1
        omega
      · simp only [List.filter_cons_of_neg (p := fun m => decide (c.Own m)) (by simpa using hown)] at hnum ⊢
        exact ih hrest hnum ((hc.scan_other hfirst hown).trans ha)

/-- What is behind numbered members is numbered on. -/
theorem numbered_split {x y : List LayoutMember} {i : Nat}
    (h : (x ++ y).map LayoutMember.index = (List.range' i (x ++ y).length).map Nat.cast) :
    x.map LayoutMember.index = (List.range' i x.length).map Nat.cast ∧
      y.map LayoutMember.index = (List.range' (i + x.length) y.length).map Nat.cast := by
  rw [List.map_append, List.length_append, ← List.range'_append_1, List.map_append] at h
  exact List.append_inj h (by simp)

theorem scan_sections (hc : c.Lawful) {i : Nat} (hlayouts : ∀ s ∈ sections, f.layoutOf s.1 = .ok s.2)
    (hrun : (sections.map Prod.fst).foldlM (scanBuffer f) a = .ok a')
    (hnum : (sections.flatMap c.membersOf).map LayoutMember.index
      = (List.range' i (sections.flatMap c.membersOf).length).map Nat.cast)
    (ha : c.maxCount a = i % 256) : c.maxCount a' = (i + (sections.flatMap c.membersOf).length) % 256 := by
  induction sections generalizing a i with
  | nil =>
      cases hrun
      simpa using ha
  | cons s sections ih =>
      rw [List.map_cons, List.foldlM_cons] at hrun
      obtain ⟨a1, hfirst, hrest⟩ := except_bind_eq_ok.1 hrun
      rw [scanBuffer, hlayouts s List.mem_cons_self] at hfirst
      rw [List.flatMap_cons] at hnum ⊢
      obtain ⟨hhere, hthere⟩ := numbered_split hnum
      have hstep := scan_members hc hfirst hhere ha
      rw [ih (fun s' hs' => hlayouts s' (List.mem_cons_of_mem s hs')) hrest hthere hstep, List.length_append]
      congr 1
      omega

/-! ## Unpacking a buffer -/

/-- The array after some items: these, and blanks. -/
theorem putItems_replicate {x items : List α} {n : Nat} {b : α} :
    putItems (x ++ List.replicate (n - x.length) b) x.length items
      = (x ++ items) ++ List.replicate (n - (x ++ items).length) b := by
  have hdrop : (x ++ List.replicate (n - x.length) b).drop (x.length + items.length)
      = List.replicate (n - x.length - items.length) b := by
    rw [← List.drop_drop, List.drop_left, List.drop_replicate]
  rw [putItems, List.take_left, hdrop, List.length_append, Nat.sub_sub]

/-- Unpacking appends the items of the channel's members. -/
theorem decode_members (hc : c.Lawful) {x : List α} (hrun : ms.foldlM (vertexDecodeMember mem ctx) v = .ok v')
    (hv : c.array v = x ++ List.replicate (c.capacity - x.length) c.blank) (hcount : c.count v = x.length)
    (hroom : x.length ≤ c.capacity) :
    ∃ y, (ms.filter fun m => c.Own m ∧ ¬ m.Special).flatMap (fun m =>
        ((c.stored ctx.uvFactor mem m.structOffset m.type).toOption).getD []) = y ∧
      c.array v' = (x ++ y) ++ List.replicate (c.capacity - (x ++ y).length) c.blank := by
  induction ms generalizing v x with
  | nil =>
      cases hrun
      exact ⟨[], rfl, by simpa using hv⟩
  | cons m ms ih =>
      rw [List.foldlM_cons] at hrun
      obtain ⟨v1, hfirst, hrest⟩ := except_bind_eq_ok.1 hrun
      by_cases hown : c.Own m ∧ ¬ m.Special
      · obtain ⟨items, hstored, harray, hcount1, hcap⟩ := hc.decode_own hfirst hown.1 hown.2
        have hfit : x.length + items.length ≤ c.capacity := by
          have := hcap (hcount ▸ hroom)
          omega
        rw [hv, hcount, putItems_replicate] at harray
        obtain ⟨y, hy, harray'⟩ := ih (x := x ++ items) hrest harray (by rw [hcount1, hcount, List.length_append])
          (by rw [List.length_append]; exact hfit)
        refine ⟨items ++ y, ?_, by simpa only [List.append_assoc] using harray'⟩
        rw [List.filter_cons_of_pos (by simpa using hown), List.flatMap_cons, hstored, hy]
        rfl
      · obtain ⟨harray, hcount1⟩ := hc.decode_other hfirst hown
        rw [List.filter_cons_of_neg (by simpa using hown)]
        exact ih hrest (harray.trans hv) (hcount1.trans hcount) hroom

theorem getElem?_append_replicate {x : List α} {n k : Nat} {b : α} :
    (x ++ List.replicate n b)[k]?.getD b = x[k]?.getD b := by
  by_cases hk : k < x.length
  · rw [List.getElem?_append_left hk]
  · rw [List.getElem?_append_right (by omega), List.getElem?_eq_none (l := x) (by omega), List.getElem?_replicate]
    split <;> rfl

/-- An unpacked vertex has the items of its buffer, and blanks behind them. -/
theorem decoded_item (hc : c.Lawful) {offset : Nat}
    (hrun : vertexDecodeOne (s.2.at offset) s.1.vertexBytes ctx = .ok w) (k : Nat) :
    (c.array w)[k]?.getD c.blank = (c.storedAt ctx.uvFactor s offset)[k]?.getD c.blank := by
  obtain ⟨y, hy, harray⟩ := decode_members (x := []) hc hrun (by simpa using hc.array_zero) hc.count_zero (Nat.zero_le _)
  have hsame : y = c.storedAt ctx.uvFactor s offset := by
    rw [← hy, BufferLayout.at, storedAt, membersOf, List.filter_map, List.flatMap_map, List.filter_filter]
    congr 2
    funext m
    rw [Bool.and_comm, ← Bool.decide_and]
    rfl
  rw [harray, getElem?_append_replicate, List.nil_append, hsame]

/-! ## Merging the buffers -/

/-- The numbered members of one buffer fill the positions of their numbers. -/
theorem merge_members (hc : c.Lawful) {decoded merged merged' : DecodedVertex} {i : Nat}
    (hrun : ms.foldlM (mergeMember decoded) merged = .ok merged')
    (hnum : (ms.filter fun m => c.Own m).map LayoutMember.index
      = (List.range' i (ms.filter fun m => c.Own m).length).map Nat.cast)
    (hlen : (c.array merged).length = c.capacity) :
    (c.array merged').length = c.capacity ∧ ∀ k < c.capacity, (c.array merged')[k]? =
      if i ≤ k ∧ k < i + (ms.filter fun m => c.Own m).length then some ((c.array decoded)[k]?.getD c.blank)
      else (c.array merged)[k]? := by
  induction ms generalizing merged i with
  | nil =>
      cases hrun
      refine ⟨hlen, fun k _ => ?_⟩
      rw [if_neg (by simp)]
  | cons m ms ih =>
      rw [List.foldlM_cons] at hrun
      obtain ⟨merged1, hfirst, hrest⟩ := except_bind_eq_ok.1 hrun
      by_cases hown : c.Own m
      · simp only [List.filter_cons_of_pos (p := fun m => decide (c.Own m)) (decide_eq_true hown), List.map_cons,
          List.length_cons, List.range'_succ, List.cons.injEq] at hnum ⊢
        have harray := hc.merge_own hfirst hown i hnum.1
        have hlen1 : (c.array merged1).length = c.capacity := by
          rw [harray]
          split
          · rw [List.length_set, hlen]
          · exact hlen
        obtain ⟨hlen', hitems⟩ := ih hrest hnum.2 hlen1
        refine ⟨hlen', fun k hk => ?_⟩
        rw [hitems k hk]
        -- The position is filled by the first member, by a later one, or by none of them.
        rcases lt_trichotomy k i with hlt | rfl | hgt
        · rw [if_neg (by omega), if_neg (by omega), harray]
          split
          · rw [List.getElem?_set_ne (by omega)]
          · rfl
        · rw [if_neg (by omega), if_pos (by omega), harray, if_pos hk, List.getElem?_set_self (by omega)]
        · by_cases hin : k < i + (ms.filter fun m => decide (c.Own m)).length + 1
          · rw [if_pos (by omega), if_pos (by omega)]
          · rw [if_neg (by omega), if_neg (by omega), harray]
            split
            · rw [List.getElem?_set_ne (by omega)]
            · rfl
      · simp only [List.filter_cons_of_neg (p := fun m => decide (c.Own m)) (by simpa using hown)] at hnum ⊢
        have harray := hc.merge_other hfirst hown
        rw [← harray] at hlen
        obtain ⟨hlen', hitems⟩ := ih hrest hnum hlen
        refine ⟨hlen', fun k hk => ?_⟩
        rw [hitems k hk, harray]

/-- The owners of the positions from `i` on. -/
theorem owners_cons : c.owners (s :: sections) = List.replicate (c.membersOf s).length s ++ c.owners sections := by
  rw [owners, List.flatMap_cons, List.map_const']
  rfl

theorem length_owners : (c.owners sections).length = (sections.flatMap c.membersOf).length := by
  simp [owners, List.length_flatMap]

/-- A merged vertex has at each position what the buffer of the member with that number has there. -/
theorem merge_sections (hc : c.Lawful) {merged merged' : DecodedVertex} {v i : Nat}
    (hlayouts : ∀ s ∈ sections, f.layoutOf s.1 = .ok s.2)
    (hrun : (sections.map Prod.fst).foldlM (mergeBuffer f ctx v) merged = .ok merged')
    (hnum : (sections.flatMap c.membersOf).map LayoutMember.index
      = (List.range' i (sections.flatMap c.membersOf).length).map Nat.cast)
    (hlen : (c.array merged).length = c.capacity) :
    ∀ k < c.capacity, (c.array merged')[k]? =
      if i ≤ k then
        match (c.owners sections)[k - i]? with
        | some s => some ((c.storedAt ctx.uvFactor s (v * s.1.vertexSize % 2 ^ 32))[k]?.getD c.blank)
        | none => (c.array merged)[k]?
      else (c.array merged)[k]? := by
  induction sections generalizing merged i with
  | nil =>
      cases hrun
      intro k _
      simp [owners]
  | cons s sections ih =>
      rw [List.map_cons, List.foldlM_cons] at hrun
      obtain ⟨merged1, hfirst, hrest⟩ := except_bind_eq_ok.1 hrun
      obtain ⟨layout, hlayout, hbuffer⟩ := except_bind_eq_ok.1 hfirst
      rw [hlayouts s List.mem_cons_self] at hlayout
      cases hlayout
      obtain ⟨decoded, hdecoded, hmerge⟩ := except_bind_eq_ok.1 hbuffer
      rw [List.flatMap_cons] at hnum
      obtain ⟨hhere, hthere⟩ := numbered_split hnum
      obtain ⟨hlen1, hitems1⟩ := merge_members hc hmerge hhere hlen
      have hitems := ih (fun s' hs' => hlayouts s' (List.mem_cons_of_mem s hs')) hrest hthere hlen1
      have hcount : (c.membersOf s).length = (s.2.members.filter fun m => decide (c.Own m)).length := rfl
      intro k hk
      rw [hitems k hk, owners_cons]
      by_cases hbefore : i ≤ k
      · rw [if_pos hbefore]
        by_cases hmine : k < i + (c.membersOf s).length
        · rw [if_neg (by omega), hitems1 k hk, if_pos ⟨hbefore, by omega⟩, decoded_item hc hdecoded,
            List.getElem?_append_left (by rw [List.length_replicate]; omega),
            List.getElem?_replicate_of_lt (by omega)]
        · have hsub : k - i - (c.membersOf s).length = k - (i + (c.membersOf s).length) := by omega
          rw [if_pos (by omega), List.getElem?_append_right (by rw [List.length_replicate]; omega),
            List.length_replicate, hsub, hitems1 k hk, if_neg (by omega)]
      · rw [if_neg (by omega), if_neg hbefore, hitems1 k hk, if_neg (by omega)]

/-! ## Gathering the arrays -/

theorem mapM_range {β : Type} {g : Nat → Except SfError β} {n : Nat} {l : List β} (h : (List.range n).mapM g = .ok l) :
    l.length = n ∧ ∀ i < n, ∃ b, l[i]? = some b ∧ g i = .ok b := by
  have hall := except_mapM_eq_ok h
  have hlen := hall.length_eq
  rw [List.length_range] at hlen
  refine ⟨hlen.symm, fun i hi => ?_⟩
  have hget := hall.get (i := i) (by simpa using hi) (by omega)
  exact ⟨l.get ⟨i, by omega⟩, List.getElem?_eq_getElem _, by simpa using hget⟩

section

variable {n : Nat} {vertices : List DecodedVertex} {indices : List UInt32 × Nat}

/-- Every array of the decoded mesh is filled from the positions of its number. -/
theorem gathered_item (hc : c.Lawful) (hlayouts : ∀ s ∈ sections, f.layoutOf s.1 = .ok s.2) (hnum : c.Numbered sections)
    (hscan : (sections.map Prod.fst).foldlM (scanBuffer f) .none = .ok a)
    (hvertices : (List.range n).mapM (mergedVertex f ctx (sections.map Prod.fst)) = .ok vertices) :
    (c.arrays (gatherMesh a vertices indices)).length
        = min ((sections.flatMap c.membersOf).length % 256) c.capacity ∧
      ∀ k < min ((sections.flatMap c.membersOf).length % 256) c.capacity, ∃ array,
        (c.arrays (gatherMesh a vertices indices))[k]? = some array ∧
        ∀ v < n, array[v]? = some (c.found ctx.uvFactor sections v k) := by
  rw [Numbered, List.range_eq_range'] at hnum
  have hcount := scan_sections hc hlayouts hscan hnum (by rw [hc.scan_none])
  rw [Nat.zero_add] at hcount
  obtain ⟨-, hmerged⟩ := mapM_range hvertices
  rw [hc.gather, hcount]
  refine ⟨by rw [List.length_map, List.length_range], fun k hk => ?_⟩
  refine ⟨vertices.map fun v => (c.array v)[k]?.getD c.blank, ?_, fun v hv => ?_⟩
  · rw [List.getElem?_map, List.getElem?_range hk]
    rfl
  · obtain ⟨w, hw, hrun⟩ := hmerged v hv
    have hzero : (c.array .zero).length = c.capacity := by rw [hc.array_zero, List.length_replicate]
    have hitem := merge_sections hc hlayouts hrun hnum hzero k (lt_of_lt_of_le hk (min_le_right _ _))
    have hmember : k < (c.owners sections).length := by
      rw [length_owners]
      exact lt_of_lt_of_le (lt_of_lt_of_le hk (min_le_left _ _)) (Nat.mod_le _ _)
    rw [if_pos (Nat.zero_le k), Nat.sub_zero, List.getElem?_eq_getElem hmember] at hitem
    rw [List.getElem?_map, hw, Option.map_some, hitem, found, List.getElem?_eq_getElem hmember]
    rfl

/-- A decoded mesh keeps the channel exactly if its items are in place. -/
theorem kept_iff_inPlace (hc : c.Lawful) (hlayouts : ∀ s ∈ sections, f.layoutOf s.1 = .ok s.2)
    (hnum : c.Numbered sections) (hscan : (sections.map Prod.fst).foldlM (scanBuffer f) .none = .ok a)
    (hvertices : (List.range n).mapM (mergedVertex f ctx (sections.map Prod.fst)) = .ok vertices) (hn : n ≠ 0) :
    c.Kept ctx.uvFactor sections n (gatherMesh a vertices indices) ↔ c.InPlace ctx.uvFactor sections n := by
  obtain ⟨hlength, hitems⟩ := @gathered_item _ c _ _ _ _ n vertices indices hc hlayouts hnum hscan hvertices
  constructor
  · intro hkept
    have htotal := hlength.symm.trans (hkept.arrays hn)
    refine ⟨htotal, fun v hv k hk => ?_⟩
    obtain ⟨array, item, harray, hitem, hstored⟩ := hkept.items v hv k hk
    obtain ⟨array', harray', hfound⟩ := hitems k (htotal ▸ hk)
    cases harray.symm.trans harray'
    rw [hfound v hv] at hitem
    rw [hstored, hitem]
  · intro hplace
    refine ⟨fun _ => hlength.trans hplace.members, fun v hv k hk => ?_⟩
    obtain ⟨array, harray, hfound⟩ := hitems k (hplace.members ▸ hk)
    exact ⟨array, _, harray, hfound v hv, hplace.items v hv k hk⟩

end

end Channel

/-! ## UV pairs and colours -/

def uvChannel : Channel Vec2 where
  semantic := .uv
  capacity := 8
  blank := .zero
  stored factor mem p t := decodeUv mem p factor t
  width := LayoutType.uvPairs
  array v := v.uvs.toList
  count := DecodedVertex.uvCount
  maxCount := Attributes.maxUvCount
  arrays := DecodedMesh.uvs

def colorChannel : Channel VertexColor where
  semantic := .vertexColor
  capacity := 4
  blank := .zero
  stored _ mem p t := do
    let color ← decodeColor mem p t
    pure [color]
  width _ := 1
  array v := v.colors.toList
  count := DecodedVertex.colorCount
  maxCount := Attributes.maxColorCount
  arrays := DecodedMesh.colors

/-- Storing one item after another is storing them together. -/
theorem putItems_cons {α : Type} {l items : List α} {i : Nat} {item : α} (hi : i < l.length) :
    putItems (l.set i item) (i + 1) items = putItems l i (item :: items) := by
  have htake : (l.set i item).take (i + 1) = l.take i ++ [item] := by
    rw [List.take_succ_eq_append_getElem (by rw [List.length_set]; exact hi), List.take_set_of_le le_rfl,
      List.getElem_set_self]
  have hdrop : (l.set i item).drop (i + 1 + items.length) = l.drop (i + (item :: items).length) := by
    rw [List.drop_set_of_lt (by omega), List.length_cons]
    congr 1
    omega
  rw [putItems, putItems, htake, hdrop, List.append_assoc, List.append_assoc, List.append_assoc]
  rfl

theorem putItems_nil {α : Type} (l : List α) (i : Nat) : putItems l i [] = l := by
  simp [putItems]

theorem pushUvs_array {v v' : DecodedVertex} {uvs : List Vec2} (h : uvs.foldlM DecodedVertex.pushUv v = .ok v') :
    v'.uvs.toList = putItems v.uvs.toList v.uvCount uvs := by
  induction uvs generalizing v with
  | nil =>
      cases h
      rw [putItems_nil]
  | cons uv uvs ih =>
      rw [List.foldlM_cons] at h
      obtain ⟨v1, hpush, hrest⟩ := except_bind_eq_ok.1 h
      unfold DecodedVertex.pushUv at hpush
      split at hpush
      · rename_i hroom
        cases hpush
        rw [ih hrest, ← putItems_cons (by simpa using hroom), Vector.toList_set]
      · cases hpush

/-- A colour goes into its array, and nothing else of the channels changes. -/
theorem pushColor_ok {v v' : DecodedVertex} {color : VertexColor} (h : v.pushColor color = .ok v') :
    v'.colors.toList = putItems v.colors.toList v.colorCount [color] ∧ v'.colorCount = v.colorCount + 1 ∧
      v.colorCount < 4 ∧ v'.uvs = v.uvs ∧ v'.uvCount = v.uvCount := by
  unfold DecodedVertex.pushColor at h
  split at h
  · rename_i hroom
    cases h
    refine ⟨?_, rfl, hroom, rfl, rfl⟩
    rw [← putItems_cons (by simpa using hroom), putItems_nil, Vector.toList_set]
  · cases h

theorem pushUvs_colors {v v' : DecodedVertex} {uvs : List Vec2} (h : uvs.foldlM DecodedVertex.pushUv v = .ok v') :
    v'.colors = v.colors ∧ v'.colorCount = v.colorCount := by
  induction uvs generalizing v with
  | nil =>
      cases h
      exact ⟨rfl, rfl⟩
  | cons uv uvs ih =>
      rw [List.foldlM_cons] at h
      obtain ⟨v1, hpush, hrest⟩ := except_bind_eq_ok.1 h
      unfold DecodedVertex.pushUv at hpush
      split at hpush
      · cases hpush
        have hbehind := ih hrest
        exact hbehind
      · cases hpush

/-- What one member leaves in the channels. -/
theorem vertexDecodeMember_channels {mem : List UInt8} {ctx : VertexContext} {v v' : DecodedVertex} {m : LayoutMember}
    (h : vertexDecodeMember mem ctx v m = .ok v') :
    (m.Special ∨ m.semantic ≠ .uv → v'.uvs = v.uvs ∧ v'.uvCount = v.uvCount) ∧
      (m.Special ∨ m.semantic ≠ .vertexColor → v'.colors = v.colors ∧ v'.colorCount = v.colorCount) := by
  unfold vertexDecodeMember at h
  dsimp only at h
  split at h
  · cases h
    exact ⟨fun _ => ⟨rfl, rfl⟩, fun _ => ⟨rfl, rfl⟩⟩
  · rename_i hplain
    cases hsemantic : m.semantic with
    | uv =>
        rw [hsemantic] at h
        obtain ⟨uvs, -, hpush⟩ := except_bind_eq_ok.1 h
        exact ⟨fun hor => absurd rfl (hor.resolve_left hplain), fun _ => pushUvs_colors hpush⟩
    | vertexColor =>
        rw [hsemantic] at h
        obtain ⟨color, -, hpush⟩ := except_bind_eq_ok.1 h
        obtain ⟨-, -, -, huvs, hcount⟩ := pushColor_ok hpush
        exact ⟨fun _ => ⟨huvs, hcount⟩, fun hor => absurd rfl (hor.resolve_left hplain)⟩
    | other code =>
        rw [hsemantic] at h
        cases h
    | _ =>
        rw [hsemantic] at h
        obtain ⟨x, -, hv⟩ := except_bind_eq_ok.1 h
        cases hv
        exact ⟨fun _ => ⟨rfl, rfl⟩, fun _ => ⟨rfl, rfl⟩⟩

/-- What one member does to the counts. -/
theorem scanMember_counts {a a' : Attributes} {m : LayoutMember} (h : scanMember a m = .ok a') :
    (m.semantic = .uv → raiseCount a.maxUvCount m.index = .ok a'.maxUvCount) ∧
      (m.semantic ≠ .uv → a'.maxUvCount = a.maxUvCount) ∧
      (m.semantic = .vertexColor → raiseCount a.maxColorCount m.index = .ok a'.maxColorCount) ∧
      (m.semantic ≠ .vertexColor → a'.maxColorCount = a.maxColorCount) := by
  unfold scanMember at h
  cases hsemantic : m.semantic with
  | uv =>
      rw [hsemantic] at h
      obtain ⟨count, hcount, ha⟩ := except_bind_eq_ok.1 h
      cases ha
      exact ⟨fun _ => hcount, fun hne => absurd rfl hne, nofun, fun _ => rfl⟩
  | vertexColor =>
      rw [hsemantic] at h
      obtain ⟨count, hcount, ha⟩ := except_bind_eq_ok.1 h
      cases ha
      exact ⟨nofun, fun _ => rfl, fun _ => hcount, fun hne => absurd rfl hne⟩
  | _ =>
      rw [hsemantic] at h
      cases h
      exact ⟨nofun, fun _ => rfl, nofun, fun _ => rfl⟩

theorem uvChannel_lawful : uvChannel.Lawful where
  stored_length h := decodeUv_length h
  array_zero := by simp [uvChannel, DecodedVertex.zero]
  count_zero := rfl
  decode_other := by
    intro mem ctx v v' m h hnot
    have hother : m.Special ∨ m.semantic ≠ .uv := by
      by_contra hcon
      rw [not_or, not_not] at hcon
      exact hnot ⟨hcon.2, hcon.1⟩
    obtain ⟨huvs, hcount⟩ := (vertexDecodeMember_channels h).1 hother
    exact ⟨congrArg Vector.toList huvs, hcount⟩
  decode_own := by
    intro mem ctx v v' m h hown hplain
    have hsemantic : m.semantic = .uv := hown
    unfold vertexDecodeMember at h
    dsimp only at h
    rw [if_neg hplain, hsemantic] at h
    obtain ⟨uvs, hdecode, hpush⟩ := except_bind_eq_ok.1 h
    obtain ⟨-, -, hcount, -, hroom⟩ := pushUvs_ok hpush
    exact ⟨uvs, hdecode, pushUvs_array hpush, hcount, hroom⟩
  merge_other := by
    intro decoded merged merged' m h hnot
    have hsemantic : m.semantic ≠ .uv := hnot
    unfold mergeMember at h
    split at h
    case h_7 huv => exact absurd huv hsemantic
    case h_8 =>
      split_ifs at h <;> cases h <;> rfl
    all_goals
      cases h
      rfl
  merge_own := by
    intro decoded merged merged' m h hown i hi
    have hsemantic : m.semantic = .uv := hown
    unfold mergeMember at h
    rw [hsemantic, hi] at h
    dsimp only at h
    have hcap : uvChannel.capacity = 8 := rfl
    by_cases hlt : i < 8
    · rw [if_pos (by omega), if_pos (by omega)] at h
      cases h
      rw [hcap, if_pos hlt]
      simp [uvChannel]
    · rw [if_neg (by omega)] at h
      cases h
      rw [hcap, if_neg hlt]
  scan_none := rfl
  scan_other h hnot := (scanMember_counts h).2.1 hnot
  scan_own h hown := (scanMember_counts h).1 hown
  gather a vertices indices := by simp [uvChannel, gatherMesh]

theorem colorChannel_lawful : colorChannel.Lawful where
  stored_length h := by
    obtain ⟨color, -, hitems⟩ := except_bind_eq_ok.1 h
    cases hitems
    rfl
  array_zero := by simp [colorChannel, DecodedVertex.zero]
  count_zero := rfl
  decode_other := by
    intro mem ctx v v' m h hnot
    have hother : m.Special ∨ m.semantic ≠ .vertexColor := by
      by_contra hcon
      rw [not_or, not_not] at hcon
      exact hnot ⟨hcon.2, hcon.1⟩
    obtain ⟨hcolors, hcount⟩ := (vertexDecodeMember_channels h).2 hother
    exact ⟨congrArg Vector.toList hcolors, hcount⟩
  decode_own := by
    intro mem ctx v v' m h hown hplain
    have hsemantic : m.semantic = .vertexColor := hown
    unfold vertexDecodeMember at h
    dsimp only at h
    rw [if_neg hplain, hsemantic] at h
    obtain ⟨color, hdecode, hpush⟩ := except_bind_eq_ok.1 h
    obtain ⟨harray, hcount, hroom, -⟩ := pushColor_ok hpush
    have hfit : v'.colorCount ≤ 4 := hcount ▸ hroom
    refine ⟨[color], ?_, harray, hcount, fun _ => hfit⟩
    simp only [colorChannel, hdecode]
    rfl
  merge_other := by
    intro decoded merged merged' m h hnot
    have hsemantic : m.semantic ≠ .vertexColor := hnot
    unfold mergeMember at h
    split at h
    case h_8 hcolor => exact absurd hcolor hsemantic
    case h_7 =>
      split_ifs at h <;> cases h <;> rfl
    all_goals
      cases h
      rfl
  merge_own := by
    intro decoded merged merged' m h hown i hi
    have hsemantic : m.semantic = .vertexColor := hown
    unfold mergeMember at h
    rw [hsemantic, hi] at h
    dsimp only at h
    have hcap : colorChannel.capacity = 4 := rfl
    by_cases hlt : i < 4
    · rw [if_pos (by omega), if_pos (by omega)] at h
      cases h
      rw [hcap, if_pos hlt]
      simp [colorChannel]
    · rw [if_neg (by omega)] at h
      cases h
      rw [hcap, if_neg hlt]
  scan_none := rfl
  scan_other h hnot := (scanMember_counts h).2.2.2 hnot
  scan_own h hown := (scanMember_counts h).2.2.1 hown
  gather a vertices indices := by simp [colorChannel, gatherMesh]

end SoulsFormats.Flver
