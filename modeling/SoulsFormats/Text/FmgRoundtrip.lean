import SoulsFormats.Core.Texts
import SoulsFormats.Text.FmgImage

set_option autoImplicit false

/-! # An FMG is read back as it was written

The reader goes over the image of a container (`FmgImage`) group by group and finds, behind each
offset, the text that was stored there. With an MD5 prefix the image stands 16 bytes further on, and
the reader shifts every offset by as much. -/

namespace SoulsFormats

open Bytes Fallible OpenAddressing BinaryReader

variable {os : Win32} {qs : Qsort} {c : Cursor}

/-! ## Texts -/

/-- The getter behind an offset reads the text that is stored there. -/
theorem reads_fmgText {unicode : Bool} {t : List UInt8} (ht : FmgFits os unicode t) {p : Nat}
    (hp : 0 < p) (hheld : Holds c.mem p (fmgStored os unicode c.bigEndian t))
    (hsize : c.mem.length ≤ INT32_MAX) (hpos : c.pos ≤ c.mem.length) :
    Reads (fmgReadText os unicode p) c (some t) c := by
  have hle := hheld.le
  have hoff : (0 : Int) < (p : Int) := by omega
  have hshort : (if unicode then (os.units t).length else (os.encoded .shiftJis t).length) ≤ INT32_MAX := by
    cases unicode with
    | true =>
        rw [fmgStored, if_pos rfl, List.length_append, length_unitBytes] at hle
        rw [if_pos rfl]
        omega
    | false =>
        rw [fmgStored, if_neg (by decide), List.length_append] at hle
        rw [if_neg (by decide)]
        omega
  have hget := reads_getText ⟨ht, hshort⟩ hheld hpos
  rw [fmgReadText, if_pos hoff]
  cases unicode with
  | true => exact hget.bind (Reads.pure _ _)
  | false => exact hget.bind (Reads.pure _ _)

/-- An offset of the body, as one of the whole file. `pre` is the MD5 prefix, if there is one. -/
theorem reads_fmgShift {hasMd5 : Bool} {pre : List UInt8}
    (hpre : pre.length = if hasMd5 then 16 else 0) {p : Nat} (hp : p < 2 ^ 31) (c : Cursor) :
    Reads (fmgShift hasMd5 (p : Int)) c ((pre.length + p : Nat) : Int) c := by
  cases hasMd5 with
  | false =>
      have hlen : pre.length = 0 := hpre
      rw [hlen, Nat.zero_add]
      exact Reads.pure _ _
  | true =>
      have hlen : pre.length = 16 := hpre
      have hsum : ((pre.length + p : Nat) : Int) = p + 16 := by omega
      rw [hsum]
      exact reads_int64Add (by omega) c

/-! ## The list of entries -/

/-- The doubling loop ends at a capacity. -/
theorem entriesCap_ok (need : Nat) (hneed : need ≤ 2 ^ 63) (fuel newCap : Nat)
    (hfuel : need ≤ newCap * 2 ^ fuel) : ∃ cap, entriesCap need (fuel + 1) newCap = some cap := by
  induction fuel generalizing newCap with
  | zero =>
      rw [entriesCap, if_neg (by omega)]
      exact ⟨_, rfl⟩
  | succ fuel ih =>
      rw [entriesCap]
      split
      · have hhalf : SIZE_MAX / 2 = 2 ^ 63 - 1 := by decide
        rw [if_neg (by omega)]
        refine ih (newCap * 2) ?_
        rwa [Nat.mul_assoc, ← Nat.pow_succ']
      · exact ⟨_, rfl⟩

/-- Appending an entry succeeds where the allocator does not refuse. -/
theorem reads_entriesAppend (fmg : Fmg) (id : Int32) (t : Option (List UInt8))
    (hcount : fmg.entries.length < 2 ^ 63) (c : Cursor) :
    ∃ cap, Reads (onHeap (entriesAppend fmg id t)) c
      { fmg with entries := fmg.entries ++ [⟨id, t⟩], entryCapacity := cap } c := by
  have hreserve : ∃ cap, granted (entriesReserve fmg (fmg.entries.length + 1))
      = some { fmg with entryCapacity := cap } ∧
      Steady (entriesReserve fmg (fmg.entries.length + 1)) := by
    unfold entriesReserve
    split
    · exact ⟨fmg.entryCapacity, rfl, Steady.pure _⟩
    · have hstart : 0 < if fmg.entryCapacity ≠ 0 then fmg.entryCapacity * 2 else 16 := by
        split <;> omega
      obtain ⟨cap, hcap⟩ := entriesCap_ok (fmg.entries.length + 1) (by omega) 64
        (if fmg.entryCapacity ≠ 0 then fmg.entryCapacity * 2 else 16) (by
          calc fmg.entries.length + 1 ≤ 1 * 2 ^ 64 := by omega
            _ ≤ _ := Nat.mul_le_mul_right _ hstart)
      rw [hcap]
      exact ⟨cap, rfl, (Steady.pure _).alloc_bind⟩
  obtain ⟨cap, hgranted, hsteady⟩ := hreserve
  refine ⟨cap, reads_onHeap (hsteady.bind fun _ => Steady.pure _) ?_ c⟩
  obtain ⟨h, hrun⟩ := granted_eq_some.1 hgranted
  refine granted_eq_some.2 ⟨h, ?_⟩
  rw [bind_ok hrun]
  rfl

/-! ## One group -/

/-- The entries of a group, as the inner loop finds them. -/
theorem reads_fmgEntries (pre B : List UInt8) (fmg : Fmg) (firstId : Int32) (g : List FmgEntry)
    (offsets : List Int64) (j : Nat) (c : Cursor) (hmem : c.mem = pre ++ B)
    (hpre : pre.length = if fmg.hasMd5 then 16 else 0) (hsize : c.mem.length ≤ INT32_MAX)
    (hfit : ∀ v ∈ g, ∀ t, v.textUtf8 = some t → FmgFits os fmg.unicode t)
    (hids : ∀ n v, g[n]? = some v → v.id = firstId + Int32.ofNat (j + n))
    (hstrings : StringsAt os fmg.unicode c.bigEndian offsets g B)
    (htable : Holds c.mem c.pos (offsetBytes c.bigEndian c.varintLong offsets))
    (hcount : fmg.entries.length + g.length < 2 ^ 63) :
    ∃ cap, Reads (fmgReadEntries os firstId g.length j fmg) c
      { fmg with entries := fmg.entries ++ g, entryCapacity := cap }
      (c.advance (offsetBytes c.bigEndian c.varintLong offsets).length) := by
  induction g generalizing fmg offsets j c with
  | nil =>
      cases hstrings
      refine ⟨fmg.entryCapacity, ?_⟩
      rw [List.append_nil]
      exact Reads.pure _ _
  | cons v g ih =>
      rcases offsets with _ | ⟨off, offsets⟩
      · cases hstrings
      obtain ⟨htext, hrest⟩ := List.forall₂_cons.1 hstrings
      rw [offsetBytes, List.flatMap_cons] at htable
      obtain ⟨hoff, htable'⟩ := holds_append.1 htable
      have hlen := hmem ▸ hsize
      rw [List.length_append] at hlen
      let c1 := c.advance (BinaryWriter.scalarBytes c.bigEndian c.varintLong .varint off).length
      have hposle : c1.pos ≤ c1.mem.length := hoff.le
      -- the offset as the reader sees it, and the text behind it
      have hfound : Reads readVarint c off c1 ∧
          ∃ at' : Int, Reads (fmgShift (fmg.hasMd5 && decide (0 < off.toInt)) off.toInt) c1 at' c1 ∧
            Reads (fmgReadText os fmg.unicode at') c1 v.textUtf8 c1 := by
        cases hv : v.textUtf8 with
        | none =>
            rw [hv] at htext
            have hzero : off = Int64.ofNat 0 := htext
            subst hzero
            refine ⟨parses_varint_ofNat c (by decide) hoff, 0, ?_, Reads.pure _ _⟩
            rw [fmgShift, if_neg (by cases fmg.hasMd5 <;> decide)]
            exact Reads.pure _ _
        | some t =>
            rw [hv] at htext
            obtain ⟨p, hp, rfl, hheld⟩ := htext
            have hconst : INT32_MAX = 2 ^ 31 - 1 := rfl
            have hsmall : p < 2 ^ 31 := by
              have hle := hheld.le
              have h0 : 0 < (fmgStored os fmg.unicode c.bigEndian t).length := by
                unfold fmgStored
                split <;> simp
              omega
            have hint : (Int64.ofNat p).toInt = p := Int64.toInt_ofNat_of_lt (by omega)
            have hpos : decide ((0 : Int) < (p : Int)) = true := decide_eq_true (by omega)
            refine ⟨parses_varint_ofNat c hsmall hoff, ((pre.length + p : Nat) : Int), ?_, ?_⟩
            · rw [hint, hpos, Bool.and_true]
              exact reads_fmgShift hpre hsmall c1
            · refine reads_fmgText (hfit v List.mem_cons_self t hv) (by omega) ?_ hsize hposle
              show Holds c.mem (pre.length + p) (fmgStored os fmg.unicode c.bigEndian t)
              rw [hmem]
              exact hheld.append_left pre
      obtain ⟨hread, at', hshift, htextAt⟩ := hfound
      have hid : firstId + Int32.ofNat j = v.id := (hids 0 v rfl).symm
      obtain ⟨cap1, happend⟩ := reads_entriesAppend fmg v.id v.textUtf8
        (by simp only [List.length_cons] at hcount; omega) c1
      obtain ⟨cap, hloop⟩ := ih { fmg with
          entries := fmg.entries ++ [⟨v.id, v.textUtf8⟩], entryCapacity := cap1 } offsets (j + 1) c1
        hmem hpre hsize (fun v' hv' => hfit v' (List.mem_cons_of_mem v hv'))
        (fun n v' hn => by
          have h := hids (n + 1) v' hn
          rwa [show j + (n + 1) = j + 1 + n by omega] at h)
        hrest htable' (by
          simp only [List.length_append, List.length_cons, List.length_nil] at hcount ⊢
          omega)
      refine ⟨cap, ?_⟩
      rw [← hid] at happend
      refine hread.bind (hshift.bind (htextAt.bind (happend.bind ?_)))
      rw [hid]
      have hend : c1.advance (offsetBytes c1.bigEndian c1.varintLong offsets).length
          = c.advance (offsetBytes c.bigEndian c.varintLong (off :: offsets)).length := by
        rw [offsetBytes, offsetBytes, List.flatMap_cons, List.length_append]
        exact Cursor.advance_advance _ _ _
      rw [hend] at hloop
      simp only [List.append_assoc, List.cons_append, List.nil_append] at hloop
      exact hloop

/-! ## The group table -/

/-- The groups of a sorted view: each starts where the one before it ends, is not empty, and counts
    its ids up by one. -/
def GroupsFrom : Nat → List (Nat × List FmgEntry) → Prop
  | _, [] => True
  | i, (k, g) :: groups =>
    k = i ∧ g ≠ [] ∧
      (∀ (n : Nat) (v : FmgEntry), g[n]? = some v → v.id.toInt = (firstId g).toInt + (n : Int)) ∧
      GroupsFrom (i + g.length) groups

theorem groupsFrom_fmgGroups (i : Nat) (view : List FmgEntry)
    (hsorted : view.Pairwise fun a b => a.id.toInt ≤ b.id.toInt) :
    GroupsFrom i (fmgGroups i view) := by
  induction view generalizing i with
  | nil => trivial
  | cons v view ih =>
      obtain ⟨hfirst, hsorted'⟩ := List.pairwise_cons.1 hsorted
      have hsingle : GroupsFrom i ((i, [v]) :: fmgGroups (i + 1) view) := by
        refine ⟨rfl, List.cons_ne_nil _ _, fun n v' hn => ?_, ih (i + 1) hsorted'⟩
        cases n with
        | zero =>
            cases hn
            simp [firstId]
        | succ n => cases hn
      rcases view with _ | ⟨v', view⟩
      · exact hsingle
      · by_cases hnext : v'.id = v.id + 1
        · obtain ⟨g, groups, hrest, hall⟩ := fmgGroups_join i v v' view hnext
          obtain ⟨-, -, hids, hgroups⟩ := hrest ▸ ih (i + 1) hsorted'
          -- the ids are sorted, so the next one has not wrapped
          have hstep : v'.id.toInt = v.id.toInt + 1 := by
            have hle := hfirst v' List.mem_cons_self
            have hlt := v.id.toInt_lt
            have hge := v.id.le_toInt
            rw [hnext, Int32.toInt_add] at hle ⊢
            have hone : (1 : Int32).toInt = 1 := rfl
            rw [hone] at hle ⊢
            by_cases hmax : v.id.toInt = 2 ^ 31 - 1
            · rw [hmax] at hle
              exact absurd hle (by decide)
            · exact Int.bmod_eq_of_le (by omega) (by omega)
          rw [hall]
          refine ⟨rfl, List.cons_ne_nil _ _, fun n u hn => ?_, ?_⟩
          · cases n with
            | zero =>
                cases hn
                simp [firstId]
            | succ n =>
                have hu := hids n u hn
                have hfirst1 : firstId (v' :: g) = v'.id := rfl
                have hfirst2 : firstId (v :: v' :: g) = v.id := rfl
                rw [hfirst1] at hu
                rw [hfirst2, hu, hstep]
                push_cast
                omega
          · rw [List.length_cons, show i + ((v' :: g).length + 1) = i + 1 + (v' :: g).length by omega]
            exact hgroups
        · have hno : ¬ ((v' :: view).head?.map FmgEntry.id = some (v.id + 1)) :=
            fun h => hnext (Option.some.inj h)
          rw [fmgGroups, if_neg hno]
          exact hsingle

/-- An id is given back by the reader's count. -/
theorem id_eq_add {first id : Int32} {n : Nat} (h : id.toInt = first.toInt + n) :
    id = first + Int32.ofNat n := by
  calc id = Int32.ofInt id.toInt := (Int32.ofInt_toInt id).symm
    _ = Int32.ofInt (first.toInt + n) := by rw [h]
    _ = Int32.ofInt first.toInt + Int32.ofInt n := Int32.ofInt_add _ _
    _ = first + Int32.ofNat n := by rw [Int32.ofInt_toInt, Int32.ofInt_eq_ofNat]

theorem parses_assertWide (wide : Bool) (v : Int32) (c : Cursor) :
    Parses (assertWide wide v) c
      (if wide then wordBytes c.bigEndian 4 v.toUInt32.toNat else []) () := by
  cases wide with
  | true =>
      exact fun h => (parses_assert (parses_i32 c v) List.mem_cons_self h).bind (Reads.pure _ _)
  | false => exact fun _ => Reads.pure _ _

/-- **The outer loop reads the groups back.** -/
theorem reads_fmgGroups (pre B : List UInt8) (tablePos : Nat) (fmg : Fmg) (i : Nat)
    (groups : List (Nat × List FmgEntry)) (offsets : List Int64) (c : Cursor)
    (hmem : c.mem = pre ++ B) (hpre : pre.length = if fmg.hasMd5 then 16 else 0)
    (hsize : c.mem.length ≤ INT32_MAX) (hwide : c.varintLong = fmg.version.wide)
    (hfit : ∀ v ∈ (groups.map Prod.snd).flatten, ∀ t, v.textUtf8 = some t →
      FmgFits os fmg.unicode t)
    (hgroups : GroupsFrom i groups)
    (hstrings : StringsAt os fmg.unicode c.bigEndian offsets (groups.map Prod.snd).flatten B)
    (htable : Holds c.mem (pre.length + tablePos + i * fmg.version.perOffset)
      (offsetBytes c.bigEndian c.varintLong offsets))
    (hheld : Holds c.mem c.pos (groups.flatMap (groupBytes c.bigEndian fmg.version.wide)))
    (hindex : i + (groups.map Prod.snd).flatten.length ≤ INT32_MAX)
    (hcount : fmg.entries.length + (groups.map Prod.snd).flatten.length < 2 ^ 63) :
    ∃ cap, Reads (fmgReadGroups os ((pre.length + tablePos : Nat) : Int) groups.length fmg) c
      { fmg with entries := fmg.entries ++ (groups.map Prod.snd).flatten, entryCapacity := cap }
      (c.advance (groups.flatMap (groupBytes c.bigEndian fmg.version.wide)).length) := by
  induction groups generalizing fmg i offsets c with
  | nil =>
      refine ⟨fmg.entryCapacity, ?_⟩
      rw [List.map_nil, List.flatten_nil, List.append_nil]
      exact Reads.pure _ _
  | cons group groups ih =>
      obtain ⟨k, g⟩ := group
      obtain ⟨rfl, hne, hids, hrest⟩ := hgroups
      rw [List.map_cons, List.flatten_cons] at hfit hstrings hindex hcount ⊢
      rw [List.flatMap_cons] at hheld ⊢
      simp only [List.length_append] at hindex hcount
      have hgpos : 0 < g.length := List.length_pos_iff.2 hne
      have hconst : INT32_MAX = 2 ^ 31 - 1 := rfl
      -- the offsets of this group and of the others
      have hofs := List.forall₂_take_append _ _ _ hstrings
      have hofs' := List.forall₂_drop_append _ _ _ hstrings
      have hsplit : offsets.take g.length ++ offsets.drop g.length = offsets :=
        List.take_append_drop _ _
      rw [← hsplit, offsetBytes, List.flatMap_append] at htable
      obtain ⟨htable1, htable2⟩ := holds_append.1 htable
      -- the ids at both ends of the group
      obtain ⟨last, hlast⟩ : ∃ last, g[g.length - 1]? = some last :=
        ⟨_, List.getElem?_eq_getElem (by omega)⟩
      have hlastId : lastId g = last.id := by
        rw [lastId, List.getLast?_eq_getElem?, hlast]
        rfl
      have hlastInt : (lastId g).toInt = (firstId g).toInt + (g.length - 1 : Nat) := by
        rw [hlastId]
        exact hids _ _ hlast
      have hspan : (lastId g).toInt - (firstId g).toInt + 1 = g.length := by omega
      have hindexInt : (Int32.ofNat k).toInt = k := Int32.toInt_ofNat_of_lt (by omega)
      let x := groupBytes c.bigEndian fmg.version.wide (k, g)
      obtain ⟨hhere, hafter⟩ := holds_append.1 hheld
      -- the entry of the group in the group table
      have hwhole := hhere.le
      rw [groupBytes, groupHead, groupTail] at hhere
      simp only [List.append_assoc] at hhere
      let c1 := c.advance x.length
      have hc1 : c1.pos ≤ c1.mem.length := hwhole
      let p := pre.length + tablePos + k * fmg.version.perOffset
      have hp : p ≤ c.mem.length := (Nat.le_add_right _ _).trans htable1.le
      let c2 : Cursor := { c1 with pos := p, steps := c1.pos :: c1.steps }
      have htoNat : (((g.length : Nat) : Int)).toNat = g.length := Int.toNat_natCast _
      obtain ⟨cap1, hentries⟩ := reads_fmgEntries pre B fmg (firstId g) g (offsets.take g.length) 0 c2
        hmem hpre hsize (fun v hv => hfit v (List.mem_append_left _ hv))
        (fun n v hn => by
          rw [Nat.zero_add]
          exact id_eq_add (hids n v hn)) hofs htable1 (by omega)
      obtain ⟨cap, hloop⟩ := ih { fmg with entries := fmg.entries ++ g, entryCapacity := cap1 }
        (k + g.length) (offsets.drop g.length) c1 hmem hpre hsize hwide
        (fun v hv => hfit v (List.mem_append_right _ hv)) hrest hofs'
        (by
          have hlen : (offsetBytes c.bigEndian c.varintLong (offsets.take g.length)).length
              = g.length * fmg.version.perOffset := by
            rw [length_offsetBytes, hofs.length_eq, hwide]
            rfl
          rw [offsetBytes] at hlen
          rw [hlen, Nat.add_assoc, ← Nat.add_mul] at htable2
          exact htable2)
        hafter (by rw [← Nat.add_assoc] at hindex; exact hindex)
        (by simp only [List.length_append]; omega)
      refine ⟨cap, ?_⟩
      have hstep : Reads (fmgReadGroups os ((pre.length + tablePos : Nat) : Int)
          (groups.length + 1) fmg) c
          { fmg with
            entries := fmg.entries ++ (g ++ (groups.map Prod.snd).flatten)
            entryCapacity := cap }
          (c1.advance (groups.flatMap (groupBytes c.bigEndian fmg.version.wide)).length) := by
        have hxlen : x.length = 4 + (4 + (4 + (if fmg.version.wide
            then wordBytes c.bigEndian 4 (0 : Int32).toUInt32.toNat else []).length)) := by
          simp only [x, groupBytes, groupHead, groupTail, List.length_append, length_wordBytes]
          omega
        refine (parses_i32 c _).then hhere fun hhere => ?_
        refine (parses_i32 _ _).then hhere fun hhere => ?_
        refine (parses_i32 _ _).then hhere fun hhere => ?_
        refine Reads.bind (parses_assertWide fmg.version.wide 0 _ hhere) ?_
        have hle : firstId g ≤ lastId g := by
          rw [Int32.le_iff_toInt_le]
          omega
        have hzero : (0 : Int32) ≤ Int32.ofNat k := by
          rw [Int32.le_iff_toInt_le, hindexInt]
          exact Int.natCast_nonneg k
        refine Reads.check hle (Reads.check hzero ?_)
        simp only [hspan, hindexInt]
        refine Reads.check (by omega) ?_
        have hpint : ((pre.length + tablePos : Nat) : Int) + (k : Int) * fmg.version.perOffset
            = (p : Nat) := by
          simp only [p]
          push_cast
          rfl
        refine (reads_int64Add (by rw [hpint]; omega) _).bind ?_
        rw [hpint, htoNat]
        refine Reads.at c1 ?_ ?_
        · simp only [c1, hxlen, Cursor.advance_advance, Cursor.advance_bigEndian, length_wordBytes,
            Nat.add_assoc]
        · refine (reads_stepIn (c := c1) hp).bind (hentries.attempt.bind ?_)
          have hout : Reads stepOut (c2.advance
              (offsetBytes c2.bigEndian c2.varintLong (offsets.take g.length)).length) () c1 :=
            reads_stepOut rfl hc1
          refine hout.attempt.bind ?_
          simp only [List.append_assoc] at hloop
          exact hloop
      rw [List.length_append, ← Cursor.advance_advance]
      exact hstep

/-! ## The header -/

/-- The marker of the MD5 prefix is a first byte other than 0. -/
theorem reads_fmgReadMd5Prefix (pre B : List UInt8) (hasMd5 : Bool) (hmem : c.mem = pre ++ B)
    (hpre : pre.length = if hasMd5 then 16 else 0) (hfirst : hasMd5 = true → pre.head? ≠ some 0)
    (hB : B.head? = some 0) (hpos : c.pos = 0) :
    Reads fmgReadMd5Prefix c hasMd5 { c with pos := pre.length } := by
  obtain ⟨b, hb⟩ : ∃ b, (pre ++ B).head? = some b ∧ (b ≠ 0 ↔ hasMd5 = true) := by
    cases hasMd5 with
    | true =>
        have hlen : pre.length = 16 := hpre
        rcases pre with _ | ⟨b, pre⟩
        · cases hlen
        · exact ⟨b, rfl, fun _ => rfl, fun _ hb0 => hfirst rfl (by rw [hb0]; rfl)⟩
    | false =>
        have hnil : pre = [] := List.length_eq_zero_iff.1 hpre
        subst hnil
        exact ⟨0, hB, fun h => absurd rfl h, fun h => by cases h⟩
  obtain ⟨hhead, hiff⟩ := hb
  have hat : Holds c.mem 0 [b] := by
    rw [hmem]
    obtain ⟨tail, htail⟩ := List.head?_eq_some_iff.1 hhead
    rw [htail]
    exact ⟨[], tail, rfl, rfl⟩
  have hget : Reads (getU8 0) c b c :=
    reads_get (p := 0) (Nat.zero_le _) (by omega) (parses_u8 { c with
      pos := 0, steps := c.pos :: c.steps } b hat)
  refine hget.bind ?_
  cases hasMd5 with
  | true =>
      have hlen : pre.length = 16 := hpre
      have hle : 16 ≤ c.mem.length := by
        rw [hmem, List.length_append]
        omega
      have hskip : Reads (skip 16) c () { c with pos := 16 } := by
        refine Reads.peek (v := 0) (fun r hr => ?_) (reads_seek rfl hle)
        rw [← hpos]
        exact congrArg Cursor.pos hr
      rw [if_pos (hiff.2 rfl), hlen]
      exact hskip.bind (Reads.pure _ _)
  | false =>
      have hlen : pre.length = 0 := hpre
      rw [if_neg (fun h => absurd (hiff.1 h) (by decide)), hlen, ← hpos]
      exact Reads.pure _ _

theorem fmgVersionOf_byte (version : FmgVersion) : fmgVersionOf version.byte = some version := by
  cases version <;> rfl

/-- **The header is read back**, and the cursor stands at the group table. -/
theorem reads_fmgReadHeader (pre B rest : List UInt8) (fmg : Fmg) (fileSize groupCount : Int32)
    (tablePos : Nat) (flexible : Bool) (hpre : pre.length = if fmg.hasMd5 then 16 else 0)
    (hfirst : fmg.hasMd5 = true → pre.head? ≠ some 0)
    (hheld : Holds B 0 (fmgHeaderBytes fmg fileSize groupCount (Int64.ofNat tablePos) ++ rest))
    (hcount : 0 ≤ groupCount) (htable : tablePos < 2 ^ 31) :
    Reads fmgReadHeader ⟨pre ++ B, 0, false, false, [], flexible⟩
      ({ fmg with reuseOffsets := false, entries := [], entryCapacity := 0 }, groupCount,
        ((pre.length + tablePos : Nat) : Int))
      ⟨pre ++ B, pre.length + (fmgHeaderBytes fmg fileSize groupCount
        (Int64.ofNat tablePos)).length, fmg.bigEndian, fmg.version.wide, [], flexible⟩ := by
  have hB : B.head? = some 0 := by
    obtain ⟨front, back, rfl, hfront⟩ := hheld
    rw [List.length_eq_zero_iff.1 hfront, fmgHeaderBytes]
    rfl
  have hat : Holds (pre ++ B) pre.length
      (fmgHeaderBytes fmg fileSize groupCount (Int64.ofNat tablePos) ++ rest) := by
    have h := hheld.append_left pre
    rwa [Nat.add_zero] at h
  let c0 : Cursor := ⟨pre ++ B, 0, false, false, [], flexible⟩
  have hblank : Reads (onHeap fmgAllocBlank) c0
      ⟨.darkSouls1, false, true, false, false, [], 0⟩ c0 :=
    reads_onHeap (Steady.pure _).alloc_bind rfl c0
  have hmd5 := reads_fmgReadMd5Prefix (c := c0) pre B fmg.hasMd5 rfl hpre hfirst hB rfl
  rw [fmgHeaderBytes] at hat
  simp only [List.append_assoc] at hat
  refine hblank.bind (hmd5.bind ?_)
  refine (parses_assert (parses_u8 _ 0) (by decide)).then hat fun hat => ?_
  refine (parses_bool _ _).then hat fun hat => ?_
  refine (Reads.setBigEndian _ _).bind ?_
  refine (parses_u8 _ _).then hat fun hat => ?_
  rw [fmgVersionOf_byte]
  refine (parses_assert (parses_u8 _ 0) (by decide)).then hat fun hat => ?_
  refine (Reads.setVarintLong _ _).bind ?_
  refine (parses_i32 _ _).then hat fun hat => ?_
  refine (parses_bool _ _).then hat fun hat => ?_
  refine (parses_assert (parses_u8 _ _) List.mem_cons_self).then hat fun hat => ?_
  refine (parses_assert (parses_u8 _ 0) (by decide)).then hat fun hat => ?_
  refine (parses_assert (parses_u8 _ 0) (by decide)).then hat fun hat => ?_
  refine (parses_i32 _ _).then hat fun hat => Reads.check hcount ?_
  refine (parses_i32 _ _).then hat fun hat => ?_
  refine (parses_assertWide _ _ _).then hat fun hat => ?_
  refine (parses_varint_ofNat _ htable).then hat fun hat => ?_
  have hint : (Int64.ofNat tablePos).toInt = tablePos := Int64.toInt_ofNat_of_lt (by omega)
  rw [hint]
  refine (reads_fmgShift hpre htable _).bind ?_
  refine (parses_assert (parses_varint_ofNat _ (p := 0) (by decide)) (by decide)).then hat
    fun _ => ?_
  refine Reads.at _ ?_ (Reads.pure _ _)
  simp only [c0, fmgHeaderBytes, Cursor.advance, List.length_append, Nat.add_assoc]
  rfl

/-! ## The whole file -/

/-- **An image is read back**: the reader finds the sorted view. -/
theorem reads_fmgRead (pre B : List UInt8) (fmg : Fmg) (view : List FmgEntry) (flexible : Bool)
    (himage : FmgImage os fmg view B) (hpre : pre.length = if fmg.hasMd5 then 16 else 0)
    (hfirst : fmg.hasMd5 = true → pre.head? ≠ some 0) (hsize : (pre ++ B).length ≤ INT32_MAX)
    (hfit : ∀ v ∈ view, ∀ t, v.textUtf8 = some t → FmgFits os fmg.unicode t)
    (hsorted : view.Pairwise fun a b => a.id.toInt ≤ b.id.toInt) :
    ∃ cap c', Reads (fmgRead os) ⟨pre ++ B, 0, false, false, [], flexible⟩
      { fmg with reuseOffsets := false, entries := view, entryCapacity := cap } c' := by
  obtain ⟨fileSize, tablePos, offsets, hheld, htable, hstrings⟩ := himage.held
  have hconst : INT32_MAX = 2 ^ 31 - 1 := rfl
  have hcount := himage.count
  have hgroups := length_fmgGroups_le 0 view
  have hflat := fmgGroups_flatten 0 view
  have hgroupInt : (Int32.ofNat (fmgGroups 0 view).length).toInt = (fmgGroups 0 view).length :=
    Int32.toInt_ofNat_of_lt (by omega)
  have htableLe := htable.le
  rw [List.length_append] at hsize
  have hheader := reads_fmgReadHeader pre B _ fmg fileSize
    (Int32.ofNat (fmgGroups 0 view).length) tablePos flexible hpre hfirst hheld
    (by rw [Int32.le_iff_toInt_le, hgroupInt]; exact Int.natCast_nonneg _) (by omega)
  let head := fmgHeaderBytes fmg fileSize (Int32.ofNat (fmgGroups 0 view).length)
    (Int64.ofNat tablePos)
  let c : Cursor :=
    ⟨pre ++ B, pre.length + head.length, fmg.bigEndian, fmg.version.wide, [], flexible⟩
  have htableAt := htable.append_left pre
  have hgroupsAt := (holds_append.1 hheld).2.append_left pre
  rw [Nat.zero_add] at hgroupsAt
  obtain ⟨cap, hloop⟩ := reads_fmgGroups pre B tablePos
    { fmg with reuseOffsets := false, entries := [], entryCapacity := 0 } 0 (fmgGroups 0 view) offsets
    c rfl hpre (by rw [List.length_append]; exact hsize) rfl (by rw [hflat]; exact hfit)
    (groupsFrom_fmgGroups 0 view hsorted) (by rw [hflat]; exact hstrings)
    (by rw [Nat.zero_mul]; exact htableAt) hgroupsAt (by rw [hflat]; omega)
    (by rw [hflat]; simp only [List.length_nil]; omega)
  rw [hflat, List.nil_append] at hloop
  have hnum : (Int32.ofNat (fmgGroups 0 view).length).toInt.toNat = (fmgGroups 0 view).length := by
    rw [hgroupInt, Int.toNat_natCast]
  rw [← hnum] at hloop
  exact ⟨cap, _, hheader.bind hloop⟩

/-- **A container that is written is read back**: with the same settings and the same entries, sorted
    by id. The marker of the MD5 prefix is its first byte, so a hash that starts with 0 is left out, and so are two
    entries with the greatest id, behind the first of which the writer overflows; with one at most, no sum of the
    writer does. -/
theorem fmg_written_is_read_back (os : Win32) (hos : os.AsciiCompatible) (qs : Qsort)
    (md5 : List UInt8 → Except SfError (Vector UInt8 16)) (fmg : Fmg) (hmax : fmg.OneMaxId)
    (hfit : ∀ e ∈ fmg.entries, ∀ t, e.textUtf8 = some t → FmgFits os fmg.unicode t) :
    (∀ w : BinaryWriter, (fmgWriteBody os qs fmg w).1 ≠ .error .undefinedBehaviour) ∧
      ∀ (heap : Heap) (out : List UInt8), (fmgSerialize os qs md5 fmg heap).1 = .ok out → out.length < 2 ^ 31 →
        (fmg.hasMd5 = true → out.head? ≠ some 0) → ∀ (flexible : Bool) (heap' : Heap), heap'.Calm →
        ∃ fmg', (fmgReadFromMemory os flexible out heap').1 = .ok fmg' ∧
          fmg'.version = fmg.version ∧ fmg'.bigEndian = fmg.bigEndian ∧ fmg'.unicode = fmg.unicode ∧
          fmg'.hasMd5 = fmg.hasMd5 ∧ fmg'.entries.Perm fmg.entries ∧
          fmg'.entries.Pairwise fun a b => a.id.toInt ≤ b.id.toInt := by
  refine ⟨never_fmgWriteBody qs hmax, fun heap out hwrite hsize hfirst flexible heap' hcalm => ?_⟩
  have hrun : fmgSerialize os qs md5 fmg heap = (.ok out, (fmgSerialize os qs md5 fmg heap).2) :=
    Prod.ext hwrite rfl
  obtain ⟨pre, B, view, rfl, hpre, hperm, hsorted, himage⟩ :=
    fmgSerialize_spec hos fmg hfit md5 heap _ _ hrun
  have hprefix : fmg.hasMd5 = true → pre.head? ≠ some 0 := by
    intro hmd5 hzero
    obtain ⟨tail, rfl⟩ := List.head?_eq_some_iff.1 hzero
    exact hfirst hmd5 rfl
  have hconst : INT32_MAX = 2 ^ 31 - 1 := rfl
  obtain ⟨cap, c', hread⟩ := reads_fmgRead pre B fmg view flexible himage hpre hprefix (by omega)
    (fun v hv => hfit v (hperm.mem_iff.1 hv)) hsorted
  obtain ⟨_, hok, -⟩ := onMemory_ok hread hcalm
  exact ⟨_, congrArg Prod.fst hok, rfl, rfl, rfl, rfl, hperm, hsorted⟩

/-- Two texts, an empty and a deleted one, with ids out of order and a hash in front. -/
def fmgSample : Fmg :=
  { version := .darkSouls3, bigEndian := false, unicode := true, hasMd5 := true, reuseOffsets := true,
    entries := [⟨5, some [65]⟩, ⟨1, none⟩, ⟨2, some []⟩, ⟨5, some [65]⟩, ⟨Int32.maxValue, none⟩],
    entryCapacity := 5 }

/-- What a container is written to under a constant hash. -/
def fmgBytes (hash : Vector UInt8 16) (fmg : Fmg) : List UInt8 :=
  (fmgSerialize .ascii .insertion (fun _ => .ok hash) fmg []).1.toOption.getD []

theorem fmg_sample_is_read_back :
    ∃ fmg', (fmgReadFromMemory .ascii false (fmgBytes (Vector.replicate 16 7) fmgSample) []).1 = .ok fmg' ∧
      fmg'.entries.Perm fmgSample.entries := by
  have hascii : ∀ e ∈ fmgSample.entries, ∀ t ∈ e.textUtf8, (∀ b ∈ t, b < 0x80) ∧ ∀ b ∈ t, b ≠ 0 := by
    decide +kernel
  obtain ⟨-, hback⟩ := fmg_written_is_read_back .ascii Win32.ascii_compatible .insertion
    (fun _ => .ok (Vector.replicate 16 7)) fmgSample (by decide)
    fun e he t ht => Win32.ascii_compatible.fits16 (hascii e he t ht).1 (hascii e he t ht).2
  obtain ⟨fmg', hread, -, -, -, -, hperm, -⟩ := hback [] (fmgBytes (Vector.replicate 16 7) fmgSample)
    (by decide +kernel) (by decide +kernel) (by decide +kernel) false [] Heap.calm_nil
  exact ⟨fmg', hread, hperm⟩

/-- The id behind the greatest one is computed where another entry follows. -/
example : (fmgSerialize .ascii .insertion (fun _ => .ok (Vector.replicate 16 7))
    { fmgSample with entries := [⟨Int32.maxValue, none⟩, ⟨Int32.maxValue, none⟩] } []).1 =
      .error .undefinedBehaviour := by
  decide +kernel

/-- A hash that starts with 0 is taken for a header. -/
theorem fmg_zero_hash_is_not_read_back :
    let fmg := { fmgSample with entries := [] }
    let out := fmgBytes (Vector.replicate 16 0) fmg
    (fmgSerialize .ascii .insertion (fun _ => .ok (Vector.replicate 16 0)) fmg []).1 = .ok out ∧
      out.length < 2 ^ 31 ∧ (fmgReadFromMemory .ascii false out []).1 = .error .badMagic := by
  decide +kernel

end SoulsFormats
