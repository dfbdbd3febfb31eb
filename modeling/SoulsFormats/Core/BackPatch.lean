import SoulsFormats.Core.ReservationMap

set_option autoImplicit false

/-! # Back-patching is writing in place

A program reserves, goes on writing, and fills what it has reserved when it knows the value. Its
direct counterpart (`directly`) writes that value at once, where the reservation stood. Both runs are
followed side by side: `Sim` says that the direct file agrees with the deferred one outside the live
reservations and holds, inside each of them, the value the rest of the program will fill in. -/

namespace SoulsFormats

open Bytes Fallible OpenAddressing

namespace BinaryWriter

/-! ## The two programs -/

/-- A program: its calls up to the first that fails. -/
def runAll (os : Win32) : List WriterCall → WriteM Unit
  | [] => pure ()
  | c :: rest => do
    c.run os
    runAll os rest

/-- The byte order in force after a call. -/
def WriterCall.bigEndianAfter (be : Bool) : WriterCall → Bool
  | setBigEndian be' => be'
  | _ => be

/-- The varint width in force after a call. -/
def WriterCall.varintLongAfter (long : Bool) : WriterCall → Bool
  | setVarintLong long' => long'
  | _ => long

/-- The bytes the first fill of a key stores, in the byte order and varint width in force there. -/
def nextFill (key : ResKey) (be long : Bool) : List WriterCall → Option (List UInt8)
  | [] => none
  | .fill k name v :: rest =>
    if (name, scalarKind long k) = key then some (scalarBytes be long k v)
    else nextFill key be long rest
  | c :: rest => nextFill key (c.bigEndianAfter be) (c.varintLongAfter long) rest

/-- What a call becomes in the program that writes at once: a reservation writes what is filled in
    later, and the fill has nothing left to do. -/
def WriterCall.direct (be long : Bool) (rest : List WriterCall) : WriterCall → List WriterCall
  | reserve k name => [.writeBytes ((nextFill (name, scalarKind long k) be long rest).getD [])]
  | fill _ _ _ => []
  | c => [c]

/-- The program that writes at once what the given one fills in later. -/
def directly (be long : Bool) : List WriterCall → List WriterCall
  | [] => []
  | c :: rest =>
    c.direct be long rest ++ directly (c.bigEndianAfter be) (c.varintLongAfter long) rest

/-- The calls that move the position without writing. -/
def WriterCall.IsStep : WriterCall → Prop
  | stepIn _ => True
  | stepOut => True
  | _ => False

/-- How many bytes a call writes at the position. -/
def WriterCall.extent (os : Win32) (w : BinaryWriter) : WriterCall → Nat
  | reserve k _ => kindWidth (scalarKind w.varintLong k)
  | c => ((c.bytes os w.bigEndian w.varintLong w.position).getD []).length

/-- No write of the program lands on a slice that is reserved at that moment. -/
def Clear (os : Win32) : List WriterCall → BinaryWriter → Prop
  | [], _ => True
  | c :: rest, w =>
    (∀ key p, w.reserved key = some p → c.extent os w = 0 ∨ p + kindWidth key.2 ≤ w.position ∨
      w.position + c.extent os w ≤ p) ∧ Clear os rest (c.run os w).2

variable {w d : BinaryWriter}

theorem runAll_cons_eq_ok {os : Win32} {c : WriterCall} {rest : List WriterCall}
    {u : Unit} {w' : BinaryWriter} (h : runAll os (c :: rest) w = (.ok u, w')) :
    ∃ w1, c.run os w = (.ok (), w1) ∧ runAll os rest w1 = (.ok (), w') := by
  obtain ⟨a, w1, h1, h2⟩ := bind_eq_ok.1 h
  exact ⟨w1, h1, h2⟩

theorem runAll_append_ok {os : Win32} {cs cs' : List WriterCall} {w1 : BinaryWriter}
    (h : runAll os cs w = (.ok (), w1)) : runAll os (cs ++ cs') w = runAll os cs' w1 := by
  induction cs generalizing w with
  | nil =>
      cases h
      rfl
  | cons c rest ih =>
      obtain ⟨w2, hc, hrest⟩ := runAll_cons_eq_ok h
      rw [List.cons_append, runAll, bind_ok hc, ih hrest]

theorem runAll_append_eq_ok {os : Win32} {cs cs' : List WriterCall} {w' : BinaryWriter}
    (h : runAll os (cs ++ cs') w = (.ok (), w')) :
    ∃ w1, runAll os cs w = (.ok (), w1) ∧ runAll os cs' w1 = (.ok (), w') := by
  induction cs generalizing w with
  | nil => exact ⟨w, rfl, h⟩
  | cons c rest ih =>
      obtain ⟨w1, hc, hrest⟩ := runAll_cons_eq_ok h
      obtain ⟨w2, h1, h2⟩ := ih hrest
      exact ⟨w2, by rw [runAll, bind_ok hc, h1], h2⟩

/-! ## Calls that succeed -/

theorem Inv.next {os : Win32} {c : WriterCall} {w' : BinaryWriter} (hw : w.Inv)
    (hrun : c.run os w = (.ok (), w')) :
    w'.Inv ∧ w'.reserved = c.onMap w true w.reserved := by
  obtain ⟨hinv, hmap, -⟩ := c.run_spec os hw
  rw [hrun] at hinv hmap
  exact ⟨hinv, hmap⟩

/-- A successful step-in goes to a position that is not negative. -/
theorem stepIn_ok_inv {pos : Int} {w' : BinaryWriter} (hw : w.Ready)
    (hrun : stepIn pos w = (.ok (), w')) :
    ∃ p h c, pos = (p : Nat) ∧ w' = { w with
      stream := { w.stream with heap := h, memPos := p }
      steps := w.position :: w.steps
      stepsCap := c } := by
  rcases Int.lt_or_le pos 0 with hneg | hpos
  · exfalso
    rw [stepIn, bind_ok (writerOpen_ok hw), peek_bind_run] at hrun
    obtain ⟨u, w1, -, hseek⟩ := bind_eq_ok.1 hrun
    rw [onStream, zoom_run, OStream.seek, check_bind_neg (by omega)] at hseek
    cases hseek
  · obtain ⟨p, rfl⟩ := Int.eq_ofNat_of_zero_le hpos
    obtain ⟨h, -, ⟨c, hok⟩ | ⟨herr, -⟩⟩ := stepIn_cases hw p
    · rw [hok] at hrun
      cases hrun
      exact ⟨p, h, c, rfl, rfl⟩
    · rw [herr] at hrun
      cases hrun

theorem stepOut_ok_inv {w' : BinaryWriter} (hw : w.Ready) (hrun : stepOut w = (.ok (), w')) :
    ∃ pos rest, w.steps = pos :: rest ∧ w' = { w with
      stream := { w.stream with memPos := pos }
      steps := rest } := by
  rcases hsteps : w.steps with _ | ⟨pos, rest⟩
  · rw [stepOut, bind_ok (writerOpen_ok hw), state_bind_run, hsteps] at hrun
    cases hrun
  · rw [stepOut_ok hw hsteps] at hrun
    cases hrun
    exact ⟨pos, rest, rfl, rfl⟩

/-- The flags of the writer are the ones `directly` follows. -/
theorem flags_after {os : Win32} {c : WriterCall} {w' : BinaryWriter} (hw : w.Inv)
    (hrun : c.run os w = (.ok (), w')) :
    w'.bigEndian = c.bigEndianAfter w.bigEndian ∧
      w'.varintLong = c.varintLongAfter w.varintLong := by
  by_cases hwrite : c.IsWrite
  · have hgrown := c.grown os hwrite w (Grown.refl hw.ready.1)
    rw [hrun] at hgrown
    have hrest : w' = { w with stream := w'.stream } := hgrown.rest
    rw [hrest]
    cases c <;> first | exact ⟨rfl, rfl⟩ | exact hwrite.elim
  · cases c with
    | stepIn pos =>
        obtain ⟨p, h, c, -, rfl⟩ := stepIn_ok_inv hw.ready hrun
        exact ⟨rfl, rfl⟩
    | stepOut =>
        obtain ⟨pos, rest, -, rfl⟩ := stepOut_ok_inv hw.ready hrun
        exact ⟨rfl, rfl⟩
    | setBigEndian be =>
        cases hrun
        exact ⟨rfl, rfl⟩
    | setVarintLong l =>
        cases hrun
        exact ⟨rfl, rfl⟩
    | reserve k name =>
        obtain ⟨w2, -, hset, -, ⟨hok, -⟩ | ⟨e, herr, -⟩⟩ := reserveScalar_spec hw k name
        · rw [WriterCall.run, hok] at hrun
          cases hrun
          exact ⟨congrArg Prod.fst hset, congrArg (fun s => s.2.1) hset⟩
        · rw [WriterCall.run, herr] at hrun
          cases hrun
    | fill k name v =>
        obtain ⟨w2, -, hset, -, -, -, ⟨p, hok, -⟩ | ⟨e, herr, -⟩⟩ := fillScalar_spec hw k name v
        · rw [WriterCall.run, hok] at hrun
          cases hrun
          exact ⟨congrArg Prod.fst hset, congrArg (fun s => s.2.1) hset⟩
        · rw [WriterCall.run, herr] at hrun
          cases hrun
    | _ => exact absurd trivial hwrite

/-- A key that is live and gone at the end is filled on the way. -/
theorem nextFill_of_live {os : Win32} (cs : List WriterCall) {wf : BinaryWriter} (hw : w.Inv)
    (hrun : runAll os cs w = (.ok (), wf)) (hend : ∀ key, wf.reserved key = none) {key : ResKey}
    {p : Nat} (hkey : w.reserved key = some p) :
    ∃ bs, nextFill key w.bigEndian w.varintLong cs = some bs ∧ bs.length = kindWidth key.2 := by
  induction cs generalizing w with
  | nil =>
      cases hrun
      rw [hend] at hkey
      cases hkey
  | cons c rest ih =>
      obtain ⟨w1, hc, hrest⟩ := runAll_cons_eq_ok hrun
      obtain ⟨hinv, hmap⟩ := hw.next hc
      obtain ⟨hbe, hlong⟩ := flags_after hw hc
      have hlater := fun h => ih hinv hrest (hmap ▸ h)
      rw [hbe, hlong] at hlater
      cases c with
      | fill k name v =>
          by_cases heq : (name, scalarKind w.varintLong k) = key
          · refine ⟨_, by rw [nextFill, if_pos heq], ?_⟩
            rw [length_scalarBytes, ← heq]
          · rw [nextFill, if_neg heq]
            refine hlater ?_
            rw [WriterCall.onMap, Function.update_of_ne (Ne.symm heq)]
            exact hkey
      | reserve k name =>
          refine hlater ?_
          by_cases heq : key = (name, scalarKind w.varintLong k)
          · -- a key that is live cannot have been reserved again
            obtain ⟨w2, -, -, -, ⟨-, hfree, -⟩ | ⟨e, herr, -⟩⟩ := reserveScalar_spec hw k name
            · rw [heq, hfree] at hkey
              cases hkey
            · rw [WriterCall.run, herr] at hc
              cases hc
          · rw [WriterCall.onMap, Function.update_of_ne heq]
            exact hkey
      | _ => exact hlater hkey

/-! ## The simulation -/

/-- The direct writer `d` against the deferred writer `w`, where `ρ` gives the bytes still to be filled
    in under each live key. -/
structure Sim (ρ : ResKey → Option (List UInt8)) (w d : BinaryWriter) : Prop where
  inv : w.Inv
  ready : d.Ready
  calm : d.stream.heap.Calm
  position : d.position = w.position
  settings : d.settings = w.settings
  length : d.content.length = w.content.length
  live : ∀ key p, w.reserved key = some p →
    ∃ bs, ρ key = some bs ∧ bs.length = kindWidth key.2 ∧ Holds d.content p bs
  plain : ∀ i, (∀ key p, w.reserved key = some p → i < p ∨ p + kindWidth key.2 ≤ i) →
    d.content[i]? = w.content[i]?

variable {ρ : ResKey → Option (List UInt8)} {w1 d1 : BinaryWriter}

/-- Both writers store the same bytes. -/
theorem Sim.write (h : Sim ρ w d) {bs : List UInt8} (hw1 : Wrote bs w w1) (hd1 : Wrote bs d d1)
    (hinv : w1.Inv) (hcalm : d1.stream.heap.Calm)
    (hclear : ∀ key p, w.reserved key = some p →
      bs.length = 0 ∨ p + kindWidth key.2 ≤ w.position ∨ w.position + bs.length ≤ p) :
    Sim ρ w1 d1 := by
  have hmap : w1.reserved = w.reserved := reserved_of_slots hw1.resSlots
  have hset : d1.settings = w1.settings := by
    have hset := h.settings
    simp only [BinaryWriter.settings, hw1.bigEndian, hw1.varintLong, hw1.steps, hd1.bigEndian,
      hd1.varintLong, hd1.steps] at hset ⊢
    exact hset
  have hpos : d1.position = w1.position := by rw [hd1.position, hw1.position, h.position]
  have hwc := hw1.content
  have hdc := hd1.content
  by_cases hbs : bs = []
  · rw [if_pos hbs] at hwc hdc
    refine ⟨hinv, hd1.ready h.ready, hcalm, hpos, hset, by rw [hwc, hdc, h.length], ?_, ?_⟩
    · rw [hmap, hdc]
      exact h.live
    · rw [hmap, hdc, hwc]
      exact h.plain
  · rw [if_neg hbs] at hwc hdc
    rw [h.position] at hdc
    have hlen : 0 < bs.length := List.length_pos_iff.2 hbs
    refine ⟨hinv, hd1.ready h.ready, hcalm, hpos, hset, ?_, ?_, ?_⟩
    · rw [hwc, hdc, length_overwrite, length_overwrite, h.length]
    · intro key p hp
      rw [hmap] at hp
      obtain ⟨bs', hρ, hlen', hholds⟩ := h.live key p hp
      refine ⟨bs', hρ, hlen', ?_⟩
      rw [hdc]
      refine hholds.overwrite ?_
      rw [hlen']
      rcases hclear key p hp with h0 | hlow | hhigh
      · omega
      · exact .inl hlow
      · exact .inr hhigh
    · intro i hi
      rw [hmap] at hi
      rw [hwc, hdc]
      exact getElem?_overwrite_congr h.length rfl (fun _ => h.plain i hi) fun _ _ => rfl

/-- The deferred writer reserves a slice, the direct one writes what will be filled in there. -/
theorem Sim.reserve (h : Sim ρ w d) {key : ResKey} {bs : List UInt8} (hinv : w1.Inv)
    (hset : w1.settings = w.settings) (hfree : w.reserved key = none)
    (hmap : w1.reserved = Function.update w.reserved key (some w.position))
    (hcontent : w1.content = overwrite w.content w.position (List.replicate (kindWidth key.2) 0xFE))
    (hpos : w1.position = w.position + kindWidth key.2) (hρ : ρ key = some bs)
    (hlen : bs.length = kindWidth key.2) (hd1 : Wrote bs d d1) (hcalm : d1.stream.heap.Calm)
    (hclear : ∀ key' p, w.reserved key' = some p →
      p + kindWidth key'.2 ≤ w.position ∨ w.position + kindWidth key.2 ≤ p) :
    Sim ρ w1 d1 := by
  have hbs : bs ≠ [] := by
    rintro rfl
    have hwidth := kindWidth_pos key.2
    rw [← hlen] at hwidth
    cases hwidth
  have hdc := hd1.content
  rw [if_neg hbs, h.position] at hdc
  have hlen' : bs.length = (List.replicate (kindWidth key.2) (0xFE : UInt8)).length := by
    rw [hlen, List.length_replicate]
  refine ⟨hinv, hd1.ready h.ready, hcalm, by rw [hd1.position, hpos, h.position, hlen], ?_, ?_, ?_, ?_⟩
  · rw [hset, ← h.settings]
    simp only [BinaryWriter.settings, hd1.bigEndian, hd1.varintLong, hd1.steps]
  · rw [hcontent, hdc, length_overwrite, length_overwrite, h.length, hlen']
  · intro key' p hp
    rw [hmap] at hp
    rw [hdc]
    by_cases hkey : key' = key
    · rw [hkey, Function.update_self] at hp
      cases hp
      exact ⟨bs, by rw [hkey, hρ], by rw [hkey, hlen], holds_overwrite_self _ _ _⟩
    · rw [Function.update_of_ne hkey] at hp
      obtain ⟨bs', hρ', hlen'', hholds⟩ := h.live key' p hp
      refine ⟨bs', hρ', hlen'', hholds.overwrite ?_⟩
      rw [hlen'', hlen]
      exact hclear key' p hp
  · intro i hi
    rw [hmap] at hi
    rw [hcontent, hdc]
    have hout := hi key w.position (Function.update_self ..)
    refine getElem?_overwrite_congr h.length hlen' (fun _ => h.plain i fun key' p hp => ?_)
      fun hlow hhigh => by omega
    by_cases hkey : key' = key
    · rw [hkey, hfree] at hp
      cases hp
    · exact hi key' p (by rw [Function.update_of_ne hkey]; exact hp)

/-- The deferred writer fills a slice in; the direct one wrote it long ago. -/
theorem Sim.fill (h : Sim ρ w d) {ρ' : ResKey → Option (List UInt8)} {key : ResKey} {p : Nat}
    {bs : List UInt8} (hinv : w1.Inv) (hset : w1.settings = w.settings)
    (hpos : w1.position = w.position) (hkey : w.reserved key = some p)
    (hmap : w1.reserved = Function.update w.reserved key none)
    (hcontent : w1.content = overwrite w.content p bs) (hρ : ρ key = some bs)
    (hρ' : ∀ key', key' ≠ key → ρ' key' = ρ key') : Sim ρ' w1 d := by
  obtain ⟨bs', heq, hlen, hholds⟩ := h.live key p hkey
  rw [hρ] at heq
  cases heq
  have hinside : p + bs.length ≤ w.content.length := by
    have hin := hholds.le
    rwa [h.length] at hin
  refine ⟨hinv, h.ready, h.calm, by rw [hpos, h.position], by rw [hset, h.settings], ?_, ?_, ?_⟩
  · rw [hcontent, length_overwrite, h.length, Nat.max_eq_left hinside]
  · intro key' p' hp
    rw [hmap] at hp
    by_cases hsame : key' = key
    · rw [hsame, Function.update_self] at hp
      cases hp
    · rw [Function.update_of_ne hsame] at hp
      rw [hρ' key' hsame]
      exact h.live key' p' hp
  · intro i hi
    rw [hcontent]
    by_cases hin : p ≤ i ∧ i < p + bs.length
    · rw [getElem?_overwrite_of_mem hin.1 hin.2]
      have hget := (holds_iff_getElem?.1 hholds).2 (i - p) (by omega)
      rwa [show p + (i - p) = i by omega] at hget
    · rw [getElem?_overwrite_of_not_mem (.inr (by omega)) (by omega)]
      refine h.plain i fun key' p' hp => ?_
      by_cases hsame : key' = key
      · rw [hsame, hkey] at hp
        cases hp
        rw [hsame, ← hlen]
        omega
      · exact hi key' p' (by rw [hmap, Function.update_of_ne hsame]; exact hp)

/-- Both writers change their position or a flag, and no byte. -/
theorem Sim.moved (h : Sim ρ w d) (hinv : w1.Inv) (hready : d1.Ready)
    (hcalm : d1.stream.heap.Calm) (hpos : d1.position = w1.position)
    (hset : d1.settings = w1.settings) (hmap : w1.reserved = w.reserved)
    (hwc : w1.content = w.content) (hdc : d1.content = d.content) : Sim ρ w1 d1 := by
  refine ⟨hinv, hready, hcalm, hpos, hset, by rw [hwc, hdc, h.length], ?_, ?_⟩
  · rw [hmap, hdc]
    exact h.live
  · rw [hmap, hdc, hwc]
    exact h.plain

theorem runAll_singleton {os : Win32} {c : WriterCall} (hc : c.run os d = (.ok (), d1)) :
    runAll os [c] d = (.ok (), d1) := by
  rw [runAll, bind_ok hc]
  rfl

/-- One call of the deferred program against what it became in the direct one. -/
theorem Sim.step {os : Win32} {c : WriterCall} {rest : List WriterCall} {wf : BinaryWriter}
    (h : Sim (fun key => nextFill key w.bigEndian w.varintLong (c :: rest)) w d)
    (hclear : ∀ key p, w.reserved key = some p → c.extent os w = 0 ∨
      p + kindWidth key.2 ≤ w.position ∨ w.position + c.extent os w ≤ p)
    (hc : c.run os w = (.ok (), w1)) (hrest : runAll os rest w1 = (.ok (), wf))
    (hend : ∀ key, wf.reserved key = none) :
    ∃ d1, runAll os (c.direct w.bigEndian w.varintLong rest) d = (.ok (), d1) ∧
      Sim (fun key => nextFill key w1.bigEndian w1.varintLong rest) w1 d1 := by
  obtain ⟨hinv, hmap⟩ := h.inv.next hc
  obtain ⟨hbe, hlong⟩ := flags_after h.inv hc
  rw [hbe, hlong]
  have hdbe : d.bigEndian = w.bigEndian := congrArg Prod.fst h.settings
  have hdlong : d.varintLong = w.varintLong := congrArg (fun s => s.2.1) h.settings
  have hdsteps : d.steps = w.steps := congrArg (fun s => s.2.2) h.settings
  by_cases hwrite : c.IsWrite
  · obtain ⟨bs, hbs, hwrote⟩ := (c.emitsAt os hwrite h.inv.ready).wrote hc
    have hemits := c.emitsAt os hwrite h.ready
    rw [hdbe, hdlong, h.position] at hemits
    obtain ⟨d1, hd, hdwrote, hcalm⟩ := hemits.succeeds hbs h.calm
      (by rw [h.position]; exact hwrote.fits)
    have hextent : c.extent os w = bs.length := by
      cases c <;> first
        | exact hwrite.elim
        | exact congrArg (fun o : Option (List UInt8) => (o.getD []).length) hbs
    rw [hextent] at hclear
    refine ⟨d1, ?_, ?_⟩
    · cases c <;> first | exact hwrite.elim | exact runAll_singleton hd
    · have hsim := h.write hwrote hdwrote hinv hcalm hclear
      cases c <;> first | exact hwrite.elim | exact hsim
  · cases c with
    | stepIn pos =>
        obtain ⟨p, g, cap, rfl, rfl⟩ := stepIn_ok_inv h.inv.ready hc
        obtain ⟨g', hcalm, ⟨cap', hd⟩ | ⟨-, hno⟩⟩ := stepIn_cases h.ready p
        · refine ⟨_, runAll_singleton hd, h.moved hinv h.ready (hcalm h.calm) rfl ?_ rfl rfl rfl⟩
          simp only [BinaryWriter.settings, hdbe, hdlong, hdsteps, h.position]
        · exact absurd h.calm hno
    | stepOut =>
        obtain ⟨pos, saved, hsteps, rfl⟩ := stepOut_ok_inv h.inv.ready hc
        have hd := stepOut_ok h.ready (hdsteps.trans hsteps)
        refine ⟨_, runAll_singleton hd, h.moved hinv h.ready h.calm rfl ?_ rfl rfl rfl⟩
        simp only [BinaryWriter.settings, hdbe, hdlong]
    | setBigEndian be =>
        cases hc
        refine ⟨_, runAll_singleton rfl, h.moved hinv h.ready h.calm h.position ?_ rfl rfl rfl⟩
        simp only [BinaryWriter.settings, hdlong, hdsteps]
    | setVarintLong l =>
        cases hc
        refine ⟨_, runAll_singleton rfl, h.moved hinv h.ready h.calm h.position ?_ rfl rfl rfl⟩
        simp only [BinaryWriter.settings, hdbe, hdsteps]
    | reserve k name =>
        obtain ⟨w2, -, hset, -, ⟨hok, hfree, hmap', hcontent, hpos, hfits⟩ | ⟨e, herr, -⟩⟩ :=
          reserveScalar_spec h.inv k name
        · rw [WriterCall.run, hok] at hc
          cases hc
          -- the program goes on to fill the new key in
          obtain ⟨bs, hbs, hlen⟩ := nextFill_of_live rest hinv hrest hend
            (by rw [hmap', Function.update_self])
          rw [hbe, hlong] at hbs
          have hwidth : (scalarKind w.varintLong k) = (name, scalarKind w.varintLong k).2 := rfl
          obtain ⟨d1, hd, hdwrote, hcalm⟩ := (emitsAt_writeBytes h.ready bs).succeeds rfl h.calm
            (fun _ => by rw [h.position, hlen, ← hpos]; exact hfits)
          refine ⟨d1, ?_, h.reserve hinv hset hfree hmap' hcontent hpos hbs hlen hdwrote hcalm ?_⟩
          · have hget : nextFill (name, scalarKind w.varintLong k) w.bigEndian w.varintLong rest
                = some bs := hbs
            rw [WriterCall.direct, hget]
            exact runAll_singleton hd
          · intro key' p hp
            refine (hclear key' p hp).resolve_left fun h0 => ?_
            have hpos := kindWidth_pos (scalarKind w.varintLong k)
            rw [WriterCall.extent] at h0
            omega
        · rw [WriterCall.run, herr] at hc
          cases hc
    | fill k name v =>
        obtain ⟨w2, -, hset, -, hpos, -, ⟨p, hok, hlive, hmap', hcontent⟩ | ⟨e, herr, -⟩⟩ :=
          fillScalar_spec h.inv k name v
        · rw [WriterCall.run, hok] at hc
          cases hc
          refine ⟨d, rfl, h.fill hinv hset hpos hlive hmap' hcontent ?_ fun key' hne => ?_⟩
          · rw [nextFill, if_pos rfl]
          · exact (if_neg (Ne.symm hne)).symm
        · rw [WriterCall.run, herr] at hc
          cases hc
    | _ => exact absurd trivial hwrite

/-- The whole deferred program against the direct one. -/
theorem Sim.run {os : Win32} (cs : List WriterCall) {wf : BinaryWriter}
    (h : Sim (fun key => nextFill key w.bigEndian w.varintLong cs) w d) (hclear : Clear os cs w)
    (hrun : runAll os cs w = (.ok (), wf)) (hend : ∀ key, wf.reserved key = none) :
    ∃ df, runAll os (directly w.bigEndian w.varintLong cs) d = (.ok (), df) ∧
      Sim (fun _ => none) wf df := by
  induction cs generalizing w d with
  | nil =>
      cases hrun
      exact ⟨d, rfl, h⟩
  | cons c rest ih =>
      obtain ⟨w1, hc, hrest⟩ := runAll_cons_eq_ok hrun
      obtain ⟨hnow, hlater⟩ := hclear
      rw [hc] at hlater
      obtain ⟨d1, hd1, hsim⟩ := h.step hnow hc hrest hend
      obtain ⟨df, hdf, hfinal⟩ := ih hsim hlater hrest
      obtain ⟨hbe, hlong⟩ := flags_after h.inv hc
      rw [hbe, hlong] at hdf
      exact ⟨df, by rw [directly, runAll_append_ok hd1, hdf], hfinal⟩

/-! ## Programs that only go forward -/

/-- A writer that has taken no step stands at its end. -/
theorem atEnd_next {os : Win32} {c : WriterCall} (hw : w.Inv) (hstep : ¬ c.IsStep)
    (hpos : w.position = w.length) (hc : c.run os w = (.ok (), w1)) :
    w1.position = w1.length := by
  by_cases hwrite : c.IsWrite
  · obtain ⟨bs, -, hwrote⟩ := (c.emitsAt os hwrite hw.ready).wrote hc
    rw [hwrote.position, hwrote.length hw.ready.1]
    split
    · next hbs => rw [hbs, hpos]; rfl
    · omega
  · cases c with
    | stepIn pos => exact absurd trivial hstep
    | stepOut => exact absurd trivial hstep
    | setBigEndian be =>
        cases hc
        exact hpos
    | setVarintLong l =>
        cases hc
        exact hpos
    | reserve k name =>
        obtain ⟨w2, hinv, -, -, ⟨hok, -, -, hcontent, hpos', -⟩ | ⟨e, herr, -⟩⟩ :=
          reserveScalar_spec hw k name
        · rw [WriterCall.run, hok] at hc
          cases hc
          rw [hpos', ← length_content hinv.ready.1, hcontent, length_overwrite,
            length_content hw.ready.1, List.length_replicate]
          omega
        · rw [WriterCall.run, herr] at hc
          cases hc
    | fill k name v =>
        obtain ⟨w2, -, -, -, hpos', hlen, ⟨p, hok, -⟩ | ⟨e, herr, -⟩⟩ := fillScalar_spec hw k name v
        · rw [WriterCall.run, hok] at hc
          cases hc
          rw [hpos', hlen, hpos]
        · rw [WriterCall.run, herr] at hc
          cases hc
    | _ => exact absurd trivial hwrite

/-- Without steps nothing is written below the end, so no reserved slice is hit. -/
theorem clear_of_no_steps {os : Win32} (cs : List WriterCall) {wf : BinaryWriter} (hw : w.Inv)
    (hsteps : ∀ c ∈ cs, ¬ c.IsStep) (hpos : w.position = w.length)
    (hrun : runAll os cs w = (.ok (), wf)) : Clear os cs w := by
  induction cs generalizing w with
  | nil => trivial
  | cons c rest ih =>
      obtain ⟨w1, hc, hrest⟩ := runAll_cons_eq_ok hrun
      refine ⟨fun key p hp => .inr (.inl ?_), ?_⟩
      · rw [hpos]
        exact hw.inside key p hp
      · rw [hc]
        exact ih (hw.next hc).1 (fun c' hc' => hsteps c' (List.mem_cons_of_mem c hc'))
          (atEnd_next hw (hsteps c List.mem_cons_self) hpos hc) hrest

theorem runAll_inv {os : Win32} (cs : List WriterCall) {wf : BinaryWriter} (hw : w.Inv)
    (hrun : runAll os cs w = (.ok (), wf)) : wf.Inv := by
  induction cs generalizing w with
  | nil =>
      cases hrun
      exact hw
  | cons c rest ih =>
      obtain ⟨w1, hc, hrest⟩ := runAll_cons_eq_ok hrun
      exact ih (hw.next hc).1 hrest

theorem sim_create (be : Bool) (heap : Heap) (ρ : ResKey → Option (List UInt8)) :
    Sim ρ (create be heap) (create be []) := by
  refine ⟨create_inv be heap, (create_inv be []).ready, Heap.calm_nil, rfl, rfl, rfl, ?_, ?_⟩
  · intro key p hp
    cases hp
  · intro i _
    rfl

/-- **Back-patching is writing in place.** If a program runs and the writer can be finished, its direct
    counterpart runs as well and leaves the same bytes, at the same position, with the same flags and
    saved positions. The program takes no steps, or at least writes nothing over a slice while it is
    reserved. Each fill of the program stores its value in the slice that was reserved for it and
    changes nothing else. -/
theorem backPatching_writes_in_place (os : Win32) (be : Bool) (heap : Heap) (cs : List WriterCall)
    (w : BinaryWriter) (hrun : runAll os cs (create be heap) = (.ok (), w))
    (hfinish : (finish w).1 = .ok ())
    (hclear : (∀ c ∈ cs, ¬ c.IsStep) ∨ Clear os cs (create be heap)) :
    (∃ d, runAll os (directly be false cs) (create be []) = (.ok (), d) ∧ d.content = w.content ∧
      d.position = w.position ∧ d.settings = w.settings) ∧
    ∀ pre k name v post, cs = pre ++ .fill k name v :: post →
      ∃ w1 w2 p, runAll os pre (create be heap) = (.ok (), w1) ∧
        fillScalar k name v w1 = (.ok (), w2) ∧
        w1.reserved (name, scalarKind w1.varintLong k) = some p ∧
        Holds w2.content p (scalarBytes w1.bigEndian w1.varintLong k v) ∧
        (∀ i, i < p ∨ p + kindWidth (scalarKind w1.varintLong k) ≤ i →
          w2.content[i]? = w1.content[i]?) ∧
        w2.position = w1.position ∧ w2.length = w1.length ∧ w2.settings = w1.settings := by
  constructor
  · have hend : ∀ key, w.reserved key = none := by
      have hlive : w.resLive = 0 := by
        rw [finish, state_bind_run] at hfinish
        by_contra hne
        rw [check_bind_neg (not_not.2 (Nat.pos_of_ne_zero hne))] at hfinish
        cases hfinish
      exact (runAll_inv cs (create_inv be heap) hrun).res.resLive_eq_zero.1 hlive
    have hclear' : Clear os cs (create be heap) := by
      rcases hclear with hsteps | hclear
      · exact clear_of_no_steps cs (create_inv be heap) hsteps rfl hrun
      · exact hclear
    obtain ⟨d, hd, hsim⟩ := (sim_create be heap _).run cs hclear' hrun hend
    refine ⟨d, hd, List.ext_getElem? fun i => hsim.plain i fun key p hp => ?_, hsim.position,
      hsim.settings⟩
    rw [hend] at hp
    cases hp
  · rintro pre k name v post rfl
    obtain ⟨w1, hpre, hrest⟩ := runAll_append_eq_ok hrun
    obtain ⟨w2, hfill, -⟩ := runAll_cons_eq_ok hrest
    have hinv := runAll_inv pre (create_inv be heap) hpre
    obtain ⟨w2', -, hset, -, hpos, hlen, ⟨p, hok, hlive, -, hcontent⟩ | ⟨e, herr, -⟩⟩ :=
      fillScalar_spec hinv k name v
    · refine ⟨w1, w2', p, hpre, hok, hlive, ?_, fun i hi => ?_, hpos, hlen, hset⟩
      · rw [hcontent]
        exact holds_overwrite_self _ _ _
      · rw [hcontent]
        have hinside := hinv.inside _ p hlive
        rw [← length_content hinv.ready.1] at hinside
        refine getElem?_overwrite_of_not_mem (.inr (by omega)) ?_
        rwa [length_scalarBytes]
    · rw [WriterCall.run, herr] at hfill
      cases hfill

/-- A word reserved, the byte order switched, and the word filled in after a byte was written. -/
theorem backPatching_of_one_word :
    let cs : List WriterCall := [.reserve .u32 [97], .setBigEndian true, .write .u8 7,
      .fill .u32 [97] (0x01020304 : UInt32)]
    ∃ d, runAll .ascii (directly false false cs) (create false []) = (.ok (), d) ∧
      d.content = [1, 2, 3, 4, 7] := by
  intro cs
  obtain ⟨⟨d, hd, hcontent, -⟩, -⟩ := backPatching_writes_in_place .ascii false [] cs
    (runAll .ascii cs (create false [])).2 rfl rfl
    (.inl (by simp [cs, WriterCall.IsStep]))
  exact ⟨d, hd, hcontent.trans rfl⟩

end BinaryWriter

end SoulsFormats
