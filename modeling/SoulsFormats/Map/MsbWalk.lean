import SoulsFormats.Core.Ends
import SoulsFormats.Map.Msb

set_option autoImplicit false

/-! # The walk along the lists of an MSB map

The offset of the next list is taken from the file, so that the lists can form a cycle. The walk ends all the same, since
it counts the lists and refuses one too many; and a walk that fails leaves no list behind. -/

namespace SoulsFormats

open Fallible BinaryReader Built

/-! ## One round -/

/-- Another list is stored. -/
def MsbFrame.add (f : MsbFrame) (list : MsbListHeader) : MsbFrame :=
  ⟨f.count + 1, { f.layout with lists := f.layout.lists.set f.count list }⟩

/-- The access to the list that is stored next. -/
def MsbFrame.access (f : MsbFrame) : Access := ⟨f.count, f.layout.lists.length⟩

variable {os : Win32}

theorem ends_msbReadListHeader : Ends (msbReadListHeader os) := by
  unfold msbReadListHeader
  refine ends_readI32.bind fun _ => ends_readI32.bind fun _ => ends_readI64.bind fun _ => ?_
  refine (Ends.check _ (by decide)).bind fun _ => (Ends.peek _).bind fun _ => (ends_skip _).bind fun _ => ?_
  exact ends_readI64.bind fun _ => (ends_getUtf16 os _).bind fun _ => Ends.pure _

theorem ends_msbCommonAssertHeader : Ends msbCommonAssertHeader := by
  unfold msbCommonAssertHeader
  refine (ends_assertAscii _).bind fun _ => (ends_assertI32 _).bind fun _ => (ends_assertI32 _).bind fun _ => ?_
  refine (ends_assertBool _).bind fun _ => (ends_assertBool _).bind fun _ => ?_
  exact (ends_assertU8 _).bind fun _ => (ends_assertU8 _).bind fun _ => Ends.pure _

/-- What is done once the header of a list is read. -/
def msbAfterList (os : Win32) (fuel : Nat) (nextParamOffset : Int64) : ConstructM MsbFrame Unit :=
  if nextParamOffset = 0 then pure ()
  else do
    reading (onStream (IStream.seek nextParamOffset.toInt))
    msbReadLists os fuel

theorem msbReadLists_list {b : Built BinaryReader MsbFrame} (hcount : b.object.count < MSB_MAX_LISTS)
    {list : MsbListHeader} {next : Int64} {r : BinaryReader}
    (hread : msbReadListHeader os b.source = (.ok (list, next), r)) (fuel : Nat) :
    msbReadLists os (fuel + 1) b =
      msbAfterList os fuel next ⟨r, b.object.add list, b.log ++ [b.object.access]⟩ := by
  rw [msbReadLists, peek_bind_run, check_bind_pos hcount, reading_bind_ok hread]
  rfl

/-- How a round of the walk ends: with an error, with the last list, or with a seek to the next one. -/
inductive MsbRound (os : Win32) (b : Built BinaryReader MsbFrame) : Prop
  | full (hcount : ¬ b.object.count < MSB_MAX_LISTS)
      (run : ∀ fuel, msbReadLists os (fuel + 1) b = (.error .outOfRange, b))
  | failed {e : SfError} {r : BinaryReader} (hcount : b.object.count < MSB_MAX_LISTS) (he : e ≠ .nonTermination)
      (run : ∀ fuel, msbReadLists os (fuel + 1) b = (.error e, ⟨r, b.object, b.log⟩))
  | lost {e : SfError} {r : BinaryReader} {list : MsbListHeader} (hcount : b.object.count < MSB_MAX_LISTS)
      (he : e ≠ .nonTermination)
      (run : ∀ fuel, msbReadLists os (fuel + 1) b = (.error e, ⟨r, b.object.add list, b.log ++ [b.object.access]⟩))
  | last {r : BinaryReader} {list : MsbListHeader} (hcount : b.object.count < MSB_MAX_LISTS)
      (run : ∀ fuel, msbReadLists os (fuel + 1) b = (.ok (), ⟨r, b.object.add list, b.log ++ [b.object.access]⟩))
  | next {r : BinaryReader} {list : MsbListHeader} (hcount : b.object.count < MSB_MAX_LISTS)
      (run : ∀ fuel, msbReadLists os (fuel + 1) b =
        msbReadLists os fuel ⟨r, b.object.add list, b.log ++ [b.object.access]⟩)

theorem msbRound (os : Win32) (b : Built BinaryReader MsbFrame) : MsbRound os b := by
  by_cases hcount : b.object.count < MSB_MAX_LISTS
  · rcases hread : msbReadListHeader os b.source with ⟨e | ⟨list, next⟩, r⟩
    · refine @MsbRound.failed os b e r hcount (ends_msbReadListHeader _ _ _ hread) fun fuel => ?_
      rw [msbReadLists, peek_bind_run, check_bind_pos hcount, reading_bind_error hread]
    · by_cases hlast : next = 0
      · refine @MsbRound.last os b r list hcount fun fuel => ?_
        rw [msbReadLists_list hcount hread, msbAfterList, if_pos hlast]
        rfl
      · rcases hseek : onStream (IStream.seek next.toInt) r with ⟨e | ⟨⟩, r'⟩
        · refine @MsbRound.lost os b e r' list hcount (ends_seek _ _ _ _ hseek) fun fuel => ?_
          rw [msbReadLists_list hcount hread, msbAfterList, if_neg hlast, reading_bind_error hseek]
        · refine @MsbRound.next os b r' list hcount fun fuel => ?_
          rw [msbReadLists_list hcount hread, msbAfterList, if_neg hlast, reading_bind_ok hseek]
  · refine .full hcount fun fuel => ?_
    rw [msbReadLists, peek_bind_run, check_bind_neg hcount]

/-! ## The whole walk -/

/-- The lists that were counted have a place in the array. -/
structure MsbFrame.Fits (f : MsbFrame) : Prop where
  count_le : f.count ≤ MSB_MAX_LISTS
  length : f.layout.lists.length = MSB_MAX_LISTS

theorem MsbFrame.Fits.add {f : MsbFrame} (h : f.Fits) (hcount : f.count < MSB_MAX_LISTS) (list : MsbListHeader) :
    (f.add list).Fits :=
  ⟨hcount, by rw [MsbFrame.add, List.length_set, h.length]⟩

/-- The walk counts up to the greatest number of lists and not further, so that more rounds change nothing. -/
theorem msbReadLists_ends {fuel : Nat} {b : Built BinaryReader MsbFrame} (hcount : b.object.count ≤ MSB_MAX_LISTS)
    (hfuel : MSB_MAX_LISTS < b.object.count + fuel) :
    (msbReadLists os fuel b).1 ≠ .error .nonTermination ∧
      ∀ more, msbReadLists os (fuel + more) b = msbReadLists os fuel b := by
  induction fuel generalizing b with
  | zero => omega
  | succ fuel ih =>
      simp only [Nat.succ_add_eq_add_succ fuel, Nat.add_succ]
      cases msbRound os b with
      | full _ run => simp [run]
      | failed _ he run => simp [run, he]
      | lost _ he run => simp [run, he]
      | last _ run => simp [run]
      | @next r list hless run =>
          have hnext := @ih ⟨r, b.object.add list, b.log ++ [b.object.access]⟩ hless (by
            simp only [MsbFrame.add]
            omega)
          simpa only [run] using hnext

/-- What is kept of the object and the log by a list that has a place. -/
theorem msbReadLists_keeps {I : MsbFrame → List Access → Prop}
    (hI : ∀ f log list, f.count < MSB_MAX_LISTS → I f log → I (f.add list) (log ++ [f.access])) (fuel : Nat) :
    Keeps (fun b => I b.object b.log) (msbReadLists os fuel) := by
  induction fuel with
  | zero => exact Keeps.fail _
  | succ fuel ih =>
      intro b hb
      cases msbRound os b with
      | full _ run =>
          rw [run]
          exact hb
      | failed _ _ run =>
          rw [run]
          exact hb
      | lost hcount _ run =>
          rw [run]
          exact hI _ _ _ hcount hb
      | last hcount run =>
          rw [run]
          exact hI _ _ _ hcount hb
      | next hcount run =>
          rw [run]
          exact ih _ (hI _ _ _ hcount hb)

theorem msbReadLists_keeps_fits (os : Win32) (fuel : Nat) :
    Keeps (fun b => b.object.Fits) (msbReadLists os fuel) :=
  msbReadLists_keeps (I := fun f _ => f.Fits) (fun _ _ list hcount h => h.add hcount list) fuel

/-- Whether it fails or not, the walk stays within the array. -/
theorem msbReadLists_keeps_sound (os : Win32) (fuel : Nat) :
    Keeps (fun b => SoundWith MsbFrame.Fits b) (msbReadLists os fuel) := by
  refine msbReadLists_keeps (I := fun f log => (∀ a ∈ log, a.Valid) ∧ f.Fits) ?_ fuel
  rintro f log list hcount ⟨hlog, hf⟩
  refine ⟨fun a ha => ?_, hf.add hcount list⟩
  rcases List.mem_append.1 ha with ha | ha
  · exact hlog a ha
  · rw [List.mem_singleton.1 ha]
    exact hcount.trans_eq hf.length.symm

theorem msbReadLists_count {fuel : Nat} {b b' : Built BinaryReader MsbFrame}
    (h : msbReadLists os fuel b = (.ok (), b')) : 0 < b'.object.count := by
  induction fuel generalizing b with
  | zero => cases h
  | succ fuel ih =>
      cases msbRound os b with
      | full _ run => cases (run fuel).symm.trans h
      | failed _ _ run => cases (run fuel).symm.trans h
      | lost _ _ run => cases (run fuel).symm.trans h
      | last _ run =>
          cases (run fuel).symm.trans h
          exact Nat.succ_pos _
      | next _ run => exact ih ((run fuel).symm.trans h)

/-- The layout that the walk begins with, and its frame. -/
def MsbFrame.start (be : Bool) : MsbFrame := ⟨0, { MsbLayout.blank with bigEndian := be, is64Bit := true, version := 1 }⟩

theorem MsbFrame.fits_start (be : Bool) : (MsbFrame.start be).Fits := ⟨Nat.zero_le _, rfl⟩

/-- What is done once the header of the file is read. -/
def msbWalk (os : Win32) (fuel : Nat) : ConstructM MsbFrame Unit := do
  onFailure (msbReadLists os fuel) (assign fun f => { f.store with layout := f.store.layout.free })
  assign MsbFrame.store

theorem msbCommonReadHeader_refused {b : Built BinaryReader MsbFrame} {e : SfError} {r : BinaryReader}
    (h : msbCommonAssertHeader b.source = (.error e, r)) (fuel : Nat) :
    msbCommonReadHeader os fuel b = (.error e, ⟨r, .start b.source.bigEndian, b.log⟩) :=
  reading_bind_error h _ _ _

theorem msbCommonReadHeader_accepted {b : Built BinaryReader MsbFrame} {r : BinaryReader}
    (h : msbCommonAssertHeader b.source = (.ok (), r)) (fuel : Nat) :
    msbCommonReadHeader os fuel b = msbWalk os fuel ⟨r, .start b.source.bigEndian, b.log⟩ :=
  reading_bind_ok h _ _ _

theorem msbWalk_ok {fuel : Nat} {b b' : Built BinaryReader MsbFrame} (h : msbReadLists os fuel b = (.ok (), b')) :
    msbWalk os fuel b = (.ok (), { b' with object := b'.object.store }) := by
  rw [msbWalk, bind_ok (onFailure_ok h _)]
  rfl

theorem msbWalk_error {fuel : Nat} {b b' : Built BinaryReader MsbFrame} {e : SfError}
    (h : msbReadLists os fuel b = (.error e, b')) :
    msbWalk os fuel b =
      (.error e, { b' with object := { b'.object.store with layout := b'.object.store.layout.free } }) := by
  rw [msbWalk, bind_error (onFailure_error h _)]
  rfl

/-- How `msb_common_read_header` ends if it is given more rounds than there can be lists. -/
structure MsbHeaderEnds (os : Win32) (b : Built BinaryReader MsbFrame) (fuel : Nat) : Prop where
  ends : (msbCommonReadHeader os fuel b).1 ≠ .error .nonTermination
  more : ∀ n, msbCommonReadHeader os (fuel + n) b = msbCommonReadHeader os fuel b
  failed : ∀ e, (msbCommonReadHeader os fuel b).1 = .error e →
    (msbCommonReadHeader os fuel b).2.object.layout.listCount = 0
  succeeded : (msbCommonReadHeader os fuel b).1 = .ok () →
    0 < (msbCommonReadHeader os fuel b).2.object.layout.listCount ∧
      (msbCommonReadHeader os fuel b).2.object.layout.listCount ≤ MSB_MAX_LISTS
  accesses : b.Sound → (msbCommonReadHeader os fuel b).2.Sound

theorem msbCommonReadHeader_ends (os : Win32) (b : Built BinaryReader MsbFrame) {fuel : Nat}
    (hfuel : MSB_MAX_LISTS < fuel) : MsbHeaderEnds os b fuel := by
  rcases hheader : msbCommonAssertHeader b.source with ⟨e | ⟨⟩, r⟩
  · have hrun := @msbCommonReadHeader_refused os b e r hheader
    exact ⟨by simpa [hrun] using ends_msbCommonAssertHeader _ _ _ hheader, by simp [hrun],
      fun _ _ => by rw [hrun]; rfl, by simp [hrun], fun hb => by rw [hrun]; exact hb⟩
  · have hrun := @msbCommonReadHeader_accepted os b r hheader
    generalize hstart : (⟨r, .start b.source.bigEndian, b.log⟩ : Built BinaryReader MsbFrame) = b0 at hrun
    have hfits : b.Sound → SoundWith MsbFrame.Fits b0 := by
      rintro hb
      subst hstart
      exact ⟨hb, MsbFrame.fits_start _⟩
    have hcount : b0.object.count = 0 := by rw [← hstart]; rfl
    have hends := @msbReadLists_ends os fuel b0 (by omega) (by omega)
    have hkeeps := msbReadLists_keeps_sound os fuel
    rcases hwalk : msbReadLists os fuel b0 with ⟨e | ⟨⟩, b'⟩
    · have hwalked := msbWalk_error hwalk
      have hmore (n : Nat) : msbWalk os (fuel + n) b0 = _ := msbWalk_error ((hends.2 n).trans hwalk)
      rw [hwalk] at hends
      refine ⟨?_, fun n => by rw [hrun, hrun, hmore, hwalked], fun _ _ => by rw [hrun, hwalked]; rfl, ?_, fun hb => ?_⟩
      · rw [hrun, hwalked]
        exact hends.1
      · rw [hrun, hwalked]
        nofun
      · have := hkeeps b0 (hfits hb)
        rw [hwalk] at this
        rw [hrun, hwalked]
        exact this.1
    · have hwalked := msbWalk_ok hwalk
      have hmore (n : Nat) : msbWalk os (fuel + n) b0 = _ := msbWalk_ok ((hends.2 n).trans hwalk)
      refine ⟨by rw [hrun, hwalked]; nofun, fun n => by rw [hrun, hrun, hmore, hwalked],
        by rw [hrun, hwalked]; nofun, fun _ => ?_, fun hb => ?_⟩
      · have hfits' := msbReadLists_keeps_fits os fuel b0 (by rw [← hstart]; exact MsbFrame.fits_start _)
        rw [hwalk] at hfits'
        rw [hrun, hwalked]
        exact ⟨msbReadLists_count hwalk, hfits'.count_le⟩
      · have := hkeeps b0 (hfits hb)
        rw [hwalk] at this
        rw [hrun, hwalked]
        exact this.1

end SoulsFormats
