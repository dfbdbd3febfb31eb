import SoulsFormats.Archive.BinderPayloads
import SoulsFormats.Archive.Bnd4
import SoulsFormats.Compression.DcxRoundtrip

set_option autoImplicit false

/-! # The two ways to read a BND4 archive

An archive can be read as a whole, or opened and read file by file. Both read the same headers and get the data of a
file with the same function; they differ in what they say of its size. They also run at different times, so that what
the allocator has left in a block may reach one of them and not the other. -/

namespace SoulsFormats

open Bytes Fallible BinaryReader

variable {os : Win32} {customAllocator : Bool} {codecs : Codecs} {flexible : Bool} {mem data : List UInt8}

/-! ## The headers -/

theorem unaffected_binderReadFormat (bitBigEndian : Bool) : Unaffected (binderReadFormat bitBigEndian) := by
  refine unaffected_readU8.attempt_eq.seq fun e => ?_
  cases e with
  | error err => exact .pure rfl
  | ok raw => exact .pure rfl

theorem unaffected_binderReadFileFlags (bitBigEndian : Bool) : Unaffected (binderReadFileFlags bitBigEndian) := by
  refine unaffected_readU8.attempt_eq.seq fun e => ?_
  cases e with
  | error err => exact .pure rfl
  | ok raw => exact .pure rfl

theorem unaffected_binder4ReadName (unicode : Bool) : Unaffected (binder4ReadName os customAllocator unicode) := by
  have hcopy (name : List UInt8) : Unaffected (binderCopyName customAllocator name) := by
    exact (Lockstep.given trivial lockstep_alloc).bind fun _ _ _ => .pure rfl
  refine unaffected_readU32.seq fun off => .ite (fun _ => ?_) fun _ => ?_
  · exact (unaffected_getUtf16 os _).seq hcopy
  · exact (unaffected_getShiftJis os _).seq hcopy

theorem unaffected_binder4ReadFileHeader (f : UInt8) (bitBigEndian unicode : Bool) :
    Unaffected (binder4ReadFileHeader os customAllocator f bitBigEndian unicode) := by
  have hoffset : Unaffected (binderReadDataOffset f) :=
    .ite (fun _ => unaffected_readI64.seq fun _ => .pure rfl) fun _ => unaffected_readU32.seq fun _ => .pure rfl
  have hzero := unaffected_assertU8 [0]
  refine (unaffected_binderReadFileFlags _).seq fun _ => hzero.seq fun _ => hzero.seq fun _ => hzero.seq fun _ => ?_
  refine (unaffected_assertI32 _).seq fun _ => unaffected_readI64.seq fun _ => ?_
  refine (Lockstep.given rfl unaffected_readI64).seq fun _ => hoffset.seq fun _ => ?_
  refine (Lockstep.given rfl unaffected_readI32).seq fun _ => ?_
  refine (Lockstep.given rfl (unaffected_binder4ReadName _)).seq fun _ => Lockstep.seq (.given rfl ?_) fun _ => .pure rfl
  exact unaffected_readI32.seq fun _ => (unaffected_assertI32 _).seq fun _ => .pure rfl

theorem unaffected_binder4ReadHashTable (extended : UInt8) (off : Int64) :
    Unaffected (binder4ReadHashTable extended off) := by
  have htable : Unaffected binderHashTableAssert :=
    unaffected_readI64.seq fun _ => unaffected_readI32.seq fun _ => (unaffected_assertU8 _).seq fun _ =>
      (unaffected_assertU8 _).seq fun _ => (unaffected_assertU8 _).seq fun _ => (unaffected_assertU8 _).seq
        fun _ => .pure rfl
  refine .ite (fun _ => (unaffected_stepIn _).seq fun _ => htable.attempt_eq.seq fun _ => ?_) fun _ => .check _ _
  exact unaffected_stepOut.attempt_eq.seq fun _ => (Lockstep.lift _).seq fun _ => .lift _

theorem unaffected_bnd4ReadHeader : Unaffected (bnd4ReadHeader os customAllocator) := by
  have hzero := unaffected_assertU8 [0]
  refine (unaffected_assertAscii _).seq fun _ => unaffected_readBool.seq fun _ => unaffected_readBool.seq fun _ => ?_
  refine hzero.seq fun _ => hzero.seq fun _ => hzero.seq fun _ => ?_
  refine unaffected_readBool.seq fun _ => unaffected_readBool.seq fun _ => hzero.seq fun _ => ?_
  refine (unaffected_setBigEndian _).seq fun _ => unaffected_readI32.seq fun _ => ?_
  refine (unaffected_defineAssertMulti unaffected_readI64).seq fun _ => (unaffected_readFixStr _ _).seq fun _ => ?_
  refine unaffected_readI64.seq fun _ => unaffected_readI64.seq fun _ => unaffected_readBool.seq fun _ => ?_
  refine (unaffected_binderReadFormat _).seq fun _ => (unaffected_assertU8 _).seq fun _ => hzero.seq fun _ => ?_
  refine (unaffected_assertI32 _).seq fun _ => unaffected_readI64.seq fun _ => ?_
  refine (unaffected_binder4ReadHashTable _ _).seq fun _ => (Lockstep.check _ _).seq fun _ => ?_
  refine Lockstep.seq ((Lockstep.check _ _).seq fun _ => ?_) fun _ => .pure rfl
  refine (Lockstep.given trivial lockstep_alloc).bind fun _ _ _ => ?_
  exact unaffected_readEach (unaffected_binder4ReadFileHeader _ _ _) _

/-! ## The reader over the contents of a container -/

variable (flexible data) in
theorem onMemory_calm {heap : Heap} (hcalm : heap.Calm) : ∃ heap', heap'.Calm ∧ ∀ {α : Type} (m : ReadM α),
    (onMemory data false flexible m heap).1 = (m (create data false flexible heap')).1 := by
  obtain ⟨junk, h1, halloc, hcalm1⟩ := Heap.alloc_calm hcalm
  obtain ⟨junk', h2, halloc', hcalm2⟩ := Heap.alloc_calm hcalm1
  refine ⟨h2, hcalm2, fun {α} m => ?_⟩
  let k : List UInt8 → Fallible Heap SfError α := fun _ heap =>
    ((m (create data false flexible heap)).1, (m (create data false flexible heap)).2.heap)
  have hrun := congrArg Prod.fst (bind_ok halloc' k)
  rw [onMemory, bind_ok halloc]
  exact hrun

/-- Reading with a reader of its own is reading on with that reader. -/
theorem onMemory_fst {α : Type} (data : List UInt8) (m : ReadM α) (r : BinaryReader) :
    (onHeap (onMemory data false r.isFlexible m) r).1
      = ((do
          let _ ← onHeap Heap.alloc
          let _ ← onHeap Heap.alloc
          update fun r => create data false r.isFlexible r.heap
          m) r).1 := by
  let k : List UInt8 → Fallible Heap SfError α := fun _ heap =>
    ((m (create data false r.isFlexible heap)).1, (m (create data false r.isFlexible heap)).2.heap)
  rw [onHeap, zoom_run, onMemory]
  rcases halloc : Heap.alloc r.heap with ⟨e | junk, h1⟩
  · have hrun : onHeap Heap.alloc r = (.error e, { r with heap := h1 }) := by rw [onHeap, zoom_run, halloc]
    rw [bind_error halloc, bind_error hrun]
  · have hrun : onHeap Heap.alloc r = (.ok junk, { r with heap := h1 }) := by rw [onHeap, zoom_run, halloc]
    rw [bind_ok halloc, bind_ok hrun]
    rcases halloc' : Heap.alloc h1 with ⟨e | junk', h2⟩
    · have hrun' : onHeap Heap.alloc { r with heap := h1 } = (.error e, { r with heap := h2 }) := by
        rw [onHeap, zoom_run, halloc']
      rw [bind_error hrun']
      have h := congrArg Prod.fst (bind_error halloc' k)
      exact h
    · have hrun' : onHeap Heap.alloc { r with heap := h1 } = (.ok junk', { r with heap := h2 }) := by
        rw [onHeap, zoom_run, halloc']
      rw [bind_ok hrun', update_bind_run]
      have h := congrArg Prod.fst (bind_ok halloc' k)
      exact h

/-- What `openDecompressed` does once it has looked at the first bytes. -/
def openContainer (codecs : Codecs) (pos : Nat) (remaining : Int) (magic : List UInt8) : ReadM Unit :=
  if hasDcxMagic magic then do
    let _ ← onHeap Heap.alloc
    let raw ← getU8s pos remaining.toNat
    let (decompressed, _) ← onHeap (dcxDecompressFromBuffer codecs raw)
    let _ ← onHeap Heap.alloc
    let _ ← onHeap Heap.alloc
    update fun r => create decompressed false r.isFlexible r.heap
  else pure ()

/-- What is read of a container that was opened, in one way or the other. -/
theorem container_fst {α : Type} (codecs : Codecs) (m : ReadM α) (pos : Nat) (length : Int) (magic : List UInt8)
    (s : BinaryReader) :
    ((if hasDcxMagic magic then do
        let _ ← onHeap Heap.alloc
        let raw ← getU8s pos length.toNat
        let (decompressed, _) ← onHeap (dcxDecompressFromBuffer codecs raw)
        let r ← state
        onHeap (onMemory decompressed false r.isFlexible m)
      else m) s).1
    = ((openContainer codecs pos length magic >>= fun _ => m) s).1 := by
  unfold openContainer
  split
  · simp only [bind_assoc]
    refine bind_fst_congr (fun _ s => bind_fst_congr (fun raw s => bind_fst_congr (fun x s => ?_) s) s) s
    rw [state_bind_run, onMemory_fst]
  · rfl

/-- A container is opened before anything else is read, in one way or the other. -/
theorem withDecompressedReader_fst {α : Type} (codecs : Codecs) (m : ReadM α) (r : BinaryReader) :
    (withDecompressedReader codecs m r).1 = ((openDecompressed codecs >>= fun _ => m) r).1 := by
  unfold withDecompressedReader openDecompressed
  rw [peek_bind_run, bind_assoc, peek_bind_run, peek_bind_run, bind_assoc, peek_bind_run]
  simp only
  split
  · rw [bind_assoc]
    exact bind_fst_congr (container_fst codecs m _ _) r
  · exact container_fst codecs m _ _ [] r

theorem getU8s_over {I : Heap → Prop} [Heap.Kept I] (off : Int) (n : Nat) : Keeps (Over mem I) (getU8s off n) :=
  defineGet_over (Keeps.ite (fun _ => Keeps.pure _) fun _ => readBytes_over n) off

/-- All of the data is read from its start. -/
theorem getU8s_all {r : BinaryReader} (hr : IsCalm data r) :
    Post (getU8s 0 data.length) r fun raw _ => raw = data := by
  intro raw r' hrun
  by_cases hempty : data.length = 0
  · have hread : readU8s data.length = Pure.pure [] := by rw [readU8s, if_pos hempty]
    rw [getU8s, hread, defineGet] at hrun
    obtain ⟨_, r1, -, hrun1⟩ := bind_eq_ok.1 hrun
    rw [attempt_bind_run, pure_run, attempt_bind_run] at hrun1
    rw [List.eq_nil_of_length_eq_zero hempty]
    rcases hout : (stepOut r1).1 with e | ⟨⟩ <;> rw [hout] at hrun1 <;> cases hrun1
    rfl
  · have hread : getU8s 0 data.length = getBytes 0 data.length := by
      rw [getU8s, getBytes, readU8s, if_neg hempty]
    rw [hread] at hrun
    rcases getBytes_cases 0 data.length hr with ⟨e, -, herror, -⟩ | ⟨p, k, z, r'', hp, hlen, hz, -, hok, -⟩
    · rw [hrun] at herror
      cases herror
    · rw [hrun] at hok
      cases hok
      have hzero : p = 0 := by omega
      subst hzero
      have hdata := hz.take_drop
      rw [List.drop_zero, hlen, List.take_length] at hdata
      exact hdata.symm

variable (codecs flexible) in
/-- Opened with two allocators, a container whose contents are filled has the same contents. -/
theorem openDecompressed_agree (houter : DcxFilled data) {heap heap' : Heap} (hcalm : Heap.BothCalm heap heap') :
    Agree Eq (openDecompressed codecs (create data false flexible heap)).1
        (openDecompressed codecs (create data false flexible heap')).1 ∧
      Alongside (openDecompressed codecs (create data false flexible heap)).2
        (openDecompressed codecs (create data false flexible heap')).2 := by
  have hstart := alongside_create data false flexible hcalm
  have hover : IsCalm data (create data false flexible heap) := ⟨⟨rfl, Nat.zero_le _⟩, hcalm.1⟩
  -- what is done with the data, once all of it is there
  have hrest : Unaffected (do
      let (decompressed, _) ← onHeap (dcxDecompressFromBuffer codecs data)
      let _ ← onHeap Heap.alloc
      let _ ← onHeap Heap.alloc
      update fun r => create decompressed false r.isFlexible r.heap : ReadM Unit) := by
    refine (lockstep_onHeap (unaffected_dcxDecompressFromBuffer codecs houter)).seq fun x => ?_
    refine unaffected_alloc (unaffected_alloc (unaffected_update fun r r' h => ?_))
    rw [h.isFlexible]
    exact alongside_create _ _ _ h.calm
  have hraw : Lockstep (fun r r' => Alongside r r' ∧ IsCalm data r) (fun a b => a = b ∧ a = data)
      (onHeap Heap.alloc >>= fun _ => getU8s 0 data.length) (onHeap Heap.alloc >>= fun _ => getU8s 0 data.length) :=
    (lockstep_alloc.keeping alloc_over).bind fun _ _ _ =>
      ((unaffected_getU8s 0 data.length).keeping (getU8s_over _ _)).post fun r r' h => getU8s_all h.2
  have hcontainer (magic : List UInt8) {r r' : BinaryReader} (h : Alongside r r') (hr : IsCalm data r) :
      Agree Eq (openContainer codecs 0 data.length magic r).1 (openContainer codecs 0 data.length magic r').1 ∧
        Alongside (openContainer codecs 0 data.length magic r).2 (openContainer codecs 0 data.length magic r').2 := by
    unfold openContainer
    split
    · obtain ⟨hout, hs⟩ := hraw r r' ⟨h, hr⟩
      simp only [Int.toNat_natCast, Nat.cast_zero]
      rw [← bind_assoc]
      rcases hrun : (onHeap Heap.alloc >>= fun _ => getU8s 0 data.length) r with ⟨x, r1⟩
      rcases hrun' : (onHeap Heap.alloc >>= fun _ => getU8s 0 data.length) r' with ⟨y, r1'⟩
      rw [hrun, hrun'] at hout hs
      cases hout with
      | error e =>
          rw [bind_error hrun, bind_error hrun']
          exact ⟨.error e, hs.1⟩
      | ok hraw =>
          obtain ⟨rfl, rfl⟩ := hraw
          rw [bind_ok hrun, bind_ok hrun']
          exact hrest r1 r1' hs.1
    · exact ⟨.ok rfl, h⟩
  have hopen (heap : Heap) : openDecompressed codecs (create data false flexible heap)
      = ((if 4 ≤ (data.length : Int) then getU8s 0 4 else pure []) >>= openContainer codecs 0 data.length)
          (create data false flexible heap) := by
    have hremaining : ((create data false flexible heap).length : Int) - (create data false flexible heap).position
        = data.length := Int.sub_zero _
    unfold openDecompressed
    rw [peek_bind_run, peek_bind_run, hremaining]
    split
    · rfl
    · rfl
  rw [hopen, hopen]
  have hmagic : Lockstep (fun r r' => Alongside r r' ∧ IsCalm data r) Eq
      (if 4 ≤ (data.length : Int) then getU8s 0 4 else pure [])
      (if 4 ≤ (data.length : Int) then getU8s 0 4 else pure []) :=
    .ite (fun _ => (unaffected_getU8s 0 4).keeping (getU8s_over _ _)) fun _ => .pure rfl
  obtain ⟨hout, hs⟩ := hmagic _ _ ⟨hstart, hover⟩
  rcases hrun : (if 4 ≤ (data.length : Int) then getU8s 0 4 else pure []) (create data false flexible heap) with ⟨x, r⟩
  rcases hrun' : (if 4 ≤ (data.length : Int) then getU8s 0 4 else pure []) (create data false flexible heap') with ⟨y, r'⟩
  rw [hrun, hrun'] at hout hs
  cases hout with
  | error e =>
      rw [bind_error hrun, bind_error hrun']
      exact ⟨.error e, hs.1⟩
  | ok h =>
      subst h
      rw [bind_ok hrun, bind_ok hrun']
      exact hcontainer _ hs.1 hs.2

variable (codecs flexible) in
/-- What follows the opening agrees as well. -/
theorem opened_agree {α β : Type} {R : α → β → Prop} {m : ReadM α} {n : ReadM β} (houter : DcxFilled data)
    (hmn : Lockstep Alongside R m n) {heap heap' : Heap} (hcalm : Heap.BothCalm heap heap') :
    Agree R ((openDecompressed codecs >>= fun _ => m) (create data false flexible heap)).1
        ((openDecompressed codecs >>= fun _ => n) (create data false flexible heap')).1 ∧
      Alongside ((openDecompressed codecs >>= fun _ => m) (create data false flexible heap)).2
        ((openDecompressed codecs >>= fun _ => n) (create data false flexible heap')).2 := by
  obtain ⟨hout, hs⟩ := openDecompressed_agree codecs flexible houter hcalm
  rcases hrun : openDecompressed codecs (create data false flexible heap) with ⟨x, r⟩
  rcases hrun' : openDecompressed codecs (create data false flexible heap') with ⟨y, r'⟩
  rw [hrun, hrun'] at hout hs
  cases hout with
  | error e =>
      rw [bind_error hrun, bind_error hrun']
      exact ⟨.error e, hs⟩
  | ok h =>
      rw [bind_ok hrun, bind_ok hrun']
      exact hmn r r' hs

/-! ## Both ways -/

variable (os customAllocator codecs) (flexible data)

/-- What `sf_bnd4_read_from_memory` does up to the end of the headers. -/
def bnd4ParseHeader : Fallible Heap SfError (Bnd4 × List BinderFileHeader) :=
  onMemory data false flexible (withDecompressedReader codecs do
    let _ ← onHeap Heap.alloc
    let _ ← onHeap Heap.alloc
    bnd4ReadHeader os customAllocator)

/-- The headers of an archive; the reader is left behind them. -/
def bnd4Headers : ReadM (Bnd4 × List BinderFileHeader) := do
  openDecompressed codecs
  bnd4ReadHeader os customAllocator

/-- What is read in one way is what is read in the other, whatever the allocators leave in their blocks, and nothing is
    read past a buffer. -/
structure Bnd4ReadersAgree : Prop where
  header : ∀ heap heap' : Heap, heap.Calm → heap'.Calm →
    (bnd4ReaderOpen os customAllocator codecs flexible data heap).1.isOk
      = (bnd4ParseHeader os customAllocator codecs flexible data heap').1.isOk
  defined : ∀ heap : Heap, heap.Calm →
    (bnd4ReadFromMemory os customAllocator codecs flexible data heap).1 ≠ .error .undefinedBehaviour
  files : ∀ (heap : Heap) (b : Bnd4), heap.Calm →
    (bnd4ReadFromMemory os customAllocator codecs flexible data heap).1 = .ok b → ∀ heap' : Heap, heap'.Calm →
      ∃ r, (bnd4ReaderOpen os customAllocator codecs flexible data heap').1 = .ok r ∧
        r.files.length = b.files.length ∧ ∀ i file, b.files[i]? = some file →
          ∃ f, r.files[i]? = some f ∧ f.id = file.id ∧ f.nameUtf8 = file.nameUtf8 ∧ f.flags = file.flags ∧
            f.size = file.data.length ∧ ∀ heap'' : Heap, heap''.Calm →
              (bnd4ReaderReadFileByIndex codecs i { r with br := r.br.withHeap heap'' }).1 = .ok file.data

/-- What the header says of the file's size is what the stored bytes say, and these are decoded inside of them and to
    all of the data. -/
def BinderEntryTrue (mem : List UInt8) (h : BinderFileHeader) : Prop :=
  if binderFileIsCompressed h.flags then
    DcxInBounds codecs (binderStoredBytes mem h) True ∧ DcxFilled (binderStoredBytes mem h) ∧
      h.uncompressedSize = dcxStatedSize codecs (binderStoredBytes mem h)
  else h.uncompressedSize = (binderStoredBytes mem h).length

/-- There are headers, and they are true. -/
def Bnd4EntriesTrue : Prop :=
  ∃ props headers br, bnd4Headers os customAllocator codecs (create data false flexible [])
    = (.ok (props, headers), br) ∧ ∀ h ∈ headers, BinderEntryTrue codecs br.stream.mem h

section

variable {os customAllocator codecs flexible data}

/-- The room for the files and their names does not matter to the headers. -/
theorem lockstep_binderAllocFiles (headers : List BinderFileHeader) :
    Lockstep Alongside (fun _ _ => True) (binderAllocFiles headers) (pure ()) := by
  unfold binderAllocFiles binderBulkCopyNames
  have hnames : Lockstep Alongside (fun _ _ => True)
      (Fallible.given (headers.any fun h => h.nameUtf8.isSome) [] (onHeap Heap.alloc)) (pure ()) := by
    unfold Fallible.given
    split
    · exact lockstep_alloc_left
    · exact .pure trivial
  unfold Fallible.given at hnames ⊢
  split
  · exact lockstep_alloc_left.left fun _ => hnames.left fun _ => .pure trivial
  · exact .pure trivial

theorem lockstep_headersWithFiles :
    Lockstep Alongside Eq (do
      let p ← bnd4ReadHeader os customAllocator
      binderAllocFiles p.2
      pure p) (bnd4ReadHeader os customAllocator) := by
  have h : Lockstep Alongside Eq (do
      let p ← bnd4ReadHeader os customAllocator
      binderAllocFiles p.2
      pure p) (bnd4ReadHeader os customAllocator >>= fun p => pure p) :=
    unaffected_bnd4ReadHeader.seq fun p => (lockstep_binderAllocFiles p.2).left fun _ => .pure rfl
  rwa [bind_pure] at h

/-- What is read behind the headers is read with them, or not at all. -/
theorem behind_headers {α : Type} {P : ReadM (Bnd4 × List BinderFileHeader)} (houter : DcxFilled data)
    (hP : Lockstep Alongside Eq P (bnd4ReadHeader os customAllocator)) {heap : Heap} (hcalm : heap.Calm)
    (k : Bnd4 × List BinderFileHeader → ReadM α) {out : Except SfError (Bnd4 × List BinderFileHeader)}
    {br : BinaryReader} (hrun : bnd4Headers os customAllocator codecs (create data false flexible []) = (out, br)) :
    (∀ e, out = .error e → ((openDecompressed codecs >>= fun _ => P >>= k) (create data false flexible heap)).1
        = .error e) ∧
      ∀ p, out = .ok p → ∃ br', Alongside br br' ∧
        ((openDecompressed codecs >>= fun _ => P >>= k) (create data false flexible heap)).1 = (k p br').1 := by
  obtain ⟨hout, hs⟩ := opened_agree codecs flexible houter hP ⟨hcalm, Heap.calm_nil⟩
  have hreference : (openDecompressed codecs >>= fun _ => bnd4ReadHeader os customAllocator)
      (create data false flexible []) = (out, br) := hrun
  rw [hreference] at hout hs
  rw [← bind_assoc]
  rcases hfront : (openDecompressed codecs >>= fun _ => P) (create data false flexible heap) with ⟨x, br'⟩
  rw [hfront] at hout hs
  cases hout with
  | error e =>
      refine ⟨fun e' he => ?_, nofun⟩
      cases he
      rw [bind_error hfront]
  | ok h =>
      subst h
      refine ⟨nofun, fun p hp => ⟨br', hs.symm, ?_⟩⟩
      cases hp
      rw [bind_ok hfront]

/-- How the two ways go on from the headers, and that they fail with them. -/
theorem bnd4_read_cases (houter : DcxFilled data) {heap : Heap} (hcalm : heap.Calm)
    {out : Except SfError (Bnd4 × List BinderFileHeader)} {br : BinaryReader}
    (hrun : bnd4Headers os customAllocator codecs (create data false flexible []) = (out, br)) :
    (∀ e, out = .error e → (bnd4ReaderOpen os customAllocator codecs flexible data heap).1 = .error e ∧
      (bnd4ParseHeader os customAllocator codecs flexible data heap).1 = .error e ∧
      (bnd4ReadFromMemory os customAllocator codecs flexible data heap).1 = .error e) ∧
    ∀ props headers, out = .ok (props, headers) →
      (∃ br', Alongside br br' ∧ (bnd4ReaderOpen os customAllocator codecs flexible data heap).1
        = .ok { props := props, headers := headers, files := headers.map BinderFileHeader.readerFile, br := br' }) ∧
      (bnd4ParseHeader os customAllocator codecs flexible data heap).1 = .ok (props, headers) ∧
      ∃ br', Alongside br br' ∧ (bnd4ReadFromMemory os customAllocator codecs flexible data heap).1
        = ((binderReadFiles (binderExtractFileData codecs) headers >>= fun files =>
            pure { props with files := files }) br').1 := by
  obtain ⟨heap1, hcalm1, hmemory⟩ := onMemory_calm flexible data hcalm
  -- the headers of the whole reader, then its files
  have hparse : (bnd4ParseHeader os customAllocator codecs flexible data heap).1
      = ((openDecompressed codecs >>= fun _ => (do
          let _ ← onHeap Heap.alloc
          let _ ← onHeap Heap.alloc
          bnd4ReadHeader os customAllocator) >>= pure) (create data false flexible heap1)).1 := by
    rw [bind_pure, bnd4ParseHeader, hmemory, withDecompressedReader_fst]
  have heager : (bnd4ReadFromMemory os customAllocator codecs flexible data heap).1
      = ((openDecompressed codecs >>= fun _ => (do
          let _ ← onHeap Heap.alloc
          let _ ← onHeap Heap.alloc
          let p ← bnd4ReadHeader os customAllocator
          binderAllocFiles p.2
          pure p) >>= fun p => binderReadFiles (binderExtractFileData codecs) p.2 >>= fun files =>
            pure { p.1 with files := files }) (create data false flexible heap1)).1 := by
    rw [bnd4ReadFromMemory, hmemory, withDecompressedReader_fst]
    simp only [bind_assoc, pure_bind]
    rfl
  -- the lazy reader, which is allocated with the bytes of its file first
  have hopen : ∃ heap2 : Heap, heap2.Calm ∧ (bnd4ReaderOpen os customAllocator codecs flexible data heap).1
      = ((openDecompressed codecs >>= fun _ => (do
          let _ ← onHeap Heap.alloc
          let p ← bnd4ReadHeader os customAllocator
          binderAllocFiles p.2
          pure p) >>= fun p => state >>= fun br => pure
            { props := p.1, headers := p.2, files := p.2.map BinderFileHeader.readerFile, br := br : Bnd4Reader })
          (create data false flexible heap2)).1 := by
    have hgiven (h1 : Heap) (hcalm1 : h1.Calm) :
        ∃ junk h2, Fallible.given (0 < data.length) [] Heap.alloc h1 = (.ok junk, h2) ∧ h2.Calm := by
      unfold Fallible.given
      split
      · exact Heap.alloc_calm hcalm1
      · exact ⟨[], h1, rfl, hcalm1⟩
    obtain ⟨junk, h1, halloc, hcalm1⟩ := Heap.alloc_calm hcalm
    obtain ⟨junk', h2, halloc', hcalm2⟩ := hgiven h1 hcalm1
    obtain ⟨heap2, hcalm3, hmemory⟩ := onMemory_calm flexible data hcalm2
    refine ⟨heap2, hcalm3, ?_⟩
    rw [bnd4ReaderOpen, bind_ok halloc, bind_ok halloc', hmemory]
    simp only [bind_assoc, pure_bind]
  obtain ⟨heap2, hcalm2, hopen⟩ := hopen
  have hP1 : Lockstep Alongside Eq (do
      let _ ← onHeap Heap.alloc
      let _ ← onHeap Heap.alloc
      bnd4ReadHeader os customAllocator) (bnd4ReadHeader os customAllocator) :=
    lockstep_alloc_left.left fun _ => lockstep_alloc_left.left fun _ => unaffected_bnd4ReadHeader
  have hP2 : Lockstep Alongside Eq (do
      let _ ← onHeap Heap.alloc
      let p ← bnd4ReadHeader os customAllocator
      binderAllocFiles p.2
      pure p) (bnd4ReadHeader os customAllocator) := lockstep_alloc_left.left fun _ => lockstep_headersWithFiles
  obtain ⟨hno1, hok1⟩ := behind_headers houter hP1 hcalm1 pure hrun
  obtain ⟨hno2, hok2⟩ := behind_headers houter (lockstep_alloc_left.left fun _ => hP2) hcalm1
    (fun p => binderReadFiles (binderExtractFileData codecs) p.2 >>= fun files => pure { p.1 with files := files }) hrun
  obtain ⟨hno3, hok3⟩ := behind_headers houter hP2 hcalm2 (fun p => state >>= fun br => pure
    { props := p.1, headers := p.2, files := p.2.map BinderFileHeader.readerFile, br := br : Bnd4Reader }) hrun
  refine ⟨fun e he => ⟨?_, ?_, ?_⟩, fun props headers hp => ⟨?_, ?_, ?_⟩⟩
  · rw [hopen, hno3 e he]
  · rw [hparse, hno1 e he]
  · rw [heager, hno2 e he]
  · obtain ⟨br', hs, hrun'⟩ := hok3 _ hp
    exact ⟨br', hs, by rw [hopen, hrun']; rfl⟩
  · obtain ⟨br', -, hrun'⟩ := hok1 _ hp
    rw [hparse, hrun']
    rfl
  · obtain ⟨br', hs, hrun'⟩ := hok2 _ hp
    exact ⟨br', hs, by rw [heager, hrun']⟩

/-! ## One file -/

theorem alongside_isCalm {br br' : BinaryReader} (h : Alongside br br') : IsCalm br.stream.mem br' :=
  ⟨⟨congrArg IStream.mem h.stream, h.symm.inBounds⟩, h.calm.2⟩

/-- The data of a file whose header is true does not depend on the allocator, and has the size in the header. -/
theorem BinderEntryTrue.decode {h : BinderFileHeader} {z x : List UInt8} {info : DcxCompressionInfo} {heap heap' : Heap}
    (hentry : BinderEntryTrue codecs mem h) (hz : BinderStoredAt mem h z) (hcalm : Heap.BothCalm heap heap')
    (hrun : (binderDecode codecs h z heap).1 = .ok (x, info)) :
    (binderDecode codecs h z heap').1 = .ok (x, info) ∧ h.uncompressedSize = x.length := by
  unfold BinderEntryTrue at hentry
  unfold binderDecode at hrun ⊢
  rw [← hz.eq] at hentry
  split at hentry
  · next hcomp =>
      obtain ⟨-, hfilled, hsize⟩ := hentry
      rw [if_pos hcomp] at hrun ⊢
      have hsame := (unaffected_dcxDecompressFromBuffer codecs hfilled heap heap' hcalm).1.eq
      exact ⟨hsame.symm.trans hrun, hsize.trans (length_dcxDecompressFromBuffer hcalm.1 hrun).symm⟩
  · next hplain =>
      rw [if_neg hplain] at hrun ⊢
      cases hrun
      exact ⟨rfl, hentry⟩

/-- A header is true if its size is that of the data and the data is the same for all that a block may hold. -/
theorem binderEntryTrue_of_decodes {h : BinderFileHeader} {z x : List UInt8} {info : DcxCompressionInfo} {heap : Heap}
    (hz : BinderStoredAt mem h z) (hcalm : heap.Calm) (hrun : (binderDecode codecs h z heap).1 = .ok (x, info))
    (hsize : h.uncompressedSize = x.length)
    (hall : ∀ junk : List UInt8, ∃ rest info', Heap.Calm (some junk :: rest) ∧
      (binderDecode codecs h z (some junk :: rest)).1 = .ok (x, info')) : BinderEntryTrue codecs mem h := by
  unfold BinderEntryTrue
  unfold binderDecode at hrun hall
  rw [← hz.eq]
  split
  · next hcomp =>
      rw [if_pos hcomp] at hrun
      simp only [if_pos hcomp] at hall
      have hlen := length_dcxDecompressFromBuffer hcalm hrun
      refine ⟨?_, by_contra fun hfilled => ?_, hsize.trans hlen⟩
      · rw [← eq_true hcalm.grants]
        refine (avoids_dcxDecompressFromBuffer codecs z heap).1 ?_
        rw [Avoids, hrun]
        rintro ⟨⟩
      · -- two blocks that end in different bytes would give different data
        have hlast (c : UInt8) : x.getLast? = (List.replicate (dcxStatedSize codecs z) c).getLast? := by
          obtain ⟨rest, info', hcalm', hrun'⟩ := hall (List.replicate (dcxStatedSize codecs z) c)
          exact dcxDecompressFromBuffer_unfilled hfilled hcalm' List.length_replicate hrun'
        have hsame := (hlast 1).symm.trans (hlast 2)
        have hempty : dcxStatedSize codecs z = 0 := by
          by_contra hne
          rw [List.getLast?_replicate, List.getLast?_replicate, if_neg hne, if_neg hne] at hsame
          cases hsame
        exact hfilled (dcxFilled_of_empty hempty)
  · next hplain =>
      rw [if_neg hplain] at hrun
      cases hrun
      exact hsize

/-- What is read of a file by its index. -/
theorem bnd4ReaderReadFileByIndex_fst {r : Bnd4Reader} {i : Nat} {h : BinderFileHeader} (hh : r.headers[i]? = some h) :
    (bnd4ReaderReadFileByIndex codecs i r).1 = (binderExtractFileData codecs h r.br).1.map Prod.fst := by
  rw [bnd4ReaderReadFileByIndex, state_bind_run]
  simp only [hh]
  rcases hrun : bnd4ExtractFileData codecs h r.br with ⟨e | ⟨x, info⟩, br⟩
  · rw [bind_error (by rw [zoom_run, hrun]), show binderExtractFileData codecs h r.br = _ from hrun]
    rfl
  · rw [bind_ok (by rw [zoom_run, hrun]), show binderExtractFileData codecs h r.br = _ from hrun]
    rfl

variable {props : Bnd4} {headers : List BinderFileHeader} {br : BinaryReader}

theorem bnd4_header_agrees (houter : DcxFilled data)
    (hrun : bnd4Headers os customAllocator codecs (create data false flexible []) = (.ok (props, headers), br))
    (heap heap' : Heap) (hcalm : heap.Calm) (hcalm' : heap'.Calm) :
    (bnd4ReaderOpen os customAllocator codecs flexible data heap).1.isOk
      = (bnd4ParseHeader os customAllocator codecs flexible data heap').1.isOk := by
  obtain ⟨⟨br', -, hopen⟩, -⟩ := (bnd4_read_cases houter hcalm hrun).2 props headers rfl
  obtain ⟨-, hparse, -⟩ := (bnd4_read_cases houter hcalm' hrun).2 props headers rfl
  rw [hopen, hparse]
  rfl

/-- An archive that is refused is refused with any allocator that grants everything. -/
theorem bnd4_refused (houter : DcxFilled data)
    (hrun : bnd4Headers os customAllocator codecs (create data false flexible []) = (.ok (props, headers), br))
    {e : SfError} (hfails : (bnd4ReadFromMemory os customAllocator codecs flexible data []).1 = .error e)
    {heap : Heap} (hcalm : heap.Calm) : (bnd4ReadFromMemory os customAllocator codecs flexible data heap).1 = .error e := by
  obtain ⟨-, -, br1, hs1, heager⟩ := (bnd4_read_cases houter hcalm hrun).2 props headers rfl
  obtain ⟨-, -, br0, hs0, heager0⟩ := (bnd4_read_cases houter Heap.calm_nil hrun).2 props headers rfl
  have hwhole : Lockstep Alongside (fun _ _ => True)
      (binderReadFiles (binderExtractFileData codecs) headers >>= fun files => pure { props with files := files })
      (binderReadFiles (binderExtractFileData codecs) headers >>= fun files => pure { props with files := files }) :=
    (lockstep_binderReadFiles codecs headers).bind fun _ _ _ => .pure trivial
  have hs : Alongside br0 br1 := by
    refine ⟨hs0.symm.inBounds, ⟨hs0.calm.2, hs1.calm.2⟩, ?_⟩
    rw [hs1.same, hs0.same]
    rfl
  have hagree := (hwhole br0 br1 hs).1
  rw [← heager0, hfails, ← heager] at hagree
  exact hagree.error_right

/-- Where both ways agree on an archive that is read, its headers are true. -/
theorem entryTrue_of_agree (houter : DcxFilled data)
    (hrun : bnd4Headers os customAllocator codecs (create data false flexible []) = (.ok (props, headers), br))
    (hagree : Bnd4ReadersAgree os customAllocator codecs flexible data) {b : Bnd4}
    (hb : (bnd4ReadFromMemory os customAllocator codecs flexible data []).1 = .ok b) :
    ∀ h ∈ headers, BinderEntryTrue codecs br.stream.mem h := by
  intro h hh
  obtain ⟨⟨br2, hs2, hopen⟩, -, br1, hs1, heager⟩ :=
    (bnd4_read_cases houter Heap.calm_nil hrun).2 props headers rfl
  have hread := heager.symm.trans hb
  obtain ⟨files, _, _, hfiles, hb'⟩ := bind_fst_eq_ok hread
  cases hb'
  have hread := binderReadFiles_ok (alongside_isCalm hs1) hfiles
  obtain ⟨i, hi, rfl⟩ := List.getElem_of_mem hh
  have hi' : i < files.length := hread.length_eq ▸ hi
  obtain ⟨-, -, -, z, heap, info, hcalm, hz, hdecode⟩ := (List.forall₂_iff_get.1 hread).2 i hi hi'
  obtain ⟨r, hr, -, hsame⟩ := hagree.files [] _ Heap.calm_nil hb [] Heap.calm_nil
  rw [hopen] at hr
  cases hr
  obtain ⟨f, hf, -, -, -, hsize, hlazy⟩ := hsame i files[i] (List.getElem?_eq_getElem hi')
  have hshown : f = headers[i].readerFile := by simpa [hi] using hf.symm
  subst hshown
  refine binderEntryTrue_of_decodes hz hcalm hdecode hsize fun junk => ?_
  -- the file is read once more, with blocks that all hold the junk
  have hjunk : Heap.Calm [some junk, some junk, some junk] := by simp [Heap.Calm]
  have hdata := hlazy _ hjunk
  rw [bnd4ReaderReadFileByIndex_fst (List.getElem?_eq_getElem hi)] at hdata
  rcases binderExtractFileData_cases codecs headers[i] (r := br2.withHeap [some junk, some junk, some junk])
    ⟨(alongside_isCalm hs2).1, hjunk⟩ with ⟨e, -, -, hno⟩ | ⟨z', k, hk, hz', hdecode'⟩
  · exact absurd hz (hno z)
  · have hplace : z' = z := hz'.eq.trans hz.eq.symm
    have hjunked : ∃ rest, Heap.Calm (some junk :: rest) ∧
        (br2.withHeap [some junk, some junk, some junk]).heap.drop k = some junk :: rest := by
      have hk : k = 0 ∨ k = 1 ∨ k = 2 := by omega
      rcases hk with rfl | rfl | rfl
      · exact ⟨_, hjunk, rfl⟩
      · exact ⟨_, hjunk.drop 1, rfl⟩
      · exact ⟨_, hjunk.drop 2, rfl⟩
    obtain ⟨rest, hcalm', hrest⟩ := hjunked
    rw [hplace, hrest] at hdecode'
    rw [hdecode'] at hdata
    rcases hlast : (binderDecode codecs headers[i] z (some junk :: rest)).1 with e | ⟨x, info'⟩
    · rw [hlast] at hdata
      cases hdata
    · rw [hlast] at hdata
      cases hdata
      exact ⟨rest, info', hcalm', hlast⟩

/-- Where the headers are true, both ways agree. -/
theorem agree_of_entryTrue (houter : DcxFilled data)
    (hrun : bnd4Headers os customAllocator codecs (create data false flexible []) = (.ok (props, headers), br))
    (htrue : ∀ h ∈ headers, BinderEntryTrue codecs br.stream.mem h) :
    Bnd4ReadersAgree os customAllocator codecs flexible data := by
  refine ⟨bnd4_header_agrees houter hrun, fun heap hcalm => ?_, fun heap b hcalm hb heap' hcalm' => ?_⟩
  · obtain ⟨-, -, br1, hs1, heager⟩ := (bnd4_read_cases houter hcalm hrun).2 props headers rfl
    rw [heager]
    refine avoids_bind.2 ⟨?_, fun files br1' _ => by simp⟩
    refine avoids_binderReadFiles (alongside_isCalm hs1) fun h hh hcomp => ?_
    have hentry := htrue h hh
    rw [BinderEntryTrue, if_pos hcomp] at hentry
    exact hentry.1
  · obtain ⟨-, -, br1, hs1, heager⟩ := (bnd4_read_cases houter hcalm hrun).2 props headers rfl
    obtain ⟨⟨br2, hs2, hopen⟩, -⟩ := (bnd4_read_cases houter hcalm' hrun).2 props headers rfl
    obtain ⟨files, _, _, hfiles, hb'⟩ := bind_fst_eq_ok (heager.symm.trans hb)
    cases hb'
    have hread := binderReadFiles_ok (alongside_isCalm hs1) hfiles
    refine ⟨_, hopen, by rw [List.length_map]; exact hread.length_eq, fun i file hfile => ?_⟩
    obtain ⟨hi, rfl⟩ := List.getElem?_eq_some_iff.1 hfile
    have hi' : i < headers.length := hread.length_eq ▸ hi
    obtain ⟨hid, hname, hflags, z, heap1, info, hcalm1, hz, hdecode⟩ := (List.forall₂_iff_get.1 hread).2 i hi' hi
    have hentry := htrue _ (List.getElem_mem hi')
    have hsize := (hentry.decode hz ⟨hcalm1, hcalm1⟩ hdecode).2
    refine ⟨headers[i].readerFile, by simp [hi'], hid.symm, hname.symm, hflags.symm, hsize, fun heap'' hcalm'' => ?_⟩
    rw [bnd4ReaderReadFileByIndex_fst (List.getElem?_eq_getElem hi')]
    rcases binderExtractFileData_cases codecs headers[i] (r := br2.withHeap heap'')
      ⟨(alongside_isCalm hs2).1, hcalm''⟩ with ⟨e, -, -, hno⟩ | ⟨z', k, -, hz', hdecode'⟩
    · exact absurd hz (hno z)
    · have hplace : z' = z := hz'.eq.trans hz.eq.symm
      have hsame := (hentry.decode hz ⟨hcalm1, Heap.Calm.drop hcalm'' k⟩ hdecode).1
      rw [hplace] at hdecode'
      rw [show (binderExtractFileData codecs headers[i] (br2.withHeap heap'')).1 = _ from hdecode'.trans hsame]
      rfl

end

/-- A file in an EDGE container and one that is stored as it is, in a format whose headers tell both sizes. -/
def bnd4Sized : Bnd4 :=
  { files := [⟨7, some (cstr "a"), [1, 2, 3], 0x03, .dcxEdge⟩, ⟨8, some (cstr "b"), [4, 5], 0x02, .zlib⟩]
    version := some (cstr "07D7R6"), format := 0x2E, unk04 := false, unk05 := false, bigEndian := false
    bitBigEndian := false, unicode := true, extended := 0 }

def bnd4SizedBytes : List UInt8 :=
  (bnd4WriteToMemory .ascii storingCodecs Qsort.insertion bnd4Sized []).1.toOption.getD []

/-- A file with one byte of data, in a format whose headers tell no uncompressed size. -/
def bnd4Unsized : Bnd4 :=
  { files := [⟨7, some (cstr "a"), [1], 0x02, .zlib⟩], version := some (cstr "07D7R6"), format := 0x0E
    unk04 := false, unk05 := false, bigEndian := false, bitBigEndian := false, unicode := true, extended := 0 }

def bnd4UnsizedBytes : List UInt8 :=
  (bnd4WriteToMemory .ascii storingCodecs Qsort.insertion bnd4Unsized []).1.toOption.getD []

end SoulsFormats
