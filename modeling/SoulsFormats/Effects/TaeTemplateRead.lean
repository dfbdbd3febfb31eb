import SoulsFormats.Effects.TaeTemplate

set_option autoImplicit false

/-! # Reading a TAE template

The document is read element by element. When all the banks are there, one pass over them gives each bank that is
based on another one the events that the other one has at that time. -/

namespace SoulsFormats

open Bytes Fallible

/-- `sf_strdup`. -/
def strdup (s : List UInt8) : Fallible Heap SfError (List UInt8) := do
  let _ ← Heap.alloc
  pure s

/-- A value that the document has to give. -/
def orBadMagic {α : Type} : Option α → Fallible Heap SfError α
  | some a => pure a
  | none => fail .badMagic

/-! ## Parameters -/

/-- `sfi_parse_tae_game`. -/
def parseTaeGame (text : List UInt8) : Option TaeFormat :=
  if text = cstr "DS1" then some .ds1
  else if text = cstr "SOTFS" then some .sotfs
  else if text = cstr "DS3" ∨ text = cstr "BB" then some .ds3
  else if text = cstr "SDT" then some .sdt
  else if text = cstr "DES" then some .des
  else if text = cstr "DESR" then some .desr
  else none

/-- The names that `sfi_parse_param_type` knows. -/
def taeParamTypeNames : List (List UInt8 × TaeParamType) :=
  [(cstr "b", .b), (cstr "u8", .u8), (cstr "x8", .x8), (cstr "s8", .s8), (cstr "u16", .u16), (cstr "x16", .x16),
    (cstr "s16", .s16), (cstr "u32", .u32), (cstr "x32", .x32), (cstr "s32", .s32), (cstr "u64", .u64),
    (cstr "x64", .x64), (cstr "s64", .s64), (cstr "f32", .f32), (cstr "f32grad", .f32grad), (cstr "f64", .f64),
    (cstr "aob", .aob)]

/-- `sfi_parse_param_type`. -/
def parseParamType (name : List UInt8) : Option TaeParamType :=
  (taeParamTypeNames.find? fun t => t.1 = name).map Prod.snd

/-- `sfi_parse_enum_value`. -/
def parseEnumValue (type : TaeParamType) (text : List UInt8) : Option Int64 :=
  let unsigned (base : Nat) : Option Int64 := do
    let v ← parseU64Base text base
    if v.toNat ≤ 2 ^ 63 - 1 then some v.toInt64 else none
  match type with
  | .b => (parseBoolValue text).map fun b => if b then 1 else 0
  | .x8 | .x16 | .x32 | .x64 => unsigned 16
  | .u8 | .u16 | .u32 | .u64 => unsigned 10
  | .s8 | .s16 | .s32 | .s64 => parseI64Base text 10
  | _ => none

/-- The entries of an enumeration. -/
def sfiParseEntries {ν : Type} (xml : XmlLibrary ν) (type : TaeParamType) :
    List ν → Fallible Heap SfError (List TaeEnumEntry)
  | [] => pure []
  | child :: rest =>
    if xml.Named (cstr "entry") child then do
      let name ← orBadMagic (xml.getAttr (cstr "name") child)
      let text ← orBadMagic (xml.getAttr (cstr "value") child)
      let value ← orBadMagic (parseEnumValue type text)
      let name ← strdup name
      let entries ← sfiParseEntries xml type rest
      pure ({ name := name, value := value } :: entries)
    else sfiParseEntries xml type rest

/-- `sfi_parse_value_attr_or_child`. -/
def sfiParseValueAttrOrChild {ν : Type} (xml : XmlLibrary ν) (libc : FloatText) (type : TaeParamType)
    (aobLength : Int32) (entries : List TaeEnumEntry) (node : ν) (name : List UInt8) :
    Fallible Heap SfError {value : Option (List UInt8) // ValueSized type aobLength value} :=
  match (xml.childText name node).or (xml.getAttr name node) with
  | none => pure ⟨none, nofun⟩
  | some text =>
    if hcount : 0 < type.byteCount aobLength then do
      let _ ← Heap.alloc
      match hbytes : parseParamBytes libc type aobLength entries text with
      | none => fail .badMagic
      | some bytes => pure ⟨some bytes, by rintro _ ⟨⟩; exact ⟨hcount, parseParamBytes_length hbytes⟩⟩
    else fail .badMagic

/-- `sfi_make_key`. -/
def sfiMakeKey (name : List UInt8) : Option (List UInt8) → Fallible Heap SfError (List UInt8)
  | none => strdup name
  | some nameGroup => do
    let _ ← Heap.alloc
    pure (nameGroup ++ cstr "::" ++ name)

/-- `sfi_parse_param`. A parameter without a name is called by its offset. -/
def sfiParseParam {ν : Type} (xml : XmlLibrary ν) (libc : FloatText) (node : ν) (offset : Nat) :
    Fallible Heap SfError TaeParamTemplate := do
  let _ ← Heap.alloc
  let type ← orBadMagic ((xml.getElement node).bind parseParamType)
  let nameGroup ← match xml.getAttr (cstr "group") node with
    | some group => some <$> strdup group
    | none => pure none
  let name ← strdup ((xml.getAttr (cstr "name") node).getD (cstr "Unk" ++ printHex2 offset))
  let aobLength ← match xml.getAttr (cstr "length") node with
    | some length => do
      let parsedLength ← orBadMagic (parseI32 length)
      check (0 ≤ parsedLength.toInt) .badMagic
      pure parsedLength
    | none => do
      check (type ≠ .aob) .badMagic
      pure (-1)
  if ((xml.children node).any fun child => decide (xml.Named (cstr "entry") child)) then
    let _ ← Heap.alloc
  let entries ← sfiParseEntries xml type (xml.children node)
  let assertValue ← sfiParseValueAttrOrChild xml libc type aobLength entries node (cstr "assert")
  let defaultValue ← sfiParseValueAttrOrChild xml libc type aobLength entries node (cstr "default")
  let key ← sfiMakeKey name nameGroup
  pure {
    type := type
    name := name
    nameGroup := nameGroup
    key := key
    aobLength := aobLength
    assertBytes := assertValue.1
    defaultBytes := defaultValue.1
    enumEntries := entries
    assert_sized := assertValue.2
    default_sized := defaultValue.2 }

/-! ## Events -/

/-- The children of an event that are parameters. -/
def isParamElement {ν : Type} (xml : XmlLibrary ν) (child : ν) : Bool :=
  match xml.getElement child with
  | none => false
  | some name => name.head? ≠ some 0x23 ∧ name ≠ cstr "assert" ∧ name ≠ cstr "default" ∧ name ≠ cstr "entry"

/-- The loop of `sfi_parse_event` over the parameters, which are at the offset that those before them add up to. -/
def sfiParseParams {ν : Type} (xml : XmlLibrary ν) (libc : FloatText) :
    List ν → List TaeParamTemplate → Nat → Fallible Heap SfError (List TaeParamTemplate × Nat)
  | [], params, offset => pure (params, offset)
  | child :: rest, params, offset =>
    if isParamElement xml child then do
      let p ← sfiParseParam xml libc child offset
      check (∀ q ∈ params, q.key ≠ p.key) .badMagic
      let byteCount := p.type.byteCount p.aobLength
      check (0 < byteCount ∧ offset ≤ INT32_MAX - byteCount) .badMagic
      sfiParseParams xml libc rest (params ++ [p]) (offset + byteCount.toNat)
    else sfiParseParams xml libc rest params offset

/-- What `snprintf` prints for `Event%d`. -/
def eventName (id : Int32) : List UInt8 := cstr "Event" ++ printI64 id.toInt64

/-- `sfi_parse_event`. -/
def sfiParseEvent {ν : Type} (xml : XmlLibrary ν) (libc : FloatText) (node : ν) :
    Fallible Heap SfError TaeEventTemplate := do
  let idText ← orBadMagic (xml.getAttr (cstr "id") node)
  let _ ← Heap.alloc
  let id ← orBadMagic (parseI32 idText)
  let name ← strdup ((xml.getAttr (cstr "name") node).getD (eventName id))
  if (xml.children node).any (isParamElement xml) then
    let _ ← Heap.alloc
  let (params, offset) ← sfiParseParams xml libc (xml.children node) [] 0
  pure { id := id, name := name, params := params, totalByteCount := Int32.ofNat offset }

/-! ## Banks -/

/-- A bank as the document has it, and the bank it says to be based on. -/
structure TaeBankElement where
  bank : TaeBankTemplate
  basedOn : Option Int64
deriving DecidableEq

/-- What `sfi_parse_bank` returns as `based_on`: -1 stands for a bank without a reference. -/
def TaeBankElement.reference (b : TaeBankElement) : Int64 := b.basedOn.getD (-1)

/-- The loop of `sfi_parse_bank` over the events. -/
def sfiParseEvents {ν : Type} (xml : XmlLibrary ν) (libc : FloatText) : List ν → List TaeEventTemplate →
    Fallible Heap SfError (List TaeEventTemplate)
  | [], events => pure events
  | child :: rest, events =>
    if xml.Named (cstr "event") child then do
      let e ← sfiParseEvent xml libc child
      check (∀ o ∈ events, o.id ≠ e.id) .badMagic
      sfiParseEvents xml libc rest (events ++ [e])
    else sfiParseEvents xml libc rest events

/-- The attribute `basedon`. -/
def sfiParseBasedOn : Option (List UInt8) → Fallible Heap SfError (Option Int64)
  | some text => some <$> orBadMagic (parseI64 text)
  | none => pure none

/-- `sfi_parse_bank`. -/
def sfiParseBank {ν : Type} (xml : XmlLibrary ν) (libc : FloatText) (node : ν) :
    Fallible Heap SfError TaeBankElement := do
  let idText ← orBadMagic (xml.getAttr (cstr "id") node)
  let name ← orBadMagic (xml.getAttr (cstr "name") node)
  let _ ← Heap.alloc
  let id ← orBadMagic (parseI64 idText)
  let name ← strdup name
  let basedOn ← sfiParseBasedOn (xml.getAttr (cstr "basedon") node)
  if ((xml.children node).any fun child => decide (xml.Named (cstr "event") child)) then
    let _ ← Heap.alloc
  let events ← sfiParseEvents xml libc (xml.children node) []
  pure { bank := { id := id, name := name, events := events }, basedOn := basedOn }

/-- The loop of `sfi_template_from_tree` over the banks. -/
def sfiParseBanks {ν : Type} (xml : XmlLibrary ν) (libc : FloatText) : List ν → List TaeBankElement →
    Fallible Heap SfError (List TaeBankElement)
  | [], banks => pure banks
  | child :: rest, banks =>
    if xml.Named (cstr "bank") child then do
      let b ← sfiParseBank xml libc child
      check (∀ o ∈ banks, o.bank.id ≠ b.bank.id) .badMagic
      sfiParseBanks xml libc rest (banks ++ [b])
    else sfiParseBanks xml libc rest banks

/-! ## Copies -/

/-- The copies of the entries of an enumeration. -/
def sfiCloneEntries : List TaeEnumEntry → Fallible Heap SfError (List TaeEnumEntry)
  | [] => pure []
  | entry :: rest => do
    let name ← strdup entry.name
    let entries ← sfiCloneEntries rest
    pure ({ name := name, value := entry.value } :: entries)

/-- `sfi_clone_param`. The bytes of a value are as many as the type says, so that all of them are copied. -/
def sfiCloneParam (src : TaeParamTemplate) : Fallible Heap SfError TaeParamTemplate := do
  let _ ← Heap.alloc
  let name ← attempt (strdup src.name)
  let nameGroup ← attempt (match src.nameGroup with
    | some group => some <$> strdup group
    | none => pure none)
  let key ← attempt (strdup src.key)
  let name ← lift name
  let nameGroup ← lift nameGroup
  let key ← lift key
  if src.assertBytes.isSome then
    let _ ← Heap.alloc
  if src.defaultBytes.isSome then
    let _ ← Heap.alloc
  if src.enumEntries ≠ [] then
    let _ ← Heap.alloc
  let entries ← sfiCloneEntries src.enumEntries
  pure { src with name := name, nameGroup := nameGroup, key := key, enumEntries := entries }

def sfiCloneParams : List TaeParamTemplate → Fallible Heap SfError (List TaeParamTemplate)
  | [] => pure []
  | src :: rest => do
    let p ← sfiCloneParam src
    let params ← sfiCloneParams rest
    pure (p :: params)

/-- `sfi_clone_event`. -/
def sfiCloneEvent (src : TaeEventTemplate) : Fallible Heap SfError TaeEventTemplate := do
  let _ ← Heap.alloc
  let name ← strdup src.name
  if src.params ≠ [] then
    let _ ← Heap.alloc
  let params ← sfiCloneParams src.params
  pure { id := src.id, name := name, params := params, totalByteCount := src.totalByteCount }

def sfiCloneEvents : List TaeEventTemplate → Fallible Heap SfError (List TaeEventTemplate)
  | [] => pure []
  | src :: rest => do
    let e ← sfiCloneEvent src
    let events ← sfiCloneEvents rest
    pure (e :: events)

/-! ## Inheritance -/

/-- The events of `src` that `dst` does not have. -/
def missingEvents (dst src : TaeBankTemplate) : List TaeEventTemplate :=
  src.events.filter fun e => (taeBankTemplateFindEvent dst e.id).isNone

/-- What `sfi_resolve_based_on` does for a bank that is based on `src`. -/
def sfiInherit (dst src : TaeBankTemplate) : Fallible Heap SfError TaeBankTemplate :=
  if missingEvents dst src = [] then pure dst
  else do
    let _ ← Heap.alloc
    let events ← sfiCloneEvents (missingEvents dst src)
    pure { dst with events := dst.events ++ events }

/-- The loop of `sfi_resolve_based_on`, behind the banks that are done. -/
def sfiResolveFrom (done : List TaeBankTemplate) : List TaeBankElement → Fallible Heap SfError (List TaeBankTemplate)
  | [] => pure done
  | b :: rest =>
    if b.reference = -1 then sfiResolveFrom (done ++ [b.bank]) rest
    else
      -- `sfi_find_bank_mut` finds a bank as it is at this time
      match (done ++ b.bank :: rest.map TaeBankElement.bank).find? fun src => src.id = b.reference with
      | none => fail .badMagic
      | some src => do
        let dst ← sfiInherit b.bank src
        sfiResolveFrom (done ++ [dst]) rest

/-- `sfi_resolve_based_on`. -/
def sfiResolveBasedOn (elements : List TaeBankElement) : Fallible Heap SfError (List TaeBankTemplate) :=
  sfiResolveFrom [] elements

/-! ## Documents -/

/-- The element that `sfi_template_from_tree` reads. -/
def templateRoot {ν : Type} (xml : XmlLibrary ν) (tree : ν) : Option ν :=
  if xml.Named (cstr "event_template") tree then some tree else xml.findElement (cstr "event_template") tree

/-- `sfi_template_from_tree`, up to the banks as the document has them. -/
def sfiBankElements {ν : Type} (xml : XmlLibrary ν) (libc : FloatText) (tree : ν) :
    Fallible Heap SfError (TaeFormat × List TaeBankElement) := do
  let root ← orBadMagic (templateRoot xml tree)
  let game ← orBadMagic (xml.getAttr (cstr "game") root)
  let _ ← Heap.alloc
  let format ← orBadMagic (parseTaeGame game)
  if ((xml.children root).any fun child => decide (xml.Named (cstr "bank") child)) then
    let banks ← attempt Heap.alloc
    let basedOn ← attempt Heap.alloc
    let _ ← lift banks
    let _ ← lift basedOn
  let elements ← sfiParseBanks xml libc (xml.children root) []
  pure (format, elements)

/-- `sfi_template_from_tree`. -/
def sfiTemplateFromTree {ν : Type} (xml : XmlLibrary ν) (libc : FloatText) (tree : ν) :
    Fallible Heap SfError TaeTemplate := do
  let (game, elements) ← sfiBankElements xml libc tree
  let banks ← sfiResolveBasedOn elements
  pure { game := game, banks := banks }

/-- The document of `sf_tae_template_read_from_memory`: the text up to the first NUL, as the XML library loads it. -/
def loadDocument {ν : Type} (xml : XmlLibrary ν) (xmlText : List UInt8) : Fallible Heap SfError ν := do
  let _ ← Heap.alloc
  match xml.load (cText xmlText) with
  | none => fail .internal
  | some tree => pure tree

/-- `sf_tae_template_read_from_memory`. -/
def sfTaeTemplateReadFromMemory {ν : Type} (xml : XmlLibrary ν) (libc : FloatText) (xmlText : List UInt8) :
    Fallible Heap SfError TaeTemplate := do
  let tree ← loadDocument xml xmlText
  sfiTemplateFromTree xml libc tree

end SoulsFormats
