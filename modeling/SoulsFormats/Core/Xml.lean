import SoulsFormats.Core.Result

set_option autoImplicit false

/-! # XML trees

What the code uses of its XML library. Names, values of attributes and texts are C strings, without their
terminators. -/

namespace SoulsFormats

/-- The loader and the accessors of the XML library, for text nodes that are kept as they are. -/
structure XmlLibrary (ν : Type) where
  /-- `mxmlLoadString`. -/
  load : List UInt8 → Option ν
  /-- `mxmlGetElement`. -/
  getElement : ν → Option (List UInt8)
  /-- `mxmlElementGetAttr`. -/
  getAttr : List UInt8 → ν → Option (List UInt8)
  /-- What `mxmlGetFirstChild` and `mxmlGetNextSibling` go through. -/
  children : ν → List ν
  /-- `mxmlGetOpaque`. -/
  getOpaque : ν → Option (List UInt8)
  /-- `mxmlFindElement` from the top of a tree down, for a name. -/
  findElement : List UInt8 → ν → Option ν

namespace XmlLibrary

variable {ν : Type} (xml : XmlLibrary ν)

/-- The name of an element, compared with `strcmp`. -/
def Named (name : List UInt8) (node : ν) : Prop := xml.getElement node = some name

instance (name : List UInt8) (node : ν) : Decidable (xml.Named name node) := inferInstanceAs (Decidable (_ = _))

/-- What an element holds first, where it is text: `sfi_node_text`. -/
def nodeText (node : ν) : List UInt8 :=
  match xml.children node with
  | [] => []
  | value :: _ => (xml.getOpaque value).getD []

/-- `sfi_child_text`: what the first child of a name holds. -/
def childText (name : List UInt8) (node : ν) : Option (List UInt8) :=
  ((xml.children node).find? fun child => decide (xml.Named name child)).map xml.nodeText

end XmlLibrary

/-- A node of a tree. Directives and comments have no name; the nodes behind the directive of a document are its
    children. -/
inductive XmlNode where
  | element (name : List UInt8) (attrs : List (List UInt8 × List UInt8)) (children : List XmlNode)
  | text (value : List UInt8)
  | other (children : List XmlNode)

namespace XmlNode

def getElement : XmlNode → Option (List UInt8)
  | element name _ _ => some name
  | _ => none

def getAttr (name : List UInt8) : XmlNode → Option (List UInt8)
  | element _ attrs _ => (attrs.find? fun a => a.1 = name).map Prod.snd
  | _ => none

def children : XmlNode → List XmlNode
  | element _ _ children => children
  | text _ => []
  | other children => children

def getOpaque : XmlNode → Option (List UInt8)
  | text value => some value
  | element _ _ (text value :: _) => some value
  | _ => none

mutual

/-- The first element of a name, from this node on. -/
def findFrom (name : List UInt8) : XmlNode → Option XmlNode
  | element n attrs children => if n = name then some (element n attrs children) else findIn name children
  | text _ => none
  | other children => findIn name children

def findIn (name : List UInt8) : List XmlNode → Option XmlNode
  | [] => none
  | node :: rest => (findFrom name node).or (findIn name rest)

end

/-- The library on such trees. -/
def library (load : List UInt8 → Option XmlNode) : XmlLibrary XmlNode where
  load := load
  getElement := getElement
  getAttr := getAttr
  children := children
  getOpaque := getOpaque
  findElement name tree := findIn name tree.children

end XmlNode

end SoulsFormats
