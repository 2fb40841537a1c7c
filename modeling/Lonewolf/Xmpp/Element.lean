import Lonewolf.Xmpp.Namespace

/-!
# Elements

`stanza/element.rs`: the trees that are stored, how they are built, derived, copied to another arena and
rescoped, and how they are written. The handles of an arena are replaced by what they resolve to; only the
bindings of namespaces keep their addresses.
-/

namespace Lonewolf.Xmpp

open Texts

structure Attribute where
  name : Text
  ns : Text
  value : Text
  deriving DecidableEq

/-- `ElementData` without the children. -/
structure ElementData where
  name : Text
  ns : Text
  namespaces : NamespaceContext
  attributes : List Attribute
  deriving DecidableEq

/-- The children of an element, in order. -/
inductive Nodes where
  | nil
  | text (text : Text) (rest : Nodes)
  | element (data : ElementData) (children rest : Nodes)
  deriving DecidableEq

structure Element where
  data : ElementData
  children : Nodes
  deriving DecidableEq

namespace Nodes

def isEmpty : Nodes → Bool
  | .nil => true
  | _ => false

def append : Nodes → Nodes → Nodes
  | .nil, nodes => nodes
  | .text t rest, nodes => .text t (rest.append nodes)
  | .element data children rest, nodes => .element data children (rest.append nodes)

def pushText (nodes : Nodes) (t : Text) : Nodes := nodes.append (.text t .nil)

def pushElement (nodes : Nodes) (element : Element) : Nodes :=
  nodes.append (.element element.data element.children .nil)

/-- `retain` with the condition of `remove_children`. -/
def removeElements (name ns : Text) : Nodes → Nodes
  | .nil => .nil
  | .text t rest => .text t (rest.removeElements name ns)
  | .element data children rest =>
    if data.name = name ∧ data.ns = ns then rest.removeElements name ns
    else .element data children (rest.removeElements name ns)

/-- The depth of the deepest element, and the number of nodes with each subtree at every occurrence. -/
def size : Nodes → Nat × Nat
  | .nil => (0, 0)
  | .text _ rest => (rest.size.1, rest.size.2 + 1)
  | .element _ children rest => (max (children.size.1 + 1) rest.size.1, children.size.2 + 1 + rest.size.2)

end Nodes

def maxElementDepth : Nat := 128

def maxElementNodes : Nat := 65536

/-! ### Building -/

/-- An attribute with this local name and namespace URI. -/
def Attribute.matches (name ns : Text) (stored : Attribute) : Bool :=
  stored.name = name && stored.ns = ns

/-- `AttributesBuilder::set`. -/
def setAttribute (attributes : List Attribute) (name ns value : Text) : Except BuildError (List Attribute) := do
  validateName name ns true
  validateText value
  match attributes.findIdx? (Attribute.matches name ns) with
  | some index => return attributes.set index ⟨name, ns, value⟩
  | none => return attributes ++ [⟨name, ns, value⟩]

/-- `AttributesBuilder::remove`. -/
def removeAttribute (attributes : List Attribute) (name ns : Text) : List Attribute :=
  match attributes.findIdx? (Attribute.matches name ns) with
  | some index => attributes.eraseIdx index
  | none => attributes

/-- `ElementFrame::attribute`. -/
def frameAttribute (attributes : List Attribute) (name ns value : Text) : Except BuildError (List Attribute) :=
  if attributes.any (Attribute.matches name ns) then .error .duplicateAttribute
  else setAttribute attributes name ns value

/-- `AttributesBuilder::append_from`. -/
def appendAttributes (attributes values : List Attribute) : Except BuildError (List Attribute) :=
  values.foldlM (fun attributes value => do
    validateName value.name value.ns true
    return attributes ++ [value]) attributes

/-- A builder or a frame holds what its element is made of. -/
abbrev ElementBuilder := Element

namespace ElementBuilder

def new (name ns : Text) : Except BuildError ElementBuilder := do
  validateName name ns false
  return ⟨⟨name, ns, .empty, []⟩, .nil⟩

variable (builder : ElementBuilder)

def setNamespaces (namespaces : NamespaceContext) : ElementBuilder :=
  { builder with data := { builder.data with namespaces := namespaces } }

def withAttributes (attributes : List Attribute) : ElementBuilder :=
  { builder with data := { builder.data with attributes := attributes } }

def withAttribute (name ns value : Text) : Except BuildError ElementBuilder := do
  return builder.withAttributes (← setAttribute builder.data.attributes name ns value)

def frameAttribute (builder : ElementBuilder) (name ns value : Text) : Except BuildError ElementBuilder := do
  return builder.withAttributes (← Xmpp.frameAttribute builder.data.attributes name ns value)

def removeAttribute (builder : ElementBuilder) (name ns : Text) : ElementBuilder :=
  builder.withAttributes (Xmpp.removeAttribute builder.data.attributes name ns)

def text (t : Text) : Except BuildError ElementBuilder := do
  validateText t
  if t.isEmpty then return builder else return { builder with children := builder.children.pushText t }

def frameText (t : Text) : Except BuildError ElementBuilder := do
  validateText t
  return { builder with children := builder.children.pushText t }

def child (element : Element) : ElementBuilder :=
  { builder with children := builder.children.pushElement element }

def removeChildren (name ns : Text) : ElementBuilder :=
  { builder with children := builder.children.removeElements name ns }

def clearChildren : ElementBuilder := { builder with children := .nil }

/-- `build`; the totals of its loop only grow. -/
def build : Except BuildError Element :=
  if maxElementDepth < builder.children.size.1 + 1 ∨ maxElementNodes < builder.children.size.2 + 1 then
    .error .treeLimitExceeded
  else .ok builder

end ElementBuilder

/-! ### Copying -/

/-- The copy of the data of an element: its namespaces, its name and its attributes. -/
def ElementData.cloneIn (data : ElementData) (arena : Arena) (copies : NamespaceCopies) :
    Except BuildError (ElementData × Arena × NamespaceCopies) := do
  let (namespaces, arena, copies) := data.namespaces.copyIn none arena copies
  validateName data.name data.ns false
  let attributes ← appendAttributes [] data.attributes
  return (⟨data.name, data.ns, namespaces, attributes⟩, arena, copies)

/-- `clone_with_namespaces` of each child. -/
def Nodes.cloneIn : Nodes → Arena → NamespaceCopies → Except BuildError (Nodes × Arena × NamespaceCopies)
  | .nil, arena, copies => return (.nil, arena, copies)
  | .text t rest, arena, copies => do
      let (rest, arena, copies) ← rest.cloneIn arena copies
      return (.text t rest, arena, copies)
  | .element data children rest, arena, copies => do
      let (data, arena, copies) ← data.cloneIn arena copies
      let (children, arena, copies) ← children.cloneIn arena copies
      let element ← ElementBuilder.build ⟨data, children⟩
      let (rest, arena, copies) ← rest.cloneIn arena copies
      return (.element element.data element.children rest, arena, copies)

def Element.toBuilderWithNamespaces (element : Element) (arena : Arena) (copies : NamespaceCopies) :
    Except BuildError (ElementBuilder × Arena × NamespaceCopies) := do
  let (data, arena, copies) ← element.data.cloneIn arena copies
  let (children, arena, copies) ← element.children.cloneIn arena copies
  return (⟨data, children⟩, arena, copies)

/-- `to_builder_in`; `clone_in` builds the result. -/
def Element.toBuilderIn (element : Element) (arena : Arena) : Except BuildError (ElementBuilder × Arena) := do
  let (builder, arena, _) ← element.toBuilderWithNamespaces arena []
  return (builder, arena)

/-- `rescope_with_namespaces` of each child: `copies` are the copies of foreign subtrees, `rescoped` those of
the elements whose namespace changes. -/
def Nodes.rescopeIn (source target : Text) : Nodes → Arena → NamespaceCopies → NamespaceCopies →
    Except BuildError (Nodes × Arena × NamespaceCopies × NamespaceCopies)
  | .nil, arena, copies, rescoped => return (.nil, arena, copies, rescoped)
  | .text t rest, arena, copies, rescoped => do
      validateText t
      let (rest, arena, copies, rescoped) ← rest.rescopeIn source target arena copies rescoped
      return (.text t rest, arena, copies, rescoped)
  | .element data children rest, arena, copies, rescoped => do
      if data.ns ≠ source ∨ source = target then
        let (builder, arena, copies) ← Element.toBuilderWithNamespaces ⟨data, children⟩ arena copies
        let element ← builder.build
        let (rest, arena, copies, rescoped) ← rest.rescopeIn source target arena copies rescoped
        return (.element element.data element.children rest, arena, copies, rescoped)
      else
        validateName data.name target false
        let (namespaces, arena, rescoped) := data.namespaces.copyIn (some (source, target)) arena rescoped
        let attributes ← appendAttributes [] data.attributes
        let (children, arena, copies, rescoped) ← children.rescopeIn source target arena copies rescoped
        let element ← ElementBuilder.build ⟨⟨data.name, target, namespaces, attributes⟩, children⟩
        let (rest, arena, copies, rescoped) ← rest.rescopeIn source target arena copies rescoped
        return (.element element.data element.children rest, arena, copies, rescoped)

/-! ### Writing -/

def NamePrefix.writeDeclaration (pre : NamePrefix) (ns : Text) : Text :=
  match pre with
  | .generated index => NamespaceContext.writeGenerated index ns
  | _ => []

/-- The loop of `write_attributes`. -/
def writeAttributesFrom (namespaces : NamespaceContext) : Nat → Nat → List Attribute → Text
  | _, _, [] => []
  | generated, index, value :: values =>
    let (pre, next) := namespaces.attributePrefix value.ns (max generated index)
    pre.writeDeclaration value.ns ++
      (" ".toList ++ (pre.write ++ (value.name ++ ("=\"".toList ++ (escape value.value true ++ ("\"".toList ++
        writeAttributesFrom namespaces next (index + 1) values))))))

/-- The first index that an attribute's prefix is generated from. -/
def NamePrefix.nextGenerated : NamePrefix → Nat
  | .generated index => index + 1
  | _ => 0

def writeAttributes (attributes : List Attribute) (namespaces : NamespaceContext) (elementPrefix : NamePrefix) : Text :=
  writeAttributesFrom namespaces elementPrefix.nextGenerated 0 attributes

namespace ElementData

def elementPrefix (data : ElementData) : NamePrefix := data.namespaces.elementPrefix data.ns

/-- A start tag up to its end. -/
def writeStart (data : ElementData) (parentNamespace : Option Text) (parentContext : Option NamespaceContext) : Text :=
  "<".toList ++ (data.elementPrefix.write ++ (data.name ++
    (data.namespaces.write data.elementPrefix data.ns parentNamespace parentContext ++
      writeAttributes data.attributes data.namespaces data.elementPrefix)))

def writeEnd (data : ElementData) : Text := "</".toList ++ (data.elementPrefix.write ++ (data.name ++ ">".toList))

def childDefault (data : ElementData) (parentNamespace : Option Text) : Option Text :=
  data.namespaces.childDefault data.elementPrefix data.ns parentNamespace

end ElementData

/-- The loop of `write_in` over children, with `write_in` of each element. -/
def Nodes.writeIn (parentNamespace : Option Text) (parentContext : Option NamespaceContext) : Nodes → Text
  | .nil => []
  | .text t rest => escape t false ++ rest.writeIn parentNamespace parentContext
  | .element data children rest =>
    (data.writeStart parentNamespace parentContext ++
      if children.isEmpty then "/>".toList
      else ">".toList ++ (children.writeIn (data.childDefault parentNamespace) (some data.namespaces) ++ data.writeEnd)) ++
    rest.writeIn parentNamespace parentContext

def Element.writeIn (element : Element) (parentNamespace : Option Text)
    (parentContext : Option NamespaceContext) : Text :=
  (Nodes.element element.data element.children .nil).writeIn parentNamespace parentContext

def Element.writeXml (element : Element) : Text := element.writeIn none none

end Lonewolf.Xmpp
