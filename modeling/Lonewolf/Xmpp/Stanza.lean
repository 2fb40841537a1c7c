import Lonewolf.Xmpp.Element

/-!
# Stanzas

`stanza/mod.rs`: a stanza has its common attributes in a header, other attributes, and elements as children.
It is built, derived, copied, rescoped, made an element, and written.
-/

namespace Lonewolf.Xmpp

open Texts

inductive StanzaNamespace where
  | client
  | server
  deriving DecidableEq

def StanzaNamespace.asStr : StanzaNamespace → Text
  | .client => clientNamespace
  | .server => serverNamespace

inductive StanzaKind where
  | message
  | presence
  | iq
  deriving DecidableEq

def StanzaKind.asStr : StanzaKind → Text
  | .message => "message".toList
  | .presence => "presence".toList
  | .iq => "iq".toList

inductive MessageType where
  | normal | chat | groupchat | headline | error
  deriving DecidableEq

inductive PresenceType where
  | available | unavailable | subscribe | subscribed | unsubscribe | unsubscribed | probe | error
  deriving DecidableEq

inductive IqType where
  | get | set | result | error
  deriving DecidableEq

inductive StanzaType where
  | message (type : MessageType)
  | presence (type : PresenceType)
  | iq (type : IqType)
  deriving DecidableEq

namespace StanzaType

def kind : StanzaType → StanzaKind
  | .message _ => .message
  | .presence _ => .presence
  | .iq _ => .iq

/-- Default message and available presence types omit the XML attribute. -/
def asStr : StanzaType → Option Text
  | .message .normal | .presence .available => none
  | .message .chat => some "chat".toList
  | .message .groupchat => some "groupchat".toList
  | .message .headline => some "headline".toList
  | .message .error | .presence .error | .iq .error => some "error".toList
  | .presence .unavailable => some "unavailable".toList
  | .presence .subscribe => some "subscribe".toList
  | .presence .subscribed => some "subscribed".toList
  | .presence .unsubscribe => some "unsubscribe".toList
  | .presence .unsubscribed => some "unsubscribed".toList
  | .presence .probe => some "probe".toList
  | .iq .get => some "get".toList
  | .iq .set => some "set".toList
  | .iq .result => some "result".toList

def isError : StanzaType → Bool
  | .message .error | .presence .error | .iq .error => true
  | _ => false

end StanzaType

structure Header where
  stanzaType : StanzaType
  originalMessageType : Option Text
  ns : StanzaNamespace
  fromJid : Option Jid
  toJid : Option Jid
  id : Option Text
  lang : Option Text
  deriving DecidableEq

structure Stanza where
  header : Header
  namespaces : NamespaceContext
  attributes : List Attribute
  children : List Element
  deriving DecidableEq

/-- A builder or a frame holds what its stanza is made of. -/
abbrev StanzaBuilder := Stanza

def reservedAttribute (name ns : Text) : Bool :=
  (ns.isEmpty && ["from".toList, "to".toList, "id".toList, "type".toList, "xmlns".toList].contains name) ||
    (ns = xmlNamespace && name = "lang".toList)

namespace StanzaBuilder

def new (stanzaType : StanzaType) (ns : StanzaNamespace) : StanzaBuilder :=
  ⟨⟨stanzaType, none, ns, none, none, none, none⟩, .empty, [], []⟩

/-- A setter of the header: `stanza_type`, `from`, `to`, `swap_addresses`, `bare_to`, `id` and `lang`. -/
inductive HeaderChange where
  | stanzaType (stanzaType : StanzaType)
  | fromJid (jid : Option Jid)
  | toJid (jid : Option Jid)
  | swapAddresses
  | bareTo
  | id (id : Option Text)
  | lang (lang : Option Text)

def storeText (text : Option Text) : Except BuildError (Option Text) := do
  text.forM validateText
  return text

def changeHeader (header : Header) : HeaderChange → Except BuildError Header
  | .stanzaType stanzaType => return { header with stanzaType := stanzaType, originalMessageType := none }
  | .fromJid jid => return { header with fromJid := jid }
  | .toJid jid => return { header with toJid := jid }
  | .swapAddresses => return { header with fromJid := header.toJid, toJid := header.fromJid }
  | .bareTo => return { header with toJid := header.toJid.map Jid.bare }
  | .id id => do return { header with id := ← storeText id }
  | .lang lang => do return { header with lang := ← storeText lang }

variable (builder : StanzaBuilder)

def withAttribute (name ns value : Text) : Except BuildError StanzaBuilder := do
  if reservedAttribute name ns then throw .reservedAttribute
  return { builder with attributes := ← setAttribute builder.attributes name ns value }

def removeAttribute (builder : StanzaBuilder) (name ns : Text) : Except BuildError StanzaBuilder := do
  if reservedAttribute name ns then throw .reservedAttribute
  return { builder with attributes := Xmpp.removeAttribute builder.attributes name ns }

def clearAttributes : StanzaBuilder := { builder with attributes := [] }

def child (element : Element) : StanzaBuilder :=
  { builder with children := builder.children ++ [element] }

def removeChildren (name ns : Text) : StanzaBuilder :=
  { builder with children := builder.children.filter fun child => child.data.name ≠ name ∨ child.data.ns ≠ ns }

def clearChildren : StanzaBuilder := { builder with children := [] }

/-- The loop of `validate` over the children: the numbers of nodes and of errors so far. -/
def validateChildren (ns : Text) (nodes errors : Nat) : List Element → Except BuildError Nat
  | [] => .ok errors
  | child :: rest =>
    let nodes := nodes + (child.children.size.2 + 1)
    if maxElementDepth ≤ child.children.size.1 + 1 ∨ maxElementNodes < nodes then .error .treeLimitExceeded
    else if child.data.name = "error".toList ∧ child.data.ns = ns then
      if rest ≠ [] then .error .invalidErrorPayload else validateChildren ns nodes (errors + 1) rest
    else validateChildren ns nodes errors rest

def validate : Except BuildError Unit := do
  if builder.header.ns = .server ∧ (builder.header.fromJid = none ∨ builder.header.toJid = none) then
    throw .missingServerAddresses
  let errors ← validateChildren builder.header.ns.asStr 1 0 builder.children
  if errors ≠ (if builder.header.stanzaType.isError then 1 else 0) then throw .invalidErrorPayload
  match builder.header.stanzaType with
  | .iq iqType =>
    if builder.header.id = none then throw .missingIqId
    let payloads := builder.children.length - errors
    let valid : Bool := match iqType with
      | .get | .set => payloads = 1
      | .result | .error => payloads ≤ 1
    if !valid then throw .invalidIqPayload
  | _ => pure ()

def build : Except BuildError Stanza := do
  builder.validate
  return builder

end StanzaBuilder

namespace Stanza

variable (stanza : Stanza)

def replyIn : Except BuildError StanzaBuilder :=
  match stanza.header.stanzaType with
  | .iq .get | .iq .set =>
    .ok ⟨⟨.iq .result, none, stanza.header.ns, stanza.header.toJid, stanza.header.fromJid, stanza.header.id,
      stanza.header.lang⟩, .empty, [], []⟩
  | _ => .error .notIqRequest

/-- `error_reply_described_in`, with the element that `error_element_in` built. -/
def errorReplyIn (error : Element) : Except BuildError StanzaBuilder := do
  let stanzaType ← match stanza.header.stanzaType with
    | .iq .get | .iq .set => pure (.iq .error)
    | .message type => if type = .error then throw .invalidErrorSource else pure (.message .error)
    | .presence type => if type = .error then throw .invalidErrorSource else pure (.presence .error)
    | _ => throw .invalidErrorSource
  return ⟨⟨stanzaType, none, stanza.header.ns, stanza.header.toJid, stanza.header.fromJid, stanza.header.id,
    stanza.header.lang⟩, .empty, [], stanza.children ++ [error]⟩

/-- The children that are kept, copied one after another. -/
def cloneChildren (keep : Element → Bool) : List Element → Arena → NamespaceCopies →
    Except BuildError (List Element × Arena × NamespaceCopies)
  | [], arena, copies => return ([], arena, copies)
  | child :: rest, arena, copies =>
    if keep child then do
      let (builder, arena, copies) ← child.toBuilderWithNamespaces arena copies
      let copied ← builder.build
      let (rest, arena, copies) ← cloneChildren keep rest arena copies
      return (copied :: rest, arena, copies)
    else cloneChildren keep rest arena copies

/-- The copy of an address: its text is stored anew. -/
def cloneHeader (header : Header) : Header :=
  { header with
    fromJid := header.fromJid.map fun jid => jid.resolve.cloneIn
    toJid := header.toJid.map fun jid => jid.resolve.cloneIn }

def toBuilderInFiltered (keep : Element → Bool) (arena : Arena) :
    Except BuildError (StanzaBuilder × Arena) := do
  let (namespaces, arena, copies) := stanza.namespaces.copyIn none arena []
  let attributes ← appendAttributes [] stanza.attributes
  let (children, arena, _) ← cloneChildren keep stanza.children arena copies
  return (⟨cloneHeader stanza.header, namespaces, attributes, children⟩, arena)

/-- The children, rescoped one after another. -/
def rescopeChildren (source target : Text) : List Element → Arena → NamespaceCopies → NamespaceCopies →
    Except BuildError (List Element × Arena)
  | [], arena, _, _ => return ([], arena)
  | child :: rest, arena, copies, rescoped => do
      let (nodes, arena, copies, rescoped) ←
        (Nodes.element child.data child.children .nil).rescopeIn source target arena copies rescoped
      let (rest, arena) ← rescopeChildren source target rest arena copies rescoped
      match nodes with
      | .element data children _ => return (⟨data, children⟩ :: rest, arena)
      | _ => return (rest, arena)

def rescopeIn (ns : StanzaNamespace) (arena : Arena) : Except BuildError (Stanza × Arena) := do
  if ns = stanza.header.ns then
    let (builder, arena) ← stanza.toBuilderInFiltered (fun _ => true) arena
    return (← builder.build, arena)
  else
    let (source, target) := (stanza.header.ns.asStr, ns.asStr)
    let (namespaces, arena, rescoped) := stanza.namespaces.copyIn (some (source, target)) arena []
    let attributes ← appendAttributes [] stanza.attributes
    let (children, arena) ← rescopeChildren source target stanza.children arena [] rescoped
    let header := { cloneHeader stanza.header with ns := ns }
    return (← StanzaBuilder.build ⟨header, namespaces, attributes, children⟩, arena)

def serializedType : Option Text :=
  stanza.header.originalMessageType.or stanza.header.stanzaType.asStr

/-- The attributes that are written for the header. -/
def headerAttributes : List Attribute :=
  (stanza.header.fromJid.map fun jid => ⟨"from".toList, [], jid.resolve.text⟩).toList ++
    ((stanza.header.toJid.map fun jid => ⟨"to".toList, [], jid.resolve.text⟩).toList ++
    ((stanza.header.id.map fun id => ⟨"id".toList, [], id⟩).toList ++
    ((stanza.serializedType.map fun stanzaType => ⟨"type".toList, [], stanzaType⟩).toList ++
    (stanza.header.lang.map fun lang => ⟨"lang".toList, xmlNamespace, lang⟩).toList)))

def toElementBuilderInFiltered (keep : Element → Bool) (arena : Arena) :
    Except BuildError (ElementBuilder × Arena) := do
  let frame ← ElementBuilder.new stanza.header.stanzaType.kind.asStr stanza.header.ns.asStr
  let attributes ← stanza.headerAttributes.foldlM
    (fun attributes value => Xmpp.frameAttribute attributes value.name value.ns value.value) frame.data.attributes
  let attributes ← appendAttributes attributes stanza.attributes
  let (namespaces, arena, copies) := stanza.namespaces.copyIn none arena []
  let (children, arena, _) ← cloneChildren keep stanza.children arena copies
  let nodes := children.foldl Nodes.pushElement .nil
  return (⟨⟨frame.data.name, frame.data.ns, namespaces, attributes⟩, nodes⟩, arena)

/-! ### Writing -/

def elementPrefix (stanza : Stanza) : NamePrefix := stanza.namespaces.elementPrefix stanza.header.ns.asStr

/-- `from`, `to`, `id`, `type` and `xml:lang` as they are written. -/
def writeHeader : Text :=
  ((stanza.header.fromJid.map fun jid => writeAttribute "from".toList jid.resolve.text).getD []) ++
    (((stanza.header.toJid.map fun jid => writeAttribute "to".toList jid.resolve.text).getD []) ++
    (((stanza.header.id.map (writeAttribute "id".toList)).getD []) ++
    (((stanza.serializedType.map (writeAttribute "type".toList)).getD []) ++
    ((stanza.header.lang.map (writeAttribute "xml:lang".toList)).getD []))))

def writeXml : Text :=
  let name := stanza.header.stanzaType.kind.asStr
  let ns := stanza.header.ns.asStr
  let pre := stanza.elementPrefix
  "<".toList ++ (pre.write ++ (name ++ (stanza.namespaces.write pre ns none none ++ (stanza.writeHeader ++
    (writeAttributes stanza.attributes stanza.namespaces pre ++
      if stanza.children.isEmpty then "/>".toList
      else ">".toList ++ (stanza.children.flatMap (fun child =>
          child.writeIn (stanza.namespaces.childDefault pre ns none) (some stanza.namespaces)) ++
        ("</".toList ++ (pre.write ++ (name ++ ">".toList)))))))))

end Stanza

end Lonewolf.Xmpp
