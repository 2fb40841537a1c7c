import Lonewolf.Xmpp.Stanza

/-!
# Parsed elements and stanzas

`parser/names.rs` and `stanza/incoming.rs`: the bindings of prefixes that the parser gives to a frame, and the frame
of a stanza with what is made of it. The reader of XML, with its resolver of namespaces, is a library; the resolver
knows the declarations that were accepted, the innermost first, and refuses to bind `xml` to another name and to bind
`xmlns`.
-/

namespace Lonewolf.Xmpp

open Texts

/-! ### Namespaces in scope -/

/-- `NamespaceResolver`: the declarations in scope, the innermost first. -/
abbrev Resolver := List (Text × Text)

/-- The declarations that `names::push` passes to the resolver and that the resolver takes. -/
def acceptsBinding (pre ns : Text) : Bool :=
  (pre.isEmpty || validLocalName pre) && ns ≠ xmlnsNamespace && (ns ≠ xmlNamespace || pre = "xml".toList) &&
    (!ns.isEmpty || pre.isEmpty) && (pre ≠ "xml".toList || ns = xmlNamespace) && pre ≠ "xmlns".toList

namespace Resolver

variable (resolver : Resolver)

/-- `names::push`: the declarations of a start tag. -/
def push (declarations : List (Text × Text)) : Option Resolver :=
  if declarations.all fun (pre, ns) => acceptsBinding pre ns then some (declarations.reverse ++ resolver) else none

def contentNamespace : Text := (resolver.lookup []).getD []

/-- `names::element`: the namespace of an element with this prefix. -/
def element (pre : Text) : Option Text :=
  if pre.isEmpty then some resolver.contentNamespace
  else if pre = "xml".toList then some xmlNamespace
  else resolver.lookup pre

/-- The named bindings that a context is made of: each prefix once, other than `xml` and `xmlns`, in the order in which
their last declarations came. -/
def named : List (Text × Text) :=
  ((resolver.map (·.1)).reverse.dedup.filter fun pre =>
    !pre.isEmpty && pre ≠ "xml".toList && pre ≠ "xmlns".toList).map fun pre => (pre, (resolver.lookup pre).getD [])

end Resolver

def Arena.bindAll (arena : Arena) (context : NamespaceContext) : List (Text × Text) → NamespaceContext × Arena
  | [] => (context, arena)
  | (pre, ns) :: rest =>
    let (context, arena) := arena.bind context pre ns
    arena.bindAll context rest

/-- The namespaces of a frame: those of the parent frame with the declarations of the start tag, or all that
are in scope. -/
def frameNamespaces (resolver : Resolver) (declarations : List (Text × Text)) (parent : Option NamespaceContext)
    (arena : Arena) : NamespaceContext × Arena :=
  match parent with
  | some parent => arena.bindAll parent declarations
  | none => arena.bindAll .empty (([], resolver.contentNamespace) :: resolver.named)

/-! ### The frame of a stanza -/

structure StanzaFrame where
  kind : StanzaKind
  ns : StanzaNamespace
  rawType : Option Text
  fromText : Option Text
  toText : Option Text
  id : Option Text
  lang : Option Text
  invalidText : Bool
  namespaces : NamespaceContext
  attributes : List Attribute
  children : List Element

inductive StanzaRejection where
  | badRequest
  | jidMalformed
  deriving DecidableEq

structure RejectedStanza where
  kind : StanzaKind
  ns : StanzaNamespace
  reason : StanzaRejection
  canReply : Bool
  invalidFrom : Bool
  invalidTo : Bool
  fromJid : Option Jid
  toJid : Option Jid
  id : Option Text
  lang : Option Text

def incomingStanzaType : StanzaKind → Option Text → Option StanzaType
  | .message, value => some (.message (
      if value = some "chat".toList then .chat
      else if value = some "groupchat".toList then .groupchat
      else if value = some "headline".toList then .headline
      else if value = some "error".toList then .error
      else .normal))
  | .presence, none => some (.presence .available)
  | .presence, some value =>
    [("unavailable", PresenceType.unavailable), ("subscribe", .subscribe), ("subscribed", .subscribed),
      ("unsubscribe", .unsubscribe), ("unsubscribed", .unsubscribed), ("probe", .probe),
      ("error", .error)].findSome? fun (name, type) =>
        if value = name.toList then some (.presence type) else none
  | .iq, value =>
    [("get", IqType.get), ("set", .set), ("result", .result), ("error", .error)].findSome? fun (name, type) =>
      if value = some name.toList then some (.iq type) else none

variable (unicode : Unicode)

def incomingAddress : Option Text → Option Jid × Bool
  | none => (none, false)
  | some raw => match parse unicode raw with
    | .ok jid => (some jid, false)
    | .error _ => (none, true)

namespace StanzaFrame

def new (kind : StanzaKind) (ns : StanzaNamespace) (namespaces : NamespaceContext) : StanzaFrame :=
  ⟨kind, ns, none, none, none, none, none, false, namespaces, [], []⟩

variable (frame : StanzaFrame)

def withAttribute (name ns value : Text) : Except BuildError StanzaFrame := do
  if ns.isEmpty ∧ name = "from".toList then
    validateText value
    return { frame with fromText := some value }
  else if ns.isEmpty ∧ name = "to".toList then
    validateText value
    return { frame with toText := some value }
  else if ns.isEmpty ∧ name = "id".toList then
    validateText value
    return { frame with id := some value }
  else if ns = xmlNamespace ∧ name = "lang".toList then
    validateText value
    return { frame with lang := some value }
  else if ns.isEmpty ∧ name = "type".toList then
    validateText value
    return { frame with rawType := some value }
  else
    return { frame with attributes := ← frameAttribute frame.attributes name ns value }

def text (t : Text) : Except BuildError StanzaFrame := do
  validateText t
  return { frame with invalidText := frame.invalidText || !t.all fun c => [' ', '\t', '\r', '\n'].contains c }

def child (element : Element) : StanzaFrame :=
  { frame with children := frame.children ++ [element] }

def stanza (frame : StanzaFrame) : StanzaBuilder where
  header := {
    stanzaType := (incomingStanzaType frame.kind frame.rawType).getD (match frame.kind with
      | .message => .message .normal
      | .presence => .presence .available
      | .iq => .iq .get)
    originalMessageType := if frame.kind = .message then frame.rawType else none
    ns := frame.ns
    fromJid := (incomingAddress unicode frame.fromText).1
    toJid := (incomingAddress unicode frame.toText).1
    id := frame.id
    lang := frame.lang }
  namespaces := frame.namespaces
  attributes := frame.attributes
  children := frame.children

def finish (frame : StanzaFrame) : Except BuildError (Stanza ⊕ RejectedStanza) := do
  let builder := frame.stanza unicode
  let invalidFrom := (incomingAddress unicode frame.fromText).2
  let invalidTo := (incomingAddress unicode frame.toText).2
  let invalidStructure ← match builder.validate with
    | .ok () => pure (frame.invalidText || (incomingStanzaType frame.kind frame.rawType).isNone)
    | .error .missingIqId | .error .invalidIqPayload | .error .invalidErrorPayload
    | .error .missingServerAddresses => pure true
    | .error error => throw error
  let rejected (reason : StanzaRejection) : RejectedStanza := {
    kind := frame.kind
    ns := frame.ns
    reason := reason
    canReply := frame.rawType ≠ some "error".toList && !(frame.kind = .iq && frame.rawType = some "result".toList)
    invalidFrom := invalidFrom
    invalidTo := invalidTo
    fromJid := builder.header.fromJid
    toJid := builder.header.toJid
    id := frame.id
    lang := frame.lang }
  if invalidStructure then return .inr (rejected .badRequest)
  else if invalidFrom || invalidTo then return .inr (rejected .jidMalformed)
  else return .inl builder

end StanzaFrame

/-- `as_str` of the condition that a rejection is answered with. -/
def StanzaRejection.asStr : StanzaRejection → Text
  | .badRequest => "bad-request".toList
  | .jidMalformed => "jid-malformed".toList

def StanzaRejection.defaultText : StanzaRejection → Text
  | .badRequest => "The request has an invalid structure or value. Check the request format.".toList
  | .jidMalformed => "An address is invalid. Use a valid XMPP address.".toList

def stanzaErrorNamespace : Text := "urn:ietf:params:xml:ns:xmpp-stanzas".toList

/-- `error_element_in` for the condition of a rejection, with its default text and no application condition; both
conditions have the error type `modify`. -/
def errorElementIn (ns : StanzaNamespace) (reason : StanzaRejection) : Except BuildError Element := do
  let defined ← (← ElementBuilder.new reason.asStr stanzaErrorNamespace).build
  let builder ← (← ElementBuilder.new "text".toList stanzaErrorNamespace).withAttribute "lang".toList xmlNamespace
    "en".toList
  let text ← (← builder.text reason.defaultText).build
  let error ← (← ElementBuilder.new "error".toList ns.asStr).withAttribute "type".toList [] "modify".toList
  ((error.child defined).child text).build

def RejectedStanza.errorIn (rejected : RejectedStanza) (authenticated server : Jid) : Except BuildError Stanza := do
  if !rejected.canReply then throw .invalidErrorSource
  let error ← errorElementIn rejected.ns rejected.reason
  let stanzaType := match rejected.kind with
    | .message => StanzaType.message .error
    | .presence => .presence .error
    | .iq => .iq .error
  let id := match rejected.id, rejected.kind with
    | none, .iq => some []
    | id, _ => id
  StanzaBuilder.build ⟨⟨stanzaType, none, rejected.ns,
    if rejected.invalidTo then some server else rejected.toJid, some authenticated, id, rejected.lang⟩,
    .empty, [], [error]⟩

theorem finish_stanza {unicode : Unicode} {frame : StanzaFrame} {stanza : Stanza}
    (h : frame.finish unicode = .ok (.inl stanza)) :
    stanza = frame.stanza unicode ∧ (frame.stanza unicode).validate = .ok () ∧ frame.invalidText = false ∧
      (incomingStanzaType frame.kind frame.rawType).isSome ∧ (incomingAddress unicode frame.fromText).2 = false ∧
      (incomingAddress unicode frame.toText).2 = false := by
  simp only [StanzaFrame.finish, pure_bind] at h
  split at h
  case h_1 hvalid =>
    split at h
    · cases h
    next hstructure =>
      split at h
      · cases h
      next haddresses =>
        cases h
        simp only [Bool.or_eq_true, not_or, Bool.not_eq_true, Option.isNone_eq_false_iff] at hstructure haddresses
        exact ⟨rfl, hvalid, hstructure.1, hstructure.2, haddresses⟩
  all_goals cases h

end Lonewolf.Xmpp
