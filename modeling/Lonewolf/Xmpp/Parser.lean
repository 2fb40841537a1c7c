import Lonewolf.Base.Transaction
import Lonewolf.Base.XmlReader
import Lonewolf.Xmpp.Incoming

/-!
# The parser of an open stream

`parser/mod.rs` and `parser/names.rs`: the loop that turns the events of the reader of XML into the elements and
stanzas of a stream, with its stack of frames, the text that is not stored yet and the number of nodes so far. The
reader is a library: it has split the text into tags and runs of characters, matched the end tags, and unescaped and
normalized the values of attributes. The loop is modelled after the header of the stream, or for a standalone
element.
-/

namespace Lonewolf.Xmpp

open Texts Text XmlReading

inductive ParseError where
  | build (error : BuildError)
  | tooManyAttributes
  | notWellFormed
  | badNamespacePrefix
  | unboundNamespacePrefix
  | restrictedXml
  | unexpectedEvent
  | unexpectedEof
  deriving DecidableEq

/-- What the reader gives. A reference has its name and the character that it stands for, if there is one. -/
inductive XmlEvent where
  | start (tag : Tag)
  | empty (tag : Tag)
  | finish
  | text (text : Text)
  | cdata (text : Text)
  | reference (name : Text) (character : Option Char)
  | restricted
  | declaration

/-- Includes namespace declarations in the per-element count. -/
def maxAttributesPerElement : Nat := 256

/-! ### Names -/

def validateQname (name : Text) : Except ParseError Unit :=
  let valid := match splitOnce ':' name with
    | some (pre, suffix) => validLocalName pre && validLocalName suffix
    | none => validLocalName name
  if valid then .ok () else .error .notWellFormed

/-- `normalized`, of a value that the reader has normalized. -/
def normalized (value : Text) : Except ParseError Text :=
  (validateText value).mapError (fun _ => .notWellFormed) |>.map fun _ => value

namespace Resolver

/-- One round of the loop of `push`. -/
def pushAttribute (resolver : Resolver) (name value : Text) : Except ParseError Resolver := do
  validateQname name
  match declares name with
  | none => return resolver
  | some pre =>
    let ns ← normalized value
    if acceptsBinding pre ns then return (pre, ns) :: resolver else throw .notWellFormed

/-- The loop of `push`; a name that was there before is an `InvalidAttr` of the reader. -/
def pushAttributes : Resolver → List Text → List (Text × Text) → Except ParseError Resolver
  | resolver, _, [] => return resolver
  | resolver, seen, (name, value) :: rest => do
      if seen.length = maxAttributesPerElement then throw .tooManyAttributes
      if name ∈ seen then throw .notWellFormed
      let resolver ← resolver.pushAttribute name value
      resolver.pushAttributes (name :: seen) rest

variable (resolver : Resolver)

def pushStart (tag : Tag) : Except ParseError Resolver := do
  validateQname tag.name
  resolver.pushAttributes [] tag.attributes

/-- The namespace of a prefix that is not empty. -/
def resolvePrefix (pre : Text) : Except ParseError Text :=
  if pre = "xmlns".toList then .ok xmlnsNamespace
  else match resolver.element pre with
    | some ns => .ok ns
    | none => .error .unboundNamespacePrefix

def elementName (tag : Tag) : Except ParseError (Text × Text) :=
  match splitOnce ':' tag.name with
  | none => .ok (tag.name, resolver.contentNamespace)
  | some (pre, suffix) => (resolver.resolvePrefix pre).map fun ns => (suffix, ns)

/-- `resolve_attribute`: an attribute without a prefix is in no namespace. -/
def attributeName (name : Text) : Except ParseError (Text × Text) :=
  match splitOnce ':' name with
  | none => .ok (name, [])
  | some (pre, suffix) => (resolver.resolvePrefix pre).map fun ns => (suffix, ns)

end Resolver

/-! ### Frames -/

inductive Frame where
  | element (frame : ElementBuilder)
  | stanza (frame : StanzaFrame)

inductive Completed where
  | element (element : Element)
  | stanza (stanza : Stanza)
  | rejected (rejected : RejectedStanza)
  | streamEnd

namespace Frame

def namespaces : Frame → NamespaceContext
  | .element frame => frame.data.namespaces
  | .stanza frame => frame.namespaces

def setNamespaces (namespaces : NamespaceContext) : Frame → Frame
  | .element frame => .element (frame.setNamespaces namespaces)
  | .stanza frame => .stanza { frame with namespaces := namespaces }

def withAttribute (frame : Frame) (name ns value : Text) : Except BuildError Frame :=
  match frame with
  | .element frame => (frame.frameAttribute name ns value).map .element
  | .stanza frame => (frame.withAttribute name ns value).map .stanza

def text (frame : Frame) (t : Text) : Except BuildError Frame :=
  match frame with
  | .element frame => (frame.frameText t).map .element
  | .stanza frame => (frame.text t).map .stanza

def child (frame : Frame) (element : Element) : Frame :=
  match frame with
  | .element frame => .element (frame.child element)
  | .stanza frame => .stanza (frame.child element)

def finish (unicode : Unicode) : Frame → Except BuildError Completed
  | .element frame => frame.build.map .element
  | .stanza frame => (frame.finish unicode).map (Sum.elim .stanza .rejected)

end Frame

/-- The kind and the namespace of a top-level element that is a stanza. -/
def stanzaRoot (name ns : Text) : Option (StanzaKind × StanzaNamespace) := do
  let kind ← if name = "message".toList then some .message
    else if name = "presence".toList then some .presence
    else if name = "iq".toList then some .iq
    else none
  let ns ← if ns = clientNamespace then some .client else if ns = serverNamespace then some .server else none
  return (kind, ns)

/-- What an open stream passes on to its top-level elements. -/
structure StreamContext where
  lang : Text
  space : Option Text

/-- An attribute of a start tag. -/
def frameTagAttribute (resolver : Resolver) (frame : Frame) (name value : Text) : Except ParseError Frame := do
  let (name, ns) ← resolver.attributeName name
  let value ← normalized value
  (frame.withAttribute name ns value).mapError fun error =>
    if error = .duplicateAttribute then .notWellFormed else .build error

/-- The start tag has this attribute of the namespace `xml`. -/
def hasXmlAttribute (resolver : Resolver) (tag : Tag) (name : Text) : Bool :=
  (plain tag.attributes).any fun (written, _) =>
    match resolver.attributeName written with
    | .ok found => found = (name, xmlNamespace)
    | .error _ => false

def bareFrame (tag : Tag) (root : Bool) (name ns : Text) : Except ParseError Frame :=
  match if root then stanzaRoot name ns else none with
  | some (kind, ns) =>
    if (splitOnce ':' tag.name).isSome then .error .badNamespacePrefix else .ok (.stanza (.new kind ns .empty))
  | none => ((ElementBuilder.new name ns).mapError .build).map .element

/-- An attribute of the namespace `xml` that a top-level element has from the stream. -/
def inheritAttribute (resolver : Resolver) (tag : Tag) (root : Bool) (name : Text) (value : Option Text)
    (frame : Frame) : Except ParseError Frame :=
  match value with
  | some value =>
    if root && !hasXmlAttribute resolver tag name then
      (frame.withAttribute name xmlNamespace value).mapError .build
    else .ok frame
  | none => .ok frame

def newFrame (stream : StreamContext) (resolver : Resolver) (tag : Tag) (root : Bool)
    (parent : Option NamespaceContext) (arena : Arena) : Except ParseError (Frame × Arena) := do
  let (name, ns) ← resolver.elementName tag
  let frame ← bareFrame tag root name ns
  let (namespaces, arena) := frameNamespaces resolver (declarations tag.attributes) parent arena
  let frame ← (plain tag.attributes).foldlM (fun frame (name, value) =>
    frameTagAttribute resolver frame name value) (frame.setNamespaces namespaces)
  let frame ← inheritAttribute resolver tag root "lang".toList
    (if stream.lang.isEmpty then none else some stream.lang) frame
  let frame ← inheritAttribute resolver tag root "space".toList stream.space frame
  return (frame, arena)

/-! ### The loop -/

/-- The state of `read_next`: the scopes of the open elements and of the stream, and the frames of the elements,
the innermost first. -/
structure Parser where
  resolvers : List Resolver
  frames : List Frame
  text : Text
  nodes : Nat
  arena : Arena

variable (limited : Bool)

/-- `count_node`. The parser counts with its limit; without it the number is only kept. -/
def countNode (nodes : Nat) : Except ParseError Nat :=
  if limited ∧ nodes = maxElementNodes then .error (.build .treeLimitExceeded) else .ok (nodes + 1)

namespace Parser

def resolver (parser : Parser) : Resolver := parser.resolvers.headD []

def flushText (parser : Parser) : Except ParseError Parser :=
  if parser.text.isEmpty then .ok parser
  else do
    let nodes ← countNode limited parser.nodes
    match parser.frames with
    | [] => throw .unexpectedEvent
    | frame :: frames =>
      let frame ← (frame.text parser.text).mapError fun error =>
        if error = .invalidText then .notWellFormed else .build error
      return { parser with frames := frame :: frames, nodes := nodes, text := [] }

variable (unicode : Unicode)

/-- `finish_frame`, of a frame that is no longer on the stack. -/
def finishFrame (parser : Parser) (frame : Frame) :
    Except ParseError (Parser × Option Completed) := do
  let completed ← (frame.finish unicode).mapError .build
  match parser.frames with
  | [] => return (parser, some completed)
  | above :: frames =>
    match completed with
    | .element element => return ({ parser with frames := above.child element :: frames }, none)
    | _ => throw .unexpectedEvent

/-- The check of `frames.len()`. -/
def checkDepth (parser : Parser) : Except ParseError Unit :=
  if limited ∧ parser.frames.length = maxElementDepth then .error (.build .treeLimitExceeded) else .ok ()

/-- The names that a start tag may not have where it stands. -/
def checkName (parser : Parser) (tag : Tag) (name ns : Text) : Except ParseError Unit :=
  match parser.frames with
  | [] => if name = "stream".toList ∧ ns = streamNamespace then .error .unexpectedEvent else .ok ()
  | frame :: _ =>
    match frame with
    | .stanza _ =>
      if (splitOnce ':' tag.name).isSome ∧ ns = clientNamespace then .error .badNamespacePrefix else .ok ()
    | .element _ => .ok ()

variable (stream : StreamContext)

/-- A start tag: the parser with the scope inside it, and the new frame. -/
def openFrame (parser : Parser) (tag : Tag) :
    Except ParseError (Parser × Frame) := do
  let parser ← parser.flushText limited
  parser.checkDepth limited
  let nodes ← countNode limited parser.nodes
  let resolver ← parser.resolver.pushStart tag
  let (name, ns) ← resolver.elementName tag
  parser.checkName tag name ns
  let (frame, arena) ← newFrame stream resolver tag parser.frames.isEmpty (parser.frames.head?.map Frame.namespaces)
    parser.arena
  return ({ parser with resolvers := resolver :: parser.resolvers, nodes := nodes, arena := arena }, frame)

/-- Characters, that are kept for the next tag. -/
def characters (parser : Parser) (t : Text) : Except ParseError (Parser × Option Completed) := do
  if parser.frames.isEmpty then
    (validateText t).mapError fun _ => .notWellFormed
    throw .unexpectedEvent
  return ({ parser with text := parser.text ++ t }, none)

/-- `xml10_content`: the line ends of XML. -/
def lineEnds : Text → Text
  | '\r' :: '\n' :: rest => '\n' :: lineEnds rest
  | '\r' :: rest => '\n' :: lineEnds rest
  | c :: rest => c :: lineEnds rest
  | [] => []

/-- One event in the loop of `read_next`. -/
def step (parser : Parser) : XmlEvent → Except ParseError (Parser × Option Completed)
  | .start tag => do
      let (parser, frame) ← parser.openFrame limited stream tag
      return ({ parser with frames := frame :: parser.frames }, none)
  | .empty tag => do
      let (parser, frame) ← parser.openFrame limited stream tag
      ({ parser with resolvers := parser.resolvers.tail } : Parser).finishFrame unicode frame
  | .finish => do
      let parser ← parser.flushText limited
      let parser := { parser with resolvers := parser.resolvers.tail }
      match parser.frames with
      | frame :: frames => ({ parser with frames := frames } : Parser).finishFrame unicode frame
      | [] => return (parser, some .streamEnd)
  | .text t => if "]]>".toList <:+: t then throw .notWellFormed else parser.characters (lineEnds t)
  | .cdata t => parser.characters (lineEnds t)
  | .reference name none => if validLocalName name then throw .restrictedXml else throw .notWellFormed
  | .reference _ (some c) => parser.characters [c]
  | .restricted => throw .restrictedXml
  | .declaration => throw .notWellFormed

/-- `read_next`: the events up to the end of a top-level element or of the stream. -/
def readNext (limited : Bool) (unicode : Unicode) (stream : StreamContext) :
    Parser → List XmlEvent → Except ParseError (Completed × Parser × List XmlEvent)
  | _, [] => throw .unexpectedEof
  | parser, event :: events => do
      let (parser, completed) ← parser.step limited unicode stream event
      match completed with
      | some completed => return (completed, parser, events)
      | none => parser.readNext limited unicode stream events

/-- `next_event`: nothing but the scope of the stream is left of the event before. -/
def nextEvent (parser : Parser) (events : List XmlEvent) : Except ParseError (Completed × Parser × List XmlEvent) :=
  readNext limited unicode stream { parser with frames := [], text := [], nodes := 0, arena := ⟨[]⟩ } events

end Parser

end Lonewolf.Xmpp
