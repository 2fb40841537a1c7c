import Lonewolf.Base.Transaction
import Lonewolf.Xmpp.Incoming

/-!
# Streams between servers

`s2s/stream/mod.rs` with what it uses of `stream/limits.rs`: the headers that open a stream, the elements of
STARTTLS and of SASL, and the events of a reader. Decoding base64 and UTF-8 and checking a language tag are
libraries, and are parameters here.
-/

namespace Lonewolf.S2s

open Texts Text
open Xmpp

abbrev Bytes := List UInt8

/-- The functions of libraries. -/
structure Libraries where
  unicode : Unicode
  decodeBase64 : Text → Option Bytes
  fromUtf8 : Bytes → Option Text
  validLanguage : Text → Bool

inductive StreamErrorCondition where
  | badFormat
  | badNamespacePrefix
  | conflict
  | connectionTimeout
  | hostGone
  | hostUnknown
  | improperAddressing
  | internalServerError
  | invalidFrom
  | invalidNamespace
  | invalidXml
  | notAuthorized
  | notWellFormed
  | policyViolation
  | remoteConnectionFailed
  | reset
  | resourceConstraint
  | restrictedXml
  | seeOtherHost
  | systemShutdown
  | undefinedCondition
  | unsupportedEncoding
  | unsupportedFeature
  | unsupportedStanzaType
  | unsupportedVersion
  deriving DecidableEq

def StreamErrorCondition.fromName (name : Text) : Option StreamErrorCondition :=
  [("bad-format", badFormat), ("bad-namespace-prefix", badNamespacePrefix), ("conflict", conflict),
    ("connection-timeout", connectionTimeout), ("host-gone", hostGone), ("host-unknown", hostUnknown),
    ("improper-addressing", improperAddressing), ("internal-server-error", internalServerError),
    ("invalid-from", invalidFrom), ("invalid-namespace", invalidNamespace), ("invalid-xml", invalidXml),
    ("not-authorized", notAuthorized), ("not-well-formed", notWellFormed), ("policy-violation", policyViolation),
    ("remote-connection-failed", remoteConnectionFailed), ("reset", reset),
    ("resource-constraint", resourceConstraint), ("restricted-xml", restrictedXml), ("see-other-host", seeOtherHost),
    ("system-shutdown", systemShutdown), ("undefined-condition", undefinedCondition),
    ("unsupported-encoding", unsupportedEncoding), ("unsupported-feature", unsupportedFeature),
    ("unsupported-stanza-type", unsupportedStanzaType), ("unsupported-version", unsupportedVersion)].findSome?
      fun (known, condition) => if name = known.toList then some condition else none

inductive S2sError where
  | eof
  | io
  | timeout
  | peerError (condition : StreamErrorCondition)
  | stream (condition : StreamErrorCondition)
  | internal
  deriving DecidableEq

inductive SaslFailure where
  | aborted
  | invalidAuthzid
  | invalidMechanism
  | malformedRequest
  | notAuthorized
  deriving DecidableEq

inductive Auth where
  | noInitialResponse
  | response (bytes : Bytes)
  deriving DecidableEq

def tlsNamespace : Text := "urn:ietf:params:xml:ns:xmpp-tls".toList

def saslNamespace : Text := "urn:ietf:params:xml:ns:xmpp-sasl".toList

def bidiNamespace : Text := "urn:xmpp:bidi".toList

def limitsNamespace : Text := "urn:xmpp:stream-limits:0".toList

def streamErrorNamespace : Text := "urn:ietf:params:xml:ns:xmpp-streams".toList

/-! ### Events -/

/-- `Parsed<Element>`: an element, and whether it had attributes of its own. -/
structure ParsedElement where
  element : Element
  explicitAttributes : Bool
  deriving DecidableEq

inductive StreamEvent where
  | streamStart (header : Element) (contentNamespace : Text)
  | stanza (stanza : Stanza)
  | rejectedStanza (rejected : RejectedStanza)
  | element (parsed : ParsedElement)
  | streamEnd

def attribute? (element : Element) (name ns : Text) : Option Text :=
  (element.data.attributes.find? (Attribute.matches name ns)).map (·.value)

def text? (element : Element) : Option Text :=
  match element.children with
  | .text t .nil => some t
  | _ => none

def named (element : Element) (name ns : Text) : Bool := element.data.name = name && element.data.ns = ns

/-- The loop of `peer_stream_error` over the children, with the condition that was found. -/
def peerCondition (found : Option StreamErrorCondition) : Nodes → StreamErrorCondition
  | .nil => found.getD .undefinedCondition
  | .text _ rest => peerCondition found rest
  | .element data _ rest =>
    if data.ns = streamErrorNamespace ∧ data.name ≠ "text".toList then
      match found with
      | some _ => .undefinedCondition
      | none => peerCondition (some ((StreamErrorCondition.fromName data.name).getD .undefinedCondition)) rest
    else peerCondition found rest

def peerStreamError : StreamEvent → Option StreamErrorCondition
  | .element parsed =>
    if named parsed.element "error".toList streamNamespace then some (peerCondition none parsed.element.children)
    else none
  | _ => none

/-- What the parser gives to the reader: an event, the end, or an error. -/
inductive Read where
  | event (event : StreamEvent)
  | ended
  | failed (error : S2sError)

/-- `next_event` for what the parser gives. -/
def nextEvent : Read → Except S2sError (Option StreamEvent)
  | .event event =>
    match peerStreamError event with
    | some condition => .error (.peerError condition)
    | none => .ok (some event)
  | .ended => .ok none
  | .failed error => .error error

/-! ### Headers -/

structure InitialHeader where
  toDomain : Text
  fromDomain : Option Text
  deriving DecidableEq

/-- `trim_start_matches('0')`. -/
def trimZeros (t : Text) : Text := t.dropWhile (· = '0')

/-- The version of `validate_header`. -/
def supportedVersion (version : Text) : Bool :=
  match splitOnce '.' version with
  | none => false
  | some (major, minor) =>
    !major.isEmpty && !minor.isEmpty && major.all Char.isDigit && minor.all Char.isDigit &&
      trimZeros major = "1".toList

section Headers

variable (libraries : Libraries)

def validateHeader (header : Element) (contentNamespace : Text) : Except StreamErrorCondition Unit := do
  if contentNamespace ≠ [] ∧ contentNamespace ≠ serverNamespace then throw .invalidNamespace
  match attribute? header "version".toList [] with
  | none => throw .unsupportedVersion
  | some version => if !supportedVersion version then throw .unsupportedVersion
  if (attribute? header "lang".toList xmlNamespace).any fun lang => !libraries.validLanguage lang then
    throw .invalidXml

/-- `domain`: the domain of an address that is nothing else. -/
def domain (value : Text) (invalid : StreamErrorCondition) : Except StreamErrorCondition Text :=
  match parse libraries.unicode value with
  | .error _ => .error invalid
  | .ok jid =>
    if jid.resolve.localpart.isSome || jid.resolve.resourcepart.isSome then .error invalid
    else .ok jid.resolve.domainpart

def validateInitialHeader (header : Element) (contentNamespace : Text) :
    Except StreamErrorCondition InitialHeader := do
  validateHeader libraries header contentNamespace
  let target ← (attribute? header "to".toList []).elim (.error .hostUnknown) .ok
  let toDomain ← domain libraries target .hostUnknown
  match attribute? header "from".toList [] with
  | none => return ⟨toDomain, none⟩
  | some value => return ⟨toDomain, some (← domain libraries value .invalidFrom)⟩

/-! ### Elements of the negotiation -/

def parseAuth (element : Element) : Except SaslFailure Auth :=
  if attribute? element "mechanism".toList [] ≠ some "EXTERNAL".toList then .error .invalidMechanism
  else match text? element with
    | none => .ok .noInitialResponse
    | some text =>
      if text = [] then .ok .noInitialResponse
      else if text = "=".toList then .ok (.response [])
      else match libraries.decodeBase64 text with
        | none => .error .malformedRequest
        | some decoded =>
          if (libraries.fromUtf8 decoded).isNone then .error .malformedRequest else .ok (.response decoded)

end Headers

/-- `whitespace` of `limits.rs`. -/
def whitespace (t : Text) : Bool := t.all fun c => [' ', '\t', '\n', '\r'].contains c

/-- The children that `parse_bidi` accepts. -/
def bidiChildren : Nodes → Bool
  | .nil => true
  | .text t rest => whitespace t && bidiChildren rest
  | .element data _ rest => data.name = "limits".toList && data.ns = limitsNamespace && bidiChildren rest

/-- `parse_bidi`, without the limits that it reads. -/
def parseBidi (parsed : ParsedElement) : Except S2sError Unit :=
  if !named parsed.element "bidi".toList bidiNamespace || parsed.explicitAttributes ||
      !bidiChildren parsed.element.children then .error (.stream .notAuthorized)
  else .ok ()

def isEmptyElement (parsed : ParsedElement) (name ns : Text) : Bool :=
  named parsed.element name ns && !parsed.explicitAttributes && parsed.element.children.isEmpty &&
    (text? parsed.element).isNone

end Lonewolf.S2s
