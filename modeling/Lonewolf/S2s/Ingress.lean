import Lonewolf.S2s.Stream

/-!
# Stanzas of another server

`s2s/ingress/receive.rs` and the loops that call it, in `s2s/inbound/stream.rs` for a stream that only receives
and in `s2s/outbound/duplex.rs` for one that sends too: what is read on a verified stream, which stanzas are
dispatched and how the stream ends.
-/

namespace Lonewolf.S2s

open Texts
open Xmpp

structure InboundPeer where
  localDomain : Text
  remote : Text
  deriving DecidableEq

inductive StreamClose where
  | streamEnd
  | idle
  | certificateExpired
  | certificateRevoked
  | revocationUnknown
  | revocationStale
  | revocationUnavailable
  | shutdown
  | conflict
  | improperAddressing
  | hostUnknown
  | invalidFrom
  | invalidNamespace
  | unsupportedStanzaType
  | notAuthorized
  | peerError
  | stalledWrite
  | transportError
  | internalError
  | protocolError
  deriving DecidableEq

def violationClose : StreamErrorCondition → StreamClose
  | .reset => .certificateExpired
  | .systemShutdown => .shutdown
  | .conflict => .conflict
  | .improperAddressing => .improperAddressing
  | .hostUnknown => .hostUnknown
  | .invalidFrom => .invalidFrom
  | .invalidNamespace => .invalidNamespace
  | .unsupportedStanzaType => .unsupportedStanzaType
  | .internalServerError => .internalError
  | _ => .protocolError

def readerViolationClose : StreamErrorCondition → StreamClose
  | .invalidNamespace => .invalidNamespace
  | .unsupportedStanzaType => .unsupportedStanzaType
  | _ => .protocolError

/-! ### One event -/

def validate (ns : StanzaNamespace) (fromJid toJid : Option JidRef) (peer : InboundPeer) :
    Except StreamErrorCondition Unit :=
  if ns ≠ .server then .error .invalidNamespace
  else match fromJid, toJid with
    | some fromJid, some toJid =>
      if toJid.domainpart ≠ peer.localDomain then .error .hostUnknown
      else if fromJid.domainpart ≠ peer.remote then .error .invalidFrom
      else .ok ()
    | _, _ => .error .improperAddressing

/-- What is done with a valid event. -/
inductive Handling where
  | deliver (stanza : Stanza)
  | reply (stanza : Stanza)
  | ignore

/-- The error of a rejected stanza, copied to the addresses and to the namespace of clients. -/
def replyRejected (rejected : RejectedStanza) (sender target : Jid) : Except StreamErrorCondition Handling :=
  match rejected.errorIn sender.resolve.cloneIn target.resolve.cloneIn with
  | .error _ => .error .internalServerError
  | .ok reply =>
    match reply.rescopeIn .client ⟨[]⟩ with
    | .error _ => .error .internalServerError
    | .ok (reply, _) => .ok (.reply reply)

def process (peer : InboundPeer) : StreamEvent → Except StreamErrorCondition Handling
  | .stanza stanza => do
      validate stanza.header.ns (stanza.header.fromJid.map Jid.resolve) (stanza.header.toJid.map Jid.resolve) peer
      match stanza.rescopeIn .client ⟨[]⟩ with
      | .error _ => throw .internalServerError
      | .ok (stanza, _) => return .deliver stanza
  | .rejectedStanza rejected => do
      if rejected.ns ≠ .server then throw .invalidNamespace
      if rejected.invalidFrom || rejected.invalidTo then throw .improperAddressing
      validate rejected.ns (rejected.fromJid.map Jid.resolve) (rejected.toJid.map Jid.resolve) peer
      if rejected.canReply then
        match rejected.fromJid, rejected.toJid with
        | some sender, some target => replyRejected rejected sender target
        | _, _ => throw .improperAddressing
      else return .ignore
  | .element parsed =>
    if ["message".toList, "iq".toList, "presence".toList].contains parsed.element.data.name ∧
        parsed.element.data.ns ≠ serverNamespace then .error .invalidNamespace
    else .error .unsupportedStanzaType
  | _ => .error .unsupportedStanzaType

/-! ### The loops -/

inductive WireClose where
  | footer (peerClosed : Bool)
  | error (condition : StreamErrorCondition)
  | abort
  deriving DecidableEq

structure Closed where
  outcome : StreamClose
  wire : WireClose
  deriving DecidableEq

namespace Closed

def ofError (condition : StreamErrorCondition) : Closed := ⟨violationClose condition, .error condition⟩

/-- `interrupted`, with the reason that the validity of the link gives. -/
def interrupted (condition : StreamErrorCondition) (reason : Option StreamClose) : Closed :=
  if condition = .reset then ⟨reason.getD .certificateExpired, .error .reset⟩ else ofError condition

def footer (outcome : StreamClose) (peerClosed : Bool) : Closed := ⟨outcome, .footer peerClosed⟩

def readerError : S2sError → Closed
  | .stream condition => ⟨readerViolationClose condition, .error condition⟩
  | .internal => ofError .internalServerError
  | .peerError _ => ⟨.peerError, .abort⟩
  | .eof | .io | .timeout => ⟨.transportError, .abort⟩

end Closed

/-- What happens next on a stream that receives. -/
inductive Turn where
  /-- Something is read; a dispatch of it may end with a condition. -/
  | read (read : Read) (refused : Option StreamErrorCondition)
  /-- The deadline passes, with traffic in the meantime or not. -/
  | idle (active : Bool)
  /-- A shutdown, or the end of the link's validity. -/
  | interrupted (condition : StreamErrorCondition)

section Loops

variable (peer : InboundPeer)

/-- `receive_with_clock`: the stanzas that are dispatched, and the end when there is one. -/
def receive (reason : Option StreamClose) : List Turn → List Stanza × Option Closed
  | [] => ([], none)
  | .interrupted condition :: _ => ([], some (.interrupted condition reason))
  | .idle active :: turns => if active then receive reason turns else ([], some (.footer .idle false))
  | .read read refused :: turns =>
    match nextEvent read with
    | .error error => ([], some (.readerError error))
    | .ok none => ([], some (.readerError .eof))
    | .ok (some .streamEnd) => ([], some (.footer .streamEnd true))
    | .ok (some event) =>
      match process peer event with
      | .error condition => ([], some (.interrupted condition reason))
      | .ok (.deliver stanza) =>
        match refused with
        | some condition => ([stanza], some (.interrupted condition reason))
        | none => (stanza :: (receive reason turns).1, (receive reason turns).2)
      | .ok _ => receive reason turns

structure DuplexEnd where
  reason : StreamClose
  violation : Option StreamErrorCondition
  peerClosed : Bool
  abort : Bool
  deriving DecidableEq

/-- The end of `receiving` for an error of the reader. -/
def DuplexEnd.ofError : S2sError → DuplexEnd
  | .eof | .io | .timeout => ⟨.transportError, none, false, true⟩
  | .peerError _ => ⟨.peerError, none, false, true⟩
  | .stream condition => ⟨readerViolationClose condition, some condition, false, false⟩
  | .internal => ⟨.internalError, some .internalServerError, false, false⟩

def receiving : List (Read × Bool) → List Stanza × Option DuplexEnd
  | [] => ([], none)
  | (read, fails) :: turns =>
    match nextEvent read with
    | .error error => ([], some (.ofError error))
    | .ok none => ([], some (.ofError .eof))
    | .ok (some .streamEnd) => ([], some ⟨.streamEnd, none, true, false⟩)
    | .ok (some event) =>
      match process peer event with
      | .error condition => ([], some ⟨violationClose condition, some condition, false, false⟩)
      | .ok (.deliver stanza) =>
        if fails then ([stanza], some ⟨.internalError, some .internalServerError, false, false⟩)
        else (stanza :: (receiving turns).1, (receiving turns).2)
      | .ok _ => receiving turns

end Loops

end Lonewolf.S2s
