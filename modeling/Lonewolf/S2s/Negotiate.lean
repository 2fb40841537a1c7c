import Lonewolf.S2s.CrlCache
import Lonewolf.S2s.Stream

/-!
# Inbound negotiation

`s2s/inbound/negotiate.rs`: the connection of another server from its first header to a verified peer. TLS and the
checks of a certificate's chain, name and revocation are parameters. A connection is the events of its plain text,
what became of the TLS handshake, and the events inside TLS. A write may fail at any time, on the socket, for want of
a random stream id or at the limit that the peer announced. The deadline and a shutdown end the flow at a read or at
a write.
-/

namespace Lonewolf.S2s

open Texts Transactions
open Xmpp

/-! ### Settings -/

inductive RevocationSource where
  | file
  | fetched
  deriving DecidableEq

inductive RevocationStatus where
  | good
  | revoked
  | unknown (reason : Crl.UnknownReason)
  deriving DecidableEq

structure RevocationVerdict where
  source : RevocationSource
  status : RevocationStatus
  deriving DecidableEq

inductive AuthOutcome where
  | hostUnknown
  | missingFrom
  | invalidFrom
  | noCertificate
  | certificateName
  | certificateRevoked
  | revocationUnknown
  | revocationStale
  | revocationUnavailable
  | tlsFailure
  | invalidAuthzid
  | invalidMechanism
  | timeout
  | protocol
  deriving DecidableEq

namespace RevocationVerdict

def accepts (verdict : RevocationVerdict) : Bool :=
  match verdict.source with
  | .file => verdict.status = .good
  | .fetched => verdict.status ≠ .revoked

def authOutcome (verdict : RevocationVerdict) : Option AuthOutcome :=
  if verdict.accepts then none
  else match verdict.status with
    | .revoked => some .certificateRevoked
    | .unknown .notAuthoritative => some .revocationUnknown
    | .unknown .stale => some .revocationStale
    | .unknown _ => some .revocationUnavailable
    | .good => none

theorem authOutcome_eq_none {verdict : RevocationVerdict} : verdict.authOutcome = none ↔ verdict.accepts = true := by
  obtain ⟨source, status⟩ := verdict
  cases source <;> cases status with
  | good => decide
  | revoked => decide
  | unknown reason => cases reason <;> decide

end RevocationVerdict

/-- The settings of a listener and what it asks of other components. -/
structure Settings (Certificate : Type) where
  libraries : Libraries
  defaultHost : Text
  federationEnabled : Bool
  hostFederates : Text → Bool
  isService : Text → Bool
  hasCertificateHost : Text → Bool
  isLocalHost : Text → Bool
  hasServerConfig : Text → Bool
  /-- The end of the chain's validity. -/
  verifyChain : List Certificate → Option Nat
  verifyIdentity : Certificate → Text → Bool
  checkRevocation : List Certificate → Option RevocationVerdict
  offerBidi : Bool

def Settings.federatesDomain {Certificate : Type} (settings : Settings Certificate) (domain : Text) : Bool :=
  settings.federationEnabled &&
    (settings.hostFederates domain || (settings.isService domain && settings.hasCertificateHost domain))

/-! ### The connection -/

inductive Connection where
  | plain
  | tls
  | gone
  deriving DecidableEq

inductive FeaturePhase where
  | startTls
  | sasl (bidi : Bool)
  | authenticated
  deriving DecidableEq

/-- What the server writes. -/
inductive Sent where
  | header (fromDomain : Text) (toDomain : Option Text)
  | features (phase : FeaturePhase)
  | tlsFailure
  | proceed
  | emptyChallenge
  | saslFailure (failure : SaslFailure)
  | saslSuccess
  | streamError (condition : StreamErrorCondition)
  | footer
  deriving DecidableEq

structure Session (Certificate : Type) where
  plain : List Read
  /-- The certificates of the peer, or nothing for a handshake that fails. -/
  handshake : Option (List Certificate)
  tls : List Read
  /-- What becomes of the next writes; all later ones succeed. -/
  writes : List (Option S2sError)
  connection : Connection
  headerSent : Bool
  peerFooter : Bool
  footerSent : Bool
  responseFrom : Text
  sent : List Sent

structure Failure where
  error : S2sError
  outcome : AuthOutcome
  deriving DecidableEq

/-- `From<S2sError>`. -/
def Failure.ofError (error : S2sError) : Failure := ⟨error, .protocol⟩

def reject (condition : StreamErrorCondition) (outcome : AuthOutcome) : Failure := ⟨.stream condition, outcome⟩

variable {Certificate : Type}

abbrev Negotiation (Certificate α : Type) := Tx (Session Certificate) Failure α

namespace Session

/-- The next thing that is read, and what is left. -/
def take (s : Session Certificate) : Read × Session Certificate :=
  match s.connection with
  | .plain => (s.plain.headD .ended, { s with plain := s.plain.tail })
  | .tls => (s.tls.headD .ended, { s with tls := s.tls.tail })
  | .gone => (.failed .internal, s)

/-- A write and what becomes of it. -/
def put (s : Session Certificate) (sent : Sent) : Except Failure Unit × Session Certificate :=
  match s.writes with
  | some error :: writes => (.error (.ofError error), { s with writes := writes })
  | writes => (.ok (), { s with writes := writes.tail, sent := s.sent ++ [sent] })

end Session

def send (sent : Sent) : Negotiation Certificate Unit := fun s => s.put sent

def expected : Negotiation Certificate StreamEvent := fun s =>
  match nextEvent s.take.1 with
  | .error error => (.error (.ofError error), s.take.2)
  | .ok none => (.error (.ofError .eof), s.take.2)
  | .ok (some .streamEnd) => (.error (.ofError .eof), { s.take.2 with peerFooter := true })
  | .ok (some event) => (.ok event, s.take.2)

def setHeaderSent (value : Bool) : Negotiation Certificate Unit :=
  Tx.write fun s => ((), { s with headerSent := value })

/-- A condition that the flow fails without. -/
def ensure (condition : Bool) (failure : Failure) : Negotiation Certificate Unit :=
  Tx.read fun _ => if condition then .ok () else .error failure

/-- A value that the flow fails without. -/
def require {α : Type} (value : Option α) (failure : Failure) : Negotiation Certificate α :=
  Tx.read fun _ => value.elim (.error failure) .ok

/-! ### The phases -/

def header (libraries : Libraries) : StreamEvent → Except Failure InitialHeader
  | .streamStart element contentNamespace =>
    (validateInitialHeader libraries element contentNamespace).mapError fun condition =>
      reject condition (match condition with
        | .hostUnknown => .hostUnknown
        | .invalidFrom => .invalidFrom
        | _ => .protocol)
  | _ => .error (reject .notAuthorized .protocol)

def expectedHeader (libraries : Libraries) : Negotiation Certificate InitialHeader := do
  let event ← expected
  Tx.read fun _ => header libraries event

section Phases

variable (settings : Settings Certificate)

/-- The first header, up to the offer of STARTTLS. -/
def openPlain : Negotiation Certificate InitialHeader := do
  let initial ← expectedHeader settings.libraries
  if !settings.federatesDomain initial.toDomain then
    send (.header settings.defaultHost initial.fromDomain)
    setHeaderSent true
    throw (reject .hostUnknown .hostUnknown)
  Tx.write fun s => ((), { s with responseFrom := initial.toDomain })
  send (.header initial.toDomain initial.fromDomain)
  setHeaderSent true
  send (.features .startTls)
  return initial

def requestTls : Negotiation Certificate Unit := do
  match ← expected with
  | .element parsed =>
    if isEmptyElement parsed "starttls".toList tlsNamespace then pure ()
    else if parsed.element.data.ns = tlsNamespace then
      send .tlsFailure
      throw (.ofError .eof)
    else throw (reject .notAuthorized .protocol)
  | _ => throw (reject .notAuthorized .protocol)

/-- The handshake: the chain of the peer and the end of its validity. The plain connection is taken before
`proceed` is sent, and is closed with its input. -/
def handshake : Negotiation Certificate (Option (List Certificate × Option Nat)) := do
  Tx.write fun s => ((), { s with connection := .gone })
  send .proceed
  let chain ← Tx.read fun s => s.handshake.elim (.error ⟨.io, .tlsFailure⟩) .ok
  Tx.write fun s => ((), { s with connection := .tls, headerSent := false })
  return if chain.isEmpty then none else some (chain, settings.verifyChain chain)

def startTls (initial : InitialHeader) : Negotiation Certificate (Option (List Certificate × Option Nat)) := do
  requestTls
  if !settings.hasServerConfig initial.toDomain then
    send .tlsFailure
    throw (.ofError .eof)
  handshake settings

def verifyPeer (leaf : Certificate) (validity : Option Nat) (remote : Text) : Except Failure Nat :=
  match validity with
  | none => .error (reject .notAuthorized .protocol)
  | some validUntil =>
    if !settings.verifyIdentity leaf remote then .error (reject .notAuthorized .certificateName)
    else .ok validUntil

/-- What is known of the peer after its header inside TLS. -/
structure Identified (Certificate : Type) where
  remote : Text
  validUntil : Nat
  chain : List Certificate
  revocation : Option RevocationVerdict

/-- The header inside TLS and the certificate, up to the offer of SASL. -/
def identify (initial : InitialHeader) (certificate : Option (List Certificate × Option Nat)) :
    Negotiation Certificate (Identified Certificate) := do
  let restarted ← expectedHeader settings.libraries
  ensure (restarted.toDomain = initial.toDomain) (reject .hostUnknown .hostUnknown)
  let remote ← require restarted.fromDomain (reject .notAuthorized .missingFrom)
  ensure (!settings.isLocalHost remote) (reject .invalidFrom .invalidFrom)
  let (chain, validity) ← require certificate (reject .notAuthorized .noCertificate)
  let leaf ← require chain.head? (reject .notAuthorized .noCertificate)
  let validUntil ← Tx.read fun _ => verifyPeer settings leaf validity remote
  let revocation := settings.checkRevocation chain
  Tx.read fun _ => match revocation.bind RevocationVerdict.authOutcome with
    | some outcome => .error (reject .notAuthorized outcome)
    | none => .ok ()
  send (.header initial.toDomain (some remote))
  setHeaderSent true
  send (.features (.sasl settings.offerBidi))
  return ⟨remote, validUntil, chain, revocation⟩

def challengeResponse (parsed : ParsedElement) : Except Failure (Except SaslFailure Auth) :=
  if isEmptyElement parsed "abort".toList saslNamespace then .ok (.error .aborted)
  else if !named parsed.element "response".toList saslNamespace then .error (reject .notAuthorized .protocol)
  else
    let text := (text? parsed.element).getD []
    .ok (if text = "=".toList ∨ text = [] then .ok (.response [])
      else (settings.libraries.decodeBase64 text).elim (.error .malformedRequest) fun bytes => .ok (.response bytes))

def authorize (bytes : Bytes) (remote : Text) : Except SaslFailure Unit :=
  if bytes = [] then .ok ()
  else match settings.libraries.fromUtf8 bytes with
    | none => .error .malformedRequest
    | some value =>
      match parse settings.libraries.unicode value with
      | .error _ => .error .invalidAuthzid
      | .ok jid =>
        if jid.resolve.localpart.isNone && jid.resolve.resourcepart.isNone && jid.resolve.domainpart = remote then
          .ok ()
        else .error .invalidAuthzid

/-- A request for both directions, and the event after it. -/
def requestBidi (parsed : ParsedElement) (requested : Bool) : Negotiation Certificate StreamEvent := do
  ensure (settings.offerBidi && !requested) (reject .notAuthorized .protocol)
  Tx.read fun _ => (parseBidi parsed).mapError Failure.ofError
  expected

/-- The first event of an attempt that is not a request for both directions. -/
def expectedRequest (requested : Bool) : Negotiation Certificate (StreamEvent × Bool) := do
  match ← expected with
  | .element parsed =>
    if named parsed.element "bidi".toList bidiNamespace then
      return (← requestBidi settings parsed requested, true)
    else return (.element parsed, requested)
  | event => return (event, requested)

/-- The element that starts an attempt. -/
def expectedAuth (requested : Bool) : Negotiation Certificate (ParsedElement × Bool) := do
  match ← expectedRequest settings requested with
  | (.element parsed, requested) =>
    ensure (named parsed.element "auth".toList saslNamespace) (reject .notAuthorized .protocol)
    return (parsed, requested)
  | _ => throw (reject .notAuthorized .protocol)

/-- The response of an attempt, which is asked for when it was not sent at once. -/
def respond (auth : ParsedElement) : Negotiation Certificate (Except SaslFailure Auth) := do
  match parseAuth settings.libraries auth.element with
  | .ok .noInitialResponse =>
    send .emptyChallenge
    match ← expected with
    | .element parsed => Tx.read fun _ => challengeResponse settings parsed
    | _ => throw (reject .notAuthorized .protocol)
  | response => return response

/-- What a response authorizes. -/
def authorizeResponse (response : Except SaslFailure Auth) (remote : Text) : Except SaslFailure Unit :=
  match response with
  | .ok (.response bytes) => authorize settings bytes remote
  | .ok .noInitialResponse => .error .malformedRequest
  | .error failure => .error failure

/-- What ends the negotiation after the last attempt. -/
def giveUp (failure : SaslFailure) : Negotiation Certificate Bool := do
  send .footer
  Tx.write fun s => ((), { s with footerSent := true })
  throw ⟨.eof, match failure with
    | .invalidAuthzid => .invalidAuthzid
    | .invalidMechanism => .invalidMechanism
    | _ => .protocol⟩

/-- The loop over the attempts, of which so many are left. -/
def authenticate (remote : Text) : Nat → Bool → Negotiation Certificate Bool
  | 0, _ => throw (.ofError .internal)
  | attempts + 1, requested => do
      let (auth, requested) ← expectedAuth settings requested
      let response ← respond settings auth
      match authorizeResponse settings response remote with
      | .ok () => return requested
      | .error failure =>
        send (.saslFailure failure)
        if attempts = 0 then giveUp failure else authenticate remote attempts requested

def finalize (initial : InitialHeader) (remote : Text) : Negotiation Certificate Unit := do
  send .saslSuccess
  setHeaderSent false
  let finalHeader ← expectedHeader settings.libraries
  ensure (finalHeader.fromDomain = some remote) (reject .invalidFrom .invalidFrom)
  ensure (finalHeader.toDomain = initial.toDomain) (reject .hostUnknown .invalidFrom)
  send (.header initial.toDomain (some remote))
  setHeaderSent true
  send (.features .authenticated)

structure VerifiedPeer (Certificate : Type) where
  bidiOffered : Bool
  bidi : Bool
  localDomain : Text
  remote : Text
  validUntil : Nat
  chain : List Certificate
  revocation : Option RevocationVerdict
  deriving DecidableEq

def run : Negotiation Certificate (VerifiedPeer Certificate) := do
  let initial ← openPlain settings
  let certificate ← startTls settings initial
  let identified ← identify settings initial certificate
  let requested ← authenticate settings identified.remote 2 false
  finalize settings initial identified.remote
  return ⟨settings.offerBidi, requested, initial.toDomain, identified.remote, identified.validUntil,
    identified.chain, identified.revocation⟩

/-- What is sent when the flow fails, unless the connection is gone. -/
def closing (failure : Failure) : Negotiation Certificate Unit := do
  let s ← Tx.read fun s => .ok s
  if s.connection ≠ .gone then
    if !s.headerSent then send (.header s.responseFrom none)
    if !s.footerSent then
      match failure.error with
      | .stream condition => send (.streamError condition)
      | _ => send .footer

/-- `negotiate`: a peer takes the connection with it. -/
def negotiate (s : Session Certificate) : Except S2sError (VerifiedPeer Certificate) × Session Certificate :=
  match (run settings).run s with
  | (.ok peer, t) => if t.connection = .tls then (.ok peer, { t with connection := .gone }) else (.error .internal, t)
  | (.error failure, t) => (.error failure.error, ((closing failure).run t).2)

end Phases

end Lonewolf.S2s
