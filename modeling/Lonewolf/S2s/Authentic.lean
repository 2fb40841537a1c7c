import Lonewolf.Xmpp.Canonical
import Lonewolf.Xmpp.Produced
import Lonewolf.S2s.Ingress
import Lonewolf.S2s.Negotiate

/-!
# Authentic senders

A peer is verified only by a transcript that has everything in it: three headers with the same domains, TLS with
a certificate that is verified for the remote domain, and at most two attempts of SASL. What is then dispatched
from the stream has addresses of these domains.
-/

namespace Lonewolf.S2s

open Texts Transactions
open Xmpp

variable {Certificate : Type} {settings : Settings Certificate} {s t u : Session Certificate}

/-! ### What is read -/

/-- Some events were taken from the open connection, and nothing else was read. -/
structure Took (s : Session Certificate) (events : List StreamEvent) (t : Session Certificate) : Prop where
  connection : t.connection = s.connection
  handshake : t.handshake = s.handshake
  plain : s.connection = .plain → s.plain = events.map .event ++ t.plain ∧ t.tls = s.tls
  tls : s.connection = .tls → s.tls = events.map .event ++ t.tls ∧ t.plain = s.plain

theorem Took.trans {first second : List StreamEvent} (h : Took s first t) (h' : Took t second u) :
    Took s (first ++ second) u := by
  refine ⟨h'.connection.trans h.connection, h'.handshake.trans h.handshake, fun hplain => ?_, fun htls => ?_⟩
  · obtain ⟨hfirst, hsame⟩ := h.plain hplain
    obtain ⟨hsecond, hsame'⟩ := h'.plain (h.connection.trans hplain)
    exact ⟨by rw [hfirst, hsecond, List.map_append, List.append_assoc], hsame'.trans hsame⟩
  · obtain ⟨hfirst, hsame⟩ := h.tls htls
    obtain ⟨hsecond, hsame'⟩ := h'.tls (h.connection.trans htls)
    exact ⟨by rw [hfirst, hsecond, List.map_append, List.append_assoc], hsame'.trans hsame⟩

theorem Took.skip {events : List StreamEvent} (h : Took s [] t) (h' : Took t events u) : Took s events u := h.trans h'

theorem Took.skip_right {events : List StreamEvent} (h : Took s events t) (h' : Took t [] u) : Took s events u := by
  simpa using h.trans h'

theorem took_send {sent : Sent} (h : (send sent).run s = (.ok (), t)) : Took s [] t := by
  have hput : s.put sent = (.ok (), t) := h
  unfold Session.put at hput
  split at hput
  · cases hput
  · cases hput
    exact ⟨rfl, rfl, fun _ => ⟨rfl, rfl⟩, fun _ => ⟨rfl, rfl⟩⟩

theorem took_setHeaderSent {value : Bool} (h : (setHeaderSent value).run s = (.ok (), t)) : Took s [] t := by
  rw [setHeaderSent, Tx.run_write_eq] at h
  cases h
  exact ⟨rfl, rfl, fun _ => ⟨rfl, rfl⟩, fun _ => ⟨rfl, rfl⟩⟩

variable {event : StreamEvent}

theorem nextEvent_eq_some {read : Read} (h : nextEvent read = .ok (some event)) : read = .event event := by
  unfold nextEvent at h
  split at h
  · split at h
    · cases h
    · cases h
      rfl
  · cases h
  · cases h

theorem eq_cons_of_headD {reads : List Read} (h : reads.headD .ended = .event event) :
    reads = [event].map .event ++ reads.tail := by
  cases reads with
  | nil => cases h
  | cons read rest =>
    cases h
    rfl

theorem took_expected (h : expected.run s = (.ok event, t)) : Took s [event] t := by
  have hexpected : expected s = (.ok event, t) := h
  unfold expected at hexpected
  split at hexpected
  · cases hexpected
  · cases hexpected
  · cases hexpected
  next hnext =>
    cases hexpected
    have hread := nextEvent_eq_some hnext
    unfold Session.take at hread ⊢
    refine ⟨?_, ?_, fun hplain => ?_, fun htls => ?_⟩
    · split <;> rfl
    · split <;> rfl
    · rw [hplain] at hread ⊢
      exact ⟨eq_cons_of_headD hread, rfl⟩
    · rw [htls] at hread ⊢
      exact ⟨eq_cons_of_headD hread, rfl⟩

variable {initial : InitialHeader}

theorem took_expectedHeader {libraries : Libraries} (h : (expectedHeader libraries).run s = (.ok initial, t)) :
    ∃ element ns, Took s [.streamStart element ns] t ∧ validateInitialHeader libraries element ns = .ok initial := by
  simp only [expectedHeader, Tx.run_bind_eq, Tx.run_read_eq] at h
  obtain ⟨event, t, hexpected, hheader, rfl⟩ := h
  unfold header at hheader
  split at hheader
  next element ns =>
    refine ⟨element, ns, took_expected hexpected, ?_⟩
    cases hvalid : validateInitialHeader libraries element ns with
    | error condition => simp [hvalid, Except.mapError] at hheader
    | ok header => simpa [hvalid, Except.mapError] using hheader
  next => cases hheader

/-! ### The phases -/

theorem openPlain_spec (h : (openPlain settings).run s = (.ok initial, t)) :
    settings.federatesDomain initial.toDomain = true ∧
      ∃ element ns, Took s [.streamStart element ns] t ∧
        validateInitialHeader settings.libraries element ns = .ok initial := by
  simp only [openPlain, Tx.run_bind_eq] at h
  obtain ⟨initial', first, hheader, h⟩ := h
  obtain ⟨element, ns, htook, hvalid⟩ := took_expectedHeader hheader
  split at h
  · simp at h
  next hfederates =>
    simp only [Tx.run_bind_eq, Tx.run_write_eq, Tx.run_pure_eq] at h
    obtain ⟨_, second, hsecond, _, third, hthird, _, fourth, hfourth, _, last, hlast, rfl, rfl⟩ := h
    cases hsecond
    refine ⟨by simpa using hfederates, element, ns, ?_, hvalid⟩
    have hsame : Took first [] { first with responseFrom := initial'.toDomain } :=
      ⟨rfl, rfl, fun _ => ⟨rfl, rfl⟩, fun _ => ⟨rfl, rfl⟩⟩
    exact htook.skip_right (hsame.skip ((took_send hthird).skip ((took_setHeaderSent hfourth).skip (took_send hlast))))

@[simp] theorem run_ensure {condition : Bool} {failure : Failure} {a : Unit} :
    (ensure condition failure).run s = (.ok a, t) ↔ condition = true ∧ s = t := by
  cases condition <;> simp [ensure]

@[simp] theorem run_require {α : Type} {value : Option α} {failure : Failure} {a : α} :
    (require value failure).run s = (.ok a, t) ↔ value = some a ∧ s = t := by
  cases value <;> simp [require]

theorem requestTls_spec (h : requestTls.run s = (.ok (), t)) :
    ∃ parsed, isEmptyElement parsed "starttls".toList tlsNamespace = true ∧ Took s [.element parsed] t := by
  simp only [requestTls, Tx.run_bind_eq] at h
  obtain ⟨event, first, hexpected, h⟩ := h
  split at h
  next parsed =>
    split at h
    next hstart =>
      obtain ⟨-, rfl⟩ := Tx.run_pure_eq.mp h
      exact ⟨parsed, hstart, took_expected hexpected⟩
    next => split at h <;> simp at h
  next => simp at h

variable {certificate : Option (List Certificate × Option Nat)}

theorem handshake_spec (h : (handshake settings).run s = (.ok certificate, t)) :
    t.plain = s.plain ∧ t.tls = s.tls ∧ t.connection = .tls ∧ ∃ chain, s.handshake = some chain ∧
      certificate = if chain.isEmpty then none else some (chain, settings.verifyChain chain) := by
  simp only [handshake, Tx.run_bind_eq, Tx.run_write_eq, Tx.run_pure_eq, Tx.run_read_eq] at h
  obtain ⟨_, first, hfirst, _, second, hsecond, chain, third, ⟨hchain, rfl⟩, _, fourth, hfourth, rfl, rfl⟩ := h
  cases hfirst
  cases hfourth
  have hput : Session.put _ Sent.proceed = (.ok (), second) := hsecond
  unfold Session.put at hput
  split at hput
  · cases hput
  · cases hput
    refine ⟨rfl, rfl, rfl, chain, ?_, rfl⟩
    cases hhandshake : s.handshake with
    | none => simp [hhandshake] at hchain
    | some certificates => simpa [hhandshake] using hchain

theorem startTls_spec (hplain : s.connection = .plain) (h : (startTls settings initial).run s = (.ok certificate, t)) :
    ∃ parsed chain, isEmptyElement parsed "starttls".toList tlsNamespace = true ∧
      s.plain = .event (.element parsed) :: t.plain ∧ t.tls = s.tls ∧ t.connection = .tls ∧
      s.handshake = some chain ∧
      certificate = if chain.isEmpty then none else some (chain, settings.verifyChain chain) := by
  simp only [startTls, Tx.run_bind_eq] at h
  obtain ⟨_, first, hrequest, h⟩ := h
  obtain ⟨parsed, hstart, htook⟩ := requestTls_spec hrequest
  split at h
  · simp at h
  · obtain ⟨hsame, hsame', htls, chain, hchain, hcertificate⟩ := handshake_spec h
    obtain ⟨hread, hkept⟩ := htook.plain hplain
    refine ⟨parsed, chain, hstart, ?_, hsame'.trans hkept, htls, htook.handshake.symm.trans hchain, hcertificate⟩
    rw [hread, hsame]
    rfl

variable {remote : Text}

theorem verifyPeer_eq_ok {leaf : Certificate} {validity : Option Nat} {validUntil : Nat} :
    verifyPeer settings leaf validity remote = .ok validUntil ↔
      validity = some validUntil ∧ settings.verifyIdentity leaf remote = true := by
  cases validity with
  | none => simp [verifyPeer]
  | some until' => cases hidentity : settings.verifyIdentity leaf remote <;> simp [verifyPeer, hidentity]

theorem identify_spec
    {identified : Identified Certificate} (h : (identify settings initial certificate).run s = (.ok identified, t)) :
    settings.isLocalHost identified.remote = false ∧
      certificate = some (identified.chain, some identified.validUntil) ∧
      (∃ leaf, identified.chain.head? = some leaf ∧ settings.verifyIdentity leaf identified.remote = true) ∧
      (∀ verdict ∈ settings.checkRevocation identified.chain, verdict.accepts = true) ∧
      ∃ element ns, Took s [.streamStart element ns] t ∧
        validateInitialHeader settings.libraries element ns = .ok ⟨initial.toDomain, some identified.remote⟩ := by
  simp only [identify, Tx.run_bind_eq, run_ensure, run_require, Tx.run_read_eq, Tx.run_pure_eq, verifyPeer_eq_ok] at h
  obtain ⟨restarted, first, hheader, _, _, ⟨hto, rfl⟩, h⟩ := h
  obtain ⟨remote, _, ⟨hfrom, rfl⟩, h⟩ := h
  obtain ⟨_, _, ⟨hlocal, rfl⟩, h⟩ := h
  obtain ⟨⟨chain, validity⟩, _, ⟨hcertificate, rfl⟩, h⟩ := h
  obtain ⟨leaf, _, ⟨hleaf, rfl⟩, h⟩ := h
  obtain ⟨validUntil, _, ⟨⟨hvalidity, hidentity⟩, rfl⟩, h⟩ := h
  obtain ⟨_, _, ⟨hverdict, rfl⟩, h⟩ := h
  obtain ⟨_, second, hsecond, _, third, hthird, _, fourth, hfourth, rfl, rfl⟩ := h
  obtain ⟨element, ns, htook, hvalid⟩ := took_expectedHeader hheader
  obtain rfl : validity = some validUntil := hvalidity
  refine ⟨by simpa using hlocal, hcertificate, ⟨leaf, hleaf, hidentity⟩, fun verdict hmem => ?_, element, ns, ?_, ?_⟩
  · have hcheck : settings.checkRevocation chain = some verdict := hmem
    rw [hcheck, Option.bind_some] at hverdict
    split at hverdict
    · cases hverdict
    next hnone => exact RevocationVerdict.authOutcome_eq_none.mp hnone
  · exact htook.skip_right ((took_send hsecond).skip ((took_setHeaderSent hthird).skip (took_send hfourth)))
  · obtain ⟨toDomain, fromDomain⟩ := restarted
    rw [hvalid]
    simp only [decide_eq_true_eq] at hto
    have hfrom' : fromDomain = some remote := hfrom
    rw [hto, hfrom']

/-! ### Attempts -/

/-- An attempt of SASL as it was read. -/
structure Attempt where
  bidi : Option ParsedElement
  auth : ParsedElement
  response : Option ParsedElement

namespace Attempt

def events (a : Attempt) : List StreamEvent :=
  a.bidi.toList.map .element ++ (.element a.auth :: a.response.toList.map .element)

/-- What the peer responded: at once, or when it was asked. -/
def Responds (settings : Settings Certificate) (a : Attempt) (response : Except SaslFailure Auth) : Prop :=
  (a.response = none ∧ parseAuth settings.libraries a.auth.element = response) ∨
    ∃ parsed, a.response = some parsed ∧ parseAuth settings.libraries a.auth.element = .ok .noInitialResponse ∧
      challengeResponse settings parsed = .ok response

end Attempt

/-- An authorization identity that is empty, or an address that is the remote domain and nothing else. -/
def Authorizes (settings : Settings Certificate) (remote : Text) (identity : Bytes) : Prop :=
  identity = [] ∨ ∃ value jid, settings.libraries.fromUtf8 identity = some value ∧
    parse settings.libraries.unicode value = .ok jid ∧ jid.resolve.localpart = none ∧
    jid.resolve.resourcepart = none ∧ jid.resolve.domainpart = remote

theorem authorizes_of_authorize {bytes : Bytes} (h : authorize settings bytes remote = .ok ()) :
    Authorizes settings remote bytes := by
  unfold authorize at h
  split at h
  next hempty => exact .inl hempty
  next =>
    split at h
    · cases h
    next value hvalue =>
      split at h
      · cases h
      next jid hjid =>
        split at h
        next hcondition =>
          simp only [Bool.and_eq_true, Option.isNone_iff_eq_none, decide_eq_true_eq] at hcondition
          exact .inr ⟨value, jid, hvalue, hjid, hcondition.1.1, hcondition.1.2, hcondition.2⟩
        next => cases h

theorem authorizes_of_authorizeResponse {response : Except SaslFailure Auth}
    (h : authorizeResponse settings response remote = .ok ()) :
    ∃ identity, response = .ok (.response identity) ∧ Authorizes settings remote identity := by
  unfold authorizeResponse at h
  split at h
  next bytes => exact ⟨bytes, rfl, authorizes_of_authorize h⟩
  next => cases h
  next => cases h

theorem requestBidi_spec {parsed : ParsedElement} {requested : Bool}
    (h : (requestBidi settings parsed requested).run s = (.ok event, t)) : Took s [event] t := by
  simp only [requestBidi, Tx.run_bind_eq, run_ensure, Tx.run_read_eq] at h
  obtain ⟨_, _, ⟨-, rfl⟩, _, _, ⟨-, rfl⟩, hexpected⟩ := h
  exact took_expected hexpected

variable {requested requested' : Bool}

theorem expectedRequest_spec (h : (expectedRequest settings requested).run s = (.ok (event, requested'), t)) :
    ∃ bidi : Option ParsedElement, Took s (bidi.toList.map .element ++ [event]) t := by
  simp only [expectedRequest, Tx.run_bind_eq] at h
  obtain ⟨first, _, hfirst, h⟩ := h
  split at h
  next parsed =>
    split at h
    · simp only [Tx.run_bind_eq, Tx.run_pure_eq, Prod.mk.injEq] at h
      obtain ⟨next, _, hnext, ⟨rfl, -⟩, rfl⟩ := h
      exact ⟨some parsed, (took_expected hfirst).trans (requestBidi_spec hnext)⟩
    · simp only [Tx.run_pure_eq, Prod.mk.injEq] at h
      obtain ⟨⟨rfl, -⟩, rfl⟩ := h
      exact ⟨none, took_expected hfirst⟩
  next =>
    simp only [Tx.run_pure_eq, Prod.mk.injEq] at h
    obtain ⟨⟨rfl, -⟩, rfl⟩ := h
    exact ⟨none, took_expected hfirst⟩

theorem expectedAuth_spec {auth : ParsedElement}
    (h : (expectedAuth settings requested).run s = (.ok (auth, requested'), t)) :
    ∃ bidi : Option ParsedElement, Took s (bidi.toList.map .element ++ [.element auth]) t := by
  simp only [expectedAuth, Tx.run_bind_eq] at h
  obtain ⟨⟨event, requested''⟩, _, hrequest, h⟩ := h
  obtain ⟨bidi, htook⟩ := expectedRequest_spec hrequest
  split at h
  next parsed _ heq =>
    simp only [Tx.run_bind_eq, run_ensure, Tx.run_pure_eq, Prod.mk.injEq] at h
    obtain ⟨_, _, ⟨-, rfl⟩, ⟨rfl, -⟩, rfl⟩ := h
    cases heq
    exact ⟨bidi, htook⟩
  next => simp at h

theorem respond_spec {auth : ParsedElement} {response : Except SaslFailure Auth}
    (h : (respond settings auth).run s = (.ok response, t)) :
    ∃ answer : Option ParsedElement, Took s (answer.toList.map .element) t ∧
      ∀ bidi, Attempt.Responds settings ⟨bidi, auth, answer⟩ response := by
  unfold respond at h
  split at h
  next hauth =>
    simp only [Tx.run_bind_eq] at h
    obtain ⟨_, first, hsend, event, second, hexpected, h⟩ := h
    split at h
    next parsed =>
      obtain ⟨hresponse, rfl⟩ := Tx.run_read_eq.mp h
      exact ⟨some parsed, (took_send hsend).skip (took_expected hexpected),
        fun _ => .inr ⟨parsed, rfl, hauth, hresponse⟩⟩
    next => simp at h
  next =>
    obtain ⟨hresponse, rfl⟩ := Tx.run_pure_eq.mp h
    exact ⟨none, ⟨rfl, rfl, fun _ => ⟨rfl, rfl⟩, fun _ => ⟨rfl, rfl⟩⟩, fun _ => .inl ⟨rfl, hresponse⟩⟩

theorem authenticate_spec {attempts : Nat}
    (h : (authenticate settings remote attempts requested).run s = (.ok requested', t)) :
    ∃ (failed : List Attempt) (last : Attempt) (identity : Bytes), failed.length + 1 ≤ attempts ∧
      Took s ((failed ++ [last]).flatMap Attempt.events) t ∧
      last.Responds settings (.ok (.response identity)) ∧ Authorizes settings remote identity := by
  induction attempts generalizing s requested with
  | zero => simp [authenticate] at h
  | succ attempts ih =>
    simp only [authenticate, Tx.run_bind_eq] at h
    obtain ⟨⟨auth, requested''⟩, first, hauth, response, second, hresponse, h⟩ := h
    obtain ⟨bidi, htook⟩ := expectedAuth_spec hauth
    obtain ⟨answer, htook', hresponds⟩ := respond_spec hresponse
    have hattempt : Took s (Attempt.events ⟨bidi, auth, answer⟩) second := by
      simpa [Attempt.events] using htook.trans htook'
    split at h
    next hauthorized =>
      obtain ⟨-, rfl⟩ := Tx.run_pure_eq.mp h
      obtain ⟨identity, rfl, hidentity⟩ := authorizes_of_authorizeResponse hauthorized
      refine ⟨[], ⟨bidi, auth, answer⟩, identity, by simp, ?_, hresponds bidi, hidentity⟩
      simpa using hattempt
    next failure _ =>
      simp only [Tx.run_bind_eq] at h
      obtain ⟨_, third, hsend, h⟩ := h
      split at h
      · simp [giveUp] at h
      · obtain ⟨failed, last, identity, hlength, hrest, hlast, hidentity⟩ := ih h
        refine ⟨⟨bidi, auth, answer⟩ :: failed, last, identity, ?_, ?_, hlast, hidentity⟩
        · rw [List.length_cons]
          omega
        · exact hattempt.trans ((took_send hsend).skip hrest)

theorem finalize_spec (h : (finalize settings initial remote).run s = (.ok (), t)) :
    ∃ element ns, Took s [.streamStart element ns] t ∧
      validateInitialHeader settings.libraries element ns = .ok ⟨initial.toDomain, some remote⟩ := by
  simp only [finalize, Tx.run_bind_eq, run_ensure, decide_eq_true_eq] at h
  obtain ⟨_, first, hfirst, _, second, hsecond, finalHeader, third, hheader, _, _, ⟨hfrom, rfl⟩, _, _, ⟨hto, rfl⟩,
    _, fourth, hfourth, _, fifth, hfifth, hlast⟩ := h
  obtain ⟨element, ns, htook, hvalid⟩ := took_expectedHeader hheader
  refine ⟨element, ns, ?_, ?_⟩
  · have hbefore := (took_send hfirst).skip (took_setHeaderSent hsecond)
    have hafter := (took_send hfourth).skip ((took_setHeaderSent hfifth).skip (took_send hlast))
    exact (hbefore.skip htook).skip_right hafter
  · obtain ⟨toDomain, fromDomain⟩ := finalHeader
    rw [hvalid]
    have hto' : toDomain = initial.toDomain := hto
    have hfrom' : fromDomain = some remote := hfrom
    rw [hto', hfrom']

/-! ### The transcript -/

/-- Everything that was read on the way to a verified peer, and the certificate it was verified by. -/
structure Transcript (Certificate : Type) where
  initial : Element × Text
  starttls : ParsedElement
  leaf : Certificate
  restarted : Element × Text
  failed : List Attempt
  attempt : Attempt
  identity : Bytes
  last : Element × Text

/-- What has to hold of a transcript for its peer to be verified. -/
structure Transcript.Verifies (settings : Settings Certificate) (s : Session Certificate)
    (peer : VerifiedPeer Certificate) (transcript : Transcript Certificate) : Prop where
  plain : [.event (.streamStart transcript.initial.1 transcript.initial.2), .event (.element transcript.starttls)] <+:
    s.plain
  starttls : isEmptyElement transcript.starttls "starttls".toList tlsNamespace = true
  handshake : s.handshake = some peer.chain
  tls : (.streamStart transcript.restarted.1 transcript.restarted.2 ::
    ((transcript.failed ++ [transcript.attempt]).flatMap Attempt.events ++
      [.streamStart transcript.last.1 transcript.last.2])).map .event <+: s.tls
  initial : ∃ fromDomain, validateInitialHeader settings.libraries transcript.initial.1 transcript.initial.2 =
    .ok ⟨peer.localDomain, fromDomain⟩
  restarted : validateInitialHeader settings.libraries transcript.restarted.1 transcript.restarted.2 =
    .ok ⟨peer.localDomain, some peer.remote⟩
  last : validateInitialHeader settings.libraries transcript.last.1 transcript.last.2 =
    .ok ⟨peer.localDomain, some peer.remote⟩
  federated : settings.federatesDomain peer.localDomain = true
  remote : settings.isLocalHost peer.remote = false
  chain : settings.verifyChain peer.chain = some peer.validUntil
  leaf : peer.chain.head? = some transcript.leaf
  name : settings.verifyIdentity transcript.leaf peer.remote = true
  revocation : ∀ verdict ∈ settings.checkRevocation peer.chain, verdict.accepts = true
  responds : transcript.attempt.Responds settings (.ok (.response transcript.identity))
  authorizes : Authorizes settings peer.remote transcript.identity
  attempts : (transcript.failed ++ [transcript.attempt]).length ≤ 2

theorem run_spec {peer : VerifiedPeer Certificate} (hplain : s.connection = .plain)
    (h : (run settings).run s = (.ok peer, t)) :
    ∃ transcript : Transcript Certificate, transcript.Verifies settings s peer := by
  simp only [run, Tx.run_bind_eq, Tx.run_pure_eq] at h
  obtain ⟨initial, first, hopen, certificate, second, hstart, identified, third, hidentify, requested, fourth,
    hauthenticate, _, fifth, hfinalize, rfl, rfl⟩ := h
  obtain ⟨hfederated, element, ns, htook, hinitial⟩ := openPlain_spec hopen
  obtain ⟨hread, hkept⟩ := htook.plain hplain
  obtain ⟨parsed, chain, hempty, hread', hkept', htls, hhandshake, hcertificate⟩ :=
    startTls_spec (htook.connection.trans hplain) hstart
  obtain ⟨hremote, hsome, ⟨leaf, hleaf, hname⟩, hrevocation, element', ns', htook', hrestarted⟩ :=
    identify_spec hidentify
  obtain ⟨failed, attempt, identity, hlength, hattempts, hresponds, hauthorizes⟩ := authenticate_spec hauthenticate
  obtain ⟨element'', ns'', htook'', hlast⟩ := finalize_spec hfinalize
  -- The chain that was presented is the one that was verified.
  have hchain : chain = identified.chain ∧ settings.verifyChain chain = some identified.validUntil := by
    rw [hcertificate] at hsome
    split at hsome
    · cases hsome
    · exact Prod.mk.inj (Option.some.inj hsome)
  obtain ⟨rfl, hverified⟩ := hchain
  have hencrypted := (htook'.trans (hattempts.trans htook'')).tls htls
  refine ⟨⟨(element, ns), parsed, leaf, (element', ns'), failed, attempt, identity, (element'', ns'')⟩, ?_, hempty,
    htook.handshake.symm.trans hhandshake, ?_, ⟨initial.fromDomain, hinitial⟩, hrestarted, hlast, hfederated, hremote,
    hverified, hleaf, hname, hrevocation, hresponds, hauthorizes, ?_⟩
  · rw [hread, hread']
    exact ⟨second.plain, rfl⟩
  · rw [← hkept, ← hkept', hencrypted.1]
    exact ⟨_, rfl⟩
  · rw [List.length_append]
    exact hlength

/-! ### Addresses -/

/-- The stanza is from the remote domain and to the local one. -/
def Addressed (peer : InboundPeer) (stanza : Stanza) : Prop :=
  ∃ sender target, stanza.header.fromJid = some sender ∧ stanza.header.toJid = some target ∧
    sender.resolve.domainpart = peer.remote ∧ target.resolve.domainpart = peer.localDomain

section Addresses

variable {peer : InboundPeer} {stanza : Stanza}

theorem rescopeIn_header {ns : StanzaNamespace} {arena : Arena} {result : Stanza × Arena}
    (h : stanza.rescopeIn ns arena = .ok result) :
    result.1.header.fromJid = stanza.header.fromJid.map (fun jid => jid.resolve.cloneIn) ∧
      result.1.header.toJid = stanza.header.toJid.map fun jid => jid.resolve.cloneIn := by
  unfold Stanza.rescopeIn at h
  split at h
  · simp only [Stanza.toBuilderInFiltered, except_bind_eq_ok, except_pure_eq_ok] at h
    obtain ⟨_, ⟨attributes, -, children, -, rfl⟩, built, hbuilt, rfl⟩ := h
    rw [build_stanza_eq_ok hbuilt]
    exact ⟨rfl, rfl⟩
  · simp only [except_bind_eq_ok, except_pure_eq_ok] at h
    obtain ⟨attributes, -, children, -, built, hbuilt, rfl⟩ := h
    rw [build_stanza_eq_ok hbuilt]
    exact ⟨rfl, rfl⟩

theorem validate_eq_ok {ns : StanzaNamespace} {sender target : Option JidRef}
    (h : validate ns sender target peer = .ok ()) :
    ∃ fromJid toJid, sender = some fromJid ∧ target = some toJid ∧ fromJid.domainpart = peer.remote ∧
      toJid.domainpart = peer.localDomain := by
  unfold validate at h
  split at h
  · cases h
  · split at h
    next fromJid toJid =>
      split at h
      · cases h
      next hto =>
        split at h
        · cases h
        next hfrom => exact ⟨fromJid, toJid, rfl, rfl, not_not.mp hfrom, not_not.mp hto⟩
    next => cases h

theorem replyRejected_ne_deliver {rejected : RejectedStanza} {sender target : Jid} :
    replyRejected rejected sender target ≠ .ok (.deliver stanza) := by
  unfold replyRejected
  split
  · simp
  · split <;> simp

theorem addressed_of_process {event : StreamEvent}
    (h : process peer event = .ok (.deliver stanza)) : Addressed peer stanza := by
  cases event with
  | streamStart header ns => cases h
  | streamEnd => cases h
  | element parsed =>
    simp only [process] at h
    split at h <;> cases h
  | rejectedStanza rejected =>
    simp only [process] at h
    split at h
    · cases h
    · split at h
      · cases h
      · simp only [except_bind_eq_ok] at h
        obtain ⟨_, -, h⟩ := h
        split at h
        · split at h
          · exact absurd h replyRejected_ne_deliver
          · cases h
        · cases h
  | stanza original =>
    simp only [process, except_bind_eq_ok] at h
    obtain ⟨_, hvalid, h⟩ := h
    obtain ⟨sender, target, hsender, htarget, hremote, hlocal⟩ := validate_eq_ok hvalid
    obtain ⟨sender, hfrom, rfl⟩ := Option.map_eq_some_iff.mp hsender
    obtain ⟨target, hto, rfl⟩ := Option.map_eq_some_iff.mp htarget
    split at h
    · cases h
    next result arena hrescope =>
      cases h
      obtain ⟨hfrom', hto'⟩ := rescopeIn_header hrescope
      rw [hfrom, Option.map_some] at hfrom'
      rw [hto, Option.map_some] at hto'
      refine ⟨_, _, hfrom', hto', ?_, ?_⟩
      · rw [sender.resolve_clone, hremote]
      · rw [target.resolve_clone, hlocal]

theorem addressed_of_receive {reason : Option StreamClose} {turns : List Turn} :
    ∀ stanza ∈ (receive peer reason turns).1, Addressed peer stanza := by
  induction turns with
  | nil => exact fun _ hmem => nomatch hmem
  | cons turn turns ih =>
    intro stanza hmem
    cases turn with
    | interrupted condition => cases hmem
    | idle active =>
      rw [receive] at hmem
      split at hmem
      · exact ih stanza hmem
      · cases hmem
    | read read refused =>
      rw [receive] at hmem
      split at hmem
      · cases hmem
      · cases hmem
      · cases hmem
      · split at hmem
        · cases hmem
        next delivered hprocess =>
          have haddressed := addressed_of_process hprocess
          split at hmem
          · exact List.forall_mem_singleton.mpr haddressed stanza hmem
          · exact List.forall_mem_cons.mpr ⟨haddressed, ih⟩ stanza hmem
        · exact ih stanza hmem

theorem addressed_of_receiving {turns : List (Read × Bool)} :
    ∀ stanza ∈ (receiving peer turns).1, Addressed peer stanza := by
  induction turns with
  | nil => exact fun _ hmem => nomatch hmem
  | cons turn turns ih =>
    intro stanza hmem
    rw [receiving] at hmem
    split at hmem
    · cases hmem
    · cases hmem
    · cases hmem
    · split at hmem
      · cases hmem
      next delivered hprocess =>
        have haddressed := addressed_of_process hprocess
        split at hmem
        · exact List.forall_mem_singleton.mpr haddressed stanza hmem
        · exact List.forall_mem_cons.mpr ⟨haddressed, ih⟩ stanza hmem
      · exact ih stanza hmem

end Addresses

/-- A peer is verified only by a transcript that verifies it, and every stanza that is dispatched from its stream,
whether the stream also sends or not, is from the verified domain and to the domain it was verified for. -/
theorem federated_senders_authentic {peer : VerifiedPeer Certificate} (hplain : s.connection = .plain)
    (h : negotiate settings s = (.ok peer, t)) :
    t.connection = .gone ∧
    (∃ transcript : Transcript Certificate, transcript.Verifies settings s peer) ∧
    (∀ (reason : Option StreamClose) (turns : List Turn),
      ∀ stanza ∈ (receive ⟨peer.localDomain, peer.remote⟩ reason turns).1,
        Addressed ⟨peer.localDomain, peer.remote⟩ stanza) ∧
    ∀ turns : List (Read × Bool), ∀ stanza ∈ (receiving ⟨peer.localDomain, peer.remote⟩ turns).1,
      Addressed ⟨peer.localDomain, peer.remote⟩ stanza := by
  unfold negotiate at h
  split at h
  next peer' t' hrun =>
    split at h
    next =>
      cases h
      exact ⟨rfl, run_spec hplain hrun, fun reason turns => addressed_of_receive, fun turns => addressed_of_receiving⟩
    next => cases h
  next => cases h

/-- A listener for one domain, which has every peer with the certificate 1. -/
def sampleSettings : Settings Nat where
  libraries := ⟨asciiTables, fun _ => none, fun _ => none, fun _ => true⟩
  defaultHost := "a.example".toList
  federationEnabled := true
  hostFederates domain := domain = "a.example".toList
  isService _ := false
  hasCertificateHost _ := true
  isLocalHost domain := domain = "a.example".toList
  hasServerConfig _ := true
  verifyChain chain := if chain = [1] then some 90 else none
  verifyIdentity certificate remote := certificate = 1 && remote = "b.example".toList
  checkRevocation _ := some ⟨.fetched, .good⟩
  offerBidi := false

def sampleHeader : StreamEvent :=
  .streamStart ⟨⟨"stream".toList, streamNamespace, .empty, [⟨"to".toList, [], "a.example".toList⟩,
    ⟨"from".toList, [], "b.example".toList⟩, ⟨"version".toList, [], "1.0".toList⟩]⟩, .nil⟩ serverNamespace

/-- A peer that asks for TLS and then names itself by its certificate. -/
def sampleSession : Session Nat where
  plain := [.event sampleHeader, .event (.element ⟨⟨⟨"starttls".toList, tlsNamespace, .empty, []⟩, .nil⟩, false⟩)]
  handshake := some [1]
  tls := [.event sampleHeader, .event (.element ⟨⟨⟨"auth".toList, saslNamespace, .empty,
    [⟨"mechanism".toList, [], "EXTERNAL".toList⟩]⟩, .text "=".toList .nil⟩, true⟩), .event sampleHeader]
  writes := []
  connection := .plain
  headerSent := false
  peerFooter := false
  footerSent := false
  responseFrom := "a.example".toList
  sent := []

def samplePeer : VerifiedPeer Nat :=
  ⟨false, false, "a.example".toList, "b.example".toList, 90, [1], some ⟨.fetched, .good⟩⟩

theorem federated_senders_authentic_sample : (negotiate sampleSettings sampleSession).1 = .ok samplePeer ∧
    ∃ transcript : Transcript Nat, transcript.Verifies sampleSettings sampleSession samplePeer := by
  have hpeer : (negotiate sampleSettings sampleSession).1 = .ok samplePeer := by decide +kernel
  generalize hresult : negotiate sampleSettings sampleSession = result at hpeer
  obtain ⟨peer, t⟩ := result
  obtain rfl : peer = .ok samplePeer := hpeer
  exact ⟨rfl, (federated_senders_authentic rfl hresult).2.1⟩

end Lonewolf.S2s
