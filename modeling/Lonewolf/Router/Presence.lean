import Lonewolf.Xmpp.Canonical
import Lonewolf.Xmpp.Stanza

/-!
# What a shard tells about presence

`router/local/shard/mod.rs`: the answers of a shard to probes and to IQ requests for its sessions. An observer learns
about a session as the account itself, as a subscriber, or by directed presence of the session. The mailboxes that a
delivery fills and the dead sessions that it removes do not change its answer and are left out.
-/

namespace Lonewolf.Router

open Texts Xmpp

inductive RouterError where
  | invalidTarget | notFound | busy | unavailable
  deriving DecidableEq

/-- `DirectedRecipient`: the text of an address that was sent directed presence. -/
@[ext] structure DirectedRecipient where
  text : Text
  deriving DecidableEq

namespace DirectedRecipient

def new (jid : JidRef) : DirectedRecipient := ⟨jid.text⟩

def bare (recipient : DirectedRecipient) : Text := recipient.text.takeWhile (· ≠ '/')

def matchesPrepared (grant observer : DirectedRecipient) : Bool :=
  grant = observer || (!grant.text.contains '/' && grant.bare = observer.bare)

end DirectedRecipient

/-- What `try_send` finds. -/
inductive Mailbox where
  | room | full | closed
  deriving DecidableEq

structure Session where
  token : Nat
  alive : Bool
  outbound : Mailbox
  presence : Option Stanza
  directed : List DirectedRecipient

/-- A session of the account has sent directed presence to the observer. -/
def Session.grants (session : Session) (observer : DirectedRecipient) : Bool :=
  session.directed.any (·.matchesPrepared observer)

/-- The sessions of the accounts by resource, and when an account was last unavailable. -/
structure Shard where
  accounts : Text → AList fun _ : Text => Session
  lastUnavailable : List (Text × Nat)

structure PresenceAccess where
  subscribed : Bool
  directed : Bool

structure PresenceSource where
  resource : Text
  presence : Option Stanza
  access : PresenceAccess

/-- The tables of the address preparation, and how a time is written as a stamp. -/
structure Env where
  unicode : Unicode
  stamp : Nat → Option Text

/-! ### Answers to a probe -/

def orUnavailable {ε α : Type} (result : Except ε α) : Except RouterError α := result.mapError fun _ => .unavailable

def targetOf (stanza : Stanza) : Option JidRef := stanza.header.toJid.map Jid.resolve

def senderOf (stanza : Stanza) : Option JidRef := stanza.header.fromJid.map Jid.resolve

section Probe

variable (env : Env) (request : Stanza)

def answerTo : Except RouterError Jid :=
  match senderOf request with
  | none => .error .invalidTarget
  | some observer => orUnavailable (parse env.unicode observer.text)

def probeCurrent (presence : Stanza) : Except RouterError Stanza := do
  let observer ← answerTo env request
  orUnavailable do
    let (builder, _) ← presence.toBuilderInFiltered (fun _ => true) ⟨[]⟩
    let header ← StanzaBuilder.changeHeader builder.header (.toJid (some observer))
    StanzaBuilder.build { builder with header := header }

def delayElement (stamp : Text) : Except BuildError Element := do
  let builder ← ElementBuilder.new "delay".toList "urn:xmpp:delay".toList
  let builder ← builder.withAttribute "stamp".toList [] stamp
  builder.build

def probeReply (sender : Text) (kind : PresenceType) (id : Option Text) (time : Option Nat) :
    Except RouterError Stanza := do
  let observer ← answerTo env request
  let sender ← orUnavailable (parse env.unicode sender)
  let delay ← time.mapM fun time =>
    match env.stamp time with
    | none => .error .unavailable
    | some stamp => orUnavailable (delayElement stamp)
  orUnavailable do
    let builder := StanzaBuilder.new (.presence kind) .client
    let header := { builder.header with fromJid := some sender, toJid := some observer }
    let header ← StanzaBuilder.changeHeader header (.id id)
    StanzaBuilder.build { builder with header := header, children := delay.toList }

/-- The closure `build` of `probe_for`. -/
def answer (owner : Text) (ordinary full : Bool) (source : PresenceSource) : Except RouterError (Option Stanza) :=
  if !full && ordinary then source.presence.mapM (probeCurrent env request)
  else if source.presence.isNone && !source.access.directed && !(full && ordinary) then .ok none
  else
    let id := if full && ordinary then (source.presence.map (·.header.id)).getD request.header.id else request.header.id
    (probeReply env request (owner ++ '/' :: source.resource) .available id none).map some

end Probe

namespace Shard

variable (env : Env) (shard : Shard) (account : Text)

/-- One round of `presence_access`. -/
def sessionAccess (resource : Option Text) (observer : DirectedRecipient) (subscribed : Bool)
    (build : PresenceSource → Except RouterError (Option Stanza)) (name : Text) (session : Session) :
    Except RouterError (Option Stanza) :=
  if resource.any (· ≠ name) || !session.alive || session.outbound = .closed then .ok none
  else if !(subscribed || account = observer.bare) && !session.grants observer then .ok none
  else do
    match ← build ⟨name, session.presence, ⟨subscribed, session.grants observer⟩⟩ with
    | none => return none
    | some stanza =>
      if (targetOf stanza).any (·.text = observer.text) then return some stanza else throw .invalidTarget

/-- The loop of `presence_access` over the sessions. -/
def accessLoop (access : Text → Session → Except RouterError (Option Stanza)) :
    List ((_ : Text) × Session) → Except RouterError (List Stanza)
  | [] => .ok []
  | ⟨name, session⟩ :: rest => do
    let delivery ← access name session
    let deliveries ← accessLoop access rest
    return delivery.toList ++ deliveries

def presenceAccess (resource : Option Text) (observer : DirectedRecipient) (subscribed : Bool)
    (build : PresenceSource → Except RouterError (Option Stanza)) : Except RouterError (List Stanza) :=
  accessLoop (sessionAccess account resource observer subscribed build) (shard.accounts account).entries

/-- `probe_for`, for the account that the probe is addressed to. -/
def probeOwner (observer : JidRef) (request : Stanza) (subscribed : Bool) (target : JidRef) :
    Except RouterError (List Stanza) := do
  let owner := target.bare.text
  let ordinary := subscribed || owner = observer.bare.text
  let full := target.resourcepart.isSome
  let deliveries ← shard.presenceAccess owner target.resourcepart (.new observer) subscribed
    (answer env request owner ordinary full)
  if !deliveries.isEmpty then return deliveries
  let (sender, kind, time) :=
    if ordinary then
      (target.text, PresenceType.unavailable,
        if full then none else (shard.lastUnavailable.find? (·.1 = owner)).map (·.2))
    else (owner, .unsubscribed, none)
  return [← probeReply env request sender kind request.header.id time]

def probeFor (observer : JidRef) (request : Stanza) (subscribed : Bool) : Except RouterError (List Stanza) :=
  if request.header.stanzaType ≠ .presence .probe then .error .invalidTarget
  else match targetOf request with
    | none => .error .invalidTarget
    | some target =>
      if target.bare.localpart.isNone then .error .invalidTarget
      else shard.probeOwner env observer request subscribed target

/-! ### IQ requests -/

/-- A session of the account without the grants that an unavailable presence ends. -/
def prune (sender target : JidRef) (token : Option Nat) (resource : Text) (session : Session) : Session :=
  if target.resourcepart.any (· ≠ resource) || token.any (session.token ≠ ·) || !session.alive then session
  else
    { session with
      directed := session.directed.filter fun grant =>
        if sender.resourcepart.isSome then grant.text ≠ sender.text else grant.bare ≠ sender.text }

variable (stanza : Stanza)

def pruneDirected (token : Option Nat) : Except RouterError Shard :=
  if stanza.header.stanzaType ≠ .presence .unavailable then .ok shard
  else match senderOf stanza, targetOf stanza with
    | none, _ => .ok shard
    | some _, none => .error .invalidTarget
    | some sender, some target =>
      let sessions := (shard.accounts target.bare.text).entries.map fun e => ⟨e.1, prune sender target token e.1 e.2⟩
      .ok { shard with accounts := Function.update shard.accounts target.bare.text sessions.toAList }

/-- `deliver_with_guard` without a fallback: the token of the session that takes the stanza, if the source still
lives. -/
def deliverWithGuard (valid : Bool) : Except RouterError (Option Nat) := do
  let shard ← shard.pruneDirected stanza none
  match targetOf stanza with
  | none => throw .invalidTarget
  | some target => match target.resourcepart with
    | none => throw .invalidTarget
    | some resource => match (shard.accounts target.bare.text).lookup resource with
      | none => throw .notFound
      | some session =>
        if !valid then return none
        else if !session.alive then throw .notFound
        else match session.outbound with
          | .room => return some session.token
          | .full => throw .busy
          | .closed => throw .notFound

def deliverIqRequest (subscribed valid : Bool) : Except RouterError Unit :=
  if stanza.header.stanzaType ≠ .iq .get ∧ stanza.header.stanzaType ≠ .iq .set then .error .invalidTarget
  else match senderOf stanza, targetOf stanza with
    | some observer, some target => match target.resourcepart with
      | none => .error .invalidTarget
      | some resource => match (shard.accounts target.bare.text).lookup resource with
        | none => .error .notFound
        | some session =>
          if !session.alive || session.outbound = .closed then .error .notFound
          else if !subscribed && target.bare.text ≠ observer.bare.text && !session.directed.any (fun grant =>
              grant.text = observer.text || (!grant.text.contains '/' && grant.text = observer.bare.text)) then
            .error .notFound
          else (shard.deliverWithGuard stanza valid).map fun _ => ()
    | _, _ => .error .invalidTarget

/-! ### What an observer may know -/

/-- The account has no session and was never unavailable. -/
def without : Shard where
  accounts := Function.update shard.accounts account ∅
  lastUnavailable := shard.lastUnavailable.filter (·.1 ≠ account)

/-- The account has only the sessions that granted the observer. -/
def only (observer : JidRef) : Shard where
  accounts := Function.update shard.accounts account
    ⟨(shard.accounts account).entries.filter fun e => e.2.grants (.new observer),
      (shard.accounts account).nodupKeys.sublist List.filter_sublist⟩
  lastUnavailable := shard.lastUnavailable.filter (·.1 ≠ account)

end Shard

section Disclosure

variable (shard : Shard) (observer : Parts)

theorem bare_new : (DirectedRecipient.new observer.address).bare = observer.bareText := by
  have hall : ∀ c ∈ observer.bareText, decide (c ≠ '/') = true := by
    intro c hc
    have hne : c ≠ '/' := fun heq => observer.noSlash_bareText (heq ▸ hc)
    simpa using hne
  change (observer.bareText ++ (observer.resourcepart.map ('/' :: ·)).getD []).takeWhile (· ≠ '/') = _
  rw [List.takeWhile_append_of_pos hall]
  cases observer.resourcepart with
  | none => exact List.append_nil _
  | some resource => exact List.append_nil _

theorem bare_address_text : observer.address.bare.text = observer.bareText := by
  rw [Parts.bare_address]
  exact observer.text_bare

theorem grants_eq (session : Session) : session.grants (.new observer.address) = session.directed.any (fun grant =>
    grant.text = observer.address.text || (!grant.text.contains '/' && grant.text = observer.address.bare.text)) := by
  unfold Session.grants
  congr 1
  funext grant
  have hfull : decide (grant = .new observer.address) = decide (grant.text = observer.address.text) := by
    simp [DirectedRecipient.new, DirectedRecipient.ext_iff]
  rw [DirectedRecipient.matchesPrepared, hfull, bare_new, bare_address_text]
  by_cases hslash : grant.text.contains '/' = true
  · simp only [hslash, Bool.not_true, Bool.false_and]
  · have hbare : grant.bare = grant.text := by
      refine List.takeWhile_eq_self_iff.mpr fun c hc => ?_
      have hne : c ≠ '/' := fun heq => hslash (by simpa [heq] using hc)
      simpa using hne
    rw [hbare]

theorem accessLoop_filter {access : Text → Session → Except RouterError (Option Stanza)}
    {keep : (_ : Text) × Session → Bool} {sessions : List ((_ : Text) × Session)}
    (h : ∀ e ∈ sessions, keep e = false → access e.1 e.2 = .ok none) :
    Shard.accessLoop access (sessions.filter keep) = Shard.accessLoop access sessions := by
  induction sessions with
  | nil => rfl
  | cons e rest ih =>
    have hrest := ih fun e' hmem => h e' (List.mem_cons_of_mem e hmem)
    cases hkeep : keep e with
    | true =>
      rw [List.filter_cons_of_pos hkeep, Shard.accessLoop, Shard.accessLoop, hrest]
    | false =>
      rw [List.filter_cons_of_neg (by simp [hkeep]), hrest, Shard.accessLoop, h e List.mem_cons_self hkeep]
      cases Shard.accessLoop access rest <;> rfl

variable {account : Text} (hother : observer.bareText ≠ account)
include hother

theorem sessionAccess_ungranted {resource : Option Text} {name : Text} {session : Session}
    {build : PresenceSource → Except RouterError (Option Stanza)} (h : session.grants (.new observer.address) = false) :
    Shard.sessionAccess account resource (.new observer.address) false build name session = .ok none := by
  unfold Shard.sessionAccess
  split
  · rfl
  · rw [if_pos]
    simp [h, bare_new, Ne.symm hother]

theorem probeOwner_only (env : Env) {request : Stanza} {target : JidRef} (htarget : target.bare.text = account) :
    (shard.only account observer.address).probeOwner env observer.address request false target =
      shard.probeOwner env observer.address request false target := by
  have hordinary : (false || decide (account = observer.address.bare.text)) = false := by
    simp [bare_address_text, Ne.symm hother]
  have haccess : (shard.only account observer.address).presenceAccess account target.resourcepart
      (.new observer.address) false = shard.presenceAccess account target.resourcepart (.new observer.address) false := by
    funext build
    simp only [Shard.presenceAccess, Shard.only, Function.update_self]
    exact accessLoop_filter fun e _ hgrants => sessionAccess_ungranted observer hother hgrants
  simp only [Shard.probeOwner, htarget, hordinary, haccess, Bool.false_eq_true, if_false]

omit hother in
theorem lookup_only (resource : Text) :
    ((shard.only account observer.address).accounts account).lookup resource =
      ((shard.accounts account).lookup resource).filter (·.grants (.new observer.address)) := by
  ext session
  have hkept : ((shard.only account observer.address).accounts account).lookup resource = some session ↔
      ⟨resource, session⟩ ∈ ((shard.only account observer.address).accounts account).entries := AList.mem_lookup_iff
  have hheld : (shard.accounts account).lookup resource = some session ↔
      ⟨resource, session⟩ ∈ (shard.accounts account).entries := AList.mem_lookup_iff
  rw [hkept, Option.filter_eq_some_iff, hheld]
  simp only [Shard.only, Function.update_self, List.mem_filter]

omit hother in
theorem deliverWithGuard_congr {shard shard' : Shard} {stanza : Stanza} {target : JidRef} {resource : Text}
    (hiq : stanza.header.stanzaType ≠ .presence .unavailable) (htarget : targetOf stanza = some target)
    (hresource : target.resourcepart = some resource)
    (h : (shard'.accounts target.bare.text).lookup resource = (shard.accounts target.bare.text).lookup resource)
    (valid : Bool) : shard'.deliverWithGuard stanza valid = shard.deliverWithGuard stanza valid := by
  have hprune (shard : Shard) : shard.pruneDirected stanza none = .ok shard := if_pos hiq
  simp only [Shard.deliverWithGuard, hprune, htarget, hresource, bind, Except.bind, h]

theorem deliverIqRequest_only {stanza : Stanza} {target : JidRef} (hsender : senderOf stanza = some observer.address)
    (htarget : targetOf stanza = some target) (haccount : target.bare.text = account) (valid : Bool) :
    (shard.only account observer.address).deliverIqRequest stanza false valid =
      shard.deliverIqRequest stanza false valid := by
  subst haccount
  unfold Shard.deliverIqRequest
  split
  · rfl
  next hiq =>
    have hpresence : stanza.header.stanzaType ≠ .presence .unavailable := by
      intro heq
      simp [heq] at hiq
    have hstranger : decide (target.bare.text ≠ observer.address.bare.text) = true := by
      simpa [bare_address_text] using Ne.symm hother
    simp only [hsender, htarget]
    cases hresource : target.resourcepart with
    | none => rfl
    | some resource =>
      have hlookup : ((shard.only target.bare.text observer.address).accounts target.bare.text).lookup resource = _ :=
        lookup_only shard observer resource
      cases hheld : (shard.accounts target.bare.text).lookup resource with
      | none =>
        rw [hheld, Option.filter_none] at hlookup
        simp only [hlookup, hheld]
      | some session =>
        cases hgrants : session.grants (.new observer.address) with
        | true =>
          have hsame := hlookup.trans (by rw [hheld, Option.filter_some, if_pos hgrants])
          have hdeliver := deliverWithGuard_congr hpresence htarget hresource (hsame.trans hheld.symm) valid
          simp only [hsame, hheld, hdeliver]
        | false =>
          have hgone := hlookup.trans (by rw [hheld, Option.filter_some, if_neg (by simp [hgrants])])
          rw [grants_eq] at hgrants
          simp only [hgone, hheld, hgrants, hstranger, Bool.not_false, Bool.and_self, if_true, ite_self]

/-- An observer that is neither the account nor subscribed to it is answered as if the account had only the sessions
that have granted it; without such a session, as if the account had none and had never been unavailable. -/
theorem presence_not_disclosed (env : Env) :
    (∀ request target, targetOf request = some target → target.bare.text = account →
      shard.probeFor env observer.address request false =
        (shard.only account observer.address).probeFor env observer.address request false) ∧
    (∀ stanza target valid, senderOf stanza = some observer.address → targetOf stanza = some target →
      target.bare.text = account →
      shard.deliverIqRequest stanza false valid =
        (shard.only account observer.address).deliverIqRequest stanza false valid) ∧
    ((∀ resource session, (shard.accounts account).lookup resource = some session →
      session.grants (.new observer.address) = false) → shard.only account observer.address = shard.without account) := by
  refine ⟨fun request target htarget haccount => ?_, fun stanza target valid hsender htarget haccount => ?_,
    fun hnone => ?_⟩
  · simp only [Shard.probeFor, htarget, probeOwner_only shard observer hother env haccount]
  · exact (deliverIqRequest_only shard observer hother hsender htarget haccount valid).symm
  · have hempty : (shard.accounts account).entries.filter (fun e => e.2.grants (.new observer.address)) = [] := by
      refine List.filter_eq_nil_iff.mpr fun e hmem => ?_
      rw [hnone e.1 e.2 (AList.mem_lookup_iff.mpr hmem)]
      exact Bool.false_ne_true
    simp only [Shard.only, Shard.without, hempty]
    rfl

end Disclosure

/-- Another account, and a shard on which every account has an available session. -/
def romeo : Parts where
  localpart := some "romeo".toList
  domainpart := "m.lit".toList
  resourcepart := none
  localpart_fits := by
    rintro _ ⟨⟩
    exact ⟨by decide, by decide, by decide, by decide⟩
  domainpart_fits := ⟨by decide, by decide, by decide, by decide⟩
  resourcepart_fits := by rintro _ ⟨⟩

def balconies : Shard where
  accounts _ := AList.singleton "balcony".toList ⟨1, true, .room, none, []⟩
  lastUnavailable := []

theorem presence_not_disclosed_romeo : romeo.bareText ≠ "juliet@c.lit".toList ∧
    balconies.only "juliet@c.lit".toList romeo.address = balconies.without "juliet@c.lit".toList := by
  have hother : romeo.bareText ≠ "juliet@c.lit".toList := by decide
  refine ⟨hother, (presence_not_disclosed balconies romeo hother ⟨asciiTables, fun _ => none⟩).2.2 ?_⟩
  intro resource session hlookup
  cases List.mem_singleton.mp (AList.mem_lookup_iff.mp hlookup)
  rfl

end Lonewolf.Router
