import Lonewolf.Roster.State

/-!
# Subscription handlers

`roster/subscription.rs` and the handlers of `roster/mod.rs`: what a subscription stanza, a roster set and an account
deletion do in one write transaction, and what is to be delivered once it has been committed, in the order in which
the source awaits the deliveries.
-/

namespace Lonewolf.Roster

open Texts Transactions

variable {syn : JidSyntax}

/-! ### Errors -/

inductive StanzaErrorCondition where
  | forbidden
  | internalServerError
  | itemNotFound
  | notAcceptable
  | remoteServerNotFound
  | resourceConstraint
  | serviceUnavailable
  deriving DecidableEq, Repr

inductive StanzaErrorText where
  | static (text : String)
  | limit (before : String) (max : Nat) (after : String)
  | twoLimits (parts : List String) (values : Nat × Nat)
  deriving DecidableEq, Repr

inductive HandlerError where
  | stanza (condition : StanzaErrorCondition)
  | described (condition : StanzaErrorCondition) (text : StanzaErrorText)
  | internal (condition : StanzaErrorCondition) (kind : StorageErrorKind) (operation : String)
  deriving DecidableEq, Repr

def rosterError (operation : String) : RosterError → HandlerError
  | .valueTooLarge => .described .notAcceptable
      (.static "A roster value is too large. Shorten the contact name or group names.")
  | .pendingLimitExceeded => .described .resourceConstraint
      (.static ("The recipient's pending subscription request limit has been reached. " ++
        "Retry after the recipient handles pending requests."))
  | .quotaExceeded => .described .resourceConstraint
      (.static ("The roster exceeds its contact count, stored byte, or group limit. " ++
        "Remove contacts or reduce contact and group data."))
  | .noAccount => .stanza .forbidden
  | .storage kind => .internal .internalServerError kind operation

def rosterQuotaError (operation : String) (quota : RosterQuota) : RosterError → HandlerError
  | .quotaExceeded => .described .resourceConstraint
      (.twoLimits ["The roster exceeds its quota of ", " contacts or ",
        " stored bytes. Remove contacts or reduce contact and group data."] (quota.maxItems, quota.maxBytes))
  | e => rosterError operation e

/-- The error of a request that the contact has no room for. -/
def requestError (max : Nat) : RosterError → HandlerError
  | .pendingLimitExceeded => .described .resourceConstraint
      (.limit "The recipient's pending subscription request limit of " max
        " has been reached. Retry after the recipient handles pending requests.")
  | e => rosterError "roster_write" e

abbrev HandlerTx (α : Type) : Type := Tx Write HandlerError α

/-- A roster operation in a handler, with its error as the handler's. -/
def perform {α : Type} (x : WriteTx α) : HandlerTx α := x.mapError (rosterError "roster_write")

def peek {α : Type} (f : Tables → Except RosterError α) : HandlerTx α :=
  (query f).mapError (rosterError "roster_read")

def accountExists (account : AccountKey syn) : HandlerTx Bool :=
  Tx.read fun w => .ok (decide (account.text ∈ w.tables.accounts))

/-- A session that outlives its account must not repopulate roster state. -/
def requireAccount (account : AccountKey syn) : HandlerTx Unit := do
  if ← accountExists account then return () else throw (.stanza .forbidden)

/-! ### Deliveries -/

inductive SubscriptionKind where
  | subscribe
  | subscribed
  | unsubscribe
  | unsubscribed
  deriving DecidableEq, Repr

/-- A subscription stanza between two bare JIDs. -/
structure SubscriptionStanza (syn : JidSyntax) where
  kind : SubscriptionKind
  sender : AccountKey syn
  target : AccountKey syn
  deriving DecidableEq

inductive Effect (syn : JidSyntax) where
  | toRemote (stanza : SubscriptionStanza syn)
  | toAvailable (stanza : SubscriptionStanza syn)
  | toInterested (stanza : SubscriptionStanza syn)
  | push (owner : AccountKey syn) (mutation : RosterMutation (RosterItem syn))
  | pushRemoval (owner : AccountKey syn) (contact : RosterJid syn) (version : Nat)
  | currentPresence (owner contact : AccountKey syn)
  | unavailablePresence (owner contact : AccountKey syn)
  | retireInterested (owner : AccountKey syn)
  | routeRemote (kind : SubscriptionKind) (sender : AccountKey syn) (target : RosterJid syn)
  deriving DecidableEq

def pushChange (owner : AccountKey syn) : ItemMutation syn → List (Effect syn)
  | some (.push mutation) => [.push owner mutation]
  | some (.unavailable _) => [.retireInterested owner]
  | none => []

/-- `push_change` after `Retirements::extract`: a change that cannot be pushed is left to the end. -/
def pushNow (owner : AccountKey syn) : ItemMutation syn → List (Effect syn)
  | some (.push mutation) => [.push owner mutation]
  | _ => []

/-- `Retirements`: the accounts whose change could not be pushed, each once. -/
def retirements (changes : List (AccountKey syn × ItemMutation syn)) : List (Effect syn) :=
  ((changes.filterMap fun (owner, change) =>
    match change with
    | some (.unavailable _) => some owner
    | _ => none).eraseDups).map .retireInterested

def approvalReply (stanza : SubscriptionStanza syn) : SubscriptionStanza syn :=
  ⟨.subscribed, stanza.target, stanza.sender⟩

def deliverIf (c : Bool) (effect : Effect syn) : List (Effect syn) := if c then [effect] else []

/-! ### Sending -/

inductive PresenceSend (syn : JidSyntax) where
  | continue'
  | handled (effects : List (Effect syn))

section Handlers

variable (limits : Limits) (hosts : HostLookup)

/-- The update that a stanza to a remote contact makes; the grant is decided by the caller. -/
def remoteUpdate (owner : AccountKey syn) (contact : RosterJid syn) (grant : Bool) :
    SubscriptionKind → WriteTx (ItemMutation syn)
  | .subscribe => updateSubscription limits owner contact setPendingOut
  | .unsubscribe => updateExistingSubscription limits owner contact withdrawOutbound
  | .subscribed =>
    if grant then resolvePending limits owner contact grantApproved
    else updateSubscription limits owner contact preApprove
  | .unsubscribed => do return (← cancelSubscription limits owner contact none).grantor

def sendRemoteSubscription (owner : AccountKey syn) (target : RosterJid syn) (kind : SubscriptionKind) :
    HandlerTx (PresenceSend syn) := do
  match AccountKey.ofRosterJid? target with
  | none => throw (.stanza .serviceUnavailable)
  | some contact =>
    requireAccount owner
    let current ← peek fun t => t.rosterSubscription owner contact.jid
    let pending ← peek fun t => .ok (t.pendingRequestExists owner contact.jid)
    let route := match kind with
      | .subscribe | .unsubscribe => true
      | .subscribed => pending && !granted current
      | .unsubscribed => pending || granted current
    let grant := kind == .subscribed && route
    let mutation ← perform (remoteUpdate limits owner contact.jid grant kind)
    return .handled
      (deliverIf route (.toRemote ⟨kind, owner, contact⟩) ++ pushNow owner mutation ++
        deliverIf grant (.currentPresence owner contact) ++
        deliverIf (kind == .unsubscribed && granted current) (.unavailablePresence owner contact) ++
        retirements [(owner, mutation)])

/-- The pre-approval of a contact is withdrawn. -/
def dropApproval (subscription : RosterSubscription) : Option RosterSubscription :=
  if subscription.approved then some { subscription with approved := false } else none

/-- The changes that the sender's side of a local stanza makes on its own; absent when the stanza goes on
to the receiver. -/
def localUpdate (owner : AccountKey syn) (contact : RosterJid syn) (granted pending : Bool) :
    SubscriptionKind → Option (WriteTx (ItemMutation syn))
  | .subscribed =>
    if granted then some (return none)
    else if !pending then some (updateSubscription limits owner contact preApprove)
    else none
  | .unsubscribed =>
    if !granted && !pending then some (updateExistingSubscription limits owner contact dropApproval)
    else none
  | .subscribe | .unsubscribe => none

/-- `send_subscription`; `full` tells that the target has a resource. -/
def sendSubscription (owner : AccountKey syn) (target : RosterJid syn) (full : Bool)
    (kind : SubscriptionKind) : HandlerTx (PresenceSend syn) :=
  if hosts.federates owner.domain && !hosts.isLocalHost target.domain then
    sendRemoteSubscription limits owner target kind
  else if (kind == .subscribe || kind == .unsubscribe) || !hasUsername target.text || full then
    return .continue'
  else do
    requireAccount owner
    let item ← peek fun t => t.rosterSubscription owner target
    let pending ← peek fun t => .ok (t.pendingRequestExists owner target)
    match localUpdate limits owner target (granted item) pending kind with
    | none => return .continue'
    | some update =>
      let mutation ← perform update
      return .handled (pushNow owner mutation ++ retirements [(owner, mutation)])

/-! ### Receiving from a local sender -/

def checkParties (sender target : AccountKey syn) : HandlerTx Bool := do
  requireAccount sender
  accountExists target

/-- The deliveries of a request, by its outcome. -/
def requestEffects (sender target : AccountKey syn) (stanza : SubscriptionStanza syn) :
    RequestOutcome syn → List (Effect syn)
  | .pending change =>
    .toAvailable stanza :: (pushNow sender change ++ retirements [(sender, change)])
  | .autoApproved (some change) =>
    .toInterested (approvalReply stanza) :: (pushNow sender (some change) ++
      [.currentPresence target sender] ++ retirements [(sender, some change)])
  | .preApproved grantor requester =>
    pushNow target grantor ++ [.toInterested (approvalReply stanza)] ++ pushNow sender requester ++
      [.currentPresence target sender] ++ retirements [(target, grantor), (sender, requester)]
  | .autoApproved none | .contactMissing => []

def receiveRequest (sender target : AccountKey syn) (stored : Bytes) : HandlerTx (List (Effect syn)) := do
  if ← checkParties sender target then
    let outcome ← (requestSubscription limits sender target stored).mapError
      (requestError (limits target.domain).maxPendingSubscriptionRequests)
    match outcome with
    | .contactMissing => throw (.stanza .serviceUnavailable)
    | outcome => return requestEffects sender target ⟨.subscribe, sender, target⟩ outcome
  else throw (.stanza .serviceUnavailable)

/-- The storage part of `approve_subscription`: an approval with no request to resolve is kept as a
pre-approval. -/
def approveParties (sender target : AccountKey syn) :
    WriteTx (ItemMutation syn × ItemMutation syn × ItemMutation syn) := do
  let targetMutation ← updateSubscription limits target sender.jid approvePendingOut
  let senderMutation ← resolvePending limits sender target.jid grant
  match senderMutation with
  | some change => return (targetMutation, some change, none)
  | none =>
    let preApproval ← updateSubscription limits sender target.jid preApprove
    return (targetMutation, none, preApproval)

def receiveApproval (sender target : AccountKey syn) : HandlerTx (List (Effect syn)) := do
  if ← checkParties sender target then
    let (targetMutation, senderMutation, preApproval) ← perform (approveParties limits sender target)
    return deliverIf targetMutation.isSome (.toInterested ⟨.subscribed, sender, target⟩) ++
      pushNow target targetMutation ++ pushNow sender senderMutation ++
      deliverIf senderMutation.isSome (.currentPresence sender target) ++ pushNow sender preApproval ++
      retirements [(target, targetMutation), (sender, senderMutation), (sender, preApproval)]
  else return []

def receiveCancellation (sender target : AccountKey syn) : HandlerTx (List (Effect syn)) := do
  let subscriberExists ← checkParties sender target
  let outcome ← perform
    (cancelSubscription limits sender target.jid (if subscriberExists then some target else none))
  return deliverIf outcome.sendUnavailable (.unavailablePresence sender target) ++
    deliverIf outcome.route (.toInterested ⟨.unsubscribed, sender, target⟩) ++
    pushNow target outcome.subscriber ++ pushNow sender outcome.grantor ++
    retirements [(target, outcome.subscriber), (sender, outcome.grantor)]

def receiveWithdrawal (sender target : AccountKey syn) : HandlerTx (List (Effect syn)) := do
  let contactExists ← checkParties sender target
  let outcome ← perform
    (unsubscribe limits sender target.jid (if contactExists then some target else none))
  return deliverIf outcome.notifyContact (.toInterested ⟨.unsubscribe, sender, target⟩) ++
    pushNow target outcome.contact ++ pushNow sender outcome.subscriber ++
    deliverIf outcome.sendUnavailable (.unavailablePresence target sender) ++
    retirements [(target, outcome.contact), (sender, outcome.subscriber)]

/-! ### Receiving from a remote sender -/

/-- What `receive_remote` decides to deliver besides the change of the item. -/
structure RemoteOutcome (syn : JidSyntax) where
  deliver : Bool := false
  approve : Bool := false
  cancel : Bool := false
  currentPresence : Bool := false
  unavailablePresence : Bool := false
  mutation : ItemMutation syn := none

/-- The contact's item without its grant, written even when it is the same. -/
def revoke (subscription : RosterSubscription) : Option RosterSubscription :=
  some { subscription with state := withoutFrom subscription.state }

/-- The storage part of `receive_remote`, by the kind of stanza and the owner's current subscription. -/
def remoteOutcome (owner : AccountKey syn) (contact : RosterJid syn) (stored : Bytes)
    (current : RosterSubscription) : SubscriptionKind → WriteTx (RemoteOutcome syn)
  | .subscribe =>
    if grants current.state then return { approve := true }
    else if current.approved then do
      let mutation ← updateExistingSubscription limits owner contact grantApproved
      return { approve := true, currentPresence := true, mutation := mutation }
    else do
      let pending ← query fun t => .ok (t.pendingRequestExists owner contact)
      if pending then return {}
      else
        putPendingRequest owner ⟨contact, stored⟩ (limits owner.domain).maxPendingSubscriptionRequests
        return { deliver := true }
  | .subscribed => do
      let mutation ← updateExistingSubscription limits owner contact approvePendingOut
      return { deliver := mutation.isSome, mutation := mutation }
  | .unsubscribe => do
      let removed ← removePendingRequest owner contact
      let deliver := removed || grants current.state
      let mutation ← updateOther limits (some owner) (grants current.state) contact revoke
      return {
        deliver := deliver, cancel := deliver, unavailablePresence := grants current.state
        mutation := mutation }
  | .unsubscribed => do
      let mutation ← updateExistingSubscription limits owner contact withdrawOutbound
      return { deliver := mutation.isSome, mutation := mutation }

def remoteEffects (stanza : SubscriptionStanza syn) (outcome : RemoteOutcome syn) : List (Effect syn) :=
  deliverIf (!outcome.approve && outcome.deliver)
      (if stanza.kind = .subscribe then .toAvailable stanza else .toInterested stanza) ++
    pushChange stanza.target outcome.mutation ++
    deliverIf outcome.approve (.toRemote (approvalReply stanza)) ++
    deliverIf outcome.cancel (.toRemote ⟨.unsubscribed, stanza.target, stanza.sender⟩) ++
    deliverIf outcome.currentPresence (.currentPresence stanza.target stanza.sender) ++
    deliverIf outcome.unavailablePresence (.unavailablePresence stanza.target stanza.sender)

/-- `receive_remote`. A sender without a username has no account and changes nothing. -/
def receiveRemote (sender target : RosterJid syn) (kind : SubscriptionKind) (stored : Bytes) :
    HandlerTx (List (Effect syn)) :=
  match AccountKey.ofRosterJid? sender, AccountKey.ofRosterJid? target with
  | none, _ => return []
  | _, none => throw (.stanza .serviceUnavailable)
  | some contact, some owner => do
      if ← accountExists owner then
        let current ← peek fun t => t.rosterSubscription owner contact.jid
        let outcome ← perform (remoteOutcome limits owner contact.jid stored (current.getD {}) kind)
        return remoteEffects ⟨kind, contact, owner⟩ outcome
      else return []

/-- `receive`, for the subscription kinds: remote senders apart, both parties are accounts here. -/
def receive (sender target : RosterJid syn) (kind : SubscriptionKind) (stored : Bytes) :
    HandlerTx (List (Effect syn)) :=
  if hosts.federates target.domain && !hosts.isLocalHost sender.domain then
    receiveRemote limits sender target kind stored
  else
    match AccountKey.ofRosterJid? sender, AccountKey.ofRosterJid? target with
    | none, _ => throw (.stanza .internalServerError)
    | _, none => throw (.stanza .serviceUnavailable)
    | some sender, some target =>
      match kind with
      | .subscribe => receiveRequest limits sender target stored
      | .subscribed => receiveApproval limits sender target
      | .unsubscribed => receiveCancellation limits sender target
      | .unsubscribe => receiveWithdrawal limits sender target

/-! ### Roster sets -/

variable (owner : AccountKey syn) (jid : RosterJid syn)

/-- `set` with an update: the item keeps its subscription. -/
def setItem (name : Option Text) (groups : List Text) :
    HandlerTx (List (Effect syn)) := do
  requireAccount owner
  let current ← perform (query fun t => t.rosterSubscription owner jid)
  let item : RosterItem syn := ⟨jid, name, groups, current.getD {}⟩
  if maxGroupsPerItem < item.groups.length then
    throw (.described .resourceConstraint
      (.limit "A roster contact can have at most " maxGroupsPerItem
        " groups. Remove groups from this contact."))
  else
    let version ← (putRosterItem owner item (quota limits owner)).mapError
      (rosterQuotaError "roster_write" (quota limits owner))
    return [.push owner ⟨version, item⟩]

def localCandidate : Option (AccountKey syn) :=
  (AccountKey.ofRosterJid? jid).filter fun account => hosts.isLocalHost account.domain

/-- `stored_local_account`, in the tables of a snapshot or of the transaction. -/
def storedLocalAccount (t : Tables) (jid : RosterJid syn) : Option (AccountKey syn) :=
  (localCandidate hosts jid).filter fun account => decide (account.text ∈ t.accounts)

def federatedContact : Option (AccountKey syn) :=
  if hosts.federates owner.domain && jid.text.contains '@' && !hosts.isLocalHost jid.domain then
    AccountKey.ofRosterJid? jid
  else none

def notifyRemovedRemoteContact (contact : AccountKey syn) (subscription : RosterSubscription) (pending : Bool) :
    List (Effect syn) :=
  deliverIf (grants subscription.state) (.unavailablePresence owner contact) ++
    deliverIf (subscribedTo subscription.state || subscription.pendingOut)
      (.toRemote ⟨.unsubscribe, owner, contact⟩) ++
    deliverIf (grants subscription.state || pending) (.toRemote ⟨.unsubscribed, owner, contact⟩)

def notifyRemovedContact (contact : AccountKey syn) (removal : Removal syn) : List (Effect syn) :=
  deliverIf (grants removal.subscription.state) (.unavailablePresence owner contact) ++
    deliverIf (granted removal.contactBefore) (.toInterested ⟨.unsubscribe, owner, contact⟩) ++
    deliverIf (grants removal.subscription.state || removal.pendingRequest)
      (.toInterested ⟨.unsubscribed, owner, contact⟩) ++
    pushNow contact removal.contact

/-- The deliveries of `remove_item`: withdraw and cancel in the same order as separate requests. -/
def removalEffects (contact : RosterJid syn) (contactAccount : Option (AccountKey syn)) (removal : Removal syn) :
    List (Effect syn) :=
  (match federatedContact hosts owner contact with
    | some remote => notifyRemovedRemoteContact owner remote removal.subscription removal.pendingRequest
    | none => []) ++
  [.pushRemoval owner contact removal.version] ++
  match contactAccount with
  | some account =>
    notifyRemovedContact owner account removal ++
      deliverIf (granted removal.contactBefore) (.unavailablePresence account owner) ++
      retirements [(account, removal.contact)]
  | none => []

def removeContact (contact : RosterJid syn) : HandlerTx (List (Effect syn)) := do
  requireAccount owner
  let contactAccount ← Tx.read fun w => .ok (storedLocalAccount hosts w.tables contact)
  let removal ← perform (removeItem limits owner contact contactAccount)
  match removal with
  | none => throw (.stanza .itemNotFound)
  | some removal => return removalEffects hosts owner contact contactAccount removal

end Handlers

end Lonewolf.Roster
