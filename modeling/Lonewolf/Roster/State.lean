import Lonewolf.Roster.Storage

/-!
# Subscription state transitions

`roster/state.rs`: the functions that change one side or both sides of a subscription in one write transaction. A
change of an item keeps its name and groups; an item that is too large to be read under the owner's quota is changed
in its header only, and is then not pushed to the owner's sessions.
-/

namespace Lonewolf.Roster

open Texts Transactions

variable {syn : JidSyntax}

/-- `RosterLimits` of one host. -/
structure RosterLimits where
  quota : RosterQuota := .default
  maxPendingSubscriptionRequests : Nat := 100

/-- The limits of each host, by domain. -/
abbrev Limits := Text → RosterLimits

inductive ItemChange (syn : JidSyntax) where
  | push (mutation : RosterMutation (RosterItem syn))
  | unavailable (version : Nat)
  deriving DecidableEq

abbrev ItemMutation (syn : JidSyntax) := Option (ItemChange syn)

/-! ### Transitions of one side -/

def grants : SubscriptionState → Bool
  | .from' | .both => true
  | _ => false

def subscribedTo : SubscriptionState → Bool
  | .to | .both => true
  | _ => false

def withoutFrom : SubscriptionState → SubscriptionState
  | .from' => .none
  | .both => .to
  | state => state

def withoutTo : SubscriptionState → SubscriptionState
  | .to => .none
  | .both => .from'
  | state => state

def bareItem (jid : RosterJid syn) : RosterItem syn := ⟨jid, none, [], {}⟩

/-- The state once the other side has approved; absent when it already had. -/
def approvedState : SubscriptionState → Option SubscriptionState
  | .none => some .to
  | .from' => some .both
  | .to | .both => none

def approvePendingOut (subscription : RosterSubscription) : Option RosterSubscription :=
  if subscription.pendingOut then
    (approvedState subscription.state).map fun state =>
      { subscription with state := state, pendingOut := false }
  else none

def preApprove (subscription : RosterSubscription) : Option RosterSubscription :=
  if grants subscription.state || subscription.approved then none
  else some { subscription with approved := true }

def setPendingOut (subscription : RosterSubscription) : Option RosterSubscription :=
  if subscription.pendingOut || subscribedTo subscription.state then none
  else some { subscription with pendingOut := true }

variable (old : RosterSubscription)

/-- A change is reported only when it is one. -/
def whenChanged (subscription : RosterSubscription) : Option RosterSubscription :=
  if subscription ≠ old then some subscription else none

def withdrawOutbound : Option RosterSubscription :=
  whenChanged old { old with state := withoutTo old.state, pendingOut := false }

def grant (subscription : RosterSubscription) : Option RosterSubscription :=
  match subscription.state with
  | .none => some { subscription with state := .from' }
  | .to => some { subscription with state := .both }
  | .from' | .both => none

/-- A grant that uses up the pre-approval. -/
def grantApproved (subscription : RosterSubscription) : Option RosterSubscription :=
  (grant subscription).map fun granted => { granted with approved := false }

/-! ### Updates of one item -/

section Updates

variable (limits : Limits) (owner : AccountKey syn) (jid : RosterJid syn)

def quota : RosterQuota := (limits owner.domain).quota

/-- The end of `write_subscription`: the item is put with its subscription. -/
def putItem (item : RosterItem syn) (subscription : RosterSubscription) : WriteTx (ItemMutation syn) := do
  let item := { item with subscription := subscription }
  let version ← putRosterItem owner item (quota limits owner)
  return some (.push ⟨version, item⟩)

/-- `write_subscription` for an item that is there. -/
def rewriteItem (expected subscription : RosterSubscription) : WriteTx (ItemMutation syn) := do
  let found ← Tx.outcome (query fun t => t.rosterItem owner jid (quota limits owner))
  match found with
  | .ok (some item) => putItem limits owner item subscription
  | .ok none => throw corrupt
  | .error .quotaExceeded =>
    let version ← transitionRosterSubscription owner jid expected subscription
    match version with
    | some version => return some (.unavailable version)
    | none => throw corrupt
  | .error e => throw e

variable (update : RosterSubscription → Option RosterSubscription)

/-- The subscription to write, if it differs from the current one. -/
def changeOf (current : Option RosterSubscription)
    (update : RosterSubscription → Option RosterSubscription) : Option RosterSubscription :=
  match update (current.getD {}) with
  | none => none
  | some subscription => if current = some subscription then none else some subscription

def writeSubscription (current : Option RosterSubscription)
    (update : RosterSubscription → Option RosterSubscription) : WriteTx (ItemMutation syn) :=
  match changeOf current update with
  | none => return none
  | some subscription =>
    match current with
    | none => putItem limits owner (bareItem jid) subscription
    | some expected => rewriteItem limits owner jid expected subscription

def updateSubscription :
    WriteTx (ItemMutation syn) := do
  let current ← query fun t => t.rosterSubscription owner jid
  writeSubscription limits owner jid current update

def updateExistingSubscription :
    WriteTx (ItemMutation syn) := do
  let current ← query fun t => t.rosterSubscription owner jid
  match current with
  | none => return none
  | some current => writeSubscription limits owner jid (some current) update

/-- `resolve_pending`: storage is unchanged when no request was pending. -/
def resolvePending :
    WriteTx (ItemMutation syn) := do
  let removed ← removePendingRequest owner jid
  if removed then updateSubscription limits owner jid update else return none

end Updates

/-! ### Transitions of both sides -/

inductive RequestOutcome (syn : JidSyntax) where
  | autoApproved (approved : ItemMutation syn)
  | preApproved (grantor requester : ItemMutation syn)
  | pending (push : ItemMutation syn)
  | contactMissing
  deriving DecidableEq

structure Cancellation (syn : JidSyntax) where
  route : Bool
  sendUnavailable : Bool
  grantor : ItemMutation syn
  subscriber : ItemMutation syn

structure Withdrawal (syn : JidSyntax) where
  notifyContact : Bool
  sendUnavailable : Bool
  subscriber : ItemMutation syn
  contact : ItemMutation syn

structure Removal (syn : JidSyntax) where
  version : Nat
  subscription : RosterSubscription
  pendingRequest : Bool
  contactBefore : Option RosterSubscription
  contact : ItemMutation syn

/-- The requester's side when the contact had approved in advance. -/
def approveAtOnce (subscription : RosterSubscription) : Option RosterSubscription :=
  (approvedState subscription.state).map fun state =>
    { subscription with state := state, pendingOut := false }

def granted (current : Option RosterSubscription) : Bool := current.any fun item => grants item.state

section Pairs

variable (limits : Limits)

def requestSubscription (requester contact : AccountKey syn) (stanza : Bytes) :
    WriteTx (RequestOutcome syn) := do
  let contactView ← query fun t => t.rosterSubscription contact requester.jid
  if granted contactView then
    return .autoApproved
      (← updateExistingSubscription limits requester contact.jid approvePendingOut)
  else if contactView.any RosterSubscription.approved then
    let grantor ← updateExistingSubscription limits contact requester.jid grantApproved
    let requester ← updateSubscription limits requester contact.jid approveAtOnce
    return .preApproved grantor requester
  else
    let stored ← Tx.outcome (putPendingRequest contact ⟨requester.jid, stanza⟩
      (limits contact.domain).maxPendingSubscriptionRequests)
    match stored with
    | .ok () => return .pending (← updateSubscription limits requester contact.jid setPendingOut)
    | .error .noAccount => return .contactMissing
    | .error e => throw e

/-- The grantor's item after a cancellation; `both` when it is the subscriber's item as well. -/
def cancelled (both : Bool) (old : RosterSubscription) : Option RosterSubscription :=
  whenChanged old
    { state := if both then withoutTo (withoutFrom old.state) else withoutFrom old.state
      pendingOut := !both && old.pendingOut
      approved := false }

/-- An update of the other side's item, when there is another side to update. -/
def updateOther (other : Option (AccountKey syn)) (apply : Bool) (jid : RosterJid syn)
    (update : RosterSubscription → Option RosterSubscription) : WriteTx (ItemMutation syn) :=
  match other with
  | some account =>
    if apply then updateExistingSubscription limits account jid update else return none
  | none => return none

/-- `cancel_subscription`: `subscriber` is the contact's local account. -/
def cancelSubscription (grantor : AccountKey syn) (contact : RosterJid syn)
    (subscriber : Option (AccountKey syn)) : WriteTx (Cancellation syn) := do
  let pending ← removePendingRequest grantor contact
  let current ← query fun t => t.rosterSubscription grantor contact
  let route := subscriber.isSome && (pending || granted current)
  let sameItem := subscriber == some grantor
  let grantorMutation ← updateExistingSubscription limits grantor contact (cancelled (sameItem && route))
  let subscriberMutation ← updateOther limits subscriber (route && !sameItem) grantor.jid withdrawOutbound
  return ⟨route, route && granted current, grantorMutation, subscriberMutation⟩

/-- The subscriber's item after a withdrawal; `both` when it is the contact's item as well. -/
def withdrawn (both : Bool) (old : RosterSubscription) : Option RosterSubscription :=
  whenChanged old
    { old with
      state := if both then withoutFrom (withoutTo old.state) else withoutTo old.state
      pendingOut := false }

/-- The contact's item without its grant. -/
def ungranted : Option RosterSubscription :=
  whenChanged old { old with state := withoutFrom old.state }

/-- The first half of `unsubscribe`: the request is retracted, and the grant is read. -/
def retractRequest (subscriber : AccountKey syn) (recipient : Option (AccountKey syn)) : WriteTx (Bool × Bool) :=
  match recipient with
  | some account => do
      let removed ← removePendingRequest account subscriber.jid
      let current ← query fun t => t.rosterSubscription account subscriber.jid
      return (removed, granted current)
  | none => return (false, false)

/-- `unsubscribe`: `recipient` is the contact's local account. -/
def unsubscribe (subscriber : AccountKey syn) (contact : RosterJid syn)
    (recipient : Option (AccountKey syn)) : WriteTx (Withdrawal syn) := do
  let sameItem := recipient == some subscriber
  let (pendingRemoved, priorGrant) ← retractRequest subscriber recipient
  let subscriberMutation ←
    updateExistingSubscription limits subscriber contact (withdrawn (sameItem && priorGrant))
  let contactMutation ← updateOther limits recipient (priorGrant && !sameItem) subscriber.jid ungranted
  return ⟨pendingRemoved || priorGrant, priorGrant, subscriberMutation, contactMutation⟩

/-- The contact's item once the owner has removed the contact: its pre-approval is the contact's own. -/
def cleared : Option RosterSubscription :=
  whenChanged old { state := .none, pendingOut := false, approved := old.approved }

/-- The contact's side of `remove_item`. -/
def clearContact (owner : AccountKey syn) (contactAccount : Option (AccountKey syn)) :
    WriteTx (Option RosterSubscription × ItemMutation syn) :=
  match contactAccount with
  | some account =>
    if account = owner then return (none, none)
    else do
      let _ ← removePendingRequest account owner.jid
      let before ← query fun t => t.rosterSubscription account owner.jid
      return (before, ← updateExistingSubscription limits account owner.jid cleared)
  | none => return (none, none)

/-- `remove_item`: an absent item leaves storage unchanged. -/
def removeItem (owner : AccountKey syn) (contact : RosterJid syn) (contactAccount : Option (AccountKey syn)) :
    WriteTx (Option (Removal syn)) := do
  let removed ← removeRosterSubscription owner contact
  match removed with
  | none => return none
  | some removed =>
    let pendingRequest ← removePendingRequest owner contact
    let (contactBefore, contactMutation) ← clearContact limits owner contactAccount
    return some ⟨removed.version, removed.value, pendingRequest, contactBefore, contactMutation⟩

end Pairs

end Lonewolf.Roster
