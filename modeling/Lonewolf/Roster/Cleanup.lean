import Lonewolf.Base.Cursor
import Lonewolf.Roster.Subscription

/-!
# Account deletion

`forget_account` of `roster/subscription.rs`: the roster of a deleted account is taken apart through two cursor loops
over a snapshot from before the deletion, one over its items and one over the requests stored for it. Each round
clears the account's rows about a contact and patches the header of the contact's item to what it becomes. After the
commit the snapshot is read again for what is to be delivered.
-/

namespace Lonewolf.Roster

open Transactions Cursors

variable {syn : JidSyntax}

/-- What `cleanup_projection` makes of the contact's subscription: all of it goes when the owner had an
item for the contact, and only the contact's outbound part when there was but a request. -/
def projected (owner : Option RosterSubscription) (old : RosterSubscription) : RosterSubscription :=
  match owner with
  | some _ => { state := .none, pendingOut := false, approved := old.approved }
  | none => { state := withoutTo old.state, pendingOut := false, approved := old.approved }

structure CleanupProjection where
  owner : Option RosterSubscription
  pending : Bool
  counterpart : Option RosterSubscription
  changed : Option RosterSubscription

def cleanupProjection (owner : Option RosterSubscription) (pending : Bool)
    (counterpart : Option RosterSubscription) : CleanupProjection :=
  ⟨owner, pending, counterpart, counterpart.bind fun old => whenChanged old (projected owner old)⟩

def cleanupVersion (before : Tables) (contact : AccountKey syn) : Except RosterError Nat :=
  orTooLarge (checkedAdd (before.rosterVersion contact) 1)

/-- The change of the contact's item in `prepare_cleanup`. -/
def patchCounterpart (before : Tables) (owner account : AccountKey syn)
    (changed : Option RosterSubscription) : WriteTx Unit :=
  match changed with
  | none => return ()
  | some subscription => do
      let expected ← query fun _ => cleanupVersion before account
      let actual ← setRosterSubscription before account owner.jid subscription
      if actual = some expected then return () else throw corrupt

/-- The contact's part of `prepare_cleanup`. -/
def cleanupCounterpart (before : Tables) (owner : AccountKey syn) (projection : CleanupProjection)
    (counterpart : Option (AccountKey syn)) : WriteTx Unit :=
  match counterpart with
  | none => return ()
  | some account => do
      if projection.owner.isSome then
        let _ ← removePendingRequest account owner.jid
        patchCounterpart before owner account projection.changed
      else patchCounterpart before owner account projection.changed

def prepareCleanup (before : Tables) (owner : AccountKey syn) (contact : RosterJid syn)
    (projection : CleanupProjection) (counterpart : Option (AccountKey syn)) : WriteTx Unit := do
  if projection.owner.isSome then
    let _ ← removeRosterSubscription owner contact
    let _ ← removePendingRequest owner contact
    cleanupCounterpart before owner projection counterpart
  else
    let _ ← removePendingRequest owner contact
    cleanupCounterpart before owner projection counterpart

section Forget

variable (limits : Limits) (hosts : HostLookup) (before : Tables) (account : AccountKey syn)

/-- The contact's account, when it is another local account. -/
def counterpartOf (contact : RosterJid syn) : Option (AccountKey syn) :=
  (storedLocalAccount hosts before contact).filter fun other => other ≠ account

/-- The contact's subscription to the account. -/
def counterpartView (counterpart : Option (AccountKey syn)) : Except RosterError (Option RosterSubscription) :=
  match counterpart with
  | some other => before.rosterSubscription other account.jid
  | none => .ok none

def forgetItem (contact : RosterJid syn) (subscription : RosterSubscription) : WriteTx Unit := do
  let counterpart := counterpartOf hosts before account contact
  let other ← query fun _ => counterpartView before account counterpart
  let pending := before.pendingRequestExists account contact
  prepareCleanup before account contact (cleanupProjection (some subscription) pending other) counterpart

/-- A round of the second loop: a sender that has an item was visited by the first. -/
def forgetRequest (sender : RosterJid syn) : WriteTx Unit := do
  let own ← query fun _ => before.rosterSubscription account sender
  match own with
  | some _ => return ()
  | none =>
    let counterpart := counterpartOf hosts before account sender
    let other ← query fun _ => counterpartView before account counterpart
    prepareCleanup before account sender (cleanupProjection none true other) counterpart

/-- The sender after the cursor, as an entry without a value. -/
def nextSender (after : Option (RosterJid syn)) : Except RosterError (Option (RosterJid syn × Unit)) := do
  return (← before.nextPendingSender account after).map fun sender => (sender, ())

/-- More rounds than the loops need. -/
def itemRounds : Nat := (ownerEntries before.items account.text).length + 1

def requestRounds : Nat := (ownerEntries before.pending account.text).length + 1

/-- The storage part of `forget_account`. A loop that does not come to its end is an error. -/
def forgetRows : WriteTx Unit := do
  let items ← forEachAfter (fun after => before.nextRosterSubscription account after)
    (fun contact subscription => forgetItem hosts before account contact subscription)
    (itemRounds before account) none
  let requests ← forEachAfter (fun after => nextSender before account after)
    (fun sender _ => forgetRequest hosts before account sender) (requestRounds before account) none
  if items && requests then clearRoster account else throw (.storage .other)

/-! ### Deliveries after a deletion -/

abbrev Replay (syn : JidSyntax) (α : Type) : Type := Tx (List (Effect syn)) RosterError α

def deliver (effects : List (Effect syn)) : Replay syn Unit := Tx.write fun done => ((), done ++ effects)

/-- The push that `replay_cleanup_push` reconstructs. -/
def replayedPush (contact : AccountKey syn) (subscription : RosterSubscription) :
    Except RosterError (RosterMutation (RosterItem syn)) := do
  let version ← cleanupVersion before contact
  let item ← orCorrupt (← before.rosterItem contact account.jid (quota limits contact))
  return ⟨version, { item with subscription := subscription }⟩

/-- `replay_cleanup_push`: without the item, the contact's sessions have to ask again. An error other than
the quota is reported after the loops. -/
def replayCleanupPush (contact : AccountKey syn) (changed : Option RosterSubscription) : List (Effect syn) :=
  match changed with
  | none => []
  | some subscription =>
    match replayedPush limits before account contact subscription with
    | .ok mutation => [.push contact mutation]
    | .error _ => [.retireInterested contact]

def replayItem (contact : RosterJid syn) (subscription : RosterSubscription) : Replay syn Unit := do
  let pending := before.pendingRequestExists account contact
  match counterpartOf hosts before account contact with
  | some counterpart =>
    let other ← Tx.read fun _ => before.rosterSubscription counterpart account.jid
    let projection := cleanupProjection (some subscription) pending other
    deliver (notifyRemovedContact account counterpart ⟨0, subscription, pending, other, none⟩ ++
      replayCleanupPush limits before account counterpart projection.changed)
  | none =>
    match federatedContact hosts account contact with
    | some remote => deliver (notifyRemovedRemoteContact account remote subscription pending)
    | none => return ()

def replayRequest (sender : RosterJid syn) : Replay syn Unit := do
  let own ← Tx.read fun _ => before.rosterSubscription account sender
  match own with
  | some _ => return ()
  | none =>
    match counterpartOf hosts before account sender with
    | some counterpart =>
      let other ← Tx.read fun _ => before.rosterSubscription counterpart account.jid
      deliver (.toInterested ⟨.unsubscribed, account, counterpart⟩ ::
        replayCleanupPush limits before account counterpart (cleanupProjection none true other).changed)
    | none =>
      match federatedContact hosts account sender with
      | some remote => deliver (notifyRemovedRemoteContact account remote {} true)
      | none => return ()

def replay : Replay syn Unit := do
  let items ← forEachAfter (fun after => before.nextRosterSubscription account after)
    (fun contact subscription => replayItem limits hosts before account contact subscription)
    (itemRounds before account) none
  let requests ← forEachAfter (fun after => nextSender before account after)
    (fun sender _ => replayRequest limits hosts before account sender) (requestRounds before account) none
  if items && requests then return () else throw (.storage .other)

def forgetAccount : HandlerTx (Replay syn Unit) := do
  (forgetRows hosts before account).mapError (rosterError "roster_cleanup")
  return replay limits hosts before account

end Forget

end Lonewolf.Roster
