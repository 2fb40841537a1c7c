import Lonewolf.Base.SortedTable
import Lonewolf.Base.Transaction
import Lonewolf.Roster.Codec

/-!
# Roster storage

`roster/redb.rs`: the three tables of an owner's roster, the reads of a snapshot and the writes of an open write
transaction. Items and pending requests of all owners share one table each, under keys made of the owner's text, a
NUL and the contact's text; an owner's rows are the keys between `owner ++ "\0"` and `owner ++ "\u{1}"`.

A write transaction holds its tables and those that were committed before it. Failures of the database itself are
left out; every error below is one the code raises.
-/

namespace Lonewolf.Roster

open Texts SortedTables Transactions

variable {syn : JidSyntax}

structure Tables where
  accounts : Finset Text := ∅
  items : SortedTable Text Bytes := ∅
  versions : SortedTable Text Nat := ∅
  pending : SortedTable Text Bytes := ∅
  deriving DecidableEq, Inhabited

/-- An open write transaction: what it works on, and what was committed when it began. -/
structure Write where
  committed : Tables
  tables : Tables
  deriving DecidableEq

/-! ### Keys -/

def itemKeyText (owner : Text) (jid : RosterJid syn) : Text := owner ++ nul :: jid.text

variable (owner : AccountKey syn)

def itemKey (jid : RosterJid syn) : Text := itemKeyText owner.text jid

/-- The character after NUL, which ends an owner's range. -/
def soh : Char := Char.ofNat 1

/-- `owner_range`, as the test whether a key lies in it. -/
def inOwnerRange (owner key : Text) : Bool := decide (owner ++ [nul] ≤ key) && decide (key < owner ++ [soh])

/-- The rows of one owner, in key order. -/
def ownerEntries (table : SortedTable Text Bytes) (owner : Text) : List (Text × Bytes) :=
  (table.filterKeys (inOwnerRange owner)).entries

/-- `decode_jid`. A canonical text holds no NUL, so a text with one is not canonical. -/
def decodeJid (text : Text) : Except RosterError (RosterJid syn) :=
  if h : syn.canonical text = true ∧ nul ∉ text then .ok ⟨text, h.1, h.2⟩ else .error corrupt

def decodeKey (owner key : Text) : Except RosterError (RosterJid syn) :=
  if owner ++ [nul] <+: key then decodeJid (key.drop (owner.length + 1)) else .error corrupt

/-! ### Reads -/

variable {α : Type}

def orQuota : Option α → Except RosterError α
  | some a => .ok a
  | none => .error .quotaExceeded

/-- A byte count with the key and the value of one more row. -/
def addRow (bytes : Nat) (row : Text × Bytes) : Option Nat := do
  checkedAdd (← checkedAdd bytes row.1.byteLen) row.2.length

/-- The loop of `snapshot`, with the number of items and bytes read before. -/
def snapshotItems (owner : Text) (quota : RosterQuota) :
    List (Text × Bytes) → Nat → Nat → Except RosterError (List (RosterItem syn))
  | [], _, _ => .ok []
  | (key, value) :: rows, count, bytes => do
      let bytes ← orQuota (addRow bytes (key, value))
      if quota.maxItems ≤ count ∨ quota.maxBytes < bytes then throw .quotaExceeded
      else
        let jid ← decodeKey owner key
        checkItem value quota
        let item ← decodeItem jid value
        let items ← snapshotItems owner quota rows (count + 1) bytes
        return item :: items

structure RosterSnapshot (syn : JidSyntax) where
  version : Nat
  items : List (RosterItem syn)
  deriving DecidableEq

namespace Tables

variable (t : Tables) (owner : AccountKey syn)

def rosterVersion : Nat := (t.versions.get? owner.text).getD 0

def roster (quota : RosterQuota) :
    Except RosterError (RosterSnapshot syn) := do
  let items ← snapshotItems owner.text quota (ownerEntries t.items owner.text) 0 0
  return ⟨t.rosterVersion owner, items⟩

def rosterItem (jid : RosterJid syn) (quota : RosterQuota) : Except RosterError (Option (RosterItem syn)) :=
  match t.items.get? (itemKey owner jid) with
  | none => .ok none
  | some record =>
    if quota.maxBytes < (itemKey owner jid).byteLen + record.length then .error .quotaExceeded
    else do
      checkItem record quota
      return some (← decodeItem jid record)

def rosterSubscription (jid : RosterJid syn) : Except RosterError (Option RosterSubscription) :=
  match t.items.get? (itemKey owner jid) with
  | none => .ok none
  | some record => return some (← decodeSubscription record)

/-- The first row of an owner after a cursor. -/
def nextRow? (table : SortedTable Text Bytes) (owner : Text) (after : Option (RosterJid syn)) : Option (Text × Bytes) :=
  (ownerEntries table owner).find? fun row => after.all fun jid => decide (itemKeyText owner jid < row.1)

def nextRosterSubscription (after : Option (RosterJid syn)) :
    Except RosterError (Option (RosterJid syn × RosterSubscription)) :=
  match nextRow? t.items owner.text after with
  | none => .ok none
  | some (key, value) => return some (← decodeKey owner.text key, ← decodeSubscription value)

def nextPendingSender (after : Option (RosterJid syn)) : Except RosterError (Option (RosterJid syn)) :=
  match nextRow? t.pending owner.text after with
  | none => .ok none
  | some (key, _) => return some (← decodeKey owner.text key)

def pendingRequestExists (sender : RosterJid syn) : Bool :=
  (t.pending.get? (itemKey owner sender)).isSome

def pendingRequests : Except RosterError (List (PendingSubscription syn)) :=
  (ownerEntries t.pending owner.text).mapM fun row => do return ⟨← decodeKey owner.text row.1, row.2⟩

def pendingRequest (sender : RosterJid syn) : Option (PendingSubscription syn) :=
  (t.pending.get? (itemKey owner sender)).map fun stanza => ⟨sender, stanza⟩

end Tables

/-! ### Admission -/

/-- The loop of `admit_item`, with the rows and bytes counted before; `old` is what the new row replaces. -/
def admitScan (quota : RosterQuota) (old : Nat) : List (Text × Bytes) → Nat → Nat → Except RosterError (Nat × Nat)
  | [], count, bytes => .ok (count, bytes)
  | row :: rows, count, bytes => do
      let count ← orQuota (checkedAdd count 1)
      let bytes ← orQuota (addRow bytes row)
      if quota.maxItems < count ∨ quota.maxBytes < bytes - old then throw .quotaExceeded
      else admitScan quota old rows count bytes

/-- The end of `admit_item`: the totals with the new row in place of the old one. -/
def admitTotals (quota : RosterQuota) (oldBytes : Option Nat) (newBytes count bytes : Nat) :
    Except RosterError Unit := do
  let nextCount ← orQuota (checkedAdd count (if oldBytes.isNone then 1 else 0))
  let kept ← orQuota (if oldBytes.getD 0 ≤ bytes then some (bytes - oldBytes.getD 0) else none)
  let nextBytes ← orQuota (checkedAdd kept newBytes)
  if quota.maxItems < nextCount ∨ quota.maxBytes < nextBytes then throw .quotaExceeded else return ()

/-- `admit_item`: a replacement that does not grow is let through, anything else has to fit. -/
def admitItem (items : SortedTable Text Bytes) (owner key : Text) (encodedLen : Nat)
    (quota : RosterQuota) : Except RosterError Unit := do
  let oldBytes := (items.get? key).map fun old => key.byteLen + old.length
  let newBytes ← orQuota (checkedAdd key.byteLen encodedLen)
  if oldBytes.any (newBytes ≤ ·) then return ()
  else if quota.maxBytes < newBytes then throw .quotaExceeded
  else
    let (count, bytes) ← admitScan quota (oldBytes.getD 0) (ownerEntries items owner) 0 0
    admitTotals quota oldBytes newBytes count bytes

/-! ### Writes -/

abbrev WriteTx (α : Type) : Type := Tx Write RosterError α

def update (f : Tables → Tables) : WriteTx Unit := Tx.write fun w => ((), { w with tables := f w.tables })

def query (f : Tables → Except RosterError α) : WriteTx α := Tx.read fun w => f w.tables

/-- `account_exists`, turned into the error of the writes that need the account. -/
def checkAccount (owner : Text) : WriteTx Unit :=
  query fun t => if owner ∈ t.accounts then .ok () else .error .noAccount

def advanceVersion (owner : Text) : WriteTx Nat := do
  let current ← query fun t => .ok ((t.versions.get? owner).getD 0)
  let next ← query fun _ => orTooLarge (checkedAdd current 1)
  update fun t => { t with versions := t.versions.insert owner next }
  return next

def putRosterItem (item : RosterItem syn) (quota : RosterQuota) : WriteTx Nat := do
  let encodedLen ← query fun _ =>
    if maxGroupsPerItem < item.groups.length then .error .quotaExceeded else encodedItemSize item
  let key := itemKey owner item.jid
  checkAccount owner.text
  query fun t => admitItem t.items owner.text key encodedLen quota
  let encoded ← query fun _ => encodeItem item
  update fun t => { t with items := t.items.insert key encoded }
  advanceVersion owner.text

/-- The test of `copy_subscription` that the current row is the one of the snapshot, up to the header when
a subscription is expected. -/
def rowsAgree (expected : Option RosterSubscription) (old : RosterSubscription) (current source : Bytes) : Bool :=
  match expected with
  | none => decide (current = source)
  | some expected => decide (old = expected) && decide (current.drop 2 = source.drop 2)

/-- The current subscription and the row of the snapshot, when they agree. -/
def copyable (before : Tables) (key : Text) (expected : Option RosterSubscription) (current : Bytes) :
    Except RosterError (RosterSubscription × Bytes) := do
  let source ← orCorrupt (before.items.get? key)
  let old ← decodeSubscription current
  let _ ← decodeSubscription source
  if rowsAgree expected old current source then return (old, source) else throw corrupt

/-- `copy_subscription`: the row of the snapshot, with another subscription in its header. -/
def copySubscription (before : Tables) (owner : Text) (key : Text) (expected : Option RosterSubscription)
    (subscription : RosterSubscription) : WriteTx (Option Nat) := do
  checkAccount owner
  let current ← query fun t => .ok (t.items.get? key)
  match current with
  | none => return none
  | some current =>
    let (old, bytes) ← query fun _ => copyable before key expected current
    if old = subscription then return none
    else
      update fun t => { t with items := t.items.insert key (patchSubscription bytes subscription) }
      let version ← advanceVersion owner
      return some version

variable (jid : RosterJid syn)

def setRosterSubscription (before : Tables) (owner : AccountKey syn) (jid : RosterJid syn)
    (subscription : RosterSubscription) : WriteTx (Option Nat) :=
  copySubscription before owner.text (itemKey owner jid) none subscription

/-- The snapshot is the state that was committed before the transaction. -/
def transitionRosterSubscription (expected subscription : RosterSubscription) :
    WriteTx (Option Nat) := do
  let before ← Tx.read fun w => .ok w.committed
  copySubscription before owner.text (itemKey owner jid) (some expected) subscription

/-- Both removals of a row: what is reported of it is decoded by `decode`. -/
def removeRow (decode : Bytes → Except RosterError α) :
    WriteTx (Option (RosterMutation α)) := do
  let record ← query fun t => .ok (t.items.get? (itemKey owner jid))
  update fun t => { t with items := t.items.erase (itemKey owner jid) }
  match record with
  | none => return none
  | some record =>
    let value ← query fun _ => decode record
    let version ← advanceVersion owner.text
    return some ⟨version, value⟩

def removeRosterSubscription : WriteTx (Option (RosterMutation RosterSubscription)) :=
  removeRow owner jid decodeSubscription

def removeRosterItem : WriteTx (Option (RosterMutation (RosterItem syn))) :=
  removeRow owner jid (decodeItem jid)

/-- A request of a new sender is refused when `max` requests are stored. -/
def putPendingRequest (request : PendingSubscription syn) (max : Nat) :
    WriteTx Unit := do
  let key := itemKey owner request.sender
  checkAccount owner.text
  query fun t =>
    if t.pending.get? key = none ∧ max ≤ (ownerEntries t.pending owner.text).length then
      .error .pendingLimitExceeded
    else .ok ()
  update fun t => { t with pending := t.pending.insert key request.stanza }

def removePendingRequest (sender : RosterJid syn) : WriteTx Bool := do
  let removed ← query fun t => .ok (t.pendingRequestExists owner sender)
  update fun t => { t with pending := t.pending.erase (itemKey owner sender) }
  return removed

def clearRoster : WriteTx Unit :=
  update fun t =>
    { t with
      items := t.items.filterKeys fun key => !inOwnerRange owner.text key
      pending := t.pending.filterKeys fun key => !inOwnerRange owner.text key
      versions := t.versions.erase owner.text }

end Lonewolf.Roster
