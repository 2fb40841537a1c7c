import Lonewolf.Base.SortedTable

/-!
# The lines of the delivery order

`order/mod.rs` keeps one queue of ticket ids per account, the map of waiting tickets and the set of global barriers.
A ticket's turn comes when its one-shot sender is taken and used. This module embeds `Order::admit`, `Order::release`
and `Lines::wake_if_first`, and says once what waking does: it takes the sender of each ticket it is asked about that
is first everywhere.
-/

namespace Lonewolf.Order

open SortedTables

/-- The sending half of a ticket's one-shot channel. -/
structure Sender where
  deriving DecidableEq, Repr

/-- `Waiting`: the accounts a ticket names, and its sender until its turn is announced. -/
structure Waiting (α : Type) where
  accounts : List α
  ready : Option Sender
  deriving DecidableEq, Repr

/-- `Lines`, with the wake-ups sent so far as the receivers see them, oldest first. -/
structure Lines (α : Type) [LinearOrder α] where
  next : Nat := 0
  queues : SortedTable α (List Nat) := ∅
  waiting : SortedTable Nat (Waiting α) := ∅
  globals : SortedTable Nat Unit := ∅
  sent : List Nat := []
  deriving DecidableEq

namespace Lines

variable {α : Type} [LinearOrder α] (lines : Lines α)

def front (account : α) : Option Nat :=
  (lines.queues.get? account).bind List.head?

/-- `first_everywhere`, with the two tests on global barriers before it. -/
def isFirst (id : Nat) (waiting : Waiting α) : Bool :=
  !lines.globals.keys.any (· < id) &&
    !(lines.globals.keys.contains id && lines.waiting.firstKey? != some id) &&
    waiting.accounts.all fun account => lines.front account == some id

def wakeIfFirst (id : Nat) : Lines α :=
  match lines.waiting.get? id with
  | none => lines
  | some waiting =>
    if lines.isFirst id waiting then
      match waiting.ready with
      | none => lines
      | some _ =>
        { lines with
          waiting := lines.waiting.insert id { waiting with ready := none }
          sent := lines.sent ++ [id] }
    else lines

/-- `queues.entry(account).or_default().push_back(id)`. -/
def pushBack (id : Nat) (account : α) : Lines α :=
  { lines with
    queues := lines.queues.insert account ((lines.queues.get? account).getD [] ++ [id]) }

def admitTicket (accounts : List α) (global : Bool) : Nat × Lines α :=
  let id := lines.next
  let lines := { lines with next := lines.next + 1 }
  let lines := if global then { lines with globals := lines.globals.insert id () } else lines
  let lines := accounts.foldl (pushBack · id) lines
  let lines := { lines with waiting := lines.waiting.insert id ⟨accounts, some {}⟩ }
  (id, lines.wakeIfFirst id)

/-- One turn of the loop over the released ticket's accounts: its ids leave the queue, an empty queue
leaves the map, and a new head is woken if it can be. -/
def leaveQueue (id : Nat) (lines : Lines α) (account : α) : Lines α :=
  match lines.queues.get? account with
  | none => lines
  | some queue =>
    let queue := queue.filter (· ≠ id)
    match queue.head? with
    | none => { lines with queues := lines.queues.erase account }
    | some head => { lines with queues := lines.queues.insert account queue }.wakeIfFirst head

/-- The next waiting ticket after the cursor. -/
def nextWaiting : Option Nat → Option Nat
  | none => lines.waiting.firstKey?
  | some last => lines.waiting.nextKey? last

/-- The loop that follows the release of a barrier. Waking adds and removes no ticket, so one turn for
each waiting ticket is enough. -/
def wakeFrom (lines : Lines α) : Nat → Option Nat → Lines α
  | 0, _ => lines
  | fuel + 1, after =>
    match lines.nextWaiting after with
    | none => lines
    | some next => (lines.wakeIfFirst next).wakeFrom fuel (some next)

/-- After the release of an account ticket, the first barrier may have become first of all. -/
def wakeFirstGlobal : Lines α :=
  match lines.globals.firstKey? with
  | none => lines
  | some next => lines.wakeIfFirst next

def release (id : Nat) : Lines α :=
  match lines.waiting.get? id with
  | none => lines
  | some waiting =>
    let lines := { lines with waiting := lines.waiting.erase id }
    let global := lines.globals.keys.contains id
    let lines := { lines with globals := lines.globals.erase id }
    let lines := waiting.accounts.foldl (leaveQueue id) lines
    if global then lines.wakeFrom lines.waiting.entries.length none
    else lines.wakeFirstGlobal

end Lines

end Lonewolf.Order
