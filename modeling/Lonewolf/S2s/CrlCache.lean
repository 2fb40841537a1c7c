import Lonewolf.Base.BigEndian
import Lonewolf.Base.SortedTable
import Lonewolf.Base.Text
import Lonewolf.Util.SystemTime

/-!
# The cache of revocation lists

`s2s/revocation/cache/mod.rs`: entries by URL with the list that was fetched, the download that is pending and what
failed last, the sweep and the eviction, the lookup that starts a download and its completion. A subtraction that
would be below zero has no result.
-/

namespace Lonewolf.S2s.Crl

open Texts SortedTables Util

/-- `saturating_add` when the sum is not representable: the greatest sum that is, between the bounds. -/
def searchLatest (time : SystemTime) (low high : Nat) (latest : SystemTime) : SystemTime :=
  if low < high then
    let middle := low + (high - low + 1) / 2
    match time.checkedAdd middle with
    | some result => searchLatest time middle high result
    | none => searchLatest time low (middle - 1) latest
  else latest
termination_by high - low

def saturatingAdd (time : SystemTime) (duration : Nat) : SystemTime :=
  match time.checkedAdd duration with
  | some result => result
  | none => searchLatest time 0 duration time

/-- Any representation of time: an addition succeeds exactly up to the latest reading. -/
structure Clock (T : Type) where
  nanos : T → Int
  checkedAdd : T → Nat → Option T
  latest : T
  nanos_le : ∀ time, nanos time ≤ nanos latest
  checkedAdd_eq_none : ∀ {time duration}, checkedAdd time duration = none ↔ nanos latest < nanos time + duration
  checkedAdd_eq_some : ∀ {time duration result}, checkedAdd time duration = some result →
    nanos result = nanos time + duration

/-- A `Duration` has its seconds in 64 bits. -/
abbrev Duration := Fin (2 ^ 64 * 10 ^ 9)

/-- `Duration::new` of a number of nanoseconds, with both conversions as they truncate. -/
def candidate (middle : Nat) : Nat := middle / 10 ^ 9 % 2 ^ 64 * 10 ^ 9 + middle % 10 ^ 9 % 2 ^ 32

namespace Clock

variable {T : Type} (clock : Clock T)

def searchLatest (time : T) (low high : Nat) (latest : T) : T :=
  if low < high then
    let middle := low + (high - low + 1) / 2
    match clock.checkedAdd time (candidate middle) with
    | some result => searchLatest time middle high result
    | none => searchLatest time low (middle - 1) latest
  else latest
termination_by high - low

def saturatingAdd (time : T) (duration : Duration) : T :=
  match clock.checkedAdd time duration with
  | some result => result
  | none => clock.searchLatest time 0 duration time

end Clock

/-- `CrlNumber`: the bytes of the number without the zeros in front. -/
structure CrlNumber where
  bytes : List (Fin 256)
  canonical : BigEndian.Canonical bytes
  deriving DecidableEq

namespace CrlNumber

def new (bytes : List (Fin 256)) : CrlNumber := ⟨BigEndian.trim bytes, BigEndian.canonical_trim bytes⟩

def cmp (left right : CrlNumber) : Ordering := BigEndian.cmp left.bytes right.bytes

def value (number : CrlNumber) : Nat := BigEndian.value number.bytes

theorem cmp_eq_lt {left right : CrlNumber} : left.cmp right = .lt ↔ left.value < right.value := by
  rw [cmp, BigEndian.cmp_eq left.canonical right.canonical, Nat.compare_eq_lt]
  rfl

end CrlNumber

/-- `CrlUrl`: its host and its port follow from the text. -/
abbrev CrlUrl := Text

def staleGrace : Nat := fromSecs (7 * 24 * 3600)

/-- `CacheLimits` and the refresh interval of the cache. -/
structure Limits where
  maxEntries : Nat
  maxBytes : Nat
  refreshInterval : Nat

structure FetchedCrl where
  thisUpdate : SystemTime
  nextUpdate : SystemTime
  crlNumber : Option CrlNumber
  cost : Nat
  deriving DecidableEq

structure CachedCrl where
  thisUpdate : SystemTime
  nextUpdate : SystemTime
  crlNumber : Option CrlNumber
  cost : Nat
  refreshAt : SystemTime
  deriving DecidableEq

inductive CheckPhase where
  | handshake
  | recheck
  deriving DecidableEq

inductive FetchFailure where
  | dnsFailed
  | blockedAddress
  | connectFailed
  | timeout
  | httpStatus
  | tooLarge
  | invalid
  | stale
  deriving DecidableEq

inductive UnknownReason where
  | noDistributionPoint
  | unsupportedScheme
  | blockedAddress
  | fetchFailed
  | timeout
  | pending
  | tooLarge
  | invalid
  | badSignature
  | stale
  | notAuthoritative
  | unavailable
  | cacheFull
  deriving DecidableEq

inductive Failure where
  | fetch (failure : FetchFailure)
  | rollback
  | capacity
  deriving DecidableEq

def Failure.unknown : Failure → UnknownReason
  | .fetch .dnsFailed => .fetchFailed
  | .fetch .connectFailed => .fetchFailed
  | .fetch .httpStatus => .fetchFailed
  | .fetch .blockedAddress => .blockedAddress
  | .fetch .timeout => .timeout
  | .fetch .tooLarge => .tooLarge
  | .fetch .invalid => .invalid
  | .fetch .stale => .stale
  | .rollback => .stale
  | .capacity => .cacheFull

/-- What an `Arc` and its `Weak`s point to: the address of the allocation. The birth is the number of the entry that
the allocation was made for; the code does not see it. -/
structure Reference where
  address : Nat
  birth : Nat
  deriving DecidableEq

structure Entry where
  crl : Option CachedCrl
  /-- The signal of the download that is pending, by its number. -/
  pending : Option Nat
  failures : Nat
  retryAfter : Option SystemTime
  lastFailure : Option Failure
  lastLogged : Option Failure
  lastAccess : SystemTime
  handshakeUsedAt : Option SystemTime
  token : Reference
  deriving DecidableEq

inductive CrlEviction where
  | unused
  | capacity
  | staleExpired
  deriving DecidableEq

inductive LogEvent where
  | failed (failure : Failure)
  | recovered
  | fetched
  deriving DecidableEq

/-- An entry that was evicted, and the reading of the clock. -/
structure Eviction where
  reason : CrlEviction
  url : CrlUrl
  entry : Entry
  now : SystemTime
  deriving DecidableEq

/-- `Effects`; the code counts the evictions by their reason. -/
structure Effects where
  evictions : List Eviction
  full : Option Bool
  log : Option LogEvent
  deriving DecidableEq

def Effects.none : Effects := ⟨[], .none, .none⟩

def Effects.evicted (effects : Effects) (eviction : Eviction) : Effects :=
  { effects with evictions := effects.evictions ++ [eviction] }

namespace Entry

def new (now : SystemTime) (token : Reference) : Entry :=
  { crl := none, pending := none, failures := 0, retryAfter := none, lastFailure := none, lastLogged := none,
    lastAccess := now, handshakeUsedAt := none, token := token }

/-- `Arc::strong_count` of the token of an entry: the entry's own and those of the leases. -/
def strongCount (leases : List Reference) (entry : Entry) : Nat :=
  1 + leases.countP fun lease => lease.address = entry.token.address

def inUse (entry : Entry) (leases : List Reference) (now : SystemTime) (refresh : Nat) : Bool :=
  entry.pending.isSome || 1 < entry.strongCount leases ||
    entry.handshakeUsedAt.any fun used => now < saturatingAdd used refresh

def failed (entry : Entry) (failure : Failure) (now : SystemTime) (effects : Effects) : Entry × Effects :=
  let failures := min (entry.failures + 1) (2 ^ 32 - 1)
  let seconds := min (60 * 2 ^ min (failures - 1) 6) 3600
  let effects := if entry.lastLogged ≠ some failure then { effects with log := some (.failed failure) } else effects
  ({ entry with
      failures := failures
      retryAfter := some (saturatingAdd now (fromSecs seconds))
      lastFailure := some failure
      lastLogged := some failure }, effects)

def cost (entry : Entry) : Nat := entry.crl.elim 0 CachedCrl.cost

end Entry

/-- A difference of `usize`. -/
def checkedSub (minuend subtrahend : Nat) : Option Nat :=
  if subtrahend ≤ minuend then some (minuend - subtrahend) else none

/-- An order in which a hash map is visited. -/
abbrev Visit := { visit : List (CrlUrl × Entry) → List (CrlUrl × Entry) // ∀ entries, (visit entries).Perm entries }

structure CacheState where
  entries : SortedTable CrlUrl Entry
  bytes : Nat
  full : Bool
  deriving DecidableEq

/-- Why the sweep removes an entry. -/
def sweepReason (leases : List Reference) (now : SystemTime) (refresh : Nat) (entry : Entry) : Option CrlEviction :=
  if entry.crl.any fun crl => saturatingAdd crl.nextUpdate staleGrace ≤ now then some .staleExpired
  else if !entry.inUse leases now refresh &&
      ((entry.crl.any fun crl => crl.nextUpdate ≤ now) ||
        (entry.crl.isNone && entry.retryAfter.all fun retry => retry ≤ now)) then some .unused
  else none

/-- The closure of `retain` over the entries, with the bytes and the effects it changes. -/
def sweepEntries (leases : List Reference) (now : SystemTime) (refresh : Nat) :
    List (CrlUrl × Entry) → Nat → Effects → Option (Nat × Effects)
  | [], bytes, effects => some (bytes, effects)
  | (url, entry) :: rest, bytes, effects =>
    match sweepReason leases now refresh entry with
    | some reason => do
        let bytes ← checkedSub bytes entry.cost
        sweepEntries leases now refresh rest bytes (effects.evicted ⟨reason, url, entry, now⟩)
    | none => sweepEntries leases now refresh rest bytes effects

/-- The first of the entries that were accessed least recently, `min_by_key`. -/
def leastRecent : List (CrlUrl × Entry) → Option (CrlUrl × Entry)
  | [] => none
  | first :: rest =>
    match leastRecent rest with
    | some other => if other.2.lastAccess < first.2.lastAccess then some other else some first
    | none => some first

namespace CacheState

def empty : CacheState := ⟨∅, 0, false⟩

variable (state : CacheState)

def setFull (full : Bool) (effects : Effects) : CacheState × Effects :=
  if state.full ≠ full then ({ state with full := full }, { effects with full := some full }) else (state, effects)

def sweep (leases : List Reference) (now : SystemTime) (refresh : Nat) (effects : Effects) :
    Option (CacheState × Effects) := do
  let (bytes, effects) ← sweepEntries leases now refresh state.entries.entries state.bytes effects
  let entries := state.entries.retain fun _ entry => (sweepReason leases now refresh entry).isNone
  return ({ state with entries := entries, bytes := bytes }, effects)

def evict (leases : List Reference) (now : SystemTime) (refresh : Nat) (order : Visit) (effects : Effects) :
    Option (Bool × CacheState × Effects) := do
  let unused := (order.val state.entries.entries).filter fun entry => !entry.2.inUse leases now refresh
  match (leastRecent unused).map Prod.fst with
  | some url =>
    match state.entries.get? url with
    | some entry =>
      let bytes ← checkedSub state.bytes entry.cost
      return (true, { state with entries := state.entries.erase url, bytes := bytes },
        effects.evicted ⟨.capacity, url, entry, now⟩)
    | none => return (false, state, effects)
  | none => return (false, state, effects)

end CacheState

/-- A download that was started, with the reading of each clock. -/
structure Fetch where
  url : CrlUrl
  generation : Reference
  signal : Nat
  now : SystemTime
  started : Nat
  deriving DecidableEq

structure Lookup where
  crl : Option CachedCrl
  unknown : Option UnknownReason
  pending : Option Nat
  lease : Option Reference
  deriving DecidableEq

/-- The closure `access`: whether a download starts is the last part. -/
def access (now : SystemTime) (phase : CheckPhase) (signal : Nat) (entry : Entry) : Entry × Lookup × Bool :=
  let entry := { entry with lastAccess := now }
  let entry := if phase = .handshake then { entry with handshakeUsedAt := some now } else entry
  let start := entry.pending.isNone && (entry.retryAfter.all fun retry => retry ≤ now) &&
    entry.crl.all fun crl => crl.refreshAt ≤ now
  let entry := if start then { entry with pending := some signal } else entry
  let unknown :=
    if entry.crl.any fun crl => now < crl.nextUpdate then none
    else if entry.pending.isSome then some .pending
    else if entry.crl.isSome then some .stale
    else some (entry.lastFailure.elim .unavailable Failure.unknown)
  (entry, ⟨entry.crl, unknown, entry.pending, some entry.token⟩, start)

/-- Room for the list has to be made: it fits, but not next to the others. -/
def lacksRoom (limits : Limits) (bytes oldCost : Nat) : Option Nat → Option Bool
  | none => some false
  | some cost =>
    if cost ≤ limits.maxBytes then do
      let others ← checkedSub bytes oldCost
      let room ← checkedSub limits.maxBytes cost
      return room < others
    else some false

/-- The loop that evicts for a list that was fetched; each turn removes an entry. -/
def makeRoom (limits : Limits) (leases : List Reference) (now : SystemTime) (orders : Nat → Visit) (oldCost : Nat)
    (cost : Option Nat) : Nat → CacheState → Effects → Option (CacheState × Effects)
  | 0, _, _ => none
  | turns + 1, state, effects => do
      if ← lacksRoom limits state.bytes oldCost cost then
        let (evicted, state, effects) ← state.evict leases now limits.refreshInterval (orders turns) effects
        if evicted then makeRoom limits leases now orders oldCost cost turns state effects
        else return (state, effects)
      else return (state, effects)

/-- A list that is older than the one that is cached. -/
def rollsBack (old : CachedCrl) (fetched : FetchedCrl) : Bool :=
  match old.crlNumber, fetched.crlNumber with
  | some old, some new => new.cmp old = .lt
  | _, _ => fetched.thisUpdate < old.thisUpdate

def checkedAddSize (left right : Nat) : Option Nat := if left + right < 2 ^ 64 then some (left + right) else none

/-- The branch of `complete` for a list that was fetched; the entry is not in the map. -/
def store (limits : Limits) (leases : List Reference) (now : SystemTime) (orders : Nat → Visit) (url : CrlUrl)
    (fetched : FetchedCrl) (state : CacheState) (entry : Entry) (effects : Effects) :
    Option (CacheState × Entry × Effects) := do
  if entry.crl.any fun old => rollsBack old fetched then
    let (entry, effects) := entry.failed .rollback now effects
    return (state, entry, effects)
  let cost := checkedAddSize fetched.cost url.byteLen
  let oldCost := entry.cost
  let (state, effects) ←
    makeRoom limits leases now orders oldCost cost (state.entries.entries.length + 1) state effects
  let lacks ← lacksRoom limits state.bytes oldCost cost
  match cost.filter fun cost => cost ≤ limits.maxBytes && !lacks with
  | some cost =>
    let others ← checkedSub state.bytes oldCost
    let refreshAt := min (saturatingAdd now limits.refreshInterval) fetched.nextUpdate
    let log := if entry.lastLogged.isSome then LogEvent.recovered else .fetched
    let entry := { entry with
      crl := some ⟨fetched.thisUpdate, fetched.nextUpdate, fetched.crlNumber, cost, refreshAt⟩
      failures := 0
      retryAfter := none
      lastFailure := none
      lastLogged := none }
    let (state, effects) := CacheState.setFull { state with bytes := others + cost } false
      { effects with log := some log }
    return (state, entry, effects)
  | none =>
    let (entry, effects) := entry.failed .capacity now effects
    let (state, effects) := state.setFull true effects
    return (state, entry, effects)

namespace CacheState

def complete (state : CacheState) (limits : Limits) (leases : List Reference) (orders : Nat → Visit) (url : CrlUrl)
    (generation : Reference) (result : Except FetchFailure FetchedCrl) (now : SystemTime) :
    Option (CacheState × Effects) := do
  let isCurrent := fun state : CacheState =>
    (state.entries.get? url).any fun entry => entry.token.address = generation.address
  if !isCurrent state then return (state, .none)
  let (state, effects) ← state.sweep leases now limits.refreshInterval .none
  if !isCurrent state then return (state, effects)
  match state.entries.get? url with
  | none => return (state, effects)
  | some entry =>
    let state := { state with entries := state.entries.erase url }
    let (state, entry, effects) ← match result with
      | .ok fetched => store limits leases now orders url fetched state entry effects
      | .error failure =>
        let (entry, effects) := entry.failed (.fetch failure) now effects
        pure (state, entry, effects)
    let entry := { entry with pending := none }
    let state := { state with entries := state.entries.insert url entry }
    state.sweep leases now limits.refreshInterval effects

end CacheState

/-- Where an allocation can be made: not where one is. -/
abbrev Allocator := { next : List Nat → Nat // ∀ held, next held ∉ held }

/-- The cache with the leases and the downloads that refer to its entries. What the code does not keep: how many
entries were made, how many downloads were started and which handshakes used which entry, the last one first. -/
structure World where
  cache : CacheState
  leases : List Reference
  fetches : List Fetch
  births : Nat
  signals : Nat
  handshakes : List (Nat × SystemTime)
  deriving DecidableEq

namespace World

def initial : World := ⟨.empty, [], [], 0, 0, []⟩

/-- The addresses of the allocations that are alive: a `Weak` keeps one, too. -/
def held (world : World) (entries : List (CrlUrl × Entry)) : List Nat :=
  entries.map (fun entry => entry.2.token.address) ++ (world.leases.map Reference.address ++
    world.fetches.map fun fetch => fetch.generation.address)

/-- The part of the lookup that has an entry: the one of the URL, or a new one. -/
def enter (world : World) (state : CacheState) (url : CrlUrl) (now : SystemTime) (phase : CheckPhase) (started : Nat)
    (allocator : Allocator) : World × Lookup :=
  let found := state.entries.get? url
  let token := ⟨allocator.val (world.held state.entries.entries), world.births⟩
  let (entry, lookup, start) := access now phase world.signals (found.getD (.new now token))
  let fetch := ⟨url, entry.token, world.signals, now, started⟩
  ({ cache := { state with entries := state.entries.insert url entry }
     leases := entry.token :: world.leases
     fetches := if start then fetch :: world.fetches else world.fetches
     births := if found.isNone then world.births + 1 else world.births
     signals := if start then world.signals + 1 else world.signals
     handshakes := if phase = .handshake then (entry.token.birth, now) :: world.handshakes else world.handshakes },
    lookup)

def lookup (world : World) (limits : Limits) (url : CrlUrl) (now : SystemTime) (phase : CheckPhase) (started : Nat)
    (order : Visit) (allocator : Allocator) : Option (World × Lookup × Effects) := do
  let refresh := limits.refreshInterval
  let (state, effects) ← world.cache.sweep world.leases now refresh .none
  let (admitted, state, effects) ←
    if (state.entries.get? url).isNone && limits.maxEntries ≤ state.entries.entries.length then
      state.evict world.leases now refresh order effects
    else pure (true, state, effects)
  if admitted then
    let (world, lookup) := world.enter state url now phase started allocator
    return (world, lookup, effects)
  else
    let (state, effects) := state.setFull true effects
    return ({ world with cache := state }, ⟨none, some .cacheFull, none, none⟩, effects)

end World

/-- What happens to the cache from outside. -/
inductive Event where
  | lookup (url : CrlUrl) (now : SystemTime) (phase : CheckPhase) (started : Nat) (order : Visit)
      (allocator : Allocator)
  | complete (fetch : Fetch) (result : Except FetchFailure FetchedCrl) (finished : Nat) (orders : Nat → Visit)
  | cloneLease (lease : Reference)
  | dropLease (lease : Reference)

namespace World

/-- A download that was started can end, and a lease that is held can be cloned and dropped. -/
def Enabled (world : World) : Event → Prop
  | .lookup .. => True
  | .complete fetch _ _ _ => fetch ∈ world.fetches
  | .cloneLease lease => lease ∈ world.leases
  | .dropLease lease => lease ∈ world.leases

instance (world : World) : (event : Event) → Decidable (world.Enabled event)
  | .lookup .. => .isTrue trivial
  | .complete fetch _ _ _ => inferInstanceAs (Decidable (fetch ∈ world.fetches))
  | .cloneLease lease => inferInstanceAs (Decidable (lease ∈ world.leases))
  | .dropLease lease => inferInstanceAs (Decidable (lease ∈ world.leases))

def apply (world : World) (limits : Limits) : Event → Option (World × Effects)
  | .lookup url now phase started order allocator => do
      let (world, _, effects) ← world.lookup limits url now phase started order allocator
      return (world, effects)
  | .complete fetch result finished orders => do
      let completedAt := saturatingAdd fetch.now (finished - fetch.started)
      let (state, effects) ←
        world.cache.complete limits world.leases orders fetch.url fetch.generation result completedAt
      return ({ world with cache := state, fetches := world.fetches.erase fetch }, effects)
  | .cloneLease lease => return ({ world with leases := lease :: world.leases }, .none)
  | .dropLease lease => return ({ world with leases := world.leases.erase lease }, .none)

end World

end Lonewolf.S2s.Crl
