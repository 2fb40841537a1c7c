import Lonewolf.Base.Transition

/-!
# Backoff of failed connections

The table of the outbound links (`outbound/mod.rs`, `outbound/bidi.rs` and the loop of `link.rs`): one entry per
domain pair, with a link whose queue a task or a bidirectional stream holds, or with the backoff after a failed
connection. Times are nanoseconds of the monotonic clock. How full a queue is, which stream has room for it and how a
dial ends are inputs of the steps.
-/

namespace Lonewolf.S2s.Backoff

open Transitions

/-! ### The delay -/

/-- `S2sLimits`, as far as the table reads it. -/
structure Limits where
  maxOutboundLinks : ℕ
  maxQueuedBytesPerLink : ℕ
  failureBackoffInitialSecs : ℕ
  failureBackoffMaxSecs : ℕ
  initial_pos : 0 < failureBackoffInitialSecs
  initial_lt : failureBackoffInitialSecs < 2 ^ 64
  max_lt : failureBackoffMaxSecs < 2 ^ 64

/-- The product of two `u128`, where it does not overflow. -/
def mul128 (a b : ℕ) : Option ℕ := if a * b < 2 ^ 128 then some (a * b) else none

/-- `1_u128.checked_shl(shift)`. -/
def checkedShl (shift : ℕ) : Option ℕ := if shift < 128 then some (2 ^ shift) else none

/-- `none` where the arithmetic would overflow. -/
def backoffDelay (limits : Limits) (failures jitter : ℕ) : Option ℕ := do
  let maximum ← mul128 limits.failureBackoffMaxSecs 1000000000
  let initial ← mul128 limits.failureBackoffInitialSecs 1000000000
  let nominal := min (((checkedShl (failures - 1)).bind (mul128 initial)).getD maximum) maximum
  let scaled ← mul128 nominal jitter
  let nanos := min (scaled / 1000) maximum
  if nanos / 1000000000 < 2 ^ 64 then some nanos else none

/-- The values the random source fills in, until one is below the ceiling or the source fails. -/
def drawJitter : List (Option (Fin 65536)) → Option ℕ
  | [] => none
  | none :: _ => some 1000
  | some value :: fills => if value.val < 65536 / 401 * 401 then some (800 + value.val % 401) else drawJitter fills

/-- `failures.saturating_add(1)`, from no failures on. -/
def saturated (failures : ℕ) : ℕ := min failures (2 ^ 32 - 1)

/-! ### The table -/

inductive RemoteFailure where
  | notFound
  | timeout

inductive RemoteError where
  | busy
  | stopped
  | backoff (condition : RemoteFailure)

inductive Entry where
  | link (counters : ℕ)
  | backoff (startedAt delay : ℕ) (condition : RemoteFailure) (failures : ℕ)

/-- Who holds the queue of a link. -/
inductive Holder where
  | dialing
  | connected
  | stream
  deriving DecidableEq

/-- A `LinkQueue` and the failures its task goes on from: none after a success or with a stream. -/
structure LinkQueue (P : Type) where
  pair : P
  failures : ℕ
  holder : Holder
  fresh : holder ≠ .dialing → failures = 0

/-- The state behind the lock, the queues by their counters, and the last reading of the clock. Only the
statements read `streak`, the failures of a pair that entered backoff since it last connected, lost its
entry or had its queue handed over, and `launched`, the pair that the last step launched a task for. -/
structure State (P : Type) where
  entries : AList fun _ : P => Entry
  standby : P → List ℕ
  nextStandby : ℕ
  stopped : Bool
  queues : ℕ → Option (LinkQueue P)
  clock : ℕ
  streak : P → ℕ
  launched : Option P

namespace State

def new (P : Type) : State P := ⟨∅, fun _ => [], 0, false, fun _ => none, 0, fun _ => 0, none⟩

variable {P : Type} [LinearOrder P] (limits : Limits) (s : State P) (counters : ℕ) (pair : P)

def owns (counters : ℕ) : Bool :=
  match s.entries.lookup pair with
  | some (.link c) => c == counters
  | _ => false

/-- The pair whose delay has been over for the longest time, and the first of these in their order. -/
def candidate (now : ℕ) : Option P :=
  ((s.entries.entries.filterMap fun e => match e.2 with
    | .backoff startedAt delay _ _ =>
      if delay ≤ now - startedAt then some (e.1, now - startedAt - delay) else none
    | .link _ => none).argmax fun c => toLex (c.2, OrderDual.toDual c.1)).map Prod.fst

def remove : State P :=
  { s with entries := s.entries.erase pair, streak := Function.update s.streak pair 0 }

def retryCount (now capacity : ℕ) : Except RemoteError (ℕ × State P) :=
  match s.entries.lookup pair with
  | some (.backoff startedAt delay condition failures) =>
    if now - startedAt < delay then .error (.backoff condition) else .ok (failures, s)
  | some (.link _) => .ok (0, s)
  | none =>
    if s.entries.entries.length < capacity then .ok (0, s)
    else match s.candidate now with
      | none => .error .busy
      | some other => .ok (0, s.remove other)

def launch (counters failures : ℕ) : State P :=
  { s with
    entries := s.entries.insert pair (.link counters)
    queues := Function.update s.queues counters (some ⟨pair, failures, .dialing, by simp⟩)
    launched := some pair }

/-- `bytes` is the size of the stanza, and `room` whether the queue of a present link takes it. -/
def admitted (bytes : Option ℕ) (room : Bool) (counters now : ℕ) : Except RemoteError (Option ℕ) × State P :=
  if s.stopped then (.error .stopped, s)
  else match bytes with
    | none => (.error .busy, s)
    | some bytes => match s.retryCount pair now limits.maxOutboundLinks with
      | .error error => (.error error, s)
      | .ok (failures, s) => match s.entries.lookup pair with
        | some (.link _) => (if room then .ok none else .error .busy, s)
        | _ =>
          -- the eviction stays when the new queue refuses the stanza
          if bytes ≤ limits.maxQueuedBytesPerLink then (.ok (some failures), s.launch pair counters failures)
          else (.error .busy, s)

/-- The queue with these counters, when it is held in this way. -/
def held (holder : Holder) : Option (LinkQueue P) :=
  (s.queues counters).filter (·.holder = holder)

variable (queue : LinkQueue P)

/-- A registered stream takes the queue, when one has room for it. -/
def offerStandby (taker : Option ℕ) : Option (State P) :=
  if !s.stopped && s.owns queue.pair counters && taker.any (· ∈ s.standby queue.pair) then
    some { s with
      queues := Function.update s.queues counters (some ⟨queue.pair, 0, .stream, fun _ => rfl⟩)
      streak := Function.update s.streak queue.pair 0 }
  else none

def finish : State P := { s with queues := Function.update s.queues counters none }

def backOff (now delay : ℕ) (condition : RemoteFailure) (failures : ℕ) : State P :=
  { s with
    entries := s.entries.insert pair (.backoff now delay condition failures)
    clock := max s.clock now
    streak := Function.update s.streak pair (s.streak pair + 1) }

/-- The clock was read before the lock was taken, so `now` may be behind. -/
def failed (condition : RemoteFailure) (now jitter : ℕ) (taker : Option ℕ) : Option (State P) :=
  if !s.owns queue.pair counters then some (s.finish counters)
  else if s.stopped then some ((s.remove queue.pair).finish counters)
  else match s.offerStandby counters queue taker with
    | some s' => some s'
    | none => (backoffDelay limits (saturated (queue.failures + 1)) jitter).map fun delay =>
      (s.finish counters).backOff queue.pair now delay condition (saturated (queue.failures + 1))

def ready : State P :=
  { s with
    queues := Function.update s.queues counters (some ⟨queue.pair, 0, .connected, fun _ => rfl⟩)
    streak := if s.owns queue.pair counters then Function.update s.streak queue.pair 0 else s.streak }

/-- The end of the loop of a task, after a connection or when everything stops. -/
def ended (drained : Bool) : State P :=
  if s.owns queue.pair counters then
    if s.stopped || drained then (s.remove queue.pair).finish counters
    else { s with queues := Function.update s.queues counters (some ⟨queue.pair, queue.failures, .dialing, by simp⟩) }
  else s.finish counters

def registerBidi : State P :=
  let s := { s with
    standby := Function.update s.standby pair (s.standby pair ++ [s.nextStandby])
    nextStandby := s.nextStandby + 1 }
  match s.entries.lookup pair with
  | some (.backoff _ _ _ _) => s.remove pair
  | _ => s

/-- What `release_inner` does with one queue of the stream that ends. -/
def returned (drained : Bool) (taker : Option ℕ) : State P :=
  if s.owns queue.pair counters then
    if s.stopped || drained then (s.remove queue.pair).finish counters
    else match s.offerStandby counters queue taker with
      | some s' => s'
      | none => s.launch queue.pair counters 0
  else s.finish counters

def stop : State P :=
  { s with
    stopped := true
    standby := fun _ => []
    entries := ⟨s.entries.entries.filter fun e => match e.2 with
      | .link _ => true
      | .backoff _ _ _ _ => false, s.entries.nodupKeys.sublist List.filter_sublist⟩ }

end State

inductive Event (P : Type) where
  | admitted (pair : P) (bytes : Option ℕ) (room : Bool) (counters now : ℕ)
  | offered (counters taker : ℕ)
  | failed (counters : ℕ) (condition : RemoteFailure) (now : ℕ) (fills : List (Option (Fin 65536)))
    (taker : Option ℕ)
  | ready (counters : ℕ)
  | ended (counters : ℕ) (drained : Bool)
  | left (counters : ℕ)
  | registerBidi (pair : P)
  | unregister (pair : P) (standby : ℕ)
  | returned (counters : ℕ) (drained : Bool) (taker : Option ℕ)
  | stop

section Runs

variable {P : Type} [LinearOrder P] (limits : Limits) (bidirectional : Bool)

/-- What happens while the lock is held once; `none` where it cannot happen in this state. -/
def State.next (s : State P) (event : Event P) : Option (State P) :=
  match event with
  | .admitted pair bytes room counters now =>
    if s.clock ≤ now && (s.queues counters).isNone then
      some (State.admitted limits { s with clock := now } pair bytes room counters now).2
    else none
  | .offered counters taker =>
    (s.held counters .dialing).bind fun queue => s.offerStandby counters queue (some taker)
  | .failed counters condition now fills taker =>
    (s.held counters .dialing).bind fun queue => (drawJitter fills).bind fun jitter =>
      s.failed limits counters queue condition now jitter taker
  | .ready counters => (s.held counters .dialing).map (s.ready counters)
  | .ended counters drained => (s.held counters .connected).map fun queue => s.ended counters queue drained
  | .left counters =>
    if s.stopped then (s.held counters .dialing).map fun queue => s.ended counters queue true else none
  | .registerBidi pair => if bidirectional && !s.stopped then some (s.registerBidi pair) else none
  | .unregister pair standby =>
    some { s with standby := Function.update s.standby pair ((s.standby pair).filter (· != standby)) }
  | .returned counters drained taker =>
    (s.held counters .stream).map fun queue => s.returned counters queue drained taker
  | .stop => some s.stop

def State.step (s : State P) (event : Event P) : Option (State P) :=
  State.next limits bidirectional { s with launched := none } event

def State.run (s : State P) (events : List (Event P)) : Option (State P) :=
  events.foldlM (State.step limits bidirectional) s

def system (P : Type) [LinearOrder P] : System (State P) where
  init s := s = State.new P
  step s t := ∃ event, s.step limits bidirectional event = some t

end Runs

/-! ### The size of the delay -/

section Delay

variable (limits : Limits)

/-- The delay after `k` failures before it is jittered. -/
def nominal (k : ℕ) : ℕ :=
  min (limits.failureBackoffMaxSecs * 1000000000) (limits.failureBackoffInitialSecs * 1000000000 * 2 ^ (k - 1))

theorem capped_eq (shift : ℕ) :
    min (((checkedShl shift).bind (mul128 (limits.failureBackoffInitialSecs * 1000000000))).getD
        (limits.failureBackoffMaxSecs * 1000000000)) (limits.failureBackoffMaxSecs * 1000000000) =
      min (limits.failureBackoffMaxSecs * 1000000000) (limits.failureBackoffInitialSecs * 1000000000 * 2 ^ shift) := by
  have hmax := limits.max_lt
  have hinitial := limits.initial_pos
  have hlarge (product : ℕ) (hproduct : 2 ^ 128 ≤ product) :
      min (limits.failureBackoffMaxSecs * 1000000000) (limits.failureBackoffMaxSecs * 1000000000) =
        min (limits.failureBackoffMaxSecs * 1000000000) product := by omega
  by_cases hshift : shift < 128
  · rw [checkedShl, if_pos hshift, Option.bind_some, mul128]
    by_cases hfits : limits.failureBackoffInitialSecs * 1000000000 * 2 ^ shift < 2 ^ 128
    · rw [if_pos hfits, Option.getD_some, Nat.min_comm]
    · rw [if_neg hfits, Option.getD_none]
      exact hlarge _ (Nat.le_of_not_lt hfits)
  · have hpow : 2 ^ 128 ≤ 2 ^ shift := Nat.pow_le_pow_right (by decide) (by omega)
    rw [checkedShl, if_neg hshift, Option.bind_none, Option.getD_none]
    exact hlarge _ (hpow.trans (Nat.le_mul_of_pos_left _ (by omega)))

theorem backoffDelay_eq (failures jitter : ℕ) (hjitter : jitter < 65536) :
    backoffDelay limits failures jitter =
      some (min (nominal limits failures * jitter / 1000) (limits.failureBackoffMaxSecs * 1000000000)) := by
  have hnanos (secs : ℕ) (hsecs : secs < 2 ^ 64) : secs * 1000000000 < 2 ^ 128 := by omega
  have hmax := limits.max_lt
  have hnominal : nominal limits failures ≤ limits.failureBackoffMaxSecs * 1000000000 := Nat.min_le_left _ _
  have hbound : nominal limits failures ≤ 2 ^ 94 := by omega
  have hscaled : nominal limits failures * jitter < 2 ^ 128 :=
    (Nat.mul_le_mul hbound hjitter.le).trans_lt (by norm_num)
  unfold backoffDelay
  rw [show mul128 limits.failureBackoffMaxSecs 1000000000 = some _ from if_pos (hnanos _ hmax),
    show mul128 limits.failureBackoffInitialSecs 1000000000 = some _ from if_pos (hnanos _ limits.initial_lt)]
  simp only [Option.bind_eq_bind, Option.bind_some]
  rw [capped_eq]
  change ((if nominal limits failures * jitter < 2 ^ 128 then _ else none).bind _) = _
  rw [if_pos hscaled, Option.bind_some, if_pos (by omega), nominal]

theorem nominal_le_nominal {k k' : ℕ} (h : k ≤ k') : nominal limits k ≤ nominal limits k' :=
  min_le_min_left _ (Nat.mul_le_mul_left _ (Nat.pow_le_pow_right (by decide) (by omega)))

theorem nominal_saturated (k : ℕ) : nominal limits (saturated k) = nominal limits k := by
  have hmax := limits.max_lt
  have hinitial := limits.initial_pos
  by_cases hk : k ≤ 2 ^ 32 - 1
  · rw [saturated, Nat.min_eq_left hk]
  · have hlarge : ∀ n, 128 ≤ n → nominal limits (n + 1) = limits.failureBackoffMaxSecs * 1000000000 := by
      intro n hn
      have hpow : 2 ^ 128 ≤ 2 ^ n := Nat.pow_le_pow_right (by decide) hn
      have hmul : 2 ^ 128 ≤ limits.failureBackoffInitialSecs * 1000000000 * 2 ^ n :=
        hpow.trans (Nat.le_mul_of_pos_left _ (by omega))
      exact Nat.min_eq_left (by rw [Nat.add_sub_cancel]; omega)
    rw [saturated, Nat.min_eq_right (by omega), show 2 ^ 32 - 1 = (2 ^ 32 - 2) + 1 from rfl, hlarge _ (by norm_num),
      ← Nat.sub_add_cancel (show 1 ≤ k by omega), hlarge _ (by omega)]

end Delay

theorem drawJitter_range {fills : List (Option (Fin 65536))} {jitter : ℕ} (h : drawJitter fills = some jitter) :
    800 ≤ jitter ∧ jitter ≤ 1200 := by
  induction fills with
  | nil => cases h
  | cons fill fills ih =>
    cases fill with
    | none =>
      cases h
      decide
    | some value =>
      rw [drawJitter] at h
      split at h
      · cases h
        omega
      · exact ih h

/-! ### What a step can change -/

namespace State

variable {P : Type} [LinearOrder P] {limits : Limits} {bidirectional : Bool} {s s' : State P} {pair : P}
  {counters now : ℕ} {queue : LinkQueue P} {event : Event P}

/-- The failures that the task of the pair, or the next one, goes on from. -/
def failuresOf (s : State P) (pair : P) : Option ℕ :=
  match s.entries.lookup pair with
  | none => some 0
  | some (.backoff _ _ _ failures) => some failures
  | some (.link counters) => ((s.queues counters).filter (·.pair = pair)).map (·.failures)

/-- The failures that are recorded for each pair are its streak. -/
def Sound (s : State P) : Prop := ∀ pair, s.failuresOf pair = some (saturated (s.streak pair))

/-- The pair is in backoff, and its delay is over. -/
def Elapsed (s : State P) (pair : P) (now : ℕ) : Prop :=
  ∃ startedAt delay condition failures,
    s.entries.lookup pair = some (.backoff startedAt delay condition failures) ∧ delay ≤ now - startedAt

/-- A step touches one pair. A backoff of this pair stays and no task is launched, unless its delay is
over or a stream is registered. -/
structure Changes (event : Event P) (s s' : State P) (pair : P) : Prop where
  entries : ∀ other, other ≠ pair → s'.entries.lookup other = s.entries.lookup other
  queues : ∀ c queue, s.queues c = some queue → queue.pair ≠ pair → s'.queues c = some queue
  streak : ∀ other, other ≠ pair → s'.streak other = s.streak other
  clock : s.clock ≤ s'.clock
  stopped : s'.stopped = s.stopped
  launched : s'.launched = none ∨ s'.launched = some pair ∧ s.stopped = false
  kept : ∀ startedAt delay condition failures,
    s.entries.lookup pair = some (.backoff startedAt delay condition failures) →
      s'.entries.lookup pair = s.entries.lookup pair ∧ s'.launched = none ∨ delay ≤ s'.clock - startedAt ∨
        event = .registerBidi pair
  counted : s.Sound → s'.stopped = false → s'.failuresOf pair = some (saturated (s'.streak pair))

theorem owns_iff : s.owns pair counters = true ↔ s.entries.lookup pair = some (.link counters) := by
  unfold owns
  split
  next c hlookup => simp [hlookup]
  next hnot => exact ⟨fun h => (Bool.noConfusion h), fun h => (hnot counters h).elim⟩

theorem Sound.owned (h : s.Sound) (hlookup : s.entries.lookup pair = some (.link counters)) :
    ∃ queue, s.queues counters = some queue ∧ queue.pair = pair ∧ queue.failures = saturated (s.streak pair) := by
  have hpair := h pair
  simp only [failuresOf, hlookup, Option.map_eq_some_iff, Option.filter_eq_some_iff, decide_eq_true_eq] at hpair
  obtain ⟨queue, ⟨hqueue, hof⟩, hfailures⟩ := hpair
  exact ⟨queue, hqueue, hof, hfailures⟩

theorem failuresOf_congr (hentry : s'.entries.lookup pair = s.entries.lookup pair)
    (hqueue : ∀ c, s.entries.lookup pair = some (.link c) → s'.queues c = s.queues c) :
    s'.failuresOf pair = s.failuresOf pair := by
  unfold failuresOf
  rw [hentry]
  split
  · rfl
  · rfl
  next c hlookup => rw [hqueue c hlookup]

theorem Changes.sound (h : Changes event s s' pair) (hsound : s.Sound) (hrun : s'.stopped = false) : s'.Sound := by
  intro other
  by_cases hother : other = pair
  · rw [hother]
    exact h.counted hsound hrun
  · rw [h.streak other hother, ← hsound other]
    refine failuresOf_congr (h.entries other hother) fun c hlookup => ?_
    obtain ⟨queue, hqueue, rfl, -⟩ := hsound.owned hlookup
    rw [h.queues c queue hqueue hother, hqueue]

theorem sound_remove (h : s.Sound) (pair : P) : (s.remove pair).Sound := by
  intro other
  by_cases hother : other = pair
  · subst hother
    simp [failuresOf, remove, saturated]
  · have hsame : (s.remove pair).failuresOf other = s.failuresOf other :=
      failuresOf_congr (AList.lookup_erase_ne hother) fun _ _ => rfl
    rw [hsame, h other]
    simp [remove, hother]

omit [LinearOrder P] in
theorem queues_update (hqueue : ∀ queue, s.queues counters = some queue → queue.pair = pair)
    (value : Option (LinkQueue P)) (c : ℕ) (queue : LinkQueue P) (hc : s.queues c = some queue)
    (hother : queue.pair ≠ pair) : Function.update s.queues counters value c = some queue := by
  have hne : c ≠ counters := by
    rintro rfl
    exact hother (hqueue queue hc)
  rw [Function.update_of_ne hne, hc]

theorem changes_unowned (hnone : s.launched = none) (hqueue : s.queues counters = some queue)
    (hnot : s.owns queue.pair counters = false) (value : Option (LinkQueue P)) :
    Changes event s { s with queues := Function.update s.queues counters value } queue.pair where
  entries _ _ := rfl
  queues := queues_update (by simp [hqueue]) value
  streak _ _ := rfl
  clock := le_rfl
  stopped := rfl
  launched := .inl hnone
  kept _ _ _ _ _ := .inl ⟨rfl, hnone⟩
  counted hsound _ := by
    rw [← hsound queue.pair]
    refine failuresOf_congr rfl fun c hlookup => Function.update_of_ne (fun heq => ?_) _ _
    rw [← heq, owns_iff.mpr hlookup] at hnot
    cases hnot

theorem changes_owned (hnone : s.launched = none) (hqueue : s.queues counters = some queue)
    (howns : s.owns queue.pair counters = true) {value : Option (LinkQueue P)}
    (hqueues : s'.queues = Function.update s.queues counters value)
    (hentries : ∀ other, other ≠ queue.pair → s'.entries.lookup other = s.entries.lookup other)
    (hstreak : ∀ other, other ≠ queue.pair → s'.streak other = s.streak other) (hclock : s.clock ≤ s'.clock)
    (hstopped : s'.stopped = s.stopped)
    (hlaunched : s'.launched = s.launched ∨ s'.launched = some queue.pair ∧ s.stopped = false)
    (hcounted : queue.failures = saturated (s.streak queue.pair) →
      s'.stopped = false → s'.failuresOf queue.pair = some (saturated (s'.streak queue.pair))) :
    Changes event s s' queue.pair where
  entries := hentries
  queues := by
    rw [hqueues]
    exact queues_update (by simp [hqueue]) value
  streak := hstreak
  clock := hclock
  stopped := hstopped
  launched := hnone ▸ hlaunched
  kept _ _ _ _ hlookup := by
    rw [owns_iff.mp howns] at hlookup
    cases hlookup
  counted hsound := by
    obtain ⟨held, hheld, -, hfailures⟩ := hsound.owned (owns_iff.mp howns)
    obtain rfl := Option.some.inj (hqueue.symm.trans hheld)
    exact hcounted hfailures

theorem candidate_elapsed {other : P} (h : s.candidate now = some other) : s.Elapsed other now := by
  obtain ⟨⟨_, overdue⟩, hmax, rfl⟩ := Option.map_eq_some_iff.mp h
  obtain ⟨⟨pair, entry⟩, hmem, hentry⟩ := List.mem_filterMap.mp (List.argmax_mem hmax)
  cases entry with
  | link c => cases hentry
  | backoff startedAt delay condition failures =>
    obtain ⟨hdelay, heq⟩ := Option.ite_none_right_eq_some.mp hentry
    cases heq
    exact ⟨startedAt, delay, condition, failures, AList.mem_lookup_iff.mpr hmem, hdelay⟩

theorem retryCount_cases {capacity failures : ℕ} (h : s.retryCount pair now capacity = .ok (failures, s')) :
    s' = s ∧ (∃ c, s.entries.lookup pair = some (.link c)) ∨
      s' = s ∧ s.failuresOf pair = some failures ∧ s.Elapsed pair now ∨
      (s' = s ∨ ∃ other, s.Elapsed other now ∧ s' = s.remove other) ∧ failures = 0 ∧ s.entries.lookup pair = none := by
  unfold retryCount at h
  cases hlookup : s.entries.lookup pair with
  | none =>
    simp only [hlookup] at h
    split at h
    · cases h
      exact .inr (.inr ⟨.inl rfl, rfl, rfl⟩)
    · split at h
      · cases h
      next other hcandidate =>
        cases h
        exact .inr (.inr ⟨.inr ⟨other, candidate_elapsed hcandidate, rfl⟩, rfl, rfl⟩)
  | some entry =>
    cases entry with
    | link c =>
      simp only [hlookup] at h
      cases h
      exact .inl ⟨rfl, c, rfl⟩
    | backoff startedAt delay condition count =>
      simp only [hlookup] at h
      split at h
      · cases h
      next hdelay =>
        obtain ⟨rfl, rfl⟩ := Prod.mk.inj (Except.ok.inj h)
        exact .inr (.inl ⟨rfl, by simp [failuresOf, hlookup], startedAt, delay, condition, count, hlookup,
          Nat.le_of_not_lt hdelay⟩)

theorem changes_launch (hrun : s.stopped = false) (hfresh : s.queues counters = none) {failures : ℕ}
    (hfailures : s.failuresOf pair = some failures) (hentry : s.entries.lookup pair = none ∨ s.Elapsed pair s.clock) :
    Changes event s (s.launch pair counters failures) pair where
  entries _ hother := AList.lookup_insert_ne hother
  queues := queues_update (by simp [hfresh]) _
  streak _ _ := rfl
  clock := le_rfl
  stopped := rfl
  launched := .inr ⟨rfl, hrun⟩
  kept startedAt delay condition count hlookup := by
    rcases hentry with hnone | ⟨_, _, _, _, hbackoff, hdelay⟩
    · rw [hnone] at hlookup
      cases hlookup
    · rw [hbackoff] at hlookup
      cases hlookup
      exact .inr (.inl hdelay)
  counted hsound _ := by
    have hcount : failures = saturated (s.streak pair) := Option.some.inj (hfailures.symm.trans (hsound pair))
    simp [failuresOf, launch, hcount]

theorem changes_refl (hnone : s.launched = none) (hentries : s'.entries = s.entries) (hqueues : s'.queues = s.queues)
    (hstreak : s'.streak = s.streak) (hclock : s'.clock = s.clock) (hstopped : s'.stopped = s.stopped)
    (hlaunched : s'.launched = s.launched) : Changes event s s' pair where
  entries _ _ := by rw [hentries]
  queues _ _ hqueue _ := by rw [hqueues, hqueue]
  streak _ _ := by rw [hstreak]
  clock := hclock.ge
  stopped := hstopped
  launched := .inl (hlaunched.trans hnone)
  kept _ _ _ _ _ := .inl ⟨by rw [hentries], hlaunched.trans hnone⟩
  counted hsound _ := by
    rw [hstreak, ← hsound pair]
    exact failuresOf_congr (by rw [hentries]) fun c _ => by rw [hqueues]

/-- An entry may be evicted first; its delay is over by the clock of the step. -/
def Makes (event : Event P) (s s' : State P) : Prop :=
  ∃ s₁ pair, Changes event s₁ s' pair ∧ (s₁ = s ∨ ∃ other, s.Elapsed other s'.clock ∧ s₁ = s.remove other)

theorem makes_admitted (hnone : s.launched = none) (hfresh : s.queues counters = none) (bytes : Option ℕ)
    (room : Bool) : Makes event s (s.admitted limits pair bytes room counters s.clock).2 := by
  have hsame : Makes event s s := ⟨s, pair, changes_refl hnone rfl rfl rfl rfl rfl rfl, .inl rfl⟩
  unfold admitted
  split
  · exact hsame
  next hrun =>
    have hstopped : s.stopped = false := by simpa using hrun
    split
    · exact hsame
    · split
      · exact hsame
      next failures s₁ hretry =>
        rcases retryCount_cases hretry with ⟨rfl, c, hlink⟩ | ⟨rfl, hfailures, helapsed⟩ | ⟨hmade, rfl, hempty⟩
        · simpa only [hlink] using hsame
        · obtain ⟨startedAt, delay, condition, count, hlookup, hdelay⟩ := id helapsed
          simp only [hlookup]
          split
          · exact ⟨s₁, pair, changes_launch hstopped hfresh hfailures (.inr helapsed), .inl rfl⟩
          · exact hsame
        · have hempty₁ : s₁.entries.lookup pair = none := by
            rcases hmade with rfl | ⟨other, -, rfl⟩
            · exact hempty
            · exact AList.lookup_eq_none.mpr fun h => AList.lookup_eq_none.mp hempty (AList.mem_erase.mp h).2
          have hfailures : s₁.failuresOf pair = some 0 := by simp [failuresOf, hempty₁]
          have hkeeps : s₁.launched = none ∧ s₁.stopped = false ∧ s₁.queues counters = none ∧ s₁.clock = s.clock := by
            rcases hmade with rfl | ⟨other, -, rfl⟩
            · exact ⟨hnone, hstopped, hfresh, rfl⟩
            · exact ⟨hnone, hstopped, hfresh, rfl⟩
          obtain ⟨hnone₁, hstopped₁, hfresh₁, hclock⟩ := hkeeps
          simp only [hempty₁]
          split
          · exact ⟨s₁, pair, changes_launch hstopped₁ hfresh₁ hfailures (.inl hempty₁), hclock ▸ hmade⟩
          · exact ⟨s₁, pair, changes_refl hnone₁ rfl rfl rfl rfl rfl rfl, hclock ▸ hmade⟩

/-! ### The steps of the tasks and streams that hold a queue -/

section Held

variable {taker : Option ℕ} (hnone : s.launched = none) (hqueue : s.queues counters = some queue)
include hnone hqueue

theorem changes_offered (h : s.offerStandby counters queue taker = some s') : Changes event s s' queue.pair := by
  obtain ⟨hguard, heq⟩ := Option.ite_none_right_eq_some.mp h
  cases heq
  simp only [Bool.and_eq_true] at hguard
  refine changes_owned hnone hqueue hguard.1.2 rfl (fun _ _ => rfl)
    (fun _ hother => Function.update_of_ne hother _ _) le_rfl rfl (.inl rfl) fun _ _ => ?_
  simp [failuresOf, owns_iff.mp hguard.1.2, saturated]

theorem changes_removed (howns : s.owns queue.pair counters = true) :
    Changes event s ((s.remove queue.pair).finish counters) queue.pair := by
  refine changes_owned hnone hqueue howns rfl (fun _ hother => AList.lookup_erase_ne hother)
    (fun _ hother => Function.update_of_ne hother _ _) le_rfl rfl (.inl rfl) fun _ _ => ?_
  simp [failuresOf, remove, finish, saturated]

theorem changes_ready : Changes event s (s.ready counters queue) queue.pair := by
  by_cases howns : s.owns queue.pair counters = true
  · refine changes_owned hnone hqueue howns rfl (fun _ _ => rfl) (fun _ hother => ?_) le_rfl rfl (.inl rfl)
      fun _ _ => ?_
    · simp only [ready, if_pos howns, Function.update_of_ne hother]
    · simp [failuresOf, ready, howns, owns_iff.mp howns, saturated]
  · simp only [ready, if_neg howns]
    exact changes_unowned hnone hqueue (by simpa using howns) _

theorem changes_ended (drained : Bool) : Changes event s (s.ended counters queue drained) queue.pair := by
  unfold ended
  split
  next howns =>
    split
    · exact changes_removed hnone hqueue howns
    · refine changes_owned hnone hqueue howns rfl (fun _ _ => rfl) (fun _ _ => rfl) le_rfl rfl (.inl rfl)
        fun hfailures _ => ?_
      simp [failuresOf, owns_iff.mp howns, hfailures]
  next hnot => exact changes_unowned hnone hqueue (by simpa using hnot) none

theorem changes_returned (drained : Bool) (hheld : queue.failures = 0) :
    Changes event s (s.returned counters queue drained taker) queue.pair := by
  unfold returned
  split
  next howns =>
    split
    · exact changes_removed hnone hqueue howns
    next hrun =>
      split
      next s₁ hoffer => exact changes_offered hnone hqueue hoffer
      · simp only [Bool.or_eq_true, not_or, Bool.not_eq_true] at hrun
        refine changes_owned hnone hqueue howns rfl (fun _ hother => AList.lookup_insert_ne hother)
          (fun _ _ => rfl) le_rfl rfl (.inr ⟨rfl, hrun.1⟩) fun hfailures _ => ?_
        simp [failuresOf, launch, ← hfailures, hheld]
  next hnot => exact changes_unowned hnone hqueue (by simpa using hnot) none

theorem changes_failed {condition : RemoteFailure} {jitter : ℕ}
    (h : s.failed limits counters queue condition now jitter taker = some s') : Changes event s s' queue.pair := by
  unfold failed at h
  split at h
  next hnot =>
    cases h
    exact changes_unowned hnone hqueue (by simpa using hnot) none
  next howns =>
    have howns : s.owns queue.pair counters = true := by simpa using howns
    split at h
    · cases h
      exact changes_removed hnone hqueue howns
    · split at h
      next s₁ hoffer =>
        cases h
        exact changes_offered hnone hqueue hoffer
      · obtain ⟨delay, -, rfl⟩ := Option.map_eq_some_iff.mp h
        refine changes_owned hnone hqueue howns rfl (fun _ hother => AList.lookup_insert_ne hother)
          (fun _ hother => Function.update_of_ne hother _ _) (Nat.le_max_left _ _) rfl (.inl rfl)
          fun hfailures _ => ?_
        simp only [failuresOf, backOff, finish, AList.lookup_insert, hfailures, Function.update_self, saturated]
        congr 1
        omega

end Held

theorem changes_registerBidi (hnone : s.launched = none) :
    Changes (.registerBidi pair) s (s.registerBidi pair) pair := by
  unfold registerBidi
  simp only
  split
  next startedAt delay condition failures hlookup =>
    refine ⟨fun _ hother => AList.lookup_erase_ne hother, fun _ _ hc _ => hc,
      fun _ hother => Function.update_of_ne hother _ _, le_rfl, rfl, .inl hnone, fun _ _ _ _ _ => .inr (.inr rfl),
      fun _ _ => ?_⟩
    simp [failuresOf, remove, saturated]
  · exact changes_refl hnone rfl rfl rfl rfl rfl rfl

theorem next_makes (hnone : s.launched = none) (h : s.next limits bidirectional event = some s') :
    event = .stop ∧ s' = s.stop ∨ ∃ now, s.clock ≤ now ∧ Makes event { s with clock := now } s' := by
  have hidle (c : ℕ) (holder : Holder) (queue : LinkQueue P) (hheld : s.held c holder = some queue) :
      s.queues c = some queue ∧ queue.holder = holder := by
    simpa [held, Option.filter_eq_some_iff] using hheld
  have hmakes (pair : P) (hchanges : Changes event s s' pair) :
      ∃ now, s.clock ≤ now ∧ Makes event { s with clock := now } s' :=
    ⟨s.clock, le_rfl, _, _, hchanges, .inl rfl⟩
  cases event with
  | stop => exact .inl ⟨rfl, (Option.some.inj h).symm⟩
  | admitted pair bytes room counters now =>
    obtain ⟨hguard, heq⟩ := Option.ite_none_right_eq_some.mp h
    simp only [Bool.and_eq_true, decide_eq_true_eq, Option.isNone_iff_eq_none] at hguard
    cases heq
    exact .inr ⟨now, hguard.1, makes_admitted (s := { s with clock := now }) hnone hguard.2 bytes room⟩
  | offered counters taker =>
    obtain ⟨queue, hheld, hoffer⟩ := Option.bind_eq_some_iff.mp h
    exact .inr (hmakes _ (changes_offered hnone (hidle _ _ _ hheld).1 hoffer))
  | failed counters condition now fills taker =>
    obtain ⟨queue, hheld, hdrawn⟩ := Option.bind_eq_some_iff.mp h
    obtain ⟨jitter, -, hfailed⟩ := Option.bind_eq_some_iff.mp hdrawn
    exact .inr (hmakes _ (changes_failed hnone (hidle _ _ _ hheld).1 hfailed))
  | ready counters =>
    obtain ⟨queue, hheld, rfl⟩ := Option.map_eq_some_iff.mp h
    exact .inr (hmakes _ (changes_ready hnone (hidle _ _ _ hheld).1))
  | ended counters drained =>
    obtain ⟨queue, hheld, rfl⟩ := Option.map_eq_some_iff.mp h
    exact .inr (hmakes _ (changes_ended hnone (hidle _ _ _ hheld).1 drained))
  | left counters =>
    obtain ⟨-, hleft⟩ := Option.ite_none_right_eq_some.mp h
    obtain ⟨queue, hheld, rfl⟩ := Option.map_eq_some_iff.mp hleft
    exact .inr (hmakes _ (changes_ended hnone (hidle _ _ _ hheld).1 true))
  | registerBidi pair =>
    obtain ⟨-, heq⟩ := Option.ite_none_right_eq_some.mp h
    cases heq
    exact .inr (hmakes pair (changes_registerBidi hnone))
  | unregister pair standby =>
    cases h
    exact .inr (hmakes pair (changes_refl hnone rfl rfl rfl rfl rfl rfl))
  | returned counters drained taker =>
    obtain ⟨queue, hheld, rfl⟩ := Option.map_eq_some_iff.mp h
    obtain ⟨hqueue, hstream⟩ := hidle _ _ _ hheld
    exact .inr (hmakes _ (changes_returned hnone hqueue drained (queue.fresh (by simp [hstream]))))

/-! ### Whole runs -/

theorem sound_reachable (h : (system limits bidirectional P).Reachable s) : s.stopped = true ∨ s.Sound := by
  refine h.invariant (p := fun s => s.stopped = true ∨ s.Sound) ?_ ?_
  · rintro _ rfl
    exact .inr fun pair => rfl
  · rintro s s' - hsound ⟨event, hstep⟩
    rcases next_makes rfl hstep with ⟨-, rfl⟩ | ⟨now, -, s₁, pair, hchanges, hfrom⟩
    · exact .inl rfl
    · cases hrun : s'.stopped with
      | true => exact .inl rfl
      | false =>
        have hstopped : s.stopped = false := by
          rw [← hrun, hchanges.stopped]
          rcases hfrom with rfl | ⟨other, -, rfl⟩ <;> rfl
        have hsound : s.Sound := hsound.resolve_left (by simp [hstopped])
        refine .inr (hchanges.sound ?_ hrun)
        rcases hfrom with rfl | ⟨other, -, rfl⟩
        · exact hsound
        · exact sound_remove (s := { s with launched := none, clock := now }) hsound other

/-- The backoff stands, or its delay is over, or nothing is admitted any more. -/
def Waits (s : State P) (pair : P) (startedAt delay : ℕ) : Prop :=
  s.stopped = true ∨ delay ≤ s.clock - startedAt ∨
    ∃ condition failures, s.entries.lookup pair = some (.backoff startedAt delay condition failures)

theorem backoff_kept {startedAt delay failures : ℕ} {condition : RemoteFailure}
    (hlookup : s.entries.lookup pair = some (.backoff startedAt delay condition failures))
    (hevent : event ≠ .registerBidi pair) (hstep : s.step limits bidirectional event = some s') :
    event = .stop ∨ delay ≤ s'.clock - startedAt ∨
      s'.entries.lookup pair = some (.backoff startedAt delay condition failures) ∧ s'.launched ≠ some pair := by
  rcases next_makes rfl hstep with ⟨hstop, -⟩ | ⟨now, -, s₁, touched, hchanges, hfrom⟩
  · exact .inl hstop
  have hkept : delay ≤ s'.clock - startedAt ∨
      s₁.entries.lookup pair = some (.backoff startedAt delay condition failures) := by
    rcases hfrom with rfl | ⟨other, ⟨_, _, _, _, hother, hdelay⟩, rfl⟩
    · exact .inr hlookup
    · by_cases heq : pair = other
      · subst heq
        cases hlookup.symm.trans hother
        exact .inl hdelay
      · exact .inr ((AList.lookup_erase_ne heq).trans hlookup)
  rcases hkept with hover | hlookup₁
  · exact .inr (.inl hover)
  by_cases heq : pair = touched
  · subst heq
    rcases hchanges.kept _ _ _ _ hlookup₁ with ⟨hentry, hnone⟩ | hover | hregister
    · exact .inr (.inr ⟨hentry.trans hlookup₁, by simp [hnone]⟩)
    · exact .inr (.inl hover)
    · exact (hevent hregister).elim
  · refine .inr (.inr ⟨(hchanges.entries pair heq).trans hlookup₁, ?_⟩)
    rcases hchanges.launched with hnone | ⟨hsome, -⟩
    · simp [hnone]
    · simpa [hsome] using Ne.symm heq

theorem Waits.step {startedAt delay : ℕ} (h : s.Waits pair startedAt delay) (hevent : event ≠ .registerBidi pair)
    (hstep : s.step limits bidirectional event = some s') :
    s'.Waits pair startedAt delay ∧ (s'.launched = some pair → delay ≤ s'.clock - startedAt) := by
  rcases next_makes rfl hstep with ⟨-, rfl⟩ | ⟨now, hnow, s₁, touched, hchanges, hfrom⟩
  · exact ⟨.inl rfl, fun hlaunched => by cases hlaunched⟩
  have hsame : s₁.stopped = s.stopped ∧ s₁.clock = now := by
    rcases hfrom with rfl | ⟨other, -, rfl⟩
    · exact ⟨rfl, rfl⟩
    · exact ⟨rfl, rfl⟩
  rcases h with hstopped | hover | ⟨condition, failures, hlookup⟩
  · have hs₁ := hsame.1.trans hstopped
    refine ⟨.inl (hchanges.stopped.trans hs₁), fun hlaunched => ?_⟩
    rcases hchanges.launched with hnone | ⟨-, hrun⟩
    · cases hnone.symm.trans hlaunched
    · cases hrun.symm.trans hs₁
  · have hclock : s.clock ≤ s'.clock := hnow.trans (hsame.2 ▸ hchanges.clock)
    have hover' : delay ≤ s'.clock - startedAt := by omega
    exact ⟨.inr (.inl hover'), fun _ => hover'⟩
  · rcases backoff_kept hlookup hevent hstep with rfl | hover | ⟨hkept, hlaunched⟩
    · cases hstep
      exact ⟨.inl rfl, fun hlaunched => by cases hlaunched⟩
    · exact ⟨.inr (.inl hover), fun _ => hover⟩
    · exact ⟨.inr (.inr ⟨condition, failures, hkept⟩), fun h => (hlaunched h).elim⟩

theorem Waits.run {startedAt delay : ℕ} {events : List (Event P)} (h : s.Waits pair startedAt delay)
    (hevents : ∀ event ∈ events, event ≠ .registerBidi pair)
    (hrun : events.foldlM (State.step limits bidirectional) s = some s') : s'.Waits pair startedAt delay := by
  induction events generalizing s with
  | nil =>
    cases hrun
    exact h
  | cons event events ih =>
    obtain ⟨s₁, hstep, hrest⟩ := Option.bind_eq_some_iff.mp hrun
    exact ih (h.step (hevents event List.mem_cons_self) hstep).1
      (fun later hmem => hevents later (List.mem_cons_of_mem _ hmem)) hrest

theorem failed_backoff {startedAt delay failures : ℕ} {condition condition' : RemoteFailure}
    {fills : List (Option (Fin 65536))} {taker : Option ℕ} (hsound : s.Sound)
    (hlookup : s.entries.lookup pair = some (.link counters))
    (hstep : s.step limits bidirectional (.failed counters condition now fills taker) = some s')
    (hbackoff : s'.entries.lookup pair = some (.backoff startedAt delay condition' failures)) :
    startedAt = now ∧ s'.streak pair = s.streak pair + 1 ∧ ∃ jitter, drawJitter fills = some jitter ∧
      delay = min (nominal limits (s.streak pair + 1) * jitter / 1000) (limits.failureBackoffMaxSecs * 1000000000) := by
  obtain ⟨queue, hheld, hdrawn⟩ := Option.bind_eq_some_iff.mp hstep
  obtain ⟨jitter, hjitter, hfailed⟩ := Option.bind_eq_some_iff.mp hdrawn
  obtain ⟨owner, howner, rfl, hfailures⟩ := hsound.owned hlookup
  obtain rfl := Option.some.inj (howner.symm.trans (Option.filter_eq_some_iff.mp hheld).1)
  have howns : owns { s with launched := none } owner.pair counters = true := owns_iff.mpr hlookup
  simp only [failed, howns, Bool.not_true, Bool.false_eq_true, if_false] at hfailed
  split at hfailed
  · cases hfailed
    simp [remove, finish] at hbackoff
  · split at hfailed
    next s₁ hoffer =>
      obtain ⟨-, heq⟩ := Option.ite_none_right_eq_some.mp hoffer
      cases heq
      cases hfailed
      cases hlookup.symm.trans hbackoff
    · have hrange := drawJitter_range hjitter
      have hcount : saturated (owner.failures + 1) = saturated (s.streak owner.pair + 1) := by
        rw [hfailures, saturated, saturated, saturated]
        omega
      rw [hcount, backoffDelay_eq limits _ jitter (by omega), nominal_saturated] at hfailed
      cases hfailed
      simp only [backOff, AList.lookup_insert, Option.some.injEq, Entry.backoff.injEq] at hbackoff
      obtain ⟨rfl, rfl, -, -⟩ := hbackoff
      exact ⟨rfl, Function.update_self _ _ _, jitter, hjitter, rfl⟩

/-- A pair in backoff gets no task before its delay is over, unless a stream is registered for it, and
loses its entry to another pair only then. Each failure that enters backoff waits for about the initial
delay doubled for each earlier one of the streak, up to the maximum; the arithmetic never overflows. -/
theorem backoff_respected (limits : Limits) (bidirectional : Bool) :
    (∀ (s : State P) (pair : P) (startedAt delay : ℕ) (condition : RemoteFailure) (failures : ℕ),
      s.entries.lookup pair = some (.backoff startedAt delay condition failures) →
        (∀ events event s₁ s₂, (∀ e ∈ events ++ [event], e ≠ .registerBidi pair) →
          s.run limits bidirectional events = some s₁ → s₁.step limits bidirectional event = some s₂ →
          s₂.launched = some pair → delay ≤ s₂.clock - startedAt) ∧
        ∀ other bytes room counters now s', other ≠ pair →
          s.step limits bidirectional (.admitted other bytes room counters now) = some s' →
          s'.entries.lookup pair = some (.backoff startedAt delay condition failures) ∨
            delay ≤ s'.clock - startedAt) ∧
    (∀ (s s' : State P) (pair : P) (counters now : ℕ) (condition : RemoteFailure)
      (fills : List (Option (Fin 65536))) (taker : Option ℕ) (startedAt delay failures : ℕ)
      (condition' : RemoteFailure), (system limits bidirectional P).Reachable s → s.stopped = false →
      s.entries.lookup pair = some (.link counters) →
      s.step limits bidirectional (.failed counters condition now fills taker) = some s' →
      s'.entries.lookup pair = some (.backoff startedAt delay condition' failures) →
        startedAt = now ∧ s'.streak pair = s.streak pair + 1 ∧
        800 * nominal limits (s'.streak pair) < 1000 * (delay + 1) ∧
        1000 * delay ≤ 1200 * nominal limits (s'.streak pair) ∧
        delay ≤ limits.failureBackoffMaxSecs * 1000000000) ∧
    ∀ jitter < 65536, ∀ k k', k ≤ k' → ∃ delay delay', backoffDelay limits k jitter = some delay ∧
      backoffDelay limits k' jitter = some delay' ∧ delay ≤ delay' := by
  refine ⟨fun s pair startedAt delay condition failures hlookup => ⟨?_, ?_⟩, ?_, ?_⟩
  · intro events event s₁ s₂ hevents hrun hstep hlaunched
    have hwaits : s.Waits pair startedAt delay := .inr (.inr ⟨condition, failures, hlookup⟩)
    have hlater := hwaits.run (fun e he => hevents e (List.mem_append_left _ he)) hrun
    exact (hlater.step (hevents event (by simp)) hstep).2 hlaunched
  · intro other bytes room counters now s' _ hstep
    rcases backoff_kept hlookup (by simp) hstep with hstop | hover | ⟨hkept, -⟩
    · cases hstop
    · exact .inr hover
    · exact .inl hkept
  · intro s s' pair counters now condition fills taker startedAt delay failures condition' hreach hrun hlink hstep
      hbackoff
    have hsound := (sound_reachable hreach).resolve_left (by simp [hrun])
    obtain ⟨hstarted, hstreak, jitter, hjitter, hdelay⟩ := failed_backoff hsound hlink hstep hbackoff
    obtain ⟨hlow, hhigh⟩ := drawJitter_range hjitter
    have hnominal : nominal limits (s.streak pair + 1) ≤ limits.failureBackoffMaxSecs * 1000000000 :=
      Nat.min_le_left _ _
    have hless := Nat.mul_le_mul_left (nominal limits (s.streak pair + 1)) hlow
    have hmore := Nat.mul_le_mul_left (nominal limits (s.streak pair + 1)) hhigh
    rw [hstreak]
    exact ⟨hstarted, rfl, by omega, by omega, by omega⟩
  · intro jitter hjitter k k' hle
    refine ⟨_, _, backoffDelay_eq limits k jitter hjitter, backoffDelay_eq limits k' jitter hjitter,
      min_le_min_right _ (Nat.div_le_div_right (Nat.mul_le_mul_right _ (nominal_le_nominal limits hle)))⟩

/-- `S2sLimits::default()`. -/
def defaults : Limits := ⟨1024, 4194304, 30, 900, by norm_num, by norm_num, by norm_num⟩

/-- Three failures, and a fourth task that dials when the peer registers a stream and ends it again.
Only one failure has come since the registration, and the delay is eight times the initial one. -/
theorem registered_while_dialing :
    ∃ (earlier : List (Event ℕ)) (s s' : State ℕ) (startedAt delay failures : ℕ),
      (State.new ℕ).run defaults true (earlier ++ [.registerBidi 0]) = some s ∧
      s.run defaults true [.unregister 0 0, .failed 3 .timeout 210000000000 [none] none] = some s' ∧
      s'.entries.lookup 0 = some (.backoff startedAt delay .timeout failures) ∧
      1200 * nominal defaults 1 < 1000 * delay := by
  let attempt (counters now : ℕ) : List (Event ℕ) :=
    [.admitted 0 (some 100) true counters now, .failed counters .timeout now [none] none]
  refine ⟨attempt 0 0 ++ attempt 1 30000000000 ++ attempt 2 90000000000 ++
    [.admitted 0 (some 100) true 3 210000000000], _, _, _, _, _, rfl, rfl, rfl, by decide +kernel⟩

end State

end Lonewolf.S2s.Backoff
