import Lonewolf.Base.Transition
import Lonewolf.S2s.Ingress
import Lonewolf.S2s.Negotiate

/-!
# How long a federation link is valid

A link is valid until its certificate expires and, when revocation is checked against files, until the next update of
the lists. A monitor rechecks the certificate while the link lives. Whoever finds the link invalid first records the
reason, and the others are told it, by the cell it is recorded in or by the monitor's signal. Times are the clock's
readings, in any order.
-/

namespace Lonewolf.S2s

open Transitions

def RevocationVerdict.closeReason (verdict : RevocationVerdict) : Option StreamClose :=
  if verdict.accepts then none
  else match verdict.status with
    | .revoked => some .certificateRevoked
    | .unknown .notAuthoritative => some .revocationUnknown
    | .unknown .stale => some .revocationStale
    | .unknown _ => some .revocationUnavailable
    | .good => none

/-- A verdict with the earliest next update of the files it rests on. -/
structure FiledVerdict extends RevocationVerdict where
  nextUpdate : Option ℕ
deriving DecidableEq

def effectiveDeadline (certificateUntil : ℕ) (verdict : FiledVerdict) : ℕ × StreamClose :=
  match verdict.source, verdict.nextUpdate with
  | .file, some nextUpdate =>
    if nextUpdate < certificateUntil then (nextUpdate, .revocationStale)
    else (certificateUntil, .certificateExpired)
  | _, _ => (certificateUntil, .certificateExpired)

/-- Where the signal of a link comes from: a link without a monitor waits for the expiry of its
certificate, the others for their monitor to send a reason or to go away. -/
inductive SignalSource where
  | expiry
  | held
  | sent (reason : StreamClose)
  | dropped
deriving DecidableEq

/-- Between its awaits the monitor waits for something to happen, has been woken, or rechecks. -/
inductive MonitorPhase where
  | waiting
  | woken
  | rechecking
deriving DecidableEq

/-- A link's `State` with its monitor. `completed` is what `peek` gives: the value of the signal once
somebody has polled it. `monitor` is empty when there is none, when it was dropped and when it has
invalidated the link. -/
structure LinkValidity where
  certificateUntil : ℕ
  validUntil : ℕ
  deadlineReason : StreamClose
  invalidated : Option StreamClose
  source : SignalSource
  completed : Option StreamClose
  monitor : Option (FiledVerdict × MonitorPhase)
deriving DecidableEq

/-- How a recheck ends: at the deadline of the link, at its own timeout, or with a result. -/
inductive Recheck where
  | deadline
  | timeout
  | result (verdict : Option FiledVerdict)
deriving DecidableEq

/-- What the observers and the monitor do, each between two awaits. A reading that is `none` means that
the poll does not reach the clock. -/
inductive ValidityEvent where
  | check (now : ℕ)
  | reason
  /-- A failing `check` whose reason goes to `record_invalidation`. -/
  | recordInvalidation (now : ℕ)
  | poll (reading : Option ℕ)
  /-- The first poll of `wait`, and a later one. -/
  | wait (now : ℕ) (reading : Option ℕ)
  | waitAgain (reading : Option ℕ)
  /-- The monitor's wait ends, at the deadline or for another cause. -/
  | elapsed (now : ℕ)
  | wake
  | attempt (now : ℕ)
  | complete (now : ℕ) (recheck : Recheck)
  | dropMonitor
deriving DecidableEq

/-- What an observer is told. -/
inductive Told where
  | nothing
  | answered (reason : Option StreamClose)
  | recorded (reason : StreamClose)
  | observed (reason : StreamClose)
deriving DecidableEq

namespace LinkValidity

def fixed (validUntil : ℕ) : LinkValidity :=
  ⟨validUntil, validUntil, .certificateExpired, none, .expiry, none, none⟩

def monitored (validUntil : ℕ) (verdict : FiledVerdict) : LinkValidity :=
  let (deadline, reason) := effectiveDeadline validUntil verdict
  ⟨validUntil, deadline, reason, none, .held, none, some (verdict, .waiting)⟩

def reason (l : LinkValidity) : Option StreamClose :=
  l.invalidated <|> l.completed

/-- `none` is `Ok(())`. -/
def check (l : LinkValidity) (now : ℕ) : Option StreamClose :=
  match l.reason with
  | some reason => some reason
  | none => if l.validUntil ≤ now then some l.deadlineReason else none

/-- The cell after `record`, and the reason it holds. -/
def record (l : LinkValidity) (observed : StreamClose) : LinkValidity × StreamClose :=
  let reason := l.invalidated.getD observed
  ({ l with invalidated := some reason }, reason)

/-- The value of the signal when it is polled. -/
def signalled (l : LinkValidity) (reading : Option ℕ) : Option StreamClose :=
  match l.completed, l.source with
  | some reason, _ => some reason
  | none, .expiry => if reading.any (l.validUntil ≤ ·) then some .certificateExpired else none
  | none, .held => none
  | none, .sent reason => some reason
  | none, .dropped => some .certificateExpired

def poll (l : LinkValidity) (reading : Option ℕ) : LinkValidity :=
  { l with completed := l.signalled reading }

/-- A wait whose signal is polled: it records what it sees. -/
def awaitSignal (l : LinkValidity) (reading : Option ℕ) : LinkValidity × Told :=
  let l := l.poll reading
  match l.completed with
  | some observed => ((l.record observed).1, .recorded (l.record observed).2)
  | none => (l, .nothing)

/-- The monitor records the reason, sends it and stops. -/
def invalidate (l : LinkValidity) (observed : StreamClose) : LinkValidity :=
  let (l, reason) := l.record observed
  { l with source := .sent reason, monitor := none }

/-- A verdict is installed with its deadline, against which the reading is checked again. -/
def install (l : LinkValidity) (now : ℕ) (verdict : FiledVerdict) : LinkValidity :=
  let (deadline, reason) := effectiveDeadline l.certificateUntil verdict
  let l := { l with validUntil := deadline, deadlineReason := reason, monitor := some (verdict, .waiting) }
  match l.check now with
  | some reason => l.invalidate reason
  | none => l

/-- The end of a recheck, once the reading has passed the check. -/
def conclude (l : LinkValidity) (now : ℕ) (verdict : FiledVerdict) : Recheck → LinkValidity
  | .deadline => l.invalidate l.deadlineReason
  | .timeout =>
    if verdict.source = .file then l.invalidate .revocationUnavailable
    else { l with monitor := some (verdict, .waiting) }
  | .result (some next) =>
    match next.closeReason with
    | some reason => l.invalidate reason
    | none => l.install now next
  | .result none => { l with monitor := some (verdict, .waiting) }

/-- The monitor is dropped: a reason recorded by then goes to the signal. -/
def dropMonitor (l : LinkValidity) : LinkValidity :=
  { l with
    source := match l.invalidated with
      | some reason => .sent reason
      | none => .dropped
    monitor := none }

def step (l : LinkValidity) : ValidityEvent → Option (LinkValidity × Told)
  | .check now => some (l, .answered (l.check now))
  | .reason => some (l, .answered l.reason)
  | .recordInvalidation now =>
    (l.check now).map fun observed => ((l.record observed).1, .recorded (l.record observed).2)
  | .poll reading =>
    some (l.poll reading, ((l.poll reading).completed.map Told.observed).getD .nothing)
  | .wait now reading =>
    match l.check now with
    | some observed => some ((l.record observed).1, .recorded (l.record observed).2)
    | none => some (l.awaitSignal reading)
  | .waitAgain reading => some (l.awaitSignal reading)
  | .elapsed now =>
    match l.monitor with
    | some (verdict, .waiting) =>
      if l.validUntil ≤ now then some ({ l with monitor := some (verdict, .woken) }, .nothing) else none
    | _ => none
  | .wake =>
    match l.monitor with
    | some (verdict, .waiting) => some ({ l with monitor := some (verdict, .woken) }, .nothing)
    | _ => none
  | .attempt now =>
    match l.monitor with
    | some (verdict, .woken) =>
      match l.check now with
      | some reason => some (l.invalidate reason, .nothing)
      | none => some ({ l with monitor := some (verdict, .rechecking) }, .nothing)
    | _ => none
  | .complete now recheck =>
    match l.monitor with
    | some (verdict, .rechecking) =>
      match l.check now with
      | some reason => some (l.invalidate reason, .nothing)
      | none => some (l.conclude now verdict recheck, .nothing)
    | _ => none
  | .dropMonitor => l.monitor.map fun _ => (l.dropMonitor, .nothing)

def run (l : LinkValidity) (events : List ValidityEvent) : Option LinkValidity :=
  events.foldlM (fun l event => (l.step event).map Prod.fst) l

/-- A monitored link starts with the verdict its handshake accepted. -/
def system : System LinkValidity where
  init l := ∃ validUntil, l = fixed validUntil ∨
    ∃ verdict : FiledVerdict, verdict.closeReason = none ∧ l = monitored validUntil verdict
  step l l' := ∃ event told, l.step event = some (l', told)

/-- What an observer is told once the link is invalid for a reason: that reason. A wait that was begun
before may go on, and the signal has a value of its own. -/
def Agrees (r : StreamClose) : ValidityEvent → Told → Prop
  | .check _, told | .reason, told => told = .answered (some r)
  | .recordInvalidation _, told | .wait _ _, told => told = .recorded r
  | .waitAgain _, told => told = .recorded r ∨ told = .nothing
  | _, _ => True

/-- The polls of the signal that a `wait` makes: of a new one only once the link passes the check. -/
inductive Awaits (l : LinkValidity) (reading : Option ℕ) : ValidityEvent → Prop
  | first {now : ℕ} (hcheck : l.check now = none) : Awaits l reading (.wait now reading)
  | again : Awaits l reading (.waitAgain reading)

/-- What a step does, by its outcome. -/
inductive Stepped (l : LinkValidity) : ValidityEvent → LinkValidity → Told → Prop
  | check : ∀ {now}, Stepped l (.check now) l (.answered (l.check now))
  | reason : Stepped l .reason l (.answered l.reason)
  | recorded {event : ValidityEvent} {now : ℕ} {observed : StreamClose} (hcheck : l.check now = some observed)
      (hevent : event = .recordInvalidation now ∨ ∃ reading, event = .wait now reading) :
    Stepped l event (l.record observed).1 (.recorded (l.record observed).2)
  | poll {reading : Option ℕ} :
    Stepped l (.poll reading) (l.poll reading) (((l.poll reading).completed.map Told.observed).getD .nothing)
  | awaited {event : ValidityEvent} {reading : Option ℕ} {observed : StreamClose} (hawaits : l.Awaits reading event)
      (hsignal : l.signalled reading = some observed) :
    Stepped l event ((l.poll reading).record observed).1 (.recorded (l.record observed).2)
  | waits {event : ValidityEvent} {reading : Option ℕ} (hawaits : l.Awaits reading event) :
    Stepped l event (l.poll reading) .nothing
  | woken {event : ValidityEvent} {verdict : FiledVerdict} (hmonitor : l.monitor = some (verdict, .waiting))
      (hevent : event = .wake ∨ ∃ now, event = .elapsed now) :
    Stepped l event { l with monitor := some (verdict, .woken) } .nothing
  | invalidated {event : ValidityEvent} {now : ℕ} {reason : StreamClose} (hcheck : l.check now = some reason)
      (hevent : event = .attempt now ∨ ∃ recheck, event = .complete now recheck) :
    Stepped l event (l.invalidate reason) .nothing
  | attempt {now : ℕ} {verdict : FiledVerdict} (hmonitor : l.monitor = some (verdict, .woken))
      (hcheck : l.check now = none) :
    Stepped l (.attempt now) { l with monitor := some (verdict, .rechecking) } .nothing
  | complete {now : ℕ} {recheck : Recheck} {verdict : FiledVerdict}
      (hmonitor : l.monitor = some (verdict, .rechecking)) (hcheck : l.check now = none) :
    Stepped l (.complete now recheck) (l.conclude now verdict recheck) .nothing
  | dropMonitor : Stepped l .dropMonitor l.dropMonitor .nothing

variable {l l' : LinkValidity} {r : StreamClose}

variable {told : Told} {event : ValidityEvent}

theorem stepped_of_awaitSignal {reading : Option ℕ} (hawaits : l.Awaits reading event)
    (hawait : l.awaitSignal reading = (l', told)) : l.Stepped event l' told := by
  simp only [awaitSignal] at hawait
  split at hawait <;> cases hawait
  · exact .awaited hawaits ‹_›
  · exact .waits hawaits

theorem stepped_of_step (hstep : l.step event = some (l', told)) : l.Stepped event l' told := by
  cases event with
  | check now | reason | poll reading =>
    cases hstep
    constructor
  | recordInvalidation now =>
    obtain ⟨observed, hcheck, hrecord⟩ := Option.map_eq_some_iff.mp hstep
    cases hrecord
    exact .recorded hcheck (.inl rfl)
  | wait now reading =>
    simp only [step] at hstep
    split at hstep
    · cases hstep
      exact .recorded ‹_› (.inr ⟨reading, rfl⟩)
    · exact stepped_of_awaitSignal (.first ‹_›) (Option.some.inj hstep)
  | waitAgain reading => exact stepped_of_awaitSignal .again (Option.some.inj hstep)
  | elapsed now | wake =>
    simp only [step] at hstep
    (repeat' split at hstep) <;> cases hstep
    exact .woken ‹_› (by simp)
  | attempt now | complete now recheck =>
    simp only [step] at hstep
    (repeat' split at hstep) <;> cases hstep
    · exact .invalidated ‹_› (by simp)
    · constructor <;> assumption
  | dropMonitor =>
    obtain ⟨_, -, hdrop⟩ := Option.map_eq_some_iff.mp hstep
    cases hdrop
    exact .dropMonitor

variable {verdict : FiledVerdict} {phase : MonitorPhase}

/-- The deadline in force is the certificate's, lowered by the verdict the monitor holds, which gives no
reason to close. -/
structure Timely (l : LinkValidity) : Prop where
  le : l.validUntil ≤ l.certificateUntil
  monitor : ∀ v p, l.monitor = some (v, p) →
    v.closeReason = none ∧ l.validUntil = (effectiveDeadline l.certificateUntil v).1

end LinkValidity

end Lonewolf.S2s
