import Lonewolf.Base.Transition

/-!
# The task of an outbound link

A link task takes the stanzas queued for a pair of domains to the remote server: it dials, serves the connection
until something ends it, and dials again while stanzas are left. Which future of a `select` completes, and how a
write ends, is the environment's choice; when to flush, what to keep at the head of the queue and whether to dial
again follow the code. No output stays in the buffer while the task waits with an empty queue, and the task does not
dial over and over as long as its connections are used.
-/

namespace Lonewolf.S2s.Outbound

open Transitions

variable {σ : Type*}

/-- A queued stanza and whether it still holds its reservation of queue space, which the first poll of
its write gives up. -/
structure Queued (σ : Type*) where
  stanza : σ
  reservation : Bool
deriving DecidableEq

/-- The two loops that serve a connection: `serve_with_clock` for a stream in one direction, the
sender of `duplex::run` for a bidirectional one. -/
inductive Serving where
  | plain
  | duplex
deriving DecidableEq

/-- Where the task stands. The phases of a serving loop say which loop it is, those of a write also
whether it was asked to flush. -/
inductive Phase where
  | looping
  | dialing
  | waiting (serving : Serving)
  | taken (serving : Serving)
  | writing (serving : Serving) (flush : Bool)
  | emitting (serving : Serving) (flush : Bool)
  | flushing (serving : Serving)
  | disconnected
  | ended
deriving DecidableEq

/-- The queue of a link with the task that holds it. The last field only records the run: how many
connections were attempted since the last backoff or started write. -/
structure Link (σ : Type*) where
  receiver : List σ
  current : Option (Queued σ)
  stopped : Bool
  owns : Bool
  phase : Phase
  buffered : Bool
  unflushed : List σ
  attempts : ℕ
deriving DecidableEq

/-- What the environment decides. -/
inductive Event (σ : Type*) where
  /-- Another task admits a stanza to the queue. -/
  | arrive (stanza : σ)
  | stop
  | disown
  /-- A registered bidirectional stream takes the queue over. -/
  | handOver
  | dial
  | cancelled
  | refused
  | established (serving : Serving)
  | receive
  | write
  /-- The stanza cannot be prepared for the peer. -/
  | discarded
  | peerSizeRejected
  /-- Shutdown or an invalid certificate is seen before the first byte. -/
  | withheld
  | start
  | written
  | flushed
  | fail
  /-- The peer, the idle clock, the certificate or the shutdown ends the connection. -/
  | close
  | next
deriving DecidableEq

/-- The events of a run without admissions and without bidirectional streams. -/
def Event.Quiet (event : Event σ) : Prop :=
  (∀ stanza, event ≠ .arrive stanza) ∧ event ≠ .handOver

/-- Whether the connection was of use, given whether it was before the event: a write was started or a
stanza was disposed of. A link that is being given up need not be. -/
def Event.serves (served : Bool) : Event σ → Bool
  | .dial => false
  | .start | .discarded | .peerSizeRejected | .stop | .disown => true
  | _ => served

namespace Link

def isDrained (l : Link σ) : Bool :=
  l.receiver.isEmpty && l.current.isNone

/-- The connection is new: its writer holds nothing. -/
def connect (l : Link σ) (serving : Serving) : Link σ :=
  { l with phase := .waiting serving, buffered := false, unflushed := [] }

/-- The head was dealt with, and the loop waits for the next one. -/
def proceed (l : Link σ) (serving : Serving) : Link σ :=
  { l with phase := .waiting serving, current := none }

/-- The head's reservation is dropped. -/
def release (l : Link σ) : Link σ :=
  { l with current := l.current.map fun queued => { queued with reservation := false } }

/-- `flush_buffered`, entered after a written, a discarded or a rejected stanza. -/
def flushBuffered (l : Link σ) (serving : Serving) : Link σ :=
  if l.buffered then { l with phase := .flushing serving } else l.proceed serving

/-- A whole stanza went to the writer. -/
def emit (l : Link σ) (stanza : σ) : Link σ :=
  { l with buffered := true, unflushed := l.unflushed ++ [stanza] }

/-- The connection is given up. A head whose write was started goes with it. -/
def disconnect (l : Link σ) : Link σ :=
  { l with phase := .disconnected, current := l.current.filter Queued.reservation }

/-- One step of the task or of its environment; `none` where the event cannot happen. -/
def step (l : Link σ) : Event σ → Option (Link σ)
  | .arrive stanza =>
    if l.phase = .ended then none else some { l with receiver := l.receiver ++ [stanza] }
  | .stop => some { l with stopped := true }
  | .disown => some { l with owns := false }
  | .handOver =>
    -- `offer_standby`, tried before dialing and again when dialing failed
    if (l.phase = .looping ∨ l.phase = .dialing) ∧ l.owns ∧ !l.stopped
    then some (l.connect .duplex) else none
  | .dial =>
    if l.phase = .looping ∧ !l.stopped
    then some { l with phase := .dialing, attempts := l.attempts + 1 } else none
  | .cancelled =>
    if (l.phase = .looping ∨ l.phase = .dialing) ∧ l.stopped
    then some { l with phase := .ended } else none
  | .refused =>
    -- `failed` records the backoff of a link that is still in force
    if l.phase = .dialing
    then some { l with phase := .ended, attempts := if l.owns && !l.stopped then 0 else l.attempts }
    else none
  | .established serving => if l.phase = .dialing then some (l.connect serving) else none
  | .receive =>
    match l.phase, l.current, l.receiver with
    | .waiting serving, none, stanza :: rest =>
      some { l with phase := .taken serving, current := some ⟨stanza, true⟩, receiver := rest }
    | .waiting serving, some _, _ => some { l with phase := .taken serving }
    | _, _, _ => none
  | .write =>
    match l.phase with
    | .taken serving => some { l with phase := .writing serving l.receiver.isEmpty }
    | _ => none
  | .discarded =>
    match l.phase with
    | .writing serving flush =>
      if l.stopped then none
      else some (if flush then l.release.flushBuffered serving else l.proceed serving)
    | _ => none
  | .peerSizeRejected =>
    match l.phase with
    | .writing serving _ =>
      -- the head is bounced before the flush
      if l.stopped then none else some ({ l with current := none }.flushBuffered serving)
    | _ => none
  | .withheld =>
    match l.phase with
    | .writing _ _ => some l.disconnect
    | _ => none
  | .start =>
    match l.phase with
    | .writing serving flush =>
      some { l.release with phase := .emitting serving flush, attempts := 0 }
    | _ => none
  | .written =>
    match l.phase, l.current with
    | .emitting serving flush, some queued =>
      let l := l.emit queued.stanza
      some (if flush then l.flushBuffered serving else l.proceed serving)
    | _, _ => none
  | .flushed =>
    match l.phase with
    | .flushing serving => some { l.proceed serving with buffered := false, unflushed := [] }
    | _ => none
  | .fail =>
    match l.phase with
    | .emitting _ _ | .flushing _ => some l.disconnect
    | _ => none
  | .close =>
    match l.phase with
    | .waiting _ | .taken .duplex | .writing .duplex _ | .emitting .duplex _ | .flushing .duplex =>
      some l.disconnect
    | _ => none
  | .next =>
    if l.phase = .disconnected
    then some { l with phase := if l.stopped || l.isDrained || !l.owns then .ended else .looping }
    else none

/-- The task `admit` launches with the stanzas queued so far. -/
def launched (queue : List σ) : Link σ where
  receiver := queue
  current := none
  stopped := false
  owns := true
  phase := .looping
  buffered := false
  unflushed := []
  attempts := 0

def run (l : Link σ) (events : List (Event σ)) : Option (Link σ) :=
  events.foldlM step l

def system (σ : Type*) : System (Link σ) where
  init l := ∃ queue, l = launched queue
  step l l' := ∃ event, l.step event = some l'

/-- What a step does, event by event. -/
inductive Stepped (l : Link σ) : Event σ → Link σ → Prop
  | arrive {stanza : σ} : Stepped l (.arrive stanza) { l with receiver := l.receiver ++ [stanza] }
  | stop : Stepped l .stop { l with stopped := true }
  | disown : Stepped l .disown { l with owns := false }
  | handOver : Stepped l .handOver (l.connect .duplex)
  | dial (hphase : l.phase = .looping) :
    Stepped l .dial { l with phase := .dialing, attempts := l.attempts + 1 }
  | cancelled : Stepped l .cancelled { l with phase := .ended }
  | refused {attempts : ℕ} (hle : attempts ≤ l.attempts) :
    Stepped l .refused { l with phase := .ended, attempts := attempts }
  | established {serving : Serving} (hphase : l.phase = .dialing) : Stepped l (.established serving) (l.connect serving)
  | receive {serving : Serving} {stanza : σ} {rest : List σ} (hcurrent : l.current = none)
      (hreceiver : l.receiver = stanza :: rest) :
    Stepped l .receive
      { l with phase := .taken serving, current := some ⟨stanza, true⟩, receiver := rest }
  | resume {serving : Serving} (hphase : l.phase = .waiting serving) (hcurrent : l.current.isSome) :
    Stepped l .receive { l with phase := .taken serving }
  | write {serving : Serving} (hphase : l.phase = .taken serving) :
    Stepped l .write { l with phase := .writing serving l.receiver.isEmpty }
  | discarded {serving : Serving} (hphase : l.phase = .writing serving true) :
    Stepped l .discarded (l.release.flushBuffered serving)
  | skipped {serving : Serving} (hphase : l.phase = .writing serving false) : Stepped l .discarded (l.proceed serving)
  | peerSizeRejected {serving : Serving} {flush : Bool} (hphase : l.phase = .writing serving flush) :
    Stepped l .peerSizeRejected ({ l with current := none }.flushBuffered serving)
  | withheld : Stepped l .withheld l.disconnect
  | start {serving : Serving} {flush : Bool} (hphase : l.phase = .writing serving flush) :
    Stepped l .start { l.release with phase := .emitting serving flush, attempts := 0 }
  | written {serving : Serving} {stanza : σ} (hphase : l.phase = .emitting serving true) :
    Stepped l .written ((l.emit stanza).flushBuffered serving)
  | buffered {serving : Serving} {stanza : σ} (hphase : l.phase = .emitting serving false) :
    Stepped l .written ((l.emit stanza).proceed serving)
  | flushed {serving : Serving} (hphase : l.phase = .flushing serving) :
    Stepped l .flushed { l.proceed serving with buffered := false, unflushed := [] }
  | fail (hphase : (∃ serving flush, l.phase = .emitting serving flush) ∨ ∃ serving, l.phase = .flushing serving) :
    Stepped l .fail l.disconnect
  | close : Stepped l .close l.disconnect
  | leave : Stepped l .next { l with phase := .ended }
  | again (hphase : l.phase = .disconnected) (hstopped : l.stopped = false) (howns : l.owns = true) :
    Stepped l .next { l with phase := .looping }

theorem stepped_of_step {l l' : Link σ} {event : Event σ} (hstep : l.step event = some l') : l.Stepped event l' := by
  cases event <;> simp only [step] at hstep
  case refused =>
    simp only [Option.ite_none_right_eq_some, Option.some.injEq] at hstep
    obtain ⟨-, rfl⟩ := hstep
    exact .refused (by split <;> omega)
  all_goals (repeat' split at hstep) <;> cases hstep
  all_goals first
    | constructor <;> assumption
    | exact .resume ‹_› (by simp [*])
    | constructor <;> simp_all

/-- What keeps the output from being left behind. A loop that waits with buffered output has a stanza
to go on with, and a write that will not flush has one behind it. -/
def Owes (l : Link σ) : Prop :=
  match l.phase with
  | .waiting _ => l.buffered → l.current = none → l.receiver ≠ []
  | .writing _ flush | .emitting _ flush => flush = false → l.receiver ≠ []
  | _ => True

/-- The invariant of the output: the flag covers the buffer, and a loop that does not flush goes on. -/
structure Accounted (l : Link σ) : Prop where
  unflushed : l.buffered = false → l.unflushed = []
  owes : l.Owes

theorem Accounted.of_connect (l : Link σ) (serving : Serving) : (l.connect serving).Accounted :=
  ⟨fun _ => rfl, by simp [Owes, connect]⟩

variable {l : Link σ}

theorem Accounted.of_disconnect (h : l.Accounted) : l.disconnect.Accounted :=
  ⟨h.unflushed, trivial⟩

theorem Accounted.of_proceed (serving : Serving) (hflag : l.buffered = false → l.unflushed = [])
    (h : l.buffered → l.receiver ≠ []) : (l.proceed serving).Accounted :=
  ⟨hflag, fun hbuffered _ => h hbuffered⟩

theorem emit_covered (l : Link σ) (stanza : σ) : (l.emit stanza).buffered = false → (l.emit stanza).unflushed = [] := by
  simp [emit]

theorem Accounted.of_flushBuffered (serving : Serving)
    (hflag : l.buffered = false → l.unflushed = []) : (l.flushBuffered serving).Accounted := by
  unfold flushBuffered
  split
  · exact ⟨hflag, trivial⟩
  · exact .of_proceed serving hflag fun h => absurd h ‹_›

theorem Accounted.step {l l' : Link σ} (h : l.Accounted) {event : Event σ}
    (hstep : l.Stepped event l') : l'.Accounted := by
  have howes := h.owes
  cases hstep with
  | arrive =>
    refine ⟨h.unflushed, ?_⟩
    unfold Owes at howes ⊢
    split <;> simp_all
  | stop | disown => exact ⟨h.unflushed, howes⟩
  | handOver | established => exact .of_connect l _
  | dial | cancelled | refused | leave | again => exact ⟨h.unflushed, trivial⟩
  | receive | resume | write => exact ⟨h.unflushed, by simp [Owes]⟩
  | discarded | peerSizeRejected => exact .of_flushBuffered _ h.unflushed
  | skipped hphase =>
    simp only [Owes, hphase] at howes
    exact .of_proceed _ h.unflushed fun _ => howes trivial
  | withheld | fail | close => exact h.of_disconnect
  | start hphase =>
    simp only [Owes, hphase] at howes
    exact ⟨h.unflushed, howes⟩
  | written => exact .of_flushBuffered _ (emit_covered l _)
  | buffered hphase =>
    simp only [Owes, hphase] at howes
    exact .of_proceed _ (emit_covered l _) fun _ => howes trivial
  | flushed => exact ⟨fun _ => rfl, fun hbuffered => absurd hbuffered Bool.false_ne_true⟩

theorem accounted_of_reachable (h : (system σ).Reachable l) : l.Accounted := by
  refine h.invariant ?_ ?_
  · rintro _ ⟨queue, rfl⟩
    exact ⟨fun _ => rfl, trivial⟩
  · rintro l l' - hl ⟨event, hstep⟩
    exact hl.step (stepped_of_step hstep)

theorem reachable_run {queue : List σ} {events : List (Event σ)}
    (hrun : (launched queue).run events = some l) : (system σ).Reachable l := by
  have hfold : events.foldlM step (launched queue) = some l := hrun
  refine .run ?_ (.init ⟨queue, rfl⟩) hfold
  intro _ event _ hstep
  exact ⟨event, hstep⟩

/-- A loop that waits with an empty queue has flushed all it wrote on its connection. -/
theorem waits_with_output_flushed {l : Link σ} (h : (system σ).Reachable l) {serving : Serving}
    (hphase : l.phase = .waiting serving) (hcurrent : l.current = none) (hqueue : l.receiver = []) :
    l.unflushed = [] := by
  have hl := accounted_of_reachable h
  have howes := hl.owes
  simp only [Owes, hphase] at howes
  refine hl.unflushed ?_
  by_contra hbuffered
  exact howes (by simpa using hbuffered) hcurrent hqueue

def flushedLink : Link String :=
  { launched [] with phase := .waiting .plain }

theorem waits_with_output_flushed_hello :
    (launched ["hello"]).run
        [.dial, .established .plain, .receive, .write, .start, .written, .flushed] = some flushedLink ∧
      flushedLink.unflushed = [] := by
  have hrun : (launched ["hello"]).run
      [.dial, .established .plain, .receive, .write, .start, .written, .flushed] = some flushedLink := rfl
  exact ⟨hrun, waits_with_output_flushed (reachable_run hrun) rfl rfl rfl⟩

/-- No connection of these events is closed, or its certificate found invalid, before it was of use. -/
def Served : Bool → List (Event σ) → Prop
  | _, [] => True
  | served, event :: events =>
    (event = .close ∨ event = .withheld → served) ∧ Served (event.serves served) events

/-- The stanzas the task still has to deal with. -/
def pending (l : Link σ) : ℕ :=
  l.receiver.length + (l.current.any Queued.reservation).toNat

theorem pending_disconnect (l : Link σ) : l.disconnect.pending = l.pending := by
  cases hcurrent : l.current with
  | none => simp [pending, disconnect, hcurrent]
  | some queued => cases hreserved : queued.reservation <;> simp [pending, disconnect, hcurrent, hreserved]

theorem pending_release (l : Link σ) : l.release.pending = l.receiver.length := by
  cases hcurrent : l.current <;> simp [pending, release, hcurrent]

theorem receiver_length_le_pending (l : Link σ) : l.receiver.length ≤ l.pending :=
  Nat.le_add_right _ _

/-- The head that is taken to be written holds its reservation, as does one that waits to be taken. -/
def Held (l : Link σ) : Prop :=
  match l.phase with
  | .taken _ | .writing _ _ => l.current.any Queued.reservation
  | .emitting _ _ | .flushing _ | .ended => True
  | _ => l.current.all Queued.reservation

/-- The phases that only a connection that was of use comes to. -/
def Late : Phase → Prop
  | .emitting _ _ | .flushing _ | .disconnected => True
  | _ => False

/-- The budget of attempts. Each is paid with a stanza, and one is made in advance on a connection that
was of no use yet. -/
structure Charged (limit : ℕ) (served : Bool) (l : Link σ) : Prop where
  budget : l.attempts + l.pending ≤ limit + 1
  looping : l.phase = .looping → l.attempts + l.pending ≤ limit
  paid : served → l.stopped = false → l.owns → l.attempts + l.pending ≤ limit
  late : Late l.phase → served
  held : l.Held

variable {limit : ℕ} {served : Bool} {l' : Link σ}

section

variable (h : l.Charged limit served)
include h

theorem Charged.of_le (hsum : l'.attempts + l'.pending ≤ l.attempts + l.pending) (hlooping : l'.phase ≠ .looping)
    (hstopped : l'.stopped = l.stopped) (howns : l'.owns = l.owns) (hlate : Late l'.phase → served) (hheld : l'.Held) :
    l'.Charged limit served where
  budget := hsum.trans h.budget
  looping hphase := absurd hphase hlooping
  paid hserved hs ho := hsum.trans (h.paid hserved (hstopped ▸ hs) (howns ▸ ho))
  late := hlate
  held := hheld

/-- A stanza was disposed of. -/
theorem Charged.of_lt (hsum : l'.attempts + l'.pending < l.attempts + l.pending) (hlooping : l'.phase ≠ .looping)
    (hheld : l'.Held) : l'.Charged limit true where
  budget := hsum.le.trans h.budget
  looping hphase := absurd hphase hlooping
  paid _ _ _ := Nat.le_of_lt_succ (hsum.trans_le h.budget)
  late _ := rfl
  held := hheld

theorem Charged.of_disconnect (hserved : served) : l.disconnect.Charged limit served := by
  refine h.of_le (pending_disconnect l ▸ le_rfl) (by simp [disconnect]) rfl rfl (fun _ => hserved) ?_
  cases hcurrent : l.current <;> simp [Held, disconnect, hcurrent]

end

theorem flushBuffered_spec (l : Link σ) (serving : Serving) :
    (l.flushBuffered serving).attempts = l.attempts ∧ (l.flushBuffered serving).pending ≤ l.pending ∧
      (l.flushBuffered serving).phase ≠ .looping ∧ (l.flushBuffered serving).stopped = l.stopped ∧
      (l.flushBuffered serving).owns = l.owns ∧ (l.flushBuffered serving).Held := by
  unfold flushBuffered
  split
  · exact ⟨rfl, le_rfl, by simp, rfl, rfl, trivial⟩
  · exact ⟨rfl, receiver_length_le_pending l, by simp [proceed], rfl, rfl, by simp [Held, proceed]⟩

theorem Charged.step (h : l.Charged limit served) {event : Event σ} (hstep : l.Stepped event l') (hquiet : event.Quiet)
    (hserved : event = .close ∨ event = .withheld → served) : l'.Charged limit (event.serves served) := by
  have hheld := h.held
  have hwriting {serving flush} (hphase : l.phase = .writing serving flush) : l.pending = l.receiver.length + 1 := by
    simp only [Held, hphase] at hheld
    simp [pending, hheld]
  cases hstep with
  | arrive => exact absurd rfl (hquiet.1 _)
  | handOver => exact absurd rfl hquiet.2
  | stop => exact ⟨h.budget, h.looping, fun _ hstopped => absurd hstopped (by simp), fun _ => rfl, hheld⟩
  | disown => exact ⟨h.budget, h.looping, fun _ _ howns => absurd howns Bool.false_ne_true, fun _ => rfl, hheld⟩
  | dial hphase =>
    refine ⟨?_, by simp, by simp [Event.serves], by simp [Late], ?_⟩
    · have := h.looping hphase
      simp only [pending] at this ⊢
      omega
    · simpa [Held, hphase] using hheld
  | cancelled | leave => exact h.of_le le_rfl (by simp) rfl rfl (by simp [Late]) trivial
  | refused hle => exact h.of_le (Nat.add_le_add_right hle _) (by simp) rfl rfl (by simp [Late]) trivial
  | established hphase =>
    refine h.of_le le_rfl (by simp [connect]) rfl rfl (by simp [Late, connect]) ?_
    simpa [Held, hphase, connect] using hheld
  | receive hcurrent hreceiver =>
    refine h.of_le ?_ (by simp) rfl rfl (by simp [Late]) (by simp [Held])
    simp [pending, hcurrent, hreceiver]
  | resume hphase hcurrent =>
    refine h.of_le le_rfl (by simp) rfl rfl (by simp [Late]) ?_
    obtain ⟨queued, hqueued⟩ := Option.isSome_iff_exists.mp hcurrent
    simpa [Held, hphase, hqueued] using hheld
  | write hphase =>
    refine h.of_le le_rfl (by simp) rfl rfl (by simp [Late]) ?_
    simpa [Held, hphase] using hheld
  | discarded hphase =>
    obtain ⟨hattempts, hpending, hlooping, -, -, hflushed⟩ := flushBuffered_spec l.release _
    refine h.of_lt ?_ hlooping hflushed
    rw [pending_release] at hpending
    rw [hattempts, hwriting hphase]
    exact Nat.add_lt_add_left (Nat.lt_succ_of_le hpending) _
  | skipped hphase =>
    refine h.of_lt ?_ (by simp [proceed]) (by simp [Held, proceed])
    rw [hwriting hphase]
    exact Nat.lt_succ_self _
  | peerSizeRejected hphase =>
    obtain ⟨hattempts, hpending, hlooping, -, -, hflushed⟩ := flushBuffered_spec { l with current := none } _
    refine h.of_lt ?_ hlooping hflushed
    rw [hattempts, hwriting hphase]
    exact Nat.add_lt_add_left (Nat.lt_succ_of_le hpending) _
  | start hphase =>
    refine h.of_lt ?_ (by simp) trivial
    have : l.release.pending < l.pending := by rw [pending_release, hwriting hphase]; exact Nat.lt_succ_self _
    simp only [pending] at this ⊢
    omega
  | written hphase =>
    obtain ⟨hattempts, hpending, hlooping, hstopped, howns, hflushed⟩ := flushBuffered_spec (l.emit _) _
    refine h.of_le ?_ hlooping hstopped howns (fun _ => h.late (by simp [Late, hphase])) hflushed
    rw [hattempts]
    exact Nat.add_le_add_left hpending _
  | buffered | flushed =>
    refine h.of_le ?_ (by simp [proceed]) rfl rfl (by simp [Late, proceed]) (by simp [Held, proceed])
    exact Nat.add_le_add_left (receiver_length_le_pending l) _
  | withheld => exact h.of_disconnect (hserved (.inr rfl))
  | close => exact h.of_disconnect (hserved (.inl rfl))
  | fail hphase =>
    refine h.of_disconnect (h.late ?_)
    rcases hphase with ⟨_, _, hphase⟩ | ⟨_, hphase⟩ <;> simp [Late, hphase]
  | again hphase hstopped howns =>
    have hle := h.paid (h.late (by simp [Late, hphase])) hstopped howns
    refine ⟨h.budget, fun _ => hle, h.paid, by simp [Late], ?_⟩
    simpa [Held, hphase] using hheld

theorem Charged.run {events : List (Event σ)} (hquiet : ∀ event ∈ events, event.Quiet) (hserved : Served served events)
    (h : l.Charged limit served) (hrun : l.run events = some l') : ∃ served', l'.Charged limit served' := by
  induction events generalizing served l with
  | nil =>
    cases hrun
    exact ⟨served, h⟩
  | cons event events ih =>
    obtain ⟨l₁, hstep, hrest⟩ := Option.bind_eq_some_iff.mp hrun
    obtain ⟨hevent, hevents⟩ := List.forall_mem_cons.mp hquiet
    exact ih hevents hserved.2 (h.step (stepped_of_step hstep) hevent hserved.1) hrest

/-- A task attempts at most one connection more than it has stanzas before the next backoff or started
write, as long as no connection ends before it was of use. -/
theorem attempts_bounded_by_queue {queue : List σ} {events : List (Event σ)} {l : Link σ}
    (hquiet : ∀ event ∈ events, event.Quiet) (hserved : Served false events)
    (hrun : (launched queue).run events = some l) : l.attempts ≤ queue.length + 1 := by
  have hlaunched : (launched queue).Charged queue.length false :=
    ⟨by simp [launched, pending], by simp [launched, pending], by simp, by simp [launched, Late],
      by simp [launched, Held]⟩
  obtain ⟨_, hl⟩ := hlaunched.run hquiet hserved hrun
  exact (Nat.le_add_right _ _).trans hl.budget

/-- The first stanza cannot be prepared, the peer closes, and the task dials again for the second. -/
def discardedFirst : List (Event String) :=
  [.dial, .established .plain, .receive, .write, .discarded, .close, .next, .dial]

def redialedLink : Link String :=
  { launched ["world"] with phase := .dialing, attempts := 2 }

theorem attempts_bounded_by_queue_redialed :
    (launched ["hello", "world"]).run discardedFirst = some redialedLink ∧ redialedLink.attempts ≤ 2 + 1 := by
  have hrun : (launched ["hello", "world"]).run discardedFirst = some redialedLink := rfl
  refine ⟨hrun, attempts_bounded_by_queue ?_ ?_ hrun⟩
  · simp [discardedFirst, Event.Quiet]
  · simp [discardedFirst, Served, Event.serves]

/-- The task with one stanza queued, after a number of connections the peer closed at once. -/
def stormed (attempts : ℕ) : Link String :=
  { launched ["hello"] with attempts }

/-- The connection is established and closed by the peer before the task takes the stanza. -/
def closedAtOnce : List (Event String) :=
  [.dial, .established .plain, .close, .next]

theorem run_closedAtOnce (attempts : ℕ) (events : List (Event String)) :
    (stormed attempts).run (closedAtOnce ++ events) = (stormed (attempts + 1)).run events := by
  rfl

/-- A peer that completes the negotiation and closes the stream at once is dialed again and again:
no bound on the attempts holds in every run. -/
theorem reconnect_storm :
    ∃ queue : List String, ∀ bound : ℕ, ∃ events l, (∀ event ∈ events, Event.Quiet event) ∧
      (launched queue).run events = some l ∧ bound < l.attempts := by
  refine ⟨["hello"], fun bound => ?_⟩
  have hrun (closings attempts : ℕ) :
      (stormed attempts).run ((List.replicate closings closedAtOnce).flatten) =
        some (stormed (attempts + closings)) := by
    induction closings generalizing attempts with
    | zero => rfl
    | succ closings ih =>
      rw [List.replicate_succ, List.flatten_cons, run_closedAtOnce, ih, Nat.add_right_comm, Nat.add_assoc]
  refine ⟨(List.replicate (bound + 1) closedAtOnce).flatten, stormed (0 + (bound + 1)), ?_, hrun _ 0,
    by simp [stormed]⟩
  intro event hevent
  obtain ⟨closing, hclosing, hmem⟩ := List.mem_flatten.mp hevent
  obtain rfl := List.eq_of_mem_replicate hclosing
  simp only [closedAtOnce, List.mem_cons, List.not_mem_nil, or_false] at hmem
  rcases hmem with rfl | rfl | rfl | rfl <;> exact ⟨by simp, by simp⟩

end Link

end Lonewolf.S2s.Outbound
