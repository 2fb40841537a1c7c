import Lonewolf.Base.Transition

/-!
# The link between a session and its transport

`c2s/stream/bound/link`: a bound session sends its output as commands over a channel, and the transport
half performs them one by one and forwards what it reads, in another task. Both share the record of
their progress. A step below is what one half does between two awaits.
-/

namespace Lonewolf.C2s

open Transitions

variable {ω ι ε : Type}

/-- A flush records the writes that were issued before it. -/
inductive Command (ω ε : Type) where
  | write (output : ω)
  | flush (request : ℕ) (issued : List ω)
  | close (outcome : ε)
deriving DecidableEq

def writes : List (Command ω ε) → List ω
  | [] => []
  | .write output :: rest => output :: writes rest
  | _ :: rest => writes rest

/-- What the session waits for: room in the channel, or the end of a flush. -/
inductive Session (ω ε : Type) where
  | idle
  | sendingWrite (output : ω)
  | sendingFlush (request : ℕ)
  | sendingClose (outcome : ε)
  | awaiting (request : ℕ) (issued : List ω)
deriving DecidableEq

/-- The read loop waits until what it sent is accepted, reads from the connection, or sends on. -/
inductive Reading (ι : Type) where
  | waiting
  | reading
  | sending (incoming : ι)
  | ended
deriving DecidableEq

/-- Both halves, the channel and the shared progress. The fields after `forwarded` record the run: the
commands that are done with, the writes that succeeded, those of them that were flushed afterwards, and
the stanzas that were parsed and sent on. -/
structure Link (ω ι ε : Type) where
  session : Session ω ε
  requestedFlush : ℕ
  queue : List (Command ω ε)
  closed : Bool
  completedFlush : ℕ
  failure : Option ε
  stopped : Bool
  accepted : ℕ
  current : Option (Command ω ε)
  outcome : Option ε
  reading : Reading ι
  forwarded : ℕ
  finished : List (Command ω ε)
  performed : List ω
  flushed : List ω
  parsed : List ι
  sent : List ι
deriving DecidableEq

/-- The calls of the session that have an answer, and the rest. -/
inductive Action (ω : Type) where
  | write (output : ω)
  | flush
  /-- A write or a flush that was called before goes on. -/
  | resume
  | other
deriving DecidableEq

/-- What a write or a flush of the session returns; `none` while it is not over. -/
abbrev Answer (ε : Type) := Option (Except ε Unit)

def commandCapacity : ℕ := 16

namespace Link

def new : Link ω ι ε :=
  ⟨.idle, 0, [], false, 0, none, false, 0, none, none, .waiting, 0, [], [], [], [], []⟩

def issued (l : Link ω ι ε) : List ω :=
  writes (l.finished ++ (l.current.toList ++ l.queue))

/-- `LinkTransport::fail`: the first failure stays. -/
def fail (l : Link ω ι ε) (outcome : ε) : Link ω ι ε :=
  { l with failure := some (l.failure.getD outcome) }

/-- The transport is done with a command. -/
def finish (l : Link ω ι ε) (command : Command ω ε) : Link ω ι ε :=
  { l with current := none, finished := l.finished ++ [command] }

/-- A write that succeeded, or a flush. -/
def perform (l : Link ω ι ε) : Command ω ε → Link ω ι ε
  | .write output => { l with performed := l.performed ++ [output] }
  | .flush request _ => { l with completedFlush := request, flushed := l.performed }
  | .close _ => l

def push (l : Link ω ι ε) (command : Command ω ε) (session : Session ω ε) : Link ω ι ε :=
  { l with queue := l.queue ++ [command], session }

/-- The write loop takes the next command, which does not end it. -/
structure Takes (l : Link ω ι ε) (command : Command ω ε) (rest : List (Command ω ε)) : Prop where
  idle : l.current = none
  runs : l.outcome = none
  queue : l.queue = command :: rest
  goes : ∀ outcome, command ≠ .close outcome

end Link

section

variable (internal : ε) (l : Link ω ι ε)

/-- The steps of both halves. `internal` is `InternalError`. -/
inductive Step : Action ω → Answer ε → Link ω ι ε → Prop where
  | write (output : ω) (hidle : l.session = .idle) (hok : l.failure = none) :
      Step (.write output) none { l with session := .sendingWrite output }
  | writeFailed (output : ω) (outcome : ε) (hidle : l.session = .idle) (hfailed : l.failure = some outcome) :
      Step (.write output) (some (.error outcome)) l
  | flush (hidle : l.session = .idle) (hok : l.failure = none) :
      Step .flush none
        { l with session := .sendingFlush (l.requestedFlush + 1), requestedFlush := l.requestedFlush + 1 }
  | flushFailed (outcome : ε) (hidle : l.session = .idle) (hfailed : l.failure = some outcome) :
      Step .flush (some (.error outcome)) l
  | close (outcome : ε) (hidle : l.session = .idle) :
      Step .other none { l with session := .sendingClose outcome }
  | sendWrite (output : ω) (hsession : l.session = .sendingWrite output) (hopen : l.closed = false)
      (hroom : l.queue.length < commandCapacity) :
      Step .resume (some (.ok ())) (l.push (.write output) .idle)
  | sendFlush (request : ℕ) (hsession : l.session = .sendingFlush request) (hopen : l.closed = false)
      (hroom : l.queue.length < commandCapacity) :
      Step .resume none (l.push (.flush request l.issued) (.awaiting request l.issued))
  | sendClose (outcome : ε) (hsession : l.session = .sendingClose outcome) (hopen : l.closed = false)
      (hroom : l.queue.length < commandCapacity) :
      Step .other none (l.push (.close outcome) .idle)
  | sendFailed (hbusy : l.session ≠ .idle) (hsending : ∀ request issued, l.session ≠ .awaiting request issued)
      (hclosed : l.closed = true) :
      Step .resume (some (.error (l.failure.getD internal))) { l with session := .idle }
  | pollFailed (request : ℕ) (issued : List ω) (outcome : ε) (hsession : l.session = .awaiting request issued)
      (hfailed : l.failure = some outcome) :
      Step .resume (some (.error outcome)) { l with session := .idle }
  | pollDone (request : ℕ) (issued : List ω) (hsession : l.session = .awaiting request issued)
      (hok : l.failure = none) (hdone : request ≤ l.completedFlush) :
      Step .resume (some (.ok ())) { l with session := .idle }
  /-- The future of a write or a flush is dropped. -/
  | cancel : Step .other none { l with session := .idle }
  | accept : Step .other none { l with accepted := l.accepted + 1 }
  | stop : Step .other none { l with stopped := true }
  | drop : Step .other none { l with stopped := true, closed := true, session := .idle }
  /-- The write loop returns the outcome of a close. -/
  | takeClose (outcome : ε) (rest : List (Command ω ε)) (hidle : l.current = none) (hruns : l.outcome = none)
      (hqueue : l.queue = .close outcome :: rest) :
      Step .other none { l.finish (.close outcome) with queue := rest, outcome := some outcome }
  | skip (command : Command ω ε) (rest : List (Command ω ε)) (htakes : l.Takes command rest)
      (hover : l.stopped = true ∨ l.failure ≠ none) :
      Step .other none { l.finish command with queue := rest }
  /-- The certificate is found invalid before the command is begun. -/
  | refuse (command : Command ω ε) (rest : List (Command ω ε)) (outcome : ε) (htakes : l.Takes command rest)
      (hstopped : l.stopped = false) (hok : l.failure = none) :
      Step .other none { (l.finish command).fail outcome with queue := rest }
  | start (command : Command ω ε) (rest : List (Command ω ε)) (htakes : l.Takes command rest)
      (hstopped : l.stopped = false) (hok : l.failure = none) :
      Step .other none { l with current := some command, queue := rest }
  | succeed (command : Command ω ε) (hcurrent : l.current = some command) (hstopped : l.stopped = false) :
      Step .other none ((l.perform command).finish command)
  | breakOff (command : Command ω ε) (outcome : ε) (hcurrent : l.current = some command)
      (hstopped : l.stopped = false) : Step .other none ((l.finish command).fail outcome)
  /-- `until_stopped` drops the operation. -/
  | interrupt (command : Command ω ε) (hcurrent : l.current = some command) (hstopped : l.stopped = true) :
      Step .other none (l.finish command)
  /-- The reading side records a failure. -/
  | fail (outcome : ε) : Step .other none (l.fail outcome)
  | startRead (hreading : l.reading = .waiting) (hstopped : l.stopped = false) (haccepted : l.forwarded ≤ l.accepted) :
      Step .other none { l with reading := .reading }
  | parse (incoming : ι) (hreading : l.reading = .reading) :
      Step .other none
        { l with reading := .sending incoming, forwarded := l.forwarded + 1, parsed := l.parsed ++ [incoming] }
  | forward (incoming : ι) (hreading : l.reading = .sending incoming) :
      Step .other none { l with reading := .waiting, sent := l.sent ++ [incoming] }
  /-- The read loop returns: it was stopped, or it sent the end of the stream or failed. -/
  | endRead : Step .other none { l with reading := .ended }

end

def system (internal : ε) : System (Link ω ι ε) where
  init l := l = .new
  step l l' := ∃ action answer, Step internal l action answer l'

theorem writes_append (first second : List (Command ω ε)) :
    writes (first ++ second) = writes first ++ writes second := by
  induction first with
  | nil => rfl
  | cons command rest ih => cases command <;> simp [writes, ih]

/-- Every flush in the channel records the writes before it. -/
def Placed (before : List ω) : List (Command ω ε) → Prop
  | [] => True
  | .write output :: rest => Placed (before ++ [output]) rest
  | .flush _ issued :: rest => issued = before ∧ Placed before rest
  | .close _ :: rest => Placed before rest

variable {before : List ω}

theorem Placed.append {first second : List (Command ω ε)} (h : Placed before first)
    (hsecond : Placed (before ++ writes first) second) : Placed before (first ++ second) := by
  induction first generalizing before with
  | nil => simpa [writes] using hsecond
  | cons command rest ih =>
    cases command with
    | write output => exact ih h (by simpa [writes] using hsecond)
    | flush request issued => exact ⟨h.1, ih h.2 hsecond⟩
    | close outcome => exact ih h hsecond

theorem Placed.tail {command : Command ω ε} {rest : List (Command ω ε)} (h : Placed before (command :: rest)) :
    Placed (before ++ writes [command]) rest := by
  cases command with
  | write output => exact h
  | flush request issued => simpa [writes] using h.2
  | close outcome => simpa [writes, Placed] using h

namespace Link

def pending (l : Link ω ι ε) : List (Command ω ε) :=
  l.current.toList ++ l.queue

/-- The stanzas are sent on as they are parsed, one after another. -/
def Orderly (l : Link ω ι ε) : Prop :=
  match l.reading with
  | .waiting | .reading => l.parsed = l.sent ∧ l.forwarded = l.sent.length
  | .sending incoming => l.parsed = l.sent ++ [incoming] ∧ l.forwarded = l.sent.length + 1
  | .ended => l.sent <+: l.parsed

/-- The invariant of a link. -/
structure Sound (l : Link ω ι ε) : Prop where
  placed : Placed (writes l.finished) l.pending
  performed : l.current ≠ none ∨ l.failure = none ∧ l.stopped = false → l.performed = writes l.finished
  flushed : l.flushed <+: l.performed
  requests : ∀ request issued, .flush request issued ∈ l.pending → request ≤ l.requestedFlush ∧
    (∀ other, l.session = .sendingFlush other → request < other) ∧
    ∀ issued', l.session = .awaiting request issued' → issued = issued'
  completed : l.completedFlush ≤ l.requestedFlush
  sending : ∀ request, l.session = .sendingFlush request →
    request = l.requestedFlush ∧ l.completedFlush < request
  awaiting : ∀ request issued, l.session = .awaiting request issued →
    request = l.requestedFlush ∧ (request ≤ l.completedFlush → issued <+: l.flushed)
  orderly : l.Orderly

variable {l l' : Link ω ι ε} {command : Command ω ε} {rest : List (Command ω ε)}

theorem Takes.pending (h : l.Takes command rest) : l.pending = command :: rest := by
  simp [Link.pending, h.idle, h.queue]

theorem pending_of_current (h : l.current = some command) : l.pending = command :: l.queue := by
  simp [pending, h]

variable {action : Action ω} {answer : Answer ε} {internal : ε}

section

variable (h : l.Sound)
include h

theorem Sound.turn {session : Session ω ε} (hsending : ∀ request, session ≠ .sendingFlush request)
    (hawaiting : ∀ request issued, session ≠ .awaiting request issued) : Sound { l with session } :=
  { h with
    requests := fun request issued hmem => ⟨(h.requests request issued hmem).1,
      fun other heq => absurd heq (hsending other), fun issued' heq => absurd heq (hawaiting request issued')⟩
    sending := fun request heq => absurd heq (hsending request)
    awaiting := fun request issued heq => absurd heq (hawaiting request issued) }

theorem Sound.idle : Sound { l with session := .idle } :=
  h.turn (by simp) (by simp)

theorem Sound.push (hplaced : Placed l.issued [command]) (hflush : ∀ request issued, command ≠ .flush request issued) :
    Sound (l.push command .idle) := by
  have hidle := h.idle
  have hissued : l.issued = writes l.finished ++ writes l.pending := writes_append _ _
  have hpending : (l.push command .idle).pending = l.pending ++ [command] := by
    simp [pending, Link.push]
  refine { hidle with placed := ?_, requests := fun request issued hmem => ?_ }
  · rw [hpending]
    exact h.placed.append (hissued ▸ hplaced)
  · rw [hpending, List.mem_append, List.mem_singleton] at hmem
    rcases hmem with hmem | hmem
    · exact hidle.requests request issued hmem
    · exact absurd hmem.symm (hflush request issued)

theorem Sound.pushFlush {request : ℕ} (hsession : l.session = .sendingFlush request) :
    Sound (l.push (.flush request l.issued) (.awaiting request l.issued)) := by
  obtain ⟨hrequest, hcompleted⟩ := h.sending request hsession
  have hissued : l.issued = writes l.finished ++ writes l.pending := writes_append _ _
  have hpending : (l.push (.flush request l.issued) (.awaiting request l.issued)).pending =
      l.pending ++ [.flush request l.issued] := by
    simp [pending, Link.push]
  refine { h with placed := ?_, requests := fun other issued hmem => ?_, sending := by simp [Link.push], awaiting := ?_ }
  · rw [hpending]
    exact h.placed.append ⟨hissued, trivial⟩
  · rw [hpending, List.mem_append, List.mem_singleton] at hmem
    rcases hmem with hmem | hmem
    · obtain ⟨hle, hlt, -⟩ := h.requests other issued hmem
      have hother := hlt request hsession
      refine ⟨hle, by simp [Link.push], fun issued' heq => ?_⟩
      cases heq
      omega
    · cases hmem
      exact ⟨hrequest.le, by simp [Link.push], fun issued' heq => by cases heq; rfl⟩
  · intro other issued heq
    cases heq
    exact ⟨hrequest, fun hle => absurd hle (Nat.not_le.mpr hcompleted)⟩

theorem Sound.pop (hpending : l.pending = command :: rest) {failure outcome : Option ε}
    (hperformed : failure = none ∧ l.stopped = false → l.performed = writes (l.finished ++ [command])) :
    Sound { l.finish command with queue := rest, failure, outcome } where
  placed := by
    show Placed (writes (l.finished ++ [command])) rest
    rw [writes_append]
    exact (hpending ▸ h.placed).tail
  performed := by simpa [Link.finish] using hperformed
  flushed := h.flushed
  requests request issued hmem := h.requests request issued (hpending ▸ List.mem_cons_of_mem command hmem)
  completed := h.completed
  sending := h.sending
  awaiting := h.awaiting
  orderly := h.orderly

theorem Sound.succeed (hcurrent : l.current = some command) : Sound ((l.perform command).finish command) := by
  have hpending := pending_of_current hcurrent
  have hperformed := h.performed (.inl (by simp [hcurrent]))
  have hplaced := hpending ▸ h.placed
  have hrequests (request issued) (hmem : .flush request issued ∈ l.queue) :=
    h.requests request issued (hpending ▸ List.mem_cons_of_mem command hmem)
  have htail : Placed (writes (l.finished ++ [command])) l.queue := by
    rw [writes_append]
    exact hplaced.tail
  cases command with
  | write output =>
    refine { h with placed := htail, requests := hrequests, performed := fun _ => ?_, flushed := ?_ }
    · show l.performed ++ [output] = writes (l.finished ++ [.write output])
      rw [writes_append, hperformed]
      rfl
    · exact h.flushed.trans (List.prefix_append _ _)
  | flush request issued =>
    -- the flush that is awaited, if it is this one, records the writes performed so far
    obtain ⟨hle, hlt, hissued⟩ := h.requests request issued (hpending ▸ List.mem_cons_self)
    refine ⟨htail, fun _ => ?_, List.prefix_rfl, hrequests, hle, fun other heq => ?_, fun other issued' heq => ?_, h.orderly⟩
    · show l.performed = writes (l.finished ++ [.flush request issued])
      rw [writes_append, hperformed]
      exact (List.append_nil _).symm
    · exact ⟨(h.sending other heq).1, hlt other heq⟩
    · have hother := (h.awaiting other issued' heq).1
      refine ⟨hother, fun hdone => ?_⟩
      obtain rfl : other = request := le_antisymm hdone (hother ▸ hle)
      rw [← hissued issued' heq, hplaced.1, ← hperformed]
      exact List.prefix_rfl
  | close outcome =>
    refine { h with placed := htail, requests := hrequests, performed := fun _ => ?_ }
    show l.performed = writes (l.finished ++ [.close outcome])
    rw [writes_append, hperformed]
    exact (List.append_nil _).symm

theorem Sound.step (hstep : Step internal l action answer l') : l'.Sound := by
  have hover {outcome : ε} (hfailed : (l.fail outcome).failure = none) : False := by
    simp [Link.fail] at hfailed
  cases hstep with
  | write output | close outcome => exact h.turn (by simp) (by simp)
  | writeFailed output outcome | flushFailed outcome => exact h
  | sendFailed | pollFailed | pollDone | cancel => exact h.idle
  | flush hidle hok =>
    refine { h with requests := ?_, completed := ?_, sending := ?_, awaiting := by simp }
    · intro request issued hmem
      have hle := (h.requests request issued hmem).1
      exact ⟨by simp; omega, fun other heq => by cases heq; omega, by simp⟩
    · exact h.completed.trans (Nat.le_succ _)
    · intro request heq
      cases heq
      exact ⟨rfl, Nat.lt_succ_of_le h.completed⟩
  | sendWrite output => exact h.push trivial (by simp)
  | sendFlush request hsession => exact h.pushFlush hsession
  | sendClose outcome => exact h.push trivial (by simp)
  | accept => exact { h with }
  | stop => exact { h with performed := fun hor => h.performed (hor.imp_right (by simp)) }
  | drop =>
    have hidle := h.idle
    exact { hidle with performed := fun hor => h.performed (hor.imp_right (by simp)) }
  | takeClose outcome rest hidle hruns hqueue =>
    refine h.pop (by simp [pending, hidle, hqueue]) fun hok => ?_
    rw [writes_append, h.performed (.inr hok)]
    exact (List.append_nil _).symm
  | skip command rest htakes hskip =>
    refine h.pop htakes.pending fun hok => ?_
    rcases hskip with hstopped | hfailed
    · exact absurd hstopped (by simp [hok.2])
    · exact absurd hok.1 hfailed
  | refuse command rest outcome htakes => exact h.pop htakes.pending fun hok => (hover hok.1).elim
  | start command rest htakes hstopped hok =>
    have hpending : Link.pending { l with current := some command, queue := rest } = l.pending := htakes.pending.symm
    refine { h with placed := ?_, requests := ?_, performed := fun _ => h.performed (.inr ⟨hok, hstopped⟩) }
    · rw [hpending]
      exact h.placed
    · rw [hpending]
      exact h.requests
  | succeed command hcurrent => exact h.succeed hcurrent
  | breakOff command outcome hcurrent =>
    exact h.pop (pending_of_current hcurrent) fun hok => (hover hok.1).elim
  | interrupt command hcurrent hstopped =>
    exact h.pop (pending_of_current hcurrent) fun hok => by simp [hok.2] at hstopped
  | fail outcome => exact { h with performed := fun hor => h.performed (hor.imp_right fun hok => (hover hok.1).elim) }
  | startRead hreading =>
    exact { h with orderly := by simpa [Orderly, hreading] using h.orderly }
  | parse incoming hreading | forward incoming hreading =>
    have horderly := h.orderly
    simp only [Orderly, hreading] at horderly
    exact { h with orderly := by simp [Orderly, horderly] }
  | endRead =>
    refine { h with orderly := ?_ }
    have horderly := h.orderly
    unfold Orderly at horderly
    show l.sent <+: l.parsed
    split at horderly <;> simp [horderly]

end

theorem sound_of_reachable (h : (system internal).Reachable l) : l.Sound := by
  refine h.invariant ?_ ?_
  · rintro _ rfl
    exact ⟨trivial, fun _ => rfl, List.prefix_rfl, by simp [pending, new], le_rfl, by simp [new], by simp [new],
      ⟨rfl, rfl⟩⟩
  · rintro l l' - hl ⟨action, answer, hstep⟩
    exact hl.step hstep

theorem failure_of_step {internal outcome : ε}
    (hstep : Step internal l action answer l') (hfailed : l.failure = some outcome) :
    l'.failure = some outcome ∧ (action = .flush ∨ (∃ output, action = .write output) →
      answer = some (.error outcome)) ∧
    (∀ request issued, l.session = .awaiting request issued → action = .resume → answer = some (.error outcome)) := by
  cases hstep with
  | succeed command =>
    refine ⟨?_, by simp, by simp⟩
    cases command <;> exact hfailed
  | _ => simp_all [Link.push, Link.finish, Link.fail]

theorem started_of_step (hstep : Step internal l action answer l') (hidle : l.current = none)
    (hstarted : l'.current = some command) : l.stopped = false ∧ l.failure = none := by
  cases hstep with
  | start command rest htakes hstopped hok => exact ⟨hstopped, hok⟩
  | _ => simp_all [Link.push, Link.finish, Link.fail]

theorem accepted_of_step (hstep : Step internal l action answer l') (hreads : l'.reading = .reading)
    (hnot : l.reading ≠ .reading) : l.reading = .waiting ∧ l.forwarded ≤ l.accepted := by
  cases hstep with
  | startRead hreading hstopped haccepted => exact ⟨hreading, haccepted⟩
  | succeed command =>
    refine absurd ?_ hnot
    cases command <;> exact hreads
  | _ => simp_all [Link.push, Link.finish, Link.fail]

/-- What holds of every step of a link: a flush succeeds only when all writes before it were performed in
their order and flushed and nothing failed; the first failure stays and is what writes and flushes return;
no command is started after a stop or a failure; and the reader sends stanzas on in order and reads the
next one only when those it sent are accepted. -/
theorem halves_stay_consistent {internal : ε} {action : Action ω} {answer : Answer ε}
    (h : (system internal).Reachable l) (hstep : Step internal l action answer l') :
    (∀ request issued, l.session = .awaiting request issued → answer = some (.ok ()) →
      issued <+: l.flushed ∧ l.flushed <+: l.performed ∧ l.failure = none) ∧
    (∀ outcome, l.failure = some outcome → l'.failure = some outcome ∧
      (action = .flush ∨ (∃ output, action = .write output) → answer = some (.error outcome)) ∧
      ∀ request issued, l.session = .awaiting request issued → action = .resume → answer = some (.error outcome)) ∧
    (∀ command, l.current = none → l'.current = some command → l.stopped = false ∧ l.failure = none) ∧
    l.sent <+: l.parsed ∧
    (l'.reading = .reading → l.reading ≠ .reading → l.parsed = l.sent ∧ l.sent.length ≤ l.accepted) := by
  have hsound := sound_of_reachable h
  have horderly := hsound.orderly
  refine ⟨fun request issued hsession hanswer => ?_, fun outcome => failure_of_step hstep,
    fun command => started_of_step hstep, ?_, fun hreads hnot => ?_⟩
  · cases hstep with
    | pollDone request' issued' hsession' hok hdone =>
      cases hsession.symm.trans hsession'
      exact ⟨(hsound.awaiting request issued hsession).2 hdone, hsound.flushed, hok⟩
    | sendWrite output hsession' => cases hsession.symm.trans hsession'
    | _ => cases hanswer
  · unfold Orderly at horderly
    split at horderly <;> simp [horderly]
  · obtain ⟨hreading, haccepted⟩ := accepted_of_step hstep hreads hnot
    simp only [Orderly, hreading] at horderly
    exact ⟨horderly.1, horderly.2 ▸ haccepted⟩

/-- One write, performed and flushed. -/
theorem halves_stay_consistent_flushed :
    ∃ l l' : Link ℕ Unit Unit, (system ()).Reachable l ∧ Step () l .resume (some (.ok ())) l' ∧ [7] <+: l.flushed := by
  have hnew : (system () : System (Link ℕ Unit Unit)).Reachable .new := .init rfl
  have hwritten := (((hnew.step ⟨_, _, .write 7 rfl rfl⟩).step ⟨_, _, .sendWrite 7 rfl rfl (by decide)⟩).step
    ⟨_, _, .start (.write 7) [] ⟨rfl, rfl, rfl, by simp⟩ rfl rfl⟩).step ⟨_, _, .succeed (.write 7) rfl rfl⟩
  have hflushed := (((hwritten.step ⟨_, _, .flush rfl rfl⟩).step ⟨_, _, .sendFlush 1 rfl rfl (by decide)⟩).step
    ⟨_, _, .start (.flush 1 [7]) [] ⟨rfl, rfl, rfl, by simp⟩ rfl rfl⟩).step ⟨_, _, .succeed (.flush 1 [7]) rfl rfl⟩
  refine ⟨_, _, hflushed, .pollDone 1 [7] rfl rfl le_rfl, ?_⟩
  exact ((halves_stay_consistent hflushed (.pollDone 1 [7] rfl rfl le_rfl)).1 1 [7] rfl rfl).1

end Link

end Lonewolf.C2s
