import Lonewolf.Base.Transition

/-!
# Write transactions

`redb/mod.rs` over `util/blocking.rs`: `begin_write` takes the writer mutex and has a job open the transaction,
operations and the commit are jobs on it, and there is one permit for all of them. A future can be dropped at any of
its awaits and a handle when no operation borrows it; a submitted job is then cancelled, but it can be on its way,
and it keeps its permit and its reference to the transaction until it is over.
-/

namespace Lonewolf.Storage

open Transitions

/-- How a call of `begin_write` and its handle ended. -/
inductive Outcome where
  /-- The future of `begin_write` was dropped. -/
  | cancelled
  /-- `begin_write` returned an error. -/
  | failed
  /-- The handle was dropped. -/
  | dropped
  /-- `commit` found the transaction shared. -/
  | refused
  /-- The future of `commit` was dropped. -/
  | abandoned
  | returned (ok : Bool)
  deriving DecidableEq

/-- Where a call of `begin_write` is, and then its handle. -/
inductive Phase where
  | absent
  /-- `begin_write` waits for the mutex. -/
  | locking
  /-- It has the guard and waits for a permit. -/
  | acquiring
  /-- It waits for its job. -/
  | beginning
  /-- The transaction, or the error, is there to be returned. -/
  | began
  | beginFailed
  /-- The handle was returned. -/
  | opened
  /-- `commit` owns the transaction and waits for a permit. -/
  | committing
  /-- It waits for its job. -/
  | awaiting
  | committed (ok : Bool)
  | closed (outcome : Outcome)
  deriving DecidableEq

/-- The future of an operation. -/
inductive OpStage (Op : Type) where
  | waiting (op : Op)
  | submitted
  | finished
  deriving DecidableEq

inductive Task (Op : Type) where
  | begin
  | operation (op : Op)
  | commit
  deriving DecidableEq

/-- An ended job only has its permit left. -/
inductive Stage where
  | queued
  | running
  | ended
  deriving DecidableEq

/-- A job that was submitted and has the permit. It is cancelled when its `Task` is dropped. -/
structure Job (Op : Type) where
  task : Task Op
  stage : Stage
  cancelled : Bool
  deriving DecidableEq

structure Session (Op : Type) where
  phase : Phase
  ops : List (OpStage Op)
  job : Option (Job Op)
  /-- References to the transaction that are about to be dropped, by something that has no permit. -/
  lingering : Nat
  /-- The operations that ran to completion, in their order; the code does not keep them. -/
  completed : List Op
  deriving DecidableEq

namespace Phase

/-- The future or the handle has the guard. -/
def hasGuard : Phase → Bool
  | .acquiring | .beginning | .began | .beginFailed | .opened | .committing | .awaiting | .committed _ => true
  | .absent | .locking | .closed _ => false

/-- The handle was returned, and neither dropped nor done with its commit. -/
def isOpen : Phase → Bool
  | .opened | .committing | .awaiting | .committed _ => true
  | _ => false

/-- The future or the handle owns the transaction or a reference to it. -/
def hasTransaction : Phase → Bool
  | .began | .opened | .committing => true
  | _ => false

end Phase

/-- The closure refers to the transaction: that of `begin_write` has none, and an ended one no more. -/
def Job.refers {Op : Type} (job : Job Op) : Bool :=
  match job.task, job.stage with
  | .begin, _ => false
  | _, .ended => false
  | _, _ => true

namespace Session

variable {Op : Type}

def new : Session Op := ⟨.absent, [], none, 0, []⟩

variable (session : Session Op)

def hasGuard (session : Session Op) : Bool := session.phase.hasGuard

def hasPermit : Bool := session.job.isSome

/-- The `Arc` of the transaction has clones beside the one of the handle. -/
def isShared : Bool :=
  (session.ops.any fun stage => match stage with
    | .waiting _ => true
    | _ => false) || session.job.any Job.refers || 0 < session.lingering

def refers : Bool := session.phase.hasTransaction || session.isShared

/-- The `Task` of the job is dropped. -/
def cancelJob : Session Op :=
  { session with job := session.job.map fun job => { job with cancelled := true } }

end Session

structure State (σ Op : Type) where
  /-- What is durable. -/
  database : σ
  /-- The write transaction of the database: the session it is for and what it would make durable. -/
  transaction : Option (Nat × σ)
  /-- Who has the guard of the writer mutex. -/
  guard : Option Nat
  /-- Whose job has the permit. -/
  permit : Option Nat
  session : Nat → Session Op
  /-- The commits that were made durable, with their operations; the code does not keep them. -/
  durable : List (Nat × List Op)

namespace State

variable {σ Op : Type}

def initial (database : σ) : State σ Op := ⟨database, none, none, none, fun _ => .new, []⟩

variable (state : State σ Op) (n : Nat)

/-- A session changes. The transaction is aborted with the last reference to it. -/
def put (session : Session Op) : State σ Op :=
  { state with
    session := Function.update state.session n session
    transaction := if session.refers then state.transaction else state.transaction.filter fun current => current.1 ≠ n }

/-- A session changes and gives the guard back. -/
def close (session : Session Op) (outcome : Outcome) : State σ Op :=
  { state.put n { session with phase := .closed outcome } with guard := none }

/-- The job of `begin_write` got its transaction. Without a future its result is dropped once the permit is free. -/
def begun (cancelled : Bool) : State σ Op :=
  let session := { state.session n with job := none }
  let session := if cancelled then { session with lingering := session.lingering + 1 }
    else { session with phase := .began }
  { state with transaction := some (n, state.database), permit := none }.put n session

/-- It got an error. -/
def notBegun (cancelled : Bool) : State σ Op :=
  let session := { state.session n with job := none }
  let session := if cancelled then session else { session with phase := .beginFailed }
  { state with permit := none }.put n session

/-- The future of `begin_write` is dropped: what it waits for, then the guard. -/
def dropBegin : State σ Op :=
  let session := state.session n
  match session.phase with
  | .locking => state.put n { session with phase := .closed .cancelled }
  | .beginning => state.close n session.cancelJob .cancelled
  | _ => state.close n session .cancelled

/-- The closure of an operation ran, on what the transaction holds: its reference is dropped before its permit. -/
def operated [DecidableEq Op] (apply : Op → σ → σ) (n : Nat) (op : Op) (current : σ) (cancelled : Bool) : State σ Op :=
  let session := state.session n
  { state with transaction := some (n, apply op current) }.put n
    { session with
      ops := if cancelled then session.ops else .finished :: session.ops.erase .submitted
      job := some ⟨.operation op, .ended, cancelled⟩
      completed := session.completed ++ [op] }

/-- The future of an operation is dropped. -/
def dropOp [DecidableEq Op] (stage : OpStage Op) : State σ Op :=
  let session := { state.session n with ops := (state.session n).ops.erase stage }
  state.put n (if stage = .submitted then session.cancelJob else session)

/-- `commit` up to its await: `Arc::into_inner`, and the error with everything dropped. -/
def commitCall : State σ Op :=
  let session := state.session n
  if session.isShared then state.close n session .refused else state.put n { session with phase := .committing }

/-- The closure of the commit ran, on what the transaction holds. -/
def ran (database : σ) (cancelled ok : Bool) : State σ Op :=
  let session := { state.session n with job := some ⟨.commit, .ended, cancelled⟩ }
  let session := if cancelled then session else { session with phase := .committed ok }
  let state := { state.put n session with transaction := none }
  if ok then { state with database := database, durable := state.durable ++ [(n, session.completed)] } else state

/-- The future of `commit` is dropped: its closure with the transaction if it was not submitted, then the guard. -/
def dropCommit : State σ Op :=
  let session := state.session n
  state.close n (if session.phase = .awaiting then session.cancelJob else session) .abandoned

/-- A closure that never ran is dropped: its permit first, or its reference. -/
def discard (permitFirst : Bool) (job : Job Op) : State σ Op :=
  let session := state.session n
  if permitFirst then { state with permit := none }.put n { session with
    job := none, lingering := if job.refers then session.lingering + 1 else session.lingering }
  else state.put n { session with job := some { job with stage := .ended } }

end State

section

variable {σ Op : Type} [DecidableEq Op] (apply : Op → σ → σ) (state : State σ Op)

/-- The database's own lock keeps a second transaction waiting: a job that begins one has no step while one is open. -/
inductive Step : State σ Op → Prop where
  | call (n : Nat) (hphase : (state.session n).phase = .absent) :
      Step (state.put n { state.session n with phase := .locking })
  | lock (n : Nat) (hphase : (state.session n).phase = .locking) (hguard : state.guard = none) :
      Step { state.put n { state.session n with phase := .acquiring } with guard := some n }
  | submitBegin (n : Nat) (hphase : (state.session n).phase = .acquiring) (hpermit : state.permit = none) :
      Step { state.put n { state.session n with
        phase := .beginning, job := some ⟨.begin, .queued, false⟩ } with permit := some n }
  | start (n : Nat) (job : Job Op) (hjob : (state.session n).job = some job) (hstage : job.stage = .queued) :
      Step (state.put n { state.session n with job := some { job with stage := .running } })
  | begin (n : Nat) (cancelled : Bool) (hjob : (state.session n).job = some ⟨.begin, .running, cancelled⟩)
      (hfree : state.transaction = none) : Step (state.begun n cancelled)
  | beginError (n : Nat) (cancelled : Bool) (hjob : (state.session n).job = some ⟨.begin, .running, cancelled⟩) :
      Step (state.notBegun n cancelled)
  | beginReturn (n : Nat) (hphase : (state.session n).phase = .began) :
      Step (state.put n { state.session n with phase := .opened })
  | beginFail (n : Nat) (hphase : (state.session n).phase = .beginFailed) :
      Step (state.close n (state.session n) .failed)
  | dropBegin (n : Nat) (hphase : (state.session n).phase ∈
        [Phase.locking, .acquiring, .beginning, .began, .beginFailed]) : Step (state.dropBegin n)
  | opCall (n : Nat) (op : Op) (hphase : (state.session n).phase = .opened) :
      Step (state.put n { state.session n with ops := .waiting op :: (state.session n).ops })
  | opSubmit (n : Nat) (op : Op) (hop : .waiting op ∈ (state.session n).ops) (hpermit : state.permit = none) :
      Step { state.put n { state.session n with
        ops := .submitted :: (state.session n).ops.erase (.waiting op)
        job := some ⟨.operation op, .queued, false⟩ } with permit := some n }
  | opRun (n : Nat) (op : Op) (current : σ) (cancelled : Bool)
      (hjob : (state.session n).job = some ⟨.operation op, .running, cancelled⟩)
      (hopen : state.transaction = some (n, current)) : Step (state.operated apply n op current cancelled)
  | opReturn (n : Nat) (hop : .finished ∈ (state.session n).ops) :
      Step (state.put n { state.session n with ops := (state.session n).ops.erase .finished })
  | dropOp (n : Nat) (stage : OpStage Op) (hop : stage ∈ (state.session n).ops) : Step (state.dropOp n stage)
  | commit (n : Nat) (hphase : (state.session n).phase = .opened) (hops : (state.session n).ops = []) :
      Step (state.commitCall n)
  | commitSubmit (n : Nat) (hphase : (state.session n).phase = .committing) (hpermit : state.permit = none) :
      Step { state.put n { state.session n with
        phase := .awaiting, job := some ⟨.commit, .queued, false⟩ } with permit := some n }
  | commitRun (n : Nat) (database : σ) (cancelled ok : Bool)
      (hjob : (state.session n).job = some ⟨.commit, .running, cancelled⟩)
      (hopen : state.transaction = some (n, database)) : Step (state.ran n database cancelled ok)
  | commitReturn (n : Nat) (ok : Bool) (hphase : (state.session n).phase = .committed ok) :
      Step (state.close n (state.session n) (.returned ok))
  | dropCommit (n : Nat) (hphase : (state.session n).phase = .committing ∨ (state.session n).phase = .awaiting ∨
        ∃ ok, (state.session n).phase = .committed ok) : Step (state.dropCommit n)
  | dropHandle (n : Nat) (hphase : (state.session n).phase = .opened) (hops : (state.session n).ops = []) :
      Step (state.close n (state.session n) .dropped)
  | discard (n : Nat) (permitFirst : Bool) (job : Job Op) (hjob : (state.session n).job = some job)
      (hstage : job.stage = .queued) (hcancelled : job.cancelled = true) :
      Step (state.discard n permitFirst job)
  | free (n : Nat) (job : Job Op) (hjob : (state.session n).job = some job) (hstage : job.stage = .ended) :
      Step ({ state with permit := none }.put n { state.session n with job := none })
  | linger (n : Nat) (hlingering : 0 < (state.session n).lingering) :
      Step (state.put n { state.session n with lingering := (state.session n).lingering - 1 })

end

def system {σ Op : Type} [DecidableEq Op] (apply : Op → σ → σ) (database : σ) : System (State σ Op) where
  init state := state = .initial database
  step := Step apply

end Lonewolf.Storage
