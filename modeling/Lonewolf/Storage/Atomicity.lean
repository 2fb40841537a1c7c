import Lonewolf.Base.Exclusive
import Lonewolf.Storage.WriteHandle

/-!
# Commits are whole

What holds in every interleaving of calls, jobs and dropped futures: of each session by itself, and of the guard, the
permit and the transaction of the database, which each have at most one holder. The transaction is open exactly while
something refers to it, and while a job is to open one no handle is open.
-/

namespace Lonewolf.Storage

open Exclusive

variable {σ Op : Type}

attribute [grind] Phase.hasGuard Phase.isOpen Phase.hasTransaction Job.refers Session.hasGuard Session.hasPermit
  Session.isShared Session.refers Session.cancelJob Session.new

namespace Phase

/-- The commit may be durable. -/
@[grind] def maybeDurable : Phase → Bool
  | .committed true | .closed .abandoned | .closed (.returned true) => true
  | _ => false

/-- The commit is durable. -/
@[grind] def isDurable : Phase → Bool
  | .committed true | .closed (.returned true) => true
  | _ => false

/-- The handle may have left an operation behind. -/
@[grind] def mayStray : Phase → Bool
  | .opened | .closed .dropped | .closed .refused => true
  | _ => false

/-- A reference may be left behind. -/
@[grind] def mayLinger : Phase → Bool
  | .opened | .closed .cancelled | .closed .dropped | .closed .refused | .closed .abandoned => true
  | _ => false

@[grind →] theorem mayLinger_of_mayStray {phase : Phase} (h : phase.mayStray = true) : phase.mayLinger = true := by
  unfold mayStray at h
  split at h <;> first | rfl | cases h

/-- No handle was returned. -/
@[grind] def isEarly : Phase → Bool
  | .absent | .locking | .acquiring | .beginning | .began | .beginFailed | .closed .cancelled | .closed .failed => true
  | _ => false

@[grind →] theorem isEarly_of_mayStray {phase : Phase} (h : phase.mayStray = true) : phase.isEarly = false := by
  unfold mayStray at h
  split at h <;> first | rfl | cases h

end Phase

namespace Session

/-- A job is to open the transaction. -/
@[grind] def begins (session : Session Op) : Bool :=
  session.job.any fun job => match job.task, job.stage with
    | .begin, .queued | .begin, .running => true
    | _, _ => false

/-- The transaction was opened, and the guard is held for it. -/
@[grind] def inHand (session : Session Op) : Bool := session.phase.isOpen || session.phase = .began

/-- The job that is not over, and whether it is cancelled. -/
@[grind] def active (session : Session Op) : Option (Task Op × Bool) :=
  match session.job with
  | some ⟨task, .queued, cancelled⟩ | some ⟨task, .running, cancelled⟩ => some (task, cancelled)
  | some ⟨_, .ended, _⟩ | none => none

/-- What the phase and the futures say of the job. -/
@[grind] def JobFits (session : Session Op) : Prop :=
  match session.active with
  | none => session.phase ≠ .beginning ∧ session.phase ≠ .awaiting ∧ .submitted ∉ session.ops
  | some (.begin, false) => session.phase = .beginning
  | some (.begin, true) => session.phase = .closed .cancelled
  | some (.operation _, false) => .submitted ∈ session.ops
  | some (.operation _, true) => .submitted ∉ session.ops ∧ session.phase.mayStray = true
  | some (.commit, false) => session.phase = .awaiting ∧ session.lingering = 0
  | some (.commit, true) => session.phase = .closed .abandoned ∧ session.lingering = 0

/-- What holds of a session by itself. -/
@[grind] structure Local [DecidableEq Op] (session : Session Op) : Prop where
  job : session.JobFits
  borrowed : session.ops ≠ [] → session.phase = .opened
  once : session.ops.count .submitted ≤ 1
  lingering : 0 < session.lingering → session.phase.mayLinger = true
  early : session.phase.isEarly = true → session.completed = []

/-- A change that opens no transaction, runs no operation and makes nothing durable. -/
structure Ordinary [DecidableEq Op] (old new : Session Op) : Prop where
  holds : new.Local
  refers : new.refers = true → old.refers = true
  begins : new.begins = true → old.begins = true
  inHand : new.inHand = true → old.inHand = true
  completed : new.completed = old.completed
  maybeDurable : old.phase.maybeDurable = true → new.phase.maybeDurable = true
  isDurable : new.phase.isDurable = true → old.phase.isDurable = true

theorem hasGuard_of_inHand {session : Session Op} (h : session.inHand = true) : session.hasGuard = true := by
  unfold inHand at h
  unfold hasGuard
  cases hphase : session.phase <;> simp_all [Phase.isOpen, Phase.hasGuard]

variable [DecidableEq Op] {session : Session Op}

theorem local_new : (new : Session Op).Local := by
  constructor <;> grind

section

variable (session : Session Op)

/-- What the steps that are ordinary do to their session. -/
inductive Change : Session Op → Prop where
  | call (hphase : session.phase = .absent) : Change { session with phase := .locking }
  | lock (hphase : session.phase = .locking) : Change { session with phase := .acquiring }
  | start {job : Job Op} (hjob : session.job = some job) (hstage : job.stage = .queued) :
      Change { session with job := some { job with stage := .running } }
  | beginError (hjob : session.job = some ⟨.begin, .running, false⟩) :
      Change { session with job := none, phase := .beginFailed }
  | beginErrorCancelled (hjob : session.job = some ⟨.begin, .running, true⟩) :
      Change { session with job := none }
  | beginReturn (hphase : session.phase = .began) : Change { session with phase := .opened }
  | beginFail (hphase : session.phase = .beginFailed) : Change { session with phase := .closed .failed }
  | dropBegin (hphase : session.phase = .locking ∨ session.phase = .acquiring ∨ session.phase = .began ∨
      session.phase = .beginFailed) : Change { session with phase := .closed .cancelled }
  | dropBeginning (hphase : session.phase = .beginning) :
      Change { session.cancelJob with phase := .closed .cancelled }
  | opCall (op : Op) (hphase : session.phase = .opened) :
      Change { session with ops := .waiting op :: session.ops }
  | opSubmit {op : Op} (hop : .waiting op ∈ session.ops) (hjob : session.job = none) :
      Change { session with
        ops := .submitted :: session.ops.erase (.waiting op)
        job := some ⟨.operation op, .queued, false⟩ }
  | opReturn (hop : .finished ∈ session.ops) : Change { session with ops := session.ops.erase .finished }
  | dropOp {stage : OpStage Op} (hop : stage ∈ session.ops) (hstage : stage ≠ .submitted) :
      Change { session with ops := session.ops.erase stage }
  | dropSubmitted (hop : .submitted ∈ session.ops) :
      Change (cancelJob { session with ops := session.ops.erase .submitted })
  | refuse (hphase : session.phase = .opened) (hops : session.ops = []) :
      Change { session with phase := .closed .refused }
  | commit (hphase : session.phase = .opened) (hops : session.ops = []) (hshared : session.isShared = false) :
      Change { session with phase := .committing }
  | commitSubmit (hphase : session.phase = .committing) (hjob : session.job = none) :
      Change { session with phase := .awaiting, job := some ⟨.commit, .queued, false⟩ }
  | commitReturn {ok : Bool} (hphase : session.phase = .committed ok) :
      Change { session with phase := .closed (.returned ok) }
  | dropCommit (hphase : session.phase = .committing ∨ ∃ ok, session.phase = .committed ok) :
      Change { session with phase := .closed .abandoned }
  | dropAwaiting (hphase : session.phase = .awaiting) :
      Change { session.cancelJob with phase := .closed .abandoned }
  | dropHandle (hphase : session.phase = .opened) (hops : session.ops = []) :
      Change { session with phase := .closed .dropped }
  | discard {job : Job Op} (hjob : session.job = some job) (hstage : job.stage = .queued)
      (hcancelled : job.cancelled = true) : Change { session with job := some { job with stage := .ended } }
  | discardPermit {job : Job Op} (hjob : session.job = some job) (hstage : job.stage = .queued)
      (hcancelled : job.cancelled = true) :
      Change { session with
        job := none
        lingering := if job.refers then session.lingering + 1 else session.lingering }
  | free {job : Job Op} (hjob : session.job = some job) (hstage : job.stage = .ended) :
      Change { session with job := none }
  | linger : Change { session with lingering := session.lingering - 1 }

end

section Ordinary

variable {new : Session Op} (hchange : Change session new)

include hchange

section

variable (h : session.Local)
include h

theorem Change.job : new.JobFits := by
  obtain ⟨hjob', hborrowed, honce, hlingering, hearly⟩ := h
  cases hchange with
  | dropSubmitted hop =>
    -- A future is submitted once, so its job is the only one that is lost.
    have hgone : .submitted ∉ session.ops.erase .submitted := by
      rw [← List.count_eq_zero, List.count_erase_self]
      omega
    have hphase : session.phase = .opened := hborrowed (List.ne_nil_of_mem hop)
    grind -ring -linarith
  | _ => grind -ring -linarith

theorem Change.borrowed : new.ops ≠ [] → new.phase = .opened := by
  obtain ⟨hjob', hborrowed, -, -, -⟩ := h
  cases hchange <;> grind -ring -linarith

theorem Change.once : new.ops.count .submitted ≤ 1 := by
  obtain ⟨hjob', hborrowed, honce, -, -⟩ := h
  cases hchange <;> grind -ring -linarith

theorem Change.lingering : 0 < new.lingering → new.phase.mayLinger = true := by
  obtain ⟨hjob', hborrowed, -, hlingering, -⟩ := h
  cases hchange <;> grind -ring -linarith

theorem Change.early : new.phase.isEarly = true → new.completed = [] := by
  obtain ⟨hjob', -, -, -, hearly⟩ := h
  cases hchange <;> grind -ring -linarith

theorem Change.refers : new.refers = true → session.refers = true := by
  obtain ⟨hjob', hborrowed, -, -, -⟩ := h
  cases hchange <;> grind -ring -linarith

end

theorem Change.begins : new.begins = true → session.begins = true := by
  cases hchange <;> grind -ring -linarith

theorem Change.inHand : new.inHand = true → session.inHand = true := by
  cases hchange <;> grind -ring -linarith

theorem Change.maybeDurable (h : session.Local) :
    session.phase.maybeDurable = true → new.phase.maybeDurable = true := by
  obtain ⟨hjob', -, -, -, -⟩ := h
  cases hchange <;> grind -ring -linarith

theorem Change.isDurable : new.phase.isDurable = true → session.phase.isDurable = true := by
  cases hchange <;> grind -ring -linarith

theorem Change.ordinary (h : session.Local) : session.Ordinary new where
  holds := ⟨hchange.job h, hchange.borrowed h, hchange.once h, hchange.lingering h, hchange.early h⟩
  refers := hchange.refers h
  begins := hchange.begins
  inHand := hchange.inHand
  completed := by cases hchange <;> rfl
  maybeDurable := hchange.maybeDurable h
  isDurable := hchange.isDurable

end Ordinary

end Session

/-- The database after operations, and after commits. -/
def perform (apply : Op → σ → σ) (database : σ) (ops : List Op) : σ := ops.foldl (fun current op => apply op current) database

def replay (apply : Op → σ → σ) (database : σ) (commits : List (Nat × List Op)) : σ :=
  commits.foldl (fun current commit => perform apply current commit.2) database

theorem perform_append_singleton (apply : Op → σ → σ) (database : σ) (ops : List Op) (op : Op) :
    perform apply database (ops ++ [op]) = apply op (perform apply database ops) := by
  simp [perform]

theorem replay_append_singleton (apply : Op → σ → σ) (database : σ) (commits : List (Nat × List Op))
    (commit : Nat × List Op) :
    replay apply database (commits ++ [commit]) = perform apply (replay apply database commits) commit.2 := by
  simp [replay]

/-- What holds of the state of a run that started with a database. -/
structure Inv [DecidableEq Op] (apply : Op → σ → σ) (origin : σ) (state : State σ Op) : Prop where
  session : ∀ n, (state.session n).Local
  guard : Held Session.hasGuard state.session state.guard
  permit : Held Session.hasPermit state.session state.permit
  refers : Held Session.refers state.session (state.transaction.map Prod.fst)
  alone : ∀ n m, (state.session n).begins = true → (state.session m).inHand = false
  value : ∀ n current, state.transaction = some (n, current) →
    current = perform apply state.database (state.session n).completed
  database : state.database = replay apply origin state.durable
  once : (state.durable.map Prod.fst).Nodup
  whole : ∀ commit ∈ state.durable, commit.2 = (state.session commit.1).completed
  ended : ∀ commit ∈ state.durable,
    (state.session commit.1).phase.maybeDurable = true ∧ (state.session commit.1).refers = false
  durable : ∀ n, (state.session n).phase.isDurable = true → n ∈ state.durable.map Prod.fst

section Steps

variable {state later : State σ Op}

theorem held_put (n : Nat) (session : Session Op)
    (h : Held Session.refers state.session (state.transaction.map Prod.fst))
    (hrefers : session.refers = true → (state.session n).refers = true) :
    Held Session.refers (state.put n session).session ((state.put n session).transaction.map Prod.fst) := by
  simp only [State.put]
  cases hnew : session.refers with
  | true => exact h.keep (by rw [hnew, hrefers hnew])
  | false =>
    cases hold : (state.session n).refers with
    | true =>
      obtain ⟨⟨m, current⟩, htransaction, rfl⟩ := Option.map_eq_some_iff.mp ((h n).mp hold)
      simp only [htransaction, Option.filter_some, ne_eq, not_true, decide_false]
      exact h.give hold hnew
    | false =>
      have hother : state.transaction.filter (fun current => decide (current.1 ≠ n)) = state.transaction := by
        cases htransaction : state.transaction with
        | none => rfl
        | some current =>
          have hne : current.1 ≠ n := by
            intro heq
            have := (h n).mpr (by rw [htransaction, ← heq]; rfl)
            rw [hold] at this
            cases this
          simp [hne]
      simp only [Bool.false_eq_true, if_false, hother]
      exact h.keep (by rw [hnew, hold])

theorem put_transaction {session : Session Op} {n m : Nat} {current : σ}
    (h : (state.put n session).transaction = some (m, current)) : state.transaction = some (m, current) := by
  simp only [State.put] at h
  split at h
  · exact h
  · exact (Option.filter_eq_some_iff.mp h).1

@[simp] theorem put_session (state : State σ Op) (n m : Nat) (session : Session Op) :
    (state.put n session).session m = if m = n then session else state.session m := Function.update_apply ..

variable [DecidableEq Op] {apply : Op → σ → σ} {origin : σ}

theorem inv_initial (apply : Op → σ → σ) (origin : σ) : Inv apply origin (State.initial origin) := by
  refine ⟨fun _ => Session.local_new, ?_, ?_, ?_, ?_, ?_, rfl, List.nodup_nil, ?_, ?_, ?_⟩
  · exact fun n => iff_of_false Bool.false_ne_true nofun
  · exact fun n => iff_of_false Bool.false_ne_true nofun
  · exact fun n => iff_of_false Bool.false_ne_true nofun
  · exact fun n m h => absurd h Bool.false_ne_true
  · exact fun n current h => nomatch h
  · exact fun commit h => nomatch h
  · exact fun commit h => nomatch h
  · exact fun n h => absurd h Bool.false_ne_true

/-- A commit is one of before, of another session, or tells of the session as it is now. -/
def Kept (state : State σ Op) (n : Nat) (session : Session Op) (commit : Nat × List Op) : Prop :=
  commit.1 ≠ n ∧ commit ∈ state.durable ∨
    commit.1 = n ∧ commit.2 = session.completed ∧ session.phase.maybeDurable = true ∧ session.refers = false

theorem Inv.update (h : Inv apply origin state) (n : Nat) (session : Session Op)
    (hsession : later.session = Function.update state.session n session) (hlocal : session.Local)
    (hguard : Held Session.hasGuard later.session later.guard)
    (hpermit : Held Session.hasPermit later.session later.permit)
    (hrefers : Held Session.refers later.session (later.transaction.map Prod.fst))
    (halone : ∀ m k, (later.session m).begins = true → (later.session k).inHand = false)
    (hvalue : ∀ m current, later.transaction = some (m, current) →
      current = perform apply later.database (later.session m).completed)
    (hdatabase : later.database = replay apply origin later.durable) (honce : (later.durable.map Prod.fst).Nodup)
    (hkept : ∀ commit ∈ later.durable, Kept state n session commit) (hsubset : state.durable ⊆ later.durable)
    (hdurable : session.phase.isDurable = true → n ∈ later.durable.map Prod.fst) : Inv apply origin later := by
  have hself : later.session n = session := by rw [hsession, Function.update_self]
  have hother : ∀ m, m ≠ n → later.session m = state.session m := by
    intro m hne
    rw [hsession, Function.update_of_ne hne]
  refine ⟨fun m => ?_, hguard, hpermit, hrefers, halone, hvalue, hdatabase, honce, fun commit hmem => ?_,
    fun commit hmem => ?_, fun m hisDurable => ?_⟩
  · by_cases heq : m = n
    · rw [heq, hself]
      exact hlocal
    · rw [hother m heq]
      exact h.session m
  · rcases hkept commit hmem with ⟨hne, hold⟩ | ⟨heq, hcompleted, -⟩
    · rw [hother _ hne]
      exact h.whole commit hold
    · rw [heq, hself]
      exact hcompleted
  · rcases hkept commit hmem with ⟨hne, hold⟩ | ⟨heq, -, hended⟩
    · rw [hother _ hne]
      exact h.ended commit hold
    · rw [heq, hself]
      exact hended
  · by_cases heq : m = n
    · rw [heq, hself] at hisDurable
      rw [heq]
      exact hdurable hisDurable
    · rw [hother m heq] at hisDurable
      exact List.map_subset _ hsubset (h.durable m hisDurable)

variable {n : Nat}

section

variable (h : Inv apply origin state)
include h

theorem Inv.not_mem_durable (hrefers : (state.session n).refers = true) : n ∉ state.durable.map Prod.fst := by
  intro hmem
  obtain ⟨commit, hcommit, rfl⟩ := List.mem_map.mp hmem
  have hended := (h.ended commit hcommit).2
  rw [hrefers] at hended
  cases hended

theorem Inv.kept {session : Session Op} (hended : n ∈ state.durable.map Prod.fst →
      session.completed = (state.session n).completed ∧ session.phase.maybeDurable = true ∧ session.refers = false) :
    ∀ commit ∈ state.durable, Kept state n session commit := by
  intro commit hmem
  by_cases heq : commit.1 = n
  · obtain ⟨hcompleted, hended⟩ := hended (heq ▸ List.mem_map_of_mem hmem)
    refine .inr ⟨heq, ?_, hended⟩
    rw [hcompleted, ← heq]
    exact h.whole commit hmem
  · exact .inl ⟨heq, hmem⟩

/-- The session has the only job, and does not begin any more. -/
theorem Inv.alone_of_hasPermit (hpermit : (state.session n).hasPermit = true) {session : Session Op}
    (hover : session.begins = false) (m k : Nat) (hbegins : (Function.update state.session n session m).begins = true) :
    (Function.update state.session n session k).inHand = false := by
  rw [Function.update_apply] at hbegins
  split at hbegins
  · rw [hover] at hbegins
    cases hbegins
  · next hne =>
    have hnone := h.permit.of_ne hpermit hne
    rw [Session.hasPermit, Option.isSome_eq_false_iff, Option.isNone_iff_eq_none] at hnone
    simp [Session.begins, hnone] at hbegins

section

variable {session : Session Op} {guard permit : Option Nat}
  (hguard : Held Session.hasGuard (Function.update state.session n session) guard)
  (hpermit : Held Session.hasPermit (Function.update state.session n session) permit)
include hguard hpermit

theorem Inv.put (hlocal : session.Local) (hrefers : session.refers = true → (state.session n).refers = true)
    (hcompleted : session.completed = (state.session n).completed)
    (hmaybe : (state.session n).phase.maybeDurable = true → session.phase.maybeDurable = true)
    (hdurable : session.phase.isDurable = true → (state.session n).phase.isDurable = true)
    (halone : ∀ m k, ((state.put n session).session m).begins = true → ((state.put n session).session k).inHand = false)
    : Inv apply origin { state.put n session with guard := guard, permit := permit } := by
  refine h.update n session rfl hlocal hguard hpermit (held_put n session h.refers hrefers) halone
    (fun m current htransaction => ?_) h.database h.once (h.kept fun hmem => ?_) (List.Subset.refl _)
    fun hnew => h.durable n (hdurable hnew)
  · rw [h.value m current (put_transaction htransaction)]
    simp only [put_session]
    split
    · next heq =>
      rw [heq, hcompleted]
      rfl
    · rfl
  · obtain ⟨commit, hcommit, rfl⟩ := List.mem_map.mp hmem
    refine ⟨hcompleted, hmaybe (h.ended commit hcommit).1, ?_⟩
    rw [Bool.eq_false_iff]
    exact fun hnew => h.not_mem_durable (hrefers hnew) hmem

theorem Inv.change (hchange : (state.session n).Change session) :
    Inv apply origin { state.put n session with guard := guard, permit := permit } := by
  have hordinary := hchange.ordinary (h.session n)
  refine h.put hguard hpermit hordinary.holds hordinary.refers hordinary.completed hordinary.maybeDurable
    hordinary.isDurable fun m k hbegins => ?_
  have hbegan : ∃ m, (state.session m).begins = true := by
    simp only [put_session] at hbegins
    split at hbegins
    · exact ⟨n, hordinary.begins hbegins⟩
    · exact ⟨m, hbegins⟩
  obtain ⟨m, hbegan⟩ := hbegan
  simp only [put_session]
  split
  · have hold := h.alone m n hbegan
    rw [Bool.eq_false_iff]
    intro hnew
    rw [hordinary.inHand hnew] at hold
    cases hold
  · exact h.alone m k hbegan

end

theorem Inv.submitBegin (hphase : (state.session n).phase = .acquiring) (hpermit : state.permit = none) :
    Inv apply origin { state.put n { state.session n with
      phase := .beginning, job := some ⟨.begin, .queued, false⟩ } with permit := some n } := by
  obtain ⟨hjob, hborrowed, honce, hlingering, hearly⟩ := h.session n
  have hguard : (state.session n).hasGuard = true := by grind
  have hpermit' : Held Session.hasPermit state.session none := by
    rw [← hpermit]
    exact h.permit
  have hfree : (state.session n).job = none := by
    have := hpermit'.of_free n
    grind
  let session : Session Op := { state.session n with phase := .beginning, job := some ⟨.begin, .queued, false⟩ }
  have hguard' : Held Session.hasGuard (Function.update state.session n session) state.guard :=
    h.guard.keep (by grind)
  have hpermit'' : Held Session.hasPermit (Function.update state.session n session) (some n) := hpermit'.take rfl
  refine h.put hguard' hpermit'' ?_ ?_ rfl ?_ ?_ fun m k _ => ?_
  · constructor <;> grind
  · grind
  · grind
  · grind
  · simp only [put_session]
    split
    · rfl
    · next hne =>
      have hother := h.guard.of_ne hguard hne
      rw [Bool.eq_false_iff]
      intro hinHand
      rw [Session.hasGuard_of_inHand hinHand] at hother
      cases hother

variable {cancelled : Bool}

theorem Inv.begun (hjob : (state.session n).job = some ⟨.begin, .running, cancelled⟩) (hfree : state.transaction = none)
    : Inv apply origin (state.begun n cancelled) := by
  obtain ⟨hfits, hborrowed, honce, hlingering, hearly⟩ := h.session n
  let session : Session Op := if cancelled then { state.session n with
      job := none, lingering := (state.session n).lingering + 1 }
    else { state.session n with job := none, phase := .began }
  have hlocal : session.Local := by
    constructor <;> grind
  have hrefers : session.refers = true := by grind
  have hcompleted : (state.session n).completed = [] := by grind
  have hpermit : (state.session n).hasPermit = true := by grind
  have hheld : Held Session.refers state.session none := by
    have := h.refers
    rwa [hfree] at this
  have hlate : (state.session n).phase.maybeDurable = false := by grind
  have hsession : (state.begun n cancelled).session = Function.update state.session n session := by
    cases cancelled <;> rfl
  have htransaction : (state.begun n cancelled).transaction = some (n, state.database) := by
    cases cancelled <;> simp_all [State.begun, State.put, session]
  refine h.update n session hsession hlocal ?_ ?_ ?_ ?_ (fun m current hcurrent => ?_) h.database h.once
    (h.kept fun hmem => ?_) (List.Subset.refl _) (by grind)
  · rw [hsession]
    exact h.guard.keep (by grind)
  · rw [hsession]
    exact h.permit.give hpermit (by grind)
  · rw [hsession, htransaction]
    exact hheld.take hrefers
  · rw [hsession]
    exact h.alone_of_hasPermit hpermit (by grind)
  · obtain ⟨rfl, rfl⟩ := Prod.mk.inj (Option.some.inj (htransaction.symm.trans hcurrent))
    have : ((state.begun n cancelled).session n).completed = [] := by
      rw [hsession, Function.update_self]
      grind
    rw [this]
    rfl
  · obtain ⟨commit, hcommit, rfl⟩ := List.mem_map.mp hmem
    have := (h.ended commit hcommit).1
    rw [hlate] at this
    cases this

theorem Inv.operated {op : Op} {current : σ} (hjob : (state.session n).job = some ⟨.operation op, .running, cancelled⟩)
    (hopen : state.transaction = some (n, current)) :
    Inv apply origin (state.operated apply n op current cancelled) := by
  obtain ⟨hfits, hborrowed, honce, hlingering, hearly⟩ := h.session n
  let session : Session Op := { state.session n with
    ops := if cancelled then (state.session n).ops else .finished :: (state.session n).ops.erase .submitted
    job := some ⟨.operation op, .ended, cancelled⟩
    completed := (state.session n).completed ++ [op] }
  have hgone : .submitted ∉ (state.session n).ops.erase .submitted := by
    rw [← List.count_eq_zero, List.count_erase_self]
    omega
  have hactive : (state.session n).active = some (.operation op, cancelled) := by simp [Session.active, hjob]
  rw [Session.JobFits, hactive] at hfits
  have hlocal : session.Local := by
    cases cancelled with
    | true => constructor <;> grind
    | false =>
      have hphase := hborrowed (List.ne_nil_of_mem hfits)
      constructor <;> grind
  have hrefers : (state.session n).refers = true := by simp [Session.refers, Session.isShared, hjob, Job.refers]
  have hpermit : (state.session n).hasPermit = true := by simp [Session.hasPermit, hjob]
  have hheld : Held Session.refers state.session ((some (n, apply op current)).map Prod.fst) := by
    have := h.refers
    rwa [hopen] at this
  let next : State σ Op := { state with transaction := some (n, apply op current) }
  have hnext : Held Session.refers next.session (next.transaction.map Prod.fst) := hheld
  refine h.update n session rfl hlocal (h.guard.keep rfl) (h.permit.keep (by grind))
    (held_put n session hnext fun _ => hrefers) (h.alone_of_hasPermit hpermit rfl) (fun m value hvalue => ?_)
    h.database h.once (h.kept fun hmem => absurd hmem (h.not_mem_durable hrefers)) (List.Subset.refl _) (h.durable n)
  · obtain ⟨rfl, rfl⟩ := Prod.mk.inj (Option.some.inj (put_transaction hvalue))
    rw [State.operated, put_session, if_pos rfl]
    show _ = perform apply state.database ((state.session n).completed ++ [op])
    rw [perform_append_singleton, ← h.value n current hopen]

theorem Inv.ran {database : σ} (ok : Bool) (hjob : (state.session n).job = some ⟨.commit, .running, cancelled⟩)
    (hopen : state.transaction = some (n, database)) : Inv apply origin (state.ran n database cancelled ok) := by
  obtain ⟨hfits, hborrowed, honce, hlingering, hearly⟩ := h.session n
  let session : Session Op := if cancelled then { state.session n with job := some ⟨.commit, .ended, cancelled⟩ }
    else { state.session n with job := some ⟨.commit, .ended, cancelled⟩, phase := .committed ok }
  have hactive : (state.session n).active = some (.commit, cancelled) := by simp [Session.active, hjob]
  rw [Session.JobFits, hactive] at hfits
  have hphase : (state.session n).phase ≠ .opened := by
    cases cancelled <;> simp_all
  have hops : (state.session n).ops = [] := by
    by_contra hne
    exact hphase (hborrowed hne)
  have hlocal : session.Local := by
    cases cancelled <;> constructor <;> grind
  have hrefers : (state.session n).refers = true := by simp [Session.refers, Session.isShared, hjob, Job.refers]
  have hnone : session.refers = false := by
    cases cancelled <;> grind
  have hpermit : (state.session n).hasPermit = true := by simp [Session.hasPermit, hjob]
  have hran : state.ran n database cancelled ok = { state with
      session := Function.update state.session n session
      transaction := none
      database := if ok then database else state.database
      durable := if ok then state.durable ++ [(n, session.completed)] else state.durable } := by
    cases ok <;> cases cancelled <;> rfl
  have hguard : Held Session.hasGuard (Function.update state.session n session) state.guard :=
    h.guard.keep (by cases cancelled <;> grind)
  have hpermit' : Held Session.hasPermit (Function.update state.session n session) state.permit :=
    h.permit.keep (by cases cancelled <;> grind)
  have hover : session.begins = false := by cases cancelled <;> grind
  have hcompleted : session.completed = (state.session n).completed := by cases cancelled <;> rfl
  have hkept : ∀ commit ∈ state.durable, Kept state n session commit :=
    h.kept fun hmem => absurd hmem (h.not_mem_durable hrefers)
  rw [hran]
  cases ok with
  | false =>
    refine h.update n session rfl hlocal hguard hpermit' (h.refers.give hrefers hnone)
      (h.alone_of_hasPermit hpermit hover) nofun h.database h.once hkept (List.Subset.refl _) ?_
    cases cancelled <;> grind
  | true =>
    refine h.update n session rfl hlocal hguard hpermit' (h.refers.give hrefers hnone)
      (h.alone_of_hasPermit hpermit hover) nofun ?_ ?_ ?_ (List.subset_append_left _ _) fun _ => ?_
    · show database = replay apply origin (state.durable ++ [(n, session.completed)])
      rw [replay_append_singleton, ← h.database, hcompleted]
      exact h.value n database hopen
    · show ((state.durable ++ [(n, session.completed)]).map Prod.fst).Nodup
      rw [List.map_append, List.nodup_append_comm]
      exact List.nodup_cons.mpr ⟨h.not_mem_durable hrefers, h.once⟩
    · refine List.forall_mem_append.mpr ⟨hkept, List.forall_mem_singleton.mpr (.inr ⟨rfl, rfl, ?_, hnone⟩)⟩
      cases cancelled <;> grind
    · exact List.mem_map_of_mem List.mem_concat_self

end

end Steps

end Lonewolf.Storage
