import Lonewolf.Storage.Atomicity

/-!
# Every run of write transactions

One step of the system keeps what `Inv` says, so it holds in every reachable state; what a caller sees of its handle
and of the database follows.
-/

namespace Lonewolf.Storage

open Exclusive

variable {σ Op : Type} [DecidableEq Op] {apply : Op → σ → σ} {origin : σ} {state later : State σ Op}

variable {n : Nat} {session : Session Op}

section

variable (h : Inv apply origin state)
include h

theorem Inv.keep (hchange : (state.session n).Change session) (hguard : session.hasGuard = (state.session n).hasGuard)
    (hpermit : session.hasPermit = (state.session n).hasPermit) : Inv apply origin (state.put n session) :=
  h.change (h.guard.keep hguard) (h.permit.keep hpermit) hchange

theorem Inv.close {outcome : Outcome} (hchange : (state.session n).Change { session with phase := .closed outcome })
    (hguard : (state.session n).hasGuard = true) (hpermit : session.hasPermit = (state.session n).hasPermit) :
    Inv apply origin (state.close n session outcome) :=
  h.change (h.guard.give hguard rfl) (h.permit.keep hpermit) hchange

theorem Inv.release (hchange : (state.session n).Change session)
    (hguard : session.hasGuard = (state.session n).hasGuard) (hold : (state.session n).hasPermit = true)
    (hnew : session.hasPermit = false) : Inv apply origin ({ state with permit := none }.put n session) :=
  h.change (h.guard.keep hguard) (h.permit.give hold hnew) hchange

theorem Inv.submit (hfree : state.permit = none)
    (hchange : (state.session n).job = none → (state.session n).Change session)
    (hguard : session.hasGuard = (state.session n).hasGuard) (hnew : session.hasPermit = true) :
    Inv apply origin { state.put n session with permit := some n } := by
  have hheld : Held Session.hasPermit state.session none := by
    rw [← hfree]
    exact h.permit
  have hjob : (state.session n).job = none := by
    have := hheld.of_free n
    rwa [Session.hasPermit, Option.isSome_eq_false_iff, Option.isNone_iff_eq_none] at this
  exact h.change (h.guard.keep hguard) (hheld.take hnew) (hchange hjob)

end

omit [DecidableEq Op] in
theorem Session.hasPermit_cancelJob (session : Session Op) : session.cancelJob.hasPermit = session.hasPermit := by
  simp [Session.cancelJob, Session.hasPermit]

section

variable (h : Inv apply origin state)
include h

theorem Inv.notBegun {cancelled : Bool} (hjob : (state.session n).job = some ⟨.begin, .running, cancelled⟩) :
    Inv apply origin (state.notBegun n cancelled) := by
  have hfits := (h.session n).job
  have hold : (state.session n).hasPermit = true := by simp [Session.hasPermit, hjob]
  cases cancelled with
  | true => exact h.release (.beginErrorCancelled hjob) rfl hold rfl
  | false => exact h.release (.beginError hjob) (by grind) hold rfl

theorem Inv.dropBegin (hphase : (state.session n).phase ∈ [Phase.locking, .acquiring, .beginning, .began, .beginFailed])
    : Inv apply origin (state.dropBegin n) := by
  simp only [List.mem_cons, List.not_mem_nil, or_false] at hphase
  unfold State.dropBegin
  rcases hphase with hphase | hphase | hphase | hphase | hphase
  · simp only [hphase]
    exact h.keep (.dropBegin (.inl hphase)) (by grind) rfl
  · simp only [hphase]
    exact h.close (.dropBegin (.inr (.inl hphase))) (by grind) rfl
  · simp only [hphase]
    exact h.close (.dropBeginning hphase) (by grind) (Session.hasPermit_cancelJob _)
  · simp only [hphase]
    exact h.close (.dropBegin (.inr (.inr (.inl hphase)))) (by grind) rfl
  · simp only [hphase]
    exact h.close (.dropBegin (.inr (.inr (.inr hphase)))) (by grind) rfl

theorem Inv.dropOp {stage : OpStage Op} (hop : stage ∈ (state.session n).ops) :
    Inv apply origin (state.dropOp n stage) := by
  unfold State.dropOp
  dsimp only
  split
  · next hstage =>
    subst hstage
    exact h.keep (.dropSubmitted hop) rfl (Session.hasPermit_cancelJob _)
  · next hstage => exact h.keep (.dropOp hop hstage) rfl rfl

theorem Inv.commitCall (hphase : (state.session n).phase = .opened)
    (hops : (state.session n).ops = []) : Inv apply origin (state.commitCall n) := by
  unfold State.commitCall
  dsimp only
  split
  · exact h.close (.refuse hphase hops) (by grind) rfl
  · next hshared => exact h.keep (.commit hphase hops (Bool.eq_false_iff.mpr hshared)) (by grind) rfl

theorem Inv.dropCommit (hphase : (state.session n).phase = .committing ∨
    (state.session n).phase = .awaiting ∨ ∃ ok, (state.session n).phase = .committed ok) :
    Inv apply origin (state.dropCommit n) := by
  unfold State.dropCommit
  dsimp only
  split
  · next hawaiting => exact h.close (.dropAwaiting hawaiting) (by grind) (Session.hasPermit_cancelJob _)
  · next hne =>
    have hphase : (state.session n).phase = .committing ∨ ∃ ok, (state.session n).phase = .committed ok := by
      rcases hphase with hphase | hphase | hphase
      · exact .inl hphase
      · exact absurd hphase hne
      · exact .inr hphase
    exact h.close (.dropCommit hphase) (by grind) rfl

theorem Inv.discard {job : Job Op} (permitFirst : Bool)
    (hjob : (state.session n).job = some job) (hstage : job.stage = .queued) (hcancelled : job.cancelled = true) :
    Inv apply origin (state.discard n permitFirst job) := by
  have hold : (state.session n).hasPermit = true := by simp [Session.hasPermit, hjob]
  cases permitFirst with
  | true => exact h.release (.discardPermit hjob hstage hcancelled) rfl hold rfl
  | false => exact h.keep (.discard hjob hstage hcancelled) rfl hold.symm

theorem Inv.step (hstep : Step apply state later) : Inv apply origin later := by
  cases hstep with
  | call n hphase => exact h.keep (.call hphase) (by grind) rfl
  | lock n hphase hguard =>
    have hheld : Held Session.hasGuard state.session none := by
      rw [← hguard]
      exact h.guard
    exact h.change (hheld.take rfl) (h.permit.keep rfl) (.lock hphase)
  | submitBegin n hphase hpermit => exact h.submitBegin hphase hpermit
  | start n job hjob hstage => exact h.keep (.start hjob hstage) rfl (by simp [Session.hasPermit, hjob])
  | begin n cancelled hjob hfree => exact h.begun hjob hfree
  | beginError n cancelled hjob => exact h.notBegun hjob
  | beginReturn n hphase => exact h.keep (.beginReturn hphase) (by grind) rfl
  | beginFail n hphase => exact h.close (.beginFail hphase) (by grind) rfl
  | dropBegin n hphase => exact h.dropBegin hphase
  | opCall n op hphase => exact h.keep (.opCall op hphase) rfl rfl
  | opSubmit n op hop hpermit => exact h.submit hpermit (fun hjob => .opSubmit hop hjob) rfl rfl
  | opRun n op current cancelled hjob hopen => exact h.operated hjob hopen
  | opReturn n hop => exact h.keep (.opReturn hop) rfl rfl
  | dropOp n stage hop => exact h.dropOp hop
  | commit n hphase hops => exact h.commitCall hphase hops
  | commitSubmit n hphase hpermit =>
    exact h.submit hpermit (fun hjob => .commitSubmit hphase hjob) (by grind) rfl
  | commitRun n database cancelled ok hjob hopen => exact h.ran ok hjob hopen
  | commitReturn n ok hphase => exact h.close (.commitReturn hphase) (by grind) rfl
  | dropCommit n hphase => exact h.dropCommit hphase
  | dropHandle n hphase hops => exact h.close (.dropHandle hphase hops) (by grind) rfl
  | discard n permitFirst job hjob hstage hcancelled => exact h.discard permitFirst hjob hstage hcancelled
  | free n job hjob hstage => exact h.release (.free hjob hstage) rfl (by simp [Session.hasPermit, hjob]) rfl
  | linger n hlingering => exact h.keep .linger rfl rfl

end

theorem reachable_inv (h : (system apply origin).Reachable state) : Inv apply origin state := by
  refine h.invariant (fun s hinit => ?_) (fun s t _ hs hstep => hs.step hstep)
  rw [show s = State.initial origin from hinit]
  exact inv_initial apply origin

section

variable (h : Inv apply origin state)
include h

theorem step_database (hstep : Step apply state later) :
    (later.database = state.database ∧ later.durable = state.durable) ∨
      ∃ n cancelled, (state.session n).job = some ⟨.commit, .running, cancelled⟩ ∧
        later.database = perform apply state.database (state.session n).completed ∧
        later.durable = state.durable ++ [(n, (state.session n).completed)] := by
  cases hstep with
  | commitRun n database cancelled ok hjob hopen =>
    cases ok with
    | false => exact .inl ⟨rfl, rfl⟩
    | true =>
      refine .inr ⟨n, cancelled, hjob, h.value n database hopen, ?_⟩
      cases cancelled <;> rfl
  | dropBegin n hphase =>
    refine .inl ?_
    unfold State.dropBegin
    dsimp only
    split <;> exact ⟨rfl, rfl⟩
  | commit n hphase hops =>
    refine .inl ?_
    unfold State.commitCall
    dsimp only
    split <;> exact ⟨rfl, rfl⟩
  | discard n permitFirst job hjob hstage hcancelled =>
    refine .inl ?_
    cases permitFirst <;> exact ⟨rfl, rfl⟩
  | _ => exact .inl ⟨rfl, rfl⟩

theorem step_closed (hstep : Step apply state later) {m : Nat} {outcome : Outcome}
    (hclosed : (state.session m).phase = .closed outcome) : (later.session m).phase = .closed outcome := by
  have hput : ∀ n (session : Session Op), ((state.session n).phase = .closed outcome → session.phase = .closed outcome) →
      (Function.update state.session n session m).phase = .closed outcome := by
    intro n session hsame
    rw [Function.update_apply]
    split
    · next heq => exact hsame (heq ▸ hclosed)
    · exact hclosed
  cases hstep with
  | begin n cancelled hjob hfree =>
    have hfits := (h.session n).job
    cases cancelled <;> exact hput n _ (by grind)
  | beginError n cancelled hjob =>
    have hfits := (h.session n).job
    cases cancelled <;> exact hput n _ (by grind)
  | dropBegin n hphase =>
    unfold State.dropBegin
    dsimp only
    split <;> exact hput n _ (by grind)
  | dropOp n stage hop =>
    refine hput n _ ?_
    split <;> exact id
  | commit n hphase hops =>
    unfold State.commitCall
    dsimp only
    split <;> exact hput n _ (by grind)
  | commitRun n database cancelled ok hjob hopen =>
    have hfits := (h.session n).job
    cases ok <;> cases cancelled <;> exact hput n _ (by grind)
  | discard n permitFirst job hjob hstage hcancelled =>
    cases permitFirst <;> exact hput n _ id
  | _ => exact hput _ _ (by grind)

theorem Inv.isOpen_unique {n m : Nat} (hn : (state.session n).phase.isOpen = true)
    (hm : (state.session m).phase.isOpen = true) : n = m := by
  refine h.guard.unique ?_ ?_
  · exact Session.hasGuard_of_inHand (by simp [Session.inHand, hn])
  · exact Session.hasGuard_of_inHand (by simp [Session.inHand, hm])

theorem Inv.not_durable (hphase : (state.session n).phase.maybeDurable = false) : n ∉ state.durable.map Prod.fst := by
  intro hmem
  obtain ⟨commit, hcommit, rfl⟩ := List.mem_map.mp hmem
  rw [(h.ended commit hcommit).1] at hphase
  cases hphase

theorem Inv.reported {ok : Bool}
    (hphase : (state.session n).phase = .committed ok ∨ (state.session n).phase = .closed (.returned ok)) :
    n ∈ state.durable.map Prod.fst ↔ ok = true := by
  cases ok with
  | true =>
    refine iff_of_true (h.durable n ?_) rfl
    rcases hphase with hphase | hphase <;> rw [hphase] <;> rfl
  | false =>
    refine iff_of_false (h.not_durable ?_) Bool.false_ne_true
    rcases hphase with hphase | hphase <;> rw [hphase] <;> rfl

end

omit [DecidableEq Op] in
theorem commitCall_of_isShared (h : (state.session n).isShared = true) :
    ((state.commitCall n).session n).phase = .closed .refused ∧ (state.commitCall n).database = state.database ∧
      (state.commitCall n).durable = state.durable := by
  simp only [State.commitCall, h, if_true, State.close]
  refine ⟨?_, rfl, rfl⟩
  rw [put_session, if_pos rfl]

omit [DecidableEq Op] in
theorem Session.isShared_of_job {op : Op} {stage : Stage} {cancelled : Bool}
    (hjob : session.job = some ⟨.operation op, stage, cancelled⟩) (hstage : stage ≠ .ended) :
    session.isShared = true := by
  cases stage with
  | ended => exact absurd rfl hstage
  | _ => simp [Session.isShared, hjob, Job.refers]

/-- In every run: one handle is open at a time, and then no job is to open a transaction; what is durable is what the
commits that ran and succeeded made of it, one after the other, each by exactly the operations that were completed on
its handle, and a handle that has one called `commit`; what a commit returned is what happened, a handle that was
refused, dropped or never returned changed nothing, and what happened is for good; `commit` fails while an operation of
the handle is on its way. -/
theorem write_transactions_atomic (h : (system apply origin).Reachable state) :
    (∀ n m, (state.session n).phase.isOpen = true → (state.session m).phase.isOpen = true → n = m) ∧
    (∀ n, (state.session n).begins = true → ∀ m, (state.session m).phase.isOpen = false) ∧
    (state.database = replay apply origin state.durable ∧ (state.durable.map Prod.fst).Nodup ∧
      ∀ commit ∈ state.durable, commit.2 = (state.session commit.1).completed ∧
        (state.session commit.1).phase.maybeDurable = true) ∧
    (∀ n ok, (state.session n).phase = .committed ok ∨ (state.session n).phase = .closed (.returned ok) →
      (n ∈ state.durable.map Prod.fst ↔ ok = true)) ∧
    (∀ n outcome, (state.session n).phase = .closed outcome → outcome ≠ .abandoned → outcome ≠ .returned true →
      n ∉ state.durable.map Prod.fst) ∧
    (∀ n, ((∃ op stage cancelled, (state.session n).job = some ⟨.operation op, stage, cancelled⟩ ∧ stage ≠ .ended) ∨
        0 < (state.session n).lingering) →
      ((state.commitCall n).session n).phase = .closed .refused ∧
        (state.commitCall n).database = state.database ∧ (state.commitCall n).durable = state.durable) ∧
    ∀ later, Step apply state later →
      ((later.database = state.database ∧ later.durable = state.durable) ∨
        ∃ n cancelled, (state.session n).job = some ⟨.commit, .running, cancelled⟩ ∧
          later.database = perform apply state.database (state.session n).completed ∧
          later.durable = state.durable ++ [(n, (state.session n).completed)]) ∧
      ∀ n outcome, (state.session n).phase = .closed outcome → (later.session n).phase = .closed outcome := by
  have hinv := reachable_inv h
  refine ⟨fun n m hn hm => hinv.isOpen_unique hn hm, fun n hbegins m => ?_, ⟨hinv.database, hinv.once, ?_⟩,
    fun n ok hphase => hinv.reported hphase, fun n outcome hphase hne hne' => ?_,
    fun n hunfinished => commitCall_of_isShared ?_, fun later hstep => ?_⟩
  · have := hinv.alone n m hbegins
    simp only [Session.inHand, Bool.or_eq_false_iff] at this
    exact this.1
  · exact fun commit hcommit => ⟨hinv.whole commit hcommit, (hinv.ended commit hcommit).1⟩
  · refine hinv.not_durable ?_
    rw [hphase]
    cases outcome with
    | abandoned => exact absurd rfl hne
    | returned ok =>
      cases ok with
      | true => exact absurd rfl hne'
      | false => rfl
    | _ => rfl
  · rcases hunfinished with ⟨op, stage, cancelled, hjob, hstage⟩ | hlingering
    · exact Session.isShared_of_job hjob hstage
    · simp [Session.isShared, hlingering]
  · exact ⟨step_database hinv hstep, fun n outcome hphase => step_closed hinv hstep hphase⟩

/-- A run with one handle, whose only operation adds five. -/
theorem write_transactions_atomic_sample :
    ∃ state : State Nat Nat, (system (fun op current : Nat => op + current) 1).Reachable state ∧ state.durable = [(0, [5])] ∧
      state.database = replay (fun op current : Nat => op + current) 1 state.durable := by
  have h0 : (system (fun op current : Nat => op + current) 1).Reachable (.initial 1) := .init rfl
  have h1 := h0.step (Step.call 0 rfl)
  have h2 := h1.step (Step.lock 0 rfl rfl)
  have h3 := h2.step (Step.submitBegin 0 rfl rfl)
  have h4 := h3.step (Step.start 0 _ rfl rfl)
  have h5 := h4.step (Step.begin 0 false rfl rfl)
  have h6 := h5.step (Step.beginReturn 0 rfl)
  have h7 := h6.step (Step.opCall 0 5 rfl)
  have h8 := h7.step (Step.opSubmit 0 5 (.head _) rfl)
  have h9 := h8.step (Step.start 0 _ rfl rfl)
  have h10 := h9.step (Step.opRun 0 5 1 false rfl rfl)
  have h11 := h10.step (Step.opReturn 0 (.head _))
  have h12 := h11.step (Step.free 0 _ rfl rfl)
  have h13 := h12.step (Step.commit 0 rfl rfl)
  have h14 := h13.step (Step.commitSubmit 0 rfl rfl)
  have h15 := h14.step (Step.start 0 _ rfl rfl)
  have h16 := h15.step (Step.commitRun 0 6 false true rfl rfl)
  exact ⟨_, h16, rfl, (write_transactions_atomic h16).2.2.1.1⟩

end Lonewolf.Storage
