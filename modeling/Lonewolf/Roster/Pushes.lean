import Lonewolf.Roster.Replay
import Lonewolf.Roster.Symmetry

/-!
# Pushes of the operations

Every operation tells each owner the changes of that owner's items, each with the version right after it; what it
cannot tell, it makes the owner's sessions ask for. Applied in the order of their versions to the roster that a
client has fetched, the pushes lead to the roster that is stored.
-/

namespace Lonewolf.Roster

variable {syn : JidSyntax} {site : Site} {limits : Limits} {hosts : HostLookup} {w w' : Write}
  {effects : List (Effect syn)}

/-! ### The operations -/

variable {t t' : Tables}

theorem recorded_of_commit {op : Operation syn} (h : t.WellFormed syn) (hadmissible : op.Admissible site)
    (hcommit : op.commit site limits t = some (t', effects)) (hop : ∀ X, op ≠ .delete X) :
    ∃ es, Journals (t.book syn).rosters es (t'.book syn).rosters ∧ Announces effects es := by
  rcases op.cases_of_commit h hadmissible hcommit with
    ⟨X, rfl, hcreate, rfl⟩ | ⟨X, _, rfl, _⟩ | ⟨w, rfl, _, hrecorded⟩
  · rw [createAccount, Option.ite_none_left_eq_some] at hcreate
    obtain ⟨_, heq⟩ := hcreate
    cases heq
    exact ⟨[], .nil _, [], .nil, fun _ hmem => absurd hmem List.not_mem_nil⟩
  · exact absurd rfl (hop X)
  · exact hrecorded

/-! ### Deletions -/

section Deletion

variable {before : Tables} {X o : AccountKey syn}

theorem changed_eq (own : Option RosterSubscription) (asked : Bool) (old : RosterSubscription)
    (hvisited : own.isSome ∨ asked = true) :
    (cleanupProjection own asked (some old)).changed = whenChanged old (leftOf own.isSome asked old) := by
  have happlied (subscription : RosterSubscription) :
      applied (fun old => whenChanged old subscription) old = subscription := by
    simp only [applied, whenChanged]
    by_cases h : subscription = old
    · rw [if_neg (not_not.mpr h), h, Option.getD_none]
    · rw [if_pos h, Option.getD_some]
  cases own with
  | some own => exact congrArg (whenChanged old) (happlied _).symm
  | none =>
    rw [hvisited.resolve_left (by simp)]
    exact congrArg (whenChanged old) (happlied _).symm

/-- The push that is reconstructed from the snapshot tells the change of a contact's item; otherwise the
contact's sessions are retired. -/
theorem replayCleanupPush_some {item : RosterItem syn} (h : before.WellFormed syn)
    (hitem : (before.book syn).item o X.jid = some item) (subscription : RosterSubscription) :
    replayCleanupPush limits before X o (some subscription) = [.retireInterested o] ∨
      replayCleanupPush limits before X o (some subscription) =
        [.push o ⟨(before.book syn).version o + 1, { item with subscription := subscription }⟩] := by
  simp only [replayCleanupPush, replayedPush, cleanupVersion]
  cases hversion : checkedAdd (before.rosterVersion o) 1 with
  | none => exact .inl rfl
  | some version =>
    obtain ⟨_, rfl⟩ := checkedAdd_eq_some.mp hversion
    rcases h.rosterItem_cases o X.jid (quota limits o) with hread | ⟨hread, _⟩
    · rw [hread, show itemAt before o X.jid = some item from hitem]
      exact .inr rfl
    · rw [hread]
      exact .inl rfl

theorem changed_of_visited (h : before.WellFormed syn) (hvisited : o.jid ∈ visited before X) :
    (cleanupProjection ((before.book syn).sub X o.jid) ((before.book syn).asked X o.jid)
        ((before.book syn).sub o X.jid)).changed =
      ((before.book syn).item o X.jid).bind fun item =>
        whenChanged item.subscription (leftOf ((before.book syn).item X o.jid).isSome
          ((before.book syn).asked X o.jid) item.subscription) := by
  have hsome : ((before.book syn).sub X o.jid).isSome = ((before.book syn).item X o.jid).isSome :=
    Option.isSome_map
  rw [mem_visited h, ← hsome] at hvisited
  rw [← hsome]
  cases hitem : (before.book syn).item o X.jid with
  | none =>
    rw [show (before.book syn).sub o X.jid = none by rw [Book.sub, hitem, Option.map_none]]
    rfl
  | some item =>
    rw [show (before.book syn).sub o X.jid = some item.subscription by
      rw [Book.sub, hitem, Option.map_some], changed_eq _ _ _ hvisited, Option.bind_some]

private theorem resubscribed_cases (old : Option (RosterItem syn)) (f : RosterSubscription → RosterSubscription) :
    ((old.bind fun item => whenChanged item.subscription (f item.subscription)) = none ∧
        old.map (fun item => { item with subscription := f item.subscription }) = old) ∨
      ∃ item, old = some item ∧ f item.subscription ≠ item.subscription ∧
        (old.bind fun item => whenChanged item.subscription (f item.subscription)) = some (f item.subscription) := by
  cases old with
  | none => exact .inl ⟨rfl, rfl⟩
  | some item =>
    by_cases hsame : f item.subscription = item.subscription
    · left
      simp [whenChanged, hsame]
    · exact .inr ⟨item, rfl, hsame, if_pos hsame⟩

theorem pushesOf_replay_changed {item : RosterItem syn} {subscription : RosterSubscription}
    (h : before.WellFormed syn) (hvisited : o.jid ∈ visited before X)
    (hparty : counterpartOf hosts before X o.jid = some o) (hold : (before.book syn).item o X.jid = some item)
    (hchange : replayPush limits before X o.jid o = replayCleanupPush limits before X o (some subscription)) :
    pushesOf o ((visited before X).flatMap (replayRound limits hosts before X)) =
        [⟨o, (before.book syn).version o + 1, item.jid, some { item with subscription := subscription }⟩] ∨
      pushesOf o ((visited before X).flatMap (replayRound limits hosts before X)) = [] ∧
        .retireInterested o ∈ (visited before X).flatMap (replayRound limits hosts before X) := by
  rw [pushesOf_replay h, if_pos ⟨hvisited, hparty⟩, hchange]
  rcases replayCleanupPush_some h hold subscription with hpush | hpush
  · right
    rw [hpush, List.mem_flatMap]
    refine ⟨rfl, o.jid, hvisited, ?_⟩
    rw [replayRound, hparty]
    apply List.mem_append_right
    rw [hchange, hpush]
    exact List.mem_singleton_self _
  · left
    rw [hpush]
    rfl

section Forgotten

variable {b b' : Book syn} (h : before.WellFormed syn)
  (hitem : b.item = (before.book syn).item) (hrequest : b.request = (before.book syn).request)
  (hversion : b.version = (before.book syn).version) (ho : o ≠ X)
  (hb' : b' = b.forgotten X (counterpartOf hosts before X) (contactsOf before X)
    (unlisted before X (sendersOf before X)))
include h hitem hrequest hversion ho hb'

/-- Another account keeps its roster and gets no push, or its item about the deleted account gets another subscription
and the round of the account replays that change. -/
theorem forgotten_cases (limits : Limits) :
    (b'.version o = (before.book syn).version o ∧ (∀ j, b'.item o j = (before.book syn).item o j) ∧
        pushesOf o ((visited before X).flatMap (replayRound limits hosts before X)) = []) ∨
      ∃ item subscription, (before.book syn).item o X.jid = some item ∧ item.subscription ≠ subscription ∧
        b'.item o X.jid = some { item with subscription := subscription } ∧
        b'.version o = (before.book syn).version o + 1 ∧
        (∀ j, j ≠ X.jid → b'.item o j = (before.book syn).item o j) ∧
        o.jid ∈ visited before X ∧ counterpartOf hosts before X o.jid = some o ∧
        (cleanupProjection ((before.book syn).sub X o.jid) ((before.book syn).asked X o.jid)
          ((before.book syn).sub o X.jid)).changed = some subscription := by
  have hparty := partyOf_counterpartOf hosts before X
  have hrows := sameRows_forgotten hparty b (contactsOf before X) (unlisted before X (sendersOf before X))
  rw [← hb'] at hrows
  by_cases hsome : counterpartOf hosts before X o.jid = some o
  · obtain ⟨hleft, _, hadvanced⟩ := forgotten_other hparty hsome ((h.passed X).of_eq hitem hrequest)
    have hothers : ∀ j, j ≠ X.jid → b'.item o j = (before.book syn).item o j := by
      intro j hj
      rw [← hitem]
      exact hrows.item o j fun hchanged => hchanged.elim ho fun heq => hj heq.2
    have hasked : b.asked X o.jid = (before.book syn).asked X o.jid := by
      rw [Book.asked, hrequest]
      rfl
    rw [← hb', hitem, hasked] at hleft
    rw [← hb', hitem, hversion] at hadvanced
    rcases resubscribed_cases ((before.book syn).item o X.jid) (leftOf ((before.book syn).item X o.jid).isSome
      ((before.book syn).asked X o.jid)) with ⟨hnone, hsame⟩ | ⟨item, hold, hne, hchange⟩
    · -- The item stays as it was, and no push is made.
      rw [hsame] at hleft
      rw [if_pos hleft] at hadvanced
      refine .inl ⟨hadvanced, fun j => ?_, ?_⟩
      · by_cases hj : j = X.jid
        · rw [hj]
          exact hleft
        · exact hothers j hj
      · rw [pushesOf_replay h]
        split
        case isTrue hvisited =>
          rw [replayPush, changed_of_visited h hvisited.1, hnone]
          rfl
        case isFalse => rfl
    · -- The item changes, so the loops come to the contact.
      have hvisited : o.jid ∈ visited before X := by
        rw [mem_visited h]
        by_contra hnot
        rw [not_or, Bool.not_eq_true, Bool.not_eq_true] at hnot
        rw [hnot.1, hnot.2] at hne
        exact hne rfl
      rw [hold, Option.map_some] at hleft
      rw [hleft, hold, if_neg fun heq => hne (congrArg RosterItem.subscription (Option.some.inj heq))] at hadvanced
      exact .inr ⟨item, _, hold, Ne.symm hne, hleft, hadvanced, hothers, hvisited, hsome,
        (changed_of_visited h hvisited).trans hchange⟩
  · have hkept (j : RosterJid syn) : ¬ (o = X ∨ (counterpartOf hosts before X o.jid = some o ∧ j = X.jid)) :=
      fun hchanged => hchanged.elim ho fun heq => hsome heq.1
    refine .inl ⟨(hrows.version o hkept).trans (congrFun hversion o), fun j => ?_, ?_⟩
    · exact (hrows.item o j (hkept j)).trans (congrFun (congrFun hitem o) j)
    · rw [pushesOf_replay h, if_neg fun hboth => hsome hboth.2]

theorem notified_forgotten :
    Notified o ((before.book syn).rosters.own o)
      ((visited before X).flatMap (replayRound limits hosts before X)) (b'.rosters.own o) := by
  rcases forgotten_cases h hitem hrequest hversion ho hb' limits with ⟨hsame, hitems, hpushes⟩ |
    ⟨item, subscription, hold, -, hnew, hadvanced, hothers, hvisited, hparty, hchange⟩
  · exact Notified.of_eq (Rosters.own_eq hsame hitems) hpushes
  · apply Notified.once (Follows.once hadvanced hothers)
    have hjid : item.jid = X.jid := h.itemAt_jid hold
    rw [show b'.rosters.item o X.jid = _ from hnew, ← hjid]
    exact pushesOf_replay_changed h hvisited hparty hold (by rw [replayPush, hchange])

end Forgotten

end Deletion

theorem notified_of_commit {op : Operation syn} {o : AccountKey syn} (h : t.WellFormed syn)
    (hadmissible : op.Admissible site) (hcommit : op.commit site limits t = some (t', effects)) (hop : op ≠ .delete o) :
    Notified o ((t.book syn).rosters.own o) effects ((t'.book syn).rosters.own o) := by
  by_cases hdelete : ∀ X, op ≠ .delete X
  · obtain ⟨es, hjournals, hannounced⟩ := recorded_of_commit h hadmissible hcommit hdelete
    exact hjournals.notified hannounced o
  · push Not at hdelete
    obtain ⟨X, rfl⟩ := hdelete
    obtain ⟨w, hrun, rfl⟩ := committed_eq_some.mp hcommit
    rcases run_deleteAccount h hrun with ⟨_, rfl, hleads⟩ | ⟨_, rfl, rfl⟩
    · rw [run_replay h]
      refine notified_forgotten h ?_ ?_ ?_ (fun heq => hop (by rw [heq])) hleads.book <;> rfl
    · exact .of_eq rfl rfl

/-! ### Runs -/

/-- Operations one after another from some tables on, none of which deletes the owner, with all that they
deliver. -/
inductive Since (site : Site) (o : AccountKey syn) (t : Tables) : List (Effect syn) → Tables → Prop where
  | refl : Since site o t [] t
  | step {t' t'' : Tables} {effects effects' : List (Effect syn)} {limits : Limits} {op : Operation syn}
      (hrun : Since site o t effects t') (hadmissible : op.Admissible site)
      (hcommit : op.commit site limits t' = some (t'', effects')) (hop : op ≠ .delete o) :
      Since site o t (effects ++ effects') t''

variable {o : AccountKey syn}

theorem Since.sound (h : Since site o t effects t') (hsound : Sound syn site t) : Sound syn site t' := by
  induction h with
  | refl => exact hsound
  | step _ hadmissible hcommit _ ih => exact sound_step ih ⟨_, _, _, hadmissible, hcommit⟩

theorem Since.notified (h : Since site o t effects t') (hsound : Sound syn site t) :
    Notified o ((t.book syn).rosters.own o) effects ((t'.book syn).rosters.own o) := by
  induction h with
  | refl => exact .of_eq rfl rfl
  | step hrun hadmissible hcommit hop ih =>
    exact ih.trans (notified_of_commit (hrun.sound hsound).wellFormed hadmissible hcommit hop)

end Lonewolf.Roster
