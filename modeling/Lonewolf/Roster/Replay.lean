import Lonewolf.Roster.Forget
import Lonewolf.Roster.Link

/-!
# Deliveries of a deletion

After a deletion has been committed, two loops read the snapshot from before it once more and deliver what
the contacts are to know. Here is what they deliver, contact by contact: the stanzas to contacts of other
servers and, to each account whose item was changed, the push of that change.
-/

namespace Lonewolf.Roster

open Transactions Cursors

variable {syn : JidSyntax}

section Rounds

variable (limits : Limits) (hosts : HostLookup) (before : Tables) (X : AccountKey syn) (contact : RosterJid syn)

def replayNotices (other : AccountKey syn) : List (Effect syn) :=
  match (before.book syn).sub X contact with
  | some own =>
    notifyRemovedContact X other
      ⟨0, own, (before.book syn).asked X contact, (before.book syn).sub other X.jid, none⟩
  | none => [.toInterested ⟨.unsubscribed, X, other⟩]

def replayPush (other : AccountKey syn) : List (Effect syn) :=
  replayCleanupPush limits before X other
    (cleanupProjection ((before.book syn).sub X contact) ((before.book syn).asked X contact)
      ((before.book syn).sub other X.jid)).changed

def replayRound : List (Effect syn) :=
  match counterpartOf hosts before X contact with
  | some other => replayNotices before X contact other ++ replayPush limits before X contact other
  | none =>
    match federatedContact hosts X contact with
    | some remote =>
      notifyRemovedRemoteContact X remote ((before.book syn).view X contact)
        ((before.book syn).asked X contact)
    | none => []

/-- The contacts that the loops come to. -/
def visited : List (RosterJid syn) := contactsOf before X ++ unlisted before X (sendersOf before X)

end Rounds

variable {limits : Limits} {hosts : HostLookup} {before : Tables} {X o : AccountKey syn}
  {contact : RosterJid syn}

theorem nodup_visited (h : before.WellFormed syn) (X : AccountKey syn) : (visited before X).Nodup :=
  (h.passed X).nodup

theorem mem_visited (h : before.WellFormed syn) :
    contact ∈ visited before X ↔ ((before.book syn).item X contact).isSome ∨ (before.book syn).asked X contact = true :=
  (h.passed X).mem contact

/-! ### The loops -/

section

variable (h : before.WellFormed syn)
include h

theorem run_replayItem {own : RosterSubscription}
    (hown : (before.book syn).sub X contact = some own) (done : List (Effect syn)) :
    (replayItem limits hosts before X contact own).run done =
      (.ok (), done ++ replayRound limits hosts before X contact) := by
  have hview : (before.book syn).view X contact = own := by rw [Book.view, hown, Option.getD_some]
  have hasked : before.pendingRequestExists X contact = (before.book syn).asked X contact :=
    pendingRequestExists_book ..
  simp only [replayItem, replayRound]
  cases counterpartOf hosts before X contact with
  | some other =>
    have hread : (Tx.read fun _ => before.rosterSubscription other X.jid :
        Replay syn (Option RosterSubscription)).run done =
          (.ok ((before.book syn).sub other X.jid), done) := by
      rw [h.rosterSubscription_book]
      rfl
    simp only [replayNotices, replayPush, hown, ← hasked]
    exact Tx.run_bind_of_ok hread
  | none =>
    simp only [hview, ← hasked]
    cases federatedContact hosts X contact with
    | some remote => rfl
    | none =>
      rw [List.append_nil]
      rfl

theorem run_replayRequest (hown : (before.book syn).item X contact = none)
    (hasked : (before.book syn).asked X contact = true) (done : List (Effect syn)) :
    (replayRequest limits hosts before X contact).run done =
      (.ok (), done ++ replayRound limits hosts before X contact) := by
  have hsub : (before.book syn).sub X contact = none := by rw [Book.sub, hown, Option.map_none]
  have hview : (before.book syn).view X contact = {} := by rw [Book.view, hsub, Option.getD_none]
  have hread (other : AccountKey syn) (jid : RosterJid syn) :
      (Tx.read fun _ => before.rosterSubscription other jid : Replay syn (Option RosterSubscription)).run done =
        (.ok ((before.book syn).sub other jid), done) := by
    rw [h.rosterSubscription_book]
    rfl
  rw [replayRequest, Tx.run_bind_of_ok (hread X contact), hsub, replayRound]
  cases counterpartOf hosts before X contact with
  | some other =>
    simp only [replayNotices, replayPush, hsub, hasked]
    exact Tx.run_bind_of_ok (hread other X.jid)
  | none =>
    simp only [hview, hasked]
    cases federatedContact hosts X contact with
    | some remote => rfl
    | none =>
      rw [List.append_nil]
      rfl

theorem replayRequest_listed {item : RosterItem syn} (hitem : (before.book syn).item X contact = some item) :
    replayRequest limits hosts before X contact = pure () := by
  have hown : before.rosterSubscription X contact = .ok (some item.subscription) := by
    rw [h.rosterSubscription_book, Book.sub, hitem]
    rfl
  funext done
  rw [replayRequest, hown]
  rfl

theorem run_replayItems {items : List (RosterItem syn)}
    (hitems : ∀ item ∈ items, (before.book syn).item X item.jid = some item) (done : List (Effect syn)) :
    (forEach (fun contact own => replayItem limits hosts before X contact own)
        (items.map fun item => (item.jid, item.subscription))).run done =
      (.ok (), done ++ (items.map RosterItem.jid).flatMap (replayRound limits hosts before X)) := by
  have hround : ∀ contact own, (contact, own) ∈ items.map (fun item => (item.jid, item.subscription)) →
      ∀ done, (replayItem limits hosts before X contact own).run done =
        (.ok (), done ++ replayRound limits hosts before X contact) := by
    intro contact own hmem
    obtain ⟨item, hitem, heq⟩ := List.mem_map.mp hmem
    cases heq
    apply run_replayItem h
    rw [Book.sub, hitems item hitem, Option.map_some]
  rw [run_forEach_append _ hround, List.flatMap_map, List.flatMap_map]

theorem run_replayRequests {senders : List (RosterJid syn)}
    (hsenders : ∀ sender ∈ senders, (before.book syn).asked X sender = true ∧ (before.book syn).item X sender = none)
    (done : List (Effect syn)) :
    (forEach (fun sender _ => replayRequest limits hosts before X sender)
        (senders.map fun sender => (sender, ()))).run done =
      (.ok (), done ++ senders.flatMap (replayRound limits hosts before X)) := by
  have hround : ∀ sender (u : Unit), (sender, u) ∈ senders.map (fun sender => (sender, ())) →
      ∀ done, (replayRequest limits hosts before X sender).run done =
        (.ok (), done ++ replayRound limits hosts before X sender) := by
    intro sender _ hmem
    obtain ⟨_, hsender, heq⟩ := List.mem_map.mp hmem
    cases heq
    obtain ⟨hasked, hitem⟩ := hsenders sender hsender
    exact run_replayRequest h hitem hasked
  rw [run_forEach_append _ hround, List.flatMap_map]

theorem run_replay (limits : Limits) (hosts : HostLookup) (X : AccountKey syn) :
    (replay limits hosts before X).run [] =
      (.ok (), (visited before X).flatMap (replayRound limits hosts before X)) := by
  obtain ⟨items, hrows⟩ := h.exists_items X
  have hitems : ∀ item ∈ items, (before.book syn).item X item.jid = some item :=
    fun item hmem => ((h.items_of_rows hrows).2 item).mp hmem
  rw [replay, loops_eq h hrows (fun _ _ hitem => replayRequest_listed h hitem),
    Tx.run_bind_of_ok (run_replayItems h hitems []),
    Tx.run_bind_of_ok (run_replayRequests h (fun sender => ((h.passed X).mem_senders sender).mp) _),
    visited, contactsOf_eq hrows, List.flatMap_append]
  rfl

end

/-! ### The pushes -/

@[simp] theorem pushes_replayNotices (before : Tables) (X : AccountKey syn) (contact : RosterJid syn)
    (other : AccountKey syn) : pushes (replayNotices before X contact other) = [] := by
  rw [replayNotices]
  cases (before.book syn).sub X contact with
  | none => rfl
  | some own => simp [notifyRemovedContact, pushNow, editOf]

theorem owner_of_mem_replayPush {other : AccountKey syn} {e : Edit syn}
    (h : e ∈ pushes (replayPush limits before X contact other)) : e.owner = other := by
  unfold replayPush replayCleanupPush at h
  split at h
  · cases h
  · split at h
    · rw [List.mem_singleton.mp h]
    · cases h

theorem pushes_replayRound (contact : RosterJid syn) :
    pushes (replayRound limits hosts before X contact) =
      match counterpartOf hosts before X contact with
      | some other => pushes (replayPush limits before X contact other)
      | none => [] := by
  rw [replayRound]
  cases counterpartOf hosts before X contact with
  | some other => simp only [pushes_append, pushes_replayNotices, List.nil_append]
  | none =>
    cases federatedContact hosts X contact with
    | some remote => simp [notifyRemovedRemoteContact, editOf]
    | none => rfl

theorem flatMap_of_unique {α β : Type} [DecidableEq α] {l : List α} (hnodup : l.Nodup) {f : α → List β}
    {a : α} (hother : ∀ b, b ≠ a → f b = []) : l.flatMap f = if a ∈ l then f a else [] := by
  induction l with
  | nil => rfl
  | cons b l ih =>
    obtain ⟨hnotMem, hnodup⟩ := List.nodup_cons.mp hnodup
    rw [List.flatMap_cons, ih hnodup]
    by_cases hb : b = a
    · subst hb
      rw [if_neg hnotMem, if_pos List.mem_cons_self, List.append_nil]
    · rw [hother b hb, List.nil_append]
      simp only [List.mem_cons, Ne.symm hb, false_or]

/-- The pushes of one owner, when each round tells none but its contact's account: another account is told in the round
of its JID alone. -/
theorem pushesOf_rounds (h : before.WellFormed syn) {round : RosterJid syn → List (Effect syn)}
    {told : RosterJid syn → AccountKey syn → List (Edit syn)}
    (hround : ∀ contact, pushes (round contact) = (counterpartOf hosts before X contact).elim [] (told contact))
    (htold : ∀ contact other, ∀ e ∈ told contact other, e.owner = other) (o : AccountKey syn) :
    pushesOf o ((visited before X).flatMap round) =
      if o.jid ∈ visited before X ∧ counterpartOf hosts before X o.jid = some o then told o.jid o else [] := by
  have hparty := partyOf_counterpartOf hosts before X
  have hown (contact : RosterJid syn) : pushesOf o (round contact) =
      if counterpartOf hosts before X contact = some o then told contact o else [] := by
    rw [pushesOf, hround]
    cases hcounterpart : counterpartOf hosts before X contact with
    | none => rfl
    | some other =>
      rw [Option.elim_some]
      by_cases ho : other = o
      · subst ho
        rw [if_pos rfl, List.filter_eq_self]
        intro e hmem
        rw [htold contact other e hmem, decide_eq_true rfl]
      · rw [if_neg fun heq => ho (Option.some.inj heq), List.filter_eq_nil_iff]
        intro e hmem
        rw [htold contact other e hmem, decide_eq_true_eq]
        exact ho
  rw [pushesOf, pushes, List.filterMap_flatMap, List.filter_flatMap]
  have hunique : ∀ contact, contact ≠ o.jid → pushesOf o (round contact) = [] := by
    intro contact hne
    rw [hown, if_neg fun hsome => hne (hparty.jid hsome).symm]
  refine (flatMap_of_unique (nodup_visited h X) hunique).trans ?_
  rw [hown, ite_and]

theorem pushesOf_replay (h : before.WellFormed syn) (o : AccountKey syn) :
    pushesOf o ((visited before X).flatMap (replayRound limits hosts before X)) =
      if o.jid ∈ visited before X ∧ counterpartOf hosts before X o.jid = some o then
        pushes (replayPush limits before X o.jid o)
      else [] := by
  have hround (contact : RosterJid syn) : pushes (replayRound limits hosts before X contact) =
      (counterpartOf hosts before X contact).elim [] fun other => pushes (replayPush limits before X contact other) := by
    rw [pushes_replayRound]
    cases counterpartOf hosts before X contact <;> rfl
  exact pushesOf_rounds h hround (fun _ _ _ => owner_of_mem_replayPush) o

end Lonewolf.Roster
