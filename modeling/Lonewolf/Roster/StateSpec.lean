import Lonewolf.Roster.Journal
import Lonewolf.Roster.Writes

/-!
# State transitions on the book

What the functions of `state.rs` make of the book when they succeed, and the mutations of the items that
they report: exactly the changes that they made, with the versions that these led to. Whether an item is
put again or patched in its header makes no difference to the book.
-/

namespace Lonewolf.Roster

open Texts Transactions

variable {syn : JidSyntax} {limits : Limits} {owner : AccountKey syn} {jid : RosterJid syn} {w w' w'' : Write}
  {f : RosterSubscription → Option RosterSubscription}

namespace Book

variable (b : Book syn) (owner : AccountKey syn) (jid : RosterJid syn)

def sub : Option RosterSubscription := (b.item owner jid).map RosterItem.subscription

def asked : Bool := (b.request owner jid).isSome

/-- The item gets a changed subscription; an absent item is made. -/
def change (subscription : Option RosterSubscription) : Book syn :=
  match subscription with
  | none => b
  | some subscription =>
    (b.setItem owner jid
      (some { (b.item owner jid).getD (bareItem jid) with subscription := subscription })).advance owner

def update (f : RosterSubscription → Option RosterSubscription) : Book syn :=
  b.change owner jid (changeOf (b.sub owner jid) f)

def updateExisting (f : RosterSubscription → Option RosterSubscription) : Book syn :=
  if (b.sub owner jid).isSome then b.update owner jid f else b

end Book

theorem Leads.trans {w w₁ w₂ : Write} {b₁ b₂ : Book syn} (h : Leads w w₁ b₁) (h' : Leads w₁ w₂ b₂) : Leads w w₂ b₂ :=
  ⟨h'.wellFormed, h'.committed.trans h.committed, h'.book⟩

theorem Tables.WellFormed.rosterSubscription_book {t : Tables} (h : t.WellFormed syn) (owner : AccountKey syn)
    (jid : RosterJid syn) : t.rosterSubscription owner jid = .ok ((t.book syn).sub owner jid) :=
  h.rosterSubscription_eq owner jid

theorem Leads.rosterSubscription {w w' : Write} {b : Book syn} {owner : AccountKey syn} {jid : RosterJid syn}
    (h : Leads w w' b) : w'.tables.rosterSubscription owner jid = .ok (b.sub owner jid) :=
  h.book ▸ h.wellFormed.rosterSubscription_book owner jid

theorem pendingRequestExists_book (t : Tables) (owner : AccountKey syn) (sender : RosterJid syn) :
    t.pendingRequestExists owner sender = (t.book syn).asked owner sender := rfl

/-! ### Changes of a transaction -/

/-- The changes of a transaction are those that some mutations report. -/
def Journaled (syn : JidSyntax) (w w' : Write) (changes : List (AccountKey syn × ItemMutation syn)) : Prop :=
  ∃ ess, List.Forall₂ (fun change es => Reported change.1 change.2 es) changes ess ∧
    Journals (w.book syn).rosters ess.flatten (w'.book syn).rosters

variable {r : ItemMutation syn}

section

variable {b b' : Book syn} {changes changes' : List (AccountKey syn × ItemMutation syn)}

namespace Journaled

theorem nil (h : (w'.book syn).rosters = (w.book syn).rosters) : Journaled syn w w' [] :=
  ⟨[], .nil, .of_eq h⟩

theorem single {es : List (Edit syn)} (hreported : Reported owner r es)
    (h : Journals (w.book syn).rosters es (w'.book syn).rosters) : Journaled syn w w' [(owner, r)] := by
  refine ⟨[es], .cons hreported .nil, ?_⟩
  rw [List.flatten_singleton]
  exact h

theorem unchanged (h : (w'.book syn).rosters = (w.book syn).rosters) : Journaled syn w w' [(owner, none)] :=
  single .none (.of_eq h)

theorem trans (h : Journaled syn w w' changes) (h' : Journaled syn w' w'' changes') :
    Journaled syn w w'' (changes ++ changes') := by
  obtain ⟨ess, hreported, hjournals⟩ := h
  obtain ⟨ess', hreported', hjournals'⟩ := h'
  refine ⟨ess ++ ess', List.rel_append hreported hreported', ?_⟩
  rw [List.flatten_append]
  exact hjournals.trans hjournals'

end Journaled

/-- A transaction makes this of the book, by the changes that some mutations report. -/
structure Tells (w w' : Write) (b : Book syn) (changes : List (AccountKey syn × ItemMutation syn)) : Prop
    extends Leads w w' b where
  journaled : Journaled syn w w' changes

theorem Tells.trans (h : Tells w w' b changes) (h' : Tells w' w'' b' changes') : Tells w w'' b' (changes ++ changes') :=
  ⟨h.toLeads.trans h'.toLeads, h.journaled.trans h'.journaled⟩

theorem Leads.unchanged (h : Leads w w' b) (hsame : b.rosters = (w.book syn).rosters) :
    Tells w w' b [(owner, none)] := by
  rw [← h.book] at hsame
  exact ⟨h, .unchanged hsame⟩

theorem Tells.refl (h : w.tables.WellFormed syn) : Tells w w (w.book syn) [(owner, none)] :=
  (Leads.refl h).unchanged rfl

theorem Leads.tells (h : Leads w w' b) (hsame : b.rosters = (w.book syn).rosters)
    (h' : Tells w' w'' b' changes) : Tells w w'' b' changes := by
  obtain ⟨ess, hreported, hjournals⟩ := h'.journaled
  rw [h.book, hsame] at hjournals
  exact ⟨h.trans h'.toLeads, ess, hreported, hjournals⟩

end

/-! ### One item -/

variable {subscription : RosterSubscription}

theorem journals_putRosterItem {item : RosterItem syn} {quota : RosterQuota} {version : Nat}
    (h : w.tables.WellFormed syn) (hrun : (putRosterItem owner item quota).run w = (.ok version, w')) :
    Journals (w.book syn).rosters [⟨owner, version, item.jid, some item⟩] (w'.book syn).rosters := by
  have hversion := (run_putRosterItem_eq.mp hrun).2.2.2.2.1
  rw [(putRosterItem_leads h hrun).book, ← hversion]
  exact .single

theorem run_putItem {item : RosterItem syn}
    (h : w.tables.WellFormed syn) (hrun : (putItem limits owner item subscription).run w = (.ok r, w')) :
    Tells w w' (((w.book syn).setItem owner item.jid
      (some { item with subscription := subscription })).advance owner) [(owner, r)] ∧ r.isSome := by
  simp only [putItem, Tx.run_bind_eq, Tx.run_pure_eq] at hrun
  obtain ⟨_, _, hput, rfl, rfl⟩ := hrun
  exact ⟨⟨putRosterItem_leads h hput, .single (.push _) (journals_putRosterItem h hput)⟩, rfl⟩

theorem version_of_transition {expected : RosterSubscription} {version : Nat}
    (hrun : (transitionRosterSubscription owner jid expected subscription).run w = (.ok (some version), w')) :
    version = (w.book syn).version owner + 1 := by
  simp only [transitionRosterSubscription, Tx.run_bind_eq, Tx.run_read_eq, Except.ok.injEq] at hrun
  obtain ⟨_, _, ⟨rfl, rfl⟩, hrun⟩ := hrun
  obtain ⟨_, ⟨_, hnone, _⟩ | ⟨_, _, _, _, _, ⟨_, hnone, _⟩ | ⟨_, _, hversion, _⟩⟩⟩ :=
    run_copySubscription_eq.mp hrun
  · cases hnone
  · cases hnone
  · exact Option.some.inj hversion.symm

theorem run_rewriteItem {item : RosterItem syn} (h : w.tables.WellFormed syn)
    (hitem : itemAt w.tables owner jid = some item) (hne : item.subscription ≠ subscription)
    (hrun : (rewriteItem limits owner jid item.subscription subscription).run w = (.ok r, w')) :
    Tells w w' (((w.book syn).setItem owner jid
      (some { item with subscription := subscription })).advance owner) [(owner, r)] ∧ r.isSome := by
  simp only [rewriteItem, Tx.run_bind_eq, Tx.run_outcome_eq] at hrun
  obtain ⟨found, _, hfound, hrun⟩ := hrun
  have hread : (query fun t => t.rosterItem owner jid (quota limits owner)).run w =
      (w.tables.rosterItem owner jid (quota limits owner), w) := rfl
  rw [hread] at hfound
  rcases h.rosterItem_cases owner jid (quota limits owner) with hok | ⟨herror, _⟩
  · rw [hok, hitem] at hfound
    cases hfound
    obtain rfl := h.itemAt_jid hitem
    exact run_putItem h hrun
  · rw [herror] at hfound
    cases hfound
    simp only [Tx.run_bind_eq] at hrun
    obtain ⟨version, _, htransition, hrun⟩ := hrun
    have hset : (w.book syn).setSubscription owner jid subscription =
        ((w.book syn).setItem owner jid
          (some { item with subscription := subscription })).advance owner := by
      simp only [Book.setSubscription, Tables.book, hitem, if_neg hne]
    have hleads := transitionRosterSubscription_leads h htransition
    rw [hset] at hleads
    cases version with
    | none => simp at hrun
    | some version =>
      obtain ⟨rfl, rfl⟩ := Tx.run_pure_eq.mp hrun
      refine ⟨⟨hleads, .single (.unavailable version jid { item with subscription := subscription }) ?_⟩, rfl⟩
      rw [hleads.book, version_of_transition htransition]
      exact .single

theorem changeOf_eq_some {current : Option RosterSubscription} :
    changeOf current f = some subscription ↔ f (current.getD {}) = some subscription ∧ current ≠ some subscription := by
  unfold changeOf
  cases hf : f (current.getD {}) with
  | none => simp
  | some found =>
    simp only [Option.ite_none_left_eq_some, Option.some.injEq]
    constructor
    · rintro ⟨hne, heq⟩
      subst heq
      exact ⟨rfl, hne⟩
    · rintro ⟨heq, hne⟩
      subst heq
      exact ⟨hne, rfl⟩

section

variable (h : w.tables.WellFormed syn)
include h

theorem run_writeSubscription
    (hrun : (writeSubscription limits owner jid ((w.book syn).sub owner jid) f).run w = (.ok r, w')) :
    Tells w w' ((w.book syn).update owner jid f) [(owner, r)] ∧
      r.isSome = (changeOf ((w.book syn).sub owner jid) f).isSome := by
  rw [Book.update]
  unfold writeSubscription at hrun
  cases hchange : changeOf ((w.book syn).sub owner jid) f with
  | none =>
    rw [hchange] at hrun
    obtain ⟨rfl, rfl⟩ := Tx.run_pure_eq.mp hrun
    exact ⟨.refl h, rfl⟩
  | some subscription =>
    rw [hchange] at hrun
    simp only at hrun
    cases hitem : itemAt w.tables owner jid with
    | none =>
      have hsub : (w.book syn).sub owner jid = none := by
        simp [Book.sub, Tables.book, hitem]
      have hbare : (w.book syn).item owner jid = none := hitem
      rw [hsub] at hrun
      obtain ⟨hleads, hr⟩ := run_putItem h hrun
      refine ⟨?_, hr⟩
      simp only [Book.change, hbare, Option.getD_none]
      exact hleads
    | some item =>
      have hsub : (w.book syn).sub owner jid = some item.subscription := by
        simp [Book.sub, Tables.book, hitem]
      have hold : (w.book syn).item owner jid = some item := hitem
      have hne : item.subscription ≠ subscription := by
        intro heq
        rw [hsub, heq] at hchange
        exact (changeOf_eq_some.mp hchange).2 rfl
      rw [hsub] at hrun
      obtain ⟨hleads, hr⟩ := run_rewriteItem h hitem hne hrun
      refine ⟨?_, hr⟩
      simp only [Book.change, hold, Option.getD_some]
      exact hleads

theorem run_updateSubscription (hrun : (updateSubscription limits owner jid f).run w = (.ok r, w')) :
    Tells w w' ((w.book syn).update owner jid f) [(owner, r)] ∧
      r.isSome = (changeOf ((w.book syn).sub owner jid) f).isSome := by
  simp only [updateSubscription, Tx.run_bind_eq, run_query_eq, h.rosterSubscription_book, Except.ok.injEq] at hrun
  obtain ⟨_, _, ⟨rfl, rfl⟩, hrun⟩ := hrun
  exact run_writeSubscription h hrun

theorem run_updateExistingSubscription (hrun : (updateExistingSubscription limits owner jid f).run w = (.ok r, w')) :
    Tells w w' ((w.book syn).updateExisting owner jid f) [(owner, r)] := by
  simp only [updateExistingSubscription, Tx.run_bind_eq, run_query_eq, h.rosterSubscription_book,
    Except.ok.injEq] at hrun
  obtain ⟨current, _, ⟨hcurrent, rfl⟩, hrun⟩ := hrun
  rw [Book.updateExisting, hcurrent]
  cases current with
  | none =>
    obtain ⟨rfl, rfl⟩ := Tx.run_pure_eq.mp hrun
    exact .refl h
  | some current =>
    replace hrun : (writeSubscription limits owner jid (some current) f).run w = (.ok r, w') := hrun
    rw [← hcurrent] at hrun
    exact (run_writeSubscription h hrun).1

end

namespace Book

variable (b : Book syn)

theorem setRequest_none {b : Book syn} {owner : AccountKey syn} {sender : RosterJid syn}
    (h : b.asked owner sender = false) : b.setRequest owner sender none = b := by
  ext1
  · rfl
  · rfl
  · funext o j
    simp only [setRequest]
    split
    · rename_i heq
      obtain ⟨rfl, rfl⟩ := heq
      exact (Option.not_isSome_iff_eq_none.mp (Bool.eq_false_iff.mp h)).symm
    · rfl
  · rfl

/-- The request of a sender is answered by an update of the item, if there is a request. -/
def resolve (owner : AccountKey syn) (sender : RosterJid syn)
    (f : RosterSubscription → Option RosterSubscription) : Book syn :=
  if b.asked owner sender then (b.setRequest owner sender none).update owner sender f else b

end Book

theorem run_resolvePending (h : w.tables.WellFormed syn)
    (hrun : (resolvePending limits owner jid f).run w = (.ok r, w')) :
    Tells w w' ((w.book syn).resolve owner jid f) [(owner, r)] ∧
      r.isSome = ((w.book syn).asked owner jid &&
        (changeOf ((w.book syn).sub owner jid) f).isSome) := by
  simp only [resolvePending, Tx.run_bind_eq] at hrun
  obtain ⟨removed, w₁, hremove, hrun⟩ := hrun
  have hremoved : (w.book syn).asked owner jid = removed :=
    (run_removePendingRequest_eq.mp hremove).1
  have hleads := removePendingRequest_leads h hremove
  rw [Book.resolve, hremoved]
  cases removed with
  | true =>
    obtain ⟨hupdate, hr⟩ := run_updateSubscription hleads.wellFormed hrun
    rw [hleads.book] at hupdate hr
    exact ⟨hleads.tells rfl hupdate, hr⟩
  | false =>
    obtain ⟨rfl, rfl⟩ := Tx.run_pure_eq.mp hrun
    rw [Book.setRequest_none hremoved] at hleads
    exact ⟨hleads.unchanged rfl, rfl⟩

/-! ### Both sides -/

namespace Book

variable (b : Book syn)

/-- `requester` asks `contact`: an earlier grant or pre-approval answers at once. -/
def requestSubscription (requester contact : AccountKey syn) (stanza : Bytes) : Book syn :=
  if granted (b.sub contact requester.jid) then
    b.updateExisting requester contact.jid approvePendingOut
  else if (b.sub contact requester.jid).any RosterSubscription.approved then
    (b.updateExisting contact requester.jid grantApproved).update requester contact.jid approveAtOnce
  else
    (b.setRequest contact requester.jid (some stanza)).update requester contact.jid setPendingOut

/-- The other side's item is updated, when there is another side to update. -/
def updateOther (other : Option (AccountKey syn)) (apply : Bool) (jid : RosterJid syn)
    (f : RosterSubscription → Option RosterSubscription) : Book syn :=
  match other with
  | some account => if apply then b.updateExisting account jid f else b
  | none => b

/-- `grantor` cancels the subscription and denies the request of `contact`. -/
def cancelSubscription (grantor : AccountKey syn) (contact : RosterJid syn)
    (subscriber : Option (AccountKey syn)) : Book syn :=
  let route := subscriber.isSome && (b.asked grantor contact || granted (b.sub grantor contact))
  let sameItem := subscriber == some grantor
  ((b.setRequest grantor contact none).updateExisting grantor contact
    (cancelled (sameItem && route))).updateOther subscriber (route && !sameItem) grantor.jid withdrawOutbound

variable (subscriber : AccountKey syn)

def retractRequest (recipient : Option (AccountKey syn)) : Book syn :=
  match recipient with
  | some account => b.setRequest account subscriber.jid none
  | none => b

def priorGrant (recipient : Option (AccountKey syn)) : Bool :=
  recipient.any fun account => granted (b.sub account subscriber.jid)

/-- `subscriber` withdraws the subscription and retracts the request to `contact`. -/
def unsubscribe (contact : RosterJid syn) (recipient : Option (AccountKey syn)) : Book syn :=
  let sameItem := recipient == some subscriber
  let priorGrant := b.priorGrant subscriber recipient
  ((b.retractRequest subscriber recipient).updateExisting subscriber contact
    (withdrawn (sameItem && priorGrant))).updateOther recipient (priorGrant && !sameItem) subscriber.jid
      ungranted

def clearContact (owner : AccountKey syn) (contactAccount : Option (AccountKey syn)) : Book syn :=
  match contactAccount with
  | some account =>
    if account = owner then b
    else (b.setRequest account owner.jid none).updateExisting account owner.jid cleared
  | none => b

/-- `owner` removes a contact, if there is an item for it. -/
def removeContact (owner : AccountKey syn) (contact : RosterJid syn)
    (contactAccount : Option (AccountKey syn)) : Book syn :=
  if (b.item owner contact).isSome then
    ((b.removeItem owner contact).setRequest owner contact none).clearContact owner contactAccount
  else b

end Book

variable {requester contact : AccountKey syn}

def RequestOutcome.changes (requester contact : AccountKey syn) :
    RequestOutcome syn → List (AccountKey syn × ItemMutation syn)
  | .autoApproved change | .pending change => [(requester, change)]
  | .preApproved grantor change => [(contact, grantor), (requester, change)]
  | .contactMissing => []

section

variable (h : w.tables.WellFormed syn)
include h

theorem run_requestSubscription {stanza : Bytes} {outcome : RequestOutcome syn}
    (hrun : (requestSubscription limits requester contact stanza).run w = (.ok outcome, w')) :
    outcome = .contactMissing ∧ w' = w ∨ Tells w w' ((w.book syn).requestSubscription requester contact stanza)
        (outcome.changes requester contact) := by
  simp only [requestSubscription, Tx.run_bind_eq, run_query_eq, h.rosterSubscription_book, Except.ok.injEq] at hrun
  obtain ⟨_, _, ⟨rfl, rfl⟩, hrun⟩ := hrun
  rw [Book.requestSubscription]
  by_cases hgranted : granted ((w.book syn).sub contact requester.jid)
  · right
    rw [if_pos hgranted] at hrun ⊢
    simp only [Tx.run_bind_eq, Tx.run_pure_eq] at hrun
    obtain ⟨_, _, hupdate, rfl, rfl⟩ := hrun
    exact run_updateExistingSubscription h hupdate
  · rw [if_neg hgranted] at hrun ⊢
    by_cases happroved : ((w.book syn).sub contact requester.jid).any RosterSubscription.approved
    · right
      rw [if_pos happroved] at hrun ⊢
      simp only [Tx.run_bind_eq, Tx.run_pure_eq] at hrun
      obtain ⟨_, w₁, hgrant, _, _, hrequest, rfl, rfl⟩ := hrun
      have hgrant := run_updateExistingSubscription h hgrant
      have hrequest := (run_updateSubscription hgrant.wellFormed hrequest).1
      rw [hgrant.book] at hrequest
      exact hgrant.trans hrequest
    · rw [if_neg happroved] at hrun ⊢
      simp only [Tx.run_bind_eq, Tx.run_outcome_eq] at hrun
      obtain ⟨stored, w₁, hstored, hrun⟩ := hrun
      cases stored with
      | ok u =>
        right
        simp only [Tx.run_bind_eq, Tx.run_pure_eq] at hrun
        obtain ⟨_, _, hupdate, rfl, rfl⟩ := hrun
        have hput := putPendingRequest_leads h hstored
        have hupdate := (run_updateSubscription hput.wellFormed hupdate).1
        rw [hput.book] at hupdate
        exact hput.tells rfl hupdate
      | error e =>
        obtain rfl := spared_putPendingRequest hstored
        cases e with
        | noAccount =>
          left
          obtain ⟨rfl, rfl⟩ := Tx.run_pure_eq.mp hrun
          exact ⟨rfl, rfl⟩
        | valueTooLarge => simp at hrun
        | pendingLimitExceeded => simp at hrun
        | quotaExceeded => simp at hrun
        | storage kind => simp at hrun

theorem run_updateOther {other : Option (AccountKey syn)} {apply : Bool}
    (hrun : (updateOther limits other apply jid f).run w = (.ok r, w')) :
    Tells w w' ((w.book syn).updateOther other apply jid f)
        (other.toList.map fun account => (account, r)) ∧ (other = none → r = none) := by
  cases other with
  | none =>
    obtain ⟨rfl, rfl⟩ := Tx.run_pure_eq.mp hrun
    exact ⟨⟨.refl h, .nil rfl⟩, fun _ => rfl⟩
  | some account =>
    refine ⟨?_, fun hnone => by cases hnone⟩
    cases apply with
    | false =>
      obtain ⟨rfl, rfl⟩ := Tx.run_pure_eq.mp hrun
      exact .refl h
    | true => exact run_updateExistingSubscription h hrun

theorem run_cancelSubscription {grantor : AccountKey syn} {subscriber : Option (AccountKey syn)}
    {outcome : Cancellation syn} (hrun : (cancelSubscription limits grantor jid subscriber).run w = (.ok outcome, w')) :
    Tells w w' ((w.book syn).cancelSubscription grantor jid subscriber) ((grantor, outcome.grantor) ::
        subscriber.toList.map fun account => (account, outcome.subscriber)) ∧
      (subscriber = none → outcome.subscriber = none) := by
  simp only [cancelSubscription, Tx.run_bind_eq, run_query_eq, Tx.run_pure_eq] at hrun
  obtain ⟨pending, w₁, hremove, current, _, ⟨hcurrent, rfl⟩, _, w₂, hgrantor, _, w₃, hother, rfl, rfl⟩ := hrun
  have hpending : (w.book syn).asked grantor jid = pending :=
    (run_removePendingRequest_eq.mp hremove).1
  have hremove := removePendingRequest_leads h hremove
  rw [hremove.rosterSubscription, Except.ok.injEq] at hcurrent
  have hgrantor := run_updateExistingSubscription hremove.wellFormed hgrantor
  obtain ⟨hother, hnone⟩ := run_updateOther hgrantor.wellFormed hother
  rw [hgrantor.book, hremove.book, ← hcurrent, ← hpending] at hother
  exact ⟨hremove.tells rfl (hgrantor.trans hother), hnone⟩

theorem run_unsubscribe {subscriber : AccountKey syn} {recipient : Option (AccountKey syn)} {outcome : Withdrawal syn}
    (hrun : (unsubscribe limits subscriber jid recipient).run w = (.ok outcome, w')) :
    Tells w w' ((w.book syn).unsubscribe subscriber jid recipient) ((subscriber, outcome.subscriber) ::
        recipient.toList.map fun account => (account, outcome.contact)) ∧
      (recipient = none → outcome.contact = none) := by
  simp only [unsubscribe, Tx.run_bind_eq, Tx.run_pure_eq] at hrun
  obtain ⟨⟨removed, granted'⟩, w₁, hretract, _, w₂, hsubscriber, _, w₃, hother, rfl, rfl⟩ := hrun
  obtain ⟨hretracted, rfl⟩ : Leads w w₁ ((w.book syn).retractRequest subscriber recipient) ∧
      granted' = (w.book syn).priorGrant subscriber recipient := by
    cases recipient with
    | none =>
      obtain ⟨heq, rfl⟩ := Tx.run_pure_eq.mp hretract
      cases heq
      exact ⟨.refl h, rfl⟩
    | some account =>
      simp only [retractRequest, Tx.run_bind_eq, run_query_eq, Tx.run_pure_eq] at hretract
      obtain ⟨_, _, hremove, current, _, ⟨hcurrent, rfl⟩, heq, rfl⟩ := hretract
      have hremoved := removePendingRequest_leads h hremove
      rw [hremoved.rosterSubscription, Except.ok.injEq] at hcurrent
      cases heq
      exact ⟨hremoved, by rw [← hcurrent]; rfl⟩
  have hsubscriber := run_updateExistingSubscription hretracted.wellFormed hsubscriber
  obtain ⟨hother, hnone⟩ := run_updateOther hsubscriber.wellFormed hother
  rw [hsubscriber.book, hretracted.book] at hother
  refine ⟨hretracted.tells ?_ (hsubscriber.trans hother), hnone⟩
  cases recipient <;> rfl

variable {contactAccount : Option (AccountKey syn)}

theorem run_clearContact {r : Option RosterSubscription × ItemMutation syn}
    (hrun : (clearContact limits owner contactAccount).run w = (.ok r, w')) :
    Tells w w' ((w.book syn).clearContact owner contactAccount)
      (contactAccount.toList.map fun account => (account, r.2)) := by
  cases contactAccount with
  | none =>
    obtain ⟨rfl, rfl⟩ := Tx.run_pure_eq.mp hrun
    exact ⟨.refl h, .nil rfl⟩
  | some account =>
    simp only [clearContact, Tx.run_ite_eq, Tx.run_bind_eq, Tx.run_pure_eq, run_query_eq] at hrun
    rw [Book.clearContact]
    rcases hrun with ⟨heq, rfl, rfl⟩ | ⟨hne, _, _, hremove, _, _, ⟨_, rfl⟩, _, _, hupdate, rfl, rfl⟩
    · rw [if_pos heq]
      exact .refl h
    · rw [if_neg hne]
      have hremove := removePendingRequest_leads h hremove
      have hupdate := run_updateExistingSubscription hremove.wellFormed hupdate
      rw [hremove.book] at hupdate
      exact hremove.tells rfl hupdate

theorem run_removeItem {removal : Option (Removal syn)}
    (hrun : (removeItem limits owner jid contactAccount).run w = (.ok removal, w')) :
    Leads w w' ((w.book syn).removeContact owner jid contactAccount) ∧
      ∀ told, removal = some told → ∃ w₁,
        Journals (w.book syn).rosters [⟨owner, told.version, jid, none⟩] (w₁.book syn).rosters ∧
        Journaled syn w₁ w' (contactAccount.toList.map fun account => (account, told.contact)) := by
  simp only [removeItem, Tx.run_bind_eq] at hrun
  obtain ⟨removed, w₁, hremoved, hrun⟩ := hrun
  have hleads := removeRow_leads h hremoved
  have hsome : (w.book syn).item owner jid = itemAt w.tables owner jid := rfl
  rw [Book.removeContact, hsome]
  rcases run_removeRow_eq.mp hremoved with ⟨hrow, rfl, rfl⟩ | ⟨_, _, hrow, _, _, rfl, _⟩
  · obtain ⟨rfl, rfl⟩ := Tx.run_pure_eq.mp hrun
    rw [h.itemAt_eq_none.mpr hrow]
    exact ⟨.refl h, fun _ htold => by cases htold⟩
  · have hitem : (itemAt w.tables owner jid).isSome := by
      rw [Option.isSome_iff_ne_none, ne_eq, h.itemAt_eq_none, hrow]
      simp
    rw [if_pos hitem]
    simp only [Tx.run_bind_eq, Tx.run_pure_eq] at hrun
    obtain ⟨_, w₂, hrequest, ⟨_, _⟩, _, hclear, rfl, rfl⟩ := hrun
    have hrequest := removePendingRequest_leads hleads.wellFormed hrequest
    have hclear := hrequest.tells rfl (run_clearContact hrequest.wellFormed hclear)
    rw [hrequest.book, hleads.book] at hclear
    refine ⟨hleads.trans hclear.toLeads, fun told htold => ⟨w₁, ?_, ?_⟩⟩
    · cases htold
      obtain ⟨item, hitem⟩ := Option.isSome_iff_exists.mp hitem
      rw [hleads.book, Book.removeItem, hsome, hitem]
      exact .single
    · cases htold
      exact hclear.journaled

end

end Lonewolf.Roster
