import Lonewolf.Roster.Cleanup
import Lonewolf.Roster.Quota
import Lonewolf.Roster.View

/-!
# Account deletion on the book

`forget_account` does not go through the functions that remove an item or cancel a subscription: it reads a snapshot
through cursors, projects what each contact's item becomes and patches its header. On the book each round comes to
the ordinary removal of a contact or denial of a request. A contact's row is touched in one round only, so in that
round it is still as the snapshot has it.
-/

namespace Lonewolf.Roster

open Texts Transactions Cursors

variable {syn : JidSyntax} {hosts : HostLookup} {before : Tables} {X : AccountKey syn} {w w' : Write}

/-! ### What the cursors pass -/

private theorem find?_forall₂ {α β : Type} {R : α → β → Prop} {as : List α} {bs : List β} (h : List.Forall₂ R as bs)
    {p : α → Bool} {q : β → Bool} (hpq : ∀ a b, R a b → p a = q b) : Option.Rel R (as.find? p) (bs.find? q) := by
  induction h with
  | nil => exact .none
  | @cons a b _ _ hab _ ih =>
    rw [List.find?_cons, List.find?_cons, hpq a b hab]
    cases q b with
    | true => exact .some hab
    | false => exact ih

theorem after_itemKey (owner : AccountKey syn) (after : Option (RosterJid syn)) (jid : RosterJid syn) :
    (after.all fun cursor => decide (itemKeyText owner.text cursor < itemKey owner jid)) =
      beyond RosterJid.text after jid := by
  cases after with
  | none => rfl
  | some cursor => exact decide_eq_decide.mpr itemKey_lt

variable {items : List (RosterItem syn)}

theorem scans_items (h : before.WellFormed syn)
    (hitems : List.Forall₂ (HoldsItem X) (ownerEntries before.items X.text) items) :
    Scans (fun after => before.nextRosterSubscription X after) none
      (items.map fun item => (item.jid, item.subscription)) := by
  apply scans_firstAfter RosterJid.text
  · rw [List.pairwise_map]
    exact (h.items_of_rows hitems).1
  · intro after
    have hrel : Option.Rel (HoldsItem X) (Tables.nextRow? before.items X.text after)
        (items.find? fun item => beyond RosterJid.text after item.jid) := by
      apply find?_forall₂ hitems
      intro row item hrow
      rw [hrow.key, after_itemKey]
    rw [Tables.nextRosterSubscription, firstAfter, List.find?_map]
    simp only [Function.comp_def]
    generalize Tables.nextRow? before.items X.text after = row at hrel ⊢
    generalize (items.find? fun item => beyond RosterJid.text after item.jid) = found at hrel ⊢
    cases hrel with
    | none => rfl
    | @some row item hrow =>
      obtain ⟨key, record⟩ := row
      obtain rfl : key = itemKey X item.jid := hrow.key
      simp only [decodeKey_itemKey, decodeSubscription_encodeItem hrow.value]
      rfl

theorem scans_requests {requests : List (PendingSubscription syn)}
    (hrows : ownerEntries before.pending X.text = requests.map (Tables.WellFormed.requestRow X))
    (hsorted : requests.Pairwise fun a b => a.sender.text < b.sender.text) :
    Scans (fun after => nextSender before X after) none (requests.map fun request => (request.sender, ())) := by
  apply scans_firstAfter RosterJid.text
  · rw [List.pairwise_map]
    exact hsorted
  · intro after
    have hrow : Tables.nextRow? before.pending X.text after =
        (requests.find? fun request => beyond RosterJid.text after request.sender).map
          (Tables.WellFormed.requestRow X) := by
      rw [Tables.nextRow?, hrows, List.find?_map]
      congr 2
      funext request
      exact after_itemKey X after request.sender
    rw [nextSender, Tables.nextPendingSender, hrow, firstAfter, List.find?_map]
    simp only [Function.comp_def]
    cases requests.find? fun request => beyond RosterJid.text after request.sender with
    | none => rfl
    | some request =>
      simp only [Option.map_some, Tables.WellFormed.requestRow, decodeKey_itemKey]
      rfl

/-! ### Removals and denials one after another -/

variable {sender : RosterJid syn}

namespace Book

variable {b : Book syn}

def removeEach (b : Book syn) (X : AccountKey syn) (party : RosterJid syn → Option (AccountKey syn))
    (contacts : List (RosterJid syn)) : Book syn :=
  contacts.foldl (fun b contact => b.removeContact X contact (party contact)) b

def denyEach (b : Book syn) (X : AccountKey syn) (party : RosterJid syn → Option (AccountKey syn))
    (senders : List (RosterJid syn)) : Book syn :=
  senders.foldl (fun b sender => b.cancelSubscription X sender (party sender)) b

section

variable (b : Book syn) (X : AccountKey syn) (party : RosterJid syn → Option (AccountKey syn))

theorem removeEach_cons (contact : RosterJid syn) (contacts : List (RosterJid syn)) :
    b.removeEach X party (contact :: contacts) =
      (b.removeContact X contact (party contact)).removeEach X party contacts := rfl

theorem denyEach_cons (sender : RosterJid syn) (senders : List (RosterJid syn)) :
    b.denyEach X party (sender :: senders) =
      (b.cancelSubscription X sender (party sender)).denyEach X party senders := rfl

end

theorem updateExisting_whenChanged (owner : AccountKey syn) (jid : RosterJid syn)
    (g : RosterSubscription → RosterSubscription) :
    b.updateExisting owner jid (fun old => whenChanged old (g old)) =
      match b.sub owner jid with
      | none => b
      | some old => b.setSubscription owner jid (g old) := by
  unfold updateExisting update
  cases hitem : b.item owner jid with
  | none => simp [sub, hitem]
  | some item =>
    have hsub : b.sub owner jid = some item.subscription := by simp [sub, hitem]
    simp only [hsub, Option.isSome_some, if_true, setSubscription, hitem, changeOf, Option.getD_some, whenChanged]
    by_cases hsame : g item.subscription = item.subscription
    · simp [hsame, change]
    · simp [hsame, Ne.symm hsame, change, hitem]

theorem cancelSubscription_request {X : AccountKey syn} {subscriber : Option (AccountKey syn)}
    (hasked : b.asked X sender = true) (hitem : b.item X sender = none) (hne : subscriber ≠ some X) :
    b.cancelSubscription X sender subscriber =
      (b.setRequest X sender none).updateOther subscriber true X.jid withdrawOutbound := by
  have hsame : (subscriber == some X) = false := beq_eq_false_iff_ne.mpr hne
  have hnone : (b.setRequest X sender none).item X sender = none := hitem
  simp only [cancelSubscription, hsame, hasked, Bool.true_or, Bool.and_true, Bool.false_and, Bool.not_false]
  rw [updateExisting_of_none hnone]
  cases subscriber <;> rfl

end Book

/-! ### The rows of one round -/

/-- The rows that a round about a contact touches: the account's own, and the contact's about it. -/
def Touches (X : AccountKey syn) (party : RosterJid syn → Option (AccountKey syn)) (contact : RosterJid syn)
    (o : AccountKey syn) (j : RosterJid syn) : Prop :=
  (o = X ∧ j = contact) ∨ (party contact = some o ∧ j = X.jid)

/-- A party to a round is the account of the contact, and not the account that is deleted. -/
structure PartyOf (X : AccountKey syn) (party : RosterJid syn → Option (AccountKey syn)) : Prop where
  jid : ∀ {contact account}, party contact = some account → account.jid = contact
  ne : ∀ {contact}, party contact ≠ some X

variable {account : AccountKey syn}

section Rounds

variable {party : RosterJid syn → Option (AccountKey syn)} {contact contact' : RosterJid syn} {b : Book syn}

section

variable (X : AccountKey syn) (party : RosterJid syn → Option (AccountKey syn)) (contact : RosterJid syn)
  (b : Book syn)

theorem sameRows_removeRound : SameRows (Touches X party contact) b (b.removeContact X contact (party contact)) :=
  .removeContact (.inl ⟨rfl, rfl⟩) fun _ haccount => .inr ⟨haccount, rfl⟩

theorem sameRows_denyRound : SameRows (Touches X party contact) b (b.cancelSubscription X contact (party contact)) :=
  .cancelSubscription (.inl ⟨rfl, rfl⟩) fun _ haccount => .inr ⟨haccount, rfl⟩

end

theorem PartyOf.not_touches_own (h : PartyOf X party) (hne : contact' ≠ contact) :
    ¬ Touches X party contact X contact' := by
  intro htouches
  rcases htouches with ⟨_, heq⟩ | ⟨hparty, _⟩
  · exact hne heq
  · exact h.ne hparty

theorem PartyOf.not_touches_other (h : PartyOf X party) (hne : contact' ≠ contact)
    (hparty : party contact' = some account) (j : RosterJid syn) : ¬ Touches X party contact account j := by
  intro htouches
  rcases htouches with ⟨heq, _⟩ | ⟨hparty', _⟩
  · rw [heq] at hparty
    exact h.ne hparty
  · rw [← h.jid hparty, ← h.jid hparty'] at hne
    exact hne rfl

end Rounds

/-! ### Rounds -/

theorem counterpartOf_eq_some {contact : RosterJid syn} :
    counterpartOf hosts before X contact = some account ↔
      account.jid = contact ∧ hosts.isLocalHost account.domain = true ∧ account.text ∈ before.accounts ∧
        account ≠ X := by
  simp only [counterpartOf, storedLocalAccount, localCandidate, Option.filter_eq_some_iff,
    AccountKey.ofRosterJid?_eq_some, decide_eq_true_eq]
  tauto

theorem partyOf_counterpartOf (hosts : HostLookup) (before : Tables) (X : AccountKey syn) :
    PartyOf X (counterpartOf hosts before X) where
  jid h := (counterpartOf_eq_some.mp h).1
  ne h := (counterpartOf_eq_some.mp h).2.2.2 rfl

theorem counterpartView_eq (hbefore : before.WellFormed syn) (party : Option (AccountKey syn)) :
    counterpartView before X party = .ok (party.bind fun account => (before.book syn).sub account X.jid) := by
  cases party with
  | none => rfl
  | some account => exact hbefore.rosterSubscription_eq account X.jid

theorem run_patchCounterpart {u : Unit} (g : RosterSubscription → RosterSubscription) (h : w.tables.WellFormed syn)
    (hrun : (patchCounterpart before X account (((w.book syn).sub account X.jid).bind fun old =>
      whenChanged old (g old))).run w = (.ok u, w')) :
    Leads w w' ((w.book syn).updateExisting account X.jid fun old => whenChanged old (g old)) := by
  rw [Book.updateExisting_whenChanged]
  cases hitem : (w.book syn).item account X.jid with
  | none =>
    have hsub : (w.book syn).sub account X.jid = none := by simp [Book.sub, hitem]
    rw [hsub] at hrun ⊢
    obtain ⟨_, rfl⟩ := Tx.run_pure_eq.mp hrun
    exact .refl h
  | some item =>
    have hsub : (w.book syn).sub account X.jid = some item.subscription := by
      simp [Book.sub, hitem]
    rw [hsub] at hrun ⊢
    simp only [Option.bind_some] at hrun ⊢
    by_cases hsame : g item.subscription = item.subscription
    · rw [whenChanged, hsame, if_neg (not_not.mpr rfl)] at hrun
      obtain ⟨_, rfl⟩ := Tx.run_pure_eq.mp hrun
      rw [hsame, Book.setSubscription, hitem]
      simp only [if_true]
      exact .refl h
    · rw [whenChanged, if_pos hsame] at hrun
      simp only [patchCounterpart, Tx.run_bind_eq, run_query_eq, Tx.run_ite_eq, Tx.run_pure_eq] at hrun
      obtain ⟨_, _, ⟨_, rfl⟩, _, _, hset, ⟨_, _, rfl⟩ | ⟨_, hthrow⟩⟩ := hrun
      · exact setRosterSubscription_leads h hset
      · simp at hthrow

variable {contact : RosterJid syn} {u : Unit}

theorem run_forgetItem {subscription : RosterSubscription} (hbefore : before.WellFormed syn)
    (h : w.tables.WellFormed syn) (hown : ((w.book syn).item X contact).isSome)
    (hother : ∀ account, counterpartOf hosts before X contact = some account →
      (w.book syn).item account X.jid = (before.book syn).item account X.jid)
    (hrun : (forgetItem hosts before X contact subscription).run w = (.ok u, w')) :
    Leads w w' ((w.book syn).removeContact X contact (counterpartOf hosts before X contact)) := by
  simp only [forgetItem, Tx.run_bind_eq, run_query_eq, counterpartView_eq hbefore, Except.ok.injEq] at hrun
  obtain ⟨_, _, ⟨rfl, rfl⟩, hrun⟩ := hrun
  simp only [prepareCleanup, cleanupProjection, Option.isSome_some, if_true, Tx.run_bind_eq] at hrun
  obtain ⟨_, w₁, hremove, _, w₂, hrequest, hrun⟩ := hrun
  have hremove := removeRow_leads h hremove
  have hrequest := removePendingRequest_leads hremove.wellFormed hrequest
  rw [hremove.book] at hrequest
  rw [Book.removeContact, if_pos hown]
  refine (hremove.trans hrequest).trans ?_
  cases hparty : counterpartOf hosts before X contact with
  | none =>
    rw [hparty] at hrun
    obtain ⟨_, rfl⟩ := Tx.run_pure_eq.mp hrun
    rw [Book.clearContact, ← hrequest.book]
    exact .refl hrequest.wellFormed
  | some account =>
    have hne : account ≠ X := (counterpartOf_eq_some.mp hparty).2.2.2
    rw [hparty] at hrun
    simp only [cleanupCounterpart, Option.isSome_some, if_true, Tx.run_bind_eq] at hrun
    obtain ⟨_, w₃, hretract, hpatch⟩ := hrun
    have hretract := removePendingRequest_leads hrequest.wellFormed hretract
    rw [hrequest.book] at hretract
    -- The contact's item is still as the snapshot has it.
    have hsub : (w₃.book syn).sub account X.jid = (before.book syn).sub account X.jid := by
      have hrows : SameRows (Touches X (fun _ => none) contact) (w.book syn)
          (((w.book syn).removeItem X contact).setRequest X contact none) :=
        (SameRows.removeItem (.inl ⟨rfl, rfl⟩)).trans (.setRequest (.inl ⟨rfl, rfl⟩) none)
      have hitem := hrows.item account X.jid fun htouches => by
        rcases htouches with ⟨heq, _⟩ | ⟨hnone, _⟩
        · exact hne heq
        · cases hnone
      rw [hretract.book, Book.sub, Book.sub, ← hother account hparty, ← hitem]
      rfl
    have hpatch := run_patchCounterpart
      (fun old => { state := .none, pendingOut := false, approved := old.approved }) hretract.wellFormed
      (by rw [hsub]; exact hpatch)
    rw [hretract.book] at hpatch
    rw [Book.clearContact, if_neg hne]
    exact hretract.trans hpatch

theorem run_forgetRequest (hbefore : before.WellFormed syn) (h : w.tables.WellFormed syn)
    (hnone : (before.book syn).item X contact = none) (hitem : (w.book syn).item X contact = none)
    (hasked : (w.book syn).asked X contact = true)
    (hother : ∀ account, counterpartOf hosts before X contact = some account →
      (w.book syn).item account X.jid = (before.book syn).item account X.jid)
    (hrun : (forgetRequest hosts before X contact).run w = (.ok u, w')) :
    Leads w w' ((w.book syn).cancelSubscription X contact (counterpartOf hosts before X contact)) := by
  have hown : before.rosterSubscription X contact = .ok none := by
    rw [hbefore.rosterSubscription_eq, show itemAt before X contact = none from hnone]
    rfl
  simp only [forgetRequest, Tx.run_bind_eq, run_query_eq, hown, Except.ok.injEq] at hrun
  obtain ⟨_, _, ⟨rfl, rfl⟩, hrun⟩ := hrun
  simp only [Tx.run_bind_eq, run_query_eq, counterpartView_eq hbefore, Except.ok.injEq] at hrun
  obtain ⟨_, _, ⟨rfl, rfl⟩, hrun⟩ := hrun
  simp only [prepareCleanup, cleanupProjection, Option.isSome_none, Bool.false_eq_true, if_false,
    Tx.run_bind_eq] at hrun
  obtain ⟨_, w₁, hrequest, hrun⟩ := hrun
  have hrequest := removePendingRequest_leads h hrequest
  rw [Book.cancelSubscription_request hasked hitem (partyOf_counterpartOf hosts before X).ne]
  refine hrequest.trans ?_
  cases hparty : counterpartOf hosts before X contact with
  | none =>
    rw [hparty] at hrun
    obtain ⟨_, rfl⟩ := Tx.run_pure_eq.mp hrun
    rw [Book.updateOther, ← hrequest.book]
    exact .refl hrequest.wellFormed
  | some account =>
    rw [hparty] at hrun
    simp only [cleanupCounterpart, Option.isSome_none, Bool.false_eq_true, if_false] at hrun
    have hsub : (w₁.book syn).sub account X.jid = (before.book syn).sub account X.jid := by
      rw [hrequest.book, Book.sub, Book.sub, ← hother account hparty]
      rfl
    have hpatch := run_patchCounterpart
      (fun old => { old with state := withoutTo old.state, pendingOut := false }) hrequest.wellFormed
      (by rw [hsub]; exact hrun)
    rw [hrequest.book] at hpatch
    exact hpatch

/-! ### Loops -/

section Loops

variable {party : RosterJid syn → Option (AccountKey syn)} {b b' start : Book syn}
  {contacts : List (RosterJid syn)}

/-- The rows that rounds about some contacts will read are as they were at the start. -/
structure Fresh (X : AccountKey syn) (party : RosterJid syn → Option (AccountKey syn)) (start b : Book syn)
    (contacts : List (RosterJid syn)) : Prop where
  own : ∀ contact ∈ contacts, b.item X contact = start.item X contact
  request : ∀ contact ∈ contacts, b.request X contact = start.request X contact
  other : ∀ contact ∈ contacts, ∀ account, party contact = some account →
    b.item account X.jid = start.item account X.jid
  version : ∀ contact ∈ contacts, ∀ account, party contact = some account →
    b.version account = start.version account

theorem Fresh.trans {b₁ b₂ : Book syn} (h : Fresh X party start b₁ contacts) (h' : Fresh X party b₁ b₂ contacts) :
    Fresh X party start b₂ contacts where
  own contact hmem := (h'.own contact hmem).trans (h.own contact hmem)
  request contact hmem := (h'.request contact hmem).trans (h.request contact hmem)
  other contact hmem account haccount :=
    (h'.other contact hmem account haccount).trans (h.other contact hmem account haccount)
  version contact hmem account haccount :=
    (h'.version contact hmem account haccount).trans (h.version contact hmem account haccount)

theorem Fresh.sameRows (h : Fresh X party start b contacts) (hparty : PartyOf X party)
    {p : AccountKey syn → RosterJid syn → Prop} (hrows : SameRows p b b')
    (hp : ∀ o j, p o j → ∃ contact, contact ∉ contacts ∧ Touches X party contact o j) :
    Fresh X party start b' contacts := by
  have hown : ∀ contact ∈ contacts, ¬ p X contact := by
    intro contact hmem htouched
    obtain ⟨contact', hnot, htouches⟩ := hp _ _ htouched
    exact hparty.not_touches_own (ne_of_mem_of_not_mem hmem hnot) htouches
  have hother : ∀ contact ∈ contacts, ∀ account, party contact = some account → ∀ j, ¬ p account j := by
    intro contact hmem account haccount j htouched
    obtain ⟨contact', hnot, htouches⟩ := hp _ _ htouched
    exact hparty.not_touches_other (ne_of_mem_of_not_mem hmem hnot) haccount _ htouches
  exact h.trans ⟨fun contact hmem => hrows.item X contact (hown contact hmem),
    fun contact hmem => hrows.request X contact (hown contact hmem),
    fun contact hmem account haccount => hrows.item account X.jid (hother contact hmem account haccount X.jid),
    fun contact hmem account haccount => hrows.version account (hother contact hmem account haccount)⟩

theorem Fresh.mono (h : Fresh X party start b contacts) {some' : List (RosterJid syn)}
    (hsub : ∀ contact ∈ some', contact ∈ contacts) : Fresh X party start b some' where
  own contact hmem := h.own contact (hsub contact hmem)
  request contact hmem := h.request contact (hsub contact hmem)
  other contact hmem := h.other contact (hsub contact hmem)
  version contact hmem := h.version contact (hsub contact hmem)

theorem Fresh.tail {contact : RosterJid syn} (h : Fresh X party start b (contact :: contacts))
    (hparty : PartyOf X party) (hnot : contact ∉ contacts) (hrows : SameRows (Touches X party contact) b b') :
    Fresh X party start b' contacts :=
  (h.mono fun _ => List.mem_cons_of_mem contact).sameRows hparty hrows fun _ _ htouches =>
    ⟨contact, hnot, htouches⟩

def TouchesAny (X : AccountKey syn) (party : RosterJid syn → Option (AccountKey syn))
    (contacts : List (RosterJid syn)) (o : AccountKey syn) (j : RosterJid syn) : Prop :=
  ∃ contact ∈ contacts, Touches X party contact o j

theorem sameRows_foldl {f : Book syn → RosterJid syn → Book syn}
    (hf : ∀ b contact, SameRows (Touches X party contact) b (f b contact)) (b : Book syn)
    (contacts : List (RosterJid syn)) : SameRows (TouchesAny X party contacts) b (contacts.foldl f b) := by
  induction contacts generalizing b with
  | nil => exact .refl _ b
  | cons contact contacts ih =>
    refine ((hf b contact).mono ?_).trans ((ih (f b contact)).mono ?_)
    · intro o j htouches
      exact ⟨contact, List.mem_cons_self, htouches⟩
    · rintro o j ⟨contact', hmem, htouches⟩
      exact ⟨contact', List.mem_cons_of_mem contact hmem, htouches⟩

section

variable (X : AccountKey syn) (party : RosterJid syn → Option (AccountKey syn)) (b : Book syn)

theorem sameRows_removeEach (contacts : List (RosterJid syn)) :
    SameRows (TouchesAny X party contacts) b (b.removeEach X party contacts) :=
  sameRows_foldl (fun b contact => sameRows_removeRound X party contact b) b contacts

theorem sameRows_denyEach (senders : List (RosterJid syn)) :
    SameRows (TouchesAny X party senders) b (b.denyEach X party senders) :=
  sameRows_foldl (fun b sender => sameRows_denyRound X party sender b) b senders

end

end Loops

/-- The rounds of a loop over contacts of a class: while the rows that a round reads are those of the snapshot, it
leads to what `round` makes of the book, and that touches the rows of its contact alone. -/
structure Rounds {β : Type} (hosts : HostLookup) (before : Tables) (X : AccountKey syn)
    (body : RosterJid syn → β → WriteTx Unit) (round : Book syn → RosterJid syn → Book syn)
    (p : RosterJid syn → Prop) : Prop where
  rows : ∀ b contact, SameRows (Touches X (counterpartOf hosts before X) contact) b (round b contact)
  leads : ∀ {w w' u contact value}, w.tables.WellFormed syn → p contact →
    Fresh X (counterpartOf hosts before X) (before.book syn) (w.book syn) [contact] →
    (body contact value).run w = (.ok u, w') → Leads w w' (round (w.book syn) contact)

theorem Rounds.run {β : Type} {body : RosterJid syn → β → WriteTx Unit} {p : RosterJid syn → Prop}
    {round : Book syn → RosterJid syn → Book syn} (hrounds : Rounds hosts before X body round p)
    {entries : List (RosterJid syn × β)} (h : w.tables.WellFormed syn) (hnodup : (entries.map Prod.fst).Nodup)
    (hp : ∀ contact ∈ entries.map Prod.fst, p contact)
    (hfresh : Fresh X (counterpartOf hosts before X) (before.book syn) (w.book syn) (entries.map Prod.fst))
    (hrun : (forEach body entries).run w = (.ok u, w')) :
    Leads w w' ((entries.map Prod.fst).foldl round (w.book syn)) := by
  induction entries generalizing w with
  | nil =>
    obtain ⟨_, rfl⟩ := Tx.run_pure_eq.mp hrun
    exact .refl h
  | cons entry entries ih =>
    rw [List.map_cons] at hnodup hp hfresh ⊢
    obtain ⟨hnot, hnodup⟩ := List.nodup_cons.mp hnodup
    simp only [forEach, Tx.run_bind_eq] at hrun
    obtain ⟨_, w₁, hround, hrun⟩ := hrun
    have hround := hrounds.leads h (hp entry.1 List.mem_cons_self) (hfresh.mono (by simp)) hround
    rw [List.foldl_cons, ← hround.book]
    refine hround.trans (ih hround.wellFormed hnodup (fun contact hmem => hp contact (List.mem_cons_of_mem _ hmem))
      ?_ hrun)
    rw [hround.book]
    exact hfresh.tail (partyOf_counterpartOf hosts before X) hnot (hrounds.rows _ _)

def Book.Lists (b : Book syn) (X : AccountKey syn) (contact : RosterJid syn) : Prop := (b.item X contact).isSome

/-- The sender of a request that has no item. -/
def Book.Asks (b : Book syn) (X : AccountKey syn) (sender : RosterJid syn) : Prop :=
  b.asked X sender = true ∧ b.item X sender = none

theorem rounds_forgetItem (hbefore : before.WellFormed syn) :
    Rounds hosts before X (fun contact subscription => forgetItem hosts before X contact subscription)
      (fun b contact => b.removeContact X contact (counterpartOf hosts before X contact))
      ((before.book syn).Lists X) where
  rows b contact := sameRows_removeRound X _ contact b
  leads h hsome hfresh hrun := by
    rw [Book.Lists, ← hfresh.own _ List.mem_cons_self] at hsome
    exact run_forgetItem hbefore h hsome (hfresh.other _ List.mem_cons_self) hrun

theorem rounds_forgetRequest (hbefore : before.WellFormed syn) :
    Rounds hosts before X (fun sender (_ : Unit) => forgetRequest hosts before X sender)
      (fun b sender => b.cancelSubscription X sender (counterpartOf hosts before X sender))
      ((before.book syn).Asks X) where
  rows b sender := sameRows_denyRound X _ sender b
  leads h hasks hfresh hrun := by
    obtain ⟨hasked, hitem⟩ := hasks
    rw [Book.asked, ← hfresh.request _ List.mem_cons_self] at hasked
    exact run_forgetRequest hbefore h hitem ((hfresh.own _ List.mem_cons_self).trans hitem) hasked
      (hfresh.other _ List.mem_cons_self) hrun

/-- The senders that the second loop does not skip. -/
def unlisted (before : Tables) (X : AccountKey syn) (senders : List (RosterJid syn)) : List (RosterJid syn) :=
  senders.filter fun sender => ((before.book syn).item X sender).isNone

theorem forgetRequest_listed {item : RosterItem syn} (hbefore : before.WellFormed syn)
    (hitem : (before.book syn).item X sender = some item) : forgetRequest hosts before X sender = pure () := by
  have hown : before.rosterSubscription X sender = .ok (some item.subscription) := by
    rw [hbefore.rosterSubscription_eq, show itemAt before X sender = some item from hitem]
    rfl
  funext w
  rw [forgetRequest, hown]
  rfl

/-! ### The deletion -/

def contactsOf (t : Tables) (X : AccountKey syn) : List (RosterJid syn) :=
  (ownerEntries t.items X.text).filterMap fun row => (decodeKey X.text row.1).toOption

def sendersOf (t : Tables) (X : AccountKey syn) : List (RosterJid syn) :=
  (ownerEntries t.pending X.text).filterMap fun row => (decodeKey X.text row.1).toOption

theorem contactsOf_eq {t : Tables} (hitems : List.Forall₂ (HoldsItem X) (ownerEntries t.items X.text) items) :
    contactsOf t X = items.map RosterItem.jid := by
  unfold contactsOf
  generalize ownerEntries t.items X.text = rows at hitems ⊢
  induction hitems with
  | nil => rfl
  | @cons row item _ _ hrow _ ih =>
    have hjid : (decodeKey X.text row.1).toOption = some item.jid := by
      rw [hrow.key, decodeKey_itemKey]
      rfl
    rw [List.filterMap_cons, hjid, List.map_cons, ih]

theorem sendersOf_eq {t : Tables} {requests : List (PendingSubscription syn)}
    (hrows : ownerEntries t.pending X.text = requests.map (Tables.WellFormed.requestRow X)) :
    sendersOf t X = requests.map PendingSubscription.sender := by
  rw [sendersOf, hrows, List.filterMap_map, ← List.filterMap_eq_map]
  congr 1
  funext request
  simp only [Function.comp_apply, Tables.WellFormed.requestRow, decodeKey_itemKey]
  rfl

private theorem nodup_of_sorted {jids : List (RosterJid syn)}
    (h : jids.Pairwise fun a b => a.text < b.text) : jids.Nodup :=
  h.imp fun hlt heq => by
    rw [heq] at hlt
    exact lt_irrefl _ hlt

namespace Tables.WellFormed

variable {t : Tables}

section

variable (h : t.WellFormed syn)
include h

theorem nodup_contactsOf (X : AccountKey syn) : (contactsOf t X).Nodup := by
  obtain ⟨items, hitems⟩ := h.exists_items X
  rw [contactsOf_eq hitems]
  exact nodup_of_sorted (List.pairwise_map.mpr (h.items_of_rows hitems).1)

theorem mem_contactsOf (contact : RosterJid syn) : contact ∈ contactsOf t X ↔ ((t.book syn).item X contact).isSome := by
  obtain ⟨items, hitems⟩ := h.exists_items X
  rw [contactsOf_eq hitems, List.mem_map, Option.isSome_iff_exists]
  constructor
  · rintro ⟨item, hmem, hjid⟩
    subst hjid
    exact ⟨item, ((h.items_of_rows hitems).2 item).mp hmem⟩
  · rintro ⟨item, hitem⟩
    have hjid := h.itemAt_jid hitem
    subst hjid
    exact ⟨item, ((h.items_of_rows hitems).2 item).mpr hitem, rfl⟩

theorem sorted_sendersOf (X : AccountKey syn) : (sendersOf t X).Pairwise fun a b => a.text < b.text := by
  obtain ⟨requests, hrows, hsorted, _⟩ := h.exists_requests X
  rw [sendersOf_eq hrows]
  exact List.pairwise_map.mpr hsorted

theorem nodup_sendersOf (X : AccountKey syn) : (sendersOf t X).Nodup :=
  nodup_of_sorted (h.sorted_sendersOf X)

theorem mem_sendersOf (sender : RosterJid syn) : sender ∈ sendersOf t X ↔ (t.book syn).asked X sender = true := by
  obtain ⟨requests, hrows, _, hrequests⟩ := h.exists_requests X
  rw [sendersOf_eq hrows, List.mem_map, Book.asked, Option.isSome_iff_exists]
  constructor
  · rintro ⟨request, hmem, hsender⟩
    subst hsender
    exact ⟨request.stanza, (hrequests request).mp hmem⟩
  · rintro ⟨stanza, hget⟩
    exact ⟨⟨sender, stanza⟩, (hrequests ⟨sender, stanza⟩).mpr hget, rfl⟩

end

end Tables.WellFormed

/-- The loops come to their ends: the first makes a round for each contact, and the second for each sender
that has no item. -/
theorem loops_eq {σ : Type} {body : RosterJid syn → RosterSubscription → Tx σ RosterError Unit}
    {body' : RosterJid syn → Tx σ RosterError Unit} (hbefore : before.WellFormed syn)
    (hitems : List.Forall₂ (HoldsItem X) (ownerEntries before.items X.text) items)
    (hlisted : ∀ sender item, (before.book syn).item X sender = some item → body' sender = pure ())
    (last : Tx σ RosterError Unit) :
    ((do
      let items ← forEachAfter (fun after => before.nextRosterSubscription X after) body
        (itemRounds before X) none
      let requests ← forEachAfter (fun after => nextSender before X after) (fun sender _ => body' sender)
        (requestRounds before X) none
      if items && requests then last else throw (.storage .other)) : Tx σ RosterError Unit) = (do
      forEach body (items.map fun item => (item.jid, item.subscription))
      forEach (fun sender _ => body' sender) ((unlisted before X (sendersOf before X)).map fun sender => (sender, ()))
      last) := by
  obtain ⟨requests, hrows, hsorted, _⟩ := hbefore.exists_requests X
  have hitemRounds : (items.map fun item => (item.jid, item.subscription)).length < itemRounds before X := by
    rw [List.length_map, ← hitems.length_eq, itemRounds]
    exact Nat.lt_succ_self _
  have hrequestRounds : (requests.map fun request => (request.sender, ())).length < requestRounds before X := by
    rw [requestRounds, hrows, List.length_map, List.length_map]
    exact Nat.lt_succ_self _
  rw [forEachAfter_eq (scans_items hbefore hitems) hitemRounds,
    forEachAfter_eq (scans_requests hrows hsorted) hrequestRounds, sendersOf_eq hrows]
  have hskip : forEach (fun sender (_ : Unit) => body' sender)
      (requests.map fun request => (request.sender, ())) = forEach (fun sender _ => body' sender)
          ((unlisted before X (requests.map PendingSubscription.sender)).map fun sender => (sender, ())) := by
    rw [forEach_filter (p := fun sender => ((before.book syn).item X sender).isNone)]
    · rw [unlisted, List.filter_map, List.filter_map, List.map_map]
      rfl
    · intro sender _ hsender
      obtain ⟨item, hitem⟩ := Option.ne_none_iff_exists'.mp
        (Option.isNone_eq_false_iff.mp hsender |> Option.isSome_iff_ne_none.mp)
      exact hlisted sender item hitem
  simp only [Tx.bind_assoc, Tx.pure_bind, Bool.and_self, if_true, hskip]

theorem forgetRows_eq (hbefore : before.WellFormed syn) (hosts : HostLookup) (X : AccountKey syn) :
    ∃ items : List (RosterJid syn × RosterSubscription), items.map Prod.fst = contactsOf before X ∧
      forgetRows hosts before X = (do
        forEach (fun contact subscription => forgetItem hosts before X contact subscription) items
        forEach (fun sender _ => forgetRequest hosts before X sender)
          ((unlisted before X (sendersOf before X)).map fun sender => (sender, ()))
        clearRoster X) := by
  obtain ⟨items, hitems⟩ := hbefore.exists_items X
  refine ⟨items.map fun item => (item.jid, item.subscription), ?_, ?_⟩
  · rw [contactsOf_eq hitems, List.map_map]
    rfl
  · exact loops_eq hbefore hitems (fun _ _ hitem => forgetRequest_listed hbefore hitem) (clearRoster X)

/-! ### What a deletion leaves -/

section Forgotten

variable {party : RosterJid syn → Option (AccountKey syn)} {b : Book syn} {O : AccountKey syn}
  {contacts senders : List (RosterJid syn)}

/-- The book after a deletion that passes some contacts and senders. -/
def Book.forgotten (b : Book syn) (X : AccountKey syn) (party : RosterJid syn → Option (AccountKey syn))
    (contacts senders : List (RosterJid syn)) : Book syn :=
  ((b.removeEach X party contacts).denyEach X party senders).clear X

/-- A contact's subscription to an account that has removed the contact, or only denied its request. -/
def leftOf (listed asked : Bool) (subscription : RosterSubscription) : RosterSubscription :=
  if listed then applied cleared subscription
  else if asked then applied withdrawOutbound subscription
  else subscription

/-- What rounds leave of another account's rows about `X`. -/
@[mk_iff] structure Book.Leaves (b b' : Book syn) (O X : AccountKey syn) (left : RosterSubscription → RosterSubscription)
    (request : Option Bytes) : Prop where
  item : b'.item O X.jid = (b.item O X.jid).map fun item => { item with subscription := left item.subscription }
  request : b'.request O X.jid = request
  version : b'.version O = b.version O + if b'.item O X.jid = b.item O X.jid then 0 else 1

theorem removeRound_other (hO : O ≠ X) {contact : RosterJid syn} (hitem : (b.item X contact).isSome) :
    b.Leaves (b.removeContact X contact (some O)) O X (applied cleared) none := by
  have hown : SameRows (fun o _ => o = X) b ((b.removeItem X contact).setRequest X contact none) :=
    (SameRows.removeItem rfl).trans (.setRequest rfl none)
  have hitem' : (((b.removeItem X contact).setRequest X contact none).setRequest O X.jid none).item O X.jid =
      b.item O X.jid := hown.item O X.jid hO
  rw [Book.removeContact, if_pos hitem, Book.clearContact, if_neg hO]
  refine ⟨?_, ?_, ?_⟩
  · rw [Book.item_updateExisting, hitem']
  · rw [Book.request_updateExisting]
    exact if_pos ⟨rfl, rfl⟩
  · rw [Book.version_updateExisting, hitem']
    exact congrArg (· + _) (hown.version O fun _ => hO)

theorem asked_removeRound (hparty : PartyOf X party) {contact : RosterJid syn} (hitem : (b.item X contact).isSome) :
    (b.removeContact X contact (party contact)).asked X contact = false := by
  have hclear : SameRows (fun o _ => o ≠ X) ((b.removeItem X contact).setRequest X contact none)
      (((b.removeItem X contact).setRequest X contact none).clearContact X (party contact)) :=
    .clearContact fun account haccount heq => hparty.ne (heq ▸ haccount)
  rw [Book.removeContact, if_pos hitem, hclear.asked (not_not.mpr rfl), Book.asked]
  simp only [Book.setRequest, and_self, if_true, Option.isSome_none]

theorem denyRound_other (hO : O ≠ X) (hasked : b.asked X sender = true) (hitem : b.item X sender = none) :
    b.Leaves (b.cancelSubscription X sender (some O)) O X (applied withdrawOutbound) (b.request O X.jid) := by
  rw [Book.cancelSubscription_request hasked hitem fun heq => hO (Option.some.inj heq)]
  refine ⟨Book.item_updateExisting O X.jid, ?_, Book.version_updateExisting O X.jid⟩
  · have hrows : SameRows (fun o j => o = X ∧ j = sender) b (b.setRequest X sender none) :=
      .setRequest ⟨rfl, rfl⟩ none
    have hrequest := hrows.request O X.jid fun hkey => hO hkey.1
    rw [← hrequest]
    show ((b.setRequest X sender none).updateExisting O X.jid withdrawOutbound).request O X.jid = _
    rw [Book.request_updateExisting]

theorem isSome_removeRound (hparty : PartyOf X party) {contact : RosterJid syn} (hnot : contact ∉ contacts)
    (hsome : ∀ contact' ∈ contact :: contacts, (b.item X contact').isSome) :
    ∀ contact' ∈ contacts, ((b.removeContact X contact (party contact)).item X contact').isSome := by
  intro contact' hmem
  rw [(sameRows_removeRound X party contact b).item X contact'
    (hparty.not_touches_own (ne_of_mem_of_not_mem hmem hnot))]
  exact hsome contact' (List.mem_cons_of_mem contact hmem)

theorem removeEach_other (hparty : PartyOf X party) (hO : party O.jid = some O) (hnodup : contacts.Nodup)
    (hsome : ∀ contact ∈ contacts, (b.item X contact).isSome) :
    b.Leaves (b.removeEach X party contacts) O X (leftOf (O.jid ∈ contacts) false)
      (if O.jid ∈ contacts then none else b.request O X.jid) := by
  induction contacts generalizing b with
  | nil => constructor <;> simp [Book.removeEach, leftOf]
  | cons contact contacts ih =>
    obtain ⟨hnot, hnodup⟩ := List.nodup_cons.mp hnodup
    have hrows := sameRows_removeRound X party contact b
    obtain ⟨hitem, hrequest, hversion⟩ := ih hnodup (isSome_removeRound hparty hnot hsome)
    rw [Book.removeEach_cons, Book.leaves_iff, hversion, hitem, hrequest]
    by_cases heq : contact = O.jid
    · subst heq
      have hne : O ≠ X := fun heq => hparty.ne (heq ▸ hO)
      obtain ⟨hround, hretracted, hadvanced⟩ := removeRound_other hne (hsome O.jid List.mem_cons_self)
      rw [hO, hadvanced, hround, hretracted, Option.map_map]
      simp [leftOf, hnot, Function.comp_def]
    · have hkept := hparty.not_touches_other (Ne.symm heq) hO
      rw [hrows.item O X.jid (hkept X.jid), hrows.request O X.jid (hkept X.jid), hrows.version O hkept]
      simp [Ne.symm heq]

theorem denyEach_other (hparty : PartyOf X party) (hO : party O.jid = some O) (hnodup : senders.Nodup)
    (hasked : ∀ sender ∈ senders, b.asked X sender = true ∧ b.item X sender = none) :
    b.Leaves (b.denyEach X party senders) O X (leftOf false (O.jid ∈ senders)) (b.request O X.jid) := by
  induction senders generalizing b with
  | nil => constructor <;> simp [Book.denyEach, leftOf]
  | cons sender senders ih =>
    obtain ⟨hnot, hnodup⟩ := List.nodup_cons.mp hnodup
    have hrows := sameRows_denyRound X party sender b
    have hlater : ∀ sender' ∈ senders,
        (b.cancelSubscription X sender (party sender)).asked X sender' = true ∧
          (b.cancelSubscription X sender (party sender)).item X sender' = none := by
      intro sender' hmem
      have hkept := hparty.not_touches_own (ne_of_mem_of_not_mem hmem hnot)
      rw [hrows.asked hkept, hrows.item X sender' hkept]
      exact hasked sender' (List.mem_cons_of_mem sender hmem)
    obtain ⟨hitem, hrequest, hversion⟩ := ih hnodup hlater
    rw [Book.denyEach_cons, Book.leaves_iff, hversion, hitem, hrequest]
    by_cases heq : sender = O.jid
    · subst heq
      have hne : O ≠ X := fun heq => hparty.ne (heq ▸ hO)
      obtain ⟨hsender, hnone⟩ := hasked O.jid List.mem_cons_self
      obtain ⟨hround, hkept, hadvanced⟩ := denyRound_other hne hsender hnone
      rw [hO, hadvanced, hround, hkept, Option.map_map]
      simp [leftOf, hnot, Function.comp_def]
    · have hkept := hparty.not_touches_other (Ne.symm heq) hO
      rw [hrows.item O X.jid (hkept X.jid), hrows.request O X.jid (hkept X.jid), hrows.version O hkept]
      simp [Ne.symm heq]

/-- The contacts of the account's items, and the senders of the requests that have no item. -/
structure Book.Passed (b : Book syn) (X : AccountKey syn) (contacts senders : List (RosterJid syn)) : Prop where
  contacts_nodup : contacts.Nodup
  mem_contacts : ∀ contact, contact ∈ contacts ↔ (b.item X contact).isSome
  senders_nodup : senders.Nodup
  mem_senders : ∀ sender, sender ∈ senders ↔ b.asked X sender = true ∧ b.item X sender = none

section

variable (h : b.Passed X contacts senders)
include h

theorem Book.Passed.of_eq {b' : Book syn} (hitem : b'.item = b.item) (hrequest : b'.request = b.request) :
    b'.Passed X contacts senders where
  contacts_nodup := h.contacts_nodup
  mem_contacts contact := by rw [hitem, h.mem_contacts]
  senders_nodup := h.senders_nodup
  mem_senders sender := by rw [hitem, Book.asked, hrequest, h.mem_senders, Book.asked]

theorem Book.Passed.nodup : (contacts ++ senders).Nodup := by
  refine h.contacts_nodup.append h.senders_nodup fun contact hcontact hsender => ?_
  rw [h.mem_contacts, ((h.mem_senders contact).mp hsender).2] at hcontact
  cases hcontact

theorem Book.Passed.mem (jid : RosterJid syn) :
    jid ∈ contacts ++ senders ↔ (b.item X jid).isSome ∨ b.asked X jid = true := by
  rw [List.mem_append, h.mem_contacts, h.mem_senders]
  cases b.item X jid <;> simp

end

theorem Fresh.refl (X : AccountKey syn) (party : RosterJid syn → Option (AccountKey syn)) (b : Book syn)
    (contacts : List (RosterJid syn)) : Fresh X party b b contacts :=
  ⟨fun _ _ => rfl, fun _ _ => rfl, fun _ _ _ _ => rfl, fun _ _ _ _ => rfl⟩

theorem Book.Passed.fresh_removeEach (h : b.Passed X contacts senders) (hparty : PartyOf X party) :
    Fresh X party b (b.removeEach X party contacts) senders := by
  apply (Fresh.refl X party b senders).sameRows hparty (sameRows_removeEach X party b contacts)
  rintro o j ⟨contact, hmem, htouches⟩
  refine ⟨contact, ?_, htouches⟩
  intro hsender
  rw [h.mem_contacts, ((h.mem_senders contact).mp hsender).2] at hmem
  cases hmem

theorem removeEach_asked (hparty : PartyOf X party) (hnodup : contacts.Nodup)
    (hsome : ∀ contact ∈ contacts, (b.item X contact).isSome) (sender : RosterJid syn) :
    (b.removeEach X party contacts).asked X sender = true ↔ b.asked X sender = true ∧ sender ∉ contacts := by
  induction contacts generalizing b with
  | nil => simp [Book.removeEach]
  | cons contact contacts ih =>
    obtain ⟨hnot, hnodup⟩ := List.nodup_cons.mp hnodup
    have hrows := sameRows_removeRound X party contact b
    rw [Book.removeEach_cons, ih hnodup (isSome_removeRound hparty hnot hsome)]
    by_cases heq : sender = contact
    · subst heq
      rw [asked_removeRound hparty (hsome sender List.mem_cons_self)]
      simp
    · rw [hrows.asked (hparty.not_touches_own heq), List.mem_cons]
      simp [heq]

theorem forgotten_other (hparty : PartyOf X party) (hO : party O.jid = some O) (h : b.Passed X contacts senders) :
    b.Leaves (b.forgotten X party contacts senders) O X (leftOf (b.item X O.jid).isSome (b.asked X O.jid))
      (if (b.item X O.jid).isSome then none else b.request O X.jid) := by
  have hne : O ≠ X := fun heq => hparty.ne (heq ▸ hO)
  have hlater : ∀ sender ∈ senders, (b.removeEach X party contacts).asked X sender = true ∧
      (b.removeEach X party contacts).item X sender = none := by
    intro sender hmem
    have hfresh := h.fresh_removeEach hparty
    rw [Book.asked, hfresh.request sender hmem, hfresh.own sender hmem]
    exact (h.mem_senders sender).mp hmem
  obtain ⟨hremoved, hretracted, hadvanced⟩ := removeEach_other (b := b) hparty hO h.contacts_nodup
    fun contact hmem => (h.mem_contacts contact).mp hmem
  obtain ⟨hdenied, hkept, hadvanced'⟩ := denyEach_other hparty hO h.senders_nodup hlater
  have hclear : (b.forgotten X party contacts senders).item O X.jid =
      ((b.removeEach X party contacts).denyEach X party senders).item O X.jid := if_neg hne
  have hclear' : (b.forgotten X party contacts senders).request O X.jid =
      ((b.removeEach X party contacts).denyEach X party senders).request O X.jid := if_neg hne
  have hclear'' : (b.forgotten X party contacts senders).version O =
      ((b.removeEach X party contacts).denyEach X party senders).version O := if_neg hne
  rw [Book.leaves_iff, hclear'', hadvanced', hadvanced, hclear, hclear', hdenied, hkept, hremoved, hretracted, Option.map_map]
  simp only [h.mem_contacts, h.mem_senders]
  cases hitem : b.item X O.jid <;> cases b.asked X O.jid <;> simp [leftOf, Function.comp_def]

theorem sameRows_forgotten (hparty : PartyOf X party) (b : Book syn) (contacts senders : List (RosterJid syn)) :
    SameRows (fun o j => o = X ∨ (party o.jid = some o ∧ j = X.jid)) b (b.forgotten X party contacts senders) := by
  have hany : ∀ (jids : List (RosterJid syn)) (o : AccountKey syn) (j : RosterJid syn),
      TouchesAny X party jids o j → o = X ∨ (party o.jid = some o ∧ j = X.jid) := by
    rintro jids o j ⟨contact, _, htouches⟩
    rcases htouches with ⟨heq, _⟩ | ⟨hsome, hj⟩
    · exact .inl heq
    · rw [← hparty.jid hsome] at hsome
      exact .inr ⟨hsome, hj⟩
  have hclear (b : Book syn) : SameRows (fun o j => o = X ∨ (party o.jid = some o ∧ j = X.jid)) b (b.clear X) :=
    ⟨rfl, fun _ _ hp => if_neg fun heq => hp (.inl heq), fun _ _ hp => if_neg fun heq => hp (.inl heq),
      fun _ hp => if_neg fun heq => hp X.jid (.inl heq)⟩
  exact (((sameRows_removeEach X party b contacts).mono (hany contacts)).trans
    ((sameRows_denyEach X party _ senders).mono (hany senders))).trans (hclear _)

end Forgotten

/-! ### The storage part -/

theorem Tables.WellFormed.passed {t : Tables} (h : t.WellFormed syn) (X : AccountKey syn) :
    (t.book syn).Passed X (contactsOf t X) (unlisted t X (sendersOf t X)) where
  contacts_nodup := h.nodup_contactsOf X
  mem_contacts := h.mem_contactsOf
  senders_nodup := (h.nodup_sendersOf X).filter _
  mem_senders sender := by
    rw [unlisted, List.mem_filter, h.mem_sendersOf, Option.isNone_iff_eq_none]

theorem fresh_of_eq {start b : Book syn} {party : RosterJid syn → Option (AccountKey syn)}
    (hitem : b.item = start.item) (hrequest : b.request = start.request) (hversion : b.version = start.version)
    (contacts : List (RosterJid syn)) : Fresh X party start b contacts :=
  ⟨fun _ _ => by rw [hitem], fun _ _ => by rw [hrequest], fun _ _ _ _ => by rw [hitem], fun _ _ _ _ => by rw [hversion]⟩

/-- The storage part of a deletion removes the account's contacts, denies the requests that are left and
clears the account's rows. -/
theorem run_forgetRows (hbefore : before.WellFormed syn) (h : w.tables.WellFormed syn)
    (hitem : (w.book syn).item = (before.book syn).item) (hrequest : (w.book syn).request = (before.book syn).request)
    (hversion : (w.book syn).version = (before.book syn).version)
    (hrun : (forgetRows hosts before X).run w = (.ok u, w')) :
    Leads w w' ((w.book syn).forgotten X (counterpartOf hosts before X) (contactsOf before X)
      (unlisted before X (sendersOf before X))) := by
  obtain ⟨items, hcontacts, heq⟩ := forgetRows_eq hbefore hosts X
  rw [heq] at hrun
  simp only [Tx.run_bind_eq] at hrun
  obtain ⟨_, w₁, hitems, _, w₂, hsenders, hclear⟩ := hrun
  have hparty := partyOf_counterpartOf hosts before X
  have hpassed := hbefore.passed X
  have hkeys : ((unlisted before X (sendersOf before X)).map fun sender => (sender, ())).map Prod.fst =
      unlisted before X (sendersOf before X) := by
    rw [List.map_map]
    exact List.map_id _
  have hitems := (rounds_forgetItem hbefore).run h (hcontacts ▸ hbefore.nodup_contactsOf X)
    (fun contact hmem => (hbefore.mem_contactsOf contact).mp (hcontacts ▸ hmem))
    (fresh_of_eq hitem hrequest hversion _) hitems
  rw [hcontacts] at hitems
  have hfresh' : Fresh X (counterpartOf hosts before X) (before.book syn) (w₁.book syn)
      (unlisted before X (sendersOf before X)) := by
    rw [hitems.book]
    exact (fresh_of_eq hitem hrequest hversion _).trans
      ((hpassed.of_eq hitem hrequest).fresh_removeEach hparty)
  have hsenders := (rounds_forgetRequest hbefore).run hitems.wellFormed (hkeys.symm ▸ hpassed.senders_nodup)
    (fun sender hmem => (hpassed.mem_senders sender).mp (hkeys ▸ hmem)) (hkeys.symm ▸ hfresh') hsenders
  rw [hkeys] at hsenders
  have hclear := clearRoster_leads hsenders.wellFormed hclear
  rw [hsenders.book, hitems.book] at hclear
  exact (hitems.trans hsenders).trans hclear

end Lonewolf.Roster
