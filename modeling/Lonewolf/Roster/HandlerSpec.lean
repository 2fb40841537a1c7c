import Lonewolf.Roster.View

/-!
# Handlers on the book

What the subscription handlers make of the book when they succeed, which accounts they have then found to
exist, which stanzas they send to other servers, and that they push every change or retire the sessions of
its owner.
-/

namespace Lonewolf.Roster

open Texts Transactions

variable {syn : JidSyntax} {limits : Limits} {hosts : HostLookup} {w w' : Write}
  {effects : List (Effect syn)}

/-! ### Stanzas to other servers -/

def toOtherServer : Effect syn → Option (SubscriptionStanza syn)
  | .toRemote stanza => some stanza
  | .routeRemote kind sender target => (AccountKey.ofRosterJid? target).map (⟨kind, sender, ·⟩)
  | _ => none

def outgoing (effects : List (Effect syn)) : List (SubscriptionStanza syn) :=
  effects.filterMap toOtherServer

@[simp] theorem outgoing_nil : outgoing ([] : List (Effect syn)) = [] := rfl

@[simp] theorem outgoing_append (effects effects' : List (Effect syn)) :
    outgoing (effects ++ effects') = outgoing effects ++ outgoing effects' :=
  List.filterMap_append

theorem outgoing_cons (effect : Effect syn) (effects : List (Effect syn)) :
    outgoing (effect :: effects) = (toOtherServer effect).toList ++ outgoing effects := by
  unfold outgoing
  cases h : toOtherServer effect with
  | none => rw [List.filterMap_cons_none h]; rfl
  | some stanza => rw [List.filterMap_cons_some h]; rfl

@[simp] theorem outgoing_deliverIf (c : Bool) (effect : Effect syn) :
    outgoing (deliverIf c effect) = if c then (toOtherServer effect).toList else [] := by
  cases c with
  | false => rfl
  | true =>
    show outgoing [effect] = _
    rw [outgoing_cons, outgoing_nil, List.append_nil, if_pos rfl]

@[simp] theorem outgoing_pushNow (owner : AccountKey syn) (change : ItemMutation syn) :
    outgoing (pushNow owner change) = [] := by
  rcases change with _ | ⟨_ | _⟩ <;> rfl

@[simp] theorem outgoing_pushChange (owner : AccountKey syn) (change : ItemMutation syn) :
    outgoing (pushChange owner change) = [] := by
  rcases change with _ | ⟨_ | _⟩ <;> rfl

@[simp] theorem outgoing_retirements (changes : List (AccountKey syn × ItemMutation syn)) :
    outgoing (retirements changes) = [] := by
  rw [outgoing, List.filterMap_eq_nil_iff]
  intro effect heffect
  obtain ⟨owner, _, rfl⟩ := List.mem_map.mp heffect
  rfl

/-! ### Announced changes -/

/-- A transaction makes the changes that its deliveries announce. -/
def Recorded (w w' : Write) (effects : List (Effect syn)) : Prop :=
  ∃ es, Journals (w.book syn).rosters es (w'.book syn).rosters ∧ Announces effects es

theorem Recorded.unchanged (h : pushes effects = []) : Recorded w w effects := by
  refine ⟨[], .nil _, [], ?_, fun _ hmem => absurd hmem List.not_mem_nil⟩
  rw [h]
  exact .nil

theorem Announces.cons {e : Edit syn} {es : List (Edit syn)} {effects' : List (Effect syn)}
    (h : Announces effects es) (hpushes : pushes effects' = e :: pushes effects)
    (hretired : ∀ owner, .retireInterested owner ∈ effects → .retireInterested owner ∈ effects') :
    Announces effects' (e :: es) := by
  obtain ⟨hidden, hperm, hhidden⟩ := h
  refine ⟨hidden, ?_, fun e' hmem => hretired _ (hhidden e' hmem)⟩
  rw [hpushes]
  exact hperm.cons e

theorem Journaled.recorded {changes changes' : List (AccountKey syn × ItemMutation syn)}
    (h : Journaled syn w w' changes)
    (hpushes : (pushes effects).Perm (changes.flatMap fun change => pushes (pushNow change.1 change.2)))
    (hchanges : changes ⊆ changes') : Recorded w w' (effects ++ retirements changes') := by
  obtain ⟨ess, hreported, hjournals⟩ := h
  refine ⟨_, hjournals, announces_of_mutations hreported ?_ ?_⟩
  · rw [pushes_append, pushes_retirements, List.append_nil]
    exact hpushes
  · intro owner version hmem
    exact List.mem_append_right _ (mem_retirements (hchanges hmem))

theorem Journaled.party {party other : AccountKey syn} {own theirs : ItemMutation syn} {found : Bool}
    (h : Journaled syn w w' ((party, own) ::
      (if found then some other else none).toList.map fun account => (account, theirs)))
    (hnone : (if found then some other else none) = none → theirs = none)
    (hpushes : pushes effects = pushes (pushNow other theirs) ++ pushes (pushNow party own)) :
    Recorded w w' (effects ++ retirements [(other, theirs), (party, own)]) := by
  cases found with
  | true =>
    refine h.recorded ?_ (fun change hmem => by simpa [or_comm] using hmem)
    rw [hpushes]
    simp [List.perm_append_comm]
  | false =>
    obtain rfl := hnone rfl
    refine h.recorded ?_ (fun change hmem => List.mem_cons_of_mem _ hmem)
    rw [hpushes]
    simp [pushNow]

/-! ### Reads -/

@[simp] theorem run_perform_eq {α : Type} {x : WriteTx α} {a : α} :
    (perform x).run w = (.ok a, w') ↔ x.run w = (.ok a, w') :=
  Tx.run_mapError_eq

@[simp] theorem run_peek_eq {α : Type} {f : Tables → Except RosterError α} {a : α} :
    (peek f).run w = (.ok a, w') ↔ f w.tables = .ok a ∧ w = w' := by
  rw [peek, Tx.run_mapError_eq, run_query_eq]

theorem run_peek_book {owner : AccountKey syn} {jid : RosterJid syn} {current : Option RosterSubscription}
    {pending : Bool} {w₁ : Write} (h : w.tables.WellFormed syn)
    (hcurrent : (peek fun t => t.rosterSubscription owner jid).run w = (.ok current, w₁))
    (hpending : (peek fun t => .ok (t.pendingRequestExists owner jid)).run w₁ = (.ok pending, w')) :
    current = (w.book syn).sub owner jid ∧ pending = (w.book syn).asked owner jid ∧ w = w' := by
  obtain ⟨hread, hw⟩ := run_peek_eq.mp hcurrent
  subst hw
  obtain ⟨hread', hw⟩ := run_peek_eq.mp hpending
  rw [h.rosterSubscription_book, Except.ok.injEq] at hread
  rw [pendingRequestExists_book, Except.ok.injEq] at hread'
  exact ⟨hread.symm, hread'.symm, hw⟩

@[simp] theorem run_accountExists_eq {account : AccountKey syn} {r : Bool} :
    (accountExists account).run w = (.ok r, w') ↔ (r = true ↔ (w.book syn).hasAccount account) ∧ w = w' := by
  simp only [accountExists, Tx.run_read_eq, Except.ok.injEq]
  show decide (account.text ∈ w.tables.accounts) = r ∧ _ ↔ (r = true ↔ account.text ∈ w.tables.accounts) ∧ _
  cases r <;> simp

@[simp] theorem run_requireAccount_eq {account : AccountKey syn} :
    (requireAccount account).run w = (.ok (), w') ↔ (w.book syn).hasAccount account ∧ w = w' := by
  simp only [requireAccount, Tx.run_bind_eq, run_accountExists_eq, Tx.run_ite_eq, Tx.run_pure_eq,
    Tx.run_throw_eq, and_false, or_false, true_and]
  constructor
  · rintro ⟨found, _, ⟨hfound, hw⟩, htrue, hw'⟩
    exact ⟨hfound.mp htrue, hw.trans hw'⟩
  · rintro ⟨hhas, hw⟩
    exact ⟨true, w, ⟨⟨fun _ => hhas, fun _ => rfl⟩, rfl⟩, rfl, hw⟩

theorem run_checkParties_eq {sender target : AccountKey syn} {r : Bool} :
    (checkParties sender target).run w = (.ok r, w') ↔
      (w.book syn).hasAccount sender ∧ (r = true ↔ (w.book syn).hasAccount target) ∧ w = w' := by
  simp only [checkParties, Tx.run_bind_eq]
  constructor
  · rintro ⟨_, _, hrequire, hexists⟩
    obtain ⟨hhas, rfl⟩ := run_requireAccount_eq.mp hrequire
    exact ⟨hhas, run_accountExists_eq.mp hexists⟩
  · rintro ⟨hhas, hexists⟩
    exact ⟨(), w, run_requireAccount_eq.mpr ⟨hhas, rfl⟩, run_accountExists_eq.mpr hexists⟩

/-! ### The sender's side -/

namespace Book

variable (b : Book syn) (owner : AccountKey syn) (contact : RosterJid syn)

def routes : SubscriptionKind → Bool
  | .subscribe | .unsubscribe => true
  | .subscribed => b.asked owner contact && !granted (b.sub owner contact)
  | .unsubscribed => b.asked owner contact || granted (b.sub owner contact)

/-- What a stanza to a remote contact makes of the owner's roster. -/
def sendRemote : SubscriptionKind → Book syn
  | .subscribe => b.update owner contact setPendingOut
  | .unsubscribe => b.updateExisting owner contact withdrawOutbound
  | .subscribed =>
    if b.routes owner contact .subscribed then b.resolve owner contact grantApproved
    else b.update owner contact preApprove
  | .unsubscribed => b.cancelSubscription owner contact none

/-- What a stanza makes of the sender's roster when it goes no further. -/
def sendLocal : SubscriptionKind → Book syn
  | .subscribed =>
    if granted (b.sub owner contact) then b else b.update owner contact preApprove
  | .unsubscribed => b.updateExisting owner contact dropApproval
  | .subscribe | .unsubscribe => b

end Book

section Send

variable {owner : AccountKey syn} {target : RosterJid syn} {kind : SubscriptionKind}

variable (h : w.tables.WellFormed syn)
include h

theorem run_remoteUpdate {contact : RosterJid syn} {grant : Bool} {r : ItemMutation syn}
    (hgrant : kind = .subscribed → grant = (w.book syn).routes owner contact .subscribed)
    (hrun : (remoteUpdate limits owner contact grant kind).run w = (.ok r, w')) :
    Tells w w' ((w.book syn).sendRemote owner contact kind) [(owner, r)] := by
  cases kind with
  | subscribe => exact (run_updateSubscription h hrun).1
  | unsubscribe => exact run_updateExistingSubscription h hrun
  | subscribed =>
    rw [Book.sendRemote, ← hgrant rfl]
    rw [remoteUpdate, Tx.run_ite_eq] at hrun
    rcases hrun with ⟨htrue, hrun⟩ | ⟨hfalse, hrun⟩
    · rw [if_pos htrue]
      exact (run_resolvePending h hrun).1
    · rw [if_neg hfalse]
      exact (run_updateSubscription h hrun).1
  | unsubscribed =>
    simp only [remoteUpdate, Tx.run_bind_eq, Tx.run_pure_eq] at hrun
    obtain ⟨_, _, hcancel, rfl, rfl⟩ := hrun
    exact (run_cancelSubscription h hcancel).1

variable {r : PresenceSend syn}

theorem run_sendRemoteSubscription (hrun : (sendRemoteSubscription limits owner target kind).run w = (.ok r, w')) :
    ∃ contact effects, AccountKey.ofRosterJid? target = some contact ∧ r = .handled effects ∧
      (w.book syn).hasAccount owner ∧
      Leads w w' ((w.book syn).sendRemote owner contact.jid kind) ∧
      outgoing effects =
        (if (w.book syn).routes owner contact.jid kind then [⟨kind, owner, contact⟩] else []) ∧
      Recorded w w' effects := by
  unfold sendRemoteSubscription at hrun
  cases hcontact : AccountKey.ofRosterJid? target with
  | none => simp [hcontact] at hrun
  | some contact =>
    simp only [hcontact, Tx.run_bind_eq] at hrun
    obtain ⟨_, _, hrequire, current, _, hcurrent, pending, _, hpending, r', _, hupdate, hrun⟩ := hrun
    obtain ⟨hhas, rfl⟩ := run_requireAccount_eq.mp hrequire
    obtain ⟨rfl, rfl, rfl⟩ := run_peek_book h hcurrent hpending
    rw [Tx.run_pure_eq] at hrun
    obtain ⟨rfl, rfl⟩ := hrun
    have htells := run_remoteUpdate h (fun hkind => by subst hkind; rfl) (run_perform_eq.mp hupdate)
    refine ⟨contact, _, rfl, rfl, hhas, htells.toLeads, ?_,
      htells.journaled.recorded (by simp [editOf]) (List.Subset.refl _)⟩
    · simp only [outgoing_append, outgoing_deliverIf, outgoing_pushNow, outgoing_retirements,
        toOtherServer, Option.toList_none, ite_self, List.append_nil, Option.toList_some]
      cases kind <;> rfl

theorem run_localUpdate {update : WriteTx (ItemMutation syn)} {r : ItemMutation syn}
    (hupdate : localUpdate limits owner target (granted ((w.book syn).sub owner target))
      ((w.book syn).asked owner target) kind = some update)
    (hrun : update.run w = (.ok r, w')) :
    Tells w w' ((w.book syn).sendLocal owner target kind) [(owner, r)] ∧
      (granted ((w.book syn).sub owner target) = true ∨
        (w.book syn).asked owner target = false) := by
  cases kind with
  | subscribe => cases hupdate
  | unsubscribe => cases hupdate
  | subscribed =>
    unfold localUpdate at hupdate
    by_cases hgranted : granted ((w.book syn).sub owner target)
    · rw [if_pos hgranted, Option.some.injEq] at hupdate
      subst hupdate
      obtain ⟨rfl, rfl⟩ := Tx.run_pure_eq.mp hrun
      rw [Book.sendLocal, if_pos hgranted]
      exact ⟨.refl h, .inl hgranted⟩
    · rw [if_neg hgranted] at hupdate
      by_cases hasked : (w.book syn).asked owner target
      · rw [hasked] at hupdate
        cases hupdate
      · rw [Bool.not_eq_true] at hasked
        rw [hasked] at hupdate
        cases hupdate
        rw [Book.sendLocal, if_neg hgranted]
        exact ⟨(run_updateSubscription h hrun).1, .inr hasked⟩
  | unsubscribed =>
    simp only [localUpdate, Option.ite_none_right_eq_some, Bool.and_eq_true, Bool.not_eq_true'] at hupdate
    obtain ⟨⟨_, hasked⟩, heq⟩ := hupdate
    cases heq
    exact ⟨run_updateExistingSubscription h hrun, .inr hasked⟩

/-- `send_subscription`: the stanza is for another server, or is settled on the sender's side, or goes on
with nothing changed. -/
theorem run_sendSubscription {full : Bool}
    (hrun : (sendSubscription limits hosts owner target full kind).run w = (.ok r, w')) :
    (hosts.federates owner.domain = true ∧ hosts.isLocalHost target.domain = false ∧
        (sendRemoteSubscription limits owner target kind).run w = (.ok r, w')) ∨
      (∃ effects, r = .handled effects ∧ (w.book syn).hasAccount owner ∧ outgoing effects = [] ∧
        Leads w w' ((w.book syn).sendLocal owner target kind) ∧
        (granted ((w.book syn).sub owner target) = true ∨
          (w.book syn).asked owner target = false) ∧ Recorded w w' effects) ∨
      ¬(hosts.federates owner.domain && !hosts.isLocalHost target.domain) = true ∧ r = .continue' ∧ w' = w := by
  unfold sendSubscription at hrun
  rw [Tx.run_ite_eq, Tx.run_ite_eq] at hrun
  rcases hrun with ⟨hremote, hrun⟩ | ⟨hstays, ⟨_, hrun⟩ | ⟨_, hrun⟩⟩
  · left
    simp only [Bool.and_eq_true, Bool.not_eq_true'] at hremote
    exact ⟨hremote.1, hremote.2, hrun⟩
  · obtain ⟨rfl, rfl⟩ := Tx.run_pure_eq.mp hrun
    exact .inr (.inr ⟨hstays, rfl, rfl⟩)
  · simp only [Tx.run_bind_eq] at hrun
    obtain ⟨_, _, hrequire, current, _, hcurrent, pending, _, hpending, hrun⟩ := hrun
    obtain ⟨hhas, rfl⟩ := run_requireAccount_eq.mp hrequire
    obtain ⟨rfl, rfl, rfl⟩ := run_peek_book h hcurrent hpending
    cases hupdate : localUpdate limits owner target (granted ((w.book syn).sub owner target))
        ((w.book syn).asked owner target) kind with
    | none =>
      rw [hupdate] at hrun
      obtain ⟨rfl, rfl⟩ := Tx.run_pure_eq.mp hrun
      exact .inr (.inr ⟨hstays, rfl, rfl⟩)
    | some update =>
      rw [hupdate] at hrun
      simp only [Tx.run_bind_eq, Tx.run_pure_eq, run_perform_eq] at hrun
      obtain ⟨_, _, hrun, rfl, rfl⟩ := hrun
      obtain ⟨htells, hcases⟩ := run_localUpdate h hupdate hrun
      refine .inr (.inl ⟨_, rfl, hhas, ?_, htells.toLeads, hcases,
        htells.journaled.recorded (by simp) (List.Subset.refl _)⟩)
      simp

end Send

/-! ### The receiver's side -/

namespace Book

variable (b : Book syn)

/-- `sender` approves `target`: the request is answered, and with no request the approval is kept. -/
def approve (sender target : AccountKey syn) : Book syn :=
  let heard := b.update target sender.jid approvePendingOut
  let resolved := heard.resolve sender target.jid grant
  if heard.asked sender target.jid && (changeOf (heard.sub sender target.jid) grant).isSome then resolved
  else resolved.update sender target.jid preApprove

/-- What a stanza of a local sender makes of both rosters; `found` tells that the target has an account. -/
def receiveLocal (sender target : AccountKey syn) (found : Bool) (stored : Bytes) : SubscriptionKind → Book syn
  | .subscribe => if found then b.requestSubscription sender target stored else b
  | .subscribed => if found then b.approve sender target else b
  | .unsubscribed => b.cancelSubscription sender target.jid (if found then some target else none)
  | .unsubscribe => b.unsubscribe sender target.jid (if found then some target else none)

/-- What a stanza from a remote contact makes of the owner's roster. -/
def receiveRemote (owner : AccountKey syn) (contact : RosterJid syn) (stored : Bytes) :
    SubscriptionKind → Book syn
  | .subscribe =>
    if grants (b.view owner contact).state then b
    else if (b.view owner contact).approved then b.updateExisting owner contact grantApproved
    else if b.asked owner contact then b
    else b.setRequest owner contact (some stored)
  | .subscribed => b.updateExisting owner contact approvePendingOut
  | .unsubscribe =>
    (b.setRequest owner contact none).updateOther (some owner) (grants (b.view owner contact).state)
      contact revoke
  | .unsubscribed => b.updateExisting owner contact withdrawOutbound

/-- The stanza that answers a stanza from a remote contact. -/
def replies (owner : AccountKey syn) (contact : RosterJid syn) : SubscriptionKind → Option SubscriptionKind
  | .subscribe =>
    if grants (b.view owner contact).state || (b.view owner contact).approved then some .subscribed
    else none
  | .unsubscribe =>
    if b.asked owner contact || grants (b.view owner contact).state then some .unsubscribed else none
  | .subscribed | .unsubscribed => none

end Book

namespace SameRows

variable {b : Book syn} {p : AccountKey syn → RosterJid syn → Prop} {owner : AccountKey syn}
  {jid : RosterJid syn}

theorem sendRemote (hp : p owner jid) (kind : SubscriptionKind) : SameRows p b (b.sendRemote owner jid kind) := by
  cases kind with
  | subscribe => exact update hp
  | unsubscribe => exact updateExisting hp
  | subscribed =>
    rw [Book.sendRemote]
    split
    · exact resolve hp
    · exact update hp
  | unsubscribed =>
    rw [Book.sendRemote]
    apply cancelSubscription hp
    intro account haccount
    cases haccount

theorem sendLocal (hp : p owner jid) (kind : SubscriptionKind) : SameRows p b (b.sendLocal owner jid kind) := by
  cases kind with
  | subscribe => exact .refl p b
  | unsubscribe => exact .refl p b
  | subscribed =>
    rw [Book.sendLocal]
    split
    · exact .refl p b
    · exact update hp
  | unsubscribed => exact updateExisting hp

theorem approve {target : AccountKey syn} (hown : p owner target.jid) (hother : p target owner.jid) :
    SameRows p b (b.approve owner target) := by
  simp only [Book.approve]
  split
  · exact (update hother).trans (resolve hown)
  · exact ((update hother).trans (resolve hown)).trans (update hown)

theorem receiveRemote (hp : p owner jid) (stored : Bytes) (kind : SubscriptionKind) :
    SameRows p b (b.receiveRemote owner jid stored kind) := by
  cases kind with
  | subscribe =>
    rw [Book.receiveRemote]
    split
    · exact .refl p b
    · split
      · exact updateExisting hp
      · split
        · exact .refl p b
        · exact setRequest hp _
  | subscribed => exact updateExisting hp
  | unsubscribe =>
    rw [Book.receiveRemote]
    apply (setRequest hp none).trans
    apply updateOther
    intro account haccount
    cases haccount
    exact hp
  | unsubscribed => exact updateExisting hp

end SameRows

section Receive

variable {sender target : AccountKey syn} {stored : Bytes}

theorem outgoing_requestEffects (stanza : SubscriptionStanza syn) (outcome : RequestOutcome syn) :
    outgoing (requestEffects sender target stanza outcome) = [] := by
  cases outcome with
  | contactMissing => rfl
  | pending change => simp [requestEffects, outgoing_cons, toOtherServer]
  | autoApproved change => cases change <;> simp [requestEffects, outgoing_cons, toOtherServer]
  | preApproved grantor requester => simp [requestEffects, outgoing_cons, toOtherServer]

theorem recorded_requestEffects {stanza : SubscriptionStanza syn} {outcome : RequestOutcome syn}
    (h : Journaled syn w w' (outcome.changes sender target)) :
    Recorded w w' (requestEffects sender target stanza outcome) := by
  cases outcome with
  | pending change =>
    have hrecorded : Recorded w w'
        ((.toAvailable stanza :: pushNow sender change) ++ retirements [(sender, change)]) :=
      h.recorded (by simp [RequestOutcome.changes, pushes_cons, editOf]) (List.Subset.refl _)
    exact hrecorded
  | autoApproved change =>
    cases change with
    | none =>
      have hrecorded : Recorded w w' ([] ++ retirements [(sender, none)]) :=
        h.recorded (by simp [RequestOutcome.changes, pushNow]) (List.Subset.refl _)
      exact hrecorded
    | some change =>
      have hrecorded : Recorded w w'
          ((.toInterested (approvalReply stanza) :: (pushNow sender (some change) ++
            [.currentPresence target sender])) ++ retirements [(sender, some change)]) :=
        h.recorded (by simp [RequestOutcome.changes, pushes_cons, editOf]) (List.Subset.refl _)
      exact hrecorded
  | preApproved grantor requester =>
    exact h.recorded (by simp [RequestOutcome.changes, pushes_cons, editOf]) (List.Subset.refl _)
  | contactMissing =>
    have hrecorded : Recorded w w' (([] : List (Effect syn)) ++ retirements []) :=
      h.recorded .nil (List.Subset.refl _)
    exact hrecorded

/-- What a stanza of a local sender has done when it was accepted. -/
def Received (w w' : Write) (sender target : AccountKey syn) (kind : SubscriptionKind) (stored : Bytes)
    (effects : List (Effect syn)) : Prop :=
  (w.book syn).hasAccount sender ∧
    ∃ found : Bool, (found = true ↔ (w.book syn).hasAccount target) ∧
      Leads w w' ((w.book syn).receiveLocal sender target found stored kind) ∧
      outgoing effects = [] ∧ Recorded w w' effects

section

variable (h : w.tables.WellFormed syn)
include h

theorem run_receiveRequest (hrun : (receiveRequest limits sender target stored).run w = (.ok effects, w')) :
    Received w w' sender target .subscribe stored effects := by
  simp only [receiveRequest, Tx.run_bind_eq, run_checkParties_eq] at hrun
  obtain ⟨found, _, ⟨hsender, hfound, rfl⟩, hrun⟩ := hrun
  rw [Tx.run_ite_eq] at hrun
  rcases hrun with ⟨rfl, hrun⟩ | ⟨_, hrun⟩
  · simp only [Tx.run_bind_eq, Tx.run_mapError_eq] at hrun
    obtain ⟨outcome, w₁, hrequest, hrun⟩ := hrun
    have hcases := run_requestSubscription h hrequest
    cases outcome with
    | contactMissing => simp at hrun
    | pending | autoApproved | preApproved =>
      have htells := hcases.resolve_left (by simp)
      obtain ⟨rfl, rfl⟩ := Tx.run_pure_eq.mp hrun
      exact ⟨hsender, true, hfound, htells.toLeads, outgoing_requestEffects _ _,
        recorded_requestEffects htells.journaled⟩
  · simp at hrun

theorem run_approveParties {r : ItemMutation syn × ItemMutation syn × ItemMutation syn}
    (hrun : (approveParties limits sender target).run w = (.ok r, w')) :
    Tells w w' ((w.book syn).approve sender target) [(target, r.1), (sender, r.2.1), (sender, r.2.2)] := by
  simp only [approveParties, Tx.run_bind_eq] at hrun
  obtain ⟨_, w₁, hheard, change, w₂, hresolved, hrun⟩ := hrun
  have hheard := (run_updateSubscription h hheard).1
  obtain ⟨hleads, hchange⟩ := run_resolvePending hheard.wellFormed hresolved
  rw [hheard.book] at hleads hchange
  simp only [Book.approve, ← hchange]
  cases change with
  | some change =>
    obtain ⟨rfl, rfl⟩ := Tx.run_pure_eq.mp hrun
    have hstill : Tells _ _ _ [(sender, none)] := .refl hleads.wellFormed
    rw [hleads.book] at hstill
    exact (hheard.trans hleads).trans hstill
  | none =>
    simp only [Tx.run_bind_eq, Tx.run_pure_eq] at hrun
    obtain ⟨_, w₃, happrove, rfl, rfl⟩ := hrun
    have happrove := (run_updateSubscription hleads.wellFormed happrove).1
    rw [hleads.book] at happrove
    exact (hheard.trans hleads).trans happrove

theorem run_receiveApproval (hrun : (receiveApproval limits sender target).run w = (.ok effects, w')) :
    Received w w' sender target .subscribed stored effects := by
  simp only [receiveApproval, Tx.run_bind_eq, run_checkParties_eq] at hrun
  obtain ⟨found, _, ⟨hsender, hfound, rfl⟩, hrun⟩ := hrun
  rw [Tx.run_ite_eq] at hrun
  refine ⟨hsender, found, hfound, ?_⟩
  rw [Book.receiveLocal]
  rcases hrun with ⟨htrue, hrun⟩ | ⟨hfalse, hrun⟩
  · simp only [Tx.run_bind_eq, run_perform_eq, Tx.run_pure_eq] at hrun
    obtain ⟨_, _, happrove, rfl, rfl⟩ := hrun
    have htells := run_approveParties h happrove
    rw [if_pos htrue]
    refine ⟨htells.toLeads, ?_, htells.journaled.recorded (by simp [editOf]) (List.Subset.refl _)⟩
    simp [toOtherServer]
  · obtain ⟨rfl, rfl⟩ := Tx.run_pure_eq.mp hrun
    rw [if_neg hfalse]
    exact ⟨.refl h, rfl, .unchanged rfl⟩

theorem run_receiveCancellation (hrun : (receiveCancellation limits sender target).run w = (.ok effects, w')) :
    Received w w' sender target .unsubscribed stored effects := by
  simp only [receiveCancellation, Tx.run_bind_eq, run_checkParties_eq, run_perform_eq, Tx.run_pure_eq] at hrun
  obtain ⟨found, _, ⟨hsender, hfound, rfl⟩, _, _, hcancel, rfl, rfl⟩ := hrun
  obtain ⟨htells, hnone⟩ := run_cancelSubscription h hcancel
  refine ⟨hsender, found, hfound, htells.toLeads, ?_, htells.journaled.party hnone (by simp [editOf])⟩
  simp [toOtherServer]

theorem run_receiveWithdrawal (hrun : (receiveWithdrawal limits sender target).run w = (.ok effects, w')) :
    Received w w' sender target .unsubscribe stored effects := by
  simp only [receiveWithdrawal, Tx.run_bind_eq, run_checkParties_eq, run_perform_eq, Tx.run_pure_eq] at hrun
  obtain ⟨found, _, ⟨hsender, hfound, rfl⟩, _, _, hwithdraw, rfl, rfl⟩ := hrun
  obtain ⟨htells, hnone⟩ := run_unsubscribe h hwithdraw
  refine ⟨hsender, found, hfound, htells.toLeads, ?_, htells.journaled.party hnone (by simp [editOf])⟩
  simp [toOtherServer]

theorem run_receiveLocal {target : RosterJid syn} {kind : SubscriptionKind}
    (hlocal : hosts.isLocalHost sender.domain = true)
    (hrun : (receive limits hosts sender.jid target kind stored).run w = (.ok effects, w')) :
    ∃ contact : AccountKey syn, target = contact.jid ∧ Received w w' sender contact kind stored effects := by
  rw [receive, show hosts.isLocalHost sender.jid.domain = true from hlocal] at hrun
  simp only [Bool.not_true, Bool.and_false, Bool.false_eq_true, if_false, AccountKey.ofRosterJid?_jid] at hrun
  cases hcontact : AccountKey.ofRosterJid? target with
  | none => simp [hcontact] at hrun
  | some contact =>
    simp only [hcontact] at hrun
    refine ⟨contact, (AccountKey.ofRosterJid?_eq_some.mp hcontact).symm, ?_⟩
    cases kind with
    | subscribe => exact run_receiveRequest h hrun
    | subscribed => exact run_receiveApproval h hrun
    | unsubscribed => exact run_receiveCancellation h hrun
    | unsubscribe => exact run_receiveWithdrawal h hrun

end

end Receive

/-! ### From another server -/

section Remote

variable {owner contact : AccountKey syn} {stored : Bytes} {kind : SubscriptionKind}

theorem run_remoteOutcome {outcome : RemoteOutcome syn} (h : w.tables.WellFormed syn)
    (hrun : (remoteOutcome limits owner contact.jid stored ((w.book syn).view owner contact.jid)
      kind).run w = (.ok outcome, w')) :
    Tells w w' ((w.book syn).receiveRemote owner contact.jid stored kind) [(owner, outcome.mutation)] ∧
      outgoing (remoteEffects ⟨kind, contact, owner⟩ outcome) =
        (((w.book syn).replies owner contact.jid kind).map (⟨·, owner, contact⟩)).toList := by
  cases kind with
  | subscribe =>
    simp only [remoteOutcome, Book.receiveRemote, Book.replies] at hrun ⊢
    by_cases hgrants : grants ((w.book syn).view owner contact.jid).state
    · rw [if_pos hgrants] at hrun ⊢
      obtain ⟨rfl, rfl⟩ := Tx.run_pure_eq.mp hrun
      refine ⟨.refl h, ?_⟩
      simp [remoteEffects, hgrants, toOtherServer, approvalReply]
    · rw [if_neg hgrants] at hrun ⊢
      rw [Bool.not_eq_true] at hgrants
      by_cases happroved : ((w.book syn).view owner contact.jid).approved
      · rw [if_pos happroved] at hrun ⊢
        simp only [Tx.run_bind_eq, Tx.run_pure_eq] at hrun
        obtain ⟨_, _, hupdate, rfl, rfl⟩ := hrun
        refine ⟨run_updateExistingSubscription h hupdate, ?_⟩
        simp [remoteEffects, happroved, toOtherServer, approvalReply]
      · rw [if_neg happroved] at hrun ⊢
        rw [Bool.not_eq_true] at happroved
        simp only [Tx.run_bind_eq, run_query_eq, Except.ok.injEq, pendingRequestExists_book] at hrun
        obtain ⟨_, _, ⟨rfl, rfl⟩, hrun⟩ := hrun
        by_cases hasked : (w.book syn).asked owner contact.jid
        · rw [if_pos hasked] at hrun ⊢
          obtain ⟨rfl, rfl⟩ := Tx.run_pure_eq.mp hrun
          refine ⟨.refl h, ?_⟩
          simp [remoteEffects, hgrants, happroved]
        · rw [if_neg hasked] at hrun ⊢
          simp only [Tx.run_bind_eq, Tx.run_pure_eq] at hrun
          obtain ⟨_, _, hput, rfl, rfl⟩ := hrun
          refine ⟨(putPendingRequest_leads h hput).unchanged rfl, ?_⟩
          simp [remoteEffects, hgrants, happroved, toOtherServer]
  | subscribed | unsubscribed =>
    simp only [remoteOutcome, Tx.run_bind_eq, Tx.run_pure_eq] at hrun
    obtain ⟨_, _, hupdate, rfl, rfl⟩ := hrun
    refine ⟨run_updateExistingSubscription h hupdate, ?_⟩
    simp [remoteEffects, Book.replies, toOtherServer]
  | unsubscribe =>
    simp only [remoteOutcome, Tx.run_bind_eq, Tx.run_pure_eq] at hrun
    obtain ⟨removed, _, hremove, _, _, hupdate, rfl, rfl⟩ := hrun
    have hremoved : (w.book syn).asked owner contact.jid = removed :=
      (run_removePendingRequest_eq.mp hremove).1
    have hremove := removePendingRequest_leads h hremove
    have hupdate := (run_updateOther hremove.wellFormed hupdate).1
    rw [hremove.book] at hupdate
    refine ⟨hremove.tells rfl hupdate, ?_⟩
    simp only [remoteEffects, Book.replies, hremoved, outgoing_append, outgoing_deliverIf,
      outgoing_pushChange, toOtherServer]
    cases removed || grants ((w.book syn).view owner contact.jid).state <;> simp

theorem recorded_remoteEffects {outcome : RemoteOutcome syn} (h : Journaled syn w w' [(owner, outcome.mutation)]) :
    Recorded w w' (remoteEffects ⟨kind, contact, owner⟩ outcome) := by
  obtain ⟨ess, hreported, hjournals⟩ := h
  have hpush : pushes (remoteEffects ⟨kind, contact, owner⟩ outcome) = pushes (pushNow owner outcome.mutation) := by
    have hnone : editOf (if kind = .subscribe then Effect.toAvailable ⟨kind, contact, owner⟩
        else .toInterested ⟨kind, contact, owner⟩) = none := by
      split <;> rfl
    have hchange : pushes (pushChange owner outcome.mutation) = pushes (pushNow owner outcome.mutation) := by
      rcases outcome.mutation with _ | ⟨_ | _⟩ <;> rfl
    simp only [remoteEffects, pushes_append, pushes_deliverIf, hnone, hchange]
    simp [editOf]
  refine ⟨_, hjournals, announces_of_mutations hreported ?_ ?_⟩
  · rw [hpush, List.flatMap_cons, List.flatMap_nil, List.append_nil]
  · intro owner' version hmem
    obtain ⟨rfl, hmutation⟩ := Prod.mk.inj (List.mem_singleton.mp hmem)
    simp [remoteEffects, ← hmutation, pushChange]

/-- What a stanza of a remote contact has done when it was accepted: nothing, without two accounts. -/
def TakenIn (w w' : Write) (sender target : RosterJid syn) (kind : SubscriptionKind) (stored : Bytes)
    (effects : List (Effect syn)) : Prop :=
  (effects = [] ∧ w' = w ∧ (AccountKey.ofRosterJid? sender = none ∨
      ∃ owner : AccountKey syn, target = owner.jid ∧ ¬ (w.book syn).hasAccount owner)) ∨
    ∃ contact owner : AccountKey syn, sender = contact.jid ∧ target = owner.jid ∧
    (w.book syn).hasAccount owner ∧
    Leads w w' ((w.book syn).receiveRemote owner contact.jid stored kind) ∧
    outgoing effects =
      (((w.book syn).replies owner contact.jid kind).map (⟨·, owner, contact⟩)).toList ∧
    Recorded w w' effects

theorem run_receiveRemote {sender target : RosterJid syn} (h : w.tables.WellFormed syn)
    (hrun : (receiveRemote limits sender target kind stored).run w = (.ok effects, w')) :
    TakenIn w w' sender target kind stored effects := by
  unfold receiveRemote at hrun
  cases hsender : AccountKey.ofRosterJid? sender with
  | none =>
    simp only [hsender] at hrun
    obtain ⟨rfl, rfl⟩ := Tx.run_pure_eq.mp hrun
    exact .inl ⟨rfl, rfl, .inl hsender⟩
  | some contact =>
    cases htarget : AccountKey.ofRosterJid? target with
    | none => simp [hsender, htarget] at hrun
    | some owner =>
      simp only [hsender, htarget, Tx.run_bind_eq, run_accountExists_eq] at hrun
      obtain ⟨found, _, ⟨hfound, rfl⟩, hrun⟩ := hrun
      rw [Tx.run_ite_eq] at hrun
      rcases hrun with ⟨htrue, hrun⟩ | ⟨hfalse, hrun⟩
      · right
        simp only [Tx.run_bind_eq, run_peek_eq, run_perform_eq, Tx.run_pure_eq,
          h.rosterSubscription_book, Except.ok.injEq] at hrun
        obtain ⟨_, _, ⟨rfl, rfl⟩, outcome, _, hremote, rfl, rfl⟩ := hrun
        obtain ⟨htells, hout⟩ := run_remoteOutcome h hremote
        exact ⟨contact, owner, (AccountKey.ofRosterJid?_eq_some.mp hsender).symm,
          (AccountKey.ofRosterJid?_eq_some.mp htarget).symm, hfound.mp htrue, htells.toLeads, hout,
          recorded_remoteEffects htells.journaled⟩
      · obtain ⟨rfl, rfl⟩ := Tx.run_pure_eq.mp hrun
        refine .inl ⟨rfl, rfl, .inr ⟨owner, (AccountKey.ofRosterJid?_eq_some.mp htarget).symm, ?_⟩⟩
        exact fun hhas => hfalse (hfound.mpr hhas)

end Remote

/-! ### Roster requests -/

section Requests

variable {owner : AccountKey syn} {jid : RosterJid syn}

theorem run_setItem {name : Option Text} {groups : List Text} (h : w.tables.WellFormed syn)
    (hrun : (setItem limits owner jid name groups).run w = (.ok effects, w')) :
    (w.book syn).hasAccount owner ∧ ∃ item : RosterItem syn,
      item.subscription = (w.book syn).view owner jid ∧
      Leads w w' (((w.book syn).setItem owner jid (some item)).advance owner) ∧
      outgoing effects = [] ∧ Recorded w w' effects := by
  simp only [setItem, Tx.run_ite_eq, Tx.run_bind_eq, Tx.run_pure_eq, Tx.run_throw_eq,
    Tx.run_mapError_eq, run_perform_eq, run_query_eq, and_false, false_or] at hrun
  obtain ⟨_, _, hrequire, _, _, ⟨hcurrent, rfl⟩, _, version, _, hput, rfl, rfl⟩ := hrun
  obtain ⟨hhas, rfl⟩ := run_requireAccount_eq.mp hrequire
  rw [h.rosterSubscription_book, Except.ok.injEq] at hcurrent
  subst hcurrent
  refine ⟨hhas, _, rfl, putRosterItem_leads h hput, rfl, _, journals_putRosterItem h hput, [], .refl _, ?_⟩
  exact fun _ hmem => absurd hmem List.not_mem_nil

variable {contactAccount : Option (AccountKey syn)} {removal : Removal syn}

theorem removal_eq (h : w.tables.WellFormed syn)
    (hrun : (removeItem limits owner jid contactAccount).run w = (.ok (some removal), w')) :
    ((w.book syn).item owner jid).isSome ∧
      removal.subscription = (w.book syn).view owner jid ∧
      removal.pendingRequest = (w.book syn).asked owner jid := by
  simp only [removeItem, Tx.run_bind_eq] at hrun
  obtain ⟨removed, w₁, hremoved, hrun⟩ := hrun
  rcases run_removeRow_eq.mp hremoved with ⟨_, rfl, rfl⟩ | ⟨record, value, hrow, hvalue, _, rfl, rfl⟩
  · obtain ⟨heq, _⟩ := Tx.run_pure_eq.mp hrun
    cases heq
  · simp only [Tx.run_bind_eq, Tx.run_pure_eq] at hrun
    obtain ⟨_, _, hrequest, _, _, _, heq, _⟩ := hrun
    cases heq
    obtain ⟨item, _, hholds⟩ := h.encoded owner jid record hrow
    obtain rfl := hholds.jid_eq
    have hitem : (w.book syn).item owner item.jid = some item := hholds.itemAt hrow
    rw [decodeSubscription_encodeItem hholds.value] at hvalue
    cases hvalue
    refine ⟨by rw [hitem]; rfl, by rw [Book.view, Book.sub, hitem]; rfl, ?_⟩
    exact (run_removePendingRequest_eq.mp hrequest).1.symm

theorem pushes_removalEffects :
    pushes (removalEffects hosts owner jid contactAccount removal) = ⟨owner, removal.version, jid, none⟩ ::
      pushes (contactAccount.toList.flatMap fun account =>
        pushNow account removal.contact ++ retirements [(account, removal.contact)]) := by
  unfold removalEffects
  cases federatedContact hosts owner jid <;> cases contactAccount <;>
    simp [notifyRemovedContact, notifyRemovedRemoteContact, pushes_cons, editOf]

theorem run_removeContact (h : w.tables.WellFormed syn)
    (hrun : (removeContact limits hosts owner jid).run w = (.ok effects, w')) :
    (w.book syn).hasAccount owner ∧ ∃ removal : Removal syn,
      effects = removalEffects hosts owner jid (storedLocalAccount hosts w.tables jid) removal ∧
      ((w.book syn).item owner jid).isSome ∧
      removal.subscription = (w.book syn).view owner jid ∧
      removal.pendingRequest = (w.book syn).asked owner jid ∧
      Leads w w' ((w.book syn).removeContact owner jid (storedLocalAccount hosts w.tables jid)) ∧
      Recorded w w' effects := by
  simp only [removeContact, Tx.run_bind_eq, Tx.run_read_eq, run_perform_eq, Except.ok.injEq] at hrun
  obtain ⟨_, _, hrequire, contactAccount, _, ⟨hcontact, rfl⟩, removal, w₂, hremove, hrun⟩ := hrun
  obtain ⟨hhas, rfl⟩ := run_requireAccount_eq.mp hrequire
  rw [hcontact]
  cases removal with
  | none => simp at hrun
  | some removal =>
    obtain ⟨rfl, rfl⟩ := Tx.run_pure_eq.mp hrun
    obtain ⟨hleads, htold⟩ := run_removeItem h hremove
    obtain ⟨w₁, hown, hjournaled⟩ := htold removal rfl
    obtain ⟨hsome, hview, hasked⟩ := removal_eq h hremove
    refine ⟨hhas, removal, rfl, hsome, hview, hasked, hleads, ?_⟩
    have hcontact : Recorded w₁ w₂ (contactAccount.toList.flatMap fun account =>
        pushNow account removal.contact ++ retirements [(account, removal.contact)]) := by
      cases contactAccount with
      | none =>
        have hrecorded : Recorded w₁ w₂ (([] : List (Effect syn)) ++ retirements []) :=
          hjournaled.recorded .nil (List.Subset.refl _)
        exact hrecorded
      | some account =>
        rw [Option.toList_some, List.flatMap_cons, List.flatMap_nil, List.append_nil]
        exact hjournaled.recorded (by simp) (List.Subset.refl _)
    obtain ⟨es, hjournals, hannounced⟩ := hcontact
    refine ⟨_, hown.trans hjournals, hannounced.cons pushes_removalEffects ?_⟩
    intro owner' hmem
    cases contactAccount with
    | none => cases hmem
    | some account =>
      rw [Option.toList_some, List.flatMap_cons, List.flatMap_nil, List.append_nil, List.mem_append] at hmem
      rcases hmem with hmem | hmem
      · rcases hcontact : removal.contact with _ | ⟨_ | _⟩ <;> simp [hcontact, pushNow] at hmem
      · exact List.mem_append_right _ (List.mem_append_right _ hmem)

end Requests

end Lonewolf.Roster
