import Lonewolf.Roster.Consistency
import Lonewolf.Roster.Link

/-!
# Operations keep the rosters consistent

Each operation of the handlers, on the book. An operation on two accounts is computed on the data of the
pair and checked there for all values; when an account subscribes to itself both sides are one item, so
that case is computed apart.
-/

namespace Lonewolf.Roster

open Texts
open Book

variable {syn : JidSyntax} {b : Book syn} {site : Site} {A B : AccountKey syn} {jid : RosterJid syn}

/-! ### Two accounts -/

section Pairs

/-- The data of two accounts after a request. -/
def PairData.requested : PairData → PairData
  | ⟨own, other, ownAsked, otherAsked⟩ =>
    if grants other.state then ⟨applied approvePendingOut own, other, ownAsked, otherAsked⟩
    else if other.approved then ⟨applied approveAtOnce own, applied grantApproved other, ownAsked, otherAsked⟩
    else ⟨applied setPendingOut own, other, ownAsked, true⟩

/-- The data of an account that asks itself. -/
def requestedSelf (own : RosterSubscription) (asked : Bool) : PairData :=
  let after := if grants own.state then applied approvePendingOut own
    else if own.approved then applied approveAtOnce (applied grantApproved own)
    else applied setPendingOut own
  let asked := asked || !grants own.state && !own.approved
  ⟨after, after, asked, asked⟩

/-- A change of the data of two accounts keeps them in order. -/
abbrev Keeps (change : RosterSubscription → RosterSubscription → Bool → Bool → PairData) : Prop :=
  ∀ own other ownAsked otherAsked, PairData.Ok ⟨own, other, ownAsked, otherAsked⟩ →
    (change own other ownAsked otherAsked).Ok

/-- The same of an account and itself. -/
abbrev KeepsSelf (change : RosterSubscription → Bool → PairData) : Prop :=
  ∀ own asked, PairData.Ok ⟨own, own, asked, asked⟩ → (change own asked).Ok

private theorem request_pair : Keeps fun own other ownAsked otherAsked =>
    .requested ⟨own, other, ownAsked, otherAsked⟩ := by
  decide +kernel

private theorem request_self : KeepsSelf requestedSelf := by
  decide

theorem pair_requestSubscription (hAB : A ≠ B) (stanza : Bytes) :
    (b.requestSubscription A B stanza).pair A B = (b.pair A B).requested := by
  rw [Book.requestSubscription, granted_sub, approved_sub]
  by_cases hgrants : grants (b.view B A.jid).state
  · simp [hgrants, pair, PairData.requested, view_updateExisting (.inl idle_approvePendingOut), hAB.symm]
  · by_cases happroved : (b.view B A.jid).approved
    · simp [hgrants, happroved, pair, PairData.requested, view_update,
        view_updateExisting (.inr (sub_isSome_of_approved happroved)), hAB, hAB.symm]
    · simp [hgrants, happroved, pair, PairData.requested, view_update, asked_setRequest, hAB, hAB.symm]

theorem pair_requestSubscription_self (A : AccountKey syn) (stanza : Bytes) :
    (b.requestSubscription A A stanza).pair A A = requestedSelf (b.view A A.jid) (b.asked A A.jid) := by
  rw [Book.requestSubscription, granted_sub, approved_sub]
  by_cases hgrants : grants (b.view A A.jid).state
  · simp [hgrants, pair, requestedSelf, view_updateExisting (.inl idle_approvePendingOut)]
  · by_cases happroved : (b.view A A.jid).approved
    · simp [hgrants, happroved, pair, requestedSelf, view_update,
        view_updateExisting (.inr (sub_isSome_of_approved happroved))]
    · simp [hgrants, happroved, pair, requestedSelf, view_update, asked_setRequest]

/-- The approver's item, by whether there was a request. -/
def approvedItem (own : RosterSubscription) (asked : Bool) : RosterSubscription :=
  let resolved := if asked then applied grant own else own
  if asked && (grant own).isSome then resolved else applied preApprove resolved

private theorem approve_pair : Keeps fun own other ownAsked otherAsked =>
    ⟨approvedItem own ownAsked, applied approvePendingOut other, false, otherAsked⟩ := by
  decide +kernel

private theorem approve_self : KeepsSelf fun own asked =>
    ⟨approvedItem (applied approvePendingOut own) asked, approvedItem (applied approvePendingOut own) asked, false,
      false⟩ := by
  decide

theorem changeOf_grant_isSome (current : Option RosterSubscription) :
    (changeOf current grant).isSome = (grant (current.getD {})).isSome := by
  cases current with
  | none => rfl
  | some old =>
    rcases old with ⟨_ | _ | _ | _, pendingOut, approved⟩ <;> simp [changeOf, grant]

theorem view_approve_own (b : Book syn) (A B : AccountKey syn) :
    (b.approve A B).view A B.jid =
      approvedItem ((b.update B A.jid approvePendingOut).view A B.jid) (b.asked A B.jid) := by
  simp only [Book.approve, changeOf_grant_isSome, asked_update]
  rw [show ((b.update B A.jid approvePendingOut).sub A B.jid).getD {} =
    (b.update B A.jid approvePendingOut).view A B.jid from rfl]
  unfold approvedItem
  split <;> simp [view_update, view_resolve]

theorem view_approve_other (hAB : A ≠ B) :
    (b.approve A B).view B A.jid = applied approvePendingOut (b.view B A.jid) := by
  simp only [Book.approve]
  split <;> simp [view_update, view_resolve, hAB.symm]

theorem asked_approve (o : AccountKey syn) (j : RosterJid syn) :
    (b.approve A B).asked o j = if o = A ∧ j = B.jid then false else b.asked o j := by
  simp only [Book.approve]
  split <;> simp [asked_resolve]

private theorem cancel_pair : Keeps fun own other ownAsked otherAsked =>
    ⟨applied (cancelled false) own, if ownAsked || grants own.state then applied withdrawOutbound other else other,
      false, otherAsked⟩ := by
  decide +kernel

private theorem cancel_self : KeepsSelf fun own asked =>
    ⟨applied (cancelled (asked || grants own.state)) own, applied (cancelled (asked || grants own.state)) own, false,
      false⟩ := by
  decide

private theorem withdraw_pair : Keeps fun own other ownAsked _ =>
    ⟨applied (withdrawn false) own, if grants other.state then applied ungranted other else other, ownAsked, false⟩ := by
  decide +kernel

private theorem withdraw_self : KeepsSelf fun own _ =>
    ⟨applied (withdrawn (grants own.state)) own, applied (withdrawn (grants own.state)) own, false, false⟩ := by
  decide

private theorem remove_pair : Keeps fun _ other _ _ => ⟨{}, applied cleared other, false, false⟩ := by
  decide +kernel

section

variable (h : Consistent site b) (hA : site.Serves b A) (hB : site.Serves b B)
include h hA hB

theorem Consistent.requestSubscription (stanza : Bytes) : Consistent site (b.requestSubscription A B stanza) := by
  apply h.of_pair (.requestSubscription (aboutPair_left A B) (aboutPair_right A B)) hA (.inl hB)
  have hok := h.pair_ok hA.isLocal hB.isLocal
  by_cases hAB : A = B
  · subst hAB
    rw [pair_requestSubscription_self]
    exact request_self _ _ hok
  · rw [pair_requestSubscription hAB]
    exact request_pair _ _ _ _ hok

theorem Consistent.approve : Consistent site (b.approve A B) := by
  apply h.of_pair (.approve (aboutPair_left A B) (aboutPair_right A B)) hA (.inl hB)
  have hok := h.pair_ok hA.isLocal hB.isLocal
  by_cases hAB : A = B
  · subst hAB
    have hpair := approve_self _ _ hok
    simp only [pair, view_approve_own, asked_approve, view_update, and_self, if_true]
    exact hpair
  · have hpair := approve_pair _ _ _ _ hok
    simp only [pair, view_approve_own, view_approve_other hAB, asked_approve, view_update, hAB,
      Ne.symm hAB, false_and, and_self, if_true, if_false]
    exact hpair

theorem Consistent.cancelSubscription : Consistent site (b.cancelSubscription A B.jid (some B)) := by
  apply h.of_pair (.cancelSubscription (aboutPair_left A B) (aboutPair_account A B)) hA (.inl hB)
  have hok := h.pair_ok hA.isLocal hB.isLocal
  by_cases hAB : A = B
  · subst hAB
    simp only [pair, view_cancelSubscription_own, asked_cancelSubscription, beq_self_eq_true,
      Bool.true_and, and_self, if_true]
    exact cancel_self _ _ hok
  · have hne : (some B == some A) = false := beq_eq_false_iff_ne.mpr fun heq => hAB (Option.some.inj heq).symm
    simp only [pair, view_cancelSubscription_own, view_cancelSubscription_other (Ne.symm hAB),
      asked_cancelSubscription, hne, Bool.false_and, Ne.symm hAB, false_and, and_self, if_true, if_false]
    exact cancel_pair _ _ _ _ hok

theorem Consistent.unsubscribe : Consistent site (b.unsubscribe A B.jid (some B)) := by
  apply h.of_pair (.unsubscribe (aboutPair_left A B) (aboutPair_account A B)) hA (.inl hB)
  have hok := h.pair_ok hA.isLocal hB.isLocal
  by_cases hAB : A = B
  · subst hAB
    simp only [pair, view_unsubscribe_own, asked_unsubscribe, priorGrant,
      Option.any_some, granted_sub, beq_self_eq_true, Bool.true_and, and_self, if_true]
    exact withdraw_self _ _ hok
  · have hne : (some B == some A) = false := beq_eq_false_iff_ne.mpr fun heq => hAB (Option.some.inj heq).symm
    simp only [pair, view_unsubscribe_own, view_unsubscribe_other (Ne.symm hAB),
      asked_unsubscribe, hne, Bool.false_and, Option.some.injEq, hAB, false_and, and_self, if_true,
      if_false]
    exact withdraw_pair _ _ _ _ hok

end

theorem Book.NoRows.clearContact (h : b.NoRows B A.jid) : (b.clearContact A (some B)).NoRows B A.jid := by
  rw [Book.clearContact]
  split
  · exact h
  · have hitem : (b.setRequest B A.jid none).item B A.jid = none := h.1
    rw [updateExisting_of_none hitem]
    exact ⟨hitem, if_pos ⟨rfl, rfl⟩⟩

theorem Consistent.removeContact (h : Consistent site b) (hA : site.Serves b A)
    (hB : site.hosts.isLocalHost B.domain) : Consistent site (b.removeContact A B.jid (some B)) := by
  rw [Book.removeContact]
  by_cases hitem : (b.item A B.jid).isSome
  · rw [if_pos hitem]
    have hrows : SameRows (AboutPair A B) b
        (((b.removeItem A B.jid).setRequest A B.jid none).clearContact A (some B)) :=
      ((SameRows.removeItem (aboutPair_left A B)).trans
        (.setRequest (aboutPair_left A B) none)).trans (.clearContact (aboutPair_account A B))
    have hok := h.pair_ok hA.isLocal hB
    apply h.of_pair hrows hA
    · by_cases hserves : site.Serves b B
      · exact .inl hserves
      · right
        apply Book.NoRows.clearContact
        have hown : SameRows (fun o j => o = A ∧ j = B.jid) b
            ((b.removeItem A B.jid).setRequest A B.jid none) :=
          (SameRows.removeItem ⟨rfl, rfl⟩).trans (.setRequest ⟨rfl, rfl⟩ none)
        apply hown.noRows ?_ (h.owned B A.jid hserves)
        rintro ⟨heq, _⟩
        rw [heq] at hserves
        exact hserves hA
    · by_cases hAB : A = B
      · subst hAB
        simp [pair, view_clearContact, asked_clearContact, view_removeItem, asked_setRequest]
        decide
      · simp [pair, view_clearContact, asked_clearContact, view_removeItem, asked_setRequest, Ne.symm hAB]
        exact remove_pair _ _ _ _ hok
  · rw [if_neg hitem]
    exact h

end Pairs

/-! ### One item -/

section Single

private theorem not_remote {p : Prop} (hremote : site.hosts.isLocalHost jid.domain = false) :
    ∀ B : AccountKey syn, B.jid = jid → site.hosts.isLocalHost B.domain → p := by
  intro B hB hlocal
  rw [AccountKey.domain, hB, hremote] at hlocal
  cases hlocal

private theorem flags_preApprove : ∀ v asked, Flags v asked →
    grants v.state = true ∨ asked = false → Flags (applied preApprove v) asked := by
  decide

private theorem preApprove_looksLike : ∀ v asked, LooksLike (applied preApprove v) asked v asked := by
  decide

private theorem flags_dropApproval : ∀ v asked, Flags v asked → Flags (applied dropApproval v) asked := by
  decide

private theorem dropApproval_looksLike : ∀ v asked, LooksLike (applied dropApproval v) asked v asked := by
  decide

private theorem flags_sent : ∀ v asked kind, Flags v asked →
    Flags ((LinkData.mk v asked).sent kind).view ((LinkData.mk v asked).sent kind).asked := by
  decide

private theorem flags_received : ∀ v asked kind,
    Flags v asked → Flags ((LinkData.mk v asked).received kind).view ((LinkData.mk v asked).received kind).asked := by
  decide

private theorem flags_missing : ∀ v asked, Flags v asked →
    Flags (applied (cancelled false) v) false ∧ Flags (applied (withdrawn false) v) asked := by
  decide

private theorem missing_looksLike : ∀ v asked, v.state = .none → v.pendingOut = false → asked = false →
      LooksLike (applied (cancelled false) v) false v asked ∧
        LooksLike (applied (withdrawn false) v) asked v asked ∧ LooksLike {} false v asked := by
  decide

variable (h : Consistent site b) (hA : site.Serves b A)
include h hA

theorem Consistent.preApprove (hcases : grants (b.view A jid).state = true ∨ b.asked A jid = false) :
    Consistent site (b.update A jid preApprove) :=
  h.of_single (.update ⟨rfl, rfl⟩) hA ((view_update A A jid jid).trans (if_pos ⟨rfl, rfl⟩))
    (asked_update A A jid jid) (flags_preApprove _ _ (h.flags A jid) hcases)
    fun _ _ _ => preApprove_looksLike _ _

theorem Consistent.sendLocal (hcases : granted (b.sub A jid) = true ∨ b.asked A jid = false) (kind : SubscriptionKind) :
    Consistent site (b.sendLocal A jid kind) := by
  rw [granted_sub] at hcases
  cases kind with
  | subscribe => exact h
  | unsubscribe => exact h
  | subscribed =>
    rw [Book.sendLocal]
    split
    · exact h
    · exact h.preApprove hA hcases
  | unsubscribed =>
    exact h.of_single (.updateExisting ⟨rfl, rfl⟩) hA
      ((view_updateIdle idle_dropApproval A A jid jid).trans (if_pos ⟨rfl, rfl⟩))
      (asked_updateExisting A A jid jid) (flags_dropApproval _ _ (h.flags A jid))
      fun _ _ _ => dropApproval_looksLike _ _

theorem Consistent.sendRemote (hremote : site.hosts.isLocalHost jid.domain = false) (kind : SubscriptionKind) :
    Consistent site (b.sendRemote A jid kind) := by
  refine h.of_single (.sendRemote ⟨rfl, rfl⟩ kind) hA rfl rfl ?_ (not_remote hremote)
  have hflags := flags_sent _ _ kind (h.flags A jid)
  rw [← link, ← link_sendRemote] at hflags
  exact hflags

theorem Consistent.receiveRemote (hremote : site.hosts.isLocalHost jid.domain = false) (stored : Bytes)
    (kind : SubscriptionKind) :
    Consistent site (b.receiveRemote A jid stored kind) := by
  refine h.of_single (.receiveRemote ⟨rfl, rfl⟩ stored kind) hA rfl rfl ?_ (not_remote hremote)
  have hflags := flags_received _ _ kind (h.flags A jid)
  rw [← link, ← link_receiveRemote stored] at hflags
  exact hflags

/-! With no account on the other side there is nothing there that would have to follow. -/

section

variable (hmissing : ∀ B : AccountKey syn, B.jid = jid → site.hosts.isLocalHost B.domain → ¬ b.hasAccount B)
include hmissing

theorem Consistent.looksLike_missing (hjid : B.jid = jid) (hB : site.hosts.isLocalHost B.domain) :
    LooksLike (applied (cancelled false) (b.view A jid)) false (b.view A jid) (b.asked A jid) ∧
      LooksLike (applied (withdrawn false) (b.view A jid)) (b.asked A jid) (b.view A jid) (b.asked A jid) ∧
      LooksLike {} false (b.view A jid) (b.asked A jid) := by
  have hnone := h.owned B A.jid fun hserves => hmissing B hjid hB hserves.1
  subst hjid
  obtain ⟨hstate, hout, hasked⟩ := h.missing hA.isLocal hB hnone
  exact missing_looksLike _ _ hstate hout hasked

theorem Consistent.cancel_missing : Consistent site (b.cancelSubscription A jid none) :=
  h.of_single (.cancelSubscription ⟨rfl, rfl⟩ fun _ hnone => by cases hnone) hA
    (view_cancelSubscription_own A jid none)
    ((asked_cancelSubscription A A jid jid none).trans (if_pos ⟨rfl, rfl⟩))
    (flags_missing _ _ (h.flags A jid)).1 fun _ hjid hB => (h.looksLike_missing hA hmissing hjid hB).1

theorem Consistent.unsubscribe_missing : Consistent site (b.unsubscribe A jid none) :=
  h.of_single (.unsubscribe ⟨rfl, rfl⟩ fun _ hnone => by cases hnone) hA (view_unsubscribe_own A jid none)
    ((asked_unsubscribe A A jid jid none).trans (if_neg (by simp)))
    (flags_missing _ _ (h.flags A jid)).2 fun _ hjid hB => (h.looksLike_missing hA hmissing hjid hB).2.1

theorem Consistent.removeContact_missing : Consistent site (b.removeContact A jid none) := by
  rw [Book.removeContact]
  split
  · rw [Book.clearContact]
    refine h.of_single ((SameRows.removeItem ⟨rfl, rfl⟩).trans (.setRequest ⟨rfl, rfl⟩ none)) hA
      ?_ ((asked_setRequest A A jid jid none).trans (if_pos ⟨rfl, rfl⟩)) (by decide)
      fun _ hjid hB => (h.looksLike_missing hA hmissing hjid hB).2.2
    rw [view_setRequest, view_removeItem, if_pos ⟨rfl, rfl⟩]
  · exact h

end

theorem Consistent.setItem {item : RosterItem syn}
    (hsame : item.subscription = b.view A jid) : Consistent site ((b.setItem A jid (some item)).advance A) := by
  have hview : ((b.setItem A jid (some item)).advance A).view A jid = b.view A jid := by
    rw [view_setItem, if_pos ⟨rfl, rfl⟩, hsame]
  exact h.of_single (.setItem ⟨rfl, rfl⟩ _) hA hview rfl (h.flags A jid) fun _ _ _ => ⟨rfl, rfl, rfl, rfl⟩

end Single

end Lonewolf.Roster
