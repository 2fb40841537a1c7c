import Lonewolf.Roster.Progress
import Lonewolf.Roster.Symmetry

/-!
# Deletion as a fold of removals

What a deletion leaves of the other rosters is what removing the account's contacts one by one leaves, then denying
the requests that are still stored and clearing what the account owns. A round of the deletion succeeds exactly when
the ordinary removal does, and afterwards the books differ only in the account itself, which the deletion has erased
before its first round.
-/

namespace Lonewolf.Roster

open Texts Transactions Cursors

variable {syn : JidSyntax} {hosts : HostLookup} {limits : Limits} {X : AccountKey syn} {before t : Tables}
  {w : Write}

/-! ### Books up to their accounts -/

variable {sender : RosterJid syn}

namespace Book

variable (b : Book syn) (p : AccountKey syn → Prop)

def withAccounts : Book syn := { b with hasAccount := p }

section

variable (o : AccountKey syn) (j : RosterJid syn) (f : RosterSubscription → Option RosterSubscription)

theorem withAccounts_update : (b.withAccounts p).update o j f = (b.update o j f).withAccounts p := by
  show (b.withAccounts p).change o j (changeOf (b.sub o j) f) = (b.change o j _).withAccounts p
  cases changeOf (b.sub o j) f <;> rfl

theorem withAccounts_updateExisting :
    (b.withAccounts p).updateExisting o j f = (b.updateExisting o j f).withAccounts p := by
  by_cases hsome : (b.sub o j).isSome
  · have hsome' : ((b.withAccounts p).sub o j).isSome := hsome
    rw [updateExisting, if_pos hsome', updateExisting, if_pos hsome, withAccounts_update]
  · have hsome' : ¬ ((b.withAccounts p).sub o j).isSome := hsome
    rw [updateExisting, if_neg hsome', updateExisting, if_neg hsome]

end

theorem withAccounts_updateOther (other : Option (AccountKey syn)) (apply : Bool) (j : RosterJid syn)
    (f : RosterSubscription → Option RosterSubscription) :
    (b.withAccounts p).updateOther other apply j f = (b.updateOther other apply j f).withAccounts p := by
  cases other with
  | none => rfl
  | some account =>
    cases apply with
    | false => rfl
    | true => exact withAccounts_updateExisting b p account j f

theorem withAccounts_removeItem (o : AccountKey syn) (j : RosterJid syn) :
    (b.withAccounts p).removeItem o j = (b.removeItem o j).withAccounts p := by
  have hitem : (b.withAccounts p).item o j = b.item o j := rfl
  unfold removeItem
  rw [hitem]
  cases b.item o j <;> rfl

theorem withAccounts_clearContact (owner : AccountKey syn) (account : Option (AccountKey syn)) :
    (b.withAccounts p).clearContact owner account = (b.clearContact owner account).withAccounts p := by
  cases account with
  | none => rfl
  | some other =>
    simp only [clearContact]
    by_cases heq : other = owner
    · rw [if_pos heq, if_pos heq]
    · rw [if_neg heq, if_neg heq]
      exact withAccounts_updateExisting (b.setRequest other owner.jid none) p other owner.jid cleared

section

variable (owner : AccountKey syn) (contact : RosterJid syn) (account : Option (AccountKey syn))

theorem withAccounts_removeContact :
    (b.withAccounts p).removeContact owner contact account =
      (b.removeContact owner contact account).withAccounts p := by
  by_cases hsome : (b.item owner contact).isSome
  · have hsome' : ((b.withAccounts p).item owner contact).isSome := hsome
    rw [removeContact, if_pos hsome', removeContact, if_pos hsome, withAccounts_removeItem]
    exact withAccounts_clearContact ((b.removeItem owner contact).setRequest owner contact none) p owner account
  · have hsome' : ¬ ((b.withAccounts p).item owner contact).isSome := hsome
    rw [removeContact, if_neg hsome', removeContact, if_neg hsome]

theorem withAccounts_cancelSubscription :
    (b.withAccounts p).cancelSubscription owner contact account =
      (b.cancelSubscription owner contact account).withAccounts p := by
  have hrequest : (b.withAccounts p).setRequest owner contact none =
      (b.setRequest owner contact none).withAccounts p := rfl
  simp only [cancelSubscription, hrequest, withAccounts_updateExisting, withAccounts_updateOther]
  rfl

end

theorem withAccounts_removeEach (X : AccountKey syn) (party : RosterJid syn → Option (AccountKey syn))
    (contacts : List (RosterJid syn)) :
    (b.withAccounts p).removeEach X party contacts = (b.removeEach X party contacts).withAccounts p := by
  induction contacts generalizing b with
  | nil => rfl
  | cons contact contacts ih => rw [removeEach_cons, removeEach_cons, withAccounts_removeContact, ih]

theorem removeContact_filter (X : AccountKey syn) (contact : RosterJid syn) (account : Option (AccountKey syn)) :
    b.removeContact X contact (account.filter fun other => other ≠ X) = b.removeContact X contact account := by
  cases account with
  | none => rfl
  | some other =>
    by_cases heq : other = X
    · subst heq
      rw [Option.filter_some_neg (by simp)]
      simp [removeContact, clearContact]
    · rw [Option.filter_some_pos (by simpa using heq)]

theorem cancelSubscription_filter {b : Book syn} {X : AccountKey syn}
    (account : Option (AccountKey syn)) (hitem : b.item X sender = none) :
    b.cancelSubscription X sender (account.filter fun other => other ≠ X) = b.cancelSubscription X sender account := by
  cases account with
  | none => rfl
  | some other =>
    by_cases heq : other = X
    · subst heq
      have hnone : (b.setRequest other sender none).item other sender = none := hitem
      rw [Option.filter_some_neg (by simp), cancelSubscription, cancelSubscription,
        updateExisting_of_none hnone, updateExisting_of_none hnone]
      simp [updateOther]
    · rw [Option.filter_some_pos (by simpa using heq)]

end Book

theorem storedLocalAccount_congr (haccounts : (t.book syn).hasAccount = (before.book syn).hasAccount)
    (contact : RosterJid syn) : storedLocalAccount hosts t contact = storedLocalAccount hosts before contact := by
  unfold storedLocalAccount
  congr 1
  funext account
  exact decide_eq_decide.mpr (iff_of_eq (congrFun haccounts account))

/-! ### The two sides -/

/-- A write transaction of its own. -/
def ownTransaction {α : Type} (x : WriteTx α) : Tx Tables RosterError α := fun t =>
  match x.run ⟨t, t⟩ with
  | (.ok a, w) => (.ok a, w.tables)
  | (.error e, _) => (.error e, t)

theorem run_ownTransaction_eq {α : Type} {x : WriteTx α} {a : α} {t' : Tables} :
    (ownTransaction x).run t = (.ok a, t') ↔ ∃ w, x.run ⟨t, t⟩ = (.ok a, w) ∧ w.tables = t' := by
  show (match x.run ⟨t, t⟩ with
    | (.ok a, w) => (Except.ok a, w.tables)
    | (.error e, _) => (Except.error e, t)) = _ ↔ _
  rcases x.run ⟨t, t⟩ with ⟨r, w⟩
  cases r <;> simp

def removeOrdinarily (limits : Limits) (hosts : HostLookup) (X : AccountKey syn) (contact : RosterJid syn) :
    Tx Tables RosterError Unit := do
  let account ← Tx.read fun t => .ok (storedLocalAccount hosts t contact)
  let _ ← ownTransaction (removeItem limits X contact account)

def cancelOrdinarily (limits : Limits) (hosts : HostLookup) (X : AccountKey syn) (sender : RosterJid syn) :
    Tx Tables RosterError Unit := do
  let account ← Tx.read fun t => .ok (storedLocalAccount hosts t sender)
  let _ ← ownTransaction (cancelSubscription limits X sender account)

/-- Every contact of the account is removed, then every sender whose request is left is denied, each in a
transaction of its own, and what the account owns is cleared. -/
def removeOneByOne (limits : Limits) (hosts : HostLookup) (X : AccountKey syn) : Tx Tables RosterError Unit := do
  let contacts ← Tx.read fun t => .ok (contactsOf t X)
  forEach (fun contact (_ : Unit) => removeOrdinarily limits hosts X contact)
    (contacts.map fun contact => (contact, ()))
  let senders ← Tx.read fun t => .ok (sendersOf t X)
  forEach (fun sender (_ : Unit) => cancelOrdinarily limits hosts X sender)
    (senders.map fun sender => (sender, ()))
  ownTransaction (clearRoster X)

def Tables.withoutAccount (t : Tables) (X : AccountKey syn) : Tables :=
  { t with accounts := t.accounts.erase X.text }

/-- A deletion in one transaction: the record goes first, and the rosters are then taken apart with a
snapshot from before. -/
def deleteAtOnce (hosts : HostLookup) (X : AccountKey syn) : Tx Tables RosterError Unit :=
  ownTransaction do
    let before ← Tx.read fun w => .ok w.committed
    Tx.write fun w => ((), { w with tables := w.tables.withoutAccount X })
    forgetRows hosts before X

theorem run_deleteAtOnce_eq {u : Unit} {t' : Tables} :
    (deleteAtOnce hosts X).run t = (.ok u, t') ↔
      ∃ w, (forgetRows hosts t X).run ⟨t, t.withoutAccount X⟩ = (.ok u, w) ∧ w.tables = t' := by
  rw [deleteAtOnce, run_ownTransaction_eq]
  rfl

section

variable {α β : Type} {f : Tables → α} {x : α → WriteTx β}

theorem run_readAndOwn_eq {u : Unit} {t' : Tables} :
    (do let a ← Tx.read fun t => .ok (f t); let _ ← ownTransaction (x a) : Tx Tables RosterError Unit).run t =
      (.ok u, t') ↔ ∃ b w, (x (f t)).run ⟨t, t⟩ = (.ok b, w) ∧ w.tables = t' := by
  show (ownTransaction (x (f t)) >>= fun _ => pure ()).run t = _ ↔ _
  simp only [Tx.run_void_eq, run_ownTransaction_eq]

theorem succeeds_readAndOwn :
    (do let a ← Tx.read fun t => .ok (f t); let _ ← ownTransaction (x a) : Tx Tables RosterError Unit).Succeeds t ↔
      (x (f t)).Succeeds ⟨t, t⟩ := by
  simp only [Tx.Succeeds, run_readAndOwn_eq]
  constructor
  · rintro ⟨_, _, b, w, hrun, _⟩
    exact ⟨b, w, hrun⟩
  · rintro ⟨b, w, hrun⟩
    exact ⟨(), _, b, w, hrun, rfl⟩

end

/-! ### Both sides in step -/

/-- Where the deletion and the ordinary removals stand: the books agree but for the account. -/
structure Abreast (before : Tables) (X : AccountKey syn) (w : Write) (t : Tables) : Prop where
  left : w.tables.WellFormed syn
  right : t.WellFormed syn
  accounts : (t.book syn).hasAccount = (before.book syn).hasAccount
  book : w.book syn = (t.book syn).withAccounts fun O => (before.book syn).hasAccount O ∧ O ≠ X

namespace Abreast

theorem counterpart (h : Abreast before X w t) (contact : RosterJid syn) :
    counterpartOf hosts before X contact = (storedLocalAccount hosts t contact).filter fun other => other ≠ X := by
  rw [storedLocalAccount_congr h.accounts]
  rfl

theorem hasAccount_left (h : Abreast before X w t) {contact : RosterJid syn} {O : AccountKey syn}
    (hO : counterpartOf hosts before X contact = some O) : (w.book syn).hasAccount O := by
  obtain ⟨_, _, hmem, hne⟩ := counterpartOf_eq_some.mp hO
  rw [h.book]
  exact ⟨hmem, hne⟩

theorem hasAccount_right (contact : RosterJid syn) {O : AccountKey syn}
    (hO : O ∈ storedLocalAccount hosts t contact) : (t.book syn).hasAccount O := by
  have hmem := (Option.filter_eq_some_iff.mp (show storedLocalAccount hosts t contact = some O from hO)).2
  have hmem : O.text ∈ t.accounts := of_decide_eq_true hmem
  exact hmem

theorem updateFits (h : Abreast before X w t) (contact : RosterJid syn)
    (f : RosterSubscription → Option RosterSubscription) :
    (w.book syn).UpdateFits X (counterpartOf hosts before X contact) f ↔
      (t.book syn).UpdateFits X (storedLocalAccount hosts t contact) f := by
  rw [h.counterpart, h.book]
  constructor
  · intro hfits O hmem hne
    exact hfits O (Option.filter_eq_some_iff.mpr ⟨hmem, by simpa using hne⟩) hne
  · intro hfits O hmem hne
    exact hfits O (Option.filter_eq_some_iff.mp hmem).1 hne

theorem removalFits (h : Abreast before X w t) (contact : RosterJid syn) :
    (w.book syn).RemovalFits X contact (counterpartOf hosts before X contact) ↔
      (t.book syn).RemovalFits X contact (storedLocalAccount hosts t contact) := by
  rw [Book.RemovalFits, Book.RemovalFits, h.updateFits contact, h.book]
  rfl

end Abreast

/-- The two sides with rounds about some contacts to come, each contact in a given class. -/
structure Underway (hosts : HostLookup) (before : Tables) (X : AccountKey syn) (p : RosterJid syn → Prop)
    (rest : List (RosterJid syn)) (w : Write) (t : Tables) : Prop where
  abreast : Abreast before X w t
  nodup : rest.Nodup
  passes : ∀ contact ∈ rest, p contact
  fresh : Fresh X (counterpartOf hosts before X) (before.book syn) (w.book syn) rest

variable {contact : RosterJid syn} {rest : List (RosterJid syn)} {p : RosterJid syn → Prop}

theorem Underway.tail {w' : Write} {t' : Tables} (h : Underway hosts before X p (contact :: rest) w t)
    (habreast : Abreast before X w' t')
    (hrows : SameRows (Touches X (counterpartOf hosts before X) contact) (w.book syn) (w'.book syn)) :
    Underway hosts before X p rest w' t' where
  abreast := habreast
  nodup := (List.nodup_cons.mp h.nodup).2
  passes contact' hmem := h.passes contact' (List.mem_cons_of_mem contact hmem)
  fresh := h.fresh.tail (partyOf_counterpartOf hosts before X) (List.nodup_cons.mp h.nodup).1 hrows

section

variable (limits : Limits) (hbefore : before.WellFormed syn)
include hbefore

theorem inStep_removal (subscription : RosterSubscription)
    (h : Underway hosts before X ((before.book syn).Lists X) (contact :: rest) w t) :
    Tx.InStep (forgetItem hosts before X contact subscription) w (removeOrdinarily limits hosts X contact) t
      (Underway hosts before X ((before.book syn).Lists X) rest) := by
  have hother := h.fresh.other contact List.mem_cons_self
  have hitem : ((w.book syn).item X contact).isSome := by
    rw [h.fresh.own contact List.mem_cons_self]
    exact h.passes contact List.mem_cons_self
  refine ⟨?_, ?_⟩
  · rw [removeOrdinarily, succeeds_readAndOwn,
      (guarded_removeItem h.abreast.right fun O => Abreast.hasAccount_right contact).succeeds_iff,
      (guarded_forgetItem hbefore h.abreast.left (fun O => h.abreast.hasAccount_left) h.fresh
        (h.passes contact List.mem_cons_self)).succeeds_iff, h.abreast.removalFits]
  · intro _ w' _ t' hrun hrun'
    obtain ⟨removal, v, hremove, rfl⟩ := run_readAndOwn_eq.mp hrun'
    have hleft := run_forgetItem hbefore h.abreast.left hitem hother hrun
    have hright := (run_removeItem h.abreast.right hremove).1
    have hrows := sameRows_removeRound X (counterpartOf hosts before X) contact (w.book syn)
    rw [← hleft.book] at hrows
    refine h.tail ⟨hleft.wellFormed, hright.wellFormed, ?_, ?_⟩ hrows
    · rw [← Write.book, hright.book]
      exact (SameRows.removeContact (p := fun _ _ => True) trivial fun _ _ => trivial).hasAccount.trans
        h.abreast.accounts
    · rw [hleft.book, ← Write.book, hright.book, h.abreast.counterpart, h.abreast.book, Book.removeContact_filter,
        Book.withAccounts_removeContact]

theorem inStep_denial (h : Underway hosts before X ((before.book syn).Asks X) (contact :: rest) w t) :
    Tx.InStep (forgetRequest hosts before X contact) w (cancelOrdinarily limits hosts X contact) t
      (Underway hosts before X ((before.book syn).Asks X) rest) := by
  obtain ⟨hasked, hnone⟩ := h.passes contact List.mem_cons_self
  have hother := h.fresh.other contact List.mem_cons_self
  have hitem : (w.book syn).item X contact = none :=
    (h.fresh.own contact List.mem_cons_self).trans hnone
  have hrequest : (w.book syn).asked X contact = true := by
    rw [Book.asked, h.fresh.request contact List.mem_cons_self]
    exact hasked
  have hitem' : (t.book syn).item X contact = none := by
    rw [h.abreast.book] at hitem
    exact hitem
  have hrequest' : (t.book syn).asked X contact = true := by
    rw [h.abreast.book] at hrequest
    exact hrequest
  refine ⟨?_, ?_⟩
  · rw [cancelOrdinarily, succeeds_readAndOwn, (guarded_cancelSubscription h.abreast.right
        (fun O => Abreast.hasAccount_right contact) hrequest' hitem').succeeds_iff,
      (guarded_forgetRequest hbefore h.abreast.left (fun O => h.abreast.hasAccount_left) h.fresh
        hnone).succeeds_iff, h.abreast.updateFits]
  · intro _ w' _ t' hrun hrun'
    obtain ⟨outcome, v, hcancel, rfl⟩ := run_readAndOwn_eq.mp hrun'
    have hleft := run_forgetRequest hbefore h.abreast.left hnone hitem hrequest hother hrun
    have hright := (run_cancelSubscription h.abreast.right hcancel).1.toLeads
    have hrows := sameRows_denyRound X (counterpartOf hosts before X) contact (w.book syn)
    rw [← hleft.book] at hrows
    refine h.tail ⟨hleft.wellFormed, hright.wellFormed, ?_, ?_⟩ hrows
    · rw [← Write.book, hright.book]
      exact (SameRows.cancelSubscription (p := fun _ _ => True) trivial fun _ _ => trivial).hasAccount.trans
        h.abreast.accounts
    · rw [h.abreast.book] at hitem
      rw [hleft.book, ← Write.book, hright.book, h.abreast.counterpart, h.abreast.book,
        Book.cancelSubscription_filter _ hitem, Book.withAccounts_cancelSubscription]

end

theorem map_fst_unit (jids : List (RosterJid syn)) : (jids.map fun jid => (jid, ())).map Prod.fst = jids := by
  rw [List.map_map]
  exact List.map_id _

theorem sendersOf_left (hbefore : before.WellFormed syn) (h : Abreast before X w t)
    (hremoved : (w.book syn).request =
      ((before.book syn).removeEach X (counterpartOf hosts before X) (contactsOf before X)).request) :
    sendersOf t X = unlisted before X (sendersOf before X) := by
  have hpassed := hbefore.passed X
  have hsorted : (unlisted before X (sendersOf before X)).Pairwise fun a b => a.text < b.text :=
    (hbefore.sorted_sendersOf X).filter _
  refine ((List.perm_ext_iff_of_nodup (h.right.nodup_sendersOf X) hpassed.senders_nodup).mpr ?_).eq_of_pairwise
    (fun a b _ _ hab hba => absurd hab hba.asymm) (h.right.sorted_sendersOf X) hsorted
  intro sender
  have hasked : (t.book syn).asked X sender = ((before.book syn).removeEach X (counterpartOf hosts before X)
      (contactsOf before X)).asked X sender := by
    rw [Book.asked, Book.asked, ← hremoved, h.book]
    rfl
  rw [h.right.mem_sendersOf, hasked, removeEach_asked (partyOf_counterpartOf hosts before X)
    hpassed.contacts_nodup (fun contact hmem => (hpassed.mem_contacts contact).mp hmem), hpassed.mem_senders,
    hpassed.mem_contacts, Option.not_isSome_iff_eq_none]

theorem inStep_clear (h : Abreast before X w t) :
    Tx.InStep (clearRoster X) w (ownTransaction (clearRoster X)) t (Abreast before X) := by
  refine ⟨iff_of_true ⟨(), _, rfl⟩ ⟨(), _, rfl⟩, ?_⟩
  intro _ w' _ t' hrun hrun'
  obtain ⟨v, hclear, rfl⟩ := run_ownTransaction_eq.mp hrun'
  have hleft := clearRoster_leads h.left hrun
  have hright := clearRoster_leads h.right hclear
  refine ⟨hleft.wellFormed, hright.wellFormed, ?_, ?_⟩
  · rw [← Write.book, hright.book]
    exact h.accounts
  · rw [hleft.book, ← Write.book, hright.book, h.book]
    rfl

theorem passed_withoutAccount (h : t.WellFormed syn) (X : AccountKey syn) :
    ((t.withoutAccount X).book syn).Passed X (contactsOf t X) (unlisted t X (sendersOf t X)) :=
  (h.passed X).of_eq rfl rfl

theorem abreast_start (h : t.WellFormed syn) : Abreast t X ⟨t, t.withoutAccount X⟩ t where
  left := h.of_accounts _
  right := h
  accounts := rfl
  book := by
    ext1
    · funext O
      show (O.text ∈ t.accounts.erase X.text) = (O.text ∈ t.accounts ∧ O ≠ X)
      rw [Finset.mem_erase, ne_eq, AccountKey.text_inj, and_comm]
    · rfl
    · rfl
    · rfl

theorem inStep_deletion (limits : Limits) (hosts : HostLookup) (h : t.WellFormed syn) (X : AccountKey syn) :
    Tx.InStep (forgetRows hosts t X) ⟨t, t.withoutAccount X⟩ (removeOneByOne limits hosts X) t (Abreast t X) := by
  obtain ⟨items, hitems, heq⟩ := forgetRows_eq h hosts X
  have hpassed := h.passed X
  have hparty := partyOf_counterpartOf hosts t X
  have hstart : Abreast t X ⟨t, t.withoutAccount X⟩ t := abreast_start h
  have hfresh (contacts : List (RosterJid syn)) : Fresh X (counterpartOf hosts t X) (t.book syn)
      ((t.withoutAccount X).book syn) contacts := by
    apply fresh_of_eq <;> rfl
  rw [heq]
  have hkeys : items.map Prod.fst = ((contactsOf t X).map fun contact => (contact, ())).map Prod.fst := by
    rw [hitems, map_fst_unit]
  have hunderway : Underway hosts t X ((t.book syn).Lists X) (items.map Prod.fst) ⟨t, t.withoutAccount X⟩ t := by
    rw [hitems]
    exact ⟨hstart, hpassed.contacts_nodup, fun contact hmem => (hpassed.mem_contacts contact).mp hmem, hfresh _⟩
  apply Tx.InStep.read_right rfl
  apply (forEach_inStep (R := Underway hosts t X ((t.book syn).Lists X))
    (fun _ subscription _ _ _ _ => inStep_removal limits h subscription) hkeys hunderway).bind
  intro _ w₁ _ t₁ hremoved _ hdone
  have hremoved := (rounds_forgetItem h).run (h.of_accounts _) (hitems ▸ hpassed.contacts_nodup)
    (fun contact hmem => (hpassed.mem_contacts contact).mp (hitems ▸ hmem)) (hfresh _) hremoved
  rw [hitems] at hremoved
  have hrequests : (w₁.book syn).request =
      ((t.book syn).removeEach X (counterpartOf hosts t X) (contactsOf t X)).request := by
    rw [hremoved.book, hstart.book, ← Book.removeEach, Book.withAccounts_removeEach]
    rfl
  apply Tx.InStep.read_right rfl
  rw [sendersOf_left h hdone.abreast hrequests]
  have hunderway : Underway hosts t X ((t.book syn).Asks X)
      (((unlisted t X (sendersOf t X)).map fun sender => (sender, ())).map Prod.fst) w₁ t₁ := by
    rw [map_fst_unit]
    refine ⟨hdone.abreast, hpassed.senders_nodup, fun sender hmem => (hpassed.mem_senders sender).mp hmem, ?_⟩
    rw [hremoved.book]
    exact (hfresh _).trans ((passed_withoutAccount h X).fresh_removeEach hparty)
  apply (forEach_inStep (R := Underway hosts t X ((t.book syn).Asks X))
    (fun _ _ _ _ _ _ => inStep_denial limits h) rfl hunderway).bind
  intro _ w₂ _ t₂ _ _ hdone
  exact inStep_clear hdone.abreast

/-! ### What a deletion does -/

/-- The rows of all owners but one are the same, byte for byte. -/
structure AgreeBeside (X : AccountKey syn) (t t' : Tables) : Prop where
  items : ∀ (O : AccountKey syn) (j : RosterJid syn), O ≠ X → t.items.get? (itemKey O j) = t'.items.get? (itemKey O j)
  pending : ∀ (O : AccountKey syn) (j : RosterJid syn), O ≠ X →
    t.pending.get? (itemKey O j) = t'.pending.get? (itemKey O j)
  versions : ∀ O : AccountKey syn, O ≠ X → t.rosterVersion O = t'.rosterVersion O

theorem Abreast.agreeBeside (h : Abreast before X w t) : AgreeBeside X w.tables t where
  items O j _ := row_eq_of_item_eq h.left h.right (by rw [← Write.book, h.book]; rfl)
  pending O j _ := congrFun (congrFun (congrArg Book.request h.book) O) j
  versions O _ := congrFun (congrArg Book.version h.book) O

variable (b : Book syn)

/-- Something that an account has on file refers to another: a state, a request of its own or a request of
the other's. -/
def Book.Refers (O X : AccountKey syn) : Prop :=
  (b.view O X.jid).state ≠ .none ∨ (b.view O X.jid).pendingOut = true ∨ b.asked O X.jid = true

/-- What an account has on file about another has its counterpart there: who grants the other or has the
other's request is on the other's list, and who is subscribed or asks is at least a sender. -/
def Book.Answered (O X : AccountKey syn) : Prop :=
  (b.item X O.jid).isSome = true ∨
    (b.asked O X.jid = false ∧ grants (b.view O X.jid).state = false ∧
      (b.asked X O.jid = true ∨
        (b.view O X.jid).state = .none ∧ (b.view O X.jid).pendingOut = false))

private theorem left_iff : ∀ v listed sent asked,
    ((leftOf listed sent v).state ≠ .none ∨ (leftOf listed sent v).pendingOut = true ∨
        (if listed then false else asked) = true) ↔
      ¬ (listed = true ∨ (asked = false ∧ grants v.state = false ∧
        (sent = true ∨ v.state = .none ∧ v.pendingOut = false))) := by
  decide +kernel

/-- What a deletion does to the other accounts. -/
structure DeletesAsFold (limits : Limits) (hosts : HostLookup) (X : AccountKey syn) (t : Tables) : Prop where
  /-- It succeeds when the ordinary removals do, and leaves the same rows. -/
  fold : Tx.InStep (deleteAtOnce hosts X) t (removeOneByOne limits hosts X) t (AgreeBeside X)
  /-- The cursor loops are rounds over two lists, … -/
  rounds : ∃ items : List (RosterJid syn × RosterSubscription), items.map Prod.fst = contactsOf t X ∧
    forgetRows hosts t X = (do
      forEach (fun contact subscription => forgetItem hosts t X contact subscription) items
      forEach (fun sender _ => forgetRequest hosts t X sender)
        ((unlisted t X (sendersOf t X)).map fun sender => (sender, ()))
      clearRoster X)
  /-- … in which nobody stands twice … -/
  once : (contactsOf t X ++ unlisted t X (sendersOf t X)).Nodup
  /-- … and everybody with an item or a request stands. -/
  everyone : ∀ jid, jid ∈ contactsOf t X ++ unlisted t X (sendersOf t X) ↔
    ((t.book syn).item X jid).isSome = true ∨ (t.book syn).asked X jid = true
  /-- Rows about others stay, and a version advances by one with the item about the account. -/
  frame : ∀ u t', (deleteAtOnce hosts X).run t = (.ok u, t') → ∀ O : AccountKey syn, O ≠ X →
    (∀ j, j ≠ X.jid → t'.items.get? (itemKey O j) = t.items.get? (itemKey O j) ∧
      t'.pending.get? (itemKey O j) = t.pending.get? (itemKey O j)) ∧
    t'.rosterVersion O = t.rosterVersion O +
      if t'.items.get? (itemKey O X.jid) = t.items.get? (itemKey O X.jid) then 0 else 1
  /-- Nothing on a local account's file refers to the deleted account, exactly when what was there had its
  counterpart. -/
  leaves : ∀ u t', (deleteAtOnce hosts X).run t = (.ok u, t') → ∀ O : AccountKey syn, O ≠ X →
    hosts.isLocalHost O.domain = true → (t.book syn).hasAccount O →
      (¬ (t'.book syn).Refers O X ↔ (t.book syn).Answered O X)

section Deletes

variable {u : Unit} {t' : Tables} {O : AccountKey syn}

theorem run_deleteAtOnce (h : t.WellFormed syn) (hrun : (deleteAtOnce hosts X).run t = (.ok u, t')) :
    t'.WellFormed syn ∧ t'.book syn = ((t.withoutAccount X).book syn).forgotten X (counterpartOf hosts t X)
      (contactsOf t X) (unlisted t X (sendersOf t X)) := by
  obtain ⟨w, hforget, rfl⟩ := run_deleteAtOnce_eq.mp hrun
  have hleads := run_forgetRows h (h.of_accounts _) rfl rfl rfl hforget
  exact ⟨hleads.wellFormed, hleads.book⟩

theorem row_eq_iff (h : t.WellFormed syn) (h' : t'.WellFormed syn) (j : RosterJid syn) :
    t'.items.get? (itemKey O j) = t.items.get? (itemKey O j) ↔ (t'.book syn).item O j = (t.book syn).item O j := by
  constructor
  · intro heq
    show itemAt t' O j = itemAt t O j
    rw [itemAt, heq, itemAt]
  · intro heq
    exact row_eq_of_item_eq h' h heq

section

variable (h : t.WellFormed syn) (hrun : (deleteAtOnce hosts X).run t = (.ok u, t')) (hO : O ≠ X)
include h hrun hO

theorem frame_deleteAtOnce :
    (∀ j, j ≠ X.jid → t'.items.get? (itemKey O j) = t.items.get? (itemKey O j) ∧
      t'.pending.get? (itemKey O j) = t.pending.get? (itemKey O j)) ∧
    t'.rosterVersion O = t.rosterVersion O +
      if t'.items.get? (itemKey O X.jid) = t.items.get? (itemKey O X.jid) then 0 else 1 := by
  obtain ⟨h', hbook⟩ := run_deleteAtOnce h hrun
  have hparty := partyOf_counterpartOf hosts t X
  have hrows := sameRows_forgotten hparty ((t.withoutAccount X).book syn) (contactsOf t X)
    (unlisted t X (sendersOf t X))
  rw [← hbook] at hrows
  refine ⟨?_, ?_⟩
  · intro j hj
    have hkept : ¬ (O = X ∨ (counterpartOf hosts t X O.jid = some O ∧ j = X.jid)) := by
      intro hchanged
      rcases hchanged with heq | ⟨_, heq⟩
      · exact hO heq
      · exact hj heq
    exact ⟨(row_eq_iff h h' j).mpr (hrows.item O j hkept), hrows.request O j hkept⟩
  · simp only [row_eq_iff h h' X.jid]
    show (t'.book syn).version O = (t.book syn).version O + _
    by_cases hsome : counterpartOf hosts t X O.jid = some O
    · have hversion := (forgotten_other hparty hsome (passed_withoutAccount h X)).version
      rw [← hbook] at hversion
      exact hversion
    · have hkept (j : RosterJid syn) : ¬ (O = X ∨ (counterpartOf hosts t X O.jid = some O ∧ j = X.jid)) := by
        intro hchanged
        rcases hchanged with heq | ⟨heq, _⟩
        · exact hO heq
        · exact hsome heq
      have hitem : (t'.book syn).item O X.jid = (t.book syn).item O X.jid := hrows.item O X.jid (hkept X.jid)
      rw [hrows.version O hkept, if_pos hitem]
      rfl

theorem refers_deleteAtOnce (hlocal : hosts.isLocalHost O.domain = true) (hhas : (t.book syn).hasAccount O) :
    ¬ (t'.book syn).Refers O X ↔ (t.book syn).Answered O X := by
  obtain ⟨_, hbook⟩ := run_deleteAtOnce h hrun
  have hsome : counterpartOf hosts t X O.jid = some O := counterpartOf_eq_some.mpr ⟨rfl, hlocal, hhas, hO⟩
  obtain ⟨hview, hasked, _⟩ := forgotten_view (partyOf_counterpartOf hosts t X) (passed_withoutAccount h X) hO
    fun hnone => absurd hsome hnone
  rw [Book.Refers, hbook, hview, hasked, left_iff, not_not]
  rfl

end

end Deletes

/-- In every state that the roster writes lead to, a deletion does to the other accounts what removing the
contacts one by one does. -/
theorem deletion_is_fold_of_removals {s : Store syn} (h : (storage fun _ => True).Reachable s) (limits : Limits)
    (hosts : HostLookup) (X : AccountKey syn) : DeletesAsFold limits hosts X s.write.tables := by
  have hwf := (storage_means h).1.wellFormed
  have hpassed := hwf.passed X
  have hfold := inStep_deletion limits hosts hwf X
  refine ⟨⟨?_, ?_⟩, forgetRows_eq hwf hosts X, hpassed.nodup, hpassed.mem, ?_, ?_⟩
  · rw [← hfold.succeeds]
    simp only [Tx.Succeeds, run_deleteAtOnce_eq]
    constructor
    · rintro ⟨u, _, w, hrun, _⟩
      exact ⟨u, w, hrun⟩
    · rintro ⟨u, w, hrun⟩
      exact ⟨u, _, w, hrun, rfl⟩
  · intro u t' u' t'' hrun hrun'
    obtain ⟨w, hforget, rfl⟩ := run_deleteAtOnce_eq.mp hrun
    exact (hfold.related u w u' t'' hforget hrun').agreeBeside
  · intro u t' hrun O hO
    exact frame_deleteAtOnce hwf hrun hO
  · intro u t' hrun O hO hlocal hhas
    exact refers_deleteAtOnce hwf hrun hO hlocal hhas

/-! ### In a server -/

/-- The account has nothing on file, and nobody has a state or a request that refers to it. -/
def Book.Unknown (X : AccountKey syn) : Prop := ∀ O, ¬ b.Refers O X ∧ ∀ j, b.NoRows X j

theorem Sound.unknown {site : Site} (h : Sound syn site t) (hX : site.hosts.isLocalHost X.domain = true)
    (hgone : ¬ (t.book syn).hasAccount X) : (t.book syn).Unknown X := by
  have hnone (j : RosterJid syn) := h.consistent.owned X j fun hserves => hgone hserves.1
  refine fun O => ⟨?_, hnone⟩
  by_cases hserves : site.Serves (t.book syn) O
  · obtain ⟨hstate, hout, hasked⟩ := h.consistent.missing hserves.isLocal hX (hnone O.jid)
    simp [Book.Refers, hstate, hout, hasked]
  · have hrows := h.consistent.owned O X.jid hserves
    rw [Book.Refers, hrows.view, hrows.asked]
    decide

/-- Whatever a server did before: an account that was just deleted or created has no rows, and nobody has a state or a
request that refers to it. The cleanup keeps the items of others, and a pre-approval in them. -/
theorem deleted_account_unknown {site : Site} {t' : Tables} {op : Operation syn} {effects : List (Effect syn)}
    (h : (server syn site).Reachable t) (hX : site.hosts.isLocalHost X.domain = true)
    (hop : op = .delete X ∨ op = .create X) (hcommit : op.commit site limits t = some (t', effects)) :
    (t'.book syn).Unknown X := by
  have hsound := sound_of_reachable h
  rcases hop with rfl | rfl
  · exact (sound_of_reachable (h.step ⟨limits, .delete X, effects, trivial, hcommit⟩)).unknown hX
      (not_hasAccount_delete hsound.wellFormed hcommit)
  · obtain ⟨_, hcreate, heq⟩ := Option.map_eq_some_iff.mp hcommit
    cases heq
    unfold createAccount at hcreate
    split at hcreate
    · cases hcreate
    · cases hcreate
      exact hsound.unknown hX ‹_›

theorem deleted_account_unknown_approvedRequest :
    ∃ t' effects, (Operation.delete alice).commit sampleSite (fun _ => {}) approvedRequest = some (t', effects) ∧
      (t'.book plainSyntax).Unknown alice := by
  have hsome : ((Operation.delete alice).commit sampleSite (fun _ => {}) approvedRequest).isSome := by decide +kernel
  obtain ⟨⟨t', effects⟩, hcommit⟩ := Option.isSome_iff_exists.mp hsome
  exact ⟨t', effects, hcommit, deleted_account_unknown reachable_approvedRequest (by decide) (.inl rfl) hcommit⟩

/-- `alice` and `bob` exist, and some rows of theirs have been put. -/
def afterPuts (puts : List (AccountKey plainSyntax × RosterItem plainSyntax)) : Store plainSyntax :=
  let accounts : Finset Text := {alice.text, bob.text}
  puts.foldl (fun s put => s.after (.put put.1 put.2 .default))
    ⟨⟨{}, { accounts := accounts }⟩,
      { (Book.empty : Book plainSyntax) with hasAccount := fun owner => owner.text ∈ accounts }, Book.empty⟩

def itemIn (account : AccountKey plainSyntax) (state : SubscriptionState) : RosterItem plainSyntax :=
  { contactItem account none with subscription := { state := state } }

/-- `bob` grants `alice`, who knows nothing of it. -/
def oneSidedGrant : Store plainSyntax := afterPuts [(bob, itemIn alice .from')]

/-- `alice` and `bob` are subscribed to each other. -/
def mutualGrant : Store plainSyntax := afterPuts [(bob, itemIn alice .both), (alice, itemIn bob .both)]

private theorem reachable_accounts : (storage fun _ => True).Reachable (afterPuts []) := by
  have hempty : (storage fun _ => True).Reachable (⟨⟨{}, {}⟩, Book.empty, Book.empty⟩ : Store plainSyntax) :=
    .init rfl
  exact hempty.step (.accounts {alice.text, bob.text})

theorem reachable_oneSidedGrant : (storage fun _ => True).Reachable oneSidedGrant :=
  reachable_after reachable_accounts trivial (by decide +kernel)

theorem reachable_mutualGrant : (storage fun _ => True).Reachable mutualGrant :=
  reachable_after (reachable_after reachable_accounts trivial (by decide +kernel)) trivial (by decide +kernel)

theorem deletion_is_fold_of_removals_mutualGrant :
    ((deleteAtOnce sampleSite.hosts alice).run mutualGrant.write.tables).1 = .ok () ∧
      ((removeOneByOne (fun _ => {}) sampleSite.hosts alice).run mutualGrant.write.tables).1 = .ok () ∧
      ¬ (((deleteAtOnce sampleSite.hosts alice).run mutualGrant.write.tables).2.book plainSyntax).Refers bob alice := by
  have hdelete : ((deleteAtOnce sampleSite.hosts alice).run mutualGrant.write.tables).1 = .ok () := by
    decide +kernel
  have hbob : bob.text ∈ mutualGrant.write.tables.accounts := by decide +kernel
  have hfold := deletion_is_fold_of_removals reachable_mutualGrant (fun _ => {}) sampleSite.hosts alice
  refine ⟨hdelete, ?_, ?_⟩
  · obtain ⟨u, t', hrun⟩ := hfold.fold.succeeds.mp ⟨(), _, Prod.ext hdelete rfl⟩
    rw [hrun]
  · exact (hfold.leaves () _ (Prod.ext hdelete rfl) bob (by decide) (by decide) hbob).mpr
      (.inl (by decide +kernel))

/-- A grant that its receiver never listed is not found by a deletion of the receiver, and stays. -/
theorem one_sided_grant_remains :
    ∃ s : Store plainSyntax, (storage fun _ => True).Reachable s ∧
      ∃ t', (deleteAtOnce sampleSite.hosts alice).run s.write.tables = (.ok (), t') ∧
        sampleSite.hosts.isLocalHost bob.domain = true ∧ bob.text ∈ t'.accounts ∧
        ((t'.book plainSyntax).view bob alice.jid).state = .from' := by
  refine ⟨oneSidedGrant, reachable_oneSidedGrant, _, Prod.ext ?_ rfl, ?_, ?_, ?_⟩
  · decide +kernel
  · decide +kernel
  · decide +kernel
  · decide +kernel

end Lonewolf.Roster
