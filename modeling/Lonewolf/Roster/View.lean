import Lonewolf.Roster.StateSpec

/-!
# Views

What one account's roster says of a contact, with an absent item read as the default, and whether a
request of the contact is stored. These are the data that the subscription rules speak about; every
update of the book is a function of them, at one owner and contact at a time.
-/

namespace Lonewolf.Roster

open Texts

variable {syn : JidSyntax} {b b' b'' : Book syn} {owner : AccountKey syn} {jid : RosterJid syn}
  {f : RosterSubscription → Option RosterSubscription}

/-- A subscription after an update that may leave it as it is. -/
def applied (f : RosterSubscription → Option RosterSubscription) (subscription : RosterSubscription) :
    RosterSubscription :=
  (f subscription).getD subscription

/-- An update that does nothing to an absent item. -/
def Idle (f : RosterSubscription → Option RosterSubscription) : Prop := applied f {} = {}

private theorem ite_at {α : Type} (F : AccountKey syn → RosterJid syn → α) (owner o : AccountKey syn)
    (jid j : RosterJid syn) : (if o = owner ∧ j = jid then F owner jid else F o j) = F o j :=
  ite_eq_right_iff.mpr fun hkey => by rw [hkey.1, hkey.2]

namespace Book

def view (b : Book syn) (owner : AccountKey syn) (jid : RosterJid syn) : RosterSubscription :=
  (b.sub owner jid).getD {}

section

variable (owner o : AccountKey syn) (jid j : RosterJid syn)

theorem view_setItem (item : RosterItem syn) :
    ((b.setItem owner jid (some item)).advance owner).view o j =
      if o = owner ∧ j = jid then item.subscription else b.view o j := by
  simp only [view, sub, setItem, advance]
  split <;> rfl

@[simp] theorem asked_setItem
    (item : Option (RosterItem syn)) : ((b.setItem owner jid item).advance owner).asked o j = b.asked o j :=
  rfl

@[simp] theorem view_setRequest (value : Option Bytes) :
    (b.setRequest owner jid value).view o j = b.view o j := rfl

theorem asked_setRequest (value : Option Bytes) :
    (b.setRequest owner jid value).asked o j =
      if o = owner ∧ j = jid then value.isSome else b.asked o j := by
  simp only [asked, setRequest]
  split <;> rfl

end

@[simp] theorem request_update (owner : AccountKey syn) (jid : RosterJid syn) :
    (b.update owner jid f).request = b.request := by
  unfold update change
  split <;> rfl

@[simp] theorem request_updateExisting (owner : AccountKey syn) (jid : RosterJid syn) :
    (b.updateExisting owner jid f).request = b.request := by
  unfold updateExisting
  split
  · exact request_update owner jid
  · rfl

section

variable (owner o : AccountKey syn) (jid j : RosterJid syn)

@[simp] theorem asked_update : (b.update owner jid f).asked o j = b.asked o j := by
  rw [asked, request_update, asked]

theorem view_update :
    (b.update owner jid f).view o j =
      if o = owner ∧ j = jid then applied f (b.view owner jid) else b.view o j := by
  rw [update]
  cases hchange : changeOf (b.sub owner jid) f with
  | none =>
    have hsame : applied f (b.view owner jid) = b.view owner jid := by
      unfold changeOf at hchange
      split at hchange
      · rename_i hnone
        rw [applied, view, hnone, Option.getD_none]
      · rename_i subscription hsome
        split at hchange
        · rename_i hcurrent
          rw [applied, view, hsome, hcurrent]
          rfl
        · cases hchange
    rw [hsame, change, ite_at]
  | some subscription =>
    have happlied : applied f (b.view owner jid) = subscription := by
      rw [applied, view, (changeOf_eq_some.mp hchange).1, Option.getD_some]
    rw [happlied, change, view_setItem]

@[simp] theorem asked_updateExisting : (b.updateExisting owner jid f).asked o j = b.asked o j := by
  rw [asked, request_updateExisting, asked]

end

theorem view_updateExisting (hidle : Idle f ∨ (b.sub owner jid).isSome) (o : AccountKey syn) (j : RosterJid syn) :
    (b.updateExisting owner jid f).view o j =
      if o = owner ∧ j = jid then applied f (b.view owner jid) else b.view o j := by
  unfold updateExisting
  by_cases hsome : (b.sub owner jid).isSome
  · rw [if_pos hsome, view_update]
  · have hidle := hidle.resolve_right hsome
    have hview : b.view owner jid = {} := by
      rw [view, Option.not_isSome_iff_eq_none.mp hsome, Option.getD_none]
    rw [if_neg hsome, hview, hidle, ← hview, ite_at]

theorem updateExisting_of_none (h : b.item owner jid = none) : b.updateExisting owner jid f = b := by
  rw [updateExisting, sub, h]
  rfl

variable (owner : AccountKey syn)

theorem item_updateExisting (jid : RosterJid syn) :
    (b.updateExisting owner jid f).item owner jid =
      (b.item owner jid).map fun item => { item with subscription := applied f item.subscription } := by
  cases hitem : b.item owner jid with
  | none => rw [updateExisting_of_none hitem, hitem, Option.map_none]
  | some item =>
    have hsub : b.sub owner jid = some item.subscription := by rw [sub, hitem, Option.map_some]
    rw [updateExisting, hsub, Option.isSome_some, if_pos rfl, update, hsub, changeOf, Option.map_some]
    simp only [Option.getD_some, applied]
    cases hf : f item.subscription with
    | none => exact hitem
    | some subscription =>
      simp only [Option.some.injEq, Option.getD_some]
      split
      · rename_i heq
        rw [change, hitem, ← heq]
      · simp [change, hitem, advance, setItem]

theorem version_updateExisting (jid : RosterJid syn) :
    (b.updateExisting owner jid f).version owner =
      b.version owner + if (b.updateExisting owner jid f).item owner jid = b.item owner jid then 0 else 1 := by
  cases hitem : b.item owner jid with
  | none => rw [updateExisting_of_none hitem, if_pos hitem, Nat.add_zero]
  | some item =>
    have hsub : b.sub owner jid = some item.subscription := by rw [sub, hitem, Option.map_some]
    rw [updateExisting, hsub, Option.isSome_some, if_pos rfl, update]
    cases hchange : changeOf (b.sub owner jid) f with
    | none => rw [change, if_pos hitem, Nat.add_zero]
    | some subscription =>
      have hne : subscription ≠ item.subscription := by
        intro heq
        rw [hsub, heq] at hchange
        exact (changeOf_eq_some.mp hchange).2 rfl
      rw [change, hitem]
      rw [if_neg]
      · exact if_pos rfl
      · intro heq
        have heq : some { item with subscription := subscription } = some item :=
          (if_pos ⟨rfl, rfl⟩).symm.trans heq
        exact hne (congrArg RosterItem.subscription (Option.some.inj heq))

theorem view_updateOther (other : AccountKey syn) (apply : Bool) (hidle : Idle f) (o : AccountKey syn)
    (j : RosterJid syn) :
    (b.updateOther (some other) apply jid f).view o j =
      if o = other ∧ j = jid then (if apply then applied f (b.view other jid) else b.view other jid)
      else b.view o j := by
  cases apply with
  | true => exact view_updateExisting (.inl hidle) o j
  | false =>
    simp only [updateOther, Bool.false_eq_true, if_false, ite_at]

@[simp] theorem asked_updateOther (other : Option (AccountKey syn)) (apply : Bool) (jid : RosterJid syn)
    (o : AccountKey syn) (j : RosterJid syn) : (b.updateOther other apply jid f).asked o j = b.asked o j := by
  cases other with
  | none => rfl
  | some account =>
    cases apply with
    | true => exact asked_updateExisting account o jid j
    | false => rfl

theorem granted_sub (jid : RosterJid syn) : granted (b.sub owner jid) = grants (b.view owner jid).state := by
  rw [view]
  cases b.sub owner jid <;> rfl

theorem approved_sub (jid : RosterJid syn) :
    (b.sub owner jid).any RosterSubscription.approved = (b.view owner jid).approved := by
  rw [view]
  cases b.sub owner jid <;> rfl

end Book

theorem idle_withdrawOutbound : Idle withdrawOutbound := rfl

theorem idle_cancelled (both : Bool) : Idle (cancelled both) := by cases both <;> rfl

theorem idle_withdrawn (both : Bool) : Idle (withdrawn both) := by cases both <;> rfl

theorem idle_ungranted : Idle ungranted := rfl

theorem idle_cleared : Idle cleared := rfl

theorem idle_approvePendingOut : Idle approvePendingOut := rfl

theorem idle_dropApproval : Idle dropApproval := rfl

theorem idle_revoke : Idle revoke := rfl

/-! ### Views after the operations on both sides -/

namespace Book

variable {A B o : AccountKey syn} {jid j : RosterJid syn}

theorem view_updateIdle (hidle : Idle f) (owner o : AccountKey syn) (jid j : RosterJid syn) :
    (b.updateExisting owner jid f).view o j =
      if o = owner ∧ j = jid then applied f (b.view owner jid) else b.view o j :=
  view_updateExisting (.inl hidle) o j

theorem view_updateOther_own {other : Option (AccountKey syn)} (hidle : Idle f) (apply : Bool) :
    (b.updateOther other (apply && !(other == some A)) jid f).view A j = b.view A j := by
  cases other with
  | none => rfl
  | some B =>
    by_cases hB : B = A
    · simp only [hB, beq_self_eq_true, Bool.not_true, Bool.and_false, updateOther, Bool.false_eq_true, if_false]
    · rw [view_updateOther _ _ hidle, if_neg fun hkey => hB hkey.1.symm]

theorem view_cancelSubscription_own (A : AccountKey syn) (jid : RosterJid syn) (subscriber : Option (AccountKey syn)) :
    (b.cancelSubscription A jid subscriber).view A jid =
      applied (cancelled (subscriber == some A && (b.asked A jid || grants (b.view A jid).state))) (b.view A jid) := by
  rw [cancelSubscription, granted_sub, view_updateOther_own idle_withdrawOutbound,
    view_updateIdle (idle_cancelled _), if_pos ⟨rfl, rfl⟩, view_setRequest]
  cases subscriber <;> rfl

theorem view_cancelSubscription_other (hB : B ≠ A) (jid : RosterJid syn) :
    (b.cancelSubscription A jid (some B)).view B A.jid =
      if b.asked A jid || grants (b.view A jid).state then applied withdrawOutbound (b.view B A.jid)
      else b.view B A.jid := by
  rw [cancelSubscription, granted_sub]
  have hsame : (some B == some A) = false := beq_eq_false_iff_ne.mpr fun heq => hB (Option.some.inj heq)
  simp only [hsame, view_updateOther _ _ idle_withdrawOutbound, view_updateIdle (idle_cancelled _),
    view_setRequest, hB, false_and, if_false, and_self, if_true, Option.isSome_some, Bool.true_and,
    Bool.not_false, Bool.and_true]

@[simp] theorem asked_cancelSubscription (A o : AccountKey syn) (jid j : RosterJid syn)
    (subscriber : Option (AccountKey syn)) :
    (b.cancelSubscription A jid subscriber).asked o j =
      if o = A ∧ j = jid then false else b.asked o j := by
  simp only [cancelSubscription, asked_updateOther, asked_updateExisting, asked_setRequest, Option.isSome_none]

theorem view_retractRequest (A o : AccountKey syn) (j : RosterJid syn) (recipient : Option (AccountKey syn)) :
    (b.retractRequest A recipient).view o j = b.view o j := by
  cases recipient <;> rfl

theorem view_unsubscribe_own (A : AccountKey syn) (jid : RosterJid syn) (recipient : Option (AccountKey syn)) :
    (b.unsubscribe A jid recipient).view A jid =
      applied (withdrawn (recipient == some A && b.priorGrant A recipient)) (b.view A jid) := by
  rw [unsubscribe, view_updateOther_own idle_ungranted, view_updateIdle (idle_withdrawn _), if_pos ⟨rfl, rfl⟩,
    view_retractRequest]

theorem view_unsubscribe_other (hB : B ≠ A) (jid : RosterJid syn) :
    (b.unsubscribe A jid (some B)).view B A.jid =
      if grants (b.view B A.jid).state then applied ungranted (b.view B A.jid) else b.view B A.jid := by
  have hsame : (some B == some A) = false := beq_eq_false_iff_ne.mpr fun heq => hB (Option.some.inj heq)
  simp only [unsubscribe, priorGrant, Option.any_some, granted_sub, hsame,
    view_updateOther _ _ idle_ungranted, view_updateIdle (idle_withdrawn _), view_retractRequest, hB,
    false_and, if_false, and_self, if_true, Bool.not_false, Bool.and_true]

section

variable (A o : AccountKey syn) (jid j : RosterJid syn)

@[simp] theorem asked_unsubscribe (recipient : Option (AccountKey syn)) :
    (b.unsubscribe A jid recipient).asked o j =
      if some o = recipient ∧ j = A.jid then false else b.asked o j := by
  simp only [unsubscribe, asked_updateOther, asked_updateExisting]
  cases recipient with
  | none => simp [retractRequest]
  | some B => simp [retractRequest, asked_setRequest]

theorem view_removeItem : (b.removeItem A jid).view o j = if o = A ∧ j = jid then {} else b.view o j := by
  unfold removeItem
  cases hitem : b.item A jid with
  | none =>
    have hview : b.view A jid = {} := by rw [view, sub, hitem]; rfl
    rw [← hview, ite_at]
  | some item =>
    simp only [view, sub, setItem, advance]
    split <;> rfl

end

section

variable (A : AccountKey syn) (contactAccount : Option (AccountKey syn)) (o : AccountKey syn) (j : RosterJid syn)

theorem view_clearContact :
    (b.clearContact A contactAccount).view o j =
      if contactAccount = some o ∧ o ≠ A ∧ j = A.jid then applied cleared (b.view o j) else b.view o j := by
  rcases contactAccount with _ | B
  · simp [clearContact]
  · by_cases hB : B = A
    · rw [clearContact, if_pos hB, if_neg fun hkey => hkey.2.1 (Option.some.inj hkey.1 ▸ hB)]
    · rw [clearContact, if_neg hB, view_updateIdle idle_cleared, view_setRequest, view_setRequest]
      by_cases ho : o = B
      · subst ho
        by_cases hj : j = A.jid <;> simp [hj, hB]
      · simp [ho, Ne.symm ho]

theorem asked_clearContact :
    (b.clearContact A contactAccount).asked o j =
      if contactAccount = some o ∧ o ≠ A ∧ j = A.jid then false else b.asked o j := by
  rcases contactAccount with _ | B
  · simp [clearContact]
  · by_cases hB : B = A
    · rw [clearContact, if_pos hB, if_neg fun hkey => hkey.2.1 (Option.some.inj hkey.1 ▸ hB)]
    · rw [clearContact, if_neg hB, asked_updateExisting, asked_setRequest]
      by_cases ho : o = B
      · subst ho
        simp [hB]
      · simp [ho, Ne.symm ho]

end

end Book

theorem sub_isSome_of_approved {o : AccountKey syn} {j : RosterJid syn} (h : (b.view o j).approved = true) :
    (b.sub o j).isSome := by
  rw [Book.view] at h
  cases hsub : b.sub o j with
  | none =>
    rw [hsub] at h
    cases h
  | some _ => rfl

section

variable (o : AccountKey syn) (j : RosterJid syn) (owner : AccountKey syn)
  (f : RosterSubscription → Option RosterSubscription)

theorem view_resolve :
    (b.resolve owner jid f).view o j =
      if o = owner ∧ j = jid ∧ b.asked owner jid then applied f (b.view owner jid) else b.view o j := by
  rw [Book.resolve]
  by_cases hasked : b.asked owner jid
  · simp [hasked, Book.view_update]
  · simp [hasked]

theorem asked_resolve : (b.resolve owner jid f).asked o j = if o = owner ∧ j = jid then false else b.asked o j := by
  rw [Book.resolve]
  by_cases hasked : b.asked owner jid
  · simp [hasked, Book.asked_setRequest]
  · rw [if_neg hasked, ← eq_false_of_ne_true hasked, ite_at]

end

/-! ### Rows that stay -/

/-- The rows outside `p` are the same, and so is the version of an owner with no row in `p`. -/
structure SameRows (p : AccountKey syn → RosterJid syn → Prop) (b b' : Book syn) : Prop where
  hasAccount : b'.hasAccount = b.hasAccount
  item : ∀ o j, ¬ p o j → b'.item o j = b.item o j
  request : ∀ o j, ¬ p o j → b'.request o j = b.request o j
  version : ∀ o, (∀ j, ¬ p o j) → b'.version o = b.version o

namespace SameRows

variable {p : AccountKey syn → RosterJid syn → Prop} {owner : AccountKey syn} {jid : RosterJid syn}
  {f : RosterSubscription → Option RosterSubscription}

theorem refl (p : AccountKey syn → RosterJid syn → Prop) (b : Book syn) : SameRows p b b :=
  ⟨rfl, fun _ _ _ => rfl, fun _ _ _ => rfl, fun _ _ => rfl⟩

theorem trans (h : SameRows p b b') (h' : SameRows p b' b'') : SameRows p b b'' where
  hasAccount := h'.hasAccount.trans h.hasAccount
  item o j hp := (h'.item o j hp).trans (h.item o j hp)
  request o j hp := (h'.request o j hp).trans (h.request o j hp)
  version o hp := (h'.version o hp).trans (h.version o hp)

theorem mono {q : AccountKey syn → RosterJid syn → Prop} (h : SameRows p b b')
    (hpq : ∀ o j, p o j → q o j) : SameRows q b b' where
  hasAccount := h.hasAccount
  item o j hq := h.item o j fun hp => hq (hpq o j hp)
  request o j hq := h.request o j fun hp => hq (hpq o j hp)
  version o hq := h.version o fun j hp => hq j (hpq o j hp)

section

variable (hp : p owner jid)
include hp

theorem setItem (value : Option (RosterItem syn)) :
    SameRows p b ((b.setItem owner jid value).advance owner) where
  hasAccount := rfl
  item o j hne := by
    apply if_neg
    rintro ⟨ho, hj⟩
    subst ho hj
    exact hne hp
  request _ _ _ := rfl
  version o hne := by
    apply if_neg
    intro ho
    subst ho
    exact hne jid hp

theorem setRequest (value : Option Bytes) : SameRows p b (b.setRequest owner jid value) where
  hasAccount := rfl
  item _ _ _ := rfl
  request o j hne := by
    apply if_neg
    rintro ⟨ho, hj⟩
    subst ho hj
    exact hne hp
  version _ _ := rfl

theorem update : SameRows p b (b.update owner jid f) := by
  unfold Book.update Book.change
  split
  · exact refl p b
  · exact setItem hp _

theorem updateExisting : SameRows p b (b.updateExisting owner jid f) := by
  unfold Book.updateExisting
  split
  · exact update hp
  · exact refl p b

end

theorem updateOther {other : Option (AccountKey syn)} (hp : ∀ account ∈ other, p account jid) (apply : Bool) :
    SameRows p b (b.updateOther other apply jid f) := by
  cases other with
  | none => exact refl p b
  | some account =>
    cases apply with
    | true => exact updateExisting (hp account rfl)
    | false => exact refl p b

theorem removeItem (hp : p owner jid) : SameRows p b (b.removeItem owner jid) := by
  unfold Book.removeItem
  split
  · exact refl p b
  · exact setItem hp none

variable {contactAccount : Option (AccountKey syn)}

theorem clearContact (hp : ∀ account ∈ contactAccount, p account owner.jid) :
    SameRows p b (b.clearContact owner contactAccount) := by
  cases contactAccount with
  | none => exact .refl p b
  | some account =>
    rw [Book.clearContact]
    split
    · exact .refl p b
    · exact (setRequest (hp account rfl) none).trans (updateExisting (hp account rfl))

theorem removeContact (hown : p owner jid) (hp : ∀ account ∈ contactAccount, p account owner.jid) :
    SameRows p b (b.removeContact owner jid contactAccount) := by
  rw [Book.removeContact]
  split
  · exact ((removeItem hown).trans (setRequest hown none)).trans (clearContact hp)
  · exact .refl p b

theorem cancelSubscription {subscriber : Option (AccountKey syn)} (hown : p owner jid)
    (hp : ∀ account ∈ subscriber, p account owner.jid) : SameRows p b (b.cancelSubscription owner jid subscriber) :=
  ((setRequest hown none).trans (updateExisting hown)).trans (updateOther hp _)

theorem unsubscribe {recipient : Option (AccountKey syn)} (hown : p owner jid)
    (hp : ∀ account ∈ recipient, p account owner.jid) : SameRows p b (b.unsubscribe owner jid recipient) := by
  have hretract : SameRows p b (b.retractRequest owner recipient) := by
    cases recipient with
    | none => exact .refl p b
    | some account => exact setRequest (hp account rfl) none
  exact (hretract.trans (updateExisting hown)).trans (updateOther hp _)

theorem resolve (hp : p owner jid) : SameRows p b (b.resolve owner jid f) := by
  rw [Book.resolve]
  split
  · exact (setRequest hp none).trans (update hp)
  · exact .refl p b

theorem requestSubscription {contact : AccountKey syn} {stanza : Bytes} (hown : p owner contact.jid)
    (hother : p contact owner.jid) : SameRows p b (b.requestSubscription owner contact stanza) := by
  rw [Book.requestSubscription]
  split
  · exact updateExisting hown
  · split
    · exact (updateExisting hother).trans (update hown)
    · exact (setRequest hother _).trans (update hown)

variable {o : AccountKey syn} {j : RosterJid syn}

theorem view (h : SameRows p b b') (hne : ¬ p o j) : b'.view o j = b.view o j := by
  rw [Book.view, Book.sub, h.item o j hne]
  rfl

theorem asked (h : SameRows p b b') (hne : ¬ p o j) : b'.asked o j = b.asked o j := by
  rw [Book.asked, h.request o j hne]
  rfl

end SameRows

end Lonewolf.Roster
