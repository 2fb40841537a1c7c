import Lonewolf.Roster.Forget

/-!
# When the updates succeed

A change of the subscription of an item that is there never runs into the quota: the item keeps its size.
So it succeeds whenever the owner's version can advance, and it needs that only when it changes something.
-/

namespace Lonewolf.Roster

open Texts Transactions

variable {syn : JidSyntax} {limits : Limits} {owner : AccountKey syn} {jid : RosterJid syn} {w : Write}
  {f : RosterSubscription → Option RosterSubscription}

namespace Book

def CanAdvance (b : Book syn) (o : AccountKey syn) : Prop := b.version o + 1 < wordSize

/-- An update changes the item that is there. -/
def Changes (b : Book syn) (o : AccountKey syn) (j : RosterJid syn)
    (f : RosterSubscription → Option RosterSubscription) : Prop :=
  ∃ old, b.sub o j = some old ∧ applied f old ≠ old

end Book

theorem row_eq_of_item_eq {t t' : Tables} (h : t.WellFormed syn) (h' : t'.WellFormed syn)
    (heq : (t.book syn).item owner jid = (t'.book syn).item owner jid) :
    t.items.get? (itemKey owner jid) = t'.items.get? (itemKey owner jid) := by
  have heq : itemAt t owner jid = itemAt t' owner jid := heq
  rcases h.row_cases owner jid with ⟨hrow, hnone⟩ | ⟨record, item, hrow, hsome, _, hholds⟩
  · rw [hnone] at heq
    rw [hrow, h'.itemAt_eq_none.mp heq.symm]
  · obtain ⟨record', hrow', _, hholds'⟩ := h'.row_of_item (heq.symm.trans hsome)
    have hvalue : record = record' := Except.ok.inj (hholds.value.symm.trans hholds'.value)
    rw [hrow, hrow', hvalue]

variable {item : RosterItem syn}

theorem copyable_of_row {source : Tables} {record : Bytes}
    {expected : Option RosterSubscription} (hholds : HoldsItem owner (itemKey owner jid, record) item)
    (hsource : source.items.get? (itemKey owner jid) = some record)
    (hexpected : ∀ subscription ∈ expected, item.subscription = subscription) :
    copyable source (itemKey owner jid) expected record = .ok (item.subscription, record) := by
  have hagree : rowsAgree expected item.subscription record record = true := by
    cases expected with
    | none => simp [rowsAgree]
    | some subscription => simp [rowsAgree, hexpected subscription rfl]
  have hdecode : decodeSubscription record = .ok item.subscription :=
    decodeSubscription_encodeItem hholds.value
  simp only [copyable, hsource, orCorrupt, hdecode, hagree, if_true, bind, Except.bind, pure, Except.pure]

variable {subscription : RosterSubscription}

section Steps

variable {α β : Type} {e : RosterError} {p : Prop} {next : α → WriteTx β}

theorem guarded_query {g : Tables → Except RosterError α} {a : α} (hg : g w.tables = .ok a) :
    (query g >>= next).Guarded w e p ↔ (next a).Guarded w e p :=
  Tx.guarded_bind_of_ok (run_query_eq.mpr ⟨hg, rfl⟩)

theorem guarded_lookup {g : Tables → α} :
    (query (fun t => .ok (g t)) >>= next).Guarded w e p ↔ (next (g w.tables)).Guarded w e p := guarded_query rfl

variable {next : Unit → WriteTx β}

theorem guarded_update {g : Tables → Tables} :
    (update g >>= next).Guarded w e p ↔ (next ()).Guarded ⟨w.committed, g w.tables⟩ e p :=
  Tx.guarded_bind_of_ok (run_update_eq.mpr rfl)

theorem guarded_checkAccount (hhas : (w.book syn).hasAccount owner) :
    (checkAccount owner.text >>= next).Guarded w e p ↔ (next ()).Guarded w e p :=
  Tx.guarded_bind_of_ok (run_checkAccount_eq.mpr ⟨hhas, rfl⟩)

theorem guarded_removePending {sender : RosterJid syn} {next : Bool → WriteTx β} :
    (removePendingRequest owner sender >>= next).Guarded w e p ↔
      (next (w.tables.pendingRequestExists owner sender)).Guarded
        ⟨w.committed, w.tables.withoutRequest owner sender⟩ e p :=
  Tx.guarded_bind_of_ok (run_removePendingRequest_eq.mpr ⟨rfl, rfl⟩)

end Steps

theorem guarded_advanceVersion : (advanceVersion owner.text).Guarded w .valueTooLarge (w.tables.canAdvance owner) :=
  ⟨fun h => ⟨_, _, run_advanceVersion_eq.mpr ⟨h, rfl, rfl⟩⟩, fun h => ⟨w, run_advanceVersion_error.mpr ⟨h, rfl, rfl⟩⟩⟩

section Copy

variable {source : Tables} {expected : Option RosterSubscription} (h : w.tables.WellFormed syn)
  (hitem : (w.book syn).item owner jid = some item)
  (hsource : source.items.get? (itemKey owner jid) = w.tables.items.get? (itemKey owner jid))
  (hexpected : ∀ subscription ∈ expected, item.subscription = subscription)
  (hne : item.subscription ≠ subscription)
include h hitem hsource hexpected hne

theorem guarded_copySubscription (hhas : (w.book syn).hasAccount owner) :
    (copySubscription source owner.text (itemKey owner jid) expected subscription).Guarded w .valueTooLarge
      (w.tables.canAdvance owner) := by
  obtain ⟨record, hrow, _, hholds⟩ := h.row_of_item hitem
  rw [copySubscription, guarded_checkAccount hhas, guarded_lookup, hrow,
    guarded_query (copyable_of_row hholds (hsource.trans hrow) hexpected)]
  simp only [if_neg hne, guarded_update]
  exact (guarded_advanceVersion (w := ⟨w.committed, _⟩)).andThen fun _ _ _ => Tx.succeeds_pure.mpr trivial

theorem version_of_copySubscription {version : Option Nat} {w' : Write}
    (hrun : (copySubscription source owner.text (itemKey owner jid) expected subscription).run w = (.ok version, w')) :
    version = some (w.tables.rosterVersion owner + 1) := by
  obtain ⟨record, hrow, _, hholds⟩ := h.row_of_item hitem
  rcases (run_copySubscription_eq.mp hrun).2 with ⟨hnone, _⟩ | ⟨_, _, _, hcurrent, hcopy, hcases⟩
  · cases hrow.symm.trans hnone
  · obtain rfl := Option.some.inj (hrow.symm.trans hcurrent)
    cases (copyable_of_row hholds (hsource.trans hrow) hexpected).symm.trans hcopy
    rcases hcases with ⟨heq, _⟩ | ⟨_, _, hversion, _⟩
    · exact absurd heq hne
    · exact hversion.symm

end Copy

theorem guarded_putItem (h : w.tables.WellFormed syn) (hhas : (w.book syn).hasAccount owner)
    (hitem : (w.book syn).item owner item.jid = some item) :
    (putItem limits owner item subscription).Guarded w .valueTooLarge (w.tables.canAdvance owner) := by
  obtain ⟨record, hrow, _, hholds⟩ := h.row_of_item hitem
  have hencoded := encodeItem_patch hholds.value subscription
  have hsize : (if maxGroupsPerItem < item.groups.length then .error .quotaExceeded
      else encodedItemSize { item with subscription := subscription }) =
        (.ok (itemLen { item with subscription := subscription }) : Except RosterError Nat) := by
    rw [if_neg (Nat.not_lt.mpr hholds.groups), encodedItemSize_of_encodeItem hencoded]
  have hadmit : admitItem w.tables.items owner.text (itemKey owner item.jid)
      (itemLen { item with subscription := subscription }) (quota limits owner) = .ok () := by
    rw [show itemLen { item with subscription := subscription } = record.length from
      (length_encodeItem hholds.value).symm]
    exact admitItem_of_le hrow le_rfl hholds.size
  refine Tx.Guarded.andThen ?_ fun _ _ _ => Tx.succeeds_pure.mpr trivial
  rw [putRosterItem, guarded_query hsize, guarded_checkAccount hhas,
    guarded_query hadmit, guarded_query hencoded, guarded_update]
  exact guarded_advanceVersion (w := ⟨w.committed, _⟩)

/-- Either way of changing an item that is there. The snapshot matters only when the item is over the
quota. -/
theorem guarded_rewriteItem (h : w.tables.WellFormed syn) (hhas : (w.book syn).hasAccount owner)
    (hitem : (w.book syn).item owner jid = some item)
    (hsource : w.committed.items.get? (itemKey owner jid) = w.tables.items.get? (itemKey owner jid))
    (hne : item.subscription ≠ subscription) :
    (rewriteItem limits owner jid item.subscription subscription).Guarded w .valueTooLarge
      (w.tables.canAdvance owner) := by
  have hjid := h.itemAt_jid hitem
  have hread : (query fun t => t.rosterItem owner jid (quota limits owner)).run w =
      (w.tables.rosterItem owner jid (quota limits owner), w) := rfl
  rw [rewriteItem, Tx.guarded_bind_of_ok (Tx.run_outcome_eq.mpr hread)]
  rcases h.rosterItem_cases owner jid (quota limits owner) with hok | ⟨herror, _⟩
  · rw [hok, show itemAt w.tables owner jid = some item from hitem]
    subst hjid
    exact guarded_putItem h hhas hitem
  · rw [herror]
    have hexpected : ∀ subscription ∈ some item.subscription, item.subscription = subscription :=
      fun _ heq => Option.some.inj heq
    have htransition : (transitionRosterSubscription owner jid item.subscription subscription).Guarded w
        .valueTooLarge (w.tables.canAdvance owner) :=
      (Tx.guarded_bind_of_ok (Tx.run_read_eq.mpr ⟨rfl, rfl⟩)).mpr
        (guarded_copySubscription h hitem hsource hexpected hne hhas)
    refine htransition.andThen fun version w' hrun => ?_
    rw [version_of_copySubscription h hitem hsource hexpected hne hrun]
    exact ⟨_, _, rfl⟩

theorem changes_iff {old : RosterSubscription} : (changeOf (some old) f).isSome ↔ applied f old ≠ old := by
  rw [changeOf, Option.getD_some, applied]
  cases f old with
  | none => simp
  | some subscription =>
    by_cases heq : subscription = old
    · simp [heq]
    · simp [heq, show ¬ old = subscription from fun h => heq h.symm]

theorem guarded_updateExisting (h : w.tables.WellFormed syn) (hhas : (w.book syn).hasAccount owner)
    (hsource : w.committed.items.get? (itemKey owner jid) = w.tables.items.get? (itemKey owner jid)) :
    (updateExistingSubscription limits owner jid f).Guarded w .valueTooLarge
      ((w.book syn).Changes owner jid f → (w.book syn).CanAdvance owner) := by
  rw [updateExistingSubscription, guarded_query (h.rosterSubscription_book owner jid)]
  cases hitem : (w.book syn).item owner jid with
  | none =>
    have hsub : (w.book syn).sub owner jid = none := by rw [Book.sub, hitem, Option.map_none]
    rw [hsub]
    refine .of_succeeds (Tx.succeeds_pure.mpr trivial) ?_
    rintro ⟨old, hold, _⟩
    cases hsub.symm.trans hold
  | some item =>
    have hsub : (w.book syn).sub owner jid = some item.subscription := by
      rw [Book.sub, hitem, Option.map_some]
    have hchanges : (w.book syn).Changes owner jid f ↔ (changeOf (some item.subscription) f).isSome := by
      rw [changes_iff, Book.Changes, hsub]
      simp
    rw [hsub, hchanges]
    simp only [writeSubscription]
    cases hchange : changeOf (some item.subscription) f with
    | none => exact .of_succeeds (Tx.succeeds_pure.mpr trivial) fun hsome => by cases hsome
    | some subscription =>
      have hne : item.subscription ≠ subscription := fun heq =>
        (changeOf_eq_some.mp hchange).2 (by rw [heq])
      simp only [Option.isSome_some, true_imp_iff]
      exact guarded_rewriteItem h hhas hitem hsource hne

/-! ### Both sides of a removal -/

section Rounds

variable {X O : AccountKey syn} {contact : RosterJid syn} {account : Option (AccountKey syn)}

namespace Book

/-- The version of the other party can advance, if the other party's item changes. -/
def UpdateFits (b : Book syn) (X : AccountKey syn) (account : Option (AccountKey syn))
    (f : RosterSubscription → Option RosterSubscription) : Prop :=
  ∀ O ∈ account, O ≠ X → b.Changes O X.jid f → b.CanAdvance O

/-- The versions that a removal advances can advance. -/
def RemovalFits (b : Book syn) (X : AccountKey syn) (contact : RosterJid syn)
    (account : Option (AccountKey syn)) : Prop :=
  (b.item X contact).isSome → b.CanAdvance X ∧ b.UpdateFits X account cleared

end Book

variable {b : Book syn}

theorem SameRows.updateFits {b' : Book syn} (h : SameRows (fun o _ => o = X) b b')
    (f : RosterSubscription → Option RosterSubscription) (account : Option (AccountKey syn)) :
    b'.UpdateFits X account f ↔ b.UpdateFits X account f := by
  have hitem (O : AccountKey syn) (hO : O ≠ X) : b'.Changes O X.jid f ↔ b.Changes O X.jid f := by
    rw [Book.Changes, Book.sub, h.item O X.jid hO, Book.Changes, Book.sub]
  have hversion (O : AccountKey syn) (hO : O ≠ X) : b'.CanAdvance O ↔ b.CanAdvance O := by
    rw [Book.CanAdvance, h.version O fun _ => hO, Book.CanAdvance]
  constructor
  · intro hfits O hmem hO hchanges
    exact (hversion O hO).mp (hfits O hmem hO ((hitem O hO).mpr hchanges))
  · intro hfits O hmem hO hchanges
    exact (hversion O hO).mpr (hfits O hmem hO ((hitem O hO).mp hchanges))

theorem guarded_removeRow {α : Type} {decode : Bytes → Except RosterError α} (h : w.tables.WellFormed syn)
    (hdecode : ∀ record, w.tables.items.get? (itemKey owner jid) = some record → ∃ value, decode record = .ok value)
    (hitem : ((w.book syn).item owner jid).isSome) :
    (removeRow owner jid decode).Guarded w .valueTooLarge ((w.book syn).CanAdvance owner) := by
  obtain ⟨item, hitem⟩ := Option.isSome_iff_exists.mp hitem
  obtain ⟨record, hrow, _⟩ := h.row_of_item hitem
  obtain ⟨value, hvalue⟩ := hdecode record hrow
  rw [removeRow, guarded_lookup, guarded_update, hrow, guarded_query hvalue]
  exact (guarded_advanceVersion (w := ⟨w.committed, _⟩)).andThen fun _ _ _ => Tx.succeeds_pure.mpr trivial

theorem exists_decodeSubscription (h : w.tables.WellFormed syn) (record : Bytes)
    (hrow : w.tables.items.get? (itemKey owner jid) = some record) :
    ∃ subscription, decodeSubscription record = .ok subscription := by
  obtain ⟨item, _, hholds⟩ := h.encoded owner jid record hrow
  exact ⟨_, decodeSubscription_encodeItem hholds.value⟩

theorem updateFits_of_self (hself : ∀ O ∈ account, O = X) : b.UpdateFits X account f :=
  fun O hmem hne => absurd (hself O hmem) hne

theorem updateFits_some (hO : O ≠ X) : b.UpdateFits X (some O) f ↔ (b.Changes O X.jid f → b.CanAdvance O) := by
  constructor
  · intro hfits
    exact hfits O rfl hO
  · intro hfits O' hmem _
    cases hmem
    exact hfits

theorem guarded_clearContact (h : w.tables.WellFormed syn) (hhas : ∀ O ∈ account, (w.book syn).hasAccount O)
    (hsource : ∀ O ∈ account, O ≠ X → w.committed.items.get? (itemKey O X.jid) = w.tables.items.get? (itemKey O X.jid))
    : (clearContact limits X account).Guarded w .valueTooLarge ((w.book syn).UpdateFits X account cleared) := by
  cases account with
  | none => exact .of_succeeds (Tx.succeeds_pure.mpr trivial) (updateFits_of_self fun _ hnone => by cases hnone)
  | some O =>
    simp only [clearContact]
    by_cases hO : O = X
    · rw [if_pos hO]
      apply Tx.Guarded.of_succeeds (Tx.succeeds_pure.mpr trivial)
      apply updateFits_of_self
      intro O' hmem
      rw [← Option.some.inj hmem, hO]
    · have h' := h.withoutRequest O X.jid
      rw [if_neg hO, updateFits_some hO, guarded_removePending, guarded_query (h'.rosterSubscription_book O X.jid)]
      exact (guarded_updateExisting (w := ⟨w.committed, _⟩) h' (hhas O rfl) (hsource O rfl hO)).andThen
        fun _ _ _ => Tx.succeeds_pure.mpr trivial

theorem guarded_removeItem {t : Tables} (h : t.WellFormed syn) (hhas : ∀ O ∈ account, (t.book syn).hasAccount O) :
    (removeItem limits X contact account).Guarded ⟨t, t⟩ .valueTooLarge
      ((t.book syn).RemovalFits X contact account) := by
  rw [Book.RemovalFits]
  cases hitem : (t.book syn).item X contact with
  | none =>
    have hrun : (removeRosterSubscription X contact).run ⟨t, t⟩ = (.ok none, ⟨t, t⟩) :=
      run_removeRow_eq.mpr (.inl ⟨h.itemAt_eq_none.mp hitem, rfl, rfl⟩)
    rw [removeItem, Tx.guarded_bind_of_ok hrun]
    exact .of_succeeds (Tx.succeeds_pure.mpr trivial) fun hsome => by cases hsome
  | some item =>
    have hguarded : (removeRosterSubscription X contact).Guarded ⟨t, t⟩ .valueTooLarge
        ((t.book syn).CanAdvance X) :=
      guarded_removeRow (w := ⟨t, t⟩) h (fun record hrow => exists_decodeSubscription h record hrow) (by simp [hitem])
    simp only [Option.isSome_some, true_imp_iff]
    refine hguarded.bind fun removed w₁ hremove => ?_
    rcases run_removeRow_eq.mp hremove with ⟨hnone, _⟩ | ⟨_, _, _, _, _, rfl, rfl⟩
    · cases (h.itemAt_eq_none.mpr hnone).symm.trans hitem
    · have h' := (h.withoutItem X contact).withoutRequest X contact
      have hrows : SameRows (fun o _ => o = X) (t.book syn)
          (((t.withoutItem X contact).withoutRequest X contact).book syn) := by
        rw [book_withoutRequest, book_withoutItem]
        exact (SameRows.setItem rfl none).trans (.setRequest rfl none)
      rw [← hrows.updateFits cleared account]
      refine guarded_removePending.mpr ?_
      refine (guarded_clearContact (w := ⟨t, _⟩) h' (fun O hmem => ?_)
        (fun O _ hO => row_eq_of_item_eq h h' (hrows.item O X.jid hO).symm)).andThen
          fun _ _ _ => Tx.succeeds_pure.mpr trivial
      show (((t.withoutItem X contact).withoutRequest X contact).book syn).hasAccount O
      rw [hrows.hasAccount]
      exact hhas O hmem

theorem guarded_cancelSubscription {t : Tables} (h : t.WellFormed syn) (hhas : ∀ O ∈ account, (t.book syn).hasAccount O)
    (hasked : (t.book syn).asked X contact = true) (hitem : (t.book syn).item X contact = none) :
    (cancelSubscription limits X contact account).Guarded ⟨t, t⟩ .valueTooLarge
      ((t.book syn).UpdateFits X account withdrawOutbound) := by
  have h' := h.withoutRequest X contact
  have hrows : SameRows (fun o _ => o = X) (t.book syn) ((t.withoutRequest X contact).book syn) := by
    rw [book_withoutRequest]
    exact .setRequest rfl none
  have hsub : (t.withoutRequest X contact).rosterSubscription X contact = .ok none := by
    rw [h'.rosterSubscription_eq, show itemAt (t.withoutRequest X contact) X contact = none from hitem]
    rfl
  have hown (both : Bool) : (updateExistingSubscription limits X contact (cancelled both)).run
      ⟨t, t.withoutRequest X contact⟩ = (.ok none, ⟨t, t.withoutRequest X contact⟩) := by
    rw [updateExistingSubscription, Tx.run_bind_of_ok (run_query_eq.mpr ⟨hsub, rfl⟩)]
    rfl
  have hexists : t.pendingRequestExists X contact = true := hasked
  rw [cancelSubscription, guarded_removePending, hexists, guarded_query hsub, Tx.guarded_bind_of_ok (hown _),
    ← hrows.updateFits withdrawOutbound account]
  refine Tx.Guarded.andThen ?_ fun _ _ _ => Tx.succeeds_pure.mpr trivial
  cases account with
  | none => exact .of_succeeds ⟨none, _, rfl⟩ (updateFits_of_self fun _ hnone => by cases hnone)
  | some O =>
    by_cases hO : O = X
    · subst hO
      refine .of_succeeds ⟨none, ⟨t, t.withoutRequest O contact⟩, ?_⟩ (updateFits_of_self fun O' hmem => ?_)
      · simp [updateOther]
      · exact (Option.some.inj hmem).symm
    · have hne : (some O == some X) = false := beq_eq_false_iff_ne.mpr fun heq => hO (Option.some.inj heq)
      rw [updateFits_some hO, hne]
      exact guarded_updateExisting (w := ⟨t, _⟩) h' (hhas O rfl) (row_eq_of_item_eq h h' (hrows.item O X.jid hO).symm)

/-! ### Rounds of a deletion -/

variable {before : Tables} {hosts : HostLookup}

theorem cleanupVersion_eq_ok {version : Nat} :
    cleanupVersion before O = .ok version ↔
      before.rosterVersion O + 1 < wordSize ∧ before.rosterVersion O + 1 = version := by
  rw [cleanupVersion, orTooLarge_eq_ok, checkedAdd_eq_some]

theorem guarded_patchCounterpart (g : RosterSubscription → RosterSubscription) (h : w.tables.WellFormed syn)
    (hbefore : before.WellFormed syn) (hhas : (w.book syn).hasAccount O)
    (hitem : (w.book syn).item O X.jid = (before.book syn).item O X.jid)
    (hversion : (w.book syn).version O = (before.book syn).version O) :
    (patchCounterpart before X O (((before.book syn).sub O X.jid).bind fun old =>
        whenChanged old (g old))).Guarded w .valueTooLarge
      ((w.book syn).Changes O X.jid (fun old => whenChanged old (g old)) →
        (w.book syn).CanAdvance O) := by
  have hsame : (w.book syn).sub O X.jid = (before.book syn).sub O X.jid := by
    rw [Book.sub, hitem]
    rfl
  have hversion : w.tables.rosterVersion O = before.rosterVersion O := hversion
  rw [Book.Changes, hsame]
  cases hsome : (before.book syn).item O X.jid with
  | none =>
    have hsub : (before.book syn).sub O X.jid = none := by rw [Book.sub, hsome, Option.map_none]
    rw [hsub]
    refine .of_succeeds (Tx.succeeds_pure.mpr trivial) ?_
    rintro ⟨old, hold, _⟩
    cases hold
  | some item =>
    have hsub : (before.book syn).sub O X.jid = some item.subscription := by
      rw [Book.sub, hsome, Option.map_some]
    rw [hsub, Option.bind_some, whenChanged]
    by_cases hunchanged : g item.subscription = item.subscription
    · rw [if_neg (not_not.mpr hunchanged)]
      refine .of_succeeds (Tx.succeeds_pure.mpr trivial) ?_
      rintro ⟨old, hold, hne⟩
      cases hold
      simp [applied, whenChanged, hunchanged] at hne
    · have hchanges : ∃ old, some item.subscription = some old ∧
          applied (fun old => whenChanged old (g old)) old ≠ old :=
        ⟨_, rfl, by simp [applied, whenChanged, hunchanged]⟩
      have hnone : ∀ subscription ∈ (none : Option RosterSubscription), item.subscription = subscription :=
        fun _ hmem => by cases hmem
      have hsource := row_eq_of_item_eq hbefore h hitem.symm
      rw [if_pos hunchanged, forall_prop_of_true hchanges]
      by_cases hfits : (w.book syn).CanAdvance O
      · have hadvance : w.tables.rosterVersion O + 1 < wordSize := hfits
        rw [hversion] at hadvance
        rw [patchCounterpart, guarded_query (cleanupVersion_eq_ok.mpr ⟨hadvance, rfl⟩)]
        have hset : (setRosterSubscription before O X.jid (g item.subscription)).Guarded w .valueTooLarge
            (w.tables.canAdvance O) :=
          guarded_copySubscription h (hitem.trans hsome) hsource hnone (Ne.symm hunchanged) hhas
        refine hset.andThen fun version w' hrun => ?_
        rw [version_of_copySubscription h (hitem.trans hsome) hsource hnone (Ne.symm hunchanged) hrun, hversion,
          if_pos rfl]
        exact Tx.succeeds_pure.mpr trivial
      · -- the version that is expected does not exist, and is computed first
        refine ⟨fun hfits' => absurd hfits' hfits, fun _ =>
          ⟨w, Tx.run_bind_of_error (run_query_error.mpr ⟨?_, rfl⟩)⟩⟩
        rw [cleanupVersion, orTooLarge_eq_error, checkedAdd_eq_none]
        rw [← hversion]
        exact ⟨Nat.le_of_not_lt hfits, rfl⟩

section Forget

variable {rest : List (RosterJid syn)} (hbefore : before.WellFormed syn) (h : w.tables.WellFormed syn)
  (hhas : ∀ O, counterpartOf hosts before X contact = some O → (w.book syn).hasAccount O)
  (hfresh : Fresh X (counterpartOf hosts before X) (before.book syn) (w.book syn) (contact :: rest))
include hbefore hhas hfresh

/-- The contact's part of a round, when the owner's rows are gone. -/
theorem guarded_cleanupCounterpart (own : Option RosterSubscription) (pending : Bool) {w₁ : Write}
    (h₁ : w₁.tables.WellFormed syn) (hrows : SameRows (fun o _ => o = X) (w.book syn) (w₁.tables.book syn)) :
    (cleanupCounterpart before X (cleanupProjection own pending ((counterpartOf hosts before X contact).bind
        fun account => (before.book syn).sub account X.jid)) (counterpartOf hosts before X contact)).Guarded w₁
      .valueTooLarge ((w.book syn).UpdateFits X (counterpartOf hosts before X contact) fun old =>
        whenChanged old (projected own old)) := by
  rw [← hrows.updateFits]
  cases hparty : counterpartOf hosts before X contact with
  | none => exact .of_succeeds (Tx.succeeds_pure.mpr trivial) (updateFits_of_self fun _ hnone => by cases hnone)
  | some O =>
    have hO : O ≠ X := (counterpartOf_eq_some.mp hparty).2.2.2
    have hhas₁ : (w₁.book syn).hasAccount O := by
      rw [hrows.hasAccount]
      exact hhas O hparty
    have hitem := (hrows.item O X.jid hO).trans (hfresh.other contact List.mem_cons_self O hparty)
    have hversion := (hrows.version O fun _ => hO).trans (hfresh.version contact List.mem_cons_self O hparty)
    rw [updateFits_some hO]
    cases own with
    | none => exact guarded_patchCounterpart (projected none) h₁ hbefore hhas₁ hitem hversion
    | some subscription =>
      refine guarded_removePending.mpr ?_
      exact guarded_patchCounterpart (w := ⟨w₁.committed, _⟩) (projected (some subscription))
        (h₁.withoutRequest O X.jid) hbefore hhas₁ hitem hversion

include h

theorem guarded_forgetItem (hown : ((before.book syn).item X contact).isSome) :
    (forgetItem hosts before X contact subscription).Guarded w .valueTooLarge
      ((w.book syn).RemovalFits X contact (counterpartOf hosts before X contact)) := by
  have hown : ((w.book syn).item X contact).isSome := by
    rw [hfresh.own contact List.mem_cons_self]
    exact hown
  rw [Book.RemovalFits, forall_prop_of_true hown, forgetItem, guarded_query (counterpartView_eq hbefore _)]
  have hguarded : (removeRosterSubscription X contact).Guarded w .valueTooLarge ((w.book syn).CanAdvance X) :=
    guarded_removeRow h (fun record hrow => exists_decodeSubscription h record hrow) hown
  refine hguarded.bind fun removed w₁ hremove => ?_
  have hremove := removeRow_leads h hremove
  refine guarded_removePending.mpr ?_
  refine guarded_cleanupCounterpart hbefore hhas hfresh (some subscription) _
    (hremove.wellFormed.withoutRequest X contact) ?_
  rw [book_withoutRequest, ← Write.book, hremove.book]
  exact (SameRows.removeItem rfl).trans (.setRequest rfl none)

theorem guarded_forgetRequest (hnone : (before.book syn).item X contact = none) :
    (forgetRequest hosts before X contact).Guarded w .valueTooLarge
      ((w.book syn).UpdateFits X (counterpartOf hosts before X contact) withdrawOutbound) := by
  have hown : before.rosterSubscription X contact = .ok none := by
    rw [hbefore.rosterSubscription_eq, show itemAt before X contact = none from hnone]
    rfl
  rw [forgetRequest, guarded_query hown]
  refine (guarded_query (counterpartView_eq hbefore _)).mpr ?_
  refine guarded_removePending.mpr ?_
  refine guarded_cleanupCounterpart hbefore hhas hfresh none true (h.withoutRequest X contact) ?_
  rw [book_withoutRequest]
  exact .setRequest rfl none

end Forget

end Rounds

end Lonewolf.Roster
