import Lonewolf.Roster.Book

/-!
# What a roster write does

For each write of `roster/redb.rs`, when it succeeds and what it leaves, also when it fails. On the book, a write
changes one item or one request of one owner and advances the owner's version; the tables stay well formed. A write
that fails has changed nothing yet, except that the version is advanced after the row is written: an owner whose
version counter is exhausted can be left with a changed row, in a transaction that has not been committed.
-/

namespace Lonewolf.Roster

open Texts SortedTables SortedTable Transactions

variable {syn : JidSyntax} {owner : AccountKey syn} {jid : RosterJid syn} {t : Tables} {w w' : Write}

/-! ### Changes of the tables -/

namespace Tables

variable (t : Tables) (owner : AccountKey syn)

def withItem (jid : RosterJid syn) (record : Bytes) : Tables :=
  { t with
    items := t.items.insert (itemKey owner jid) record
    versions := t.versions.insert owner.text (t.rosterVersion owner + 1) }

def withoutItem (jid : RosterJid syn) : Tables :=
  { t with
    items := t.items.erase (itemKey owner jid)
    versions := t.versions.insert owner.text (t.rosterVersion owner + 1) }

def withRequest (request : PendingSubscription syn) : Tables :=
  { t with pending := t.pending.insert (itemKey owner request.sender) request.stanza }

def withoutRequest (sender : RosterJid syn) : Tables :=
  { t with pending := t.pending.erase (itemKey owner sender) }

def cleared : Tables :=
  { t with
    items := t.items.filterKeys fun key => !inOwnerRange owner.text key
    pending := t.pending.filterKeys fun key => !inOwnerRange owner.text key
    versions := t.versions.erase owner.text }

end Tables

/-! ### Outcomes -/

variable {e : RosterError} {u : Unit} {α : Type}

@[simp] theorem run_update_eq {f : Tables → Tables} :
    (update f).run w = (.ok u, w') ↔ ⟨w.committed, f w.tables⟩ = w' := by
  simp [update]

variable {f : Tables → Except RosterError α} {a : α}

@[simp] theorem run_query_eq : (query f).run w = (.ok a, w') ↔ f w.tables = .ok a ∧ w = w' := by
  simp [query]

@[simp] theorem run_update_error {f : Tables → Tables} : (update f).run w = (.error e, w') ↔ False := by
  simp [update]

@[simp] theorem run_query_error : (query f).run w = (.error e, w') ↔ f w.tables = .error e ∧ w = w' := by
  simp [query]

theorem run_checkAccount_eq :
    (checkAccount owner.text).run w = (.ok u, w') ↔ owner.text ∈ w.tables.accounts ∧ w = w' := by
  rw [checkAccount, run_query_eq]
  split <;> simp [*]

/-- The owner's version can still advance. -/
def Tables.canAdvance (t : Tables) (owner : AccountKey syn) : Prop := t.rosterVersion owner + 1 < wordSize

instance (t : Tables) (owner : AccountKey syn) : Decidable (t.canAdvance owner) :=
  inferInstanceAs (Decidable (_ < _))

theorem run_advanceVersion_eq {version : Nat} :
    (advanceVersion owner.text).run w = (.ok version, w') ↔
      w.tables.canAdvance owner ∧ w.tables.rosterVersion owner + 1 = version ∧
        ⟨w.committed, { w.tables with
          versions := w.tables.versions.insert owner.text (w.tables.rosterVersion owner + 1) }⟩ = w' := by
  simp [advanceVersion, orTooLarge_eq_ok, checkedAdd_eq_some, Tables.canAdvance, Tables.rosterVersion, and_assoc]

theorem run_advanceVersion_error :
    (advanceVersion owner.text).run w = (.error e, w') ↔ ¬ w.tables.canAdvance owner ∧ .valueTooLarge = e ∧ w = w' := by
  simp [advanceVersion, orTooLarge_eq_error, checkedAdd_eq_none, Tables.canAdvance, Tables.rosterVersion, and_assoc]

variable {item : RosterItem syn}

theorem encodedItemSize_of_encodeItem {encoded : Bytes}
    (h : encodeItem item = .ok encoded) : encodedItemSize item = .ok (itemLen item) := by
  obtain ⟨⟨size, hsize⟩, _⟩ := encodeItem_eq_ok.mp h
  rw [hsize, (encodedItemSize_eq_ok hsize).1]

variable {quota : RosterQuota}

theorem run_putRosterItem_eq {version : Nat} :
    (putRosterItem owner item quota).run w = (.ok version, w') ↔
      item.groups.length ≤ maxGroupsPerItem ∧ owner.text ∈ w.tables.accounts ∧
        admitItem w.tables.items owner.text (itemKey owner item.jid) (itemLen item) quota = .ok () ∧
        w.tables.canAdvance owner ∧ w.tables.rosterVersion owner + 1 = version ∧
        ∃ encoded, encodeItem item = .ok encoded ∧ ⟨w.committed, w.tables.withItem owner item.jid encoded⟩ = w' := by
  simp only [putRosterItem, Tx.run_bind_eq, run_query_eq, run_checkAccount_eq, run_update_eq, run_advanceVersion_eq]
  constructor
  · rintro ⟨size, _, ⟨hsize, rfl⟩, _, _, ⟨haccount, rfl⟩, _, _, ⟨hfits, rfl⟩, encoded, _, ⟨hencoded, rfl⟩, _, _,
      rfl, hadvance, hversion, hw⟩
    split at hsize
    · cases hsize
    · rw [encodedItemSize_of_encodeItem hencoded] at hsize
      cases hsize
      exact ⟨Nat.le_of_not_lt ‹_›, haccount, hfits, hadvance, hversion, encoded, hencoded, hw⟩
  · rintro ⟨hgroups, haccount, hfits, hadvance, hversion, encoded, hencoded, hw⟩
    refine ⟨itemLen item, w, ⟨?_, rfl⟩, (), w, ⟨haccount, rfl⟩, (), w, ⟨hfits, rfl⟩, encoded, w,
      ⟨hencoded, rfl⟩, (), _, rfl, hadvance, hversion, hw⟩
    rw [if_neg (Nat.not_lt.mpr hgroups), encodedItemSize_of_encodeItem hencoded]

theorem run_checkAccount_error :
    (checkAccount owner.text).run w = (.error e, w') ↔ owner.text ∉ w.tables.accounts ∧ .noAccount = e ∧ w = w' := by
  rw [checkAccount, run_query_error]
  split <;> simp [*]

/-- What a failed write leaves: nothing has changed, or the owner's version could not advance. -/
def Spared (owner : AccountKey syn) (w w' : Write) : Prop :=
  w'.committed = w.committed ∧ (w'.tables = w.tables ∨ ¬ w.tables.canAdvance owner)

theorem Spared.refl (owner : AccountKey syn) (w : Write) : Spared owner w w := ⟨rfl, .inl rfl⟩

theorem spared_putRosterItem (h : (putRosterItem owner item quota).run w = (.error e, w')) : Spared owner w w' := by
  simp only [putRosterItem, Tx.run_bind_error, run_query_error, run_query_eq,
    run_checkAccount_error, run_checkAccount_eq, run_update_error, run_update_eq, run_advanceVersion_error,
    false_or] at h
  rcases h with ⟨_, rfl⟩ | ⟨_, _, ⟨_, rfl⟩, ⟨_, _, rfl⟩ | ⟨_, _, ⟨_, rfl⟩, ⟨_, rfl⟩ | ⟨_, _, ⟨_, rfl⟩,
    ⟨_, rfl⟩ | ⟨_, _, ⟨_, rfl⟩, _, _, rfl, hadvance, _, rfl⟩⟩⟩⟩
  · exact .refl owner w
  · exact .refl owner w
  · exact .refl owner w
  · exact .refl owner w
  · exact ⟨rfl, .inr hadvance⟩

variable {expected : Option RosterSubscription} {source : Tables}

theorem copyable_eq_ok {key : Text} {current bytes : Bytes} {old : RosterSubscription}
    (h : copyable source key expected current = .ok (old, bytes)) :
    decodeSubscription current = .ok old ∧ bytes.drop 2 = current.drop 2 := by
  simp only [copyable, except_bind_eq_ok] at h
  obtain ⟨found, _, decoded, hdecoded, _, _, h⟩ := h
  split at h
  · rename_i hagree
    cases h
    refine ⟨hdecoded, ?_⟩
    cases expected with
    | none => rw [of_decide_eq_true hagree]
    | some expected => exact (of_decide_eq_true (Bool.and_eq_true_iff.mp hagree).2).symm
  · cases h

variable {subscription : RosterSubscription} {version : Option Nat}

theorem run_copySubscription_eq :
    (copySubscription source owner.text (itemKey owner jid) expected subscription).run w =
        (.ok version, w') ↔
      owner.text ∈ w.tables.accounts ∧
        (w.tables.items.get? (itemKey owner jid) = none ∧ none = version ∧ w = w' ∨
          ∃ current old bytes, w.tables.items.get? (itemKey owner jid) = some current ∧
            copyable source (itemKey owner jid) expected current = .ok (old, bytes) ∧
            (old = subscription ∧ none = version ∧ w = w' ∨
              old ≠ subscription ∧ w.tables.canAdvance owner ∧
                some (w.tables.rosterVersion owner + 1) = version ∧
                ⟨w.committed, w.tables.withItem owner jid (patchSubscription bytes subscription)⟩ = w')) := by
  simp only [copySubscription, Tx.run_bind_eq, run_checkAccount_eq, run_query_eq, Except.ok.injEq]
  constructor
  · rintro ⟨_, _, ⟨haccount, rfl⟩, found, _, ⟨hfound, rfl⟩, h⟩
    refine ⟨haccount, ?_⟩
    cases found with
    | none => exact .inl ⟨hfound, Tx.run_pure_eq.mp h⟩
    | some current =>
      simp only [Tx.run_bind_eq, run_query_eq, Tx.run_ite_eq, Tx.run_pure_eq, run_update_eq, run_advanceVersion_eq] at h
      obtain ⟨⟨old, bytes⟩, _, ⟨hcopy, rfl⟩, h⟩ := h
      refine .inr ⟨current, old, bytes, hfound, hcopy, h.imp id ?_⟩
      intro hchange
      obtain ⟨hne, _, _, rfl, _, _, ⟨hadvance, rfl, rfl⟩, hversion, hw⟩ := hchange
      exact ⟨hne, hadvance, hversion, hw⟩
  · rintro ⟨haccount, h⟩
    refine ⟨(), w, ⟨haccount, rfl⟩, w.tables.items.get? (itemKey owner jid), w, ⟨rfl, rfl⟩, ?_⟩
    rcases h with ⟨hfound, h⟩ | ⟨current, old, bytes, hfound, hcopy, h⟩
    · simpa only [hfound, Tx.run_pure_eq] using h
    · simp only [hfound, Tx.run_bind_eq, run_query_eq, Tx.run_ite_eq, Tx.run_pure_eq, run_update_eq,
        run_advanceVersion_eq]
      refine ⟨(old, bytes), w, ⟨hcopy, rfl⟩, h.imp id ?_⟩
      rintro ⟨hne, hadvance, hversion, hw⟩
      exact ⟨hne, (), _, rfl, _, _, ⟨hadvance, rfl, rfl⟩, hversion, hw⟩

theorem spared_copySubscription
    (h : (copySubscription source owner.text (itemKey owner jid) expected subscription).run w = (.error e, w')) :
    Spared owner w w' := by
  simp only [copySubscription, Tx.run_bind_error, run_query_error, run_query_eq, run_checkAccount_error,
    run_checkAccount_eq, Except.ok.injEq, reduceCtorEq, false_and, false_or] at h
  rcases h with ⟨_, _, rfl⟩ | ⟨_, _, ⟨_, rfl⟩, current, _, ⟨_, rfl⟩, h⟩
  · exact .refl owner w
  · cases current with
    | none => simp at h
    | some current =>
      simp only [Tx.run_bind_error, run_query_error, run_query_eq, Tx.run_ite_error, Tx.run_pure_error,
        run_update_error, run_update_eq, run_advanceVersion_error, and_false, false_or, exists_false,
        or_false] at h
      rcases h with ⟨_, rfl⟩ | ⟨_, _, ⟨_, rfl⟩, _, _, _, rfl, hadvance, _, rfl⟩
      · exact .refl owner w
      · exact ⟨rfl, .inr hadvance⟩

variable {decode : Bytes → Except RosterError α} {removed : Option (RosterMutation α)}

theorem run_removeRow_eq :
    (removeRow owner jid decode).run w = (.ok removed, w') ↔
      w.tables.items.get? (itemKey owner jid) = none ∧ none = removed ∧ w = w' ∨
        ∃ record value, w.tables.items.get? (itemKey owner jid) = some record ∧ decode record = .ok value ∧
          w.tables.canAdvance owner ∧ some ⟨w.tables.rosterVersion owner + 1, value⟩ = removed ∧
          ⟨w.committed, w.tables.withoutItem owner jid⟩ = w' := by
  simp only [removeRow, Tx.run_bind_eq, run_query_eq, run_update_eq, Except.ok.injEq]
  constructor
  · rintro ⟨found, _, ⟨hfound, rfl⟩, _, _, rfl, h⟩
    cases found with
    | none =>
      obtain ⟨hremoved, rfl⟩ := Tx.run_pure_eq.mp h
      exact .inl ⟨hfound, hremoved, by rw [erase_eq_self hfound]⟩
    | some record =>
      simp only [Tx.run_bind_eq, run_query_eq, Tx.run_pure_eq, run_advanceVersion_eq] at h
      obtain ⟨value, _, ⟨hvalue, rfl⟩, _, _, ⟨hadvance, rfl, rfl⟩, hremoved, hw⟩ := h
      exact .inr ⟨record, value, hfound, hvalue, hadvance, hremoved, hw⟩
  · intro h
    refine ⟨w.tables.items.get? (itemKey owner jid), w, ⟨rfl, rfl⟩, (), _, rfl, ?_⟩
    rcases h with ⟨hfound, hremoved, rfl⟩ | ⟨record, value, hfound, hvalue, hadvance, hremoved, hw⟩
    · rw [hfound, erase_eq_self hfound]
      exact Tx.run_pure_eq.mpr ⟨hremoved, rfl⟩
    · simp only [hfound, Tx.run_bind_eq, run_query_eq, Tx.run_pure_eq, run_advanceVersion_eq]
      exact ⟨value, _, ⟨hvalue, rfl⟩, _, _, ⟨hadvance, rfl, rfl⟩, hremoved, hw⟩

theorem spared_removeRow
    (hdecode : ∀ record, w.tables.items.get? (itemKey owner jid) = some record → ∃ value, decode record = .ok value)
    (h : (removeRow owner jid decode).run w = (.error e, w')) :
    w'.committed = w.committed ∧ ¬ w.tables.canAdvance owner := by
  simp only [removeRow, Tx.run_bind_error, run_query_error, run_query_eq, run_update_error, run_update_eq,
    Except.ok.injEq, reduceCtorEq, false_and, false_or] at h
  obtain ⟨found, _, ⟨hfound, rfl⟩, _, _, rfl, h⟩ := h
  cases found with
  | none => simp at h
  | some record =>
    obtain ⟨value, hvalue⟩ := hdecode record hfound
    simp only [Tx.run_bind_error, run_query_error, run_query_eq, run_advanceVersion_error,
      Tx.run_pure_error, hvalue, Except.ok.injEq, reduceCtorEq, false_and, false_or] at h
    obtain ⟨_, _, ⟨_, rfl⟩, ⟨hadvance, _, rfl⟩ | ⟨_, _, _, hfalse⟩⟩ := h
    · exact ⟨rfl, hadvance⟩
    · exact hfalse.elim

variable {request : PendingSubscription syn} {max : Nat}

theorem run_putPendingRequest_eq :
    (putPendingRequest owner request max).run w = (.ok u, w') ↔
      owner.text ∈ w.tables.accounts ∧
        (w.tables.pending.get? (itemKey owner request.sender) = none →
          (ownerEntries w.tables.pending owner.text).length < max) ∧
        ⟨w.committed, w.tables.withRequest owner request⟩ = w' := by
  simp only [putPendingRequest, Tx.run_bind_eq, run_checkAccount_eq, run_query_eq, run_update_eq]
  constructor
  · rintro ⟨_, _, ⟨haccount, rfl⟩, _, _, ⟨hroom, rfl⟩, hw⟩
    refine ⟨haccount, ?_, hw⟩
    intro hnone
    split at hroom
    · cases hroom
    · rename_i hfull
      exact Nat.lt_of_not_le fun hle => hfull ⟨hnone, hle⟩
  · rintro ⟨haccount, hroom, hw⟩
    refine ⟨(), w, ⟨haccount, rfl⟩, (), w, ⟨?_, rfl⟩, hw⟩
    apply if_neg
    rintro ⟨hnone, hle⟩
    exact absurd (hroom hnone) (Nat.not_lt.mpr hle)

theorem spared_putPendingRequest (h : (putPendingRequest owner request max).run w = (.error e, w')) : w' = w := by
  simp only [putPendingRequest, Tx.run_bind_error, run_query_error, run_query_eq, run_checkAccount_error,
    run_checkAccount_eq, run_update_error, and_false, exists_false, or_false] at h
  rcases h with ⟨_, _, rfl⟩ | ⟨_, _, ⟨_, rfl⟩, _, rfl⟩
  · rfl
  · rfl

variable {sender : RosterJid syn}

theorem run_removePendingRequest_eq {removed : Bool} :
    (removePendingRequest owner sender).run w = (.ok removed, w') ↔
      w.tables.pendingRequestExists owner sender = removed ∧
        ⟨w.committed, w.tables.withoutRequest owner sender⟩ = w' := by
  simp [removePendingRequest, Tables.withoutRequest]

theorem run_clearRoster_eq : (clearRoster owner).run w = (.ok u, w') ↔ ⟨w.committed, w.tables.cleared owner⟩ = w' := by
  rw [clearRoster, run_update_eq]
  rfl

/-! ### Effect on the book -/

theorem AccountKey.text_inj {owner owner' : AccountKey syn} : owner.text = owner'.text ↔ owner = owner' := by
  constructor
  · intro h
    exact AccountKey.jid_injective (RosterJid.ext h)
  · intro h
    rw [h]

theorem version_advanced (owner o : AccountKey syn) :
    ((t.versions.insert owner.text (t.rosterVersion owner + 1)).get? o.text).getD 0 =
      ((t.book syn).advance owner).version o := by
  simp only [get?_insert, AccountKey.text_inj, Book.advance, Tables.book, Tables.rosterVersion]
  by_cases ho : o = owner
  · simp [ho]
  · simp [ho]

variable {record : Bytes}

theorem HoldsItem.jid_eq (hitem : HoldsItem owner (itemKey owner jid, record) item) : jid = item.jid :=
  (itemKey_inj.mp hitem.key).2

theorem itemAt_insert (t : Tables) (hitem : HoldsItem owner (itemKey owner jid, record) item)
    (versions : SortedTable Text Nat) (o : AccountKey syn) (j : RosterJid syn) :
    itemAt { t with items := t.items.insert (itemKey owner jid) record, versions := versions } o j =
      if o = owner ∧ j = jid then some item else itemAt t o j := by
  simp only [itemAt, get?_insert, itemKey_inj]
  split
  · rename_i heq
    rw [heq.2, hitem.jid_eq, Option.bind_some, decodeItem_encodeItem hitem.value]
    rfl
  · rfl

theorem book_withItem (hitem : HoldsItem owner (itemKey owner jid, record) item) :
    (t.withItem owner jid record).book syn = ((t.book syn).setItem owner jid (some item)).advance owner := by
  ext1
  · rfl
  · funext o j
    exact itemAt_insert t hitem _ o j
  · rfl
  · funext o
    exact version_advanced owner o

theorem book_withoutItem (owner : AccountKey syn) (jid : RosterJid syn) :
    (t.withoutItem owner jid).book syn = ((t.book syn).setItem owner jid none).advance owner := by
  ext1
  · rfl
  · funext o j
    simp only [Tables.book, Tables.withoutItem, itemAt, get?_erase, itemKey_inj, Book.setItem, Book.advance]
    split <;> rfl
  · rfl
  · funext o
    exact version_advanced owner o

/-- The requests may be others in one place. -/
theorem book_setRequest {pending : SortedTable Text Bytes} {value : Option Bytes}
    (h : ∀ o j, pending.get? (itemKey o j) = ((t.book syn).setRequest owner sender value).request o j) :
    ({ t with pending := pending } : Tables).book syn = (t.book syn).setRequest owner sender value := by
  ext1
  · rfl
  · rfl
  · exact funext₂ h
  · rfl

theorem book_withRequest (owner : AccountKey syn) (request : PendingSubscription syn) :
    (t.withRequest owner request).book syn = (t.book syn).setRequest owner request.sender (some request.stanza) :=
  book_setRequest fun o j => by simp only [get?_insert, itemKey_inj, Book.setRequest, Tables.book]

theorem book_withoutRequest (owner : AccountKey syn) (sender : RosterJid syn) :
    (t.withoutRequest owner sender).book syn = (t.book syn).setRequest owner sender none :=
  book_setRequest fun o j => by simp only [get?_erase, itemKey_inj, Book.setRequest, Tables.book]

theorem get?_cleared (table : SortedTable Text Bytes) (owner o : AccountKey syn) (j : RosterJid syn) :
    (table.filterKeys fun key => !inOwnerRange owner.text key).get? (itemKey o j) =
      if o = owner then none else table.get? (itemKey o j) := by
  rw [get?_filterKeys]
  by_cases ho : o = owner
  · simp [ho, inOwnerRange_itemKey.mpr]
  · have hrange : inOwnerRange owner.text (itemKey o j) = false := by
      rw [Bool.eq_false_iff, ne_eq, inOwnerRange_itemKey]
      exact ho
    simp [ho, hrange]

theorem book_cleared (owner : AccountKey syn) : (t.cleared owner).book syn = (t.book syn).clear owner := by
  ext1
  · rfl
  · funext o j
    simp only [Tables.book, Tables.cleared, itemAt, get?_cleared, Book.clear]
    split <;> rfl
  · funext o j
    exact get?_cleared t.pending owner o j
  · funext o
    simp only [Tables.book, Tables.cleared, Tables.rosterVersion, get?_erase, AccountKey.text_inj, Book.clear]
    split <;> rfl

/-! ### The tables stay well formed -/

namespace Tables.WellFormed

section

variable (h : t.WellFormed syn)
include h

theorem withItem (hitem : HoldsItem owner (itemKey owner jid, record) item) :
    (t.withItem owner jid record).WellFormed syn where
  items := h.items.insert owner jid record
  pending := h.pending
  encoded o j found hfound := by
    rw [Tables.withItem, get?_insert] at hfound
    split at hfound
    · rename_i hkey
      obtain ⟨rfl, rfl⟩ := itemKey_inj.mp hkey
      cases hfound
      exact ⟨item, hitem.jid_eq.symm, hitem⟩
    · exact h.encoded o j found hfound

variable (owner : AccountKey syn)

theorem withoutItem (jid : RosterJid syn) :
    (t.withoutItem owner jid).WellFormed syn where
  items := h.items.filterKeys _
  pending := h.pending
  encoded o j found hfound := by
    rw [Tables.withoutItem, get?_erase] at hfound
    split at hfound
    · cases hfound
    · exact h.encoded o j found hfound

theorem withRequest (request : PendingSubscription syn) :
    (t.withRequest owner request).WellFormed syn where
  items := h.items
  pending := h.pending.insert owner request.sender request.stanza
  encoded := h.encoded

theorem withoutRequest (sender : RosterJid syn) :
    (t.withoutRequest owner sender).WellFormed syn where
  items := h.items
  pending := h.pending.filterKeys _
  encoded := h.encoded

theorem cleared : (t.cleared owner).WellFormed syn where
  items := h.items.filterKeys _
  pending := h.pending.filterKeys _
  encoded o j found hfound := by
    rw [Tables.cleared, get?_cleared] at hfound
    split at hfound
    · cases hfound
    · exact h.encoded o j found hfound

end

end Tables.WellFormed

/-! ### Writes on the book -/

/-- The book a transaction works on. -/
abbrev Write.book (syn : JidSyntax) (w : Write) : Book syn := w.tables.book syn

/-- The tables of a transaction have become ones that mean `b`. -/
structure Leads (w w' : Write) (b : Book syn) : Prop where
  wellFormed : w'.tables.WellFormed syn
  committed : w'.committed = w.committed
  book : w'.book syn = b

theorem Leads.refl (h : w.tables.WellFormed syn) : Leads w w (w.book syn) := ⟨h, rfl, rfl⟩

theorem orQuota_eq_ok {o : Option α} : orQuota o = .ok a ↔ o = some a := by
  cases o <;> simp [orQuota]

theorem admitItem_size {table : SortedTable Text Bytes} {key : Text} {encodedLen : Nat}
    (h : admitItem table owner.text key encodedLen quota = .ok u) : key.byteLen + encodedLen < wordSize := by
  simp only [admitItem, except_bind_eq_ok, orQuota_eq_ok, checkedAdd_eq_some] at h
  obtain ⟨_, ⟨hlt, _⟩, _⟩ := h
  exact hlt

theorem length_patchSubscription {bytes current : Bytes} {old : RosterSubscription}
    (hold : decodeSubscription current = .ok old) (hrest : bytes.drop 2 = current.drop 2)
    (subscription : RosterSubscription) : (patchSubscription bytes subscription).length = current.length := by
  obtain ⟨rest, rfl⟩ := decodeSubscription_eq_ok.mp hold
  rw [patchSubscription, hrest]
  simp [encodeSubscription]

theorem putRosterItem_leads {version : Nat}
    (h : w.tables.WellFormed syn) (hrun : (putRosterItem owner item quota).run w = (.ok version, w')) :
    Leads w w' (((w.book syn).setItem owner item.jid (some item)).advance owner) := by
  obtain ⟨hgroups, _, hfits, _, _, encoded, hencoded, rfl⟩ := run_putRosterItem_eq.mp hrun
  have hsize := admitItem_size hfits
  rw [← length_encodeItem hencoded] at hsize
  have hitem : HoldsItem owner (itemKey owner item.jid, encoded) item := ⟨rfl, hencoded, hgroups, hsize⟩
  exact ⟨h.withItem hitem, rfl, book_withItem hitem⟩

theorem HoldsItem.patch {key : Text} {current bytes : Bytes} (hitem : HoldsItem owner (key, current) item)
    (hrest : bytes.drop 2 = current.drop 2) (subscription : RosterSubscription) :
    HoldsItem owner (key, patchSubscription bytes subscription) { item with subscription := subscription } where
  key := hitem.key
  value := by
    have hpatch : patchSubscription bytes subscription = patchSubscription current subscription := by
      rw [patchSubscription, hrest, patchSubscription]
    rw [hpatch]
    exact encodeItem_patch hitem.value subscription
  groups := hitem.groups
  size := by
    have hlen := length_patchSubscription (decodeSubscription_encodeItem hitem.value) hrest subscription
    have hsize := hitem.size
    simp only at hlen hsize ⊢
    omega

section

variable (h : w.tables.WellFormed syn)
include h

variable {before : Tables}

theorem copySubscription_leads
    (hrun : (copySubscription before owner.text (itemKey owner jid) expected subscription).run w = (.ok version, w')) :
    Leads w w' ((w.book syn).setSubscription owner jid subscription) := by
  obtain ⟨_, hcases⟩ := run_copySubscription_eq.mp hrun
  rcases h.row_cases owner jid with ⟨hrow, hnone⟩ | ⟨current, item, hrow, hsome, rfl, hitem⟩
  · rcases hcases with ⟨_, _, rfl⟩ | ⟨_, _, _, hrow', _⟩
    · have hsame : (w.book syn).setSubscription owner jid subscription = w.book syn := by
        simp only [Book.setSubscription, Tables.book, hnone]
      rw [hsame]
      exact .refl h
    · rw [hrow] at hrow'
      cases hrow'
  · have hset : (w.book syn).setSubscription owner item.jid subscription =
        if item.subscription = subscription then w.book syn
        else ((w.book syn).setItem owner item.jid
          (some { item with subscription := subscription })).advance owner := by
      simp only [Book.setSubscription, Tables.book, hsome]
    rw [hset]
    rcases hcases with ⟨hrow', _⟩ | ⟨_, old, bytes, hrow', hcopy, hcases⟩
    · rw [hrow] at hrow'
      cases hrow'
    · rw [hrow] at hrow'
      cases hrow'
      obtain ⟨hold, hrest⟩ := copyable_eq_ok hcopy
      rw [decodeSubscription_encodeItem hitem.value] at hold
      cases hold
      rcases hcases with ⟨heq, _, rfl⟩ | ⟨hne, _, _, rfl⟩
      · rw [if_pos heq]
        exact .refl h
      · rw [if_neg hne]
        have hpatched := hitem.patch hrest subscription
        exact ⟨h.withItem hpatched, rfl, book_withItem hpatched⟩

theorem setRosterSubscription_leads
    (hrun : (setRosterSubscription before owner jid subscription).run w = (.ok version, w')) :
    Leads w w' ((w.book syn).setSubscription owner jid subscription) :=
  copySubscription_leads h hrun

theorem transitionRosterSubscription_leads {expected subscription : RosterSubscription}
    (hrun : (transitionRosterSubscription owner jid expected subscription).run w = (.ok version, w')) :
    Leads w w' ((w.book syn).setSubscription owner jid subscription) := by
  simp only [transitionRosterSubscription, Tx.run_bind_eq, Tx.run_read_eq, Except.ok.injEq] at hrun
  obtain ⟨_, _, ⟨rfl, rfl⟩, hrun⟩ := hrun
  exact copySubscription_leads h hrun

theorem removeRow_leads (hrun : (removeRow owner jid decode).run w = (.ok removed, w')) :
    Leads w w' ((w.book syn).removeItem owner jid) := by
  rcases run_removeRow_eq.mp hrun with ⟨hrow, _, rfl⟩ | ⟨_, _, hrow, _, _, _, rfl⟩
  · have hsame : (w.book syn).removeItem owner jid = w.book syn := by
      simp only [Book.removeItem, Tables.book, h.itemAt_eq_none.mpr hrow]
    rw [hsame]
    exact .refl h
  · have hremove : (w.book syn).removeItem owner jid = ((w.book syn).setItem owner jid none).advance owner := by
      rcases h.row_cases owner jid with ⟨hrow', _⟩ | ⟨_, item, _, hsome, _⟩
      · rw [hrow] at hrow'
        cases hrow'
      · simp only [Book.removeItem, Tables.book, hsome]
    rw [hremove]
    exact ⟨h.withoutItem owner jid, rfl, book_withoutItem owner jid⟩

theorem putPendingRequest_leads (hrun : (putPendingRequest owner request max).run w = (.ok u, w')) :
    Leads w w' ((w.book syn).setRequest owner request.sender (some request.stanza)) := by
  obtain ⟨_, _, rfl⟩ := run_putPendingRequest_eq.mp hrun
  exact ⟨h.withRequest owner request, rfl, book_withRequest owner request⟩

theorem removePendingRequest_leads {removed : Bool}
    (hrun : (removePendingRequest owner sender).run w = (.ok removed, w')) :
    Leads w w' ((w.book syn).setRequest owner sender none) := by
  obtain ⟨_, rfl⟩ := run_removePendingRequest_eq.mp hrun
  exact ⟨h.withoutRequest owner sender, rfl, book_withoutRequest owner sender⟩

theorem clearRoster_leads (hrun : (clearRoster owner).run w = (.ok u, w')) : Leads w w' ((w.book syn).clear owner) := by
  obtain rfl := run_clearRoster_eq.mp hrun
  exact ⟨h.cleared owner, rfl, book_cleared owner⟩

end

theorem encodeItem_copySubscription {before : Tables} {version : Nat} {current : Bytes}
    (hrun : (copySubscription before owner.text (itemKey owner jid) expected subscription).run w =
      (.ok (some version), w'))
    (hrow : w.tables.items.get? (itemKey owner jid) = some current) (hitem : encodeItem item = .ok current) :
    ∃ bytes, w'.tables.items.get? (itemKey owner jid) = some bytes ∧
      encodeItem { item with subscription := subscription } = .ok bytes := by
  obtain ⟨_, hcases⟩ := run_copySubscription_eq.mp hrun
  rcases hcases with ⟨_, hnone, _⟩ | ⟨current', old, bytes, hrow', hcopy, hcases⟩
  · cases hnone
  · rw [hrow] at hrow'
    cases hrow'
    rcases hcases with ⟨_, hnone, _⟩ | ⟨_, _, _, rfl⟩
    · cases hnone
    · have hrest := (copyable_eq_ok hcopy).2
      refine ⟨patchSubscription bytes subscription, get?_insert_self .., ?_⟩
      rw [encodeItem_patch hitem, patchSubscription, patchSubscription, hrest]

/-- Items within the limits survive encoding and decoding and have the size that is computed for them; bytes that are
accepted are the encoding of what is read from them; and with its first two bytes overwritten, as `copy_subscription`
does, an encoded item is the encoding of the item with another subscription. -/
theorem roster_item_codec (syn : JidSyntax) :
    (∀ item : RosterItem syn, WithinLimits item → ∃ bytes, encodeItem item = .ok bytes ∧
      decodeItem item.jid bytes = .ok item ∧ encodedItemSize item = .ok bytes.length) ∧
    (∀ (jid : RosterJid syn) (bytes : Bytes), bytes.length < wordSize →
      decodeItem jid bytes = .error corrupt ∨
        ∃ item, decodeItem jid bytes = .ok item ∧ encodeItem item = .ok bytes) ∧
    (∀ (item : RosterItem syn) (bytes : Bytes) (subscription : RosterSubscription), encodeItem item = .ok bytes →
      encodeItem { item with subscription := subscription } =
        .ok (encodeSubscription subscription ++ bytes.drop 2)) ∧
    ∀ (before : Tables) (owner : AccountKey syn) (jid : RosterJid syn) (expected : Option RosterSubscription)
      (subscription : RosterSubscription) (version : Nat) (w w' : Write) (item : RosterItem syn) (current : Bytes),
      (copySubscription before owner.text (itemKey owner jid) expected subscription).run w = (.ok (some version), w') →
      w.tables.items.get? (itemKey owner jid) = some current → encodeItem item = .ok current →
      ∃ bytes, w'.tables.items.get? (itemKey owner jid) = some bytes ∧
        encodeItem { item with subscription := subscription } = .ok bytes := by
  refine ⟨fun item hlimits => ?_, fun jid bytes hlen => ?_, fun item bytes subscription hitem => ?_, ?_⟩
  · obtain ⟨bytes, hbytes⟩ := exists_encodeItem.mpr hlimits
    refine ⟨bytes, hbytes, decodeItem_encodeItem hbytes, ?_⟩
    rw [length_encodeItem hbytes]
    exact encodedItemSize_of_lt hlimits.size
  · cases hdecoded : decodeItem jid bytes with
    | error e =>
      rw [decodeItem] at hdecoded
      cases htake : takeItem bytes with
      | none =>
        rw [htake] at hdecoded
        exact .inl hdecoded.symm
      | some value =>
        rw [htake] at hdecoded
        cases hdecoded
    | ok item => exact .inr ⟨item, rfl, encodeItem_of_decodeItem hlen hdecoded⟩
  · exact encodeItem_patch hitem subscription
  · intro before owner jid expected subscription version w w' item current hrun hrow hitem
    exact encodeItem_copySubscription hrun hrow hitem

end Lonewolf.Roster
