import Lonewolf.Roster.Writes

/-!
# Quotas

What an owner uses is the number of rows in the owner's range and the bytes of their keys and values. `admit_item`
scans the range and lets a row in when the totals with it are within the quota, or when it replaces a row that is no
smaller. So a table within a quota stays within it, and a scan with the same quota never runs into it.
-/

namespace Lonewolf.Roster

open Texts SortedTables SortedTable Transactions

variable {syn : JidSyntax} {owner : AccountKey syn} {jid : RosterJid syn} {quota : RosterQuota}
  {table : SortedTable Text Bytes}

def rowBytes (row : Text × Bytes) : Nat := row.1.byteLen + row.2.length

def rowsBytes (rows : List (Text × Bytes)) : Nat := (rows.map rowBytes).sum

variable {rows : List (Text × Bytes)}

@[simp] theorem rowsBytes_cons (row : Text × Bytes) (rows : List (Text × Bytes)) :
    rowsBytes (row :: rows) = rowBytes row + rowsBytes rows := by
  simp [rowsBytes]

theorem rowBytes_le_rowsBytes {row : Text × Bytes} (h : row ∈ rows) : rowBytes row ≤ rowsBytes rows :=
  List.single_le_sum (fun _ _ => Nat.zero_le _) _ (List.mem_map.mpr ⟨row, h, rfl⟩)

/-- What the owner has stored is within the quota. -/
structure Within (quota : RosterQuota) (table : SortedTable Text Bytes) (owner : AccountKey syn) : Prop where
  count : (ownerEntries table owner.text).length ≤ quota.maxItems
  bytes : rowsBytes (ownerEntries table owner.text) ≤ quota.maxBytes

/-! ### Usage after a write -/

theorem Within.filterKeys (h : Within quota table owner) (p : Text → Bool) :
    Within quota (table.filterKeys p) owner := by
  have hsub : (ownerEntries (table.filterKeys p) owner.text).Sublist (ownerEntries table owner.text) := by
    exact List.Sublist.filter _ List.filter_sublist
  exact ⟨hsub.length_le.trans h.count, ((hsub.map rowBytes).sum_le_sum (by simp)).trans h.bytes⟩

theorem Within.erase (h : Within quota table owner) (key : Text) : Within quota (table.erase key) owner :=
  h.filterKeys _

variable {owner' : AccountKey syn}

theorem ownerEntries_insert_ne (hne : owner ≠ owner') (record : Bytes) :
    ownerEntries (table.insert (itemKey owner jid) record) owner'.text = ownerEntries table owner'.text := by
  have hrange : inOwnerRange owner'.text (itemKey owner jid) = false := by
    rw [Bool.eq_false_iff, ne_eq, inOwnerRange_itemKey]
    exact hne
  rw [ownerEntries, filterKeys_insert, hrange]
  rfl

theorem ownerEntries_insert_perm (table : SortedTable Text Bytes) (owner : AccountKey syn)
    (jid : RosterJid syn) (record : Bytes) :
    (ownerEntries (table.insert (itemKey owner jid) record) owner.text).Perm
      ((itemKey owner jid, record) ::
        ((table.filterKeys (inOwnerRange owner.text)).erase (itemKey owner jid)).entries) := by
  rw [ownerEntries, filterKeys_insert, if_pos (inOwnerRange_itemKey.mpr rfl)]
  exact entries_insert_perm _ _ _

theorem ownerEntries_perm {old : Bytes} (hold : table.get? (itemKey owner jid) = some old) :
    (ownerEntries table owner.text).Perm
      ((itemKey owner jid, old) ::
        ((table.filterKeys (inOwnerRange owner.text)).erase (itemKey owner jid)).entries) := by
  apply entries_perm_cons_erase
  rw [get?_filterKeys, if_pos (inOwnerRange_itemKey.mpr rfl), hold]

theorem rowsBytes_perm {rows rows' : List (Text × Bytes)} (h : rows.Perm rows') : rowsBytes rows = rowsBytes rows' :=
  (h.map rowBytes).sum_eq

theorem usage_replace {old : Bytes} (hold : table.get? (itemKey owner jid) = some old) (record : Bytes) :
    (ownerEntries (table.insert (itemKey owner jid) record) owner.text).length =
        (ownerEntries table owner.text).length ∧
      rowsBytes (ownerEntries (table.insert (itemKey owner jid) record) owner.text) + old.length =
        rowsBytes (ownerEntries table owner.text) + record.length := by
  have hnew := ownerEntries_insert_perm table owner jid record
  have hold := ownerEntries_perm hold
  refine ⟨by rw [hnew.length_eq, hold.length_eq, List.length_cons, List.length_cons], ?_⟩
  rw [rowsBytes_perm hnew, rowsBytes_perm hold, rowsBytes_cons, rowsBytes_cons]
  simp only [rowBytes]
  omega

theorem usage_add (hnone : table.get? (itemKey owner jid) = none) (record : Bytes) :
    (ownerEntries (table.insert (itemKey owner jid) record) owner.text).length =
        (ownerEntries table owner.text).length + 1 ∧
      rowsBytes (ownerEntries (table.insert (itemKey owner jid) record) owner.text) =
        rowsBytes (ownerEntries table owner.text) + rowBytes (itemKey owner jid, record) := by
  have hnew := ownerEntries_insert_perm table owner jid record
  have herase : (table.filterKeys (inOwnerRange owner.text)).erase (itemKey owner jid) =
      table.filterKeys (inOwnerRange owner.text) := by
    apply erase_eq_self
    rw [get?_filterKeys, hnone, ite_self]
  rw [herase] at hnew
  refine ⟨by rw [hnew.length_eq, List.length_cons]; rfl, ?_⟩
  rw [rowsBytes_perm hnew, rowsBytes_cons, ownerEntries]
  omega

/-! ### Admission -/

theorem addRow_eq_some {bytes total : Nat} {row : Text × Bytes} :
    addRow bytes row = some total ↔ bytes + rowBytes row < wordSize ∧ bytes + rowBytes row = total := by
  simp only [addRow, Option.bind_eq_bind, Option.bind_eq_some_iff, checkedAdd_eq_some, rowBytes]
  constructor
  · rintro ⟨_, ⟨_, rfl⟩, hlt, heq⟩
    exact ⟨by omega, by omega⟩
  · rintro ⟨hlt, heq⟩
    exact ⟨bytes + row.1.byteLen, ⟨by omega, rfl⟩, by omega, by omega⟩

theorem admitScan_eq_ok {old : Nat} {count bytes count' bytes' : Nat}
    (h : admitScan quota old rows count bytes = .ok (count', bytes')) :
    count' = count + rows.length ∧ bytes' = bytes + rowsBytes rows := by
  induction rows generalizing count bytes with
  | nil =>
    cases h
    exact ⟨rfl, rfl⟩
  | cons row rows ih =>
    simp only [admitScan, except_bind_eq_ok, orQuota_eq_ok, checkedAdd_eq_some, addRow_eq_some] at h
    obtain ⟨_, ⟨_, rfl⟩, _, ⟨_, rfl⟩, h⟩ := h
    split at h
    · cases h
    · obtain ⟨hcount, hbytes⟩ := ih h
      rw [List.length_cons, rowsBytes_cons]
      omega

theorem admitTotals_eq_ok {oldBytes : Option Nat} {newBytes count bytes : Nat} {u : Unit}
    (h : admitTotals quota oldBytes newBytes count bytes = .ok u) :
    count + (if oldBytes.isNone then 1 else 0) ≤ quota.maxItems ∧ oldBytes.getD 0 ≤ bytes ∧
      bytes - oldBytes.getD 0 + newBytes ≤ quota.maxBytes := by
  simp only [admitTotals, except_bind_eq_ok, orQuota_eq_ok, checkedAdd_eq_some] at h
  obtain ⟨_, ⟨_, rfl⟩, kept, hkept, _, ⟨_, rfl⟩, h⟩ := h
  by_cases hle : oldBytes.getD 0 ≤ bytes
  · rw [if_pos hle] at hkept
    cases hkept
    by_cases hover : quota.maxItems < count + (if oldBytes.isNone then 1 else 0) ∨
        quota.maxBytes < bytes - oldBytes.getD 0 + newBytes
    · rw [if_pos hover] at h
      cases h
    · push Not at hover
      exact ⟨hover.1, hle, hover.2⟩
  · rw [if_neg hle] at hkept
    cases hkept

theorem admitItem_of_le {old : Bytes} {encodedLen : Nat} (hold : table.get? (itemKey owner jid) = some old)
    (hle : encodedLen ≤ old.length) (hlt : (itemKey owner jid).byteLen + encodedLen < wordSize) :
    admitItem table owner.text (itemKey owner jid) encodedLen quota = .ok () := by
  have hadd : checkedAdd (itemKey owner jid).byteLen encodedLen =
      some ((itemKey owner jid).byteLen + encodedLen) := if_pos hlt
  simp only [admitItem, hold, hadd, orQuota, Option.map_some, bind, Except.bind]
  rw [if_pos (by simpa using hle)]
  rfl

theorem Within.insert (h : Within quota table owner) {record : Bytes}
    (hfits : admitItem table owner.text (itemKey owner jid) record.length quota = .ok ()) :
    Within quota (table.insert (itemKey owner jid) record) owner := by
  simp only [admitItem, except_bind_eq_ok, orQuota_eq_ok, checkedAdd_eq_some] at hfits
  obtain ⟨_, ⟨_, rfl⟩, hfits⟩ := hfits
  cases hold : table.get? (itemKey owner jid) with
  | some old =>
    obtain ⟨hcount, hbytes⟩ := usage_replace hold record
    have hcount' := h.count
    have hbytes' := h.bytes
    simp only [hold, Option.map_some] at hfits
    split at hfits
    · rename_i hle
      simp only [Option.any_some, decide_eq_true_eq] at hle
      exact ⟨by omega, by omega⟩
    · split at hfits
      · cases hfits
      · obtain ⟨⟨count, bytes⟩, hscan, htotals⟩ := except_bind_eq_ok.mp hfits
        obtain ⟨rfl, rfl⟩ := admitScan_eq_ok hscan
        obtain ⟨_, hle, htotal⟩ := admitTotals_eq_ok htotals
        simp only [Option.getD_some] at hle htotal
        exact ⟨by omega, by omega⟩
  | none =>
    obtain ⟨hcount, hbytes⟩ := usage_add hold record
    simp only [hold, Option.map_none, Option.any_none, Bool.false_eq_true, if_false] at hfits
    split at hfits
    · cases hfits
    · obtain ⟨⟨count, bytes⟩, hscan, htotals⟩ := except_bind_eq_ok.mp hfits
      obtain ⟨rfl, rfl⟩ := admitScan_eq_ok hscan
      obtain ⟨htotal, _, hbytes'⟩ := admitTotals_eq_ok htotals
      simp only [Option.isNone_none, if_true, Option.getD_none, rowBytes] at htotal hbytes hbytes'
      exact ⟨by omega, by rw [hbytes]; omega⟩

theorem Within.replace (h : Within quota table owner) {old record : Bytes}
    (hold : table.get? (itemKey owner jid) = some old) (hlen : record.length = old.length) :
    Within quota (table.insert (itemKey owner jid) record) owner := by
  obtain ⟨hcount, hbytes⟩ := usage_replace hold record
  have hcount' := h.count
  have hbytes' := h.bytes
  exact ⟨by omega, by omega⟩

theorem Within.insert_ne (h : Within quota table owner') (hne : owner ≠ owner') (record : Bytes) :
    Within quota (table.insert (itemKey owner jid) record) owner' := by
  have hsame : ownerEntries (table.insert (itemKey owner jid) record) owner'.text =
      ownerEntries table owner'.text := ownerEntries_insert_ne hne record
  exact ⟨by rw [hsame]; exact h.count, by rw [hsame]; exact h.bytes⟩

/-! ### Reads within the quota -/

variable {items : List (RosterItem syn)}

theorem snapshotItems_eq_ok (h : List.Forall₂ (HoldsItem owner) rows items) (count bytes : Nat)
    (hcount : count + rows.length ≤ quota.maxItems) (hbytes : bytes + rowsBytes rows ≤ quota.maxBytes) :
    snapshotItems owner.text quota rows count bytes = .ok items := by
  induction h generalizing count bytes with
  | nil => rfl
  | @cons row item rows items hrow _ ih =>
    obtain ⟨key, record⟩ := row
    obtain rfl : key = itemKey owner item.jid := hrow.key
    simp only [List.length_cons, rowsBytes_cons] at hcount hbytes
    have hlt := quota.maxBytes_lt
    have hadd : addRow bytes (itemKey owner item.jid, record) =
        some (bytes + rowBytes (itemKey owner item.jid, record)) :=
      addRow_eq_some.mpr ⟨by omega, rfl⟩
    have hrest := ih (count + 1) (bytes + rowBytes (itemKey owner item.jid, record)) (by omega) (by omega)
    have hlen : record.length ≤ quota.maxBytes := by
      simp only [rowBytes] at hbytes
      omega
    simp only [snapshotItems, hadd, orQuota, bind, Except.bind]
    rw [if_neg (by omega), decodeKey_itemKey, checkItem_encodeItem hrow.value hlen hrow.groups]
    simp only [decodeItem_encodeItem hrow.value, hrest]
    rfl

variable {t : Tables}

private theorem exists_forall₂ {α β : Type} {R : α → β → Prop} {as : List α}
    (h : ∀ a ∈ as, ∃ b, R a b) : ∃ bs, List.Forall₂ R as bs := by
  induction as with
  | nil => exact ⟨[], .nil⟩
  | cons a as ih =>
    obtain ⟨b, hb⟩ := h a (by simp)
    obtain ⟨bs, hbs⟩ := ih fun a' ha' => h a' (by simp [ha'])
    exact ⟨b :: bs, .cons hb hbs⟩

private theorem forall₂_mem {α β : Type} {R : α → β → Prop} {as : List α} {bs : List β} (h : List.Forall₂ R as bs) :
    (∀ a ∈ as, ∃ b ∈ bs, R a b) ∧ ∀ b ∈ bs, ∃ a ∈ as, R a b := by
  induction h with
  | nil => simp
  | cons hab _ ih =>
    simp only [List.mem_cons, forall_eq_or_imp]
    exact ⟨⟨⟨_, .inl rfl, hab⟩, fun a ha => (ih.1 a ha).imp fun _ h => ⟨.inr h.1, h.2⟩⟩,
      ⟨_, .inl rfl, hab⟩, fun b hb => (ih.2 b hb).imp fun _ h => ⟨.inr h.1, h.2⟩⟩

private theorem mapM_map_ok {α β : Type} {f : β → α} {g : α → Except RosterError β}
    (h : ∀ b, g (f b) = .ok b) (bs : List β) : (bs.map f).mapM g = .ok bs := by
  induction bs with
  | nil => rfl
  | cons b bs ih =>
    rw [List.map_cons, List.mapM_cons, h, ih]
    rfl

private theorem keys_of_rows (h : List.Forall₂ (HoldsItem owner) rows items) :
    rows.map Prod.fst = items.map fun item => itemKey owner item.jid := by
  induction h with
  | nil => rfl
  | cons hrow _ ih => rw [List.map_cons, List.map_cons, ih, hrow.key]

namespace Tables.WellFormed

section

variable (h : t.WellFormed syn)
include h

theorem exists_items (owner : AccountKey syn) :
    ∃ items : List (RosterItem syn), List.Forall₂ (HoldsItem owner) (ownerEntries t.items owner.text) items := by
  apply exists_forall₂
  rintro ⟨key, record⟩ hrow
  obtain ⟨jid, hkey, hget⟩ := h.items.mem_ownerEntries.mp hrow
  obtain rfl : key = itemKey owner jid := hkey
  obtain ⟨item, _, hitem⟩ := h.encoded owner jid record hget
  exact ⟨item, hitem⟩

theorem items_of_rows (hitems : List.Forall₂ (HoldsItem owner) (ownerEntries t.items owner.text) items) :
    items.Pairwise (fun a b => a.jid.text < b.jid.text) ∧
      ∀ item, item ∈ items ↔ itemAt t owner item.jid = some item := by
  constructor
  · have hsorted := (t.items.filterKeys (inOwnerRange owner.text)).keys_sorted
    rw [keys, show (t.items.filterKeys (inOwnerRange owner.text)).entries =
      ownerEntries t.items owner.text from rfl, keys_of_rows hitems, List.pairwise_map] at hsorted
    exact hsorted.imp fun hlt => itemKey_lt.mp hlt
  · intro item
    obtain ⟨hrows, hitems⟩ := forall₂_mem hitems
    constructor
    · intro hmem
      obtain ⟨⟨key, record⟩, hrow, hholds⟩ := hitems item hmem
      obtain rfl : key = itemKey owner item.jid := hholds.key
      obtain ⟨jid, hkey, hget⟩ := h.items.mem_ownerEntries.mp hrow
      rw [← hkey] at hget
      exact hholds.itemAt hget
    · intro hitem
      obtain ⟨record, hget, _⟩ := h.row_of_item hitem
      obtain ⟨item', hmem, hholds⟩ := hrows (itemKey owner item.jid, record)
        (h.items.mem_ownerEntries.mpr ⟨item.jid, rfl, hget⟩)
      have hjid := hholds.jid_eq
      rw [hjid] at hget hholds hitem
      rw [hholds.itemAt hget] at hitem
      cases hitem
      exact hmem

theorem roster_of_within (hwithin : Within quota t.items owner) :
    ∃ items : List (RosterItem syn), t.roster owner quota = .ok ⟨t.rosterVersion owner, items⟩ ∧
      items.Pairwise (fun a b => a.jid.text < b.jid.text) ∧
      ∀ item, item ∈ items ↔ itemAt t owner item.jid = some item := by
  obtain ⟨items, hitems⟩ := h.exists_items owner
  refine ⟨items, ?_, h.items_of_rows hitems⟩
  have hsnapshot : snapshotItems owner.text quota (ownerEntries t.items owner.text) 0 0 = .ok items := by
    apply snapshotItems_eq_ok hitems
    · rw [Nat.zero_add]
      exact hwithin.count
    · rw [Nat.zero_add]
      exact hwithin.bytes
  rw [Tables.roster, hsnapshot]
  rfl

theorem rosterItem_of_within (hwithin : Within quota t.items owner) (jid : RosterJid syn) :
    t.rosterItem owner jid quota = .ok (itemAt t owner jid) := by
  apply h.rosterItem_of_le
  intro record hrow
  have hmem : (itemKey owner jid, record) ∈ ownerEntries t.items owner.text :=
    h.items.mem_ownerEntries.mpr ⟨jid, rfl, hrow⟩
  exact (rowBytes_le_rowsBytes hmem).trans hwithin.bytes

end

/-- The row of a stored request. -/
def requestRow (owner : AccountKey syn) (request : PendingSubscription syn) : Text × Bytes :=
  (itemKey owner request.sender, request.stanza)

theorem requestRow_injective (owner : AccountKey syn) : Function.Injective (requestRow owner) := by
  intro a b hab
  obtain ⟨hkey, hstanza⟩ := Prod.mk.inj hab
  cases a
  cases b
  obtain rfl := (itemKey_inj.mp hkey).2
  obtain rfl : _ = _ := hstanza
  rfl

theorem exists_requests (h : t.WellFormed syn) (owner : AccountKey syn) :
    ∃ requests : List (PendingSubscription syn),
      ownerEntries t.pending owner.text = requests.map (requestRow owner) ∧
      requests.Pairwise (fun a b => a.sender.text < b.sender.text) ∧
      ∀ request, request ∈ requests ↔ t.pending.get? (itemKey owner request.sender) = some request.stanza := by
  obtain ⟨requests, hrows⟩ : ∃ requests, List.Forall₂ (fun r request => r = requestRow owner request)
      (ownerEntries t.pending owner.text) requests := by
    apply exists_forall₂
    rintro ⟨key, stanza⟩ hrow
    obtain ⟨sender, hkey, _⟩ := h.pending.mem_ownerEntries.mp hrow
    exact ⟨⟨sender, stanza⟩, Prod.ext hkey rfl⟩
  rw [← List.forall₂_map_right_iff, List.forall₂_eq_eq_eq] at hrows
  refine ⟨requests, hrows, ?_, ?_⟩
  · have hsorted := (t.pending.filterKeys (inOwnerRange owner.text)).sorted
    rw [show (t.pending.filterKeys (inOwnerRange owner.text)).entries =
      ownerEntries t.pending owner.text from rfl, hrows, List.pairwise_map] at hsorted
    exact hsorted.imp fun hlt => itemKey_lt.mp hlt
  · intro request
    have hmem : requestRow owner request ∈ ownerEntries t.pending owner.text ↔ _ :=
      h.pending.mem_ownerEntries
    rw [hrows, List.mem_map_of_injective (requestRow_injective owner)] at hmem
    rw [hmem]
    constructor
    · rintro ⟨jid, hkey, hget⟩
      rw [← hkey] at hget
      exact hget
    · intro hget
      exact ⟨request.sender, rfl, hget⟩

theorem pendingRequests_eq (h : t.WellFormed syn) (owner : AccountKey syn) :
    ∃ requests : List (PendingSubscription syn), t.pendingRequests owner = .ok requests ∧
      requests.Pairwise (fun a b => a.sender.text < b.sender.text) ∧
      ∀ request, request ∈ requests ↔ t.pending.get? (itemKey owner request.sender) = some request.stanza := by
  obtain ⟨requests, hrows, hsorted, hmem⟩ := h.exists_requests owner
  refine ⟨requests, ?_, hsorted, hmem⟩
  rw [pendingRequests, hrows]
  apply mapM_map_ok
  intro request
  simp only [requestRow, decodeKey_itemKey]
  rfl

end Tables.WellFormed

end Lonewolf.Roster
