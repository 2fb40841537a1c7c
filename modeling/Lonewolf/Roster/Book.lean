import Lonewolf.Roster.Storage

/-!
# What the tables mean

The roster as its users see it, a `Book`: for every owner the item of each contact, the stored request of each sender
and the version. `Tables.book` reads it off the tables, which are well formed when every key is one the code builds
and every item row is the encoding of an item.

An owner's range holds exactly the owner's rows: a key has a single NUL, so the owner can be told from the key even
when one owner's text starts another's.
-/

namespace Lonewolf.Roster

open Texts SortedTables SortedTable

variable {syn : JidSyntax} {owner owner' : AccountKey syn} {jid jid' : RosterJid syn}

/-! ### Keys -/

theorem AccountKey.nul_notMem (owner : AccountKey syn) : nul ∉ owner.text := owner.jid.noNul

theorem itemKey_eq_append {rest : Text} :
    itemKey owner jid = owner'.text ++ nul :: rest ↔ owner = owner' ∧ jid.text = rest := by
  rw [itemKey, itemKeyText, List.append_cons_inj_of_notMem (AccountKey.nul_notMem owner) jid.noNul]
  constructor
  · rintro ⟨howner, _, hrest⟩
    exact ⟨AccountKey.jid_injective (RosterJid.ext howner), hrest⟩
  · rintro ⟨howner, hrest⟩
    exact ⟨by rw [howner], rfl, hrest⟩

theorem itemKey_inj : itemKey owner jid = itemKey owner' jid' ↔ owner = owner' ∧ jid = jid' := by
  rw [itemKey.eq_def owner', itemKeyText, itemKey_eq_append, RosterJid.ext_iff]

theorem itemKey_lt : itemKey owner jid < itemKey owner jid' ↔ jid.text < jid'.text := by
  rw [itemKey, itemKey, itemKeyText, itemKeyText, append_lt_append_iff]
  exact append_lt_append_iff [nul]

theorem inOwnerRange_itemKey : inOwnerRange owner'.text (itemKey owner jid) = true ↔ owner = owner' := by
  have hrange := mem_prefix_range_iff (show nul < soh by decide)
    (fun c hle hlt => by
      have hc : c.toNat = 0 := by
        have : c.toNat < 1 := hlt
        omega
      exact Char.toNat_inj.mp hc)
    owner'.text (itemKey owner jid)
  simp only [inOwnerRange, Bool.and_eq_true, decide_eq_true_eq, hrange, itemKey_eq_append]
  constructor
  · rintro ⟨_, howner, _⟩
    exact howner
  · intro howner
    exact ⟨jid.text, howner, rfl⟩

@[simp] theorem decodeKey_itemKey (owner : AccountKey syn) (jid : RosterJid syn) :
    decodeKey owner.text (itemKey owner jid) = .ok jid := by
  have hkey : itemKey owner jid = (owner.text ++ [nul]) ++ jid.text := by
    simp [itemKey, itemKeyText]
  rw [decodeKey, hkey, if_pos (List.prefix_append _ _), decodeJid]
  have hdrop : ((owner.text ++ [nul]) ++ jid.text).drop (owner.text.length + 1) = jid.text :=
    List.drop_left' (by simp)
  simp only [hdrop]
  rw [dif_pos ⟨jid.canonical, jid.noNul⟩]

/-- Every key of the table is one that `item_key` builds. -/
def WellKeyed (syn : JidSyntax) (table : SortedTable Text Bytes) : Prop :=
  ∀ key ∈ table.keys, ∃ (owner : AccountKey syn) (jid : RosterJid syn), key = itemKey owner jid

variable {table : SortedTable Text Bytes}

theorem WellKeyed.insert (h : WellKeyed syn table) (owner : AccountKey syn) (jid : RosterJid syn) (value : Bytes) :
    WellKeyed syn (table.insert (itemKey owner jid) value) := by
  intro key hkey
  obtain ⟨found, hfound⟩ := mem_keys.mp hkey
  by_cases heq : key = itemKey owner jid
  · exact ⟨owner, jid, heq⟩
  · rw [get?_insert_ne _ _ heq] at hfound
    exact h key (mem_keys.mpr ⟨found, hfound⟩)

theorem WellKeyed.filterKeys (h : WellKeyed syn table) (p : Text → Bool) : WellKeyed syn (table.filterKeys p) := by
  intro key hkey
  obtain ⟨found, hfound⟩ := mem_keys.mp hkey
  rw [get?_filterKeys] at hfound
  split at hfound
  · exact h key (mem_keys.mpr ⟨found, hfound⟩)
  · cases hfound

theorem WellKeyed.mem_ownerEntries (h : WellKeyed syn table) {row : Text × Bytes} :
    row ∈ ownerEntries table owner.text ↔
      ∃ jid : RosterJid syn, row.1 = itemKey owner jid ∧ table.get? (itemKey owner jid) = some row.2 := by
  obtain ⟨key, value⟩ := row
  rw [ownerEntries, mem_entries_filterKeys, ← get?_eq_some]
  simp only
  constructor
  · rintro ⟨hget, hrange⟩
    obtain ⟨owner', jid, rfl⟩ := h key (mem_keys.mpr ⟨value, hget⟩)
    obtain rfl := inOwnerRange_itemKey.mp hrange
    exact ⟨jid, rfl, hget⟩
  · rintro ⟨jid, hkey, hget⟩
    subst hkey
    exact ⟨hget, inOwnerRange_itemKey.mpr rfl⟩

/-! ### Books -/

/-- The rosters of all owners. -/
@[ext] structure Book (syn : JidSyntax) where
  hasAccount : AccountKey syn → Prop
  item : AccountKey syn → RosterJid syn → Option (RosterItem syn)
  request : AccountKey syn → RosterJid syn → Option Bytes
  version : AccountKey syn → Nat

namespace Book

def empty : Book syn := ⟨fun _ => False, fun _ _ => none, fun _ _ => none, fun _ => 0⟩

variable (b : Book syn) (owner : AccountKey syn) (jid : RosterJid syn)

def setItem (value : Option (RosterItem syn)) : Book syn :=
  { b with item := fun o j => if o = owner ∧ j = jid then value else b.item o j }

def setRequest (sender : RosterJid syn) (value : Option Bytes) : Book syn :=
  { b with request := fun o j => if o = owner ∧ j = sender then value else b.request o j }

def advance : Book syn :=
  { b with version := fun o => if o = owner then b.version o + 1 else b.version o }

def clear : Book syn :=
  { b with
    item := fun o j => if o = owner then none else b.item o j
    request := fun o j => if o = owner then none else b.request o j
    version := fun o => if o = owner then 0 else b.version o }

/-- The item of a contact gets another subscription; only a change advances the version. -/
def setSubscription (subscription : RosterSubscription) : Book syn :=
  match b.item owner jid with
  | none => b
  | some item =>
    if item.subscription = subscription then b
    else (b.setItem owner jid (some { item with subscription := subscription })).advance owner

def removeItem : Book syn :=
  match b.item owner jid with
  | none => b
  | some _ => (b.setItem owner jid none).advance owner

end Book

def itemAt (t : Tables) (owner : AccountKey syn) (jid : RosterJid syn) : Option (RosterItem syn) :=
  (t.items.get? (itemKey owner jid)).bind fun record => (decodeItem jid record).toOption

def Tables.book (syn : JidSyntax) (t : Tables) : Book syn where
  hasAccount owner := owner.text ∈ t.accounts
  item owner jid := itemAt t owner jid
  request owner sender := t.pending.get? (itemKey owner sender)
  version owner := t.rosterVersion owner

/-- A row that holds an item of an owner. -/
structure HoldsItem (owner : AccountKey syn) (row : Text × Bytes) (item : RosterItem syn) : Prop where
  key : row.1 = itemKey owner item.jid
  value : encodeItem item = .ok row.2
  groups : item.groups.length ≤ maxGroupsPerItem
  size : row.1.byteLen + row.2.length < wordSize

/-- Tables that only the writes of this development have touched. -/
structure Tables.WellFormed (syn : JidSyntax) (t : Tables) : Prop where
  items : WellKeyed syn t.items
  pending : WellKeyed syn t.pending
  encoded : ∀ (owner : AccountKey syn) (jid : RosterJid syn) (record : Bytes),
    t.items.get? (itemKey owner jid) = some record →
      ∃ item : RosterItem syn, item.jid = jid ∧ HoldsItem owner (itemKey owner jid, record) item

theorem HoldsItem.itemAt {t : Tables} {record : Bytes} {item : RosterItem syn}
    (hitem : HoldsItem owner (itemKey owner item.jid, record) item)
    (hget : t.items.get? (itemKey owner item.jid) = some record) : itemAt t owner item.jid = some item := by
  rw [Roster.itemAt, hget, Option.bind_some, decodeItem_encodeItem hitem.value]
  rfl

namespace Tables.WellFormed

variable {t : Tables}

variable (h : t.WellFormed syn)
include h

theorem row_cases (owner : AccountKey syn) (jid : RosterJid syn) :
    (t.items.get? (itemKey owner jid) = none ∧ itemAt t owner jid = none) ∨
      ∃ record item, t.items.get? (itemKey owner jid) = some record ∧ itemAt t owner jid = some item ∧
        item.jid = jid ∧ HoldsItem owner (itemKey owner jid, record) item := by
  cases hget : t.items.get? (itemKey owner jid) with
  | none =>
    left
    exact ⟨rfl, by rw [itemAt, hget, Option.bind_none]⟩
  | some record =>
    right
    obtain ⟨item, rfl, hitem⟩ := h.encoded owner jid record hget
    exact ⟨record, item, rfl, hitem.itemAt hget, rfl, hitem⟩

theorem row_of_item {item : RosterItem syn} (hitem : itemAt t owner jid = some item) :
    ∃ record, t.items.get? (itemKey owner jid) = some record ∧ item.jid = jid ∧
      HoldsItem owner (itemKey owner jid, record) item := by
  rcases h.row_cases owner jid with ⟨_, hnone⟩ | ⟨record, item', hrow, hsome, hjid, hholds⟩
  · cases hnone.symm.trans hitem
  · cases hsome.symm.trans hitem
    exact ⟨record, hrow, hjid, hholds⟩

theorem itemAt_jid {item : RosterItem syn} (hitem : itemAt t owner jid = some item) : item.jid = jid := by
  obtain ⟨_, _, hjid, _⟩ := h.row_of_item hitem
  exact hjid

theorem itemAt_eq_none : itemAt t owner jid = none ↔ t.items.get? (itemKey owner jid) = none := by
  rcases h.row_cases owner jid with ⟨hrow, hnone⟩ | ⟨_, _, hrow, hsome, _⟩
  · simp [hrow, hnone]
  · simp [hrow, hsome]

/-! ### Reads of well-formed tables -/

theorem rosterSubscription_eq (owner : AccountKey syn) (jid : RosterJid syn) :
    t.rosterSubscription owner jid = .ok ((itemAt t owner jid).map RosterItem.subscription) := by
  rcases h.row_cases owner jid with ⟨hrow, hnone⟩ | ⟨record, item, hrow, hsome, _, hitem⟩
  · rw [rosterSubscription, hrow, hnone]
    rfl
  · rw [rosterSubscription, hrow, hsome]
    simp only [decodeSubscription_encodeItem hitem.value]
    rfl

theorem rosterItem_of_le {quota : RosterQuota}
    (hle : ∀ record, t.items.get? (itemKey owner jid) = some record →
      (itemKey owner jid).byteLen + record.length ≤ quota.maxBytes)
    : t.rosterItem owner jid quota = .ok (itemAt t owner jid) := by
  rcases h.row_cases owner jid with ⟨hrow, hnone⟩ | ⟨record, item, hrow, hsome, rfl, hitem⟩
  · rw [rosterItem, hrow, hnone]
  · have hle := hle record hrow
    rw [rosterItem, hrow, hsome]
    simp only
    rw [if_neg (by omega), checkItem_encodeItem hitem.value (show record.length ≤ _ by omega) hitem.groups,
      decodeItem_encodeItem hitem.value]
    rfl

theorem rosterItem_cases (owner : AccountKey syn) (jid : RosterJid syn) (quota : RosterQuota) :
    t.rosterItem owner jid quota = .ok (itemAt t owner jid) ∨
      t.rosterItem owner jid quota = .error .quotaExceeded ∧ (itemAt t owner jid).isSome := by
  by_cases hle : ∀ record, t.items.get? (itemKey owner jid) = some record →
      (itemKey owner jid).byteLen + record.length ≤ quota.maxBytes
  · exact .inl (h.rosterItem_of_le hle)
  · right
    push Not at hle
    obtain ⟨record, hrow, hlt⟩ := hle
    refine ⟨by rw [rosterItem, hrow]; exact if_pos hlt, ?_⟩
    rw [Option.isSome_iff_ne_none, ne_eq, h.itemAt_eq_none, hrow]
    simp

end Tables.WellFormed

end Lonewolf.Roster
