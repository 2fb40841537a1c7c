import Lonewolf.Base.Transition
import Lonewolf.Roster.Quota

/-!
# Storage as a map

Any sequence of roster writes, in transactions that are committed or dropped, against a ledger of what was written
last: for every owner the item of each contact, the request of each sender and the version. The tables always mean
the ledger. When every item was admitted under one quota, every read under it succeeds and returns the ledger; a
refused write changes nothing; and whatever the quota became, items can be removed and replaced by items that are no
longer.
-/

namespace Lonewolf.Roster

open Texts Transactions Transitions

variable {syn : JidSyntax} {w w' : Write} {t : Tables}

inductive RosterWrite (syn : JidSyntax) where
  | put (owner : AccountKey syn) (item : RosterItem syn) (quota : RosterQuota)
  | set (before : Tables) (owner : AccountKey syn) (jid : RosterJid syn) (subscription : RosterSubscription)
  | transition (owner : AccountKey syn) (jid : RosterJid syn) (expected subscription : RosterSubscription)
  | removeSubscription (owner : AccountKey syn) (jid : RosterJid syn)
  | removeItem (owner : AccountKey syn) (jid : RosterJid syn)
  | putPending (owner : AccountKey syn) (request : PendingSubscription syn) (max : Nat)
  | removePending (owner : AccountKey syn) (sender : RosterJid syn)
  | clear (owner : AccountKey syn)

namespace RosterWrite

def owner : RosterWrite syn → AccountKey syn
  | .put owner _ _ | .set _ owner _ _ | .transition owner _ _ _ | .removeSubscription owner _
  | .removeItem owner _ | .putPending owner _ _ | .removePending owner _ | .clear owner => owner

def run : RosterWrite syn → WriteTx Unit
  | .put owner item quota => do let _ ← putRosterItem owner item quota
  | .set before owner jid subscription => do let _ ← setRosterSubscription before owner jid subscription
  | .transition owner jid expected subscription => do
      let _ ← transitionRosterSubscription owner jid expected subscription
  | .removeSubscription owner jid => do let _ ← removeRosterSubscription owner jid
  | .removeItem owner jid => do let _ ← removeRosterItem owner jid
  | .putPending owner request max => putPendingRequest owner request max
  | .removePending owner sender => do let _ ← removePendingRequest owner sender
  | .clear owner => clearRoster owner

def apply (b : Book syn) : RosterWrite syn → Book syn
  | .put owner item _ => (b.setItem owner item.jid (some item)).advance owner
  | .set _ owner jid subscription | .transition owner jid _ subscription =>
    b.setSubscription owner jid subscription
  | .removeSubscription owner jid | .removeItem owner jid => b.removeItem owner jid
  | .putPending owner request _ => b.setRequest owner request.sender (some request.stanza)
  | .removePending owner sender => b.setRequest owner sender none
  | .clear owner => b.clear owner

/-- Every item is admitted under this quota. -/
def under (quota : RosterQuota) : RosterWrite syn → Prop
  | .put _ _ quota' => quota' = quota
  | _ => True

variable {op : RosterWrite syn}

theorem leads (h : w.tables.WellFormed syn) (hrun : op.run.run w = (.ok (), w')) :
    Leads w w' (op.apply (w.tables.book syn)) := by
  cases op with
  | put owner item quota =>
    obtain ⟨_, hput⟩ := Tx.run_void_eq.mp hrun
    exact putRosterItem_leads h hput
  | set before owner jid subscription =>
    obtain ⟨_, hset⟩ := Tx.run_void_eq.mp hrun
    exact setRosterSubscription_leads h hset
  | transition owner jid expected subscription =>
    obtain ⟨_, htransition⟩ := Tx.run_void_eq.mp hrun
    exact transitionRosterSubscription_leads h htransition
  | removeSubscription owner jid | removeItem owner jid =>
    obtain ⟨_, hremove⟩ := Tx.run_void_eq.mp hrun
    exact removeRow_leads h hremove
  | putPending owner request max => exact putPendingRequest_leads h hrun
  | removePending owner sender =>
    obtain ⟨_, hremove⟩ := Tx.run_void_eq.mp hrun
    exact removePendingRequest_leads h hremove
  | clear owner => exact clearRoster_leads h hrun

theorem spared (h : w.tables.WellFormed syn) {e : RosterError} (hrun : op.run.run w = (.error e, w')) :
    Spared op.owner w w' := by
  cases op with
  | put owner item quota => exact spared_putRosterItem (Tx.run_void_error.mp hrun)
  | set before owner jid subscription => exact spared_copySubscription (Tx.run_void_error.mp hrun)
  | transition owner jid expected subscription =>
    have herror := Tx.run_void_error.mp hrun
    simp only [transitionRosterSubscription, Tx.run_bind_error, Tx.run_read_error, Tx.run_read_eq,
      Except.ok.injEq, reduceCtorEq, false_and, false_or] at herror
    obtain ⟨_, _, ⟨_, rfl⟩, herror⟩ := herror
    exact spared_copySubscription herror
  | removeSubscription owner jid =>
    obtain ⟨hcommitted, hadvance⟩ := spared_removeRow
      (fun record hrecord => by
        obtain ⟨item, _, hitem⟩ := h.encoded owner jid record hrecord
        exact ⟨_, decodeSubscription_encodeItem hitem.value⟩)
      (Tx.run_void_error.mp hrun)
    exact ⟨hcommitted, .inr hadvance⟩
  | removeItem owner jid =>
    obtain ⟨hcommitted, hadvance⟩ := spared_removeRow
      (fun record hrecord => by
        obtain ⟨item, rfl, hitem⟩ := h.encoded owner jid record hrecord
        exact ⟨_, decodeItem_encodeItem hitem.value⟩)
      (Tx.run_void_error.mp hrun)
    exact ⟨hcommitted, .inr hadvance⟩
  | putPending owner request max =>
    rw [spared_putPendingRequest hrun]
    exact .refl owner w
  | removePending owner sender =>
    have herror := Tx.run_void_error.mp hrun
    simp [removePendingRequest] at herror
  | clear owner => simp [run, clearRoster] at hrun

variable {quota : RosterQuota}

theorem copySubscription_within {before : Tables} {owner : AccountKey syn} {jid : RosterJid syn}
    {expected : Option RosterSubscription} {subscription : RosterSubscription} {version : Option Nat}
    (hwithin : ∀ o : AccountKey syn, Roster.Within quota w.tables.items o)
    (hrun : (copySubscription before owner.text (itemKey owner jid) expected subscription).run w = (.ok version, w'))
    (o : AccountKey syn) : Roster.Within quota w'.tables.items o := by
  obtain ⟨_, ⟨_, _, rfl⟩ | ⟨current, old, bytes, hrow, hcopy, ⟨_, _, rfl⟩ | ⟨_, _, _, rfl⟩⟩⟩ :=
    run_copySubscription_eq.mp hrun
  · exact hwithin o
  · exact hwithin o
  · obtain ⟨hold, hrest⟩ := copyable_eq_ok hcopy
    by_cases ho : owner = o
    · subst ho
      exact (hwithin owner).replace hrow (length_patchSubscription hold hrest subscription)
    · exact (hwithin o).insert_ne ho _

theorem removeRow_within {owner : AccountKey syn} {jid : RosterJid syn} {α : Type}
    {decode : Bytes → Except RosterError α} {removed : Option (RosterMutation α)}
    (hwithin : ∀ o : AccountKey syn, Roster.Within quota w.tables.items o)
    (hrun : (removeRow owner jid decode).run w = (.ok removed, w')) (o : AccountKey syn) :
    Roster.Within quota w'.tables.items o := by
  rcases run_removeRow_eq.mp hrun with ⟨_, _, rfl⟩ | ⟨_, _, _, _, _, _, rfl⟩
  · exact hwithin o
  · exact (hwithin o).erase (itemKey owner jid)

theorem within (hunder : op.under quota) (hwithin : ∀ o : AccountKey syn, Roster.Within quota w.tables.items o)
    (hrun : op.run.run w = (.ok (), w')) (o : AccountKey syn) : Roster.Within quota w'.tables.items o := by
  cases op with
  | put owner item quota' =>
    obtain rfl : quota' = quota := hunder
    obtain ⟨_, hput⟩ := Tx.run_void_eq.mp hrun
    obtain ⟨_, _, hfits, _, _, encoded, hencoded, rfl⟩ := run_putRosterItem_eq.mp hput
    rw [← length_encodeItem hencoded] at hfits
    by_cases ho : owner = o
    · subst ho
      exact (hwithin owner).insert hfits
    · exact (hwithin o).insert_ne ho _
  | set before owner jid subscription =>
    obtain ⟨_, hset⟩ := Tx.run_void_eq.mp hrun
    exact copySubscription_within hwithin hset o
  | transition owner jid expected subscription =>
    obtain ⟨_, htransition⟩ := Tx.run_void_eq.mp hrun
    simp only [transitionRosterSubscription, Tx.run_bind_eq, Tx.run_read_eq, Except.ok.injEq]
      at htransition
    obtain ⟨_, _, ⟨_, rfl⟩, hcopy⟩ := htransition
    exact copySubscription_within hwithin hcopy o
  | removeSubscription owner jid | removeItem owner jid =>
    obtain ⟨_, hremove⟩ := Tx.run_void_eq.mp hrun
    exact removeRow_within hwithin hremove o
  | putPending owner request max =>
    obtain ⟨_, _, rfl⟩ := run_putPendingRequest_eq.mp hrun
    exact hwithin o
  | removePending owner sender =>
    obtain ⟨_, hremove⟩ := Tx.run_void_eq.mp hrun
    obtain ⟨_, rfl⟩ := run_removePendingRequest_eq.mp hremove
    exact hwithin o
  | clear owner =>
    obtain rfl := run_clearRoster_eq.mp hrun
    exact (hwithin o).filterKeys fun key => !inOwnerRange owner.text key

end RosterWrite

/-! ### Runs -/

/-- An open transaction, beside the ledger as its writes left it and as it was at the last commit. -/
structure Store (syn : JidSyntax) where
  write : Write
  ledger : Book syn
  committed : Book syn

/-- What can happen to the store. The writes are those in `allowed`. Accounts come and go by other code,
which is free here. -/
inductive StoreStep (allowed : RosterWrite syn → Prop) : Store syn → Store syn → Prop where
  | write {s : Store syn} {w' : Write} (op : RosterWrite syn) (hop : allowed op)
      (hrun : op.run.run s.write = (.ok (), w')) :
      StoreStep allowed s { s with write := w', ledger := op.apply s.ledger }
  | commit {s : Store syn} : StoreStep allowed s ⟨⟨s.write.tables, s.write.tables⟩, s.ledger, s.ledger⟩
  | drop {s : Store syn} : StoreStep allowed s ⟨⟨s.write.committed, s.write.committed⟩, s.committed, s.committed⟩
  | accounts {s : Store syn} (accounts : Finset Text) :
      StoreStep allowed s
        ⟨⟨s.write.committed, { s.write.tables with accounts := accounts }⟩,
          { s.ledger with hasAccount := fun owner => owner.text ∈ accounts }, s.committed⟩

def storage (allowed : RosterWrite syn → Prop) : System (Store syn) where
  init s := s = ⟨⟨{}, {}⟩, Book.empty, Book.empty⟩
  step := StoreStep allowed

/-- The tables mean the ledger. -/
structure Means (t : Tables) (ledger : Book syn) : Prop where
  wellFormed : t.WellFormed syn
  book : t.book syn = ledger

theorem wellFormed_empty (accounts : Finset Text) : ({ accounts := accounts } : Tables).WellFormed syn where
  items _ h := by cases h
  pending _ h := by cases h
  encoded _ _ _ h := by cases h

theorem means_empty : Means {} (Book.empty : Book syn) where
  wellFormed := wellFormed_empty ∅
  book := by
    ext1
    · funext owner
      simp [Tables.book, Book.empty]
    · rfl
    · rfl
    · rfl

variable {allowed : RosterWrite syn → Prop}

theorem storage_means {s : Store syn} (h : (storage allowed).Reachable s) :
    Means s.write.tables s.ledger ∧ Means s.write.committed s.committed := by
  induction h with
  | init hinit =>
    cases hinit
    exact ⟨means_empty, means_empty⟩
  | step _ hstep ih =>
    obtain ⟨htables, hcommitted⟩ := ih
    cases hstep with
    | write op _ hrun =>
      have hleads := RosterWrite.leads htables.wellFormed hrun
      rw [htables.book] at hleads
      exact ⟨⟨hleads.wellFormed, hleads.book⟩, by rw [hleads.committed]; exact hcommitted⟩
    | commit => exact ⟨htables, htables⟩
    | drop => exact ⟨hcommitted, hcommitted⟩
    | accounts accounts =>
      refine ⟨⟨⟨htables.wellFormed.items, htables.wellFormed.pending, htables.wellFormed.encoded⟩, ?_⟩, hcommitted⟩
      rw [← htables.book]
      rfl

theorem storage_within {quota : RosterQuota} {s : Store syn} (h : (storage (RosterWrite.under quota)).Reachable s) :
    (∀ owner : AccountKey syn, Within quota s.write.tables.items owner) ∧
      ∀ owner : AccountKey syn, Within quota s.write.committed.items owner := by
  induction h with
  | init hinit =>
    cases hinit
    exact ⟨fun _ => ⟨Nat.zero_le _, Nat.zero_le _⟩, fun _ => ⟨Nat.zero_le _, Nat.zero_le _⟩⟩
  | step hreach hstep ih =>
    obtain ⟨htables, hcommitted⟩ := ih
    cases hstep with
    | write op hop hrun =>
      refine ⟨RosterWrite.within hop htables hrun, ?_⟩
      rw [(RosterWrite.leads (storage_means hreach).1.wellFormed hrun).committed]
      exact hcommitted
    | commit => exact ⟨htables, htables⟩
    | drop => exact ⟨hcommitted, hcommitted⟩
    | accounts _ => exact ⟨htables, hcommitted⟩

theorem storage_mono {allowed' : RosterWrite syn → Prop} (himp : ∀ op, allowed op → allowed' op) {s : Store syn}
    (h : (storage allowed).Reachable s) : (storage allowed').Reachable s := by
  induction h with
  | init hinit => exact .init hinit
  | step _ hstep ih =>
    apply ih.step
    cases hstep with
    | write op hop hrun => exact .write op (himp op hop) hrun
    | commit => exact .commit
    | drop => exact .drop
    | accounts accounts => exact .accounts accounts

/-! ### Reads of the ledger -/

/-- Every read under the quota succeeds and returns what the ledger says. -/
structure ReadsAs (quota : RosterQuota) (t : Tables) (ledger : Book syn) : Prop where
  roster : ∀ owner : AccountKey syn, ∃ items : List (RosterItem syn),
    t.roster owner quota = .ok ⟨ledger.version owner, items⟩ ∧
      items.Pairwise (fun a b => a.jid.text < b.jid.text) ∧
      ∀ item, item ∈ items ↔ ledger.item owner item.jid = some item
  item : ∀ (owner : AccountKey syn) (jid : RosterJid syn), t.rosterItem owner jid quota = .ok (ledger.item owner jid)
  subscription : ∀ (owner : AccountKey syn) (jid : RosterJid syn),
    t.rosterSubscription owner jid = .ok ((ledger.item owner jid).map RosterItem.subscription)
  requests : ∀ owner : AccountKey syn, ∃ requests : List (PendingSubscription syn),
    t.pendingRequests owner = .ok requests ∧
      requests.Pairwise (fun a b => a.sender.text < b.sender.text) ∧
      ∀ request, request ∈ requests ↔ ledger.request owner request.sender = some request.stanza
  request : ∀ (owner : AccountKey syn) (sender : RosterJid syn),
    t.pendingRequest owner sender = (ledger.request owner sender).map fun stanza => ⟨sender, stanza⟩

variable {ledger : Book syn}

theorem Means.readsAs {quota : RosterQuota} (h : Means t ledger)
    (hwithin : ∀ owner : AccountKey syn, Within quota t.items owner) : ReadsAs quota t ledger := by
  obtain ⟨hwf, rfl⟩ := h
  exact {
    roster := fun owner => hwf.roster_of_within (hwithin owner)
    item := fun owner jid => hwf.rosterItem_of_within (hwithin owner) jid
    subscription := fun owner jid => hwf.rosterSubscription_eq owner jid
    requests := fun owner => hwf.pendingRequests_eq owner
    request := fun owner sender => rfl }

/-! ### Over a lowered quota -/

theorem Means.remove {owner : AccountKey syn} {jid : RosterJid syn} {item : RosterItem syn} (h : Means w.tables ledger)
    (hitem : ledger.item owner jid = some item) (hadvance : w.tables.canAdvance owner) :
    ∃ w', (removeRosterItem owner jid).run w = (.ok (some ⟨ledger.version owner + 1, item⟩), w') := by
  obtain ⟨hwf, rfl⟩ := h
  obtain ⟨record, hrow, rfl, hholds⟩ := hwf.row_of_item hitem
  exact ⟨_, run_removeRow_eq.mpr (.inr ⟨record, item, hrow, decodeItem_encodeItem hholds.value, hadvance, rfl, rfl⟩)⟩

theorem Means.replace {owner : AccountKey syn} {item replacement : RosterItem syn} (h : Means w.tables ledger)
    (hitem : ledger.item owner replacement.jid = some item) (hadvance : w.tables.canAdvance owner)
    (haccount : ledger.hasAccount owner) (hgroups : replacement.groups.length ≤ maxGroupsPerItem) {encoded : Bytes}
    (hencoded : encodeItem replacement = .ok encoded) (hle : itemLen replacement ≤ itemLen item) (quota : RosterQuota) :
    ∃ w', (putRosterItem owner replacement quota).run w = (.ok (ledger.version owner + 1), w') := by
  obtain ⟨hwf, rfl⟩ := h
  obtain ⟨record, hrow, _, hholds⟩ := hwf.row_of_item hitem
  have hlen : itemLen replacement ≤ record.length := by
    rw [length_encodeItem hholds.value]
    exact hle
  have hsize := hholds.size
  have hfits : admitItem w.tables.items owner.text (itemKey owner replacement.jid) (itemLen replacement)
      quota = .ok () := by
    apply admitItem_of_le hrow hlen
    simp only at hsize
    omega
  exact ⟨_, run_putRosterItem_eq.mpr ⟨hgroups, haccount, hfits, hadvance, rfl, encoded, hencoded, rfl⟩⟩

/-- **Storage refines a map.** Under one quota, the reads of the open transaction and of the committed
state succeed and return exactly what was written last, in the order of the contacts and of this owner
only. Whatever quotas were used, a refused write changes nothing committed, nor in its own transaction
unless the version counter is exhausted; and under any quota an item can be removed, or replaced by an
item that is no longer. -/
theorem roster_storage_refines_ledger (quota : RosterQuota) :
    (∀ s : Store syn, (storage (RosterWrite.under quota)).Reachable s →
      ReadsAs quota s.write.tables s.ledger ∧ ReadsAs quota s.write.committed s.committed) ∧
    ∀ s : Store syn, (storage fun _ => True).Reachable s →
      (∀ (op : RosterWrite syn) (e : RosterError) (w' : Write),
        op.run.run s.write = (.error e, w') → Spared op.owner s.write w') ∧
      ∀ (lowered : RosterQuota) (owner : AccountKey syn) (jid : RosterJid syn) (item : RosterItem syn),
        s.ledger.item owner jid = some item → s.write.tables.canAdvance owner →
          (∃ w', (removeRosterItem owner jid).run s.write =
            (.ok (some ⟨s.ledger.version owner + 1, item⟩), w')) ∧
          ∀ (replacement : RosterItem syn) (encoded : Bytes), replacement.jid = jid →
            s.ledger.hasAccount owner → replacement.groups.length ≤ maxGroupsPerItem →
            encodeItem replacement = .ok encoded → itemLen replacement ≤ itemLen item →
              ∃ w', (putRosterItem owner replacement lowered).run s.write = (.ok (s.ledger.version owner + 1), w') := by
  constructor
  · intro s hs
    obtain ⟨hmeans, hcommitted⟩ := storage_means hs
    obtain ⟨hwithin, hcommittedWithin⟩ := storage_within hs
    exact ⟨hmeans.readsAs hwithin, hcommitted.readsAs hcommittedWithin⟩
  · intro s hs
    have hmeans := (storage_means hs).1
    constructor
    · intro op e w' hrun
      exact RosterWrite.spared hmeans.wellFormed hrun
    · intro lowered owner jid item hitem hadvance
      refine ⟨hmeans.remove hitem hadvance, ?_⟩
      intro replacement encoded hjid haccount hgroups hencoded hle
      subst hjid
      exact hmeans.replace hitem hadvance haccount hgroups hencoded hle lowered

/-- The store after a write. -/
def Store.after (s : Store syn) (op : RosterWrite syn) : Store syn :=
  { s with write := (op.run.run s.write).2, ledger := op.apply s.ledger }

theorem reachable_after {s : Store syn} (hs : (storage allowed).Reachable s) {op : RosterWrite syn} (hop : allowed op)
    (hrun : (op.run.run s.write).1 = .ok ()) : (storage allowed).Reachable (s.after op) :=
  hs.step (.write op hop (Prod.ext hrun rfl))

def plainSyntax : JidSyntax := ⟨some⟩

def alice : AccountKey plainSyntax := ⟨⟨['a', '@', 'h'], by decide, by decide⟩, by decide, by decide⟩

def bob : AccountKey plainSyntax := ⟨⟨['b', '@', 'h'], by decide, by decide⟩, by decide, by decide⟩

def carol : AccountKey plainSyntax := ⟨⟨['c', '@', 'h'], by decide, by decide⟩, by decide, by decide⟩

def contactItem (account : AccountKey plainSyntax) (name : Option Text) : RosterItem plainSyntax :=
  ⟨account.jid, name, [], {}⟩

private theorem thousand_pos : 0 < 1000 := by decide

private theorem one_lt_wordSize : 1 < wordSize := by decide

private theorem thousand_lt_wordSize : 1000 < wordSize := by decide

def oneItemQuota : RosterQuota := ⟨1, 1000, Nat.one_pos, thousand_pos, one_lt_wordSize, thousand_lt_wordSize⟩

/-- `alice` exists and has written two contacts under the default quota. -/
def twoContacts : Store plainSyntax :=
  let account : Store plainSyntax :=
    ⟨⟨{}, { accounts := {alice.text} }⟩,
      { (Book.empty : Book plainSyntax) with hasAccount := fun owner => owner.text ∈ ({alice.text} : Finset Text) },
      Book.empty⟩
  (account.after (.put alice (contactItem bob none) .default)).after
    (.put alice (contactItem carol none) .default)

theorem twoContacts_reachable : (storage (RosterWrite.under .default)).Reachable twoContacts := by
  have hempty : (storage (RosterWrite.under .default)).Reachable
      (⟨⟨{}, {}⟩, Book.empty, Book.empty⟩ : Store plainSyntax) := .init rfl
  have haccount := hempty.step (.accounts {alice.text})
  have hbob := reachable_after haccount (show RosterWrite.under .default
    (.put alice (contactItem bob none) .default) from rfl) (by decide +kernel)
  exact reachable_after hbob (show RosterWrite.under .default
    (.put alice (contactItem carol none) .default) from rfl) (by decide +kernel)

theorem roster_storage_refines_ledger_twoContacts :
    ReadsAs .default twoContacts.write.tables twoContacts.ledger ∧
      ∃ w', (putRosterItem alice (contactItem carol none) oneItemQuota).run twoContacts.write = (.ok 3, w') := by
  have hreach := twoContacts_reachable
  have hany := storage_mono (fun _ _ => trivial) hreach
  refine ⟨((roster_storage_refines_ledger .default).1 _ hreach).1, ?_⟩
  exact (((roster_storage_refines_ledger .default).2 _ hany).2 oneItemQuota alice carol.jid
    (contactItem carol none) (by decide +kernel) (by decide +kernel)).2 (contactItem carol none) _ rfl
    (Finset.mem_singleton_self _) (by decide) rfl le_rfl

/-- The version of `alice` can be any number that fits: an item is put again and again. -/
theorem exists_version {version : Nat} (hle : 2 ≤ version) (hlt : version < wordSize) :
    ∃ s : Store plainSyntax, (storage (RosterWrite.under .default)).Reachable s ∧ s.ledger.hasAccount alice ∧
      s.ledger.item alice carol.jid = some (contactItem carol none) ∧ s.ledger.version alice = version := by
  induction version, hle using Nat.le_induction with
  | base => exact ⟨twoContacts, twoContacts_reachable, Finset.mem_singleton_self _, by decide +kernel, by decide +kernel⟩
  | succ version _ ih =>
    obtain ⟨s, hreach, haccount, hitem, rfl⟩ := ih (Nat.lt_of_succ_lt hlt)
    have hmeans := (storage_means hreach).1
    have hadvance : s.write.tables.canAdvance alice := by
      rw [← hmeans.book] at hlt
      exact hlt
    obtain ⟨w', hput⟩ : ∃ w', (putRosterItem alice (contactItem carol none) .default).run s.write =
        (.ok (s.ledger.version alice + 1), w') :=
      hmeans.replace hitem hadvance haccount (by decide) rfl le_rfl .default
    refine ⟨_, hreach.step (.write (.put alice (contactItem carol none) .default) rfl (Tx.run_void_eq.mpr ⟨_, hput⟩)),
      haccount, ?_, ?_⟩
    · simp [RosterWrite.apply, Book.advance, Book.setItem, contactItem]
    · simp [RosterWrite.apply, Book.advance, Book.setItem]

/-- Replacements that are refused. With two items where one is allowed, an item cannot be replaced by a longer one,
although the number of items does not grow and the bytes are far from their bound. An item with nine groups is
refused even where it is shorter. With the last version of all an item can be neither replaced nor removed. -/
theorem longer_replacement_rejected :
    (∃ s : Store plainSyntax, (storage (RosterWrite.under .default)).Reachable s ∧
      oneItemQuota.maxItems < (ownerEntries s.write.tables.items alice.text).length ∧
      s.ledger.item alice carol.jid = some (contactItem carol none) ∧
      itemLen (contactItem carol (some ['x'])) = itemLen (contactItem carol none) + 1 ∧
      rowsBytes (ownerEntries s.write.tables.items alice.text) + 1 ≤ oneItemQuota.maxBytes ∧
      ((putRosterItem alice (contactItem carol (some ['x'])) oneItemQuota).run s.write).1 = .error .quotaExceeded) ∧
    (∃ (s : Store plainSyntax) (item replacement : RosterItem plainSyntax),
      (storage (RosterWrite.under .default)).Reachable s ∧ s.ledger.item alice carol.jid = some item ∧
      replacement.jid = carol.jid ∧ itemLen replacement < itemLen item ∧
      ((putRosterItem alice replacement .default).run s.write).1 = .error .quotaExceeded) ∧
    ∃ s : Store plainSyntax, (storage (RosterWrite.under .default)).Reachable s ∧
      s.ledger.item alice carol.jid = some (contactItem carol none) ∧
      (∀ version w', (putRosterItem alice (contactItem carol none) .default).run s.write ≠ (.ok version, w')) ∧
      ∀ removed w', (removeRosterItem alice carol.jid).run s.write ≠ (.ok removed, w') := by
  refine ⟨⟨twoContacts, twoContacts_reachable, ?_, ?_, ?_, ?_, ?_⟩, ?_, ?_⟩
  · decide +kernel
  · decide +kernel
  · decide +kernel
  · decide +kernel
  · decide +kernel
  · exact ⟨twoContacts.after (.put alice (contactItem carol (some (.replicate 60 'x'))) .default), _,
      ⟨carol.jid, none, .replicate 9 ['g'], {}⟩, reachable_after twoContacts_reachable rfl (by decide +kernel),
      rfl, rfl, by decide +kernel, by decide +kernel⟩
  · obtain ⟨s, hreach, -, hitem, hversion⟩ := @exists_version (wordSize - 1) (by decide) (by decide)
    have hmeans := (storage_means hreach).1
    have hlast : ¬ s.write.tables.canAdvance alice := by
      rw [← hmeans.book] at hversion
      rw [Tables.canAdvance, show s.write.tables.rosterVersion alice = wordSize - 1 from hversion]
      decide
    refine ⟨s, hreach, hitem, fun version w' hput => ?_, fun removed w' hremove => ?_⟩
    · obtain ⟨-, -, -, hadvance, -⟩ := run_putRosterItem_eq.mp hput
      exact hlast hadvance
    · obtain ⟨record, hrow, -⟩ := hmeans.wellFormed.row_of_item (hmeans.book ▸ hitem)
      obtain ⟨hnone, -⟩ | ⟨_, _, -, -, hadvance, -⟩ := run_removeRow_eq.mp hremove
      · cases hrow.symm.trans hnone
      · exact hlast hadvance

end Lonewolf.Roster
