import Lonewolf.Roster.Pushes

/-!
# Version accounting

Every write or removal of an item takes the owner's version one further, and nothing else changes it while
the account lives. A client that has fetched the roster and applies the pushes in the order of their
versions holds the roster that is stored.
-/

namespace Lonewolf.Roster

open Texts Transactions

variable {syn : JidSyntax} {site : Site} {w w' : Write} {owner : AccountKey syn} {jid : RosterJid syn}
  {effects : List (Effect syn)}

/-! ### Storage -/

namespace RosterWrite

variable (b : Book syn)

/-- The write puts or removes an item. A subscription that is already there and an item that is not there
make it do nothing. -/
def edits : RosterWrite syn → Bool
  | .put _ _ _ => true
  | .set _ owner jid subscription | .transition owner jid _ subscription =>
    (b.sub owner jid).any fun old => decide (old ≠ subscription)
  | .removeSubscription owner jid | .removeItem owner jid => (b.item owner jid).isSome
  | .putPending _ _ _ | .removePending _ _ | .clear _ => false

/-- The account's roster is given up. -/
def clears : RosterWrite syn → Bool
  | .clear _ => true
  | _ => false

theorem version_setSubscription (subscription : RosterSubscription) (o : AccountKey syn) :
    (b.setSubscription owner jid subscription).version o =
      b.version o + if o = owner ∧ (b.sub owner jid).any (fun old => decide (old ≠ subscription)) then 1
        else 0 := by
  rw [Book.setSubscription, Book.sub]
  cases b.item owner jid with
  | none => simp
  | some item =>
    by_cases hsame : item.subscription = subscription
    · simp [hsame]
    · by_cases ho : o = owner <;> simp [hsame, ho, Book.setItem, Book.advance]

theorem version_removeItem (o : AccountKey syn) :
    (b.removeItem owner jid).version o = b.version o + if o = owner ∧ (b.item owner jid).isSome then 1 else 0 := by
  rw [Book.removeItem]
  cases b.item owner jid with
  | none => simp
  | some item => by_cases ho : o = owner <;> simp [ho, Book.setItem, Book.advance]

variable {op : RosterWrite syn}

theorem version_apply (hop : op.clears = false) (o : AccountKey syn) :
    (op.apply b).version o = b.version o + if o = op.owner ∧ op.edits b = true then 1 else 0 := by
  cases op with
  | put owner item quota =>
    by_cases ho : o = owner <;> simp [ho, apply, RosterWrite.owner, edits, Book.setItem, Book.advance]
  | set before owner jid subscription => exact version_setSubscription b subscription o
  | transition owner jid expected subscription => exact version_setSubscription b subscription o
  | removeSubscription owner jid => exact version_removeItem b o
  | removeItem owner jid => exact version_removeItem b o
  | putPending owner request max => simp [apply, edits, Book.setRequest]
  | removePending owner sender => simp [apply, edits, Book.setRequest]
  | clear owner => cases hop

theorem item_setSubscription {subscription : RosterSubscription}
    (hsame : (b.sub owner jid).any (fun old => decide (old ≠ subscription)) = false) :
    (b.setSubscription owner jid subscription).item = b.item := by
  rw [Book.sub] at hsame
  rw [Book.setSubscription]
  cases hitem : b.item owner jid with
  | none => rfl
  | some item =>
    rw [hitem] at hsame
    simp only [Option.map_some, Option.any_some, decide_eq_false_iff_not, not_not] at hsame
    simp only
    rw [if_pos hsame]

theorem item_removeItem (hnone : (b.item owner jid).isSome = false) : (b.removeItem owner jid).item = b.item := by
  rw [Book.removeItem, Option.isSome_eq_false_iff.mp hnone |> Option.isNone_iff_eq_none.mp]

theorem item_apply (hop : op.clears = false) (hedits : op.edits b = false) : (op.apply b).item = b.item := by
  cases op with
  | put owner item quota => cases hedits
  | set before owner jid subscription => exact item_setSubscription b hedits
  | transition owner jid expected subscription => exact item_setSubscription b hedits
  | removeSubscription owner jid => exact item_removeItem b hedits
  | removeItem owner jid => exact item_removeItem b hedits
  | putPending owner request max => rfl
  | removePending owner sender => rfl
  | clear owner => cases hop

end RosterWrite

/-! ### Writes that fail -/

variable {α : Type}

def Still (x : WriteTx α) : Prop := ∀ w, (x.run w).2.tables.versions = w.tables.versions

/-- The versions stay as they are when there is an error. -/
def StillOnError (x : WriteTx α) : Prop :=
  ∀ w e w', x.run w = (.error e, w') → w'.tables.versions = w.tables.versions

theorem still_query (f : Tables → Except RosterError α) : Still (query f) := fun _ => rfl

theorem still_update {f : Tables → Tables} (h : ∀ t, (f t).versions = t.versions) : Still (update f) :=
  fun w => h w.tables

variable {x : WriteTx α}

theorem Still.onError (h : Still x) : StillOnError x := by
  intro w e w' hrun
  have hstill := h w
  rw [hrun] at hstill
  exact hstill

theorem StillOnError.bind {β : Type} {f : α → WriteTx β} (hx : Still x) (hf : ∀ a, StillOnError (f a)) :
    StillOnError (x >>= f) := by
  intro w e w' hrun
  rcases Tx.run_bind_error.mp hrun with herror | ⟨a, w₁, hok, herror⟩
  · exact hx.onError w e w' herror
  · have hstill := hx w
    rw [hok] at hstill
    exact (hf a w₁ e w' herror).trans hstill

theorem StillOnError.bind_pure {β : Type} (hx : StillOnError x) (f : α → β) :
    StillOnError (x >>= fun a => pure (f a)) := by
  intro w e w' hrun
  rcases Tx.run_bind_error.mp hrun with herror | ⟨a, w₁, _, herror⟩
  · exact hx w e w' herror
  · simp at herror

theorem stillOnError_advanceVersion (owner : AccountKey syn) : StillOnError (advanceVersion owner.text) := by
  intro w e w' hrun
  obtain ⟨_, _, rfl⟩ := run_advanceVersion_error.mp hrun
  rfl

theorem stillOnError_copySubscription (before : Tables) (owner : AccountKey syn) (key : Text)
    (expected : Option RosterSubscription) (subscription : RosterSubscription) :
    StillOnError (copySubscription before owner.text key expected subscription) := by
  refine .bind (still_query _) fun _ => .bind (still_query _) fun current => ?_
  cases current with
  | none => exact Still.onError fun _ => rfl
  | some current =>
    refine .bind (still_query _) fun copied => ?_
    obtain ⟨old, bytes⟩ := copied
    show StillOnError (if old = subscription then _ else _)
    split
    · exact Still.onError fun _ => rfl
    · exact .bind (still_update fun _ => rfl) fun _ => (stillOnError_advanceVersion owner).bind_pure _

theorem stillOnError_removeRow (owner : AccountKey syn) (jid : RosterJid syn) (decode : Bytes → Except RosterError α) :
    StillOnError (removeRow owner jid decode) := by
  refine .bind (still_query _) fun record => .bind (still_update fun _ => rfl) fun _ => ?_
  cases record with
  | none => exact Still.onError fun _ => rfl
  | some record =>
    exact .bind (still_query _) fun _ => (stillOnError_advanceVersion owner).bind_pure _

theorem RosterWrite.stillOnError (op : RosterWrite syn) : StillOnError op.run := by
  cases op with
  | put owner item quota =>
    refine StillOnError.bind_pure ?_ _
    exact .bind (still_query _) fun _ => .bind (still_query _) fun _ => .bind (still_query _) fun _ =>
      .bind (still_query _) fun _ => .bind (still_update fun _ => rfl) fun _ =>
        stillOnError_advanceVersion owner
  | set before owner jid subscription =>
    exact StillOnError.bind_pure (stillOnError_copySubscription _ _ _ _ _) _
  | transition owner jid expected subscription =>
    refine StillOnError.bind_pure ?_ _
    exact .bind (fun _ => rfl) fun _ => stillOnError_copySubscription _ _ _ _ _
  | removeSubscription owner jid | removeItem owner jid =>
    exact StillOnError.bind_pure (stillOnError_removeRow _ _ _) _
  | putPending owner request max =>
    exact .bind (still_query _) fun _ => .bind (still_query _) fun _ =>
      Still.onError (still_update fun _ => rfl)
  | removePending owner sender =>
    refine StillOnError.bind_pure ?_ _
    exact .bind (still_query _) fun _ => .bind (still_update fun _ => rfl) fun _ =>
      Still.onError fun _ => rfl
  | clear owner =>
    intro w e w' hrun
    simp [RosterWrite.run, clearRoster] at hrun

/-! ### Clients -/

/-- The roster that a client holds after it has fetched it. -/
def OwnRoster.ofSnapshot (snapshot : RosterSnapshot syn) : OwnRoster syn :=
  ⟨snapshot.version, fun j => snapshot.items.find? fun item => item.jid = j⟩

theorem snapshotItems_eq {quota : RosterQuota} {rows : List (Text × Bytes)} {items items' : List (RosterItem syn)}
    {count bytes : Nat} (h : List.Forall₂ (HoldsItem owner) rows items)
    (hread : snapshotItems owner.text quota rows count bytes = .ok items') : items' = items := by
  induction h generalizing count bytes items' with
  | nil =>
    cases hread
    rfl
  | @cons row item rows items hrow _ ih =>
    obtain ⟨key, record⟩ := row
    obtain rfl : key = itemKey owner item.jid := hrow.key
    simp only [snapshotItems, except_bind_eq_ok] at hread
    obtain ⟨_, _, hread⟩ := hread
    split at hread
    · cases hread
    · simp only [decodeKey_itemKey, except_bind_eq_ok, Except.ok.injEq] at hread
      obtain ⟨_, rfl, _, _, _, hitem, _, hrest, hread⟩ := hread
      rw [decodeItem_encodeItem hrow.value] at hitem
      cases hitem
      cases hread
      rw [ih hrest]

theorem ofSnapshot_roster {t : Tables} {quota : RosterQuota} {snapshot : RosterSnapshot syn} (h : t.WellFormed syn)
    (hread : t.roster owner quota = .ok snapshot) : OwnRoster.ofSnapshot snapshot = (t.book syn).rosters.own owner := by
  obtain ⟨items, hitems⟩ := h.exists_items owner
  simp only [Tables.roster, except_bind_eq_ok] at hread
  obtain ⟨_, hrows, hread⟩ := hread
  cases hread
  rw [snapshotItems_eq hitems hrows]
  obtain ⟨hsorted, hmem⟩ := h.items_of_rows hitems
  ext1
  · rfl
  · funext j
    show items.find? (fun item => item.jid = j) = itemAt t owner j
    cases hfind : items.find? fun item => item.jid = j with
    | some item =>
      have hjid := List.find?_some hfind
      obtain rfl : item.jid = j := by simpa using hjid
      exact ((hmem item).mp (List.mem_of_find?_eq_some hfind)).symm
    | none =>
      symm
      by_contra hne
      obtain ⟨item, hitem⟩ := Option.ne_none_iff_exists'.mp hne
      obtain rfl := h.itemAt_jid hitem
      have hnot := List.find?_eq_none.mp hfind item ((hmem item).mpr hitem)
      simp at hnot

theorem Notified.follows {o : AccountKey syn} {r r' : OwnRoster syn} (h : Notified o r effects r')
    (hretired : .retireInterested o ∉ effects) : ∃ es, es.Perm (pushesOf o effects) ∧ Follows o r es r' := by
  obtain ⟨es, hidden, hfollows, hperm, hhidden⟩ := h
  have hnil : hidden = [] := by
    by_contra hne
    exact hretired (hhidden hne)
  rw [hnil, List.append_nil] at hperm
  exact ⟨es, hperm, hfollows⟩

/-- A write or removal of an item takes its owner's version one further, and nothing else that succeeds
changes a version while the account lives; what fails changes none. The owner is told each change, with the
version that it led to, or its sessions are retired; and a client that applies the pushes in the order of
their versions to the roster it has fetched holds the roster that is stored. -/
theorem roster_versions_count_changes :
    (∀ s : Store syn, (storage fun _ => True).Reachable s → ∀ op : RosterWrite syn,
      (∀ w', op.run.run s.write = (.ok (), w') → op.clears = false →
        (∀ o : AccountKey syn, w'.tables.rosterVersion o =
          s.write.tables.rosterVersion o + if o = op.owner ∧ op.edits s.ledger = true then 1 else 0) ∧
        (op.edits s.ledger = false → (w'.tables.book syn).item = s.ledger.item)) ∧
      ∀ e w', op.run.run s.write = (.error e, w') → w'.committed = s.write.committed ∧
        ∀ o : AccountKey syn, w'.tables.rosterVersion o = s.write.tables.rosterVersion o) ∧
    ∀ (t t' : Tables) (o : AccountKey syn) (effects : List (Effect syn)), (server syn site).Reachable t →
      Since site o t effects t' →
        Notified o ((t.book syn).rosters.own o) effects ((t'.book syn).rosters.own o) ∧
        ∀ (quota : RosterQuota) (snapshot : RosterSnapshot syn), t.roster o quota = .ok snapshot →
          .retireInterested o ∉ effects →
            (∃ es : List (Edit syn), es.Perm (pushesOf o effects) ∧ es.Pairwise fun e e' => e.version < e'.version) ∧
            ∀ es : List (Edit syn), es.Perm (pushesOf o effects) → (es.Pairwise fun e e' => e.version < e'.version) →
              es.foldl OwnRoster.apply (.ofSnapshot snapshot) = (t'.book syn).rosters.own o := by
  refine ⟨?_, ?_⟩
  · intro s hs op
    obtain ⟨hwf, hbook⟩ := (storage_means hs).1
    refine ⟨?_, ?_⟩
    · intro w' hrun hclears
      have hleads := RosterWrite.leads hwf hrun
      rw [hbook] at hleads
      refine ⟨?_, ?_⟩
      · intro o
        have hversion := RosterWrite.version_apply s.ledger hclears o
        rw [← hleads.book, ← hbook] at hversion
        rw [← hbook]
        exact hversion
      · intro hedits
        rw [← Write.book, hleads.book]
        exact RosterWrite.item_apply s.ledger hclears hedits
    · intro e w' hrun
      refine ⟨(RosterWrite.spared hwf hrun).1, ?_⟩
      intro o
      rw [Tables.rosterVersion, op.stillOnError s.write e w' hrun]
      rfl
  · intro t t' o effects ht hsince
    have hsound := sound_of_reachable ht
    have hnotified := hsince.notified hsound
    refine ⟨hnotified, ?_⟩
    intro quota snapshot hread hretired
    obtain ⟨es, hperm, hfollows⟩ := hnotified.follows hretired
    refine ⟨⟨es, hperm, hfollows.sorted⟩, ?_⟩
    intro es' hperm' hsorted
    rw [ofSnapshot_roster hsound.wellFormed hread]
    exact (hfollows.of_perm (hperm'.trans hperm.symm) hsorted).result

/-! `alice`, who has subscribed to `bob`, fetches the roster and gives the item a name. -/

def giveName : Operation plainSyntax := .set alice bob.jid (some ['x']) []

def renamedItem : RosterItem plainSyntax := ⟨bob.jid, some ['x'], [], { state := .to }⟩

theorem commit_giveName :
    giveName.commit sampleSite (fun _ => {}) approvedRequest =
      some (afterOperations approvedRequest [giveName], [.push alice ⟨3, renamedItem⟩]) := by
  decide +kernel

theorem roster_versions_count_changes_giveName :
    ∃ snapshot, approvedRequest.roster alice .default = .ok snapshot ∧ snapshot.version = 2 ∧
      [(⟨alice, 3, bob.jid, some renamedItem⟩ : Edit plainSyntax)].foldl OwnRoster.apply (.ofSnapshot snapshot) =
        ((afterOperations approvedRequest [giveName]).book plainSyntax).rosters.own alice := by
  have hsince : Since sampleSite alice approvedRequest ([] ++ [.push alice ⟨3, renamedItem⟩])
      (afterOperations approvedRequest [giveName]) :=
    .step .refl (show giveName.Admissible sampleSite from trivial) commit_giveName (by simp [giveName])
  obtain ⟨_, hclient⟩ := roster_versions_count_changes.2 _ _ _ _ reachable_approvedRequest hsince
  refine ⟨⟨2, [⟨bob.jid, none, [], { state := .to }⟩]⟩, by decide +kernel, rfl, ?_⟩
  refine (hclient .default _ (by decide +kernel) (by simp)).2 _ ?_ (List.pairwise_singleton _ _)
  exact .refl _

end Lonewolf.Roster
