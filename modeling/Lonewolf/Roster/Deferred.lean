import Lonewolf.Roster.Deletion
import Lonewolf.Roster.Pushes

/-!
# The deferred pushes of a deletion

The pushes of a deletion are computed from the snapshot after the commit, and nothing of the transaction is kept for
them. They tell what the transaction wrote. The writes themselves check the snapshot against the rows and the versions
that they find; these checks cannot fail as long as the snapshot is from before the first write.
-/

namespace Lonewolf.Roster

open Transactions Cursors

variable {syn : JidSyntax} {limits : Limits} {hosts : HostLookup} {before : Tables} {X o : AccountKey syn}
  {contact : RosterJid syn} {w w' : Write}

/-! ### Errors of a deletion -/

/-- The only error is that a version cannot advance. -/
def OnlyOverflows {α : Type} (x : WriteTx α) (w : Write) : Prop := ∀ e w', x.run w = (.error e, w') → e = .valueTooLarge

namespace OnlyOverflows

variable {α β : Type} {x : WriteTx α}

theorem of_succeeds (h : x.Succeeds w) : OnlyOverflows x w := by
  intro e w' herror
  obtain ⟨a, t, hrun⟩ := h
  rw [hrun] at herror
  cases herror

theorem bind {f : α → WriteTx β} (hx : OnlyOverflows x w)
    (hf : ∀ a u, x.run w = (.ok a, u) → OnlyOverflows (f a) u) : OnlyOverflows (x >>= f) w := by
  intro e w' herror
  rcases Tx.run_bind_error.mp herror with herror | ⟨a, u, hrun, herror⟩
  · exact hx e w' herror
  · exact hf a u hrun e w' herror

theorem of_guarded {p : Prop} (h : x.Guarded w .valueTooLarge p) : OnlyOverflows x w := fun _ _ => h.error_eq

end OnlyOverflows

variable {subscription : RosterSubscription}

/-! ### Loops -/

/-- The tables in the middle of a deletion: the accounts beside the deleted one are there, and the rows about the
contacts still to come are as in the snapshot. -/
structure Amid (hosts : HostLookup) (before : Tables) (X : AccountKey syn) (contacts : List (RosterJid syn))
    (w : Write) : Prop where
  wellFormed : w.tables.WellFormed syn
  hasAccount : ∀ O, O ≠ X → (before.book syn).hasAccount O → (w.book syn).hasAccount O
  nodup : contacts.Nodup
  fresh : Fresh X (counterpartOf hosts before X) (before.book syn) (w.book syn) contacts

namespace Amid

variable {contacts : List (RosterJid syn)} {b : Book syn}

theorem hasCounterpart (h : Amid hosts before X contacts w) (O : AccountKey syn)
    (hparty : counterpartOf hosts before X contact = some O) : (w.book syn).hasAccount O := by
  obtain ⟨_, _, hhas, hO⟩ := counterpartOf_eq_some.mp hparty
  exact h.hasAccount O hO hhas

theorem head (h : Amid hosts before X (contact :: contacts) w) : Amid hosts before X [contact] w :=
  ⟨h.wellFormed, h.hasAccount, List.nodup_singleton contact, h.fresh.mono (by simp)⟩

theorem tail (h : Amid hosts before X (contact :: contacts) w) (hround : Leads w w' b)
    (hrows : SameRows (Touches X (counterpartOf hosts before X) contact) (w.book syn) b) :
    Amid hosts before X contacts w' where
  wellFormed := hround.wellFormed
  hasAccount O hO hhas := by
    rw [hround.book, hrows.hasAccount]
    exact h.hasAccount O hO hhas
  nodup := (List.nodup_cons.mp h.nodup).2
  fresh := by
    rw [hround.book]
    exact h.fresh.tail (partyOf_counterpartOf hosts before X) (List.nodup_cons.mp h.nodup).1 hrows

end Amid

theorem Rounds.onlyOverflows {β : Type} {body : RosterJid syn → β → WriteTx Unit} {p : RosterJid syn → Prop}
    {round : Book syn → RosterJid syn → Book syn} (hrounds : Rounds hosts before X body round p)
    (hround : ∀ w contact value, Amid hosts before X [contact] w → p contact → OnlyOverflows (body contact value) w)
    {entries : List (RosterJid syn × β)} (h : Amid hosts before X (entries.map Prod.fst) w)
    (hp : ∀ contact ∈ entries.map Prod.fst, p contact) : OnlyOverflows (forEach body entries) w := by
  induction entries generalizing w with
  | nil => exact .of_succeeds (Tx.succeeds_pure.mpr trivial)
  | cons entry entries ih =>
    rw [List.map_cons] at h hp
    have hentry := hp entry.1 List.mem_cons_self
    refine (hround w entry.1 entry.2 h.head hentry).bind fun _ w₁ hrun => ?_
    exact ih (h.tail (hrounds.leads h.wellFormed hentry h.head.fresh hrun) (hrounds.rows _ _)) fun contact hmem =>
      hp contact (List.mem_cons_of_mem _ hmem)

theorem fresh_withoutAccount (party : RosterJid syn → Option (AccountKey syn)) (contacts : List (RosterJid syn)) :
    Fresh X party (before.book syn) ((before.withoutAccount X).book syn) contacts := by
  apply fresh_of_eq <;> rfl

theorem amid_start (h : before.WellFormed syn) {contacts : List (RosterJid syn)} (hnodup : contacts.Nodup) :
    Amid hosts before X contacts ⟨before, before.withoutAccount X⟩ where
  wellFormed := h.of_accounts _
  hasAccount _ hO hhas := Finset.mem_erase.mpr ⟨fun heq => hO (AccountKey.text_inj.mp heq), hhas⟩
  nodup := hnodup
  fresh := fresh_withoutAccount _ contacts

theorem onlyOverflows_forgetRows (h : before.WellFormed syn) (hosts : HostLookup) (X : AccountKey syn) :
    OnlyOverflows (forgetRows hosts before X) ⟨before, before.withoutAccount X⟩ := by
  obtain ⟨items, hcontacts, heq⟩ := forgetRows_eq h hosts X
  have hparty := partyOf_counterpartOf hosts before X
  have hpassed := passed_withoutAccount h X
  have hstart : Amid hosts before X (items.map Prod.fst) ⟨before, before.withoutAccount X⟩ :=
    amid_start h (hcontacts ▸ h.nodup_contactsOf X)
  have hlisted : ∀ contact ∈ items.map Prod.fst, ((before.book syn).item X contact).isSome :=
    fun contact hmem => (h.mem_contactsOf contact).mp (hcontacts ▸ hmem)
  rw [heq]
  refine ((rounds_forgetItem h).onlyOverflows (fun w contact _ hround hsome => .of_guarded (guarded_forgetItem h
    hround.wellFormed hround.hasCounterpart hround.fresh hsome)) hstart hlisted).bind fun _ w₁ hitems => ?_
  have hitems := (rounds_forgetItem h).run hstart.wellFormed hstart.nodup hlisted hstart.fresh hitems
  rw [hcontacts] at hitems
  refine ((rounds_forgetRequest h).onlyOverflows (fun w sender _ hround hasks => .of_guarded (guarded_forgetRequest h
    hround.wellFormed hround.hasCounterpart hround.fresh hasks.2)) ?_ ?_).bind fun _ w₂ _ => .of_succeeds ⟨(), _, rfl⟩
  · rw [map_fst_unit]
    refine ⟨hitems.wellFormed, fun O hO hhas => ?_, hpassed.senders_nodup, ?_⟩
    · rw [hitems.book, ← Book.removeEach, (sameRows_removeEach X _ _ _).hasAccount]
      exact hstart.hasAccount O hO hhas
    · rw [hitems.book]
      exact (fresh_withoutAccount _ _).trans (hpassed.fresh_removeEach hparty)
  · rw [map_fst_unit]
    exact fun sender => (hpassed.mem_senders sender).mp

/-! ### Versions of a deletion that succeeds -/

theorem cleanupVersion_of_prepare {projection : CleanupProjection} {u : Unit}
    (hchanged : projection.changed = some subscription)
    (hrun : (prepareCleanup before X contact projection (some o)).run w = (.ok u, w')) :
    ∃ version, cleanupVersion before o = .ok version := by
  have hpatch {v v' : Write} (hrun : (patchCounterpart before X o (some subscription)).run v = (.ok u, v')) :
      ∃ version, cleanupVersion before o = .ok version := by
    simp only [patchCounterpart, Tx.run_bind_eq, run_query_eq] at hrun
    obtain ⟨version, _, ⟨hversion, _⟩, _⟩ := hrun
    exact ⟨version, hversion⟩
  unfold prepareCleanup at hrun
  simp only [cleanupCounterpart, hchanged] at hrun
  split at hrun
  · simp only [Tx.run_bind_eq] at hrun
    obtain ⟨_, _, _, _, _, _, _, _, _, hrun⟩ := hrun
    exact hpatch hrun
  · simp only [Tx.run_bind_eq] at hrun
    obtain ⟨_, _, _, hrun⟩ := hrun
    exact hpatch hrun

theorem exists_round_of_forEach {α β : Type} {f : α → β → WriteTx Unit} {entries : List (α × β)} {entry : α × β}
    {u : Unit} (hmem : entry ∈ entries) (hrun : (forEach f entries).run w = (.ok u, w')) :
    ∃ v v' : Write, ∃ u', (f entry.1 entry.2).run v = (.ok u', v') := by
  induction entries generalizing w with
  | nil => cases hmem
  | cons first entries ih =>
    simp only [forEach, Tx.run_bind_eq] at hrun
    obtain ⟨u', w₁, hround, hrun⟩ := hrun
    rcases List.mem_cons.mp hmem with rfl | hmem
    · exact ⟨w, w₁, u', hround⟩
    · exact ih hmem hrun

theorem cleanupVersion_of_forgetRows {u : Unit} (h : before.WellFormed syn)
    (hvisited : o.jid ∈ visited before X) (hparty : counterpartOf hosts before X o.jid = some o)
    (hchanged : (cleanupProjection ((before.book syn).sub X o.jid) ((before.book syn).asked X o.jid)
      ((before.book syn).sub o X.jid)).changed = some subscription)
    (hrun : (forgetRows hosts before X).run w = (.ok u, w')) : ∃ version, cleanupVersion before o = .ok version := by
  obtain ⟨items, hcontacts, heq⟩ := forgetRows_eq h hosts X
  rw [heq] at hrun
  simp only [Tx.run_bind_eq] at hrun
  obtain ⟨_, _, hitems, _, _, hsenders, _⟩ := hrun
  rcases List.mem_append.mp hvisited with hmem | hmem
  · obtain ⟨item, hitem⟩ := Option.isSome_iff_exists.mp ((h.mem_contactsOf o.jid).mp hmem)
    rw [Book.sub, hitem, Option.map_some] at hchanged
    rw [← hcontacts] at hmem
    obtain ⟨⟨jid, own⟩, hentry, hjid⟩ := List.mem_map.mp hmem
    obtain rfl : jid = o.jid := hjid
    obtain ⟨v, v', _, hround⟩ := exists_round_of_forEach hentry hitems
    simp only [forgetItem, Tx.run_bind_eq, run_query_eq, counterpartView_eq h, hparty, Except.ok.injEq] at hround
    obtain ⟨_, _, ⟨rfl, rfl⟩, hround⟩ := hround
    -- of the account's own subscription, only that there is one matters
    exact cleanupVersion_of_prepare hchanged hround
  · have hnone := ((h.passed X).mem_senders o.jid).mp hmem
    rw [Book.sub, hnone.2, Option.map_none] at hchanged
    have hown : before.rosterSubscription X o.jid = .ok none := by
      rw [h.rosterSubscription_eq, show itemAt before X o.jid = none from hnone.2]
      rfl
    have hentry : (o.jid, ()) ∈ (unlisted before X (sendersOf before X)).map fun sender => (sender, ()) :=
      List.mem_map_of_mem hmem
    obtain ⟨v, v', _, hround⟩ := exists_round_of_forEach hentry hsenders
    simp only [forgetRequest, Tx.run_bind_eq, run_query_eq, hown, Except.ok.injEq] at hround
    obtain ⟨_, _, ⟨rfl, rfl⟩, hround⟩ := hround
    simp only [Tx.run_bind_eq, run_query_eq, counterpartView_eq h, hparty, Except.ok.injEq] at hround
    obtain ⟨_, _, ⟨rfl, rfl⟩, hround⟩ := hround
    exact cleanupVersion_of_prepare hchanged hround

/-! ### Deliveries that fail -/

/-- The calls that are made when the first that fails ends them. -/
def attempted (fails : Effect syn → Bool) : List (Effect syn) → List (Effect syn)
  | [] => []
  | effect :: rest => effect :: if fails effect then [] else attempted fails rest

/-- The calls of the deferred deliveries. A call that fails ends its round, and the loops go on. -/
def deferredCalls (site : Site) (limits : Limits) (before : Tables) (X : AccountKey syn)
    (fails : Effect syn → Bool) : List (Effect syn) :=
  if site.mounted X.domain then
    (visited before X).flatMap fun contact => attempted fails (replayRound limits site.hosts before X contact)
  else []

section Attempts

variable {fails : Effect syn → Bool} {effects : List (Effect syn)}

theorem attempted_sublist (fails : Effect syn → Bool) (effects : List (Effect syn)) :
    (attempted fails effects).Sublist effects := by
  induction effects with
  | nil => exact .slnil
  | cons effect rest ih =>
    rw [attempted]
    split
    · exact (List.nil_sublist rest).cons_cons effect
    · exact ih.cons_cons effect

theorem attempted_append (last : List (Effect syn)) :
    attempted fails (effects ++ last) =
      if effects.any fails then attempted fails effects else effects ++ attempted fails last := by
  induction effects with
  | nil => rfl
  | cons effect rest ih =>
    rw [List.cons_append, attempted, attempted, List.any_cons, ih]
    cases fails effect
    · simp only [Bool.false_eq_true, if_false, Bool.false_or, List.cons_append]
      split <;> rfl
    · rfl

theorem attempted_of_length_le_one (h : effects.length ≤ 1) : attempted fails effects = effects := by
  rcases effects with _ | ⟨effect, _ | ⟨_, _⟩⟩
  · rfl
  · rw [attempted, attempted, ite_self]
  · simp at h

theorem attempted_none_fail : attempted (fun _ => false) effects = effects := by
  induction effects with
  | nil => rfl
  | cons effect rest ih => rw [attempted, ih, if_neg Bool.false_ne_true]

theorem pushes_attempted_of_nil (h : pushes effects = []) : pushes (attempted fails effects) = [] :=
  List.sublist_nil.mp (h ▸ (attempted_sublist fails effects).filterMap editOf)

theorem length_replayPush_le_one (other : AccountKey syn) : (replayPush limits before X contact other).length ≤ 1 := by
  unfold replayPush replayCleanupPush
  split
  · exact Nat.zero_le 1
  · split <;> exact Nat.le_refl 1

theorem pushes_attempted_round (contact : RosterJid syn) :
    pushes (attempted fails (replayRound limits hosts before X contact)) =
      (counterpartOf hosts before X contact).elim [] fun other =>
        if (replayNotices before X contact other).any fails then []
        else pushes (replayPush limits before X contact other) := by
  have hround : pushes (replayRound limits hosts before X contact) = _ := pushes_replayRound contact
  cases hparty : counterpartOf hosts before X contact with
  | none =>
    rw [hparty] at hround
    exact pushes_attempted_of_nil hround
  | some other =>
    rw [Option.elim_some, replayRound, hparty]
    simp only
    rw [attempted_append, attempted_of_length_le_one (length_replayPush_le_one other)]
    split
    · exact pushes_attempted_of_nil (pushes_replayNotices before X contact other)
    · rw [pushes_append, pushes_replayNotices, List.nil_append]

end Attempts

/-! ### What a contact is told -/

/-- The row is larger than the owner's quota now allows, as it can be after the quota was lowered. -/
def OverQuota (limits : Limits) (t : Tables) (owner : AccountKey syn) (jid : RosterJid syn) : Prop :=
  ∃ record, t.items.get? (itemKey owner jid) = some record ∧
    (quota limits owner).maxBytes < (itemKey owner jid).byteLen + record.length

theorem rosterItem_overQuota (h : OverQuota limits before o contact) :
    before.rosterItem o contact (quota limits o) = .error .quotaExceeded := by
  obtain ⟨record, hrow, hlt⟩ := h
  rw [Tables.rosterItem, hrow]
  exact if_pos hlt

theorem replayCleanupPush_eq {item : RosterItem syn} {version : Nat}
    (h : before.WellFormed syn) (hitem : (before.book syn).item o X.jid = some item)
    (hversion : cleanupVersion before o = .ok version) (hquota : ¬ OverQuota limits before o X.jid) :
    replayCleanupPush limits before X o (some subscription) =
      [.push o ⟨version, { item with subscription := subscription }⟩] := by
  have hread : before.rosterItem o X.jid (quota limits o) = .ok (some item) := by
    rw [← show itemAt before o X.jid = some item from hitem]
    refine h.rosterItem_of_le fun record hrow => Nat.le_of_not_lt fun hlt => hquota ⟨record, hrow, hlt⟩
  simp only [replayCleanupPush, replayedPush, hversion, hread]
  rfl

theorem replayCleanupPush_overQuota {version : Nat}
    (hversion : cleanupVersion before o = .ok version) (hquota : OverQuota limits before o X.jid) :
    replayCleanupPush limits before X o (some subscription) = [.retireInterested o] := by
  simp only [replayCleanupPush, replayedPush, hversion, rosterItem_overQuota hquota]
  rfl

/-- What another account is told of a deletion from `t` to `t'`. -/
structure ToldOf (limits : Limits) (t t' : Tables) (X o : AccountKey syn) (fails : Effect syn → Bool)
    (calls : List (Effect syn)) : Prop where
  /-- None but the item about the deleted account changes. -/
  beside : ∀ j, j ≠ X.jid → (t'.book syn).item o j = (t.book syn).item o j
  unchanged : (t'.book syn).item o X.jid = (t.book syn).item o X.jid → pushesOf o calls = []
  /-- A change is pushed once, with the item and the version that were committed … -/
  pushed : (t'.book syn).item o X.jid ≠ (t.book syn).item o X.jid →
    (replayNotices t X o.jid o).any fails = false → ¬ OverQuota limits t o X.jid →
      ∃ item, (t'.book syn).item o X.jid = some item ∧
        pushesOf o calls = [⟨o, (t'.book syn).version o, X.jid, some item⟩]
  /-- … unless the item is not read for its size, when the sessions that would get it are retired … -/
  retired : (t'.book syn).item o X.jid ≠ (t.book syn).item o X.jid →
    (replayNotices t X o.jid o).any fails = false → OverQuota limits t o X.jid →
      pushesOf o calls = [] ∧ .retireInterested o ∈ calls
  /-- … or a notice to the account has failed before. -/
  skipped : (replayNotices t X o.jid o).any fails = true → pushesOf o calls = []

section Told

variable {site : Site} {t t' : Tables} {effects : List (Effect syn)}

theorem pushesOf_deferredCalls (limits : Limits) (h : t.WellFormed syn) (hmounted : site.mounted X.domain = true)
    (fails : Effect syn → Bool) (o : AccountKey syn) :
    pushesOf o (deferredCalls site limits t X fails) =
      if o.jid ∈ visited t X ∧ counterpartOf site.hosts t X o.jid = some o then
        if (replayNotices t X o.jid o).any fails then [] else pushes (replayPush limits t X o.jid o)
      else [] := by
  rw [deferredCalls, if_pos hmounted]
  refine pushesOf_rounds h pushes_attempted_round (fun contact other e hmem => ?_) o
  split at hmem
  · cases hmem
  · exact owner_of_mem_replayPush hmem

theorem toldOf_unmounted (hmounted : ¬ site.mounted X.domain = true) (fails : Effect syn → Bool) :
    ToldOf limits t (t.withoutAccount X) X o fails (deferredCalls site limits t X fails) := by
  have hitem (j : RosterJid syn) : ((t.withoutAccount X).book syn).item o j = (t.book syn).item o j := rfl
  rw [deferredCalls, if_neg hmounted]
  exact ⟨fun j _ => hitem j, fun _ => rfl, fun hne => absurd (hitem X.jid) hne, fun hne => absurd (hitem X.jid) hne,
    fun _ => rfl⟩

theorem toldOf_mounted (h : t.WellFormed syn) (hmounted : site.mounted X.domain = true) {u : Unit} (ho : o ≠ X)
    (hrun : (forgetRows site.hosts t X).run ⟨t, t.withoutAccount X⟩ = (.ok u, w')) (fails : Effect syn → Bool) :
    ToldOf limits t w'.tables X o fails (deferredCalls site limits t X fails) := by
  have hleads := run_forgetRows h (h.of_accounts (t.accounts.erase X.text)) rfl rfl rfl hrun
  have hpushes := pushesOf_deferredCalls limits h hmounted fails o
  rcases forgotten_cases (b := (t.withoutAccount X).book syn) h rfl rfl rfl ho hleads.book limits with
    ⟨_, hitems, hnone⟩ | ⟨item, subscription, hold, hne, hnew, hversion, hothers, hvisited, hparty, hchange⟩
  · have hquiet : pushesOf o (deferredCalls site limits t X fails) = [] := by
      rw [pushesOf_replay h] at hnone
      rw [hpushes]
      split
      case isTrue hround =>
        rw [if_pos hround] at hnone
        rw [hnone, ite_self]
      case isFalse => rfl
    exact ⟨fun j _ => hitems j, fun _ => hquiet, fun hchanged => absurd (hitems X.jid) hchanged,
      fun hchanged => absurd (hitems X.jid) hchanged, fun _ => hquiet⟩
  · obtain ⟨version, hfound⟩ := cleanupVersion_of_forgetRows h hvisited hparty hchange hrun
    rw [if_pos ⟨hvisited, hparty⟩, replayPush, hchange] at hpushes
    refine ⟨hothers, fun hsame => ?_, fun _ hok hquota => ⟨_, hnew, ?_⟩, fun _ hok hquota => ⟨?_, ?_⟩, fun hfailed => ?_⟩
    · rw [hnew, hold] at hsame
      exact absurd (congrArg RosterItem.subscription (Option.some.inj hsame)) (Ne.symm hne)
    · rw [hpushes, hok, if_neg Bool.false_ne_true, replayCleanupPush_eq h hold hfound hquota, hversion,
        ← h.itemAt_jid hold, ← (cleanupVersion_eq_ok.mp hfound).2]
      rfl
    · rw [hpushes, hok, if_neg Bool.false_ne_true, replayCleanupPush_overQuota hfound hquota]
      rfl
    · rw [deferredCalls, if_pos hmounted, List.mem_flatMap]
      refine ⟨o.jid, hvisited, ?_⟩
      rw [replayRound, hparty]
      simp only
      rw [attempted_append, hok, if_neg Bool.false_ne_true, replayPush, hchange,
        replayCleanupPush_overQuota hfound hquota, attempted]
      exact List.mem_append_right _ List.mem_cons_self
    · rw [hpushes, if_pos hfailed]

end Told

/-- In every state that the roster writes lead to: the deferred deliveries of a deletion tell each other account what the
deletion has committed, and the checks of the deletion against its snapshot do not fail. -/
theorem deletion_replay_tells_truth {s : Store syn} (h : (storage fun _ => True).Reachable s) (site : Site)
    (limits : Limits) (X : AccountKey syn) :
    OnlyOverflows (forgetRows site.hosts s.write.tables X) ⟨s.write.tables, s.write.tables.withoutAccount X⟩ ∧
      ∀ t' effects, (Operation.delete X).commit site limits s.write.tables = some (t', effects) →
        effects = deferredCalls site limits s.write.tables X (fun _ => false) ∧
        ∀ (fails : Effect syn → Bool) (o : AccountKey syn), o ≠ X →
          ToldOf limits s.write.tables t' X o fails (deferredCalls site limits s.write.tables X fails) := by
  have hwf := (storage_means h).1.wellFormed
  refine ⟨onlyOverflows_forgetRows hwf site.hosts X, fun t' effects hcommit => ?_⟩
  obtain ⟨w, hrun, rfl⟩ := committed_eq_some.mp hcommit
  rcases forgetRows_of_deleteAccount hrun with ⟨hmounted, rfl, u, hforget⟩ | ⟨hmounted, rfl, rfl⟩
  · refine ⟨?_, fun fails o ho => toldOf_mounted hwf hmounted ho hforget fails⟩
    rw [run_replay hwf, deferredCalls, if_pos hmounted]
    simp only [attempted_none_fail]
  · refine ⟨?_, fun fails o _ => toldOf_unmounted hmounted fails⟩
    rw [deferredCalls, if_neg hmounted]

def aliceDeleted (limits : Limits) : Option (Tables × List (Effect plainSyntax)) :=
  (Operation.delete alice).commit sampleSite limits mutualGrant.write.tables

theorem deletion_replay_tells_truth_mutualGrant :
    ∃ t' effects item, aliceDeleted (fun _ => {}) = some (t', effects) ∧
      (t'.book plainSyntax).item bob alice.jid = some item ∧
      pushesOf bob effects = [⟨bob, (t'.book plainSyntax).version bob, alice.jid, some item⟩] := by
  have hdeleted : (aliceDeleted fun _ => {}).any fun r =>
      decide ((r.1.book plainSyntax).item bob alice.jid ≠
        (mutualGrant.write.tables.book plainSyntax).item bob alice.jid) := by
    decide +kernel
  have hfits : (mutualGrant.write.tables.items.get? (itemKey bob alice.jid)).all fun record =>
      decide ((itemKey bob alice.jid).byteLen + record.length ≤ RosterQuota.default.maxBytes) := by
    decide +kernel
  obtain ⟨⟨t', effects⟩, hcommit, hchanged⟩ := (Option.any_eq_true _ _).mp hdeleted
  obtain ⟨rfl, htold⟩ := (deletion_replay_tells_truth reachable_mutualGrant sampleSite (fun _ => {}) alice).2 t'
    effects hcommit
  have hquota : ¬ OverQuota (fun _ => {}) mutualGrant.write.tables bob alice.jid := by
    rintro ⟨record, hrow, hlt⟩
    rw [hrow] at hfits
    exact Nat.not_lt.mpr (of_decide_eq_true hfits) hlt
  obtain ⟨item, hitem, hpushes⟩ := (htold (fun _ => false) bob (by decide)).pushed (of_decide_eq_true hchanged)
    (by simp) hquota
  exact ⟨t', _, item, hcommit, hitem, hpushes⟩

private theorem one_lt_words : 1 < wordSize := by decide

def oneByteQuota : RosterQuota := ⟨1, 1, Nat.one_pos, Nat.one_pos, one_lt_words, one_lt_words⟩

/-- With a quota that `bob`'s item does not fit, the item changes and `bob` gets no push. Under the default limits
`bob` gets the push, but not when the notice before it fails. -/
theorem over_quota_contact_not_pushed :
    ∃ s : Store plainSyntax, (storage fun _ => True).Reachable s ∧
      (∃ limits t' effects, (Operation.delete alice).commit sampleSite limits s.write.tables = some (t', effects) ∧
        (t'.book plainSyntax).item bob alice.jid ≠ (s.write.tables.book plainSyntax).item bob alice.jid ∧
        pushesOf bob effects = []) ∧
      ∃ t' effects fails,
        (Operation.delete alice).commit sampleSite (fun _ => {}) s.write.tables = some (t', effects) ∧
        pushesOf bob effects ≠ [] ∧
        pushesOf bob (deferredCalls sampleSite (fun _ => {}) s.write.tables alice fails) = [] := by
  have hdeleted : (aliceDeleted fun _ => { quota := oneByteQuota }).any fun r =>
      decide ((r.1.book plainSyntax).item bob alice.jid ≠
        (mutualGrant.write.tables.book plainSyntax).item bob alice.jid ∧ pushesOf bob r.2 = []) := by
    decide +kernel
  have hpushed : (aliceDeleted fun _ => {}).any fun r => decide (pushesOf bob r.2 ≠ []) := by
    decide +kernel
  have hfailed : pushesOf bob (deferredCalls sampleSite (fun _ => {}) mutualGrant.write.tables alice fun call =>
      call = .toInterested ⟨.unsubscribed, alice, bob⟩) = [] := by
    decide +kernel
  obtain ⟨⟨t', effects⟩, hcommit, hquiet⟩ := (Option.any_eq_true _ _).mp hdeleted
  obtain ⟨⟨told, pushed⟩, hcommit', hpush⟩ := (Option.any_eq_true _ _).mp hpushed
  exact ⟨mutualGrant, reachable_mutualGrant, ⟨_, t', effects, hcommit, of_decide_eq_true hquiet⟩,
    told, pushed, _, hcommit', of_decide_eq_true hpush, hfailed⟩

end Lonewolf.Roster
