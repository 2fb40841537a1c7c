import Lonewolf.Roster.Replay
import Lonewolf.Roster.Symmetry

/-!
# Contacts of other servers

What an operation can do to the data that an account has about a contact of another server, and what it then sends
there: nothing at all, or what a stanza of the account or of the contact does, or the account drops the contact and
says so. What holds of such data in every reachable state is derived from this.
-/

namespace Lonewolf.Roster

open Texts

variable {syn : JidSyntax} {site : Site} {limits : Limits} {hosts : HostLookup} {w w' : Write}
  {effects : List (Effect syn)}

/-! ### Steps of a link -/

/-- After a stanza that the account's side settles alone. -/
def LinkData.settled (d : LinkData) : SubscriptionKind → LinkData
  | .subscribed => if grants d.view.state then d else ⟨applied preApprove d.view, d.asked⟩
  | .unsubscribed => ⟨applied dropApproval d.view, d.asked⟩
  | .subscribe | .unsubscribe => d

section

variable (federates : Bool) (heard : Option SubscriptionKind) (d : LinkData)

/-- What an operation does to the data about a contact of another server, with the stanzas that it sends to
the contact; `heard` is the stanza of the contact that the operation takes in. Without federation nothing is
sent and nothing comes in. -/
inductive LinkStep :
    LinkData → List SubscriptionKind → Prop where
  | idle : LinkStep d []
  | settle (kind : SubscriptionKind) (h : grants d.view.state = true ∨ d.asked = false) : LinkStep (d.settled kind) []
  | send (kind : SubscriptionKind) (h : federates = true) :
      LinkStep (d.sent kind) (if d.routes kind then [kind] else [])
  | receive (kind : SubscriptionKind) (h : federates = true) (hheard : heard = some kind) :
      LinkStep (d.received kind) (d.reply kind).toList
  | drop : LinkStep ⟨{}, false⟩ (if federates then d.farewell else [])

end

/-- The contact is no account of this server. -/
def Outside (site : Site) (j : RosterJid syn) : Prop :=
  ∀ B : AccountKey syn, B.jid = j → site.hosts.isLocalHost B.domain = false

def kindTo (o r : AccountKey syn) (stanza : SubscriptionStanza syn) : Option SubscriptionKind :=
  if stanza.sender = o ∧ stanza.target = r then some stanza.kind else none

/-- The stanzas that some deliveries send from one account to another server's. -/
def kindsTo (o r : AccountKey syn) (effects : List (Effect syn)) : List SubscriptionKind :=
  (outgoing effects).filterMap (kindTo o r)

/-- An operation makes a step of one link. Without the extension stanzas are sent that the link does not show. -/
def StepsLink (site : Site) (heard : Option SubscriptionKind) (o : AccountKey syn) (j : RosterJid syn)
    (b b' : Book syn) (effects : List (Effect syn)) : Prop :=
  ∃ out, LinkStep (site.hosts.federates o.domain) heard (b.link o j) (b'.link o j) out ∧
    ∀ r : AccountKey syn, r.jid = j → site.mounted o.domain = true → kindsTo o r effects = out

/-- The stanza of a contact that an operation takes in for an account. -/
def Operation.heard (o : AccountKey syn) (j : RosterJid syn) : Operation syn → Option SubscriptionKind
  | .inbound sender target kind _ => if o.jid = target ∧ j = sender then some kind else none
  | _ => none

variable {r : AccountKey syn}

section Frame

variable {b b' : Book syn} {p : AccountKey syn → RosterJid syn → Prop} {o owner : AccountKey syn}
  {j : RosterJid syn} {heard : Option SubscriptionKind}

theorem SameRows.link (h : SameRows p b b') (hne : ¬ p o j) : b'.link o j = b.link o j := by
  rw [Book.link, h.view hne, h.asked hne]
  rfl

theorem kindsTo_of_outgoing_nil (h : outgoing effects = []) : kindsTo o r effects = [] := by
  rw [kindsTo, h]
  rfl

theorem StepsLink.idle (h : SameRows p b b') (hne : ¬ p o j)
    (hout : ∀ r : AccountKey syn, r.jid = j → kindsTo o r effects = []) : StepsLink site heard o j b b' effects := by
  refine ⟨[], ?_, fun r hr _ => hout r hr⟩
  rw [h.link hne]
  exact .idle

theorem filterMap_kindTo {r contact : AccountKey syn} (kinds : List SubscriptionKind) :
    (kinds.map (⟨·, owner, contact⟩)).filterMap (kindTo o r) = if owner = o ∧ contact = r then kinds else [] := by
  rw [List.filterMap_map]
  by_cases heq : owner = o ∧ contact = r
  · rw [if_pos heq]
    simp [kindTo, heq]
  · rw [if_neg heq, List.filterMap_eq_nil_iff]
    intro kind _
    exact if_neg heq

theorem StepsLink.of_single {contact : AccountKey syn} {kinds : List SubscriptionKind}
    (h : SameRows (fun o' j' => o' = owner ∧ j' = contact.jid) b b')
    (hstep : o = owner → j = contact.jid → LinkStep (site.hosts.federates owner.domain) heard
      (b.link owner contact.jid) (b'.link owner contact.jid) kinds)
    (hout : outgoing effects = kinds.map (⟨·, owner, contact⟩)) : StepsLink site heard o j b b' effects := by
  by_cases heq : o = owner ∧ j = contact.jid
  · obtain ⟨rfl, rfl⟩ := heq
    refine ⟨kinds, hstep rfl rfl, fun r hr _ => ?_⟩
    rw [kindsTo, hout, filterMap_kindTo, if_pos ⟨rfl, (AccountKey.jid_injective hr).symm⟩]
  · apply StepsLink.idle h heq
    intro r hr
    rw [kindsTo, hout, filterMap_kindTo, if_neg]
    rintro ⟨ho, hr'⟩
    exact heq ⟨ho.symm, by rw [hr', hr]⟩

end Frame

/-! ### Stanzas -/

section Stanzas

theorem sameRows_receiveLocal (b : Book syn) (sender contact : AccountKey syn) (found : Bool) (stored : Bytes)
    (kind : SubscriptionKind) :
    SameRows (AboutPair sender contact) b (b.receiveLocal sender contact found stored kind) := by
  have hother : ∀ account ∈ (if found then some contact else none), AboutPair sender contact account sender.jid := by
    intro account haccount
    cases found with
    | true =>
      cases haccount
      exact aboutPair_right sender contact
    | false => cases haccount
  cases kind with
  | subscribe =>
    rw [Book.receiveLocal]
    split
    · exact .requestSubscription (aboutPair_left ..) (aboutPair_right ..)
    · exact .refl _ _
  | subscribed =>
    rw [Book.receiveLocal]
    split
    · exact .approve (aboutPair_left ..) (aboutPair_right ..)
    · exact .refl _ _
  | unsubscribed => exact .cancelSubscription (aboutPair_left ..) hother
  | unsubscribe => exact .unsubscribe (aboutPair_left ..) hother

theorem Outside.not_aboutPair {A B o : AccountKey syn} {j : RosterJid syn} (h : Outside site j)
    (hA : site.hosts.isLocalHost A.domain = true) (hB : site.hosts.isLocalHost B.domain = true) :
    ¬ AboutPair A B o j := by
  intro hpair
  rcases hpair with ⟨_, rfl⟩ | ⟨_, rfl⟩
  · rw [h B rfl] at hB
    cases hB
  · rw [h A rfl] at hA
    cases hA

theorem Book.link_sendLocal {b : Book syn} (o : AccountKey syn) (j : RosterJid syn) (kind : SubscriptionKind) :
    (b.sendLocal o j kind).link o j = (b.link o j).settled kind := by
  cases kind with
  | subscribe => rfl
  | unsubscribe => rfl
  | subscribed =>
    rw [sendLocal, LinkData.settled, granted_sub]
    by_cases hgrants : grants (b.view o j).state
    · rw [if_pos hgrants]
      exact (if_pos hgrants).symm
    · rw [if_neg hgrants, link, view_update, if_pos ⟨rfl, rfl⟩, asked_update]
      exact (if_neg hgrants).symm
  | unsubscribed =>
    rw [sendLocal, link, view_updateIdle idle_dropApproval, if_pos ⟨rfl, rfl⟩, asked_updateExisting]
    rfl

end Stanzas

/-! ### Roster requests -/

section Requests

variable {owner o : AccountKey syn} {jid j : RosterJid syn} {contactAccount : Option (AccountKey syn)}

theorem outgoing_notifyRemovedRemoteContact (remote : AccountKey syn) (d : LinkData) :
    outgoing (notifyRemovedRemoteContact owner remote d.view d.asked) = d.farewell.map (⟨·, owner, remote⟩) := by
  rw [notifyRemovedRemoteContact, LinkData.farewell]
  simp only [outgoing_append, outgoing_deliverIf, toOtherServer, List.map_append]
  split <;> split <;> split <;> rfl

theorem outgoing_notifyRemovedContact (other : AccountKey syn) (removal : Removal syn) :
    outgoing (notifyRemovedContact owner other removal) = [] := by
  simp [notifyRemovedContact, toOtherServer]

/-- What a contact hears when the account drops it. -/
def farewells (hosts : HostLookup) (b : Book syn) (owner : AccountKey syn) (contact : RosterJid syn) :
    List (SubscriptionStanza syn) :=
  match federatedContact hosts owner contact with
  | some remote => (b.link owner contact).farewell.map (⟨·, owner, remote⟩)
  | none => []

variable {b : Book syn}

theorem outgoing_removalEffects {removal : Removal syn} (hview : removal.subscription = b.view owner jid)
    (hasked : removal.pendingRequest = b.asked owner jid) :
    outgoing (removalEffects hosts owner jid contactAccount removal) = farewells hosts b owner jid := by
  have hremote (remote : AccountKey syn) : outgoing (notifyRemovedRemoteContact owner remote
      (b.view owner jid) (b.asked owner jid)) = (b.link owner jid).farewell.map (⟨·, owner, remote⟩) :=
    outgoing_notifyRemovedRemoteContact remote (b.link owner jid)
  unfold removalEffects farewells
  cases federatedContact hosts owner jid <;> cases contactAccount <;>
    simp [hview, hasked, outgoing_notifyRemovedContact, hremote, outgoing_cons, toOtherServer]

theorem federatedContact_eq (hremote : hosts.isLocalHost r.domain = false) :
    federatedContact hosts owner r.jid = if hosts.federates owner.domain then some r else none := by
  have hat : r.jid.text.contains '@' = true := (Bool.and_eq_true_iff.mp r.named).1
  have hdomain : hosts.isLocalHost r.jid.domain = false := hremote
  rw [federatedContact, hat, hdomain, AccountKey.ofRosterJid?_jid]
  simp

theorem federatedContact_jid {remote : AccountKey syn} (h : federatedContact hosts owner jid = some remote) :
    remote.jid = jid := by
  rw [federatedContact, Option.ite_none_right_eq_some] at h
  exact AccountKey.ofRosterJid?_eq_some.mp h.2

theorem filterMap_farewells (hremote : hosts.isLocalHost r.domain = false) (o : AccountKey syn) :
    (farewells hosts b owner jid).filterMap (kindTo o r) =
      if owner = o ∧ jid = r.jid then
        if hosts.federates o.domain then (b.link o r.jid).farewell else []
      else [] := by
  by_cases hjid : jid = r.jid
  · subst hjid
    rw [farewells, federatedContact_eq hremote]
    cases hfederates : hosts.federates owner.domain with
    | true =>
      refine (filterMap_kindTo _).trans ?_
      by_cases ho : owner = o
      · subst ho
        rw [if_pos ⟨rfl, rfl⟩, if_pos ⟨rfl, rfl⟩, hfederates, if_pos rfl]
      · rw [if_neg fun hboth => ho hboth.1, if_neg fun hboth => ho hboth.1]
    | false =>
      show [] = _
      by_cases ho : owner = o
      · subst ho
        rw [if_pos ⟨rfl, rfl⟩, hfederates]
        rfl
      · rw [if_neg fun hboth => ho hboth.1]
  · rw [if_neg fun hboth => hjid hboth.2, farewells]
    cases hfederated : federatedContact hosts owner jid with
    | none => rfl
    | some remote =>
      refine (filterMap_kindTo _).trans (if_neg fun hboth => hjid ?_)
      rw [← federatedContact_jid hfederated, hboth.2]

theorem Book.link_removeContact (hsome : (b.item owner jid).isSome) :
    (b.removeContact owner jid contactAccount).link owner jid = ⟨{}, false⟩ := by
  rw [removeContact, if_pos hsome, link, view_clearContact, if_neg fun heq => heq.2.1 rfl, view_setRequest,
    view_removeItem, if_pos ⟨rfl, rfl⟩, asked_clearContact, if_neg fun heq => heq.2.1 rfl, asked_setRequest,
    if_pos ⟨rfl, rfl⟩]
  rfl

theorem Book.link_setItem {item : RosterItem syn} (hitem : item.subscription = b.view owner jid) :
    ((b.setItem owner jid (some item)).advance owner).link o j = b.link o j := by
  rw [Book.link, Book.view_setItem, Book.asked_setItem]
  split
  case isTrue hkey =>
    obtain ⟨rfl, rfl⟩ := hkey
    rw [hitem]
    rfl
  case isFalse => rfl

end Requests

/-! ### Deletions -/

section Deletion

variable {before : Tables} {X o : AccountKey syn} {j : RosterJid syn} {heard : Option SubscriptionKind}

theorem outgoing_replayRound (contact : RosterJid syn) :
    outgoing (replayRound limits hosts before X contact) =
      match counterpartOf hosts before X contact with
      | some _ => []
      | none => farewells hosts (before.book syn) X contact := by
  have hpush (other : AccountKey syn) : outgoing (replayPush limits before X contact other) = [] := by
    unfold replayPush replayCleanupPush
    split
    · rfl
    · split <;> rfl
  have hnotices (other : AccountKey syn) : outgoing (replayNotices before X contact other) = [] := by
    unfold replayNotices
    cases (before.book syn).sub X contact with
    | none => rfl
    | some own => exact outgoing_notifyRemovedContact other _
  rw [replayRound]
  cases counterpartOf hosts before X contact with
  | some other => simp only [outgoing_append, hnotices, hpush, List.append_nil]
  | none =>
    rw [farewells]
    cases federatedContact hosts X contact with
    | none => rfl
    | some remote => exact outgoing_notifyRemovedRemoteContact remote ((before.book syn).link X contact)

theorem kindsTo_replay (h : before.WellFormed syn) (hremote : hosts.isLocalHost r.domain = false) :
    kindsTo o r ((visited before X).flatMap (replayRound limits hosts before X)) =
      if X = o then if hosts.federates o.domain then ((before.book syn).link o r.jid).farewell else [] else [] := by
  have hnone : counterpartOf hosts before X r.jid = none := by
    by_contra hne
    obtain ⟨other, hother⟩ := Option.ne_none_iff_exists'.mp hne
    obtain ⟨hjid, hlocal, _⟩ := counterpartOf_eq_some.mp hother
    rw [AccountKey.jid_injective hjid, hremote] at hlocal
    cases hlocal
  have hround (contact : RosterJid syn) :
      kindsTo o r (replayRound limits hosts before X contact) =
        if contact = r.jid then
          if X = o then if hosts.federates o.domain then ((before.book syn).link o r.jid).farewell else [] else []
        else [] := by
    rw [kindsTo, outgoing_replayRound]
    by_cases hcontact : contact = r.jid
    · subst hcontact
      rw [hnone, if_pos rfl]
      refine (filterMap_farewells hremote o).trans ?_
      simp only [and_true]
    · rw [if_neg hcontact]
      cases counterpartOf hosts before X contact with
      | some _ => rfl
      | none => exact (filterMap_farewells hremote o).trans (if_neg fun hboth => hcontact hboth.2)
  rw [kindsTo, outgoing, List.filterMap_flatMap, List.filterMap_flatMap]
  refine (flatMap_of_unique (nodup_visited h X) fun contact hne => (hround contact).trans (if_neg hne)).trans ?_
  by_cases hvisited : r.jid ∈ visited before X
  · rw [if_pos hvisited]
    exact (hround r.jid).trans (if_pos rfl)
  · -- Nothing is on file about the contact, so there is nothing to say.
    rw [if_neg hvisited]
    rw [mem_visited h, not_or, Bool.not_eq_true, Bool.not_eq_true, Option.isSome_eq_false_iff,
      Option.isNone_iff_eq_none] at hvisited
    by_cases hX : X = o
    · subst hX
      have hlink : (before.book syn).link X r.jid = ⟨{}, false⟩ := by
        rw [Book.link, Book.view, Book.sub, hvisited.1, hvisited.2]
        rfl
      rw [if_pos rfl, hlink]
      split <;> rfl
    · rw [if_neg hX]

theorem stepsLink_delete {t : Tables} (h : t.WellFormed syn) (hj : Outside site j)
    (hrun : (deleteAccount site limits X).run ⟨t, t⟩ = (.ok (some effects), w')) :
    StepsLink site heard o j (t.book syn) (w'.book syn) effects := by
  rcases run_deleteAccount h hrun with ⟨hmounted, rfl, hleads⟩ | ⟨_, rfl, rfl⟩
  · rw [run_replay h]
    rw [hleads.book]
    by_cases hX : X = o
    · subst hX
      refine ⟨if site.hosts.federates X.domain then ((t.book syn).link X j).farewell else [], ?_, fun r hr _ => ?_⟩
      · have hlink {b : Book syn} {party : RosterJid syn → Option (AccountKey syn)}
            {contacts senders : List (RosterJid syn)} :
            (b.forgotten X party contacts senders).link X j = ⟨{}, false⟩ := by
          have hrows : (b.forgotten X party contacts senders).NoRows X j := ⟨if_pos rfl, if_pos rfl⟩
          rw [Book.link, hrows.view, hrows.asked]
        rw [hlink]
        exact .drop
      · subst hr
        rw [kindsTo_replay h (hj r rfl), if_pos rfl]
    · have hrows := sameRows_forgotten (partyOf_counterpartOf site.hosts t X)
        (({ t with accounts := t.accounts.erase X.text } : Tables).book syn) (contactsOf t X)
        (unlisted t X (sendersOf t X))
      refine ⟨[], ?_, fun r hr _ => ?_⟩
      · have hlink := hrows.link (o := o) (j := j) ?_
        · rw [hlink]
          exact .idle
        · intro hchanged
          rcases hchanged with heq | ⟨_, rfl⟩
          · exact hX heq.symm
          · have hlocal := site.mounted_local _ hmounted
            rw [hj X rfl] at hlocal
            cases hlocal
      · rw [kindsTo_replay h (hj r hr), if_neg hX]
  · exact ⟨[], .idle, fun r _ _ => rfl⟩

end Deletion

/-! ### Operations -/

variable {op : Operation syn} {j : RosterJid syn}

theorem Carried.stepsLink {o : AccountKey syn} (hj : Outside site j) (hcarried : Carried site w w' effects op) :
    StepsLink site (op.heard o j) o j (w.book syn) (w'.book syn) effects := by
  cases hcarried with
  | sendRemote _ hfederates _ hleads hout =>
    rw [hleads.book]
    apply StepsLink.of_single (.sendRemote ⟨rfl, rfl⟩ _)
    · intro _ _
      rw [Book.link_sendRemote]
      exact .send _ hfederates
    · rw [hout, Book.link_routes]
      split <;> rfl
  | @sendLocal sender target _ _ kind _ _ hcases hleads hout =>
    rw [hleads.book]
    by_cases hkey : o = sender ∧ j = target
    · obtain ⟨rfl, rfl⟩ := hkey
      refine ⟨[], ?_, fun r _ _ => kindsTo_of_outgoing_nil hout⟩
      rw [Book.link_sendLocal]
      rw [Book.granted_sub] at hcases
      exact .settle kind hcases
    · have hrows : SameRows (fun o' j' => o' = sender ∧ j' = target) (w.book syn)
          ((w.book syn).sendLocal sender target kind) := .sendLocal ⟨rfl, rfl⟩ kind
      exact .idle hrows hkey fun r _ => kindsTo_of_outgoing_nil hout
  | receiveLocal hserves htarget _ hleads hout =>
    rw [hleads.book]
    exact .idle (sameRows_receiveLocal ..) (hj.not_aboutPair hserves.isLocal (site.mounted_local _ htarget))
      fun r _ => kindsTo_of_outgoing_nil hout
  | @route sender target _ _ kind _ hmounted heffects hsame =>
    rw [heffects, hsame]
    refine ⟨[], .idle, fun r _ hserves => ?_⟩
    rw [kindsTo, outgoing_cons, toOtherServer, outgoing_nil, List.append_nil]
    cases AccountKey.ofRosterJid? target with
    | none => rfl
    | some contact =>
      have hne : sender ≠ o := fun heq => hmounted (heq ▸ hserves)
      exact List.filterMap_cons_none (if_neg fun hboth => hne hboth.1)
  | ignore heffects hsame =>
    rw [heffects, hsame]
    exact ⟨[], .idle, fun r _ _ => rfl⟩
  | @receiveRemote contact owner kind stored _ hfederates _ hleads hout =>
    rw [hleads.book]
    have hstep (ho : o = owner) (hj : j = contact.jid) : LinkStep (site.hosts.federates owner.domain)
        ((Operation.inbound contact.jid owner.jid kind stored).heard o j) ((w.book syn).link owner contact.jid)
        (((w.book syn).receiveRemote owner contact.jid stored kind).link owner contact.jid)
        (((w.book syn).link owner contact.jid).reply kind).toList := by
      rw [Book.link_receiveRemote, ho, hj]
      exact .receive kind hfederates (if_pos ⟨rfl, rfl⟩)
    apply StepsLink.of_single (.receiveRemote ⟨rfl, rfl⟩ stored kind) hstep
    rw [hout, Book.link_replies]
    cases ((w.book syn).link owner contact.jid).reply kind <;> rfl
  | set _ hview hleads hout =>
    refine ⟨[], ?_, fun r _ _ => kindsTo_of_outgoing_nil hout⟩
    rw [hleads.book, Book.link_setItem hview]
    exact .idle
  | @remove owner jid removal hserves heffects hsome hview hasked hleads =>
    rw [hleads.book, heffects]
    by_cases hkey : owner = o ∧ jid = j
    · obtain ⟨rfl, rfl⟩ := hkey
      refine ⟨if site.hosts.federates owner.domain then ((w.book syn).link owner jid).farewell else [],
        ?_, fun r hr _ => ?_⟩
      · rw [Book.link_removeContact hsome]
        exact .drop
      · subst hr
        rw [kindsTo, outgoing_removalEffects hview hasked, filterMap_farewells (hj r rfl), if_pos ⟨rfl, rfl⟩]
    · have hrows : SameRows (fun o' j' => owner = o' ∧ jid = j' ∨ j' = owner.jid) (w.book syn)
          ((w.book syn).removeContact owner jid (storedLocalAccount site.hosts w.tables jid)) :=
        .removeContact (.inl ⟨rfl, rfl⟩) fun _ _ => .inr rfl
      apply StepsLink.idle hrows
      · intro hchanged
        rcases hchanged with hchanged | rfl
        · exact hkey hchanged
        · have hlocal := hserves.isLocal
          rw [hj owner rfl] at hlocal
          cases hlocal
      · intro r hr
        rw [kindsTo, outgoing_removalEffects hview hasked, filterMap_farewells (hj r hr),
          if_neg fun hboth => hkey ⟨hboth.1, hboth.2.trans hr⟩]

theorem stepsLink_of_commit {t t' : Tables} (h : t.WellFormed syn) (hadmissible : op.Admissible site)
    (hcommit : op.commit site limits t = some (t', effects)) (o : AccountKey syn) (hj : Outside site j) :
    StepsLink site (op.heard o j) o j (t.book syn) (t'.book syn) effects := by
  rcases op.cases_of_commit h hadmissible hcommit with
    ⟨X, rfl, hcreate, rfl⟩ | ⟨X, w, rfl, hrun, rfl⟩ | ⟨w, rfl, hcarried, _⟩
  · rw [createAccount, Option.ite_none_left_eq_some] at hcreate
    obtain ⟨_, heq⟩ := hcreate
    cases heq
    exact ⟨[], .idle, fun r _ _ => rfl⟩
  · exact stepsLink_delete h hj hrun
  · exact hcarried.stepsLink hj

end Lonewolf.Roster
