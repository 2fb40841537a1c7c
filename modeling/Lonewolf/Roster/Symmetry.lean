import Lonewolf.Roster.Server

/-!
# Subscriptions are symmetric

Every operation of a server keeps the rosters consistent, so in every state that a server reaches one
local account is subscribed to another exactly when the other grants it.
-/

namespace Lonewolf.Roster

open Texts Transactions

variable {syn : JidSyntax} {site : Site} {limits : Limits} {w w' : Write}

/-- Well-formed tables that hold consistent rosters. -/
structure Sound (syn : JidSyntax) (site : Site) (t : Tables) : Prop where
  wellFormed : t.WellFormed syn
  consistent : Consistent site (t.book syn)

theorem Leads.sound {b : Book syn} (h : Leads w w' b) (hconsistent : Consistent site b) : Sound syn site w'.tables := by
  rw [← h.book] at hconsistent
  exact ⟨h.wellFormed, hconsistent⟩

/-! ### Operations on rosters -/

section Carried

variable {sender contact : AccountKey syn} {kind : SubscriptionKind} {stored : Bytes}

theorem sound_receiveLocal {found : Bool} (h : Sound syn site w.tables) (hsender : site.Serves (w.book syn) sender)
    (htarget : site.mounted contact.domain = true) (hfound : found = true ↔ (w.book syn).hasAccount contact)
    (hleads : Leads w w' ((w.book syn).receiveLocal sender contact found stored kind)) : Sound syn site w'.tables := by
  cases found with
  | true =>
    have hserves : site.Serves (w.book syn) contact := ⟨hfound.mp rfl, htarget⟩
    cases kind with
    | subscribe => exact hleads.sound (h.consistent.requestSubscription hsender hserves stored)
    | subscribed => exact hleads.sound (h.consistent.approve hsender hserves)
    | unsubscribed => exact hleads.sound (h.consistent.cancelSubscription hsender hserves)
    | unsubscribe => exact hleads.sound (h.consistent.unsubscribe hsender hserves)
  | false =>
    -- Without an account the contact has no rows, and nothing there has to follow.
    have hmissing : ∀ B : AccountKey syn,
        B.jid = contact.jid → site.hosts.isLocalHost B.domain → ¬ (w.book syn).hasAccount B := by
      intro B hjid _ hhas
      rw [AccountKey.jid_injective hjid] at hhas
      exact Bool.false_ne_true (hfound.mpr hhas)
    cases kind with
    | subscribe => exact hleads.sound h.consistent
    | subscribed => exact hleads.sound h.consistent
    | unsubscribed => exact hleads.sound (h.consistent.cancel_missing hsender hmissing)
    | unsubscribe => exact hleads.sound (h.consistent.unsubscribe_missing hsender hmissing)

end Carried

variable {jid : RosterJid syn}

variable {t : Tables}

theorem storedLocalAccount_eq_some {hosts : HostLookup} {account : AccountKey syn} :
    storedLocalAccount hosts t jid = some account ↔
      account.jid = jid ∧ hosts.isLocalHost account.domain = true ∧ account.text ∈ t.accounts := by
  simp only [storedLocalAccount, localCandidate, Option.filter_eq_some_iff, AccountKey.ofRosterJid?_eq_some,
    decide_eq_true_eq]
  tauto

theorem Carried.sound {op : Operation syn} {effects : List (Effect syn)} (h : Sound syn site w.tables)
    (hcarried : Carried site w w' effects op) : Sound syn site w'.tables := by
  cases hcarried with
  | sendRemote hserves _ hremote hleads _ => exact hleads.sound (h.consistent.sendRemote hserves hremote _)
  | sendLocal hserves hcases hleads _ => exact hleads.sound (h.consistent.sendLocal hserves hcases _)
  | receiveLocal hserves htarget hfound hleads _ => exact sound_receiveLocal h hserves htarget hfound hleads
  | route _ _ hsame =>
    rw [hsame]
    exact h
  | ignore _ hsame =>
    rw [hsame]
    exact h
  | receiveRemote hserves _ hremote hleads _ =>
    exact hleads.sound (h.consistent.receiveRemote hserves hremote _ _)
  | set hserves hview hleads _ => exact hleads.sound (h.consistent.setItem hserves hview)
  | @remove owner jid _ hserves _ _ _ _ hleads =>
    cases hcontact : storedLocalAccount site.hosts w.tables jid with
    | none =>
      rw [hcontact] at hleads
      apply hleads.sound (h.consistent.removeContact_missing hserves ?_)
      intro B hjid hlocal hhas
      rw [storedLocalAccount_eq_some.mpr ⟨hjid, hlocal, hhas⟩] at hcontact
      cases hcontact
    | some contact =>
      rw [hcontact] at hleads
      obtain ⟨rfl, hlocal, _⟩ := storedLocalAccount_eq_some.mp hcontact
      exact hleads.sound (h.consistent.removeContact hserves hlocal)

/-! ### Accounts -/

section Accounts

variable {X : AccountKey syn} {b b' : Book syn}

theorem Consistent.of_accounts (h : Consistent site b) (hitem : b'.item = b.item) (hrequest : b'.request = b.request)
    (howned : ∀ o j, ¬ site.Serves b' o → b.NoRows o j) : Consistent site b' where
  flags o j := by
    have hflags := h.flags o j
    rw [Book.view, Book.sub, Book.asked, ← hitem, ← hrequest] at hflags
    exact hflags
  mirrors A B hA hB := by
    have hmirrors := h.mirrors A B hA hB
    rw [Book.view, Book.sub, Book.view, Book.sub, Book.asked, ← hitem, ← hrequest] at hmirrors
    exact hmirrors
  owned o j hnot := by
    rw [Book.NoRows, hitem, hrequest]
    exact howned o j hnot

private theorem flags_left : ∀ v asked listed requested, Flags v asked →
    Flags (leftOf listed requested v) (if listed then false else asked) := by
  decide +kernel

private theorem left_nothing : ∀ own other ownAsked otherAsked listed,
    PairData.Ok ⟨own, other, ownAsked, otherAsked⟩ → (listed = false → other = {}) →
      (leftOf listed otherAsked own).state = .none ∧ (leftOf listed otherAsked own).pendingOut = false ∧
        (if listed then false else ownAsked) = false := by
  decide +kernel

theorem forgotten_view {party : RosterJid syn → Option (AccountKey syn)} {contacts senders : List (RosterJid syn)}
    (hparty : PartyOf X party) (hpassed : b.Passed X contacts senders) {o : AccountKey syn} (ho : o ≠ X)
    (hnone : party o.jid ≠ some o → b.NoRows o X.jid) :
    (b.forgotten X party contacts senders).view o X.jid =
        leftOf (b.item X o.jid).isSome (b.asked X o.jid) (b.view o X.jid) ∧
      (b.forgotten X party contacts senders).asked o X.jid =
        (if (b.item X o.jid).isSome then false else b.asked o X.jid) ∧
      (b.NoRows o X.jid → (b.forgotten X party contacts senders).NoRows o X.jid) := by
  have hleft (listed asked : Bool) : leftOf listed asked {} = {} := by
    cases listed <;> cases asked <;> rfl
  by_cases hsome : party o.jid = some o
  · obtain ⟨hitem, hrequest, _⟩ := forgotten_other hparty hsome hpassed
    refine ⟨?_, ?_, ?_⟩
    · rw [Book.view, Book.sub, hitem, Option.map_map, Book.view, Book.sub]
      cases b.item o X.jid with
      | none => exact (hleft _ _).symm
      | some item => rfl
    · rw [Book.asked, hrequest]
      split <;> rfl
    · rintro ⟨hitem', hrequest'⟩
      rw [Book.NoRows, hitem, hrequest, hitem', hrequest']
      exact ⟨rfl, ite_self _⟩
  · have hrows := sameRows_forgotten hparty b contacts senders
    have hkept : ¬ (o = X ∨ (party o.jid = some o ∧ X.jid = X.jid)) := by
      intro hchanged
      rcases hchanged with heq | ⟨heq, _⟩
      · exact ho heq
      · exact hsome heq
    rw [hrows.view hkept, hrows.asked hkept, (hnone hsome).view, (hnone hsome).asked, hleft, ite_self]
    exact ⟨rfl, rfl, hrows.noRows hkept⟩

theorem Consistent.forgotten {contacts senders : List (RosterJid syn)} (h : Consistent site (t.book syn))
    (hX : site.mounted X.domain = true) (hitem : b.item = (t.book syn).item)
    (hrequest : b.request = (t.book syn).request)
    (haccounts : ∀ o, o ≠ X → (b.hasAccount o ↔ (t.book syn).hasAccount o)) (hpassed : b.Passed X contacts senders) :
    Consistent site (b.forgotten X (counterpartOf site.hosts t X) contacts senders) := by
  have hlocal := site.mounted_local _ hX
  have hparty := partyOf_counterpartOf site.hosts t X
  have hviews : b.view = (t.book syn).view := by
    funext o j
    rw [Book.view, Book.sub, hitem]
    rfl
  have hrequests : b.asked = (t.book syn).asked := by
    funext o j
    rw [Book.asked, hrequest]
    rfl
  have howned : ∀ o j, ¬ site.Serves (t.book syn) o → b.NoRows o j := by
    intro o j hnot
    rw [Book.NoRows, hitem, hrequest]
    exact h.owned o j hnot
  have hforgotten : ∀ {o : AccountKey syn}, o ≠ X → _ := fun {o} ho => forgotten_view hparty hpassed ho
    (fun hnone => howned o X.jid fun hserves => hnone (counterpartOf_eq_some.mpr ⟨rfl, hserves.isLocal, hserves.1, ho⟩))
  have hown : ∀ j, (b.forgotten X (counterpartOf site.hosts t X) contacts senders).NoRows X j :=
    fun j => ⟨if_pos rfl, if_pos rfl⟩
  -- Rows about other accounts than the deleted one stay as they are.
  have hkept : ∀ {o : AccountKey syn} {j : RosterJid syn}, o ≠ X → j ≠ X.jid →
      ¬ (o = X ∨ (counterpartOf site.hosts t X o.jid = some o ∧ j = X.jid)) := by
    intro o j ho hj hchanged
    rcases hchanged with heq | ⟨_, heq⟩
    · exact ho heq
    · exact hj heq
  have hrows := sameRows_forgotten hparty b contacts senders
  -- Of a local account's view of the deleted one nothing is left.
  have hnothing : ∀ {o : AccountKey syn}, o ≠ X → site.hosts.isLocalHost o.domain →
      ((b.forgotten X (counterpartOf site.hosts t X) contacts senders).view o X.jid).state = .none ∧
        ((b.forgotten X (counterpartOf site.hosts t X) contacts senders).view o X.jid).pendingOut = false ∧
        (b.forgotten X (counterpartOf site.hosts t X) contacts senders).asked o X.jid = false := by
    intro o ho holocal
    obtain ⟨hview, hasked, _⟩ := hforgotten ho
    rw [hview, hasked, hviews, hrequests]
    apply left_nothing _ _ _ _ _ (h.pair_ok holocal hlocal)
    intro hunlisted
    rw [hitem] at hunlisted
    rw [Book.view, Book.sub, Option.not_isSome_iff_eq_none.mp (Bool.eq_false_iff.mp hunlisted)]
    rfl
  refine ⟨?_, ?_, ?_⟩
  · intro o j
    by_cases ho : o = X
    · rw [ho, (hown j).view, (hown j).asked]
      decide
    · by_cases hj : j = X.jid
      · obtain ⟨hview, hasked, _⟩ := hforgotten ho
        rw [hj, hview, hasked, hviews, hrequests]
        exact flags_left _ _ _ _ (h.flags o X.jid)
      · rw [hrows.view (hkept ho hj), hrows.asked (hkept ho hj), hviews, hrequests]
        exact h.flags o j
  · intro C D hC hD
    by_cases hCX : C = X
    · subst hCX
      rw [(hown D.jid).view]
      by_cases hDX : D = C
      · subst hDX
        rw [(hown D.jid).view, (hown D.jid).asked]
        decide
      · obtain ⟨hstate, _, hasked⟩ := hnothing hDX hD
        rw [Mirrors, hstate, hasked]
        exact ⟨rfl, rfl⟩
    · by_cases hDX : D = X
      · subst hDX
        obtain ⟨hstate, hout, _⟩ := hnothing hCX hC
        rw [(hown C.jid).view, (hown C.jid).asked, Mirrors, hstate, hout]
        exact ⟨rfl, rfl⟩
      · have hCjid : C.jid ≠ X.jid := fun heq => hCX (AccountKey.jid_injective heq)
        have hDjid : D.jid ≠ X.jid := fun heq => hDX (AccountKey.jid_injective heq)
        rw [hrows.view (hkept hCX hDjid), hrows.view (hkept hDX hCjid), hrows.asked (hkept hDX hCjid), hviews,
          hrequests]
        exact h.mirrors C D hC hD
  · intro o j hnot
    by_cases ho : o = X
    · rw [ho]
      exact hown j
    · have hnone := howned o j fun hserves => hnot (hrows.serves.mpr ⟨(haccounts o ho).mpr hserves.1, hserves.2⟩)
      by_cases hj : j = X.jid
      · subst hj
        exact (hforgotten ho).2.2 hnone
      · exact hrows.noRows (hkept ho hj) hnone

end Accounts

theorem Tables.WellFormed.of_accounts (h : t.WellFormed syn) (accounts : Finset Text) :
    ({ t with accounts := accounts } : Tables).WellFormed syn :=
  ⟨h.items, h.pending, h.encoded⟩

theorem hasAccount_erase {X o : AccountKey syn} (ho : o ≠ X) :
    (({ t with accounts := t.accounts.erase X.text } : Tables).book syn).hasAccount o ↔ (t.book syn).hasAccount o := by
  show o.text ∈ t.accounts.erase X.text ↔ o.text ∈ t.accounts
  rw [Finset.mem_erase]
  exact and_iff_right fun heq => ho (AccountKey.text_inj.mp heq)

theorem forgetRows_of_deleteAccount {X : AccountKey syn} {effects : List (Effect syn)}
    (hrun : (deleteAccount site limits X).run ⟨t, t⟩ = (.ok (some effects), w')) :
    (site.mounted X.domain = true ∧ effects = ((replay limits site.hosts t X).run []).2 ∧
        ∃ u, (forgetRows site.hosts t X).run ⟨t, { t with accounts := t.accounts.erase X.text }⟩ = (.ok u, w')) ∨
      ¬ site.mounted X.domain = true ∧ effects = [] ∧ w' = ⟨t, { t with accounts := t.accounts.erase X.text }⟩ := by
  simp only [deleteAccount, eraseAccount, Tx.run_bind_eq, Tx.run_read_eq, Tx.run_write_eq, Prod.mk.injEq,
    Except.ok.injEq] at hrun
  obtain ⟨_, _, ⟨rfl, rfl⟩, _, _, ⟨_, rfl⟩, hrun⟩ := hrun
  rw [Tx.run_ite_eq] at hrun
  rcases hrun with ⟨hmounted, hrun⟩ | ⟨hunmounted, hrun⟩
  · simp only [forgetAccount, Tx.run_bind_eq, Tx.run_mapError_eq, Tx.run_pure_eq] at hrun
    obtain ⟨_, _, ⟨u, _, hforget, rfl, rfl⟩, heq, rfl⟩ := hrun
    exact .inl ⟨hmounted, (Option.some.inj heq).symm, u, hforget⟩
  · obtain ⟨heq, rfl⟩ := Tx.run_pure_eq.mp hrun
    exact .inr ⟨hunmounted, (Option.some.inj heq).symm, rfl⟩

theorem run_deleteAccount {X : AccountKey syn} {effects : List (Effect syn)} (h : t.WellFormed syn)
    (hrun : (deleteAccount site limits X).run ⟨t, t⟩ = (.ok (some effects), w')) :
    (site.mounted X.domain = true ∧ effects = ((replay limits site.hosts t X).run []).2 ∧
        Leads ⟨t, { t with accounts := t.accounts.erase X.text }⟩ w'
          ((({ t with accounts := t.accounts.erase X.text } : Tables).book syn).forgotten X
            (counterpartOf site.hosts t X) (contactsOf t X) (unlisted t X (sendersOf t X)))) ∨
      ¬ site.mounted X.domain = true ∧ effects = [] ∧ w' = ⟨t, { t with accounts := t.accounts.erase X.text }⟩ := by
  rcases forgetRows_of_deleteAccount hrun with ⟨hmounted, heffects, u, hforget⟩ | hunmounted
  · exact .inl ⟨hmounted, heffects, run_forgetRows h (h.of_accounts (t.accounts.erase X.text)) rfl rfl rfl hforget⟩
  · exact .inr hunmounted

theorem not_hasAccount_delete {t t' : Tables} {X : AccountKey syn} {effects : List (Effect syn)} (h : t.WellFormed syn)
    (hcommit : (Operation.delete X).commit site limits t = some (t', effects)) : ¬ (t'.book syn).hasAccount X := by
  obtain ⟨w, hrun, rfl⟩ := committed_eq_some.mp hcommit
  have herased : ¬ (({ t with accounts := t.accounts.erase X.text } : Tables).book syn).hasAccount X :=
    Finset.notMem_erase X.text t.accounts
  rcases run_deleteAccount h hrun with ⟨_, _, hleads⟩ | ⟨_, _, rfl⟩
  · rw [← Write.book, hleads.book, (sameRows_forgotten (partyOf_counterpartOf site.hosts t X) _ _ _).hasAccount]
    exact herased
  · exact herased

theorem sound_delete {X : AccountKey syn} {effects : List (Effect syn)} (h : Sound syn site t)
    (hrun : (deleteAccount site limits X).run ⟨t, t⟩ = (.ok (some effects), w')) : Sound syn site w'.tables := by
  rcases run_deleteAccount h.wellFormed hrun with ⟨hmounted, _, hleads⟩ | ⟨hunmounted, _, rfl⟩
  · have hpassed := h.wellFormed.passed X
    refine hleads.sound (h.consistent.forgotten hmounted rfl rfl (fun _ ho => hasAccount_erase ho) ?_)
    exact ⟨hpassed.contacts_nodup, hpassed.mem_contacts, hpassed.senders_nodup, hpassed.mem_senders⟩
  · refine ⟨h.wellFormed.of_accounts (t.accounts.erase X.text), h.consistent.of_accounts rfl rfl ?_⟩
    intro o j hnot
    apply h.consistent.owned
    intro hserves
    by_cases ho : o = X
    · rw [ho] at hserves
      exact hunmounted hserves.2
    · exact hnot ⟨(hasAccount_erase ho).mpr hserves.1, hserves.2⟩

theorem sound_create {t t' : Tables} {X : AccountKey syn} (h : Sound syn site t)
    (hcreate : createAccount X t = some t') : Sound syn site t' := by
  unfold createAccount at hcreate
  split at hcreate
  · cases hcreate
  · cases hcreate
    refine ⟨h.wellFormed.of_accounts _, h.consistent.of_accounts rfl rfl ?_⟩
    intro o j hnot
    apply h.consistent.owned
    intro hserves
    exact hnot ⟨Finset.mem_insert_of_mem hserves.1, hserves.2⟩

/-! ### Every state of a server -/

theorem sound_init (h : (server syn site).init t) : Sound syn site t := by
  obtain ⟨accounts, items, versions, pending⟩ := t
  obtain ⟨rfl, rfl, rfl⟩ := h
  have hnone : ∀ o j, (({ accounts := accounts } : Tables).book syn).NoRows o j := fun _ _ => ⟨rfl, rfl⟩
  refine ⟨wellFormed_empty accounts, ?_, ?_, fun o j _ => hnone o j⟩
  · intro o j
    rw [(hnone o j).view, (hnone o j).asked]
    decide
  · intro A B _ _
    rw [(hnone A B.jid).view, (hnone B A.jid).view, (hnone B A.jid).asked]
    decide

theorem sound_step {t t' : Tables} (h : Sound syn site t) (hstep : (server syn site).step t t') :
    Sound syn site t' := by
  obtain ⟨limits, op, effects, hadmissible, hcommit⟩ := hstep
  rcases op.cases_of_commit h.wellFormed hadmissible hcommit with
    ⟨X, rfl, hcreate, _⟩ | ⟨X, w, rfl, hrun, rfl⟩ | ⟨w, rfl, hcarried, _⟩
  · exact sound_create h hcreate
  · exact sound_delete h hrun
  · exact hcarried.sound h

theorem sound_of_reachable (h : (server syn site).Reachable t) : Sound syn site t :=
  h.invariant (fun _ => sound_init) fun _ _ _ hsound hstep => sound_step hsound hstep

/-- What a read of a contact's subscription says of its two sides. -/
def isSubscribed (item : Option RosterSubscription) : Bool := item.any fun item => subscribedTo item.state

def isPendingOut (item : Option RosterSubscription) : Bool := item.any RosterSubscription.pendingOut

theorem isSubscribed_sub (b : Book syn) (o : AccountKey syn) (j : RosterJid syn) :
    isSubscribed (b.sub o j) = subscribedTo (b.view o j).state := by
  rw [Book.view]
  cases b.sub o j <;> rfl

theorem isPendingOut_sub (b : Book syn) (o : AccountKey syn) (j : RosterJid syn) :
    isPendingOut (b.sub o j) = (b.view o j).pendingOut := by
  rw [Book.view]
  cases b.sub o j <;> rfl

/-- In every state that a server reaches, subscriptions between local accounts are symmetric, a request is
out exactly when it is stored on the other side, and nothing is left about local accounts that do not
exist. -/
theorem local_subscriptions_symmetric {t : Tables} (h : (server syn site).Reachable t) :
    (∀ A B : AccountKey syn, A.text ∈ t.accounts → B.text ∈ t.accounts →
      site.hosts.isLocalHost A.domain = true → site.hosts.isLocalHost B.domain = true →
        ∃ own other, t.rosterSubscription A B.jid = .ok own ∧ t.rosterSubscription B A.jid = .ok other ∧
          (isSubscribed own = true ↔ granted other = true) ∧
          (isPendingOut own = true ↔ t.pendingRequestExists B A.jid = true)) ∧
      ∀ A B : AccountKey syn, B.text ∉ t.accounts → site.hosts.isLocalHost B.domain = true →
        ∃ item, t.rosterSubscription A B.jid = .ok item ∧
          ∀ subscription ∈ item, subscription.state = .none ∧ subscription.pendingOut = false := by
  have hsound := sound_of_reachable h
  refine ⟨?_, ?_⟩
  · intro A B _ _ hA hB
    refine ⟨_, _, hsound.wellFormed.rosterSubscription_eq A B.jid,
      hsound.wellFormed.rosterSubscription_eq B A.jid, ?_, ?_⟩
    · show isSubscribed ((t.book syn).sub A B.jid) = true ↔ granted ((t.book syn).sub B A.jid) = true
      rw [isSubscribed_sub, Book.granted_sub, (hsound.consistent.mirrors A B hA hB).1]
    · show isPendingOut ((t.book syn).sub A B.jid) = true ↔ (t.book syn).asked B A.jid = true
      rw [isPendingOut_sub, (hsound.consistent.mirrors A B hA hB).2]
  · intro A B hmissing hB
    refine ⟨_, hsound.wellFormed.rosterSubscription_eq A B.jid, ?_⟩
    intro subscription hmem
    have hview : (t.book syn).view A B.jid = subscription := by
      rw [Book.view, show (t.book syn).sub A B.jid = some subscription from hmem, Option.getD_some]
    have hserves : site.Serves (t.book syn) A := by
      by_contra hnot
      have hnone := (hsound.consistent.owned A B.jid hnot).1
      rw [show itemAt t A B.jid = none from hnone] at hmem
      cases hmem
    obtain ⟨hstate, hout, _⟩ := hsound.consistent.missing hserves.isLocal hB
      (hsound.consistent.owned B A.jid fun hserves' => hmissing hserves'.1)
    rw [← hview]
    exact ⟨hstate, hout⟩

/-! A run on one host: `alice` asks for `bob`'s presence and `bob` approves. -/

def sampleSite : Site := ⟨⟨fun _ => false, fun domain => domain == ['h']⟩, fun domain => domain == ['h'], fun _ h => h⟩

/-- The tables after some operations; one that fails changes nothing. -/
def afterOperations (t : Tables) (ops : List (Operation plainSyntax)) : Tables :=
  ops.foldl (fun t op => ((op.commit sampleSite (fun _ => {}) t).map Prod.fst).getD t) t

theorem reachable_afterOperations (h : (server plainSyntax sampleSite).Reachable t)
    {ops : List (Operation plainSyntax)} (hops : ∀ op ∈ ops, op.Admissible sampleSite) :
    (server plainSyntax sampleSite).Reachable (afterOperations t ops) := by
  induction ops generalizing t with
  | nil => exact h
  | cons op ops ih =>
    apply ih ?_ fun op' hop' => hops op' (List.mem_cons_of_mem op hop')
    show (server plainSyntax sampleSite).Reachable
      (((op.commit sampleSite (fun _ => {}) t).map Prod.fst).getD t)
    cases hcommit : op.commit sampleSite (fun _ => {}) t with
    | none => exact h
    | some result =>
      obtain ⟨t', effects⟩ := result
      exact h.step ⟨_, op, effects, hops op List.mem_cons_self, hcommit⟩

def approvedRequest : Tables :=
  afterOperations { accounts := {alice.text, bob.text} }
    [.presence alice bob.jid false false .subscribe [], .presence bob alice.jid false false .subscribed []]

theorem reachable_approvedRequest : (server plainSyntax sampleSite).Reachable approvedRequest := by
  apply reachable_afterOperations (.init ⟨rfl, rfl, rfl⟩)
  intro op hop
  simp only [List.mem_cons, List.not_mem_nil, or_false] at hop
  rcases hop with rfl | rfl
  · trivial
  · trivial

theorem local_subscriptions_symmetric_approvedRequest :
    approvedRequest.rosterSubscription alice bob.jid = .ok (some { state := .to }) ∧
      ∃ own other, approvedRequest.rosterSubscription alice bob.jid = .ok own ∧
        approvedRequest.rosterSubscription bob alice.jid = .ok other ∧
        (isSubscribed own = true ↔ granted other = true) ∧
        (isPendingOut own = true ↔ approvedRequest.pendingRequestExists bob alice.jid = true) :=
  ⟨by decide +kernel,
    (local_subscriptions_symmetric reachable_approvedRequest).1 alice bob (by decide +kernel)
      (by decide +kernel) (by decide) (by decide)⟩

end Lonewolf.Roster
