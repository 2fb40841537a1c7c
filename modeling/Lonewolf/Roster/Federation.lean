import Lonewolf.Base.Notices
import Lonewolf.Roster.Progress
import Lonewolf.Roster.Pushes
import Lonewolf.Roster.Remote

/-!
# Two servers

Two servers that exchange subscription stanzas over channels that keep the order, one for each direction. What an
account of one has about an account of the other changes with the operations on its own server and with the stanzas
that come in. The side that grants tells when it no longer does, so this is an instance of the notices of a grant;
but a stanza that comes in cannot be carried out when the version of the receiving roster cannot advance any more.
-/

namespace Lonewolf.Roster

open Texts Transactions Transitions

variable {syn : JidSyntax}

/-! ### The model -/

inductive Side where
  | left
  | right
  deriving DecidableEq

def Side.other : Side → Side
  | .left => .right
  | .right => .left

@[simp] theorem Side.other_other (s : Side) : s.other.other = s := by cases s <;> rfl

theorem Side.other_ne (s : Side) : s.other ≠ s := by cases s <;> decide

theorem Side.eq_or (s s' : Side) : s' = s ∨ s' = s.other := by cases s <;> cases s' <;> decide

/-- The hosts of the two servers. -/
structure Peers where
  site : Side → Site
  disjoint : ∀ s domain, (site s).hosts.isLocalHost domain = true →
    (site s.other).hosts.isLocalHost domain = false

/-- The tables of the servers, and the stanzas on their way to each of them, the next one first. -/
structure Net (syn : JidSyntax) where
  tables : Side → Tables
  inbox : Side → List (SubscriptionStanza syn)

variable (peers : Peers)

/-- The stanzas of some deliveries that go to the other server. -/
def Peers.mail (s : Side) (effects : List (Effect syn)) : List (SubscriptionStanza syn) :=
  (outgoing effects).filter fun stanza => (peers.site s.other).hosts.isLocalHost stanza.target.domain

/-- One server comes to other tables and sends what is to be delivered. -/
def Net.after (n : Net syn) (s : Side) (result : Tables × List (Effect syn)) : Net syn where
  tables := Function.update n.tables s result.1
  inbox := Function.update n.inbox s.other (n.inbox s.other ++ peers.mail s result.2)

/-- A stanza has been taken from a channel. -/
def Net.took (n : Net syn) (s : Side) (rest : List (SubscriptionStanza syn)) : Net syn :=
  { n with inbox := Function.update n.inbox s rest }

/-- A stanza that comes in. It is let in for a host that federates; when it cannot be carried out, it is
answered with an error and gone. -/
def accept (site : Site) (limits : Limits) (stanza : SubscriptionStanza syn) (stored : Bytes) (t : Tables) :
    Tables × List (Effect syn) :=
  if site.hosts.federates stanza.target.domain && !site.hosts.isLocalHost stanza.sender.domain then
    ((Operation.inbound stanza.sender.jid stanza.target.jid stanza.kind stored).commit site limits t).getD (t, [])
  else (t, [])

/-- The operation is a stanza of the other server, which comes through the channel only. -/
def Peers.FromPeer (s : Side) : Operation syn → Prop
  | .inbound sender _ _ _ => (peers.site s.other).hosts.isLocalHost sender.domain = true
  | _ => False

inductive Net.Step : Net syn → Net syn → Prop where
  | act {n : Net syn} (s : Side) {limits : Limits} {op : Operation syn} {result : Tables × List (Effect syn)}
      (hadmissible : op.Admissible (peers.site s)) (hown : ¬ peers.FromPeer s op)
      (hcommit : op.commit (peers.site s) limits (n.tables s) = some result) : Step n (n.after peers s result)
  | deliver {n : Net syn} (s : Side) (limits : Limits) (stored : Bytes) {stanza : SubscriptionStanza syn}
      {rest : List (SubscriptionStanza syn)} (hinbox : n.inbox s = stanza :: rest) :
      Step n ((n.took s rest).after peers s (accept (peers.site s) limits stanza stored (n.tables s)))

/-- Two servers with empty rosters, and nothing on its way. -/
def federation : System (Net syn) where
  init n := ∀ s, (server syn (peers.site s)).init (n.tables s) ∧ n.inbox s = []
  step := Net.Step peers

variable {peers}

namespace Net

variable (n : Net syn) (s : Side) (result : Tables × List (Effect syn)) (rest : List (SubscriptionStanza syn))

@[simp] theorem after_tables_self : (n.after peers s result).tables s = result.1 := Function.update_self ..

@[simp] theorem after_tables_other : (n.after peers s result).tables s.other = n.tables s.other :=
  Function.update_of_ne s.other_ne _ _

@[simp] theorem after_inbox_self : (n.after peers s result).inbox s = n.inbox s :=
  Function.update_of_ne s.other_ne.symm _ _

@[simp] theorem after_inbox_other :
    (n.after peers s result).inbox s.other = n.inbox s.other ++ peers.mail s result.2 := Function.update_self ..

@[simp] theorem after_tables_of_other : (n.after peers s.other result).tables s = n.tables s :=
  Function.update_of_ne s.other_ne.symm _ _

@[simp] theorem after_inbox_of_other :
    (n.after peers s.other result).inbox s = n.inbox s ++ peers.mail s.other result.2 := by
  rw [Net.after, Side.other_other]
  exact Function.update_self ..

@[simp] theorem took_inbox_self : (n.took s rest).inbox s = rest := Function.update_self ..

@[simp] theorem took_inbox_other : (n.took s rest).inbox s.other = n.inbox s.other :=
  Function.update_of_ne s.other_ne _ _

@[simp] theorem took_inbox_of_other : (n.took s.other rest).inbox s = n.inbox s :=
  Function.update_of_ne s.other_ne.symm _ _

end Net

/-! ### One of the servers -/

theorem accept_cases (site : Site) (limits : Limits) (stanza : SubscriptionStanza syn) (stored : Bytes) (t : Tables) :
    accept site limits stanza stored t = (t, []) ∨
      (Operation.inbound stanza.sender.jid stanza.target.jid stanza.kind stored).Admissible site ∧
        (Operation.inbound stanza.sender.jid stanza.target.jid stanza.kind stored).commit site limits t =
          some (accept site limits stanza stored t) := by
  rw [accept]
  split
  case isTrue hadmissible =>
    rw [Bool.and_eq_true, Bool.not_eq_true'] at hadmissible
    cases hcommit : (Operation.inbound stanza.sender.jid stanza.target.jid stanza.kind stored).commit site
        limits t with
    | none => exact .inl rfl
    | some result => exact .inr ⟨hadmissible, rfl⟩
  case isFalse => exact .inl rfl

theorem Net.Step.side {n n' : Net syn} (h : Net.Step peers n n') (s : Side) :
    n'.tables s = n.tables s ∨ ∃ limits, ∃ op : Operation syn, ∃ effects, op.Admissible (peers.site s) ∧
      op.commit (peers.site s) limits (n.tables s) = some (n'.tables s, effects) := by
  cases h with
  | @act s' limits op result hadmissible _ hcommit =>
    rcases s'.eq_or s with rfl | rfl
    · right
      refine ⟨limits, op, result.2, hadmissible, ?_⟩
      rw [hcommit, after_tables_self]
    · exact .inl (after_tables_other ..)
  | @deliver s' limits stored stanza rest hinbox =>
    rcases s'.eq_or s with rfl | rfl
    · rw [after_tables_self]
      rcases accept_cases (peers.site s) limits stanza stored (n.tables s) with heq | ⟨hadmissible, hcommit⟩
      · left
        rw [heq]
      · exact .inr ⟨limits, _, _, hadmissible, hcommit⟩
    · exact .inl (after_tables_other ..)

theorem reachable_side {n : Net syn} (h : (federation peers).Reachable n) (s : Side) :
    (server syn (peers.site s)).Reachable (n.tables s) := by
  apply h.map (fun n => n.tables s)
  · intro n hinit
    exact (hinit s).1
  · intro n n' _ hstep
    rcases Net.Step.side hstep s with heq | ⟨limits, op, effects, hadmissible, hcommit⟩
    · exact .inr heq
    · exact .inl ⟨limits, op, effects, hadmissible, hcommit⟩

/-! ### Notices of the granting side -/

/-- A stanza that tells of a grant. -/
def kindNotice : SubscriptionKind → Option Notices.Notice
  | .subscribed => some .grant
  | .unsubscribed => some .withdraw
  | .subscribe | .unsubscribe => none

/-- A step of the granting side: the grant stands, or its end is told last, or there was none. -/
def LinkData.Tells (d d' : LinkData) (out : List SubscriptionKind) : Prop :=
  grants d'.view.state = true ∨ (out.filterMap kindNotice).getLast? = some .withdraw ∨
    (out.filterMap kindNotice = [] ∧ grants d.view.state = false)

instance (d d' : LinkData) (out : List SubscriptionKind) : Decidable (d.Tells d' out) :=
  inferInstanceAs (Decidable (_ ∨ _ ∨ _))

private theorem tells_settled : ∀ v asked kind,
    (LinkData.mk v asked).Tells ((LinkData.mk v asked).settled kind) [] := by
  decide

private theorem tells_sent : ∀ v asked kind, (LinkData.mk v asked).Tells ((LinkData.mk v asked).sent kind)
      (if (LinkData.mk v asked).routes kind then [kind] else []) := by
  decide

private theorem tells_received : ∀ v asked kind,
    Flags v asked → (LinkData.mk v asked).Tells ((LinkData.mk v asked).received kind)
      ((LinkData.mk v asked).reply kind).toList := by
  decide

private theorem tells_dropped : ∀ v asked, (LinkData.mk v asked).Tells ⟨{}, false⟩ (LinkData.mk v asked).farewell := by
  decide

variable {heard : Option SubscriptionKind} {out : List SubscriptionKind} {federates : Bool}

theorem LinkStep.tells {d d' : LinkData} (h : LinkStep federates heard d d' out) (hflags : Flags d.view d.asked)
    (hfederates : federates = false → d.view.state = .none) : d.Tells d' out := by
  cases h with
  | idle =>
    by_cases hgrants : grants d.view.state = true
    · exact .inl hgrants
    · exact .inr (.inr ⟨rfl, Bool.eq_false_iff.mpr hgrants⟩)
  | settle kind _ => exact tells_settled d.view d.asked kind
  | send kind _ => exact tells_sent d.view d.asked kind
  | receive kind _ _ => exact tells_received d.view d.asked kind hflags
  | drop =>
    cases federates with
    | true => exact tells_dropped d.view d.asked
    | false =>
      refine .inr (.inr ⟨rfl, ?_⟩)
      rw [hfederates rfl]
      rfl

/-! ### The other side -/

private theorem subscribed_settled : ∀ v asked kind,
    subscribedTo ((LinkData.mk v asked).settled kind).view.state = true → subscribedTo v.state = true := by
  decide

private theorem subscribed_sent : ∀ v asked kind,
    subscribedTo ((LinkData.mk v asked).sent kind).view.state = true → subscribedTo v.state = true := by
  decide

private theorem subscribed_received : ∀ v asked kind,
    kind ≠ .subscribed → subscribedTo ((LinkData.mk v asked).received kind).view.state = true →
      subscribedTo v.state = true := by
  decide

private theorem unsubscribed_received : ∀ v asked,
    subscribedTo ((LinkData.mk v asked).received .unsubscribed).view.state = false := by
  decide

theorem LinkStep.subscribed {d d' : LinkData} (h : LinkStep federates heard d d' out)
    (hheard : heard ≠ some .subscribed) (hd' : subscribedTo d'.view.state = true) :
    subscribedTo d.view.state = true := by
  cases h with
  | idle => exact hd'
  | settle kind _ => exact subscribed_settled d.view d.asked kind hd'
  | send kind _ => exact subscribed_sent d.view d.asked kind hd'
  | receive kind _ hkind =>
    exact subscribed_received d.view d.asked kind (fun heq => hheard (by rw [hkind, heq])) hd'
  | drop => cases hd'

private theorem unfederated_settled : ∀ v asked kind,
    v.state = .none → ((LinkData.mk v asked).settled kind).view.state = .none := by
  decide

theorem LinkStep.unfederated {d d' : LinkData}
    (h : LinkStep false heard d d' out) (hd : d.view.state = .none) : d'.view.state = .none := by
  cases h with
  | idle => exact hd
  | settle kind _ => exact unfederated_settled d.view d.asked kind hd
  | send kind hfederates => cases hfederates
  | receive kind hfederates _ => cases hfederates
  | drop => rfl

variable {site : Site} {t : Tables}

theorem view_init (hinit : (server syn site).init t) (o : AccountKey syn)
    (j : RosterJid syn) : (t.book syn).view o j = {} := by
  have hitem : (t.book syn).item o j = none := by
    show itemAt t o j = none
    rw [itemAt, hinit.1]
    rfl
  rw [Book.view, Book.sub, hitem]
  rfl

variable {j : RosterJid syn}

theorem unfederated_of_reachable (h : (server syn site).Reachable t) {o : AccountKey syn}
    (hfederates : site.hosts.federates o.domain = false) (hj : Outside site j) :
    ((t.book syn).view o j).state = .none := by
  induction h with
  | init hinit => rw [view_init hinit]
  | @step t t' ht hstep ih =>
    obtain ⟨limits, op, effects, hadmissible, hcommit⟩ := hstep
    obtain ⟨out, hlink, _⟩ := stepsLink_of_commit (sound_of_reachable ht).wellFormed hadmissible hcommit o hj
    rw [hfederates] at hlink
    exact hlink.unfederated ih

theorem commit_unsubscribed {A B : AccountKey syn} (h : t.WellFormed syn)
    (hA : site.Serves (t.book syn) A) (hfederates : site.hosts.federates A.domain = true)
    (hB : site.hosts.isLocalHost B.domain = false) (limits : Limits) (stored : Bytes) :
    (∃ result, (Operation.inbound B.jid A.jid .unsubscribed stored).commit site limits t = some result) ↔
      ((t.book syn).Changes A B.jid withdrawOutbound → (t.book syn).CanAdvance A) := by
  have hsucceeds : (updateExistingSubscription limits A B.jid withdrawOutbound).Succeeds ⟨t, t⟩ ↔
      ((t.book syn).Changes A B.jid withdrawOutbound → (t.book syn).CanAdvance A) :=
    (guarded_updateExisting h hA.1 rfl).succeeds_iff
  have hlocal : (site.hosts.isLocalHost A.jid.domain && hasUsername A.jid.text) = true := by
    rw [show site.hosts.isLocalHost A.jid.domain = true from hA.isLocal, A.named]
    rfl
  have hinbound : receiveInbound site limits B.jid A.jid .unsubscribed stored =
      (do return some (← receiveRemote limits B.jid A.jid .unsubscribed stored)) := by
    rw [receiveInbound, if_pos hlocal, if_pos (show site.mounted A.jid.domain = true from hA.2), receive,
      show site.hosts.federates A.jid.domain = true from hfederates,
      show site.hosts.isLocalHost B.jid.domain = false from hB]
    rfl
  rw [← hsucceeds]
  constructor
  · rintro ⟨result, hcommit⟩
    obtain ⟨w', hrun, _⟩ := committed_eq_some.mp hcommit
    simp only [hinbound, receiveRemote, AccountKey.ofRosterJid?_jid, Tx.run_bind_eq, run_accountExists_eq,
      Tx.run_ite_eq, run_peek_eq, run_perform_eq, remoteOutcome] at hrun
    obtain ⟨_, _, ⟨found, _, ⟨hfound, rfl⟩, hrun⟩, _⟩ := hrun
    rcases hrun with ⟨_, _, _, ⟨_, rfl⟩, _, _, ⟨mutation, w', hupdate, _⟩, _⟩ | ⟨hnot, _⟩
    · exact ⟨mutation, w', hupdate⟩
    · exact absurd (hfound.mpr hA.1) hnot
  · rintro ⟨mutation, w', hupdate⟩
    have houtcome (current : RosterSubscription) :
        (remoteOutcome limits A B.jid stored current .unsubscribed).run ⟨t, t⟩ =
          (.ok { deliver := mutation.isSome, mutation := mutation }, w') := by
      rw [remoteOutcome, Tx.run_bind_of_ok hupdate]
      rfl
    have hreceive : ∃ effects, (receiveRemote limits B.jid A.jid .unsubscribed stored).run ⟨t, t⟩ =
        (.ok effects, w') := by
      simp only [receiveRemote, AccountKey.ofRosterJid?_jid, Tx.run_bind_eq, run_accountExists_eq, Tx.run_ite_eq,
        run_peek_eq, run_perform_eq, Tx.run_pure_eq]
      exact ⟨_, true, _, ⟨⟨fun _ => hA.1, fun _ => rfl⟩, rfl⟩,
        .inl ⟨rfl, _, _, ⟨h.rosterSubscription_book A B.jid, rfl⟩, _, _, houtcome _, rfl, rfl⟩⟩
    obtain ⟨effects, hreceive⟩ := hreceive
    refine ⟨(w'.tables, effects), committed_eq_some.mpr ⟨w', ?_, rfl⟩⟩
    rw [hinbound]
    exact Tx.run_bind_of_ok hreceive

/-- After the end of a grant has come in, nothing is left of the subscription, or the version cannot
advance. -/
theorem accept_unsubscribed {A B : AccountKey syn} (h : Sound syn site t) (hB : site.hosts.isLocalHost B.domain = false)
    (hunfederated : site.hosts.federates A.domain = false → ((t.book syn).view A B.jid).state = .none) (limits : Limits)
    (stored : Bytes)
    (hheld : subscribedTo (((accept site limits ⟨.unsubscribed, B, A⟩ stored t).1.book syn).view A B.jid).state = true)
    : ¬ ((accept site limits ⟨.unsubscribed, B, A⟩ stored t).1.book syn).CanAdvance A := by
  intro hfits
  -- the stanza is carried out
  have hcarried : (Operation.inbound B.jid A.jid .unsubscribed stored).Admissible site ∧
      (Operation.inbound B.jid A.jid .unsubscribed stored).commit site limits t =
        some (accept site limits ⟨.unsubscribed, B, A⟩ stored t) := by
    rcases accept_cases site limits (⟨.unsubscribed, B, A⟩ : SubscriptionStanza syn) stored t with hsame | hcarried
    · rw [hsame] at hheld hfits
      have hserves : site.Serves (t.book syn) A := by
        by_contra hnot
        rw [(h.consistent.owned A B.jid hnot).view] at hheld
        cases hheld
      have hfederates : site.hosts.federates A.domain = true := by
        by_contra hnot
        rw [hunfederated (Bool.eq_false_iff.mpr hnot)] at hheld
        cases hheld
      obtain ⟨result, hcommit⟩ :=
        (commit_unsubscribed h.wellFormed hserves hfederates hB limits stored).mpr fun _ => hfits
      refine ⟨⟨hfederates, hB⟩, ?_⟩
      rw [accept, hfederates, hB, hcommit]
      rfl
    · exact hcarried
  obtain ⟨hadmissible, hcommit⟩ := hcarried
  generalize accept site limits ⟨.unsubscribed, B, A⟩ stored t = result at hheld hcommit
  obtain ⟨t', effects⟩ := result
  obtain ⟨w, hrun, rfl⟩ := committed_eq_some.mp hcommit
  obtain ⟨_, ⟨_, rfl, habsent⟩ | ⟨contact, owner, hcontact, howner, _, hleads, _⟩⟩ :=
    run_receiveInbound h.wellFormed hadmissible hrun
  · rw [AccountKey.ofRosterJid?_jid] at habsent
    rcases habsent with hnone | ⟨owner, howner, habsent⟩
    · cases hnone
    · rw [← AccountKey.jid_injective howner] at habsent
      rw [(h.consistent.owned A B.jid fun hserves => habsent hserves.1).view] at hheld
      cases hheld
  · rw [← AccountKey.jid_injective hcontact, ← AccountKey.jid_injective howner] at hleads
    have hlink : (w.book syn).link A B.jid = ((t.book syn).link A B.jid).received .unsubscribed := by
      rw [hleads.book, Book.link_receiveRemote]
    have hview := unsubscribed_received ((t.book syn).view A B.jid) ((t.book syn).asked A B.jid)
    exact absurd (hlink ▸ hheld) (Bool.eq_false_iff.mp hview)

/-! ### The subscription of one account to another -/

/-- The account is subscribed to the other, and its version can advance. -/
def holds (t : Tables) (A B : AccountKey syn) : Bool :=
  subscribedTo ((t.book syn).view A B.jid).state && decide ((t.book syn).version A + 1 < wordSize)

theorem holds_eq_true {A B : AccountKey syn} :
    holds t A B = true ↔ subscribedTo ((t.book syn).view A B.jid).state = true ∧ (t.book syn).CanAdvance A := by
  rw [holds, Bool.and_eq_true, decide_eq_true_eq]
  rfl

variable {effects : List (Effect syn)}

theorem holds_of_commit {t t' : Tables} {A B : AccountKey syn} {limits : Limits} {op : Operation syn}
    (h : Sound syn site t) (hadmissible : op.Admissible site) (hcommit : op.commit site limits t = some (t', effects))
    (hB : Outside site B.jid) (hheard : op.heard A B.jid ≠ some .subscribed) (hholds : holds t' A B = true) :
    holds t A B = true := by
  rw [holds_eq_true] at hholds ⊢
  obtain ⟨hsubscribed, hfits⟩ := hholds
  obtain ⟨out, hlink, _⟩ := stepsLink_of_commit h.wellFormed hadmissible hcommit A hB
  refine ⟨hlink.subscribed hheard hsubscribed, ?_⟩
  by_cases hdelete : op = .delete A
  · -- nothing is left of the account
    subst hdelete
    have hgone := not_hasAccount_delete h.wellFormed hcommit
    have hsound : Sound syn site t' := sound_step h ⟨limits, _, effects, hadmissible, hcommit⟩
    rw [(hsound.consistent.owned A B.jid fun hserves => hgone hserves.1).view] at hsubscribed
    cases hsubscribed
  · obtain ⟨es, _, hfollows, _, _⟩ := notified_of_commit h.wellFormed hadmissible hcommit hdelete
    have hversion : (t'.book syn).version A = (t.book syn).version A + es.length := hfollows.version_eq
    rw [Book.CanAdvance] at hfits ⊢
    omega

/-- The grants of one account to another, as notices. -/
def noticeTo (B A : AccountKey syn) (stanza : SubscriptionStanza syn) : Option Notices.Notice :=
  (kindTo B A stanza).bind kindNotice

theorem noticeTo_eq_withdraw {A B : AccountKey syn} {stanza : SubscriptionStanza syn} :
    noticeTo B A stanza = some .withdraw ↔ stanza = ⟨.unsubscribed, B, A⟩ := by
  obtain ⟨kind, sender, target⟩ := stanza
  by_cases hstanza : sender = B ∧ target = A
  · rw [noticeTo, kindTo, if_pos hstanza, hstanza.1, hstanza.2]
    cases kind <;> simp [kindNotice]
  · rw [noticeTo, kindTo, if_neg hstanza]
    simp only [Option.bind_none, reduceCtorEq, SubscriptionStanza.mk.injEq, false_iff]
    exact fun heq => hstanza heq.2

/-- One account's subscription to an account of the other server. -/
def Net.subscription (n : Net syn) (s : Side) (A B : AccountKey syn) : Notices.State where
  granted := grants (((n.tables s.other).book syn).view B A.jid).state
  queue := (n.inbox s).filterMap (noticeTo B A)
  held := holds (n.tables s) A B

theorem filterMap_mail (s : Side) {A B : AccountKey syn}
    (hA : (peers.site s.other).hosts.isLocalHost A.domain = true) (effects : List (Effect syn)) :
    (peers.mail s effects).filterMap (noticeTo B A) = (kindsTo B A effects).filterMap kindNotice := by
  rw [Peers.mail, kindsTo, List.filterMap_filterMap, List.filterMap_filter]
  congr 1
  funext stanza
  by_cases hstanza : stanza.sender = B ∧ stanza.target = A
  · rw [hstanza.2, hA]
    rfl
  · have hnone : noticeTo B A stanza = none := by
      rw [noticeTo, kindTo, if_neg hstanza]
      rfl
    rw [hnone, ite_self]
    exact hnone.symm

theorem stepsLink_accept (h : t.WellFormed syn) (limits : Limits) (stanza : SubscriptionStanza syn) (stored : Bytes)
    (o : AccountKey syn) (hj : Outside site j) :
    ∃ heard, StepsLink site heard o j (t.book syn) ((accept site limits stanza stored t).1.book syn)
      (accept site limits stanza stored t).2 := by
  rcases accept_cases site limits stanza stored t with hsame | ⟨hadmissible, hcommit⟩
  · rw [hsame]
    exact ⟨none, [], .idle, fun _ _ _ => rfl⟩
  · exact ⟨_, stepsLink_of_commit h hadmissible hcommit o hj⟩

section Subscription

variable {n n' : Net syn} {s : Side} {A B : AccountKey syn}

section

variable (hA : (peers.site s).hosts.isLocalHost A.domain = true)
include hA

theorem outside_of_local : Outside (peers.site s.other) A.jid := by
  intro B hjid
  rw [AccountKey.jid_injective hjid]
  exact peers.disjoint s A.domain hA

theorem decides (hmounted : (peers.site s.other).mounted B.domain = true)
    (hreachable : (server syn (peers.site s.other)).Reachable (n.tables s.other))
    (hlink : StepsLink (peers.site s.other) heard B A.jid ((n.tables s.other).book syn) ((n'.tables s.other).book syn) effects)
    (htables : n'.tables s = n.tables s) (hinbox : n'.inbox s = n.inbox s ++ peers.mail s.other effects) :
    Notices.Step (n.subscription s A B) (n'.subscription s A B) := by
  obtain ⟨out, hstep, hout⟩ := hlink
  have htells := hstep.tells ((sound_of_reachable hreachable).consistent.flags B A.jid) fun hfederates =>
    unfederated_of_reachable hreachable hfederates (outside_of_local hA)
  have hmail : (peers.mail s.other effects).filterMap (noticeTo B A) = out.filterMap kindNotice := by
    rw [filterMap_mail s.other (by rw [Side.other_other]; exact hA), hout A rfl hmounted]
  have hafter : n'.subscription s A B = ⟨grants (((n'.tables s.other).book syn).view B A.jid).state,
      (n.subscription s A B).queue ++ out.filterMap kindNotice, (n.subscription s A B).held⟩ := by
    rw [Net.subscription, hinbox, List.filterMap_append, hmail, htables]
    rfl
  rw [hafter]
  exact .decide _ _ htells

end

theorem releases (htables : n'.tables s.other = n.tables s.other)
    (hinbox : (n'.inbox s).filterMap (noticeTo B A) = (n.inbox s).filterMap (noticeTo B A))
    (hheld : holds (n'.tables s) A B = true → holds (n.tables s) A B = true) :
    Notices.Step (n.subscription s A B) (n'.subscription s A B) := by
  have hafter : n'.subscription s A B = ⟨(n.subscription s A B).granted, (n.subscription s A B).queue,
      holds (n'.tables s) A B⟩ := by
    rw [Net.subscription, htables, hinbox]
    rfl
  rw [hafter]
  exact .release _ hheld

section

variable (hB : (peers.site s.other).mounted B.domain = true)
include hB

theorem outside_of_other : Outside (peers.site s) B.jid := by
  have houtside := outside_of_local ((peers.site s.other).mounted_local _ hB)
  rwa [Side.other_other] at houtside

theorem heard_eq_none {op : Operation syn} (hown : ¬ peers.FromPeer s op) : op.heard A B.jid = none := by
  cases op with
  | inbound sender target kind stored =>
    apply if_neg
    rintro ⟨_, hsender⟩
    rw [Peers.FromPeer, ← hsender] at hown
    exact hown ((peers.site s.other).mounted_local _ hB)
  | presence | set | remove | create | delete => rfl

theorem hears (hreachable : (server syn (peers.site s)).Reachable (n.tables s)) (limits : Limits) (stored : Bytes)
    {stanza : SubscriptionStanza syn} {rest : List (SubscriptionStanza syn)} (hinbox : n.inbox s = stanza :: rest)
    (htables : n'.tables s.other = n.tables s.other) (hrest : n'.inbox s = rest)
    (haccept : n'.tables s = (accept (peers.site s) limits stanza stored (n.tables s)).1) :
    Notices.Step (n.subscription s A B) (n'.subscription s A B) := by
  have houtside := outside_of_other hB
  cases hnotice : noticeTo B A stanza with
  | none =>
    refine releases htables ?_ ?_
    · rw [hrest, hinbox, List.filterMap_cons_none hnotice]
    · rw [haccept]
      intro hholds
      rcases accept_cases (peers.site s) limits stanza stored (n.tables s) with hsame | ⟨hadmissible, hcommit⟩
      · rwa [hsame] at hholds
      · refine holds_of_commit (sound_of_reachable hreachable) hadmissible hcommit houtside ?_ hholds
        intro hheard
        simp only [Operation.heard, Option.ite_none_right_eq_some, AccountKey.jid_injective.eq_iff] at hheard
        obtain ⟨⟨rfl, rfl⟩, hkind⟩ := hheard
        rw [noticeTo, kindTo, if_pos ⟨rfl, rfl⟩, Option.some.inj hkind] at hnotice
        cases hnotice
  | some notice =>
    have hqueue : (n.subscription s A B).queue = notice :: rest.filterMap (noticeTo B A) := by
      rw [Net.subscription, hinbox, List.filterMap_cons_some hnotice]
    have hafter : n'.subscription s A B = ⟨(n.subscription s A B).granted, rest.filterMap (noticeTo B A),
        holds (n'.tables s) A B⟩ := by
      rw [Net.subscription, htables, hrest]
      rfl
    rw [hafter]
    refine .hear hqueue _ ?_
    rintro rfl
    rw [noticeTo_eq_withdraw.mp hnotice] at haccept
    rw [haccept, ← Bool.not_eq_true, holds_eq_true]
    rintro ⟨hsubscribed, hfits⟩
    exact accept_unsubscribed (sound_of_reachable hreachable) (houtside B rfl)
      (fun hfederates => unfederated_of_reachable hreachable hfederates houtside) limits stored hsubscribed hfits

variable (hA : (peers.site s).hosts.isLocalHost A.domain = true)
include hA

theorem step_subscription (hn : (federation peers).Reachable n) (hstep : Net.Step peers n n') :
    Notices.Step (n.subscription s A B) (n'.subscription s A B) := by
  cases hstep with
  | @act s' limits op result hadmissible hown hcommit =>
    rcases s.eq_or s' with rfl | rfl
    · refine releases (Net.after_tables_other ..) (congrArg _ (Net.after_inbox_self ..)) ?_
      rw [Net.after_tables_self]
      refine holds_of_commit (sound_of_reachable (reachable_side hn s')) hadmissible hcommit (outside_of_other hB) ?_
      rw [heard_eq_none hB hown]
      exact nofun
    · have hsound := sound_of_reachable (reachable_side hn s.other)
      have hlink := stepsLink_of_commit hsound.wellFormed hadmissible hcommit B (outside_of_local hA)
      exact decides hA hB (reachable_side hn s.other) (by rwa [Net.after_tables_self])
        (Net.after_tables_of_other ..) (Net.after_inbox_of_other ..)
  | @deliver s' limits stored stanza rest hinbox =>
    rcases s.eq_or s' with rfl | rfl
    · exact hears hB (reachable_side hn s') limits stored hinbox (Net.after_tables_other ..)
        (by rw [Net.after_inbox_self, Net.took_inbox_self]) (Net.after_tables_self ..)
    · have hsound := sound_of_reachable (reachable_side hn s.other)
      obtain ⟨heard, hlink⟩ := stepsLink_accept hsound.wellFormed limits stanza stored B (outside_of_local hA)
      exact decides hA hB (reachable_side hn s.other) (by rwa [Net.after_tables_self])
        (Net.after_tables_of_other ..) (by rw [Net.after_inbox_of_other, Net.took_inbox_of_other])

theorem reachable_subscription (hn : (federation peers).Reachable n) :
    Notices.system.Reachable (n.subscription s A B) := by
  apply hn.map fun n => n.subscription s A B
  · intro n hinit
    show n.subscription s A B = ⟨false, [], false⟩
    rw [Net.subscription, holds, view_init (hinit s.other).1, view_init (hinit s).1, (hinit s).2]
    rfl
  · intro n n' hn hstep
    exact .inl (step_subscription hB hA hn hstep)

end

/-- **Grants are not dropped.** An account is subscribed to an account of the other server, on a host that runs the
extension, only while that account grants it, or while the end of the grant is on its way; or else the account's
version cannot advance any more, so that the end of the grant could not be carried out. -/
theorem federated_grants_kept_or_told (hn : (federation peers).Reachable n)
    (hA : (peers.site s).hosts.isLocalHost A.domain = true) (hB : (peers.site s.other).mounted B.domain = true) :
    ∃ own other, (n.tables s).rosterSubscription A B.jid = .ok own ∧
      (n.tables s.other).rosterSubscription B A.jid = .ok other ∧
      (isSubscribed own = true → granted other = true ∨ ⟨.unsubscribed, B, A⟩ ∈ n.inbox s ∨
        wordSize ≤ (n.tables s).rosterVersion A + 1) ∧
      ((∀ s', n.inbox s' = []) → isSubscribed own = true →
        granted other = true ∨ wordSize ≤ (n.tables s).rosterVersion A + 1) := by
  have hsound := sound_of_reachable (reachable_side hn s)
  have hsound' := sound_of_reachable (reachable_side hn s.other)
  have hkept : isSubscribed (((n.tables s).book syn).sub A B.jid) = true →
      granted (((n.tables s.other).book syn).sub B A.jid) = true ∨ ⟨.unsubscribed, B, A⟩ ∈ n.inbox s ∨
        wordSize ≤ (n.tables s).rosterVersion A + 1 := by
    rw [isSubscribed_sub, Book.granted_sub]
    intro hsubscribed
    by_cases hfits : ((n.tables s).book syn).CanAdvance A
    · rcases Notices.granted_or_withdraw_mem (reachable_subscription hB hA hn)
        (holds_eq_true.mpr ⟨hsubscribed, hfits⟩) with hgranted | htold
      · exact .inl hgranted
      · obtain ⟨stanza, hmem, hnotice⟩ := List.mem_filterMap.mp htold
        rw [noticeTo_eq_withdraw.mp hnotice] at hmem
        exact .inr (.inl hmem)
    · exact .inr (.inr (Nat.le_of_not_lt hfits))
  refine ⟨_, _, hsound.wellFormed.rosterSubscription_book A B.jid,
    hsound'.wellFormed.rosterSubscription_book B A.jid, hkept, ?_⟩
  intro hempty hsubscribed
  rcases hkept hsubscribed with hgranted | hmem | hversion
  · exact .inl hgranted
  · rw [hempty s] at hmem
    cases hmem
  · exact .inr hversion

end Subscription

/-! ### A version that cannot advance -/

theorem commit_set_again {A : AccountKey syn} {item : RosterItem syn}
    (h : t.WellFormed syn) (hA : site.Serves (t.book syn) A)
    (hitem : (t.book syn).item A item.jid = some item) (hfits : (t.book syn).CanAdvance A) (limits : Limits) :
    ∃ t', (Operation.set A item.jid item.name item.groups).commit site limits t =
        some (t', [.push A ⟨(t.book syn).version A + 1, item⟩]) ∧
      t'.book syn = ((t.book syn).setItem A item.jid (some item)).advance A := by
  obtain ⟨record, _, _, hholds⟩ := h.row_of_item hitem
  have hmeans : Means (⟨t, t⟩ : Write).tables (t.book syn) := ⟨h, rfl⟩
  obtain ⟨w', hput⟩ := hmeans.replace hitem hfits hA.1 hholds.groups hholds.value le_rfl (quota limits A)
  have hcurrent : (t.book syn).sub A item.jid = some item.subscription := by
    rw [Book.sub, hitem]
    rfl
  refine ⟨w'.tables, committed_eq_some.mpr ⟨w', ?_, rfl⟩, (putRosterItem_leads h hput).book⟩
  simp only [onHost, if_pos hA.2, setItem, Tx.run_bind_eq, Tx.run_ite_eq, Tx.run_pure_eq, Tx.run_throw_eq,
    Tx.run_mapError_eq, run_perform_eq, run_query_eq]
  exact ⟨_, _, ⟨_, _, run_requireAccount_eq.mpr ⟨hA.1, rfl⟩, some item.subscription, _,
    ⟨(h.rosterSubscription_book A item.jid).trans (congrArg _ hcurrent), rfl⟩,
    .inr ⟨Nat.not_lt.mpr hholds.groups, _, _, hput, rfl, rfl⟩⟩, rfl, rfl⟩

/-! A run of two servers: `alice` asks for the presence of `dora`, who approves. -/

def oneHostSite (host : Text) (extended : Bool) : Site :=
  ⟨⟨fun _ => true, (· == host)⟩, fun domain => extended && domain == host, fun _ h => (Bool.and_eq_true_iff.mp h).2⟩

/-- The host of `dora` may be one without the extension. -/
def samplePeers (extended : Bool) : Peers where
  site
    | .left => oneHostSite ['h'] true
    | .right => oneHostSite ['g'] extended
  disjoint s domain h := by
    cases s with
    | left =>
      rw [show domain = ['h'] from eq_of_beq h]
      rfl
    | right =>
      rw [show domain = ['g'] from eq_of_beq h]
      rfl

def dora : AccountKey plainSyntax := ⟨⟨['d', '@', 'g'], by decide, by decide⟩, by decide, by decide⟩

/-- An account of one server sends a stanza, or one server takes the next stanza of the other in. -/
inductive Move where
  | send (s : Side) (sender target : AccountKey plainSyntax) (kind : SubscriptionKind)
  | receive (s : Side)

def Net.move (peers : Peers) (n : Net plainSyntax) : Move → Net plainSyntax
  | .send s sender target kind =>
    match (Operation.presence sender target.jid false false kind []).commit (peers.site s) (fun _ => {})
        (n.tables s) with
    | some result => n.after peers s result
    | none => n
  | .receive s =>
    match n.inbox s with
    | stanza :: rest => (n.took s rest).after peers s (accept (peers.site s) (fun _ => {}) stanza [] (n.tables s))
    | [] => n

theorem reachable_move {n : Net plainSyntax} (hn : (federation peers).Reachable n) (move : Move) :
    (federation peers).Reachable (n.move peers move) := by
  cases move with
  | send s sender target kind =>
    rw [Net.move]
    split
    case h_1 result hcommit => exact hn.step (.act s (by trivial) (by exact id) hcommit)
    case h_2 => exact hn
  | receive s =>
    rw [Net.move]
    split
    case h_1 stanza rest hinbox => exact hn.step (.deliver s _ [] hinbox)
    case h_2 => exact hn

theorem reachable_moves {n : Net plainSyntax} (hn : (federation peers).Reachable n) (moves : List Move) :
    (federation peers).Reachable (moves.foldl (Net.move peers) n) := by
  induction moves generalizing n with
  | nil => exact hn
  | cons move moves ih => exact ih (reachable_move hn move)

def twoAccounts : Net plainSyntax where
  tables
    | .left => { accounts := {alice.text} }
    | .right => { accounts := {dora.text} }
  inbox _ := []

def approval : List Move :=
  [.send .left alice dora .subscribe, .receive .right, .send .right dora alice .subscribed, .receive .left]

def approved (extended : Bool) : Net plainSyntax := approval.foldl (Net.move (samplePeers extended)) twoAccounts

theorem reachable_twoAccounts (extended : Bool) : (federation (samplePeers extended)).Reachable twoAccounts := by
  refine .init fun s => ⟨?_, rfl⟩
  cases s <;> exact ⟨rfl, rfl, rfl⟩

/-- `alice` is subscribed to `dora`, who grants it. -/
theorem federated_grants_kept_or_told_approved :
    ((approved true).tables .left).rosterSubscription alice dora.jid = .ok (some { state := .to }) ∧
      ∃ own other, ((approved true).tables .left).rosterSubscription alice dora.jid = .ok own ∧
        ((approved true).tables .right).rosterSubscription dora alice.jid = .ok other ∧
        (isSubscribed own = true → granted other = true ∨ ⟨.unsubscribed, dora, alice⟩ ∈ (approved true).inbox .left ∨
          wordSize ≤ ((approved true).tables .left).rosterVersion alice + 1) := by
  obtain ⟨own, other, hown, hother, hkept, _⟩ := federated_grants_kept_or_told
    (reachable_moves (reachable_twoAccounts true) approval) (s := .left) (A := alice) (B := dora) (by decide) (by decide)
  exact ⟨by decide +kernel, own, other, hown, hother, hkept⟩

def doraItem : RosterItem plainSyntax := ⟨dora.jid, none, [], { state := .to }⟩

/-- `dora` has approved and then ended the grant, and `alice` has not heard of the end. -/
def ended : Net plainSyntax := (approved true).move (samplePeers true) (.send .right dora alice .unsubscribed)

/-- As in `ended`, with another version of `alice`. -/
structure AtVersion (n : Net plainSyntax) (version : Nat) : Prop where
  reachable : (federation (samplePeers true)).Reachable n
  serves : ((samplePeers true).site .left).Serves ((n.tables .left).book plainSyntax) alice
  item : ((n.tables .left).book plainSyntax).item alice dora.jid = some doraItem
  version_eq : ((n.tables .left).book plainSyntax).version alice = version
  right : n.tables .right = ended.tables .right
  inbox : ∀ s, n.inbox s = ended.inbox s

theorem atVersion_ended : AtVersion ended 2 where
  reachable := reachable_move (reachable_moves (reachable_twoAccounts true) approval) _
  serves := ⟨show alice.text ∈ (ended.tables .left).accounts by decide +kernel, rfl⟩
  item := by decide +kernel
  version_eq := by decide +kernel
  right := rfl
  inbox _ := rfl

theorem AtVersion.next {n : Net plainSyntax} {version : Nat} (h : AtVersion n version)
    (hfits : version + 1 < wordSize) : ∃ n', AtVersion n' (version + 1) := by
  have hwellFormed := (sound_of_reachable (reachable_side h.reachable .left)).wellFormed
  have hadvance : ((n.tables .left).book plainSyntax).CanAdvance alice := by
    rw [Book.CanAdvance, h.version_eq]
    exact hfits
  have hitem : ((n.tables .left).book plainSyntax).item alice doraItem.jid = some doraItem := h.item
  obtain ⟨t', hcommit, hbook⟩ := commit_set_again hwellFormed h.serves hitem hadvance fun _ => {}
  refine ⟨n.after (samplePeers true) .left _, h.reachable.step (.act .left (by trivial) (by exact id) hcommit), ?_, ?_, ?_,
    ?_, ?_⟩
  · rw [Net.after_tables_self, hbook]
    exact h.serves
  · rw [Net.after_tables_self, hbook]
    simp [Book.advance, Book.setItem, doraItem]
  · rw [Net.after_tables_self, hbook]
    simp [Book.advance, Book.setItem, h.version_eq]
  · exact (Net.after_tables_other ..).trans h.right
  · intro s
    cases s with
    | left => exact (Net.after_inbox_self ..).trans (h.inbox .left)
    | right => exact (Net.after_inbox_other ..).trans ((List.append_nil _).trans (h.inbox .right))

theorem exists_atVersion {version : Nat} (hle : 2 ≤ version) (hlt : version < wordSize) : ∃ n, AtVersion n version := by
  induction version, hle using Nat.le_induction with
  | base => exact ⟨ended, atVersion_ended⟩
  | succ version _ ih =>
    obtain ⟨n, hn⟩ := ih (by omega)
    exact hn.next hlt

theorem AtVersion.accept_unsubscribed {n : Net plainSyntax} (h : AtVersion n (wordSize - 1)) :
    accept ((samplePeers true).site .left) (fun _ => {}) ⟨.unsubscribed, dora, alice⟩ [] (n.tables .left) =
      (n.tables .left, []) := by
  rcases accept_cases ((samplePeers true).site .left) (fun _ => {})
    (⟨.unsubscribed, dora, alice⟩ : SubscriptionStanza plainSyntax) [] (n.tables .left) with hsame | ⟨_, hcommit⟩
  · exact hsame
  · have hwellFormed := (sound_of_reachable (reachable_side h.reachable .left)).wellFormed
    have hchanges : ((n.tables .left).book plainSyntax).Changes alice dora.jid withdrawOutbound := by
      refine ⟨{ state := .to }, ?_, by decide⟩
      rw [Book.sub, h.item]
      rfl
    have hfits := (commit_unsubscribed hwellFormed h.serves rfl rfl _ _).mp ⟨_, hcommit⟩ hchanges
    rw [Book.CanAdvance, h.version_eq] at hfits
    exact absurd hfits (by decide)

/-- With nothing under way `alice` may be subscribed to `dora`, who does not grant it. -/
def GrantLost (extended : Bool) : Prop :=
  ∃ n : Net plainSyntax, (federation (samplePeers extended)).Reachable n ∧ (∀ s, n.inbox s = []) ∧
    (n.tables .left).rosterSubscription alice dora.jid = .ok (some { state := .to }) ∧
    ∃ other, (n.tables .right).rosterSubscription dora alice.jid = .ok other ∧ granted other = false

/-- `dora` ends the grant, and `alice`'s version cannot advance, so that the stanza is without effect there; or the host
of `dora` is without the extension and routes the approval without a record of it. -/
theorem end_of_grant_lost : GrantLost true ∧ GrantLost false := by
  refine ⟨?_, ?unextended⟩
  case unextended =>
    refine ⟨approved false, reachable_moves (reachable_twoAccounts false) approval, fun s => ?_, by decide +kernel, none,
      by decide +kernel, rfl⟩
    cases s <;> decide +kernel
  obtain ⟨n, hn⟩ : ∃ n, AtVersion n (wordSize - 1) := exists_atVersion (by decide) (by decide)
  have hinbox : n.inbox .left = [⟨.unsubscribed, dora, alice⟩] := (hn.inbox .left).trans (by decide +kernel)
  have hdelivered := hn.reachable.step (.deliver .left (fun _ => {}) [] hinbox)
  rw [hn.accept_unsubscribed] at hdelivered
  refine ⟨_, hdelivered, ?_, ?_, some {}, ?_, rfl⟩
  · intro s
    cases s with
    | left => exact (Net.after_inbox_self ..).trans (Net.took_inbox_self ..)
    | right =>
      calc _ = _ ++ (samplePeers true).mail .left [] := Net.after_inbox_other ..
        _ = _ := List.append_nil _
        _ = n.inbox .right := Net.took_inbox_other n .left _
        _ = [] := (hn.inbox .right).trans (by decide +kernel)
  · rw [Net.after_tables_self,
      (sound_of_reachable (reachable_side hn.reachable .left)).wellFormed.rosterSubscription_book, Book.sub, hn.item]
    rfl
  · have hright : ((n.took .left []).after (samplePeers true) .left (n.tables .left, [])).tables .right =
        n.tables .right := Net.after_tables_other ..
    rw [hright, hn.right]
    decide +kernel

end Lonewolf.Roster
