import Lonewolf.Roster.Remote

/-!
# Flags of the subscriptions

A stored request has not been answered: its owner neither grants nor has pre-approved the contact. Between
accounts of this server this follows from how they mirror each other; for contacts of other servers, which
may send any stanza at any time, it is kept by every step of the link.
-/

namespace Lonewolf.Roster

variable {syn : JidSyntax} {site : Site}

/-- A request that is stored has not been granted. -/
def LinkData.Unanswered (d : LinkData) : Prop := d.asked = true → grants d.view.state = false

instance (d : LinkData) : Decidable d.Unanswered := inferInstanceAs (Decidable (_ → _))

namespace LinkStep

variable {federates : Bool} {heard : Option SubscriptionKind} {d d' : LinkData} {out : List SubscriptionKind}

private theorem unanswered_settled : ∀ v asked kind,
    (LinkData.mk v asked).Unanswered → ((LinkData.mk v asked).settled kind).Unanswered := by
  decide +kernel

private theorem unanswered_sent : ∀ v asked kind,
    (LinkData.mk v asked).Unanswered → ((LinkData.mk v asked).sent kind).Unanswered := by
  decide +kernel

private theorem unanswered_received : ∀ v asked kind,
    Flags v asked → (LinkData.mk v asked).Unanswered → ((LinkData.mk v asked).received kind).Unanswered := by
  decide +kernel

theorem unanswered (h : LinkStep federates heard d d' out) (hflags : Flags d.view d.asked) (hd : d.Unanswered) :
    d'.Unanswered := by
  cases h with
  | idle => exact hd
  | settle kind _ => exact unanswered_settled d.view d.asked kind hd
  | send kind _ => exact unanswered_sent d.view d.asked kind hd
  | receive kind _ _ => exact unanswered_received d.view d.asked kind hflags hd
  | drop =>
    intro hasked
    cases hasked

end LinkStep

theorem unanswered_of_reachable {t : Tables} (h : (server syn site).Reachable t) (o : AccountKey syn)
    {j : RosterJid syn} (hj : Outside site j) : ((t.book syn).link o j).Unanswered := by
  induction h with
  | @init t hinit =>
    intro hasked
    have hrequest : t.pending.get? (itemKey o j) = none := by
      rw [hinit.2.2]
      rfl
    rw [Book.link, Book.asked, show (t.book syn).request o j = none from hrequest] at hasked
    cases hasked
  | @step t t' ht hstep ih =>
    obtain ⟨limits, op, effects, hadmissible, hcommit⟩ := hstep
    have hsound := sound_of_reachable ht
    obtain ⟨out, hlink, _⟩ := stepsLink_of_commit hsound.wellFormed hadmissible hcommit o hj
    exact hlink.unanswered (hsound.consistent.flags o j) ih

theorem Consistent.unanswered {b : Book syn} (h : Consistent site b) {o B : AccountKey syn}
    (hB : site.hosts.isLocalHost B.domain = true) : (b.link o B.jid).Unanswered := by
  intro hasked
  by_cases hserves : site.Serves b o
  · obtain ⟨hto, hout⟩ := h.mirrors B o hB hserves.isLocal
    have hpending : (b.view B o.jid).pendingOut = true := hout.trans hasked
    rw [← (h.flags B o.jid).2 hpending]
    exact hto.symm
  · rw [Book.link, (h.owned o B.jid hserves).asked] at hasked
    cases hasked

/-- In every reachable state, for every owner and contact: a pre-approved item does not grant and no request
waits; an item with a request out is not subscribed; and a request waits only if the owner neither grants
nor has pre-approved the contact. -/
theorem subscription_flags_go_together {t : Tables} (h : (server syn site).Reachable t) (o : AccountKey syn)
    (j : RosterJid syn) :
    ∃ own, t.rosterSubscription o j = .ok own ∧
      (∀ item ∈ own, item.approved = true →
        grants item.state = false ∧ t.pendingRequestExists o j = false) ∧
      (∀ item ∈ own, item.pendingOut = true → subscribedTo item.state = false) ∧
      (t.pendingRequestExists o j = true →
        ∀ item ∈ own, grants item.state = false ∧ item.approved = false) := by
  have hsound := sound_of_reachable h
  refine ⟨(t.book syn).sub o j, hsound.wellFormed.rosterSubscription_book o j, ?_⟩
  have hview : ∀ item ∈ (t.book syn).sub o j, (t.book syn).view o j = item := by
    intro item hitem
    rw [Book.view, Option.mem_def.mp hitem, Option.getD_some]
  have hflags := hsound.consistent.flags o j
  have hunanswered : ((t.book syn).link o j).Unanswered := by
    by_cases hj : Outside site j
    · exact unanswered_of_reachable h o hj
    · simp only [Outside, not_forall, Bool.not_eq_false] at hj
      obtain ⟨B, rfl, hB⟩ := hj
      exact hsound.consistent.unanswered hB
  refine ⟨?_, ?_, ?_⟩
  · intro item hitem happroved
    rw [hview item hitem] at hflags
    exact hflags.1 happroved
  · intro item hitem hout
    rw [hview item hitem] at hflags
    exact hflags.2 hout
  · intro hasked item hitem
    rw [← hview item hitem]
    refine ⟨hunanswered hasked, ?_⟩
    by_contra happroved
    rw [Bool.not_eq_false] at happroved
    have hnone := (hflags.1 happroved).2
    rw [show (t.book syn).asked o j = true from hasked] at hnone
    cases hnone

/-- `bob` holds the request of `alice`, who waits for the answer. -/
theorem subscription_flags_go_together_request :
    ∃ t : Tables, t.pendingRequestExists bob alice.jid = true ∧
      t.rosterSubscription alice bob.jid = .ok (some { pendingOut := true }) ∧
      ∃ own, t.rosterSubscription alice bob.jid = .ok own ∧
        ∀ item ∈ own, item.pendingOut = true → subscribedTo item.state = false := by
  have hreach : (server plainSyntax sampleSite).Reachable (afterOperations { accounts := {alice.text, bob.text} }
      [.presence alice bob.jid false false .subscribe []]) := by
    apply reachable_afterOperations (.init ⟨rfl, rfl, rfl⟩)
    intro op hop
    rw [List.mem_singleton.mp hop]
    trivial
  obtain ⟨own, hown, _, hout, _⟩ := subscription_flags_go_together hreach alice bob.jid
  exact ⟨_, by decide +kernel, by decide +kernel, own, hown, hout⟩

end Lonewolf.Roster
