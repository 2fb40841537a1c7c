import Lonewolf.Roster.HandlerSpec

/-!
# Remote contacts

What an account has on file about a contact of another server: its view of the contact and whether a
request of the contact is stored. A stanza to the contact or from it changes these data alone, and they
decide what is sent.
-/

namespace Lonewolf.Roster

open Texts

variable {syn : JidSyntax}

instance : Fintype SubscriptionKind where
  elems := {.subscribe, .subscribed, .unsubscribe, .unsubscribed}
  complete kind := by cases kind <;> decide

structure LinkData where
  view : RosterSubscription
  asked : Bool
  deriving DecidableEq

namespace LinkData

variable (d : LinkData)

/-- A stanza of the account is sent on to the contact. -/
def routes : SubscriptionKind → Bool
  | .subscribe | .unsubscribe => true
  | .subscribed => d.asked && !grants d.view.state
  | .unsubscribed => d.asked || grants d.view.state

def sent : SubscriptionKind → LinkData
  | .subscribe => ⟨applied setPendingOut d.view, d.asked⟩
  | .unsubscribe => ⟨applied withdrawOutbound d.view, d.asked⟩
  | .subscribed =>
    if d.routes .subscribed then ⟨applied grantApproved d.view, false⟩
    else ⟨applied preApprove d.view, d.asked⟩
  | .unsubscribed => ⟨applied (cancelled false) d.view, false⟩

def received : SubscriptionKind → LinkData
  | .subscribe =>
    if grants d.view.state then d
    else if d.view.approved then ⟨applied grantApproved d.view, d.asked⟩
    else ⟨d.view, true⟩
  | .subscribed => ⟨applied approvePendingOut d.view, d.asked⟩
  | .unsubscribe => ⟨if grants d.view.state then applied revoke d.view else d.view, false⟩
  | .unsubscribed => ⟨applied withdrawOutbound d.view, d.asked⟩

def reply : SubscriptionKind → Option SubscriptionKind
  | .subscribe => if grants d.view.state || d.view.approved then some .subscribed else none
  | .unsubscribe => if d.asked || grants d.view.state then some .unsubscribed else none
  | .subscribed | .unsubscribed => none

/-- What is sent when the account drops the contact. -/
def farewell : List SubscriptionKind :=
  (if subscribedTo d.view.state || d.view.pendingOut then [.unsubscribe] else []) ++
    if grants d.view.state || d.asked then [.unsubscribed] else []

end LinkData

namespace Book

variable (b : Book syn) (owner : AccountKey syn) (contact : RosterJid syn)

def link : LinkData := ⟨b.view owner contact, b.asked owner contact⟩

variable (kind : SubscriptionKind)

theorem link_routes : b.routes owner contact kind = (b.link owner contact).routes kind := by
  cases kind <;> simp only [routes, LinkData.routes, link, granted_sub]

variable {b owner contact}

theorem link_sendRemote : (b.sendRemote owner contact kind).link owner contact = (b.link owner contact).sent kind := by
  cases kind with
  | subscribe =>
    rw [sendRemote, link, view_update, if_pos ⟨rfl, rfl⟩, asked_update]
    rfl
  | unsubscribe =>
    rw [sendRemote, link, view_updateIdle idle_withdrawOutbound, if_pos ⟨rfl, rfl⟩, asked_updateExisting]
    rfl
  | subscribed =>
    rw [sendRemote, LinkData.sent, ← link_routes]
    by_cases hroutes : b.routes owner contact .subscribed
    · rw [if_pos hroutes, if_pos hroutes]
      rw [routes, Bool.and_eq_true] at hroutes
      rw [link, view_resolve, if_pos ⟨rfl, rfl, hroutes.1⟩, asked_resolve, if_pos ⟨rfl, rfl⟩]
      rfl
    · rw [if_neg hroutes, if_neg hroutes, link, view_update, if_pos ⟨rfl, rfl⟩, asked_update]
      rfl
  | unsubscribed =>
    rw [sendRemote, link, view_cancelSubscription_own, asked_cancelSubscription, if_pos ⟨rfl, rfl⟩]
    rfl

theorem link_receiveRemote (stored : Bytes) (kind : SubscriptionKind) :
    (b.receiveRemote owner contact stored kind).link owner contact = (b.link owner contact).received kind := by
  cases kind with
  | subscribe =>
    simp only [receiveRemote, LinkData.received]
    by_cases hgrants : grants (b.view owner contact).state
    · rw [if_pos hgrants]
      exact (if_pos hgrants).symm
    · rw [if_neg hgrants]
      refine Eq.trans ?_ (if_neg hgrants).symm
      by_cases happroved : (b.view owner contact).approved
      · rw [if_pos happroved, link, view_updateExisting (.inr (sub_isSome_of_approved happroved)),
          if_pos ⟨rfl, rfl⟩, asked_updateExisting]
        exact (if_pos happroved).symm
      · rw [if_neg happroved]
        refine Eq.trans ?_ (if_neg happroved).symm
        by_cases hasked : b.asked owner contact
        · rw [if_pos hasked, link, hasked]
        · rw [if_neg hasked, link, view_setRequest, asked_setRequest, if_pos ⟨rfl, rfl⟩]
          rfl
  | subscribed =>
    rw [receiveRemote, link, view_updateIdle idle_approvePendingOut, if_pos ⟨rfl, rfl⟩, asked_updateExisting]
    rfl
  | unsubscribe =>
    simp only [receiveRemote, link, view_updateOther _ _ idle_revoke, asked_updateOther, asked_setRequest,
      view_setRequest, and_self, if_true, Option.isSome_none]
    rfl
  | unsubscribed =>
    rw [receiveRemote, link, view_updateIdle idle_withdrawOutbound, if_pos ⟨rfl, rfl⟩, asked_updateExisting]
    rfl

theorem link_replies : b.replies owner contact kind = (b.link owner contact).reply kind := by
  cases kind <;> rfl

end Book

end Lonewolf.Roster
