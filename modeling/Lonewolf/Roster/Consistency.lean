import Lonewolf.Roster.HandlerSpec

/-!
# Consistency of subscriptions

The rule the rosters of one server keep: of two local accounts, one is subscribed exactly when the other grants, and
has a request out exactly when the other has it stored; and the flags of every item go together. An absent item
counts as the default item, so nothing is left about a local account that does not exist. An operation on two
accounts is checked on the four data of the pair, which are finitely many.
-/

namespace Lonewolf.Roster

open Texts

instance : Fintype SubscriptionState where
  elems := {.none, .to, .from', .both}
  complete s := by cases s <;> decide

instance : Fintype RosterSubscription :=
  Fintype.ofEquiv (SubscriptionState × Bool × Bool)
    { toFun := fun x => ⟨x.1, x.2.1, x.2.2⟩, invFun := fun v => (v.state, v.pendingOut, v.approved),
      left_inv := fun _ => rfl, right_inv := fun _ => rfl }

variable {syn : JidSyntax} {b b' : Book syn} {o : AccountKey syn} {j : RosterJid syn}

/-! ### The rule -/

/-- The flags of an item: a pre-approval waits for a request, and a request is out only while there is no
subscription. -/
def Flags (v : RosterSubscription) (asked : Bool) : Prop :=
  (v.approved = true → grants v.state = false ∧ asked = false) ∧ (v.pendingOut = true → subscribedTo v.state = false)

/-- One account's view of another mirrors the other's view and the requests stored there. -/
def Mirrors (own other : RosterSubscription) (stored : Bool) : Prop :=
  subscribedTo own.state = grants other.state ∧ own.pendingOut = stored

instance (v : RosterSubscription) (asked : Bool) : Decidable (Flags v asked) :=
  inferInstanceAs (Decidable (_ ∧ _))

instance (own other : RosterSubscription) (stored : Bool) : Decidable (Mirrors own other stored) :=
  inferInstanceAs (Decidable (_ ∧ _))

/-- The contact sees no difference between two views of it and their requests. -/
def LooksLike (v : RosterSubscription) (asked : Bool) (v' : RosterSubscription) (asked' : Bool) : Prop :=
  subscribedTo v.state = subscribedTo v'.state ∧ grants v.state = grants v'.state ∧
    v.pendingOut = v'.pendingOut ∧ asked = asked'

instance (v v' : RosterSubscription) (asked asked' : Bool) : Decidable (LooksLike v asked v' asked') :=
  inferInstanceAs (Decidable (_ ∧ _))

/-- The data of two accounts: how each views the other, and whether each has the other's request. -/
structure PairData where
  own : RosterSubscription
  other : RosterSubscription
  ownAsked : Bool
  otherAsked : Bool

def PairData.Ok (p : PairData) : Prop :=
  Flags p.own p.ownAsked ∧ Flags p.other p.otherAsked ∧ Mirrors p.own p.other p.otherAsked ∧
    Mirrors p.other p.own p.ownAsked

instance (p : PairData) : Decidable p.Ok := inferInstanceAs (Decidable (_ ∧ _))

def Book.pair (b : Book syn) (A B : AccountKey syn) : PairData :=
  ⟨b.view A B.jid, b.view B A.jid, b.asked A B.jid, b.asked B A.jid⟩

/-- The hosts of a server: which domains are local, and which of them have the roster extension. -/
structure Site where
  hosts : HostLookup
  mounted : Text → Bool
  mounted_local : ∀ domain, mounted domain = true → hosts.isLocalHost domain = true

/-- The account exists, on a host with the roster extension. -/
def Site.Serves (site : Site) (b : Book syn) (account : AccountKey syn) : Prop :=
  b.hasAccount account ∧ site.mounted account.domain = true

theorem Site.Serves.isLocal {site : Site} {account : AccountKey syn} (h : site.Serves b account) :
    site.hosts.isLocalHost account.domain = true :=
  site.mounted_local _ h.2

def Book.NoRows (b : Book syn) (o : AccountKey syn) (j : RosterJid syn) : Prop :=
  b.item o j = none ∧ b.request o j = none

/-- The rosters of the local accounts are consistent; only accounts that are served have rows. -/
structure Consistent (site : Site) (b : Book syn) : Prop where
  flags : ∀ (o : AccountKey syn) (j : RosterJid syn), Flags (b.view o j) (b.asked o j)
  mirrors : ∀ A B : AccountKey syn, site.hosts.isLocalHost A.domain → site.hosts.isLocalHost B.domain →
    Mirrors (b.view A B.jid) (b.view B A.jid) (b.asked B A.jid)
  owned : ∀ (o : AccountKey syn) (j : RosterJid syn), ¬ site.Serves b o → b.NoRows o j

/-! ### Two accounts -/

/-- The rows that two accounts have about each other. -/
def AboutPair (A B o : AccountKey syn) (j : RosterJid syn) : Prop :=
  (o = A ∧ j = B.jid) ∨ (o = B ∧ j = A.jid)

theorem aboutPair_left (A B : AccountKey syn) : AboutPair A B A B.jid := .inl ⟨rfl, rfl⟩

theorem aboutPair_right (A B : AccountKey syn) : AboutPair A B B A.jid := .inr ⟨rfl, rfl⟩

theorem aboutPair_account (A B : AccountKey syn) : ∀ account ∈ some B, AboutPair A B account A.jid :=
  fun _ haccount => .inr ⟨(Option.some.inj haccount).symm, rfl⟩

theorem aboutPair_jid {A B C D : AccountKey syn} : AboutPair A B C D.jid ↔ (C = A ∧ D = B) ∨ (C = B ∧ D = A) := by
  simp only [AboutPair, AccountKey.jid_injective.eq_iff]

theorem Book.NoRows.view (h : b.NoRows o j) : b.view o j = {} := by
  rw [Book.view, Book.sub, h.1]
  rfl

theorem Book.NoRows.asked (h : b.NoRows o j) : b.asked o j = false := by
  rw [Book.asked, h.2]
  rfl

variable {p : AccountKey syn → RosterJid syn → Prop}

theorem SameRows.noRows (hrows : SameRows p b b') (hp : ¬ p o j) (h : b.NoRows o j) : b'.NoRows o j :=
  ⟨(hrows.item o j hp).trans h.1, (hrows.request o j hp).trans h.2⟩

theorem SameRows.serves {site : Site} (hrows : SameRows p b b') : site.Serves b' o ↔ site.Serves b o := by
  rw [Site.Serves, hrows.hasAccount, Site.Serves]

namespace Consistent

variable {site : Site} {A B : AccountKey syn}

variable (h : Consistent site b)
include h

theorem pair_ok (hA : site.hosts.isLocalHost A.domain) (hB : site.hosts.isLocalHost B.domain) : (b.pair A B).Ok :=
  ⟨h.flags _ _, h.flags _ _, h.mirrors A B hA hB, h.mirrors B A hB hA⟩

theorem of_pair (hrows : SameRows (AboutPair A B) b b') (hA : site.Serves b A)
    (hB : site.Serves b B ∨ b'.NoRows B A.jid) (hok : (b'.pair A B).Ok) : Consistent site b' where
  flags o j := by
    by_cases hpair : AboutPair A B o j
    · rcases hpair with ⟨rfl, rfl⟩ | ⟨rfl, rfl⟩
      · exact hok.1
      · exact hok.2.1
    · rw [hrows.view hpair, hrows.asked hpair]
      exact h.flags o j
  mirrors C D hC hD := by
    by_cases hpair : AboutPair A B C D.jid
    · rcases aboutPair_jid.mp hpair with ⟨rfl, rfl⟩ | ⟨rfl, rfl⟩
      · exact hok.2.2.1
      · exact hok.2.2.2
    · have hpair' : ¬ AboutPair A B D C.jid := by
        rw [aboutPair_jid] at hpair ⊢
        tauto
      rw [hrows.view hpair, hrows.view hpair', hrows.asked hpair']
      exact h.mirrors C D hC hD
  owned o j hnot := by
    rw [hrows.serves] at hnot
    by_cases hpair : AboutPair A B o j
    · rcases hpair with ⟨rfl, _⟩ | ⟨rfl, rfl⟩
      · exact absurd hA hnot
      · exact hB.resolve_left hnot
    · exact hrows.noRows hpair (h.owned o j hnot)

/-- An operation on one item keeps the rule when the flags are right and the other side, if it is local,
sees no difference. -/
theorem of_single {jid : RosterJid syn} {v : RosterSubscription} {asked : Bool}
    (hrows : SameRows (fun o j => o = A ∧ j = jid) b b') (hA : site.Serves b A) (hview : b'.view A jid = v)
    (hasked : b'.asked A jid = asked) (hflags : Flags v asked)
    (hsame : ∀ B : AccountKey syn, B.jid = jid → site.hosts.isLocalHost B.domain →
      LooksLike v asked (b.view A jid) (b.asked A jid))
    : Consistent site b' where
  flags o j := by
    by_cases hkey : o = A ∧ j = jid
    · obtain ⟨rfl, rfl⟩ := hkey
      rwa [hview, hasked]
    · rw [hrows.view hkey, hrows.asked hkey]
      exact h.flags o j
  mirrors C D hC hD := by
    have hold := h.mirrors C D hC hD
    have hleft : subscribedTo (b'.view C D.jid).state = subscribedTo (b.view C D.jid).state ∧
        (b'.view C D.jid).pendingOut = (b.view C D.jid).pendingOut := by
      by_cases hkey : C = A ∧ D.jid = jid
      · obtain ⟨rfl, rfl⟩ := hkey
        rw [hview]
        exact ⟨(hsame D rfl hD).1, (hsame D rfl hD).2.2.1⟩
      · rw [hrows.view hkey]
        exact ⟨rfl, rfl⟩
    have hright : grants (b'.view D C.jid).state = grants (b.view D C.jid).state ∧
        b'.asked D C.jid = b.asked D C.jid := by
      by_cases hkey : D = A ∧ C.jid = jid
      · obtain ⟨rfl, rfl⟩ := hkey
        rw [hview, hasked]
        exact ⟨(hsame C rfl hC).2.1, (hsame C rfl hC).2.2.2⟩
      · rw [hrows.view hkey, hrows.asked hkey]
        exact ⟨rfl, rfl⟩
    exact ⟨by rw [hleft.1, hright.1, hold.1], by rw [hleft.2, hright.2, hold.2]⟩
  owned o j hnot := by
    rw [hrows.serves] at hnot
    apply hrows.noRows ?_ (h.owned o j hnot)
    rintro ⟨ho, _⟩
    subst ho
    exact hnot hA

theorem missing (hA : site.hosts.isLocalHost A.domain) (hB : site.hosts.isLocalHost B.domain) (hnone : b.NoRows B A.jid)
    : (b.view A B.jid).state = .none ∧ (b.view A B.jid).pendingOut = false ∧ b.asked A B.jid = false := by
  obtain ⟨hto, hout⟩ := h.mirrors A B hA hB
  obtain ⟨hfrom, hin⟩ := h.mirrors B A hB hA
  rw [hnone.view] at hto hfrom hin
  rw [hnone.asked] at hout
  refine ⟨?_, hout, hin.symm⟩
  cases hstate : (b.view A B.jid).state <;> simp [hstate, subscribedTo, grants] at hto hfrom ⊢

end Consistent

end Lonewolf.Roster
