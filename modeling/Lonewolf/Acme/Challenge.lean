import Lonewolf.Base.HashTable
import Lonewolf.Base.Text
import Lonewolf.Base.Transaction
import Lonewolf.Base.Transition

/-!
# Challenges of the certificate authority

`lonewolf-acme/src/challenge/mod.rs`: one slot for each configured host, the count of the published slots, and the
leases that take a publication back when they are dropped. Publications are numbered; a lease keeps its entry alive,
so the numbers stand for the pointers that `Arc::ptr_eq` compares. A lease also has the number of clears before it,
for the statements.
-/

namespace Lonewolf.Acme

open Texts HashTables Transitions Transactions

def maxChallenges : Nat := 64

structure Entry where
  token : Text
  authorization : Bytes
  id : Nat
  deriving DecidableEq

structure Registry where
  hosts : HashTable Text (Option Entry)
  active : Nat

structure ChallengeLease where
  host : Text
  entry : Entry
  clears : Nat
  deriving DecidableEq

inductive ChallengeError where
  | invalidHost
  | invalidToken
  | invalidAuthorization
  | unconfiguredHost
  | alreadyPublished
  | capacity

def base64url (c : Char) : Bool := c.isAlphanum || c == '-' || c == '_'

def validToken (token : Text) : Bool :=
  decide (22 ≤ token.byteLen ∧ token.byteLen ≤ 256) && token.all base64url

/-- The token, a full stop and the 43 characters of a digest. -/
def validAuthorization (token keyAuthorization : Text) : Bool :=
  ((keyAuthorization.dropPrefix? token).bind (·.dropPrefix? ['.'])).any fun value : Text =>
    value.byteLen == 43 && value.all base64url

def eqIgnoreAsciiCase (a b : Text) : Bool := a.map Char.toLower == b.map Char.toLower

namespace Registry

def insertHost (validDns : Text → Bool) (hosts : HashTable Text (Option Entry)) (host : Text) :
    Except ChallengeError (HashTable Text (Option Entry)) :=
  if !validDns host || hosts.contains host then .error .invalidHost else .ok (hosts.insert host none)

def new (validDns : Text → Bool) (hosts : List Text) : Except ChallengeError Registry := do
  return ⟨← hosts.foldlM (insertHost validDns) .empty, 0⟩

variable (r : Registry)

def publish (id : Nat) (dnsName token keyAuthorization : Text) : Except ChallengeError (Entry × Registry) :=
  if !validToken token then .error .invalidToken
  else if !validAuthorization token keyAuthorization then .error .invalidAuthorization
  else
    match r.hosts.get? dnsName with
    | none => .error .unconfiguredHost
    | some (some _) => .error .alreadyPublished
    | some none =>
      if r.active = maxChallenges then .error .capacity
      else
        let entry : Entry := ⟨token, keyAuthorization.utf8, id⟩
        .ok (entry, ⟨r.hosts.insert dnsName (some entry), r.active + 1⟩)

def clear : Registry := ⟨r.hosts.retain fun _ => some none, 0⟩

/-- `order` is the order in which the table is iterated. -/
def lookup (order : List Text) (host token : Text) : Option Bytes :=
  ((((order.find? (eqIgnoreAsciiCase · host)).bind r.hosts.get?).join).filter (·.token == token)).map
    Entry.authorization

/-- The drop of a lease; it has no result when the count would fall below zero. -/
def release (lease : ChallengeLease) : Option Registry :=
  match r.hosts.get? lease.host with
  | some (some entry) =>
    if entry.id = lease.entry.id then
      if r.active = 0 then none else some ⟨r.hosts.insert lease.host none, r.active - 1⟩
    else some r
  | _ => some r

def published : Finset Text := r.hosts.keys.filter fun host => (r.hosts.get? host).join.isSome

end Registry

/-- The registry with the leases that are live, and the numbers of publications and clears so far. -/
structure World where
  registry : Registry
  leases : List ChallengeLease := []
  publications : Nat := 0
  clears : Nat := 0

inductive World.Step : World → World → Prop where
  | publish {w : World} {dnsName token keyAuthorization : Text} {entry : Entry} {registry : Registry}
      (h : w.registry.publish w.publications dnsName token keyAuthorization = .ok (entry, registry)) :
      Step w { w with
        registry := registry, leases := ⟨dnsName, entry, w.clears⟩ :: w.leases
        publications := w.publications + 1 }
  | clear : ∀ {w}, Step w { w with registry := w.registry.clear, clears := w.clears + 1 }
  | drop {w : World} {lease : ChallengeLease} {registry : Registry} (hlease : lease ∈ w.leases)
      (h : w.registry.release lease = some registry) :
      Step w { w with registry := registry, leases := w.leases.erase lease }

def challenges (validDns : Text → Bool) : System World where
  init w := ∃ hosts registry, Registry.new validDns hosts = .ok registry ∧ w = { registry := registry }
  step := World.Step

/-! ### Slots -/

namespace Registry

variable {r : Registry} {host : Text} {entry : Entry}

/-- The entry is the one that is published for the host. -/
def Holds (r : Registry) (host : Text) (entry : Entry) : Prop := r.hosts.get? host = some (some entry)

theorem mem_published : host ∈ r.published ↔ ∃ entry, r.Holds host entry := by
  rw [published, Finset.mem_filter, r.hosts.mem_keys]
  unfold Holds
  rcases r.hosts.get? host with _ | _ | entry <;> simp

theorem published_insert (hosts : HashTable Text (Option Entry)) (active active' : Nat) (host : Text) (entry : Entry) :
    published ⟨hosts.insert host (some entry), active'⟩ = insert host (published ⟨hosts, active⟩) := by
  ext host'
  rw [mem_published, Finset.mem_insert, mem_published]
  simp only [Holds, HashTable.get?_insert]
  split <;> simp [*]

theorem published_remove (hosts : HashTable Text (Option Entry)) (active active' : Nat) (host : Text) :
    published ⟨hosts.insert host none, active'⟩ = (published ⟨hosts, active⟩).erase host := by
  ext host'
  rw [mem_published, Finset.mem_erase, mem_published]
  simp only [Holds, HashTable.get?_insert]
  split <;> simp [*]

theorem published_clear (r : Registry) : r.clear.published = ∅ := by
  refine Finset.eq_empty_of_forall_notMem fun host hmem => ?_
  obtain ⟨entry, hentry⟩ := mem_published.mp hmem
  obtain ⟨_, _, hnone⟩ := Option.bind_eq_some_iff.mp hentry
  cases hnone

variable {validDns : Text → Bool}

theorem not_holds_of_foldlM {names : List Text} {table table' : HashTable Text (Option Entry)}
    (htable : ∀ host entry, table.get? host ≠ some (some entry))
    (h : names.foldlM (insertHost validDns) table = .ok table') (host : Text) (entry : Entry) :
    table'.get? host ≠ some (some entry) := by
  induction names generalizing table with
  | nil =>
    cases h
    exact htable host entry
  | cons name names ih =>
    rw [List.foldlM_cons, except_bind_eq_ok] at h
    obtain ⟨next, hinsert, hrest⟩ := h
    refine ih (fun host entry => ?_) hrest
    rw [insertHost] at hinsert
    split at hinsert
    · cases hinsert
    · cases hinsert
      rw [HashTable.get?_insert]
      split
      · simp
      · exact htable host entry

theorem new_empty {hosts : List Text} (h : new validDns hosts = .ok r) :
    r.active = 0 ∧ ∀ host entry, ¬ r.Holds host entry := by
  obtain ⟨table, hfold, hpure⟩ := except_bind_eq_ok.mp h
  cases hpure
  exact ⟨rfl, not_holds_of_foldlM (fun _ _ hnone => by cases hnone) hfold⟩

/-- What a publication does: the slot was empty and a place was free. -/
theorem publish_cases {id : Nat} {dnsName token keyAuthorization : Text} {r' : Registry}
    (h : r.publish id dnsName token keyAuthorization = .ok (entry, r')) :
    r.hosts.get? dnsName = some none ∧ r.active ≠ maxChallenges ∧ entry.id = id ∧
      r' = ⟨r.hosts.insert dnsName (some entry), r.active + 1⟩ := by
  simp only [publish] at h
  split at h
  · cases h
  split at h
  · cases h
  split at h
  · cases h
  · cases h
  · split at h
    · cases h
    · cases h
      exact ⟨‹_›, ‹_›, rfl, rfl⟩

/-- The drop of a lease empties its slot when the slot has the lease's own entry, and does nothing otherwise. -/
theorem release_cases (r : Registry) (lease : ChallengeLease) :
    (∃ entry, r.Holds lease.host entry ∧ entry.id = lease.entry.id ∧
      r.release lease =
        if r.active = 0 then none else some ⟨r.hosts.insert lease.host none, r.active - 1⟩) ∨
    (∀ entry, r.Holds lease.host entry → entry.id ≠ lease.entry.id) ∧ r.release lease = some r := by
  simp only [release, Holds]
  split
  case h_1 entry hget =>
    by_cases hid : entry.id = lease.entry.id
    · exact .inl ⟨entry, hget, hid, if_pos hid⟩
    · refine .inr ⟨fun entry' hget' => ?_, if_neg hid⟩
      cases hget.symm.trans hget'
      exact hid
  case h_2 hget => exact .inr ⟨fun entry hget' => absurd hget' (hget entry), rfl⟩

end Registry

/-! ### Runs -/

namespace World

open Registry

/-- The count is right, and every published entry has a live lease from after the last clear. -/
structure Inv (w : World) : Prop where
  active : w.registry.active = w.registry.published.card
  capacity : w.registry.active ≤ maxChallenges
  leased : ∀ {host entry}, w.registry.Holds host entry → ⟨host, entry, w.clears⟩ ∈ w.leases
  issued : ∀ lease ∈ w.leases, lease.entry.id < w.publications
  distinct : ∀ lease ∈ w.leases, ∀ lease' ∈ w.leases, lease.entry.id = lease'.entry.id → lease = lease'

variable {w w' : World} {lease : ChallengeLease}

theorem Inv.holds_own (hinv : w.Inv) (hlease : lease ∈ w.leases) {host : Text} {entry : Entry}
    (hholds : w.registry.Holds host entry) (hid : entry.id = lease.entry.id) : lease = ⟨host, entry, w.clears⟩ :=
  hinv.distinct lease hlease _ (hinv.leased hholds) hid.symm

/-- The drop of a live lease: the count stays above zero, and the entry with the lease's number goes alone. -/
theorem Inv.release (hinv : w.Inv) (hlease : lease ∈ w.leases) :
    ∃ registry, w.registry.release lease = some registry ∧ registry.active = registry.published.card ∧
      registry.active ≤ w.registry.active ∧
      ∀ host entry, registry.Holds host entry ↔ w.registry.Holds host entry ∧ entry.id ≠ lease.entry.id := by
  obtain ⟨entry, hholds, hid, heq⟩ | ⟨hother, heq⟩ := w.registry.release_cases lease
  · have hmem : lease.host ∈ w.registry.published := mem_published.mpr ⟨entry, hholds⟩
    have hpositive : w.registry.active ≠ 0 := by
      rw [hinv.active]
      exact Finset.card_ne_zero_of_mem hmem
    rw [if_neg hpositive] at heq
    refine ⟨_, heq, ?_, Nat.sub_le .., fun host entry' => ?_⟩
    · rw [published_remove _ w.registry.active, Finset.card_erase_of_mem hmem, ← hinv.active]
    · simp only [Holds, HashTable.get?_insert]
      split
      case isTrue heq =>
        -- The slot of the lease's host has the lease's own entry.
        subst heq
        refine iff_of_false nofun fun ⟨hholds', hne⟩ => hne ?_
        cases hholds.symm.trans hholds'
        exact hid
      case isFalse hne =>
        refine (and_iff_left_of_imp fun hholds' hid' => hne ?_).symm
        rw [hinv.holds_own hlease hholds' hid']
  · refine ⟨_, heq, hinv.active, le_rfl, fun host entry => ?_⟩
    refine (and_iff_left_of_imp fun hholds hid => hother entry ?_ hid).symm
    rw [hinv.holds_own hlease hholds hid]
    exact hholds

theorem Inv.init {registry : Registry} (h : registry.active = 0 ∧ ∀ host entry, ¬ registry.Holds host entry) :
    Inv { registry := registry } where
  active := by
    refine h.1.trans (Finset.card_eq_zero.mpr (Finset.eq_empty_of_forall_notMem fun host hmem => ?_)).symm
    obtain ⟨entry, hholds⟩ := mem_published.mp hmem
    exact h.2 host entry hholds
  capacity := h.1.le.trans (Nat.zero_le _)
  leased hholds := absurd hholds (h.2 _ _)
  issued := nofun
  distinct := nofun

theorem Inv.step (hinv : w.Inv) (hstep : w.Step w') : w'.Inv := by
  cases hstep with
  | @publish dnsName _ _ entry registry h =>
    obtain ⟨hslot, hfree, hid, rfl⟩ := publish_cases h
    have hnew : dnsName ∉ w.registry.published := fun hmem => by
      obtain ⟨entry', hholds⟩ := mem_published.mp hmem
      cases hslot.symm.trans hholds
    exact {
      active := by
        rw [published_insert _ w.registry.active, Finset.card_insert_of_notMem hnew]
        exact congrArg (· + 1) hinv.active
      capacity := Nat.lt_of_le_of_ne hinv.capacity hfree
      leased := fun {host entry'} hholds => by
        simp only [Holds, HashTable.get?_insert] at hholds
        split at hholds
        · cases hholds
          simp [*]
        · exact List.mem_cons_of_mem _ (hinv.leased hholds)
      issued := List.forall_mem_cons.mpr
        ⟨hid ▸ Nat.lt_succ_self _, fun lease hlease => Nat.lt_succ_of_lt (hinv.issued lease hlease)⟩
      distinct := by
        rintro lease (_ | ⟨_, hlease⟩) lease' (_ | ⟨_, hlease'⟩) heq
        · rfl
        · exact absurd (heq.symm.trans hid) (hinv.issued lease' hlease').ne
        · exact absurd (heq.trans hid) (hinv.issued lease hlease).ne
        · exact hinv.distinct lease hlease lease' hlease' heq }
  | clear =>
    exact {
      active := by
        rw [published_clear]
        rfl
      capacity := Nat.zero_le _
      leased := fun {host entry} hholds => by
        have hmem := mem_published.mpr ⟨entry, hholds⟩
        rw [published_clear] at hmem
        cases hmem
      issued := hinv.issued
      distinct := hinv.distinct }
  | @drop lease registry hlease h =>
    obtain ⟨registry', hrelease, hactive, hle, hholds⟩ := hinv.release hlease
    cases h.symm.trans hrelease
    exact {
      active := hactive
      capacity := hle.trans hinv.capacity
      leased := fun hafter => by
        obtain ⟨hbefore, hne⟩ := (hholds _ _).mp hafter
        refine (List.mem_erase_of_ne fun heq => hne ?_).mpr (hinv.leased hbefore)
        rw [← heq]
      issued := fun lease' hmem => hinv.issued lease' (List.mem_of_mem_erase hmem)
      distinct := fun lease' hmem lease'' hmem' =>
        hinv.distinct lease' (List.mem_of_mem_erase hmem) lease'' (List.mem_of_mem_erase hmem') }

theorem inv_of_reachable {validDns : Text → Bool} (h : (challenges validDns).Reachable w) : w.Inv := by
  refine h.invariant ?_ fun _ _ _ hinv hstep => hinv.step hstep
  rintro _ ⟨hosts, registry, hnew, rfl⟩
  exact .init (new_empty hnew)

end World

theorem Registry.holds_of_lookup {r : Registry} {order : List Text} {host token : Text} {authorization : Bytes}
    (h : r.lookup order host token = some authorization) :
    ∃ name entry, r.Holds name entry ∧ eqIgnoreAsciiCase name host ∧ entry.token = token ∧
      entry.authorization = authorization := by
  obtain ⟨entry, hentry, hauthorization⟩ := Option.map_eq_some_iff.mp h
  obtain ⟨hslot, htoken⟩ := Option.filter_eq_some_iff.mp hentry
  obtain ⟨name, hname, hget⟩ := Option.bind_eq_some_iff.mp (Option.join_eq_some_iff.mp hslot)
  have hmatch := List.find?_some (p := fun name => eqIgnoreAsciiCase name host) hname
  exact ⟨name, entry, hget, hmatch, beq_iff_eq.mp htoken, hauthorization⟩

/-- Whatever the calls so far: the count is that of the published slots and at most 64; the drop of a live lease
succeeds and takes its own publication alone; and a lookup answers for a live lease that was published after
the last clear. -/
theorem challenge_registry_sound (validDns : Text → Bool) (w : World) (h : (challenges validDns).Reachable w) :
    w.registry.active = w.registry.published.card ∧ w.registry.active ≤ maxChallenges ∧
      (∀ lease ∈ w.leases,
        (∃ registry, w.registry.release lease = some registry ∧
          ∀ host entry, registry.Holds host entry ↔
            w.registry.Holds host entry ∧ entry.id ≠ lease.entry.id) ∧
        ∀ host entry, w.registry.Holds host entry → entry.id = lease.entry.id →
          lease = ⟨host, entry, w.clears⟩) ∧
      ∀ order host token authorization, w.registry.lookup order host token = some authorization →
        ∃ lease ∈ w.leases, eqIgnoreAsciiCase lease.host host ∧ lease.entry.token = token ∧
          lease.entry.authorization = authorization ∧ lease.clears = w.clears := by
  have hinv := World.inv_of_reachable h
  refine ⟨hinv.active, hinv.capacity, fun lease hlease => ⟨?_, fun _ _ => hinv.holds_own hlease⟩, ?_⟩
  · obtain ⟨registry, hrelease, -, -, hholds⟩ := hinv.release hlease
    exact ⟨registry, hrelease, hholds⟩
  · intro order host token authorization hlookup
    obtain ⟨name, entry, hholds, hname, htoken, hauthorization⟩ := Registry.holds_of_lookup hlookup
    exact ⟨_, hinv.leased hholds, hname, htoken, hauthorization, rfl⟩

/-- One host whose challenge is published, cleared and published again, with both leases alive. -/
theorem exists_republished :
    ∃ w stale live, (challenges fun _ => true).Reachable w ∧ w.leases = [live, stale] ∧
      stale.clears < w.clears ∧ w.registry.Holds "im".toList live.entry ∧ live.entry.id ≠ stale.entry.id := by
  have hstart : (challenges fun _ => true).Reachable { registry := ⟨.insert .empty "im".toList none, 0⟩ } :=
    .init ⟨["im".toList], _, rfl, rfl⟩
  have hpublished := hstart.step (@World.Step.publish _ "im".toList (.replicate 22 'a')
    (.replicate 22 'a' ++ '.' :: .replicate 43 'b') _ _ rfl)
  have hrepublished := (hpublished.step .clear).step (@World.Step.publish _ "im".toList (.replicate 22 'c')
    (.replicate 22 'c' ++ '.' :: .replicate 43 'd') _ _ rfl)
  exact ⟨_, _, _, hrepublished, rfl, by decide, rfl, by decide⟩

theorem challenge_registry_sound_republished :
    ∃ w stale live, (challenges fun _ => true).Reachable w ∧ w.leases = [live, stale] ∧
      stale.clears < w.clears ∧ w.registry.active = w.registry.published.card ∧
      ∃ registry, w.registry.release stale = some registry ∧ registry.Holds "im".toList live.entry := by
  obtain ⟨w, stale, live, hreach, hleases, hcleared, hholds, hne⟩ := exists_republished
  obtain ⟨hactive, -, hdrop, -⟩ := challenge_registry_sound _ w hreach
  obtain ⟨⟨registry, hrelease, hkept⟩, -⟩ := hdrop stale (by rw [hleases]; simp)
  exact ⟨w, stale, live, hreach, hleases, hcleared, hactive, registry, hrelease, (hkept _ _).mpr ⟨hholds, hne⟩⟩

/-- Leases that are dropped, in any order, leave nothing published. -/
theorem leases_drain {validDns : Text → Bool} {w : World} (h : (challenges validDns).Reachable w)
    {order : List ChallengeLease} (horder : order.Perm w.leases) :
    ∃ registry, order.foldlM Registry.release w.registry = some registry ∧ registry.active = 0 ∧
      registry.published = ∅ := by
  induction order generalizing w with
  | nil =>
    have hinv := World.inv_of_reachable h
    have hnone : w.registry.published = ∅ := by
      refine Finset.eq_empty_of_forall_notMem fun host hmem => ?_
      obtain ⟨entry, hholds⟩ := Registry.mem_published.mp hmem
      have hlease := hinv.leased hholds
      rw [List.nil_perm.mp horder] at hlease
      cases hlease
    exact ⟨_, rfl, hinv.active.trans (Finset.card_eq_zero.mpr hnone), hnone⟩
  | cons lease rest ih =>
    obtain ⟨hlease, hrest⟩ := List.cons_perm_iff_perm_erase.mp horder
    obtain ⟨registry, hrelease, -⟩ := (World.inv_of_reachable h).release hlease
    rw [List.foldlM_cons, hrelease]
    exact ih (h.step (.drop hlease hrelease)) hrest

theorem leases_drain_republished :
    ∃ w stale live, (challenges fun _ => true).Reachable w ∧ w.leases = [live, stale] ∧
      ∃ registry, [stale, live].foldlM Registry.release w.registry = some registry ∧ registry.active = 0 := by
  obtain ⟨w, stale, live, hreach, hleases, -⟩ := exists_republished
  have horder : [stale, live].Perm w.leases := by
    rw [hleases]
    exact .swap ..
  obtain ⟨registry, hdrop, hactive, -⟩ := leases_drain hreach horder
  exact ⟨w, stale, live, hreach, hleases, registry, hdrop, hactive⟩

end Lonewolf.Acme
