import Lonewolf.S2s.CrlCache

/-!
# What the cache of revocation lists counts

Sweeping and evicting move entries from the map to the evictions and take their cost from the bytes. What the bytes
count beside the entries in the map (the list of an entry that is taken out of it) stays as it is, so no difference is
below zero.
-/

namespace Lonewolf.S2s.Crl

open Texts SortedTables SortedTable Util
open scoped List

theorem searchLatest_val {time latest : SystemTime} {low high : Nat} (hlatest : latest.val = time.val + low)
    (hle : low ≤ high) (hhigh : timeLimit - 1 ≤ time.val + high) :
    (searchLatest time low high latest).val = timeLimit - 1 := by
  fun_induction searchLatest time low high latest with
  | case1 low high latest hlt middle result hsome ih =>
    have hresult := SystemTime.checkedAdd_eq_some.mp hsome
    exact ih hresult (by omega) hhigh
  | case2 low high latest hlt middle hnone ih =>
    have hover := SystemTime.checkedAdd_eq_none.mp hnone
    exact ih hlatest (by omega) (by omega)
  | case3 low high latest hge =>
    have := latest.2.2
    have : low = high := by omega
    subst this
    omega

theorem saturatingAdd_val (time : SystemTime) (duration : Nat) :
    (saturatingAdd time duration).val = min (time.val + duration) (timeLimit - 1) := by
  unfold saturatingAdd
  split
  · next result hsome =>
    have hresult := SystemTime.checkedAdd_eq_some.mp hsome
    have := result.2.2
    omega
  · next hnone =>
    have hover := SystemTime.checkedAdd_eq_none.mp hnone
    rw [searchLatest_val (by simp) (Nat.zero_le _) (by omega)]
    omega

theorem candidate_eq {middle : Nat} (h : middle < 2 ^ 64 * 10 ^ 9) : candidate middle = middle := by
  have hseconds : middle / 10 ^ 9 < 2 ^ 64 := Nat.div_lt_of_lt_mul (by rwa [Nat.mul_comm])
  have hnanos : middle % 10 ^ 9 < 2 ^ 32 := (Nat.mod_lt _ (by decide)).trans (by decide)
  rw [candidate, Nat.mod_eq_of_lt hseconds, Nat.mod_eq_of_lt hnanos, Nat.mul_comm]
  exact Nat.div_add_mod middle (10 ^ 9)

/-- The latest sum that is known is `low` after the time, and the greatest one is at most `high` after it. -/
theorem Clock.searchLatest_nanos {T : Type} (clock : Clock T) {time latest : T} {low high : Nat}
    (hlatest : clock.nanos latest = clock.nanos time + low) (hle : low ≤ high)
    (hhigh : clock.nanos clock.latest ≤ clock.nanos time + high) (hbound : high < 2 ^ 64 * 10 ^ 9) :
    clock.nanos (clock.searchLatest time low high latest) = clock.nanos clock.latest := by
  fun_induction clock.searchLatest time low high latest with
  | case1 low high latest hlt middle result hsome ih =>
    rw [candidate_eq (by omega)] at hsome
    exact ih (clock.checkedAdd_eq_some hsome) (by omega) hhigh hbound
  | case2 low high latest hlt middle hnone ih =>
    rw [candidate_eq (by omega), clock.checkedAdd_eq_none] at hnone
    exact ih hlatest (by omega) (by omega) (by omega)
  | case3 low high latest hge =>
    have hmost := clock.nanos_le latest
    omega

theorem Clock.saturatingAdd_nanos {T : Type} (clock : Clock T) (time : T) (duration : Duration) :
    clock.nanos (clock.saturatingAdd time duration) = min (clock.nanos time + duration) (clock.nanos clock.latest) := by
  unfold Clock.saturatingAdd
  split
  next result hsome =>
    have hmost := clock.nanos_le result
    rw [clock.checkedAdd_eq_some hsome] at hmost ⊢
    exact (min_eq_left hmost).symm
  next hnone =>
    have hover := clock.checkedAdd_eq_none.mp hnone
    rw [clock.searchLatest_nanos (by simp) (Nat.zero_le _) hover.le duration.isLt, min_eq_right hover.le]

/-- The sum, or the latest reading where the sum is after it; the durations that are tried are never truncated. -/
theorem saturating_add_latest {T : Type} (clock : Clock T) (time : T) (duration : Duration) :
    clock.nanos (clock.saturatingAdd time duration) =
        min (clock.nanos time + duration) (clock.nanos clock.latest) ∧
      (∀ result, clock.checkedAdd time duration = some result → clock.saturatingAdd time duration = result) ∧
      ∀ middle ≤ duration.val, middle / 10 ^ 9 < 2 ^ 64 ∧ candidate middle = middle := by
  refine ⟨clock.saturatingAdd_nanos time duration, fun result hsome => ?_, fun middle hmiddle => ?_⟩
  · rw [Clock.saturatingAdd, hsome]
  · have hbound := hmiddle.trans_lt duration.isLt
    exact ⟨Nat.div_lt_of_lt_mul (by rwa [Nat.mul_comm]), candidate_eq hbound⟩

def systemClock : Clock SystemTime where
  nanos time := time.val
  checkedAdd := SystemTime.checkedAdd
  latest := ⟨timeLimit - 1, by decide⟩
  nanos_le time := Int.le_sub_one_of_lt time.2.2
  checkedAdd_eq_none := SystemTime.checkedAdd_eq_none.trans Int.sub_one_lt_iff.symm
  checkedAdd_eq_some := SystemTime.checkedAdd_eq_some.mp

theorem saturatingAdd_systemClock (time : SystemTime) (duration : Duration) :
    systemClock.saturatingAdd time duration = saturatingAdd time duration := by
  apply Subtype.ext
  rw [saturatingAdd_val]
  exact systemClock.saturatingAdd_nanos time duration

theorem checkedSub_of_le {minuend subtrahend : Nat} (h : subtrahend ≤ minuend) :
    checkedSub minuend subtrahend = some (minuend - subtrahend) := if_pos h

def CacheState.cost (state : CacheState) : Nat := (state.entries.entries.map fun entry => entry.2.cost).sum

theorem sum_cost_perm {url : CrlUrl} {entry : Entry} {entries rest : List (CrlUrl × Entry)}
    (h : entries ~ (url, entry) :: rest) :
    (entries.map fun entry => entry.2.cost).sum = entry.cost + (rest.map fun entry => entry.2.cost).sum := by
  rw [(h.map fun entry => entry.2.cost).sum_eq, List.map_cons, List.sum_cons]

namespace Eviction

def pair (eviction : Eviction) : CrlUrl × Entry := (eviction.url, eviction.entry)

/-- The list was stale for too long, or the entry was not in use. -/
def Justified (leases : List Reference) (refresh : Nat) (eviction : Eviction) : Prop :=
  eviction.reason = .staleExpired ∨ eviction.entry.inUse leases eviction.now refresh = false

end Eviction

/-- Entries were evicted and nothing else changed. -/
structure Evicts (leases : List Reference) (now : SystemTime) (refresh : Nat) (before after : CacheState)
    (removed : List Eviction) : Prop where
  perm : before.entries.entries.Perm (after.entries.entries ++ removed.map Eviction.pair)
  bytes : before.bytes = after.bytes + (removed.map fun eviction => eviction.entry.cost).sum
  full : after.full = before.full
  justified : ∀ eviction ∈ removed, eviction.Justified leases refresh
  time : ∀ eviction ∈ removed, eviction.now = now

namespace Evicts

variable {leases : List Reference} {now : SystemTime} {refresh : Nat} {before middle after : CacheState}
  {removed removed' : List Eviction}

theorem refl (state : CacheState) : Evicts leases now refresh state state [] :=
  ⟨by simp, by simp, rfl, by simp, by simp⟩

theorem trans (h : Evicts leases now refresh before middle removed)
    (h' : Evicts leases now refresh middle after removed') :
    Evicts leases now refresh before after (removed ++ removed') := by
  constructor
  · calc before.entries.entries
      _ ~ middle.entries.entries ++ removed.map Eviction.pair := h.perm
      _ ~ (after.entries.entries ++ removed'.map Eviction.pair) ++ removed.map Eviction.pair := h'.perm.append_right _
      _ ~ after.entries.entries ++ (removed ++ removed').map Eviction.pair := by
        rw [List.append_assoc, List.map_append]
        exact List.perm_append_comm.append_left _
  · have hbytes := h.bytes
    have hbytes' := h'.bytes
    rw [List.map_append, List.sum_append]
    omega
  · rw [h'.full, h.full]
  · exact List.forall_mem_append.mpr ⟨h.justified, h'.justified⟩
  · exact List.forall_mem_append.mpr ⟨h.time, h'.time⟩

section

variable (h : Evicts leases now refresh before after removed)
include h

theorem mem_of_mem {entry : CrlUrl × Entry} (hmem : entry ∈ after.entries.entries) : entry ∈ before.entries.entries :=
  h.perm.mem_iff.mpr (List.mem_append_left _ hmem)

theorem length_le : after.entries.entries.length ≤ before.entries.entries.length := by
  rw [h.perm.length_eq, List.length_append]
  omega

theorem cost : before.cost = after.cost + (removed.map fun eviction => eviction.entry.cost).sum := by
  have hsum := (h.perm.map fun entry => entry.2.cost).sum_eq
  rw [List.map_append, List.sum_append, List.map_map] at hsum
  exact hsum

theorem bytes_eq {beside : Nat} (hbytes : before.bytes = before.cost + beside) : after.bytes = after.cost + beside := by
  have hevicted := h.bytes
  have hcost := h.cost
  omega

end

end Evicts

variable {state : CacheState}

section Sweep

variable {leases : List Reference} {now : SystemTime} {refresh : Nat}

/-- What the sweep evicts of the entries. -/
def swept (leases : List Reference) (now : SystemTime) (refresh : Nat) (entries : List (CrlUrl × Entry)) :
    List Eviction :=
  entries.filterMap fun entry =>
    (sweepReason leases now refresh entry.2).map fun reason => ⟨reason, entry.1, entry.2, now⟩

theorem sweepReason_justified {entry : Entry} {reason : CrlEviction}
    (h : sweepReason leases now refresh entry = some reason) :
    reason = .staleExpired ∨ entry.inUse leases now refresh = false := by
  unfold sweepReason at h
  split at h
  · exact .inl (Option.some.inj h).symm
  · split at h
    · next hunused =>
      right
      rw [Bool.and_eq_true, Bool.not_eq_true'] at hunused
      exact hunused.1
    · cases h

theorem sweepEntries_eq {entries : List (CrlUrl × Entry)} {bytes : Nat} (effects : Effects)
    (h : (entries.map fun entry => entry.2.cost).sum ≤ bytes) :
    sweepEntries leases now refresh entries bytes effects =
      some (bytes - ((swept leases now refresh entries).map fun eviction => eviction.entry.cost).sum,
        { effects with evictions := effects.evictions ++ swept leases now refresh entries }) := by
  induction entries generalizing bytes effects with
  | nil => simp [sweepEntries, swept]
  | cons first rest ih =>
    obtain ⟨url, entry⟩ := first
    simp only [List.map_cons, List.sum_cons] at h
    cases hreason : sweepReason leases now refresh entry with
    | none =>
      simp only [sweepEntries, hreason, swept, List.filterMap_cons, Option.map_none]
      exact ih effects (by omega)
    | some reason =>
      simp only [sweepEntries, hreason, checkedSub_of_le (show entry.cost ≤ bytes by omega), Option.bind_eq_bind,
        Option.bind_some, swept, List.filterMap_cons, Option.map_some]
      rw [ih _ (by omega)]
      simp only [Effects.evicted, swept, List.map_cons, List.sum_cons, List.append_assoc, List.singleton_append,
        Nat.sub_sub]

theorem perm_swept (leases : List Reference) (now : SystemTime) (refresh : Nat) (entries : List (CrlUrl × Entry)) :
    entries.Perm ((entries.filter fun entry => (sweepReason leases now refresh entry.2).isNone) ++
      (swept leases now refresh entries).map Eviction.pair) := by
  induction entries with
  | nil => simp [swept]
  | cons first rest ih =>
    cases hreason : sweepReason leases now refresh first.2 with
    | none =>
      simp only [swept, List.filter_cons, hreason, Option.isNone_none, if_true, List.filterMap_cons,
        Option.map_none, List.cons_append]
      exact ih.cons _
    | some reason =>
      simp only [swept, List.filter_cons, hreason, Option.isNone_some, List.filterMap_cons, Option.map_some,
        List.map_cons]
      exact (ih.cons _).trans List.perm_middle.symm

theorem sweep_eq (leases : List Reference) (now : SystemTime) (refresh : Nat) (effects : Effects)
    (h : state.cost ≤ state.bytes) :
    ∃ after removed, state.sweep leases now refresh effects =
        some (after, { effects with evictions := effects.evictions ++ removed }) ∧
      Evicts leases now refresh state after removed := by
  have hperm := perm_swept leases now refresh state.entries.entries
  have hentries := @sweepEntries_eq leases now refresh _ _ effects h
  let removed := swept leases now refresh state.entries.entries
  have hle : (removed.map fun eviction => eviction.entry.cost).sum ≤ state.bytes := by
    have hsum := (hperm.map fun entry => entry.2.cost).sum_eq
    rw [List.map_append, List.sum_append, List.map_map] at hsum
    calc (removed.map fun eviction => eviction.entry.cost).sum ≤ state.cost := by
          rw [CacheState.cost, hsum]
          exact Nat.le_add_left _ _
      _ ≤ state.bytes := h
  let entries := state.entries.retain fun _ entry => (sweepReason leases now refresh entry).isNone
  let bytes := state.bytes - (removed.map fun eviction => eviction.entry.cost).sum
  refine ⟨⟨entries, bytes, state.full⟩, removed, ?_, ?_⟩
  · simp only [CacheState.sweep, hentries, Option.bind_eq_bind, Option.bind_some, Option.pure_def]
    rfl
  · have hmem : ∀ eviction ∈ removed, sweepReason leases now refresh eviction.entry = some eviction.reason ∧
        eviction.now = now := by
      intro eviction heviction
      obtain ⟨entry, -, hsome⟩ := List.mem_filterMap.mp heviction
      obtain ⟨reason, hreason, rfl⟩ := Option.map_eq_some_iff.mp hsome
      exact ⟨hreason, rfl⟩
    refine ⟨hperm, (Nat.sub_add_cancel hle).symm, rfl, fun eviction heviction => ?_, fun eviction heviction => ?_⟩
    · obtain ⟨hreason, hnow⟩ := hmem eviction heviction
      rw [Eviction.Justified, hnow]
      exact sweepReason_justified hreason
    · exact (hmem eviction heviction).2

end Sweep

section Evict

variable {leases : List Reference} {now : SystemTime} {refresh : Nat}

theorem leastRecent_mem {entries : List (CrlUrl × Entry)} {found : CrlUrl × Entry}
    (h : leastRecent entries = some found) : found ∈ entries := by
  induction entries generalizing found with
  | nil => cases h
  | cons first rest ih =>
    rw [leastRecent] at h
    split at h
    · next other hother =>
      split at h
      · cases h
        exact List.mem_cons_of_mem _ (ih hother)
      · cases h
        exact List.mem_cons_self
    · cases h
      exact List.mem_cons_self

theorem evicts_erase {url : CrlUrl} {entry : Entry} (h : state.cost ≤ state.bytes)
    (hget : state.entries.get? url = some entry) (hunused : entry.inUse leases now refresh = false) :
    Evicts leases now refresh state
      { state with entries := state.entries.erase url, bytes := state.bytes - entry.cost }
      [⟨.capacity, url, entry, now⟩] := by
  have hperm := entries_perm_cons_erase hget
  refine ⟨?_, ?_, rfl, ?_, ?_⟩
  · exact hperm.trans (List.perm_append_singleton _ _).symm
  · rw [CacheState.cost, sum_cost_perm hperm] at h
    simp only [List.map_cons, List.map_nil, List.sum_singleton]
    omega
  · simpa [Eviction.Justified] using hunused
  · simp

theorem evict_eq (leases : List Reference) (now : SystemTime) (refresh : Nat) (order : Visit)
    (effects : Effects) (h : state.cost ≤ state.bytes) :
    ∃ evicted after removed, state.evict leases now refresh order effects =
        some (evicted, after, { effects with evictions := effects.evictions ++ removed }) ∧
      Evicts leases now refresh state after removed ∧
      (evicted = true → after.entries.entries.length + 1 = state.entries.entries.length) := by
  unfold CacheState.evict
  cases hfound : leastRecent ((order.val state.entries.entries).filter fun entry =>
      !entry.2.inUse leases now refresh) with
  | none => exact ⟨false, state, [], by simp [hfound], .refl state, by simp⟩
  | some found =>
    obtain ⟨url, entry⟩ := found
    obtain ⟨hmem, hunused⟩ := List.mem_filter.mp (leastRecent_mem hfound)
    have hget : state.entries.get? url = some entry :=
      get?_eq_some.mpr ((order.property _).mem_iff.mp hmem)
    have hunused : entry.inUse leases now refresh = false := by simpa using hunused
    have hevicts := evicts_erase h hget hunused
    have hcost : entry.cost ≤ state.bytes := by
      have hcost := hevicts.cost
      simp only [List.map_cons, List.map_nil, List.sum_singleton] at hcost
      omega
    refine ⟨true, _, _, ?_, hevicts, fun _ => ?_⟩
    · simp [hfound, hget, checkedSub_of_le hcost, Effects.evicted]
    · have hlength := hevicts.perm.length_eq
      rw [List.length_append, List.length_map, List.length_singleton] at hlength
      exact hlength.symm

end Evict

theorem lacksRoom_eq (limits : Limits) {bytes oldCost : Nat} (cost : Option Nat) (h : oldCost ≤ bytes) :
    ∃ lacks, lacksRoom limits bytes oldCost cost = some lacks ∧
      (lacks = false → ∀ size ∈ cost, size ≤ limits.maxBytes → bytes - oldCost + size ≤ limits.maxBytes) := by
  cases cost with
  | none => exact ⟨false, rfl, by simp⟩
  | some size =>
    by_cases hsize : size ≤ limits.maxBytes
    · refine ⟨decide (limits.maxBytes - size < bytes - oldCost), ?_, fun hlacks size' hmem _ => ?_⟩
      · simp [lacksRoom, hsize, checkedSub_of_le h, checkedSub_of_le hsize]
      · cases hmem
        have := of_decide_eq_false hlacks
        omega
    · refine ⟨false, by simp [lacksRoom, hsize], fun _ size' hmem hle => ?_⟩
      cases hmem
      exact absurd hle hsize

section Complete

variable (limits : Limits) (leases : List Reference) (now : SystemTime) (orders : Nat → Visit)

theorem makeRoom_eq {oldCost : Nat} (cost : Option Nat) {turns : Nat} (effects : Effects)
    (hbytes : state.bytes = state.cost + oldCost) (hturns : state.entries.entries.length < turns) :
    ∃ after removed, makeRoom limits leases now orders oldCost cost turns state effects =
        some (after, { effects with evictions := effects.evictions ++ removed }) ∧
      Evicts leases now limits.refreshInterval state after removed := by
  induction turns generalizing state effects with
  | zero => omega
  | succ turns ih =>
    have hle : oldCost ≤ state.bytes := by omega
    obtain ⟨lacks, hlacks, -⟩ := lacksRoom_eq limits cost hle
    simp only [makeRoom, hlacks, Option.bind_eq_bind, Option.bind_some, Option.pure_def]
    cases lacks with
    | false => exact ⟨state, [], by simp, .refl state⟩
    | true =>
      obtain ⟨evicted, middle, removed, hevict, hevicts, hlength⟩ :=
        evict_eq leases now limits.refreshInterval (orders turns) effects (show state.cost ≤ state.bytes by omega)
      simp only [hevict, Option.bind_some, if_true]
      cases evicted with
      | false => exact ⟨middle, removed, by simp, hevicts⟩
      | true =>
        have hmiddle := hlength rfl
        obtain ⟨after, removed', hroom, hevicts'⟩ :=
          ih { effects with evictions := effects.evictions ++ removed } (hevicts.bytes_eq hbytes) (by omega)
        refine ⟨after, removed ++ removed', ?_, hevicts.trans hevicts'⟩
        simp only [hroom, if_true, List.append_assoc]

/-- A list does not take the place of one with a greater number, or of a later one where they are not both
numbered. -/
structure NotOlder (old new : CachedCrl) : Prop where
  number : ∀ a ∈ old.crlNumber, ∀ b ∈ new.crlNumber, a.value ≤ b.value
  thisUpdate : old.crlNumber = none ∨ new.crlNumber = none → old.thisUpdate ≤ new.thisUpdate

/-- What a completion leaves of its entry. -/
structure Revised (old new : Entry) : Prop where
  token : new.token = old.token
  handshakeUsedAt : new.handshakeUsedAt = old.handshakeUsedAt
  crl : new.crl = old.crl ∨ ∃ crl, new.crl = some crl ∧ ∀ replaced ∈ old.crl, NotOlder replaced crl

theorem Revised.refl (entry : Entry) : Revised entry entry := ⟨rfl, rfl, .inl rfl⟩

section

variable (entry : Entry) (failure : Failure) (now : SystemTime) (effects : Effects)

theorem failed_revised : Revised entry (entry.failed failure now effects).1 := ⟨rfl, rfl, .inl rfl⟩

@[simp] theorem failed_cost :
    (entry.failed failure now effects).1.cost = entry.cost := rfl

@[simp] theorem failed_evictions : (entry.failed failure now effects).2.evictions = effects.evictions := by
  simp only [Entry.failed]
  split <;> rfl

end

section

variable (state : CacheState) (full : Bool) (effects : Effects)

@[simp] theorem setFull_entries : (state.setFull full effects).1.entries = state.entries := by
  unfold CacheState.setFull
  split <;> rfl

@[simp] theorem setFull_bytes : (state.setFull full effects).1.bytes = state.bytes := by
  unfold CacheState.setFull
  split <;> rfl

@[simp] theorem setFull_evictions : (state.setFull full effects).2.evictions = effects.evictions := by
  unfold CacheState.setFull
  split <;> rfl

end

theorem notOlder_of_not_rollsBack {old : CachedCrl} {fetched : FetchedCrl} {cost : Nat} {refreshAt : SystemTime}
    (h : rollsBack old fetched = false) :
    NotOlder old ⟨fetched.thisUpdate, fetched.nextUpdate, fetched.crlNumber, cost, refreshAt⟩ := by
  unfold rollsBack at h
  split at h
  · next a b ha hb =>
    have hvalue := of_decide_eq_false h
    rw [CrlNumber.cmp_eq_lt, Nat.not_lt] at hvalue
    refine ⟨fun a' ha' b' hb' => ?_, fun hnone => ?_⟩
    · obtain rfl := Option.some.inj (ha.symm.trans ha')
      obtain rfl := Option.some.inj (hb.symm.trans hb')
      exact hvalue
    · simp [ha, hb] at hnone
  · next hnumbers =>
    have hupdate := of_decide_eq_false h
    exact ⟨fun a ha b hb => absurd hb (hnumbers a b ha), fun _ => not_lt.mp hupdate⟩

theorem store_eq (url : CrlUrl) (fetched : FetchedCrl) {entry : Entry} (effects : Effects)
    (hbytes : state.bytes = state.cost + entry.cost) (hbound : state.bytes ≤ limits.maxBytes) :
    ∃ middle after new effects' removed,
      store limits leases now orders url fetched state entry effects = some (after, new, effects') ∧
      Evicts leases now limits.refreshInterval state middle removed ∧ after.entries = middle.entries ∧
      effects'.evictions = effects.evictions ++ removed ∧ Revised entry new ∧
      after.bytes = after.cost + new.cost ∧ after.bytes ≤ limits.maxBytes := by
  unfold store
  by_cases hrollback : (entry.crl.any fun old => rollsBack old fetched) = true
  · refine ⟨state, state, (entry.failed .rollback now effects).1, (entry.failed .rollback now effects).2, [], ?_,
      .refl state, rfl, ?_, failed_revised entry .rollback now effects, ?_, hbound⟩
    · simp only [hrollback, if_true, Option.pure_def]
    · simp
    · exact hbytes
  · have hkept : ∀ old ∈ entry.crl, rollsBack old fetched = false := by
      intro old hold
      simpa [Option.mem_def.mp hold] using hrollback
    have hturns : state.entries.entries.length < state.entries.entries.length + 1 := Nat.lt_succ_self _
    obtain ⟨middle, removed, hroom, hevicts⟩ := makeRoom_eq limits leases now orders
      (checkedAddSize fetched.cost url.byteLen) effects hbytes hturns
    have hmiddle := hevicts.bytes_eq hbytes
    obtain ⟨lacks, hlacks, hfits⟩ := lacksRoom_eq limits (checkedAddSize fetched.cost url.byteLen)
      (show entry.cost ≤ middle.bytes by omega)
    simp only [hrollback, hroom, hlacks, Option.bind_eq_bind, Option.bind_some, Option.pure_def]
    cases hcost : (checkedAddSize fetched.cost url.byteLen).filter fun cost => cost ≤ limits.maxBytes && !lacks with
    | none =>
      refine ⟨middle, _, _, _, removed, rfl, hevicts, ?_, ?_, failed_revised entry .capacity now _, ?_, ?_⟩
      · simp
      · simp
      · simpa [CacheState.cost] using hmiddle
      · have := hevicts.bytes
        simp only [setFull_bytes]
        omega
    | some cost =>
      obtain ⟨hcost, hsize⟩ := Option.filter_eq_some_iff.mp hcost
      simp only [Bool.and_eq_true, decide_eq_true_eq, Bool.not_eq_true'] at hsize
      have hfit := hfits hsize.2 cost hcost hsize.1
      simp only [checkedSub_of_le (show entry.cost ≤ middle.bytes by omega), Option.bind_some]
      refine ⟨middle, _, _, _, removed, rfl, hevicts, ?_, ?_, ⟨rfl, rfl, .inr ⟨_, rfl, fun old hold => ?_⟩⟩, ?_, ?_⟩
      · simp
      · simp
      · exact notOlder_of_not_rollsBack (hkept old hold)
      · simp only [setFull_bytes, CacheState.cost, setFull_entries, Entry.cost, Option.elim_some]
        simp only [CacheState.cost, Entry.cost] at hmiddle
        omega
      · simpa using hfit

/-- A completion evicts, and revises its entry between evictions. -/
inductive Completes (before after : CacheState) (removed : List Eviction) : Prop where
  | evicts (h : Evicts leases now limits.refreshInterval before after removed)
  | revises (url : CrlUrl) (old new : Entry) (rest : List (CrlUrl × Entry))
      (hbefore : before.entries.entries ~ (url, old) :: rest)
      (hafter : after.entries.entries ++ removed.map Eviction.pair ~ (url, new) :: rest)
      (hrevised : Revised old new) (hbytes : after.bytes = after.cost) (hbound : after.bytes ≤ limits.maxBytes)
      (hjustified : ∀ eviction ∈ removed, eviction.Justified leases limits.refreshInterval)
      (htime : ∀ eviction ∈ removed, eviction.now = now)

theorem completes_of_insert {before middle taken stored : CacheState} {url : CrlUrl} {old new : Entry}
    {removed removed' : List Eviction} (effects : Effects)
    (hswept : Evicts leases now limits.refreshInterval before middle removed)
    (hget : middle.entries.get? url = some old)
    (hevicts : Evicts leases now limits.refreshInterval { middle with entries := middle.entries.erase url } taken removed')
    (hentries : stored.entries = taken.entries) (heffects : effects.evictions = removed ++ removed')
    (hrevised : Revised old new) (hbytes : stored.bytes = stored.cost + new.cost)
    (hbound : stored.bytes ≤ limits.maxBytes) :
    ∃ after effects', CacheState.sweep { stored with entries := stored.entries.insert url { new with pending := none } }
        leases now limits.refreshInterval effects = some (after, effects') ∧
      Completes limits leases now before after effects'.evictions := by
  let put : CacheState := { stored with entries := stored.entries.insert url { new with pending := none } }
  have habsent : stored.entries.get? url = none := by
    rw [hentries, get?_eq_none]
    intro hmem
    obtain ⟨entry, hentry⟩ := mem_keys.mp hmem
    have hmem := hevicts.mem_of_mem (get?_eq_some.mp hentry)
    have herased := get?_eq_some.mpr hmem
    rw [get?_erase_self] at herased
    cases herased
  have hput : put.entries.entries ~ (url, { new with pending := none }) :: stored.entries.entries := by
    have hperm := entries_insert_perm stored.entries url { new with pending := none }
    rwa [erase_eq_self habsent] at hperm
  have hcost : put.bytes = put.cost := by
    rw [CacheState.cost, sum_cost_perm hput, Nat.add_comm]
    exact hbytes
  obtain ⟨after, removed'', hsweep, hlast⟩ :=
    sweep_eq leases now limits.refreshInterval effects (show put.cost ≤ put.bytes from Nat.le_of_eq hcost.symm)
  refine ⟨after, _, hsweep, ?_⟩
  have hafter := hlast.bytes_eq (show put.bytes = put.cost + 0 from hcost)
  have hless := hlast.bytes
  have hbefore := hswept.perm.trans ((entries_perm_cons_erase hget).append_right _)
  rw [heffects]
  refine .revises url old { new with pending := none }
    (stored.entries.entries ++ removed'.map Eviction.pair ++ removed.map Eviction.pair) ?_ ?_ ?_ hafter ?_ ?_ ?_
  · rw [hentries]
    exact hbefore.trans ((hevicts.perm.append_right _).cons _)
  · calc after.entries.entries ++ (removed ++ removed' ++ removed'').map Eviction.pair
      _ ~ (after.entries.entries ++ removed''.map Eviction.pair) ++
          (removed'.map Eviction.pair ++ removed.map Eviction.pair) := by
        apply List.perm_iff_count.mpr
        intro entry
        simp only [List.map_append, List.count_append]
        omega
      _ ~ ((url, { new with pending := none }) :: stored.entries.entries) ++
          (removed'.map Eviction.pair ++ removed.map Eviction.pair) := (hlast.perm.symm.trans hput).append_right _
      _ ~ (url, { new with pending := none }) ::
          (stored.entries.entries ++ removed'.map Eviction.pair ++ removed.map Eviction.pair) := by
        rw [List.cons_append, List.append_assoc]
  · exact ⟨hrevised.token, hrevised.handshakeUsedAt, hrevised.crl⟩
  · have : put.bytes = stored.bytes := rfl
    omega
  · exact List.forall_mem_append.mpr ⟨List.forall_mem_append.mpr ⟨hswept.justified, hevicts.justified⟩, hlast.justified⟩
  · exact List.forall_mem_append.mpr ⟨List.forall_mem_append.mpr ⟨hswept.time, hevicts.time⟩, hlast.time⟩

/-- The download is the one of the entry that the map has. -/
def CacheState.isCurrent (state : CacheState) (url : CrlUrl) (generation : Reference) : Bool :=
  (state.entries.get? url).any fun entry => entry.token.address = generation.address

theorem complete_of_not_current {orders : Nat → Visit} {url : CrlUrl} {generation : Reference}
    {result : Except FetchFailure FetchedCrl} (h : state.isCurrent url generation = false) :
    state.complete limits leases orders url generation result now = some (state, .none) := by
  unfold CacheState.isCurrent at h
  simp only [CacheState.complete, h, Bool.not_false, if_true, Option.pure_def]

theorem complete_eq (url : CrlUrl) (generation : Reference) (result : Except FetchFailure FetchedCrl)
    (hbytes : state.bytes = state.cost) (hbound : state.bytes ≤ limits.maxBytes) :
    ∃ after effects, state.complete limits leases orders url generation result now = some (after, effects) ∧
      Completes limits leases now state after effects.evictions := by
  by_cases hcurrent : state.isCurrent url generation = true
  · obtain ⟨middle, removed, hsweep, hswept⟩ :=
      sweep_eq leases now limits.refreshInterval .none (Nat.le_of_eq hbytes.symm)
    have hsweep : state.sweep leases now limits.refreshInterval .none = some (middle, ⟨removed, none, none⟩) := hsweep
    have hmiddle := hswept.bytes_eq (show state.bytes = state.cost + 0 from hbytes)
    have hless := hswept.bytes
    unfold CacheState.isCurrent at hcurrent
    simp only [CacheState.complete, hcurrent, hsweep, Bool.not_true, Option.bind_eq_bind, Option.bind_some,
      Option.pure_def, Bool.false_eq_true, if_false]
    cases hget : middle.entries.get? url with
    | none => exact ⟨middle, ⟨removed, none, none⟩, by simp, .evicts hswept⟩
    | some entry =>
      by_cases hsame : entry.token.address = generation.address
      · have htaken : middle.cost = CacheState.cost { middle with entries := middle.entries.erase url } + entry.cost := by
          rw [CacheState.cost, sum_cost_perm (entries_perm_cons_erase hget), Nat.add_comm]
          rfl
        simp only [Option.any_some, hsame, decide_true, Bool.not_true, Bool.false_eq_true, if_false]
        cases result with
        | error failure =>
          refine completes_of_insert limits leases now _ hswept hget (.refl _) rfl ?_
            (failed_revised entry (.fetch failure) now _) ?_ ?_
          · simp
          · rw [failed_cost]
            show middle.bytes = _
            omega
          · show middle.bytes ≤ _
            omega
        | ok fetched =>
          have hbytes' : CacheState.bytes { middle with entries := middle.entries.erase url } =
              CacheState.cost { middle with entries := middle.entries.erase url } + entry.cost := by
            show middle.bytes = _
            omega
          have hbound' : CacheState.bytes { middle with entries := middle.entries.erase url } ≤ limits.maxBytes := by
            show middle.bytes ≤ _
            omega
          obtain ⟨taken, stored, new, effects, removed', hstore, hevicts, hentries, heffects, hrevised, hstored,
              hlimit⟩ :=
            store_eq limits leases now orders url fetched ⟨removed, none, none⟩ hbytes' hbound'
          simp only [hstore, Option.bind_some]
          exact completes_of_insert limits leases now effects hswept hget hevicts hentries heffects hrevised
            hstored hlimit
      · exact ⟨middle, ⟨removed, none, none⟩, by simp [hsame], .evicts hswept⟩
  · exact ⟨state, .none, complete_of_not_current _ _ _ (by simpa using hcurrent), .evicts (.refl state)⟩

end Complete

end Lonewolf.S2s.Crl
