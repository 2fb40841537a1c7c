import Lonewolf.S2s.CrlLife

/-!
# The downloads of revocation lists

An entry with a pending download is in use, so it is neither evicted nor swept as unused. The sweep of lists that were
stale for too long does not ask whether an entry is in use: it removes the entry of a download that runs, and the next
lookup of the URL starts a second one.
-/

namespace Lonewolf.S2s.Crl

open Texts SortedTables SortedTable Util Transitions

/-- The list has been out of date for longer than the grace period. -/
def Entry.expired (now : SystemTime) (entry : Entry) : Bool :=
  entry.crl.any fun crl => saturatingAdd crl.nextUpdate staleGrace ≤ now

/-- What every sweep and every eviction at a reading leaves in the map. -/
def Spared (now : SystemTime) (entry : Entry) : Prop := entry.pending.isSome ∧ entry.expired now = false

/-- The entries that are spared are still there. -/
def Spares (now : SystemTime) (before after : CacheState) : Prop :=
  ∀ entry ∈ before.entries.entries, Spared now entry.2 → entry ∈ after.entries.entries

variable {effects effects' : Effects} {orders : Nat → Visit} {url : CrlUrl}

section Spares

variable {limits : Limits} {leases : List Reference} {now : SystemTime} {before middle after : CacheState}

theorem Spares.refl (state : CacheState) : Spares now state state := fun _ hmem _ => hmem

theorem Spares.trans (h : Spares now before middle) (h' : Spares now middle after) : Spares now before after :=
  fun entry hmem hspared => h' entry (h entry hmem hspared) hspared

variable {refresh : Nat}

theorem inUse_of_pending {entry : Entry} (h : entry.pending.isSome) : entry.inUse leases now refresh = true := by
  simp [Entry.inUse, h]

theorem spares_sweep (h : before.sweep leases now refresh effects = some (after, effects')) :
    Spares now before after := by
  obtain ⟨⟨bytes, swept⟩, -, heq⟩ := Option.bind_eq_some_iff.mp h
  cases heq
  intro entry hmem hspared
  have hexpired : (entry.2.crl.any fun crl => saturatingAdd crl.nextUpdate staleGrace ≤ now) = false := hspared.2
  refine List.mem_filter.mpr ⟨hmem, ?_⟩
  simp [sweepReason, hexpired, inUse_of_pending hspared.1]

theorem spares_evict {order : Visit} {evicted : Bool}
    (h : before.evict leases now refresh order effects = some (evicted, after, effects')) :
    Spares now before after := by
  simp only [CacheState.evict] at h
  split at h
  · next url hvictim =>
    obtain ⟨⟨url', victim⟩, hleast, rfl⟩ := Option.map_eq_some_iff.mp hvictim
    obtain ⟨hmem, hunused⟩ := List.mem_filter.mp (leastRecent_mem hleast)
    have hget := get?_eq_some.mpr ((order.property _).mem_iff.mp hmem)
    simp only [hget] at h
    obtain ⟨bytes, -, heq⟩ := Option.bind_eq_some_iff.mp h
    simp only [Option.pure_def, Option.some.injEq, Prod.mk.injEq] at heq
    obtain ⟨-, rfl, -⟩ := heq
    intro entry hentry hspared
    -- The entry under the URL of the victim is the victim, which has no download.
    have hother : entry.1 ≠ url' := by
      rintro rfl
      obtain rfl : entry.2 = victim := eq_of_mem_of_mem hentry (get?_eq_some.mp hget)
      simp [inUse_of_pending hspared.1] at hunused
    exact mem_entries_filterKeys.mpr ⟨hentry, by simpa using hother⟩
  · simp only [Option.pure_def, Option.some.injEq, Prod.mk.injEq] at h
    obtain ⟨-, rfl, -⟩ := h
    exact .refl before

theorem spares_makeRoom {oldCost turns : Nat} {cost : Option Nat}
    (h : makeRoom limits leases now orders oldCost cost turns before effects = some (after, effects')) :
    Spares now before after := by
  induction turns generalizing before effects with
  | zero => cases h
  | succ turns ih =>
    simp only [makeRoom, Option.bind_eq_bind, Option.bind_eq_some_iff] at h
    obtain ⟨lacks, -, h⟩ := h
    split at h
    · obtain ⟨⟨evicted, state, effects⟩, hevict, h⟩ := Option.bind_eq_some_iff.mp h
      dsimp only at h
      split at h
      · exact (spares_evict hevict).trans (ih h)
      · cases h
        exact spares_evict hevict
    · cases h
      exact .refl _

theorem spares_store {fetched : FetchedCrl} {entry new : Entry}
    (h : store limits leases now orders url fetched before entry effects = some (after, new, effects')) :
    Spares now before after := by
  unfold store at h
  split at h
  · simp only [Option.pure_def, Option.some.injEq, Prod.mk.injEq] at h
    obtain ⟨rfl, -⟩ := h
    exact .refl before
  · simp only [Option.pure_def, Option.bind_eq_bind, Option.bind_eq_some_iff] at h
    obtain ⟨⟨middle, room⟩, hroom, lacks, -, h⟩ := h
    have hspares := spares_makeRoom hroom
    split at h
    · obtain ⟨others, -, h⟩ := Option.bind_eq_some_iff.mp h
      simp only [Option.some.injEq, Prod.mk.injEq] at h
      obtain ⟨rfl, -⟩ := h
      intro entry hmem hspared
      simpa using hspares entry hmem hspared
    · simp only [Option.some.injEq, Prod.mk.injEq] at h
      obtain ⟨rfl, -⟩ := h
      intro entry hmem hspared
      simpa using hspares entry hmem hspared

theorem mem_complete {generation : Reference} {result : Except FetchFailure FetchedCrl} {effects : Effects}
    (h : before.complete limits leases orders url generation result now = some (after, effects))
    {entry : CrlUrl × Entry} (hmem : entry ∈ before.entries.entries) (hspared : Spared now entry.2)
    (hother : entry.1 ≠ url) : entry ∈ after.entries.entries := by
  simp only [CacheState.complete] at h
  split at h
  · cases h
    exact hmem
  · obtain ⟨⟨middle, swept⟩, hsweep, h⟩ := Option.bind_eq_some_iff.mp h
    have hmiddle := spares_sweep hsweep entry hmem hspared
    dsimp only at h
    split at h
    · cases h
      exact hmiddle
    · split at h
      · cases h
        exact hmiddle
      · have herased : entry ∈ (middle.entries.erase url).entries :=
          mem_entries_filterKeys.mpr ⟨hmiddle, by simpa using hother⟩
        split at h
        · obtain ⟨⟨state, new, stored⟩, hstored, h⟩ := Option.bind_eq_some_iff.mp h
          have hkept := spares_store hstored entry herased hspared
          exact spares_sweep h entry (mem_entries_insert.mpr (.inr ⟨hother, hkept⟩)) hspared
        · exact spares_sweep h entry (mem_entries_insert.mpr (.inr ⟨hother, herased⟩)) hspared

end Spares

/-- Every download in flight has the entry of its URL, where it is pending, and no two are for one URL. -/
structure World.Single (world : World) : Prop where
  entry : ∀ fetch ∈ world.fetches, ∃ entry, (fetch.url, entry) ∈ world.cache.entries.entries ∧ entry.pending.isSome
  nodup : (world.fetches.map Fetch.url).Nodup

/-- At the reading of the event no list of an entry with a pending download is out of date for longer than the grace
period; that of the download that ends may be. -/
def World.Timely (world : World) (event : Event) : Prop :=
  ∀ now ∈ event.now, ∀ entry ∈ world.cache.entries.entries, entry.2.pending.isSome →
    (∀ fetch result finished orders, event = .complete fetch result finished orders → fetch.url ≠ entry.1) →
      entry.2.expired now = false

/-- The runs in which every event is timely. -/
def timelySystem (limits : Limits) : System World where
  init world := world = .initial
  step world later := ∃ event effects, world.Enabled event ∧ world.Timely event ∧
    world.apply limits event = some (later, effects)

namespace World

variable {limits : Limits} {world later : World}

variable {phase : CheckPhase} {signal : Nat}

theorem access_pending {now : SystemTime} {entry : Entry} (h : entry.pending.isSome) :
    (access now phase signal entry).1.pending.isSome ∧ (access now phase signal entry).2.2 = false := by
  simp only [access]
  split_ifs <;> simp_all

theorem access_started {now : SystemTime} {entry : Entry} (h : (access now phase signal entry).2.2 = true) :
    (access now phase signal entry).1.pending.isSome := by
  simp only [access] at h ⊢
  split_ifs at h ⊢ <;> simp_all

theorem Single.enter (h : world.Single) (url : CrlUrl) (now : SystemTime) (phase : CheckPhase) (started : Nat)
    (allocator : Allocator) : (world.enter world.cache url now phase started allocator).1.Single := by
  set opened := world.opened url now allocator with hopened
  set accessed := access now phase world.signals opened with haccessed
  have hentries : (world.enter world.cache url now phase started allocator).1.cache.entries =
      world.cache.entries.insert url accessed.1 := rfl
  -- The entry of a download that is in flight keeps it through the access.
  have hfound : ∀ fetch ∈ world.fetches, fetch.url = url → accessed.1.pending.isSome ∧ accessed.2.2 = false := by
    rintro fetch hfetch rfl
    obtain ⟨entry, hmem, hpending⟩ := h.entry fetch hfetch
    rw [haccessed, hopened, opened_of_get? (get?_eq_some.mpr hmem)]
    exact access_pending hpending
  have hold : ∀ fetch ∈ world.fetches, ∃ entry,
      (fetch.url, entry) ∈ (world.cache.entries.insert url accessed.1).entries ∧ entry.pending.isSome := by
    intro fetch hfetch
    by_cases hurl : fetch.url = url
    · exact ⟨accessed.1, mem_entries_insert.mpr (.inl (by rw [hurl])), (hfound fetch hfetch hurl).1⟩
    · obtain ⟨entry, hmem, hpending⟩ := h.entry fetch hfetch
      exact ⟨entry, mem_entries_insert.mpr (.inr ⟨hurl, hmem⟩), hpending⟩
  cases hstart : accessed.2.2 with
  | false =>
    have hfetches : (world.enter world.cache url now phase started allocator).1.fetches = world.fetches :=
      if_neg (by rw [Bool.not_eq_true]; exact hstart)
    exact ⟨by rw [hfetches, hentries]; exact hold, by rw [hfetches]; exact h.nodup⟩
  | true =>
    have hfetches : (world.enter world.cache url now phase started allocator).1.fetches =
        ⟨url, accessed.1.token, world.signals, now, started⟩ :: world.fetches := if_pos hstart
    refine ⟨?_, ?_⟩
    · rw [hfetches, hentries]
      intro fetch hfetch
      rcases List.mem_cons.mp hfetch with rfl | hfetch
      · exact ⟨accessed.1, mem_entries_insert.mpr (.inl rfl), access_started hstart⟩
      · exact hold fetch hfetch
    · rw [hfetches, List.map_cons, List.nodup_cons]
      refine ⟨fun hmem => ?_, h.nodup⟩
      obtain ⟨fetch, hfetch, hurl⟩ := List.mem_map.mp hmem
      rw [(hfound fetch hfetch hurl).2] at hstart
      cases hstart

theorem Single.spares (h : world.Single) {now : SystemTime} {cache : CacheState}
    (hspares : Spares now world.cache cache)
    (htimely : ∀ entry ∈ world.cache.entries.entries, entry.2.pending.isSome → entry.2.expired now = false) :
    Single { world with cache := cache } := by
  refine ⟨fun fetch hfetch => ?_, h.nodup⟩
  obtain ⟨entry, hmem, hpending⟩ := h.entry fetch hfetch
  exact ⟨entry, hspares _ hmem ⟨hpending, htimely _ hmem hpending⟩, hpending⟩

theorem Single.answer {middle : CacheState} {now : SystemTime} {started : Nat}
    {allocator : Allocator} {answer : Lookup}
    (h : Single { world with cache := middle }) (admitted : Bool)
    (hlookup : (if admitted then
        some ((world.enter middle url now phase started allocator).1,
          (world.enter middle url now phase started allocator).2, effects)
      else some ({ world with cache := (middle.setFull true effects).1 }, ⟨none, some .cacheFull, none, none⟩,
        (middle.setFull true effects).2)) = some (later, answer, effects')) : later.Single := by
  split at hlookup
  · simp only [Option.some.injEq, Prod.mk.injEq] at hlookup
    obtain ⟨rfl, -⟩ := hlookup
    exact h.enter url now phase started allocator
  · simp only [Option.some.injEq, Prod.mk.injEq] at hlookup
    obtain ⟨rfl, -⟩ := hlookup
    refine ⟨fun fetch hfetch => ?_, h.nodup⟩
    simpa using h.entry fetch hfetch

variable {effects : Effects}

theorem Single.lookup (h : world.Single) {now : SystemTime} {started : Nat} {order : Visit} {allocator : Allocator}
    {answer : Lookup}
    (htimely : ∀ entry ∈ world.cache.entries.entries, entry.2.pending.isSome → entry.2.expired now = false)
    (hlookup : world.lookup limits url now phase started order allocator = some (later, answer, effects)) :
    later.Single := by
  obtain ⟨⟨swept, effects'⟩, hsweep, hlookup⟩ := Option.bind_eq_some_iff.mp hlookup
  have hspares := spares_sweep hsweep
  dsimp only at hlookup
  split at hlookup
  · obtain ⟨⟨admitted, middle, effects''⟩, hevict, hlookup⟩ := Option.bind_eq_some_iff.mp hlookup
    exact (h.spares (hspares.trans (spares_evict hevict)) htimely).answer admitted hlookup
  · exact (h.spares hspares htimely).answer true hlookup

theorem Single.complete (h : world.Single) {fetch : Fetch} {result : Except FetchFailure FetchedCrl} {finished : Nat}
    (hmem : fetch ∈ world.fetches) (htimely : world.Timely (.complete fetch result finished orders))
    (happly : world.apply limits (.complete fetch result finished orders) = some (later, effects)) : later.Single := by
  obtain ⟨⟨cache, effects'⟩, hcomplete, heq⟩ := Option.bind_eq_some_iff.mp happly
  cases heq
  have hsublist : (world.fetches.erase fetch).Sublist world.fetches := List.erase_sublist
  refine ⟨fun other hother => ?_, h.nodup.sublist (hsublist.map Fetch.url)⟩
  obtain ⟨entry, hentry, hpending⟩ := h.entry other (hsublist.subset hother)
  have hurl : other.url ≠ fetch.url := by
    intro heq
    have hnodup : world.fetches.Nodup := h.nodup.of_map
    obtain rfl := List.inj_on_of_nodup_map h.nodup (hsublist.subset hother) hmem heq
    exact hnodup.not_mem_erase hother
  refine ⟨entry, mem_complete hcomplete hentry ⟨hpending, ?_⟩ hurl, hpending⟩
  refine htimely _ rfl _ hentry hpending fun fetch' _ _ _ heq => ?_
  cases heq
  exact hurl.symm

end World

/-- While no sweep meets a pending download whose list is out of date for longer than the grace period, no two
downloads in flight are for one URL. -/
theorem one_download_per_url {limits : Limits} {world : World} (h : (timelySystem limits).Reachable world) :
    (world.fetches.map Fetch.url).Nodup := by
  have hsingle : world.Single := by
    refine h.invariant ?_ ?_
    · rintro _ rfl
      exact ⟨by simp [World.initial], List.nodup_nil⟩
    · rintro world later - hsingle ⟨event, effects, henabled, htimely, happly⟩
      cases event with
      | lookup url now phase started order allocator =>
        obtain ⟨⟨later', answer, effects'⟩, hlookup, heq⟩ := Option.bind_eq_some_iff.mp happly
        cases heq
        exact hsingle.lookup (fun entry hmem hpending => htimely now rfl entry hmem hpending (by simp)) hlookup
      | complete fetch result finished orders => exact hsingle.complete henabled htimely happly
      | cloneLease lease =>
        cases happly
        exact ⟨hsingle.entry, hsingle.nodup⟩
      | dropLease lease =>
        cases happly
        exact ⟨hsingle.entry, hsingle.nodup⟩
  exact hsingle.nodup

/-- A list that is valid until second 2000, and two lookups at the end of its grace period. -/
def refreshedEvents (again : Nat) : List Event :=
  [handshakeAt 1000,
    .complete ⟨['a'], sampleToken, 0, atSecond 1000, 0⟩ (.ok ⟨atSecond 0, atSecond 2000, none, 1⟩) 0 fun _ => listed,
    handshakeAt 606799, handshakeAt again]

theorem one_download_per_url_refreshed : ∃ world, (timelySystem sampleLimits).Reachable world ∧
    world.fetches.map Fetch.url = [['a']] ∧ (world.fetches.map Fetch.url).Nodup := by
  have hrun : (((refreshedEvents 606799).foldlM (fun world event =>
      if world.Enabled event ∧ ∀ now ∈ event.now, ∀ entry ∈ world.cache.entries.entries,
        entry.2.pending.isSome → entry.2.expired now = false
      then (world.apply sampleLimits event).map Prod.fst else none) World.initial).map fun world =>
        world.fetches.map Fetch.url) = some [['a']] := by decide +kernel
  obtain ⟨world, hworld, hfetches⟩ := Option.map_eq_some_iff.mp hrun
  have hreachable : (timelySystem sampleLimits).Reachable world := by
    refine .run (fun world event later hstep => ?_) (.init rfl) hworld
    obtain ⟨⟨henabled, htimely⟩, hstep⟩ := Option.ite_none_right_eq_some.mp hstep
    obtain ⟨⟨_, effects⟩, happly, rfl⟩ := Option.map_eq_some_iff.mp hstep
    exact ⟨event, effects, henabled, fun now hnow entry hentry hpending _ => htimely now hnow entry hentry hpending, happly⟩
  exact ⟨world, hreachable, hfetches, one_download_per_url hreachable⟩

/-- A lookup after the grace period, while the refresh still runs: the sweep removes the entry of the refresh, and
the lookup starts a second download of the URL. -/
theorem two_downloads_of_one_url :
    ∃ world, (system sampleLimits).Reachable world ∧ world.fetches.map Fetch.url = [['a'], ['a']] := by
  have hrun : ((World.initial.run sampleLimits (refreshedEvents 606800)).map fun world => world.fetches.map Fetch.url) =
      some [['a'], ['a']] := by decide +kernel
  obtain ⟨world, hworld, hfetches⟩ := Option.map_eq_some_iff.mp hrun
  exact ⟨world, reachable_run (.init rfl) hworld, hfetches⟩

end Lonewolf.S2s.Crl
