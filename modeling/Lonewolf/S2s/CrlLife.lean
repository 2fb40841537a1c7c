import Lonewolf.Base.Transition
import Lonewolf.S2s.CrlLedger

/-!
# The life of a cache entry

The cache with the leases and the downloads around it, over every sequence of lookups, completions, and leases cloned
and dropped. An allocation is not made where one is held, so an address that a download or a lease keeps is the token
of the entry it was taken from and of no later one.
-/

namespace Lonewolf.S2s.Crl

open Texts SortedTables SortedTable Util Transitions
open scoped List

/-- Every entry is one that was there, revised. -/
def Derives (before after : CacheState) : Prop :=
  ∀ entry ∈ after.entries.entries, ∃ origin ∈ before.entries.entries,
    origin.1 = entry.1 ∧ Revised origin.2 entry.2

theorem Evicts.derives {leases : List Reference} {now : SystemTime} {refresh : Nat} {before after : CacheState}
    {removed : List Eviction} (h : Evicts leases now refresh before after removed) : Derives before after :=
  fun entry hmem => ⟨entry, h.mem_of_mem hmem, rfl, .refl _⟩

namespace Completes

variable {limits : Limits} {leases : List Reference} {now : SystemTime} {before after : CacheState}
  {removed : List Eviction}

section

variable (h : Completes limits leases now before after removed)
include h

variable {entry : CrlUrl × Entry}

theorem origin (hmem : entry ∈ after.entries.entries ∨ entry ∈ removed.map Eviction.pair) :
    ∃ origin ∈ before.entries.entries, origin.1 = entry.1 ∧ Revised origin.2 entry.2 := by
  have hmem := List.mem_append.mpr hmem
  cases h with
  | evicts h => exact ⟨entry, h.perm.mem_iff.mpr hmem, rfl, .refl _⟩
  | revises url old new rest hbefore hafter hrevised =>
    rcases List.mem_cons.mp (hafter.mem_iff.mp hmem) with rfl | hrest
    · exact ⟨(url, old), hbefore.mem_iff.mpr List.mem_cons_self, rfl, hrevised⟩
    · exact ⟨entry, hbefore.mem_iff.mpr (List.mem_cons_of_mem _ hrest), rfl, .refl _⟩

theorem derives : Derives before after :=
  fun _ hmem => h.origin (.inl hmem)

theorem remains (hmem : entry ∈ before.entries.entries) :
    ∃ new, (new ∈ after.entries.entries ∨ new ∈ removed.map Eviction.pair) ∧ new.1 = entry.1 ∧
      new.2.token = entry.2.token := by
  cases h with
  | evicts h => exact ⟨entry, List.mem_append.mp (h.perm.mem_iff.mp hmem), rfl, rfl⟩
  | revises url old new rest hbefore hafter hrevised =>
    rcases List.mem_cons.mp (hbefore.mem_iff.mp hmem) with rfl | hrest
    · exact ⟨(url, new), List.mem_append.mp (hafter.mem_iff.mpr List.mem_cons_self), rfl, hrevised.token⟩
    · exact ⟨entry, List.mem_append.mp (hafter.mem_iff.mpr (List.mem_cons_of_mem _ hrest)), rfl, rfl⟩

theorem bytes_eq (hbytes : before.bytes = before.cost) : after.bytes = after.cost := by
  cases h with
  | evicts h => exact h.bytes_eq (show before.bytes = before.cost + 0 from hbytes)
  | revises _ _ _ _ _ _ _ hbytes' => exact hbytes'

theorem bytes_le (hbound : before.bytes ≤ limits.maxBytes) : after.bytes ≤ limits.maxBytes := by
  cases h with
  | evicts h =>
    have := h.bytes
    omega
  | revises _ _ _ _ _ _ _ _ hbound' => exact hbound'

theorem length_le : after.entries.entries.length ≤ before.entries.entries.length := by
  cases h with
  | evicts h => exact h.length_le
  | revises url old new rest hbefore hafter =>
    have hlength := hafter.length_eq
    rw [List.length_append] at hlength
    rw [hbefore.length_eq, List.length_cons]
    rw [List.length_cons] at hlength
    omega

theorem justified : ∀ eviction ∈ removed, eviction.Justified leases limits.refreshInterval ∧ eviction.now = now := by
  intro eviction hmem
  cases h with
  | evicts h => exact ⟨h.justified eviction hmem, h.time eviction hmem⟩
  | revises _ _ _ _ _ _ _ _ _ hjustified htime => exact ⟨hjustified eviction hmem, htime eviction hmem⟩

end

end Completes

section Access

variable (now : SystemTime) (phase : CheckPhase) (signal : Nat) (entry : Entry)

@[simp] theorem access_token : (access now phase signal entry).1.token = entry.token := by
  simp only [access]
  split_ifs <;> rfl

@[simp] theorem access_crl : (access now phase signal entry).1.crl = entry.crl := by
  simp only [access]
  split_ifs <;> rfl

@[simp] theorem access_cost : (access now phase signal entry).1.cost = entry.cost := by
  rw [Entry.cost, access_crl, Entry.cost]

theorem access_handshakeUsedAt : (access now phase signal entry).1.handshakeUsedAt =
    if phase = .handshake then some now else entry.handshakeUsedAt := by
  simp only [access]
  split_ifs <;> rfl

end Access

namespace World

/-- An entry, a lease or a download refers to the allocation. -/
def Refers (world : World) (reference : Reference) : Prop :=
  (∃ entry ∈ world.cache.entries.entries, entry.2.token = reference) ∨ reference ∈ world.leases ∨
    ∃ fetch ∈ world.fetches, fetch.generation = reference

/-- When a handshake last used the entry of that birth. -/
def lastHandshake (world : World) (birth : Nat) : Option SystemTime :=
  (world.handshakes.find? fun use => use.1 = birth).map Prod.snd

structure Inv (limits : Limits) (world : World) : Prop where
  bytes : world.cache.bytes = world.cache.cost
  bound : world.cache.bytes ≤ limits.maxBytes
  count : world.cache.entries.entries.length ≤ limits.maxEntries
  known : ∀ reference, world.Refers reference → reference.birth < world.births
  exact : ∀ left right, world.Refers left → world.Refers right → (left.address = right.address ↔ left.birth = right.birth)
  separate : ∀ left ∈ world.cache.entries.entries, ∀ right ∈ world.cache.entries.entries,
    left.2.token.birth = right.2.token.birth → left.1 = right.1
  used : ∀ entry ∈ world.cache.entries.entries, entry.2.handshakeUsedAt = world.lastHandshake entry.2.token.birth
  logged : ∀ use ∈ world.handshakes, use.1 < world.births

variable {limits : Limits} {world later : World}

theorem Inv.of_derives (h : world.Inv limits) (hderives : Derives world.cache later.cache)
    (hleases : ∀ lease ∈ later.leases, lease ∈ world.leases) (hfetches : ∀ fetch ∈ later.fetches, fetch ∈ world.fetches)
    (hbirths : later.births = world.births) (hhandshakes : later.handshakes = world.handshakes)
    (hbytes : later.cache.bytes = later.cache.cost) (hbound : later.cache.bytes ≤ limits.maxBytes)
    (hcount : later.cache.entries.entries.length ≤ world.cache.entries.entries.length) : later.Inv limits := by
  have hrefers : ∀ reference, later.Refers reference → world.Refers reference := by
    rintro reference (⟨entry, hentry, rfl⟩ | hlease | ⟨fetch, hfetch, rfl⟩)
    · obtain ⟨origin, horigin, -, hrevised⟩ := hderives entry hentry
      exact .inl ⟨origin, horigin, hrevised.token.symm⟩
    · exact .inr (.inl (hleases reference hlease))
    · exact .inr (.inr ⟨fetch, hfetches fetch hfetch, rfl⟩)
  refine ⟨hbytes, hbound, hcount.trans h.count, fun reference href => ?_, fun left right hleft hright => ?_,
    fun left hleft right hright hbirth => ?_, fun entry hentry => ?_, fun use huse => ?_⟩
  · rw [hbirths]
    exact h.known reference (hrefers reference href)
  · exact h.exact left right (hrefers left hleft) (hrefers right hright)
  · obtain ⟨left', hleft', hurl, hrevised⟩ := hderives left hleft
    obtain ⟨right', hright', hurl', hrevised'⟩ := hderives right hright
    rw [← hurl, ← hurl']
    apply h.separate left' hleft' right' hright'
    rw [← hrevised.token, ← hrevised'.token]
    exact hbirth
  · obtain ⟨origin, horigin, -, hrevised⟩ := hderives entry hentry
    rw [hrevised.handshakeUsedAt, h.used origin horigin, hrevised.token, lastHandshake, lastHandshake, hhandshakes]
  · rw [hhandshakes] at huse
    rw [hbirths]
    exact h.logged use huse

theorem Inv.lastHandshake_births (h : world.Inv limits) : world.lastHandshake world.births = none := by
  rw [lastHandshake, Option.map_eq_none_iff, List.find?_eq_none]
  intro use huse heq
  exact absurd (of_decide_eq_true heq) (h.logged use huse).ne

theorem inv_initial (limits : Limits) : World.initial.Inv limits := by
  have hnone : ∀ reference, ¬ World.initial.Refers reference := by
    rintro reference (⟨_, hmem, -⟩ | hmem | ⟨_, hmem, -⟩) <;> exact nomatch hmem
  exact ⟨rfl, Nat.zero_le _, Nat.zero_le _, fun reference href => absurd href (hnone reference),
    fun left _ hleft => absurd hleft (hnone left), (fun _ hmem => nomatch hmem), (fun _ hmem => nomatch hmem),
    fun _ hmem => nomatch hmem⟩

section Enter

variable {url : CrlUrl} {now : SystemTime} {phase : CheckPhase} {started : Nat} {allocator : Allocator}

/-- The entry before the access: the one of the URL, or a new one. -/
def opened (world : World) (url : CrlUrl) (now : SystemTime) (allocator : Allocator) : Entry :=
  (world.cache.entries.get? url).getD
    (.new now ⟨allocator.val (world.held world.cache.entries.entries), world.births⟩)

/-- What the lookup puts into the map. -/
def accessed (world : World) (url : CrlUrl) (now : SystemTime) (phase : CheckPhase) (allocator : Allocator) : Entry :=
  (access now phase world.signals (world.opened url now allocator)).1

theorem enter_entries :
    (world.enter world.cache url now phase started allocator).1.cache.entries =
      world.cache.entries.insert url (world.accessed url now phase allocator) := rfl

theorem enter_bytes : (world.enter world.cache url now phase started allocator).1.cache.bytes = world.cache.bytes := rfl

theorem mem_enter {entry : CrlUrl × Entry}
    (h : entry ∈ (world.enter world.cache url now phase started allocator).1.cache.entries.entries) :
    entry = (url, world.accessed url now phase allocator) ∨ entry ∈ world.cache.entries.entries ∧ entry.1 ≠ url := by
  rw [enter_entries, mem_entries_insert] at h
  rcases h with rfl | h
  · exact .inl rfl
  · exact .inr h.symm

theorem accessed_token :
    (world.accessed url now phase allocator).token = (world.opened url now allocator).token := access_token ..

theorem refers_enter {reference : Reference}
    (h : (world.enter world.cache url now phase started allocator).1.Refers reference) :
    world.Refers reference ∨ reference = (world.opened url now allocator).token := by
  rcases h with ⟨entry, hentry, rfl⟩ | hlease | ⟨fetch, hfetch, rfl⟩
  · rcases mem_enter hentry with rfl | hentry
    · exact .inr accessed_token
    · exact .inl (.inl ⟨entry, hentry.1, rfl⟩)
  · rcases List.mem_cons.mp hlease with rfl | hlease
    · exact .inr accessed_token
    · exact .inl (.inr (.inl hlease))
  · simp only [enter] at hfetch
    split at hfetch
    · rcases List.mem_cons.mp hfetch with rfl | hfetch
      · exact .inr accessed_token
      · exact .inl (.inr (.inr ⟨fetch, hfetch, rfl⟩))
    · exact .inl (.inr (.inr ⟨fetch, hfetch, rfl⟩))

theorem opened_fresh (h : world.cache.entries.get? url = none) {reference : Reference} (href : world.Refers reference) :
    reference.address ≠ (world.opened url now allocator).token.address := by
  have hmem : reference.address ∈ world.held world.cache.entries.entries := by
    simp only [held, List.mem_append, List.mem_map]
    rcases href with ⟨entry, hentry, rfl⟩ | hlease | ⟨fetch, hfetch, rfl⟩
    · exact .inl ⟨entry, hentry, rfl⟩
    · exact .inr (.inl ⟨reference, hlease, rfl⟩)
    · exact .inr (.inr ⟨fetch, hfetch, rfl⟩)
  intro heq
  rw [heq, opened, h] at hmem
  exact allocator.property _ hmem

theorem opened_birth (h : world.cache.entries.get? url = none) :
    (world.opened url now allocator).token.birth = world.births := by
  rw [opened, h]
  rfl

theorem opened_of_get? {entry : Entry} (h : world.cache.entries.get? url = some entry) :
    world.opened url now allocator = entry := by
  rw [opened, h]
  rfl

theorem enter_cost : (world.enter world.cache url now phase started allocator).1.cache.cost = world.cache.cost := by
  rw [CacheState.cost, enter_entries, sum_cost_perm (entries_insert_perm ..), accessed, access_cost, CacheState.cost]
  cases hget : world.cache.entries.get? url with
  | none =>
    rw [erase_eq_self hget, opened, hget]
    exact Nat.zero_add _
  | some entry =>
    rw [opened_of_get? hget, sum_cost_perm (entries_perm_cons_erase hget)]

theorem enter_length
    (hroom : (world.cache.entries.get? url).isSome ∨ world.cache.entries.entries.length < limits.maxEntries)
    (hcount : world.cache.entries.entries.length ≤ limits.maxEntries) :
    (world.enter world.cache url now phase started allocator).1.cache.entries.entries.length ≤ limits.maxEntries := by
  rw [enter_entries, (entries_insert_perm _ _ _).length_eq, List.length_cons]
  cases hget : world.cache.entries.get? url with
  | none =>
    rw [erase_eq_self hget]
    rcases hroom with hroom | hroom
    · simp [hget] at hroom
    · exact hroom
  | some entry =>
    have hlength := (entries_perm_cons_erase hget).length_eq
    rw [List.length_cons] at hlength
    omega

theorem births_le_enter : world.births ≤ (world.enter world.cache url now phase started allocator).1.births := by
  simp only [enter]
  split <;> omega

theorem births_lt_enter (h : world.cache.entries.get? url = none) :
    world.births < (world.enter world.cache url now phase started allocator).1.births := by
  simp only [enter, h, Option.isNone_none, if_true]
  omega

theorem lastHandshake_enter (birth : Nat) :
    (world.enter world.cache url now phase started allocator).1.lastHandshake birth =
      if phase = .handshake ∧ (world.opened url now allocator).token.birth = birth then some now
      else world.lastHandshake birth := by
  have hhandshakes : (world.enter world.cache url now phase started allocator).1.handshakes =
      if phase = .handshake then ((world.accessed url now phase allocator).token.birth, now) :: world.handshakes
      else world.handshakes := rfl
  rw [lastHandshake, hhandshakes, accessed_token]
  by_cases hphase : phase = .handshake
  · by_cases hbirth : (world.opened url now allocator).token.birth = birth
    · simp [hphase, hbirth]
    · simp [hphase, hbirth, lastHandshake]
  · simp [hphase, lastHandshake]

theorem Inv.enter (h : world.Inv limits)
    (hroom : (world.cache.entries.get? url).isSome ∨ world.cache.entries.entries.length < limits.maxEntries) :
    (world.enter world.cache url now phase started allocator).1.Inv limits := by
  -- The token of the entry is referred to already, or it is new.
  have htoken : world.Refers (world.opened url now allocator).token ∨ (world.cache.entries.get? url = none) := by
    cases hget : world.cache.entries.get? url with
    | none => exact .inr rfl
    | some entry => exact .inl (.inl ⟨_, get?_eq_some.mp hget, by rw [opened_of_get? hget]⟩)
  have hother : ∀ entry ∈ world.cache.entries.entries, entry.1 ≠ url →
      entry.2.token.birth ≠ (world.opened url now allocator).token.birth := by
    intro entry hentry hne hbirth
    cases hget : world.cache.entries.get? url with
    | none =>
      have hknown := h.known _ (.inl ⟨entry, hentry, rfl⟩)
      rw [hbirth, opened_birth hget] at hknown
      exact Nat.lt_irrefl _ hknown
    | some found =>
      rw [opened_of_get? hget] at hbirth
      exact hne (h.separate entry hentry _ (get?_eq_some.mp hget) hbirth)
  have hbirth : (world.opened url now allocator).token.birth <
      (world.enter world.cache url now phase started allocator).1.births := by
    rcases htoken with htoken | hnone
    · exact (h.known _ htoken).trans_le births_le_enter
    · rw [opened_birth hnone]
      exact births_lt_enter hnone
  have hexact : ∀ reference, world.Refers reference →
      (reference.address = (world.opened url now allocator).token.address ↔
        reference.birth = (world.opened url now allocator).token.birth) := by
    intro reference href
    rcases htoken with htoken | hnone
    · exact h.exact reference _ href htoken
    · have hknown := h.known reference href
      rw [opened_birth hnone]
      exact iff_of_false (opened_fresh hnone href) hknown.ne
  refine ⟨?_, ?_, enter_length hroom h.count, fun reference href => ?_, fun left right hleft hright => ?_,
    fun left hleft right hright hbirth => ?_, fun entry hentry => ?_, fun use huse => ?_⟩
  · rw [enter_bytes, enter_cost]
    exact h.bytes
  · rw [enter_bytes]
    exact h.bound
  · rcases refers_enter href with href | rfl
    · exact (h.known reference href).trans_le births_le_enter
    · exact hbirth
  · rcases refers_enter hleft with hleft | rfl
    · rcases refers_enter hright with hright | rfl
      · exact h.exact left right hleft hright
      · exact hexact left hleft
    · rcases refers_enter hright with hright | rfl
      · rw [eq_comm, hexact right hright, eq_comm]
      · exact iff_of_true rfl rfl
  · rcases mem_enter hleft with rfl | hleft
    · rcases mem_enter hright with rfl | hright
      · rfl
      · rw [accessed_token] at hbirth
        exact absurd hbirth.symm (hother right hright.1 hright.2)
    · rcases mem_enter hright with rfl | hright
      · rw [accessed_token] at hbirth
        exact absurd hbirth (hother left hleft.1 hleft.2)
      · exact h.separate left hleft.1 right hright.1 hbirth
  · rw [lastHandshake_enter]
    rcases mem_enter hentry with rfl | hentry
    · simp only [accessed_token, and_true]
      rw [accessed, access_handshakeUsedAt]
      congr 1
      cases hget : world.cache.entries.get? url with
      | none => rw [opened_birth hget, h.lastHandshake_births, opened, hget, Option.getD_none, Entry.new]
      | some found =>
        rw [opened_of_get? hget]
        exact h.used _ (get?_eq_some.mp hget)
    · rw [if_neg fun hboth => hother entry hentry.1 hentry.2 hboth.2.symm]
      exact h.used entry hentry.1
  · have huse : use ∈ if phase = .handshake then
        ((world.accessed url now phase allocator).token.birth, now) :: world.handshakes else world.handshakes := huse
    split at huse
    · rcases List.mem_cons.mp huse with rfl | huse
      · rw [accessed_token]
        exact hbirth
      · exact (h.logged use huse).trans_le births_le_enter
    · exact (h.logged use huse).trans_le births_le_enter

end Enter

theorem lookup_eq (h : world.Inv limits) (url : CrlUrl) (now : SystemTime) (phase : CheckPhase) (started : Nat)
    (order : Visit) (allocator : Allocator) :
    ∃ middle effects, Evicts world.leases now limits.refreshInterval world.cache middle effects.evictions ∧
      ((∃ cache answer, cache.entries = middle.entries ∧ cache.bytes = middle.bytes ∧
          world.lookup limits url now phase started order allocator =
            some ({ world with cache := cache }, answer, effects)) ∨
        ((middle.entries.get? url).isSome ∨ middle.entries.entries.length < limits.maxEntries) ∧
          ∃ answer, world.lookup limits url now phase started order allocator =
            some ((world.enter middle url now phase started allocator).1, answer, effects)) := by
  obtain ⟨swept, removed, hsweep, hswept⟩ :=
    sweep_eq world.leases now limits.refreshInterval .none (Nat.le_of_eq h.bytes.symm)
  have hsweep : world.cache.sweep world.leases now limits.refreshInterval .none =
      some (swept, ⟨removed, none, none⟩) := hsweep
  have hlength := hswept.length_le
  have hcount := h.count
  simp only [lookup, hsweep, Option.bind_eq_bind, Option.bind_some, Option.pure_def]
  by_cases hfull : (swept.entries.get? url).isNone && decide (limits.maxEntries ≤ swept.entries.entries.length)
  · have hswept' := hswept.bytes_eq (show world.cache.bytes = world.cache.cost + 0 from h.bytes)
    obtain ⟨evicted, middle, removed', hevict, hevicts, hshorter⟩ := evict_eq world.leases now limits.refreshInterval
      order ⟨removed, none, none⟩ (show swept.cost ≤ swept.bytes by omega)
    simp only [hfull, if_true, hevict, Option.bind_some]
    cases evicted with
    | true =>
      have := hshorter rfl
      exact ⟨middle, ⟨removed ++ removed', none, none⟩, hswept.trans hevicts, .inr ⟨.inr (by omega), _, rfl⟩⟩
    | false =>
      refine ⟨middle, (middle.setFull true ⟨removed ++ removed', none, none⟩).2, ?_, .inl ⟨_, _, ?_, ?_, rfl⟩⟩
      · rw [setFull_evictions]
        exact hswept.trans hevicts
      · exact setFull_entries ..
      · exact setFull_bytes ..
  · simp only [hfull]
    refine ⟨swept, ⟨removed, none, none⟩, hswept, .inr ⟨?_, _, rfl⟩⟩
    rw [Bool.and_eq_true, decide_eq_true_eq, Option.isNone_iff_eq_none, not_and, Nat.not_le] at hfull
    cases hget : swept.entries.get? url with
    | none => exact .inr (hfull hget)
    | some entry => exact .inl rfl

/-- Nothing keeps the entry: no download, no lease, and its last handshake is the refresh interval ago. -/
structure Unused (world : World) (refresh : Nat) (eviction : Eviction) : Prop where
  pending : eviction.entry.pending = none
  lease : ∀ lease ∈ world.leases, lease.birth ≠ eviction.entry.token.birth
  handshake : ∀ used, world.lastHandshake eviction.entry.token.birth = some used →
    min (used.val + refresh) (timeLimit - 1) ≤ eviction.now.val

theorem Inv.unused (h : world.Inv limits) {eviction : Eviction}
    (hjustified : eviction.Justified world.leases limits.refreshInterval) (hreason : eviction.reason ≠ .staleExpired)
    {origin : CrlUrl × Entry} (horigin : origin ∈ world.cache.entries.entries)
    (hrevised : Revised origin.2 eviction.entry) : world.Unused limits.refreshInterval eviction := by
  have hfree := hjustified.resolve_left hreason
  simp only [Entry.inUse, Bool.or_eq_false_iff, decide_eq_false_iff_not, Option.isSome_eq_false_iff,
    Option.isNone_iff_eq_none] at hfree
  obtain ⟨⟨hpending, hcount⟩, hused⟩ := hfree
  refine ⟨hpending, fun lease hlease hbirth => ?_, fun used hlast => ?_⟩
  · have haddress : lease.address = eviction.entry.token.address := by
      rw [hrevised.token] at hbirth ⊢
      exact (h.exact lease _ (.inr (.inl hlease)) (.inl ⟨origin, horigin, rfl⟩)).mpr hbirth
    have hpos : 0 < world.leases.countP fun lease => lease.address = eviction.entry.token.address :=
      List.countP_pos_iff.mpr ⟨lease, hlease, by simpa using haddress⟩
    rw [Entry.strongCount] at hcount
    omega
  · have husedAt : eviction.entry.handshakeUsedAt = some used := by
      rw [hrevised.handshakeUsedAt, h.used origin horigin, ← hrevised.token]
      exact hlast
    rw [husedAt, Option.any_some, decide_eq_false_iff_not, not_lt, ← Subtype.coe_le_coe, saturatingAdd_val] at hused
    exact hused

end World

def Event.now : Event → Option SystemTime
  | .lookup _ now _ _ _ _ => some now
  | .complete fetch _ finished _ => some (saturatingAdd fetch.now (finished - fetch.started))
  | .cloneLease _ => none
  | .dropLease _ => none

def system (limits : Limits) : System World where
  init world := world = .initial
  step world later := ∃ event effects, world.Enabled event ∧ world.apply limits event = some (later, effects)

/-- What an event does to the entries. -/
structure Sound (limits : Limits) (world : World) (event : Event) (later : World) (effects : Effects) : Prop where
  time : ∀ eviction ∈ effects.evictions, event.now = some eviction.now
  unused : ∀ eviction ∈ effects.evictions, eviction.reason ≠ .staleExpired →
    world.Unused limits.refreshInterval eviction
  remains : ∀ entry ∈ world.cache.entries.entries,
    (∃ new ∈ later.cache.entries.entries, new.1 = entry.1 ∧ new.2.token = entry.2.token) ∨
      ∃ eviction ∈ effects.evictions, eviction.url = entry.1 ∧ eviction.entry.token = entry.2.token
  obsolete : ∀ fetch result finished orders, event = .complete fetch result finished orders →
    (∀ entry ∈ world.cache.entries.entries, entry.2.token.birth ≠ fetch.generation.birth) →
      later.cache = world.cache ∧ effects = .none
  newer : ∀ old ∈ world.cache.entries.entries, ∀ new ∈ later.cache.entries.entries,
    new.2.token.birth = old.2.token.birth → new.1 = old.1 ∧
      (new.2.crl = old.2.crl ∨ ∃ crl, new.2.crl = some crl ∧ ∀ replaced ∈ old.2.crl, NotOlder replaced crl)

section Events

variable {limits : Limits} {world : World}

theorem eq_of_birth_eq (h : world.Inv limits) {old new : CrlUrl × Entry} (hold : old ∈ world.cache.entries.entries)
    {origin : CrlUrl × Entry} (hmem : origin ∈ world.cache.entries.entries) (hurl : origin.1 = new.1)
    (htoken : new.2.token = origin.2.token) (hbirth : new.2.token.birth = old.2.token.birth) :
    new.1 = old.1 ∧ origin.2 = old.2 := by
  rw [htoken] at hbirth
  have hsame := h.separate origin hmem old hold hbirth
  obtain rfl : origin = old := by
    obtain ⟨url, entry⟩ := origin
    obtain ⟨url', entry'⟩ := old
    simp only at hsame
    subst hsame
    rw [eq_of_mem_of_mem hmem hold]
  exact ⟨hurl.symm, rfl⟩

theorem Derives.newer {cache : CacheState} (hderives : Derives world.cache cache) (h : world.Inv limits)
    {old new : CrlUrl × Entry} (hold : old ∈ world.cache.entries.entries) (hnew : new ∈ cache.entries.entries)
    (hbirth : new.2.token.birth = old.2.token.birth) : new.1 = old.1 ∧
      (new.2.crl = old.2.crl ∨ ∃ crl, new.2.crl = some crl ∧ ∀ replaced ∈ old.2.crl, NotOlder replaced crl) := by
  obtain ⟨origin, hmem, hurl, hrevised⟩ := hderives new hnew
  obtain ⟨hsame, horigin⟩ := eq_of_birth_eq h hold hmem hurl hrevised.token hbirth
  rw [← horigin]
  exact ⟨hsame, hrevised.crl⟩

section

variable {now : SystemTime} {cache : CacheState} {removed : List Eviction}
  (hcompletes : Completes limits world.leases now world.cache cache removed)
include hcompletes

theorem Completes.unused (h : world.Inv limits) :
    ∀ eviction ∈ removed, eviction.reason ≠ .staleExpired → world.Unused limits.refreshInterval eviction := by
  intro eviction hmem hreason
  obtain ⟨origin, horigin, -, hrevised⟩ := hcompletes.origin (.inr (List.mem_map_of_mem hmem))
  exact h.unused (hcompletes.justified eviction hmem).1 hreason horigin hrevised

theorem Completes.time {event : Event} (hnow : event.now = some now) :
    ∀ eviction ∈ removed, event.now = some eviction.now := by
  intro eviction hmem
  rw [(hcompletes.justified eviction hmem).2, hnow]

end

section

variable (h : world.Inv limits)
include h

theorem complete_sound (fetch : Fetch) (result : Except FetchFailure FetchedCrl) (finished : Nat) (orders : Nat → Visit)
    (henabled : fetch ∈ world.fetches) :
    ∃ later effects, world.apply limits (.complete fetch result finished orders) = some (later, effects) ∧
      later.Inv limits ∧ Sound limits world (.complete fetch result finished orders) later effects := by
  let now := saturatingAdd fetch.now (finished - fetch.started)
  obtain ⟨cache, effects, hcomplete, hcompletes⟩ :=
    complete_eq limits world.leases now orders fetch.url fetch.generation result h.bytes h.bound
  refine ⟨{ world with cache := cache, fetches := world.fetches.erase fetch }, effects, ?_, ?_, hcompletes.time rfl,
    hcompletes.unused h, ?_, ?_, ?_⟩
  · simp only [World.apply]
    rw [hcomplete]
    rfl
  · exact h.of_derives hcompletes.derives (fun _ => id) (fun _ => List.mem_of_mem_erase) rfl rfl
      (hcompletes.bytes_eq h.bytes) (hcompletes.bytes_le h.bound) hcompletes.length_le
  · intro entry hentry
    obtain ⟨new, hnew | hnew, hurl, htoken⟩ := hcompletes.remains hentry
    · exact .inl ⟨new, hnew, hurl, htoken⟩
    · obtain ⟨eviction, hmem, rfl⟩ := List.mem_map.mp hnew
      exact .inr ⟨eviction, hmem, hurl, htoken⟩
  · rintro fetch' result' finished' orders' heq hgone
    obtain ⟨rfl, rfl, rfl, rfl⟩ := Event.complete.inj heq
    -- The entry that the map has at the URL, if any, is another one: its token is at another address.
    have hother : world.cache.isCurrent fetch.url fetch.generation = false := by
      rw [CacheState.isCurrent]
      cases hget : world.cache.entries.get? fetch.url with
      | none => rfl
      | some entry =>
        have hentry := get?_eq_some.mp hget
        rw [Option.any_some, decide_eq_false_iff_not]
        intro haddress
        exact hgone _ hentry ((h.exact _ _ (.inl ⟨_, hentry, rfl⟩) (.inr (.inr ⟨fetch, henabled, rfl⟩))).mp haddress)
    rw [complete_of_not_current limits world.leases now hother] at hcomplete
    cases hcomplete
    exact ⟨rfl, rfl⟩
  · exact fun old hold new hnew hbirth => hcompletes.derives.newer h hold hnew hbirth

theorem lookup_sound (url : CrlUrl) (now : SystemTime) (phase : CheckPhase) (started : Nat) (order : Visit)
    (allocator : Allocator) :
    ∃ later effects, world.apply limits (.lookup url now phase started order allocator) = some (later, effects) ∧
      later.Inv limits ∧ Sound limits world (.lookup url now phase started order allocator) later effects := by
  obtain ⟨middle, effects, hevicts, houtcome⟩ := World.lookup_eq h url now phase started order allocator
  have hcompletes := Completes.evicts hevicts
  have hbytes := hcompletes.bytes_eq h.bytes
  have hbound := hcompletes.bytes_le h.bound
  have hinv : World.Inv limits { world with cache := middle } :=
    h.of_derives hevicts.derives (fun _ => id) (fun _ => id) rfl rfl hbytes hbound hevicts.length_le
  have hunused := hcompletes.unused h
  have hsplit : ∀ entry ∈ world.cache.entries.entries, entry ∈ middle.entries.entries ∨
      ∃ eviction ∈ effects.evictions, eviction.url = entry.1 ∧ eviction.entry.token = entry.2.token := by
    intro entry hentry
    rcases List.mem_append.mp (hevicts.perm.mem_iff.mp hentry) with hmem | hremoved
    · exact .inl hmem
    · obtain ⟨eviction, hmem, rfl⟩ := List.mem_map.mp hremoved
      exact .inr ⟨eviction, hmem, rfl, rfl⟩
  rcases houtcome with ⟨cache, answer, hentries, hsize, hlookup⟩ | ⟨hroom, answer, hlookup⟩
  · have hderives : Derives world.cache cache := by
      intro entry hentry
      rw [hentries] at hentry
      exact hevicts.derives entry hentry
    have hcost : cache.cost = middle.cost := by rw [CacheState.cost, hentries, CacheState.cost]
    refine ⟨{ world with cache := cache }, effects, ?_, ?_, hcompletes.time rfl, hunused, ?_, ?_, ?_⟩
    · simp only [World.apply, hlookup]
      rfl
    · refine h.of_derives hderives (fun _ => id) (fun _ => id) rfl rfl ?_ ?_ ?_
      · rw [hcost, hsize]
        exact hbytes
      · rw [hsize]
        exact hbound
      · rw [hentries]
        exact hevicts.length_le
    · intro entry hentry
      refine (hsplit entry hentry).imp (fun hmem => ⟨entry, ?_, rfl, rfl⟩) id
      rw [hentries]
      exact hmem
    · intro _ _ _ _ heq
      cases heq
    · exact fun old hold new hnew hbirth => hderives.newer h hold hnew hbirth
  · let between : World := { world with cache := middle }
    refine ⟨(between.enter between.cache url now phase started allocator).1, effects, ?_, hinv.enter hroom,
      hcompletes.time rfl, hunused, ?_, ?_, ?_⟩
    · simp only [World.apply, hlookup]
      rfl
    · intro entry hentry
      refine (hsplit entry hentry).imp (fun hmem => ?_) id
      by_cases hurl : entry.1 = url
      · have hget : between.cache.entries.get? url = some entry.2 := by
          rw [← hurl]
          exact get?_eq_some.mpr hmem
        refine ⟨(url, between.accessed url now phase allocator), ?_, hurl.symm, ?_⟩
        · exact mem_entries_insert.mpr (.inl rfl)
        · rw [World.accessed_token, World.opened_of_get? hget]
      · exact ⟨entry, mem_entries_insert.mpr (.inr ⟨hurl, hmem⟩), rfl, rfl⟩
    · intro _ _ _ _ heq
      cases heq
    · intro old hold new hnew hbirth
      rcases World.mem_enter hnew with rfl | hnew
      · rw [World.accessed_token] at hbirth
        cases hget : between.cache.entries.get? url with
        | none =>
          have hknown := h.known _ (.inl ⟨old, hold, rfl⟩)
          rw [← hbirth, World.opened_birth hget] at hknown
          exact absurd hknown (Nat.lt_irrefl _)
        | some entry =>
          have hmem := hevicts.mem_of_mem (get?_eq_some.mp hget)
          rw [World.opened_of_get? hget] at hbirth
          obtain ⟨hsame, horigin⟩ := eq_of_birth_eq h hold hmem rfl rfl hbirth
          refine ⟨hsame, .inl ?_⟩
          rw [World.accessed, access_crl, World.opened_of_get? hget, ← horigin]
      · exact hevicts.derives.newer h hold hnew.1 hbirth

theorem leases_sound {leases : List Reference} (hleases : ∀ lease ∈ leases, lease ∈ world.leases) (event : Event)
    (hevent : ∀ fetch result finished orders, event ≠ .complete fetch result finished orders) :
    World.Inv limits { world with leases := leases } ∧ Sound limits world event { world with leases := leases } .none := by
  have hderives : Derives world.cache world.cache := fun entry hmem => ⟨entry, hmem, rfl, .refl _⟩
  refine ⟨h.of_derives hderives hleases (fun _ => id) rfl rfl h.bytes h.bound le_rfl, (fun _ hmem => nomatch hmem),
    (fun _ hmem => nomatch hmem), ?_, ?_, ?_⟩
  · exact fun entry hentry => .inl ⟨entry, hentry, rfl, rfl⟩
  · exact fun fetch result finished orders heq => absurd heq (hevent fetch result finished orders)
  · exact fun old hold new hnew hbirth => hderives.newer h hold hnew hbirth

theorem apply_sound {event : Event} (henabled : world.Enabled event) :
    ∃ later effects, world.apply limits event = some (later, effects) ∧ later.Inv limits ∧
      Sound limits world event later effects := by
  cases event with
  | lookup url now phase started order allocator => exact lookup_sound h url now phase started order allocator
  | complete fetch result finished orders => exact complete_sound h fetch result finished orders henabled
  | cloneLease lease =>
    exact ⟨_, _, rfl, leases_sound h (List.forall_mem_cons.mpr ⟨henabled, fun _ => id⟩) _ fun _ _ _ _ heq => nomatch heq⟩
  | dropLease lease =>
    exact ⟨_, _, rfl, leases_sound h (fun _ => List.mem_of_mem_erase) _ fun _ _ _ _ heq => nomatch heq⟩

end

theorem reachable_inv (h : (system limits).Reachable world) : world.Inv limits := by
  refine h.invariant ?_ ?_
  · rintro _ rfl
    exact World.inv_initial limits
  · rintro world later - hinv ⟨event, effects, henabled, happly⟩
    obtain ⟨later', effects', happly', hlater, -⟩ := apply_sound hinv henabled
    rw [happly] at happly'
    cases happly'
    exact hlater

end Events

/-- In every run the bytes are those of the lists in the map and within the limit, and so is the number of entries.
Every event has a result: no difference is below zero. An entry that is evicted as unused or for capacity has no
download and no lease, and its last handshake is the refresh interval ago. A download whose entry is gone changes
nothing, and no list takes the place of a newer one. -/
theorem crl_cache_accounting {limits : Limits} {world : World} (h : (system limits).Reachable world) :
    world.cache.bytes = world.cache.cost ∧ world.cache.bytes ≤ limits.maxBytes ∧
      world.cache.entries.entries.length ≤ limits.maxEntries ∧
      ∀ event, world.Enabled event → ∃ later effects, world.apply limits event = some (later, effects) ∧
        Sound limits world event later effects := by
  have hinv := reachable_inv h
  refine ⟨hinv.bytes, hinv.bound, hinv.count, fun event henabled => ?_⟩
  obtain ⟨later, effects, happly, -, hsound⟩ := apply_sound hinv henabled
  exact ⟨later, effects, happly, hsound⟩

def World.run (limits : Limits) (world : World) (events : List Event) : Option World :=
  events.foldlM (fun world event => if world.Enabled event then (world.apply limits event).map Prod.fst else none) world

theorem reachable_run {limits : Limits} {world later : World} {events : List Event}
    (h : (system limits).Reachable world) (hrun : world.run limits events = some later) :
    (system limits).Reachable later := by
  refine h.run (fun _ event _ hnext => ?_) hrun
  obtain ⟨henabled, hnext⟩ := Option.ite_none_right_eq_some.mp hnext
  obtain ⟨⟨_, effects⟩, happly, rfl⟩ := Option.map_eq_some_iff.mp hnext
  exact ⟨event, effects, henabled, happly⟩

/-- One entry, and handshakes that keep it for a hundred seconds. -/
def sampleLimits : Limits := ⟨1, 100, fromSecs 100⟩

def atSecond (seconds : Nat) : SystemTime := saturatingAdd SystemTime.unixEpoch (fromSecs seconds)

def listed : Visit := ⟨id, List.Perm.refl⟩

def afterAll : Allocator := ⟨fun held => held.sum + 1, fun _ hmem =>
  absurd (List.le_sum_of_mem hmem) (Nat.not_succ_le_self _)⟩

def handshakeAt (seconds : Nat) : Event := .lookup ['a'] (atSecond seconds) .handshake 0 listed afterAll

def sampleToken : Reference := ⟨1, 0⟩

/-- A handshake, the list it waited for, and a handshake that read an earlier time. -/
def sampleEvents : List Event :=
  [handshakeAt 1000,
    .complete ⟨['a'], sampleToken, 0, atSecond 1000, 0⟩ (.ok ⟨atSecond 0, atSecond 100000, none, 1⟩) 0 fun _ => listed,
    .dropLease sampleToken, handshakeAt 0, .dropLease sampleToken]

def sampleWorld : World := (World.initial.run sampleLimits sampleEvents).getD .initial

theorem sampleWorld_reachable : (system sampleLimits).Reachable sampleWorld := by
  have hrun : World.initial.run sampleLimits sampleEvents = some sampleWorld := by decide +kernel
  exact reachable_run (.init rfl) hrun

/-- The lookup of another URL. -/
def sampleLookup : Event := .lookup ['b'] (atSecond 1050) .recheck 0 listed afterAll

theorem crl_cache_accounting_sample : sampleWorld.cache.bytes = 2 ∧ sampleWorld.cache.bytes = sampleWorld.cache.cost ∧
    ∃ later effects, sampleWorld.apply sampleLimits sampleLookup = some (later, effects) ∧
      Sound sampleLimits sampleWorld sampleLookup later effects := by
  obtain ⟨hbytes, -, -, hevents⟩ := crl_cache_accounting sampleWorld_reachable
  exact ⟨by decide +kernel, hbytes, hevents sampleLookup trivial⟩

/-- A handshake that reads an earlier time takes the place of a later one: the entry is evicted for capacity fifty
seconds after a handshake used it. -/
theorem handshake_use_overwritten :
    (system sampleLimits).Reachable sampleWorld ∧
      ∃ later effects, sampleWorld.apply sampleLimits sampleLookup = some (later, effects) ∧
        ∃ eviction ∈ effects.evictions, eviction.reason = .capacity ∧ eviction.now = atSecond 1050 ∧
          (eviction.entry.token.birth, atSecond 1000) ∈ sampleWorld.handshakes ∧
          (atSecond 1050).val < (atSecond 1000).val + sampleLimits.refreshInterval := by
  have hevictions : ((sampleWorld.apply sampleLimits sampleLookup).map fun result =>
      result.2.evictions.map fun eviction => (eviction.reason, eviction.now, eviction.entry.token.birth)) =
        some [(.capacity, atSecond 1050, 0)] := by decide +kernel
  obtain ⟨⟨later, effects⟩, happly, hmap⟩ := Option.map_eq_some_iff.mp hevictions
  obtain ⟨eviction, hmem, heq⟩ := List.mem_map.mp (hmap ▸ List.mem_singleton_self (CrlEviction.capacity, atSecond 1050, 0))
  simp only [Prod.mk.injEq] at heq
  obtain ⟨hreason, hnow, hbirth⟩ := heq
  refine ⟨sampleWorld_reachable, later, effects, happly, eviction, hmem, hreason, hnow, ?_, by decide +kernel⟩
  rw [hbirth]
  decide +kernel

end Lonewolf.S2s.Crl
