import Mathlib

/-!
# Sorted tables

A finite map kept as a list of entries in strictly increasing key order: the model of an ordered map, of a database
table scanned by range, and of a hash map whose iteration order is never observed. The order is a field of the
structure, so every table has one entry per key and two tables with the same lookups are equal.
-/

namespace SortedTables

/-- Entries in strictly increasing key order. -/
structure SortedTable (K V : Type*) [LinearOrder K] where
  entries : List (K × V)
  sorted : entries.Pairwise fun a b => a.1 < b.1
  deriving DecidableEq

namespace SortedTable

variable {K V : Type*} [LinearOrder K]

instance : EmptyCollection (SortedTable K V) := ⟨⟨[], List.Pairwise.nil⟩⟩

@[simp] theorem entries_empty : (∅ : SortedTable K V).entries = [] := rfl

def get? (t : SortedTable K V) (k : K) : Option V :=
  (t.entries.find? fun e => e.1 = k).map Prod.snd

def filterKeys (t : SortedTable K V) (p : K → Bool) : SortedTable K V :=
  ⟨t.entries.filter fun e => p e.1, t.sorted.filter _⟩

/-- The entries that satisfy `p`. -/
def retain (t : SortedTable K V) (p : K → V → Bool) : SortedTable K V :=
  ⟨t.entries.filter fun e => p e.1 e.2, t.sorted.filter _⟩

def erase (t : SortedTable K V) (k : K) : SortedTable K V := t.filterKeys fun k' => k' ≠ k

/-- The table with one key bound to a value, replacing the value it had. -/
def insert (t : SortedTable K V) (k : K) (v : V) : SortedTable K V where
  entries := (t.entries.filter fun e => e.1 < k) ++ (k, v) :: t.entries.filter fun e => k < e.1
  sorted := by
    refine List.pairwise_append.mpr ⟨t.sorted.filter _, ?_, ?_⟩
    · refine List.pairwise_cons.mpr ⟨fun e he => ?_, t.sorted.filter _⟩
      simpa using (List.mem_filter.mp he).2
    · intro a ha b hb
      have hak : a.1 < k := by simpa using (List.mem_filter.mp ha).2
      rcases List.mem_cons.mp hb with rfl | hb
      · exact hak
      · exact hak.trans (by simpa using (List.mem_filter.mp hb).2)

def keys (t : SortedTable K V) : List K := t.entries.map Prod.fst

def firstKey? (t : SortedTable K V) : Option K := t.keys.head?

/-- The least key above `k`: the next step of a cursor that stands on `k`. -/
def nextKey? (t : SortedTable K V) (k : K) : Option K := (t.keys.filter fun k' => k < k').head?

theorem keys_sorted (t : SortedTable K V) : t.keys.Pairwise (· < ·) :=
  List.pairwise_map.mpr t.sorted

theorem keys_nodup (t : SortedTable K V) : t.keys.Nodup := t.keys_sorted.imp fun hlt => hlt.ne

variable {t : SortedTable K V} {k : K}

theorem eq_of_mem_of_mem {v w : V} (hv : (k, v) ∈ t.entries) (hw : (k, w) ∈ t.entries) : v = w :=
  (Prod.mk.inj (List.inj_on_of_nodup_map t.keys_nodup hv hw rfl)).2

theorem get?_eq_some {v : V} : t.get? k = some v ↔ (k, v) ∈ t.entries := by
  constructor
  · intro h
    obtain ⟨e, he, rfl⟩ := Option.map_eq_some_iff.mp h
    obtain rfl : e.1 = k := by simpa using List.find?_some he
    exact List.mem_of_find?_eq_some he
  · intro h
    obtain ⟨e, he⟩ : ∃ e, t.entries.find? (fun e => e.1 = k) = some e :=
      Option.isSome_iff_exists.mp (List.find?_isSome.mpr ⟨_, h, by simp⟩)
    obtain rfl : e.1 = k := by simpa using List.find?_some he
    rw [get?, he, Option.map_some, eq_of_mem_of_mem h (List.mem_of_find?_eq_some he)]

theorem get?_eq_none : t.get? k = none ↔ k ∉ t.keys := by
  simp [Option.eq_none_iff_forall_ne_some, get?_eq_some, keys]

theorem mem_keys : k ∈ t.keys ↔ ∃ v, t.get? k = some v := by
  simp [keys, get?_eq_some]

@[ext] theorem ext_get? {t u : SortedTable K V} (h : ∀ k, t.get? k = u.get? k) : t = u := by
  have hmem : ∀ e, e ∈ t.entries ↔ e ∈ u.entries := fun e => by
    rw [← Prod.mk.eta (p := e), ← get?_eq_some, ← get?_eq_some, h]
  have hperm := (List.perm_ext_iff_of_nodup t.keys_nodup.of_map u.keys_nodup.of_map).mpr hmem
  have heq : t.entries = u.entries :=
    hperm.eq_of_pairwise (fun a b _ _ hab hba => absurd hab hba.asymm) t.sorted u.sorted
  cases t
  cases u
  cases heq
  rfl

@[simp] theorem get?_empty (k : K) : (∅ : SortedTable K V).get? k = none := rfl

variable {e : K × V}

@[simp] theorem mem_entries_filterKeys {p : K → Bool} : e ∈ (t.filterKeys p).entries ↔ e ∈ t.entries ∧ p e.1 := by
  simp [filterKeys]

theorem mem_entries_insert {v : V} : e ∈ (t.insert k v).entries ↔ e = (k, v) ∨ (e.1 ≠ k ∧ e ∈ t.entries) := by
  simp only [insert, List.mem_append, List.mem_cons, List.mem_filter, decide_eq_true_eq]
  constructor
  · rintro (⟨he, hlt⟩ | rfl | ⟨he, hlt⟩)
    · exact .inr ⟨hlt.ne, he⟩
    · exact .inl rfl
    · exact .inr ⟨hlt.ne', he⟩
  · rintro (rfl | ⟨hne, he⟩)
    · exact .inr (.inl rfl)
    · rcases lt_or_gt_of_ne hne with hlt | hlt
      · exact .inl ⟨he, hlt⟩
      · exact .inr (.inr ⟨he, hlt⟩)

section

variable (t)

theorem get?_filterKeys (p : K → Bool) (k : K) : (t.filterKeys p).get? k = if p k then t.get? k else none := by
  ext v
  rw [get?_eq_some, mem_entries_filterKeys]
  split <;> simp_all [get?_eq_some]

theorem get?_erase (k k' : K) : (t.erase k).get? k' = if k' = k then none else t.get? k' := by
  rw [erase, get?_filterKeys]
  by_cases h : k' = k <;> simp [h]

@[simp] theorem get?_erase_self (k : K) : (t.erase k).get? k = none := by
  simp [get?_erase]

theorem get?_erase_ne {k k' : K} (h : k' ≠ k) : (t.erase k).get? k' = t.get? k' := by
  simp [get?_erase, h]

theorem get?_insert (k : K) (v : V) (k' : K) : (t.insert k v).get? k' = if k' = k then some v else t.get? k' := by
  ext w
  rw [get?_eq_some, mem_entries_insert]
  by_cases h : k' = k
  · simp [h, eq_comm]
  · simp [h, get?_eq_some]

@[simp] theorem get?_insert_self (k : K) (v : V) : (t.insert k v).get? k = some v := by
  simp [get?_insert]

theorem get?_insert_ne {k k' : K} (v : V) (h : k' ≠ k) : (t.insert k v).get? k' = t.get? k' := by
  simp [get?_insert, h]

theorem filterKeys_insert (p : K → Bool) (k : K) (v : V) :
    (t.insert k v).filterKeys p = if p k then (t.filterKeys p).insert k v else t.filterKeys p := by
  ext1 k'
  by_cases hk : k' = k
  · subst hk
    split <;> simp [get?_filterKeys, *]
  · split <;> simp [get?_filterKeys, get?_insert_ne, hk]

end

theorem erase_eq_self (h : t.get? k = none) : t.erase k = t := by
  ext1 k'
  rw [get?_erase]
  split
  · subst k'
    exact h.symm
  · rfl

theorem nodup_entries (t : SortedTable K V) : t.entries.Nodup := t.keys_nodup.of_map

theorem entries_perm_cons_erase {v : V} (h : t.get? k = some v) : t.entries.Perm ((k, v) :: (t.erase k).entries) := by
  apply (List.perm_ext_iff_of_nodup t.nodup_entries _).mpr
  · rintro ⟨k', w⟩
    simp only [List.mem_cons, erase, mem_entries_filterKeys, decide_eq_true_eq]
    constructor
    · intro he
      by_cases hk : k' = k
      · subst hk
        exact .inl (by rw [eq_of_mem_of_mem he (get?_eq_some.mp h)])
      · exact .inr ⟨he, by simpa using hk⟩
    · intro he
      rcases he with heq | ⟨he, _⟩
      · rw [heq]
        exact get?_eq_some.mp h
      · exact he
  · apply List.nodup_cons.mpr
    exact ⟨by simp [erase], (t.erase k).nodup_entries⟩

theorem entries_insert_perm (t : SortedTable K V) (k : K) (v : V) :
    (t.insert k v).entries.Perm ((k, v) :: (t.erase k).entries) := by
  have herase : (t.insert k v).erase k = t.erase k := by
    ext1 k'
    simp only [get?_erase]
    split
    · rfl
    · exact get?_insert_ne t v ‹_›
  have hperm := entries_perm_cons_erase (get?_insert_self t k v)
  rwa [herase] at hperm

theorem keys_ext {W : Type*} {u : SortedTable K W} (h : ∀ k, k ∈ t.keys ↔ k ∈ u.keys) : t.keys = u.keys :=
  ((List.perm_ext_iff_of_nodup t.keys_nodup u.keys_nodup).mpr h).eq_of_pairwise
    (fun _ _ _ _ hab hba => absurd hab hba.asymm) t.keys_sorted u.keys_sorted

theorem eq_empty_iff : t = ∅ ↔ ∀ k, t.get? k = none :=
  ⟨fun h k => by rw [h, get?_empty], fun h => ext_get? fun k => by rw [h, get?_empty]⟩

theorem firstKey?_eq_some : t.firstKey? = some k ↔ k ∈ t.keys ∧ ∀ k' ∈ t.keys, k ≤ k' := by
  have hsorted := t.keys_sorted
  rw [firstKey?]
  cases hkeys : t.keys with
  | nil => simp
  | cons head tail =>
    rw [hkeys] at hsorted
    have hhead := (List.pairwise_cons.mp hsorted).1
    simp only [List.head?_cons, Option.some.injEq, List.mem_cons, forall_eq_or_imp]
    constructor
    · rintro rfl
      exact ⟨.inl rfl, le_rfl, fun k' hk' => (hhead k' hk').le⟩
    · rintro ⟨rfl | hmem, hle, _⟩
      · rfl
      · exact absurd (hhead k hmem) hle.not_gt

theorem firstKey?_eq_none : t.firstKey? = none ↔ t = ∅ := by
  rw [firstKey?, List.head?_eq_none_iff, eq_empty_iff]
  simp [get?_eq_none, List.eq_nil_iff_forall_not_mem]

end SortedTable

end SortedTables
