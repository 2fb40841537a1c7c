import Mathlib

/-!
# Free lists

Items are kept in several lists, each under a key, and are taken from the front of a list and given back to
its end. As long as every item goes back to the list it was taken from, a list and what was taken from it
make up the same items at all times.
-/

namespace FreeLists

variable {κ α : Type*} [DecidableEq κ]

/-- The items under one key. -/
def ofKey (k : κ) (items : List (κ × α)) : List α := items.filterMap fun x => if x.1 = k then some x.2 else none

theorem ofKey_cons_self (k : κ) (a : α) (items : List (κ × α)) : ofKey k ((k, a) :: items) = a :: ofKey k items :=
  List.filterMap_cons_some (if_pos rfl)

theorem ofKey_cons_ne {k k' : κ} (hne : k' ≠ k) (a : α) (items : List (κ × α)) :
    ofKey k' ((k, a) :: items) = ofKey k' items :=
  List.filterMap_cons_none (if_neg hne.symm)

theorem mem_ofKey {k : κ} {a : α} {items : List (κ × α)} : a ∈ ofKey k items ↔ (k, a) ∈ items := by
  rw [ofKey, List.mem_filterMap]
  refine ⟨fun ⟨x, hmem, hx⟩ => ?_, fun hmem => ⟨(k, a), hmem, if_pos rfl⟩⟩
  rw [Option.ite_none_right_eq_some] at hx
  rw [← hx.1, ← Option.some.inj hx.2]
  exact hmem

/-- The free items under each key, and the items that are taken, with their keys. -/
structure Lists (κ α : Type*) where
  free : κ → List α
  taken : List (κ × α)

namespace Lists

def take (s : Lists κ α) (k : κ) (a : α) (rest : List α) : Lists κ α :=
  ⟨Function.update s.free k rest, (k, a) :: s.taken⟩

def give [DecidableEq α] (s : Lists κ α) (k : κ) (a : α) : Lists κ α :=
  ⟨Function.update s.free k (s.free k ++ [a]), s.taken.erase (k, a)⟩

/-- A list and what was taken from it are all the items of the key. -/
def Balanced (all : κ → List α) (s : Lists κ α) : Prop := ∀ k, (s.free k ++ ofKey k s.taken).Perm (all k)

variable {all : κ → List α} {s : Lists κ α} {k : κ} {a : α}

theorem Balanced.take (h : Balanced all s) {rest : List α} (hfree : s.free k = a :: rest) :
    Balanced all (s.take k a rest) := by
  intro k'
  have hbalanced := h k'
  by_cases hk : k' = k
  · subst hk
    simp only [Lists.take, ofKey_cons_self, Function.update_self]
    rw [hfree] at hbalanced
    exact List.perm_middle.trans hbalanced
  · simp only [Lists.take, ofKey_cons_ne hk, Function.update_of_ne hk]
    exact hbalanced

theorem perm_give [DecidableEq α] (htaken : (k, a) ∈ s.taken) : s.taken.Perm ((k, a) :: (s.give k a).taken) :=
  List.perm_cons_erase htaken

variable (h : Balanced all s)
include h

theorem Balanced.give [DecidableEq α] (htaken : (k, a) ∈ s.taken) : Balanced all (s.give k a) := by
  intro k'
  have hbalanced := h k'
  have hperm : (ofKey k' s.taken).Perm (ofKey k' ((k, a) :: s.taken.erase (k, a))) :=
    (perm_give htaken).filterMap _
  by_cases hk : k' = k
  · subst hk
    rw [ofKey_cons_self] at hperm
    simp only [Lists.give, Function.update_self, List.append_assoc]
    exact (hperm.symm.append_left _).trans hbalanced
  · rw [ofKey_cons_ne hk] at hperm
    simp only [Lists.give, Function.update_of_ne hk]
    exact (hperm.symm.append_left _).trans hbalanced

theorem Balanced.of_perm {taken : List (κ × α)} (hperm : taken.Perm s.taken) : Balanced all ⟨s.free, taken⟩ :=
  fun k => ((hperm.filterMap _).append_left _).trans (h k)

theorem Balanced.mem_all (htaken : (k, a) ∈ s.taken) : a ∈ all k := by
  rw [← (h k).mem_iff, List.mem_append]
  exact .inr (mem_ofKey.mpr htaken)

theorem Balanced.free_mem_all (hfree : a ∈ s.free k) : a ∈ all k := by
  rw [← (h k).mem_iff, List.mem_append]
  exact .inl hfree

theorem Balanced.not_taken (hall : (all k).Nodup) (hfree : a ∈ s.free k) : (k, a) ∉ s.taken := by
  intro htaken
  have hnodup := (h k).nodup_iff.mpr hall
  exact List.disjoint_of_nodup_append hnodup hfree (mem_ofKey.mpr htaken)

theorem Balanced.length_lt (htaken : (k, a) ∈ s.taken) : (s.free k).length < (all k).length := by
  have hlength := (h k).length_eq
  have hpos := List.length_pos_of_mem (mem_ofKey.mpr htaken)
  rw [List.length_append] at hlength
  omega

theorem Balanced.all_free (hnone : s.taken = []) (k : κ) : (s.free k).Perm (all k) := by
  have hbalanced := h k
  rw [hnone, show ofKey k ([] : List (κ × α)) = [] from rfl, List.append_nil] at hbalanced
  exact hbalanced

end Lists

end FreeLists
