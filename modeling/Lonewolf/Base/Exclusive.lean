import Mathlib

/-!
# Resources with at most one holder

A resource (a mutex, a permit, a lock) knows who holds it, and every party knows of itself whether it does. The two
agree through every step in which one party changes and the resource is kept, taken or given back.
-/

namespace Exclusive

variable {ι α : Type*} {has : α → Bool} {party : ι → α} {holder : Option ι}

/-- The parties that have the resource are the holder. -/
def Held (has : α → Bool) (party : ι → α) (holder : Option ι) : Prop := ∀ i, has (party i) = true ↔ holder = some i

theorem Held.unique (h : Held has party holder) {i j : ι} (hi : has (party i) = true) (hj : has (party j) = true) :
    i = j :=
  Option.some.inj (((h i).mp hi).symm.trans ((h j).mp hj))

theorem Held.of_free (h : Held has party none) (i : ι) : has (party i) = false := by
  rw [Bool.eq_false_iff]
  exact fun hi => nomatch (h i).mp hi

theorem Held.of_ne (h : Held has party holder) {i j : ι} (hi : has (party i) = true) (hne : j ≠ i) :
    has (party j) = false := by
  rw [Bool.eq_false_iff]
  exact fun hj => hne (h.unique hj hi)

section Update

variable [DecidableEq ι] {i : ι} {new : α}

theorem Held.keep (h : Held has party holder) (hnew : has new = has (party i)) :
    Held has (Function.update party i new) holder := by
  intro j
  by_cases hj : j = i
  · rw [hj, Function.update_self, hnew]
    exact h i
  · rw [Function.update_of_ne hj]
    exact h j

theorem Held.take (h : Held has party none) (hnew : has new = true) :
    Held has (Function.update party i new) (some i) := by
  intro j
  by_cases hj : j = i
  · rw [hj, Function.update_self, hnew]
    exact iff_of_true rfl rfl
  · rw [Function.update_of_ne hj, h.of_free]
    exact iff_of_false Bool.false_ne_true fun heq => hj (Option.some.inj heq).symm

theorem Held.give (h : Held has party holder) (hold : has (party i) = true) (hnew : has new = false) :
    Held has (Function.update party i new) none := by
  intro j
  refine iff_of_false ?_ nofun
  by_cases hj : j = i
  · rw [hj, Function.update_self, hnew]
    exact Bool.false_ne_true
  · rw [Function.update_of_ne hj, h.of_ne hold hj]
    exact Bool.false_ne_true

end Update

end Exclusive
