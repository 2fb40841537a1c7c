import Mathlib

/-!
# Hash tables

Finitely many keys with their values, in no order: the operations of a hash table whose results do not
depend on the order of its entries.
-/

namespace HashTables

structure HashTable (K V : Type*) where
  keys : Finset K
  get? : K → Option V
  mem_keys : ∀ {k}, k ∈ keys ↔ (get? k).isSome

namespace HashTable

variable {K V : Type*}

def empty : HashTable K V := ⟨∅, fun _ => none, iff_of_false (Finset.notMem_empty _) Bool.false_ne_true⟩

variable (t : HashTable K V)

def contains (k : K) : Bool := (t.get? k).isSome

/-- The entries that the function keeps, with the values that it makes of theirs. -/
def retain (f : V → Option V) : HashTable K V where
  keys := t.keys.filter fun k => ((t.get? k).bind f).isSome
  get? k := (t.get? k).bind f
  mem_keys {k} := by
    rw [Finset.mem_filter, t.mem_keys, and_iff_right_iff_imp]
    intro h
    cases hget : t.get? k with
    | none =>
      rw [hget] at h
      cases h
    | some v => rfl

variable [DecidableEq K]

def insert (t : HashTable K V) (k : K) (v : V) : HashTable K V where
  keys := Insert.insert k t.keys
  get? := Function.update t.get? k (some v)
  mem_keys {k'} := by
    rw [Finset.mem_insert, t.mem_keys, Function.update_apply]
    split
    case isTrue h => exact iff_of_true (.inl h) rfl
    case isFalse h => exact or_iff_right h

theorem get?_insert (k : K) (v : V) (k' : K) : (t.insert k v).get? k' = if k' = k then some v else t.get? k' :=
  Function.update_apply ..

end HashTable

end HashTables
