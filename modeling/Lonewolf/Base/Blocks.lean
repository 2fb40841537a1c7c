import Mathlib

/-!
# Blocks

Storage that is handed out in blocks, one after another: a block keeps its number and its length for ever, and is
written one value at a time.
-/

namespace Blocks

abbrev Store (α : Type) := List (List α)

namespace Store

variable {α : Type} (store : Store α)

def read (block : Nat) : List α := store.getD block []

/-- A write of a whole block, or nothing when there is no such block. -/
def replace (block : Nat) (values : List α) : Store α := store.set block values

def alloc (values : List α) : Store α := store ++ [values]

variable {store}

variable {values : List α} {block : Nat}

@[simp] theorem length_replace :
    (store.replace block values).length = store.length := List.length_set

@[simp] theorem length_alloc : (store.alloc values).length = store.length + 1 := by
  simp [alloc]

theorem read_replace_self (h : block < store.length) : (store.replace block values).read block = values := by
  simp [read, replace, h]

theorem read_replace_of_ne {other : Nat} (h : other ≠ block) :
    (store.replace block values).read other = store.read other := by
  simp [read, replace, List.getElem?_set_ne h.symm]

@[simp] theorem read_alloc_self : (store.alloc values).read store.length = values := by
  simp [read, alloc]

theorem read_alloc_of_lt (h : block < store.length) : (store.alloc values).read block = store.read block := by
  simp [read, alloc, List.getElem?_append_left h]

@[simp] theorem replace_alloc {values values' : List α} :
    (store.alloc values).replace store.length values' = store.alloc values' := by
  simp [replace, alloc]

end Store

end Blocks
