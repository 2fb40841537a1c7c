import Mathlib

/-!
# Input in pieces

What a transport delivers, piece by piece. A reader polls for what is there and consumes some of it; a piece that
was not consumed to its end is there again. After the last piece the input has ended.
-/

namespace Deliveries

variable {α : Type}

/-- A poll that finds nothing yet, or a piece, that is never empty. -/
inductive Delivery (α : Type) where
  | pending
  | piece (first : α) (rest : List α)

abbrev Input (α : Type) := List (Delivery α)

namespace Input

/-- What is there, if the transport has answered; nothing is there at the end. -/
def poll : Input α → Option (List α) × Input α
  | [] => (some [], [])
  | .pending :: input => (none, input)
  | .piece first rest :: input => (some (first :: rest), .piece first rest :: input)

def consume (amount : Nat) : Input α → Input α
  | .piece first rest :: input =>
    match (first :: rest).drop amount with
    | [] => input
    | next :: others => .piece next others :: input
  | input => input

def bytes : Input α → List α
  | [] => []
  | .pending :: input => bytes input
  | .piece first rest :: input => first :: rest ++ bytes input

def pendings : Input α → Nat
  | [] => 0
  | .pending :: input => pendings input + 1
  | .piece _ _ :: input => pendings input

def whole : List α → Input α
  | [] => []
  | first :: rest => [.piece first rest]

theorem bytes_whole (l : List α) : bytes (whole l) = l := by
  cases l <;> simp [whole, bytes]

variable {input input' : Input α} {available : List α}

theorem poll_pending (h : input.poll = (none, input')) :
    input'.bytes = input.bytes ∧ input.pendings = input'.pendings + 1 := by
  match input with
  | .pending :: rest =>
    cases h
    exact ⟨rfl, rfl⟩

theorem poll_ready (h : input.poll = (some available, input')) :
    input' = input ∧ available <+: input.bytes ∧ (available = [] → input.bytes = []) := by
  match input with
  | [] =>
    cases h
    exact ⟨rfl, List.prefix_rfl, fun _ => rfl⟩
  | .piece first rest :: others =>
    cases h
    exact ⟨rfl, List.prefix_append _ _, nofun⟩

theorem bytes_consume {amount : Nat} (h : input.poll = (some available, input')) (hle : amount ≤ available.length) :
    (input.consume amount).bytes = input.bytes.drop amount ∧ (input.consume amount).pendings = input.pendings := by
  match input with
  | [] =>
    cases h
    exact ⟨List.drop_nil.symm, rfl⟩
  | .piece first rest :: others =>
    cases h
    rw [bytes, List.drop_append_of_le_length hle, consume]
    split
    next hdrop =>
      rw [hdrop]
      exact ⟨rfl, rfl⟩
    next next others hdrop =>
      rw [hdrop]
      exact ⟨rfl, rfl⟩

end Input

end Deliveries
