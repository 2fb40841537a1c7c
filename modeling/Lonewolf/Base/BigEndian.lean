import Mathlib

/-!
# Numbers written most significant digit first

Digit strings without leading zeros, compared by their length and then digit by digit: the comparison is that of the
numbers they stand for.
-/

namespace BigEndian

variable {base : Nat}

def value : List (Fin base) → Nat
  | [] => 0
  | digit :: rest => digit * base ^ rest.length + value rest

variable (digits : List (Fin base))

/-- No digit is written that adds nothing. -/
def Canonical : Prop := ∀ digit ∈ digits.head?, digit.val ≠ 0

/-- Longer strings are greater; strings of one length are compared digit by digit. -/
def cmp (left right : List (Fin base)) : Ordering :=
  (compare left.length right.length).then (compare left right)

/-- The digits without the zeros in front. -/
def trim : List (Fin base) := digits.dropWhile fun digit => digit.val = 0

theorem canonical_trim : Canonical (trim digits) := by
  intro digit hdigit
  have hhead := List.head?_dropWhile_not (fun digit : Fin base => decide (digit.val = 0)) digits
  have hne : decide (digit.val = 0) = false := by
    rw [trim] at hdigit
    rw [Option.mem_def.mp hdigit] at hhead
    exact hhead
  exact of_decide_eq_false hne

theorem value_lt : value digits < base ^ digits.length := by
  induction digits with
  | nil => exact Nat.one_pos
  | cons digit rest ih =>
    calc value (digit :: rest) < digit * base ^ rest.length + base ^ rest.length := by
          rw [value]
          omega
      _ = (digit + 1) * base ^ rest.length := by ring
      _ ≤ base * base ^ rest.length := Nat.mul_le_mul_right _ digit.isLt
      _ = base ^ (digit :: rest).length := by rw [List.length_cons, Nat.pow_succ']

theorem le_value {digits : List (Fin base)} (h : Canonical digits) (hne : digits ≠ []) :
    base ^ (digits.length - 1) ≤ value digits := by
  cases digits with
  | nil => exact absurd rfl hne
  | cons digit rest =>
    have hdigit : 1 ≤ digit.val := Nat.one_le_iff_ne_zero.mpr (h digit rfl)
    have hmul := Nat.mul_le_mul_right (base ^ rest.length) hdigit
    rw [Nat.one_mul] at hmul
    rw [value, List.length_cons, Nat.add_sub_cancel]
    omega

variable {left right : List (Fin base)}

theorem value_lt_of_length_lt (hright : Canonical right)
    (h : left.length < right.length) : value left < value right := by
  have hne : right ≠ [] := fun hnil => by simp [hnil] at h
  have hbase : 0 < base := by
    cases right with
    | nil => exact absurd rfl hne
    | cons digit rest => exact Nat.lt_of_le_of_lt (Nat.zero_le _) digit.isLt
  calc value left < base ^ left.length := value_lt left
    _ ≤ base ^ (right.length - 1) := Nat.pow_le_pow_right hbase (by omega)
    _ ≤ value right := le_value hright hne

theorem compare_of_length_eq (h : left.length = right.length) :
    compare left right = compare (value left) (value right) := by
  induction left generalizing right with
  | nil =>
    obtain rfl : right = [] := List.length_eq_zero_iff.mp h.symm
    rfl
  | cons digit rest ih =>
    cases right with
    | nil => simp at h
    | cons other rest' =>
      have hlength : rest.length = rest'.length := by simpa using h
      have hrest := value_lt rest
      have hrest' := value_lt rest'
      have hdigits : compare digit other = compare digit.val other.val := rfl
      rw [List.compare_cons_cons, ih hlength, hdigits]
      rw [hlength] at hrest
      have hmul : ∀ a b : Nat, a < b → a * base ^ rest'.length + base ^ rest'.length ≤ b * base ^ rest'.length := by
        intro a b hab
        have hle := Nat.mul_le_mul_right (base ^ rest'.length) (show a + 1 ≤ b from hab)
        rwa [Nat.succ_mul] at hle
      rw [value, value, hlength]
      rcases Nat.lt_trichotomy digit.val other.val with hlt | heq | hgt
      · have hvalue : digit * base ^ rest'.length + value rest < other * base ^ rest'.length + value rest' := by
          have := hmul _ _ hlt
          omega
        rw [Nat.compare_eq_lt.mpr hlt, Nat.compare_eq_lt.mpr hvalue]
        rfl
      · rw [heq, Nat.compare_eq_eq.mpr rfl]
        rcases Nat.lt_trichotomy (value rest) (value rest') with hlt | heq | hgt
        · rw [Nat.compare_eq_lt.mpr hlt, Nat.compare_eq_lt.mpr (by omega)]
          rfl
        · rw [heq]
          simp
        · rw [Nat.compare_eq_gt.mpr hgt, Nat.compare_eq_gt.mpr (by omega)]
          rfl
      · have hvalue : other * base ^ rest'.length + value rest' < digit * base ^ rest'.length + value rest := by
          have := hmul _ _ hgt
          omega
        rw [Nat.compare_eq_gt.mpr hgt, Nat.compare_eq_gt.mpr hvalue]
        rfl

theorem cmp_eq (hleft : Canonical left) (hright : Canonical right) :
    cmp left right = compare (value left) (value right) := by
  rw [cmp]
  rcases Nat.lt_trichotomy left.length right.length with hlt | heq | hgt
  · rw [Nat.compare_eq_lt.mpr hlt, Nat.compare_eq_lt.mpr (value_lt_of_length_lt hright hlt)]
    rfl
  · rw [compare_of_length_eq heq, heq]
    simp
  · rw [Nat.compare_eq_gt.mpr hgt, Nat.compare_eq_gt.mpr (value_lt_of_length_lt hleft hgt)]
    rfl

end BigEndian
