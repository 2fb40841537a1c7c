import Mathlib

/-!
# Unsigned numbers in decimal

Numbers below a bound as text: how they are written, and how a text is read, with an optional sign in front
and a check for overflow at every digit. What is read from a number that was written is that number.
-/

namespace Decimals

/-- A number as it is written. -/
def decimal (n : Nat) : List Char := Nat.toDigits 10 n

/-- The digits one after another, each of them taken in without overflow. -/
def readDigits (bound : Nat) (value : Nat) : List Char → Option Nat
  | [] => some value
  | c :: cs =>
    if c.isDigit then
      let next := 10 * value + (c.toNat - '0'.toNat)
      if next < bound then readDigits bound next cs else none
    else none

/-- A text as a number: at least one digit, and a plus sign in front is let in. -/
def readUnsigned (bound : Nat) : List Char → Option Nat
  | [] | ['+'] => none
  | '+' :: cs => readDigits bound 0 cs
  | cs => readDigits bound 0 cs

variable {cs : List Char} {bound : Nat} {n : Nat} {value : Nat}

theorem readDigits_eq (h : readDigits bound value cs = some n) : n = Nat.ofDigitChars 10 cs value := by
  induction cs generalizing value with
  | nil => exact (Option.some.inj h).symm
  | cons c cs ih =>
    simp only [readDigits] at h
    split at h
    · split at h
      · rw [ih h, Nat.ofDigitChars_cons]
      · cases h
    · cases h

theorem eq_of_readUnsigned {bound' m : Nat} (h : readUnsigned bound cs = some n) (h' : readUnsigned bound' cs = some m)
    : n = m := by
  unfold readUnsigned at h h'
  split at h
  case h_1 => cases h
  case h_2 => cases h
  case h_3 =>
    simp only at h'
    rw [readDigits_eq h, readDigits_eq h']
  case h_4 =>
    simp only at h'
    rw [readDigits_eq h, readDigits_eq h']

theorem readUnsigned_of_digit {c : Char} (hc : c.isDigit = true) :
    readUnsigned bound (c :: cs) = readDigits bound 0 (c :: cs) := by
  unfold readUnsigned
  split
  case h_1 heq => cases heq
  case h_2 heq =>
    cases heq
    exact absurd hc (by decide)
  case h_3 heq =>
    cases heq
    exact absurd hc (by decide)
  case h_4 => rfl

theorem isDigit_decimal {c : Char} (h : c ∈ decimal n) : c.isDigit = true :=
  Nat.isDigit_of_mem_toDigits (by decide) (by decide) h

theorem readUnsigned_decimal_eq (bound n : Nat) : readUnsigned bound (decimal n) = readDigits bound 0 (decimal n) := by
  cases hdigits : decimal n with
  | nil => exact absurd hdigits Nat.toDigits_ne_nil
  | cons c cs =>
    apply readUnsigned_of_digit
    apply isDigit_decimal (n := n)
    rw [hdigits]
    exact List.mem_cons_self

theorem eq_of_readUnsigned_decimal {v : Nat} (h : readUnsigned bound (decimal v) = some n) : n = v := by
  rw [readUnsigned_decimal_eq] at h
  rw [readDigits_eq h]
  exact Nat.ofDigitChars_ten_toDigits

theorem le_ofDigitChars (cs : List Char) (value : Nat) : value ≤ Nat.ofDigitChars 10 cs value := by
  induction cs generalizing value with
  | nil => exact Nat.le_refl value
  | cons c cs ih =>
    rw [Nat.ofDigitChars_cons]
    exact Nat.le_trans (by omega) (ih _)

theorem readDigits_of_lt (hdigits : ∀ c ∈ cs, c.isDigit = true) (hlt : Nat.ofDigitChars 10 cs value < bound) :
    readDigits bound value cs = some (Nat.ofDigitChars 10 cs value) := by
  induction cs generalizing value with
  | nil => rfl
  | cons c cs ih =>
    rw [Nat.ofDigitChars_cons] at hlt ⊢
    have hnext := Nat.lt_of_le_of_lt (le_ofDigitChars cs _) hlt
    simp only [readDigits, hdigits c List.mem_cons_self, if_true, hnext]
    exact ih (fun d hd => hdigits d (List.mem_cons_of_mem c hd)) hlt

theorem readUnsigned_decimal (h : n < bound) : readUnsigned bound (decimal n) = some n := by
  have hvalue : Nat.ofDigitChars 10 (decimal n) 0 = n := Nat.ofDigitChars_ten_toDigits
  rw [readUnsigned_decimal_eq, readDigits_of_lt (fun c hc => isDigit_decimal hc) (hvalue.symm ▸ h), hvalue]

theorem length_decimal (n : Nat) : (decimal n).length = Nat.log 10 n + 1 := by
  have hupper : (decimal n).length ≤ Nat.log 10 n + 1 :=
    (Nat.length_toDigits_le_iff (by decide) (by omega)).mpr (Nat.lt_pow_succ_log_self (by decide) n)
  have hlower : Nat.log 10 n < (decimal n).length := by
    by_contra hle
    have hpos : 0 < (decimal n).length := Nat.length_toDigits_pos
    have hlt : n < 10 ^ Nat.log 10 n := (Nat.length_toDigits_le_iff (by decide) (by omega)).mp (Nat.not_lt.mp hle)
    have hne : n ≠ 0 := by
      rintro rfl
      rw [Nat.log_zero_right] at hle
      omega
    exact absurd (Nat.pow_log_le_self 10 hne) (Nat.not_le.mpr hlt)
  omega

end Decimals
