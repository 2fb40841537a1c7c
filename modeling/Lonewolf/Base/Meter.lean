import Mathlib

/-!
# Credit that grows with time

A credit grows at a fixed rate up to a cap, and is spent. The clock is the largest time that was told; an
earlier time changes nothing. What is spent is bounded by the cap and the time that has passed, and below
the cap it makes no difference how often the time was told.
-/

namespace Meters

structure Meter where
  credit : Nat
  clock : Nat

inductive Event where
  | advance (now : Nat)
  | spend (amount : Nat)

variable (rate cap : Nat)

namespace Meter

def advance (m : Meter) (now : Nat) : Meter :=
  ⟨min cap (m.credit + (now - m.clock) * rate), max m.clock now⟩

def spend? (m : Meter) (amount : Nat) : Option Meter :=
  if amount ≤ m.credit then some ⟨m.credit - amount, m.clock⟩ else none

def apply (m : Meter) : Event → Option Meter
  | .advance now => some (m.advance rate cap now)
  | .spend amount => m.spend? amount

/-- The meter after some events; more than the credit cannot be spent. -/
def run (m : Meter) : List Event → Option Meter
  | [] => some m
  | event :: events => (m.apply rate cap event).bind fun m' => m'.run events

end Meter

def spent : List Event → Nat
  | [] => 0
  | .advance _ :: events => spent events
  | .spend amount :: events => amount + spent events

namespace Meter

variable {rate cap} {m m' n : Meter} {event : Event} {events : List Event}

theorem spend?_eq_some {amount : Nat} :
    m.spend? amount = some m' ↔ amount ≤ m.credit ∧ m' = ⟨m.credit - amount, m.clock⟩ := by
  rw [spend?]
  split
  case isTrue h => simp [h, eq_comm]
  case isFalse h => simp [h]

theorem run_cons_eq_some :
    m.run rate cap (event :: events) = some m' ↔
      ∃ m₁, m.apply rate cap event = some m₁ ∧ m₁.run rate cap events = some m' := by
  rw [run, Option.bind_eq_some_iff]

theorem credit_le_of_run (hm : m.credit ≤ cap) (h : m.run rate cap events = some m') : m'.credit ≤ cap := by
  induction events generalizing m with
  | nil =>
    cases h
    exact hm
  | cons event events ih =>
    obtain ⟨m₁, happly, h⟩ := run_cons_eq_some.mp h
    refine ih ?_ h
    cases event with
    | advance now =>
      cases happly
      exact min_le_left ..
    | spend amount =>
      obtain ⟨_, rfl⟩ := spend?_eq_some.mp happly
      exact (Nat.sub_le ..).trans hm

theorem spent_le (h : m.run rate cap events = some m') :
    m.clock ≤ m'.clock ∧ m'.credit + spent events ≤ m.credit + (m'.clock - m.clock) * rate := by
  induction events generalizing m with
  | nil =>
    cases h
    simp [spent]
  | cons event events ih =>
    obtain ⟨m₁, happly, h⟩ := run_cons_eq_some.mp h
    obtain ⟨hclock, hspent⟩ := ih h
    cases event with
    | advance now =>
      cases happly
      simp only [advance] at hclock hspent
      refine ⟨le_of_max_le_left hclock, ?_⟩
      have hsplit : (m'.clock - m.clock) * rate = (m'.clock - max m.clock now) * rate + (now - m.clock) * rate := by
        rw [← add_mul]
        congr 1
        omega
      have hcredit := min_le_right cap (m.credit + (now - m.clock) * rate)
      rw [hsplit, spent]
      omega
    | spend amount =>
      obtain ⟨hle, rfl⟩ := spend?_eq_some.mp happly
      refine ⟨hclock, ?_⟩
      simp only at hspent
      rw [spent]
      omega

/-! ### Times told in between -/

/-- The second meter is the first one at a later time, which is no later than `until'`, and below the cap. -/
structure Ahead (rate cap until' : Nat) (m n : Meter) : Prop where
  clock_le : m.clock ≤ n.clock
  clock_until : n.clock ≤ until'
  credit_eq : n.credit = m.credit + (n.clock - m.clock) * rate
  below : n.credit < cap

variable {until' : Nat}

theorem Ahead.advance_eq (h : Ahead rate cap until' m n) {now : Nat} (hnow : n.clock ≤ now) :
    m.advance rate cap now = n.advance rate cap now := by
  have hclock := h.clock_le
  have hsum : (now - m.clock) * rate = (n.clock - m.clock) * rate + (now - n.clock) * rate := by
    rw [← add_mul]
    congr 1
    omega
  simp only [advance, Meter.mk.injEq]
  rw [h.credit_eq, hsum, add_assoc]
  exact ⟨rfl, by omega⟩

theorem advance_of_le (hbelow : m.credit < cap) {now : Nat} (hnow : now ≤ m.clock) : m.advance rate cap now = m := by
  simp only [advance, Nat.sub_eq_zero_of_le hnow, zero_mul, add_zero, min_eq_right hbelow.le, max_eq_left hnow]

section

variable (h : Ahead rate cap until' m n)
include h

theorem Ahead.advance (now : Nat) :
    m.advance rate cap now = n.advance rate cap now ∨
      Ahead rate cap until' (m.advance rate cap now) (n.advance rate cap now) := by
  by_cases hnow : n.clock ≤ now
  · exact .inl (h.advance_eq hnow)
  · right
    have hclock := h.clock_le
    have hcredit := h.credit_eq
    have hbelow := h.below
    rw [advance_of_le hbelow (by omega)]
    have hsplit : (n.clock - m.clock) * rate = (n.clock - max m.clock now) * rate + (now - m.clock) * rate := by
      rw [← add_mul]
      congr 1
      omega
    have hcapped : min cap (m.credit + (now - m.clock) * rate) = m.credit + (now - m.clock) * rate :=
      min_eq_right (by omega)
    refine ⟨?_, h.clock_until, ?_, hbelow⟩
    · simp only [Meter.advance]
      omega
    · simp only [Meter.advance, hcapped]
      omega

theorem Ahead.apply (happly : m.apply rate cap event = some m') :
    ∃ n', n.apply rate cap event = some n' ∧ (m' = n' ∨ Ahead rate cap until' m' n') := by
  cases event with
  | advance now =>
    cases happly
    exact ⟨_, rfl, h.advance now⟩
  | spend amount =>
    obtain ⟨hle, rfl⟩ := spend?_eq_some.mp happly
    have hcredit := h.credit_eq
    have hbelow := h.below
    refine ⟨_, spend?_eq_some.mpr ⟨by omega, rfl⟩, .inr ⟨h.clock_le, h.clock_until, ?_, ?_⟩⟩
    · simp only
      omega
    · simp only
      omega

theorem Ahead.run (hrun : m.run rate cap events = some m') :
    ∃ n', n.run rate cap events = some n' ∧ (m' = n' ∨ Ahead rate cap until' m' n') := by
  induction events generalizing m n with
  | nil =>
    cases hrun
    exact ⟨n, rfl, .inr h⟩
  | cons event events ih =>
    obtain ⟨m₁, happly, hrun⟩ := run_cons_eq_some.mp hrun
    obtain ⟨n₁, happly', heq | h₁⟩ := h.apply happly
    · subst heq
      exact ⟨m', run_cons_eq_some.mpr ⟨m₁, happly', hrun⟩, .inl rfl⟩
    · obtain ⟨n', hrun', hrel⟩ := ih h₁ hrun
      exact ⟨n', run_cons_eq_some.mpr ⟨n₁, happly', hrun'⟩, hrel⟩

end

theorem ahead_advance {now : Nat} (hbelow : (m.advance rate cap now).credit < cap) (hnow : m.clock ≤ now) :
    Ahead rate cap now m (m.advance rate cap now) := by
  simp only [advance, min_lt_iff, lt_self_iff_false, false_or] at hbelow
  have hcapped : min cap (m.credit + (now - m.clock) * rate) = m.credit + (now - m.clock) * rate :=
    min_eq_right hbelow.le
  refine ⟨?_, ?_, ?_, ?_⟩ <;> simp only [advance, hcapped, max_eq_right hnow] <;> omega

/-- **A time that is told in between.** If it does not fill the credit, everything that goes through without
it goes through with it, and at any later time the meter is the same. -/
theorem advance_inserted {now : Nat} (hbelow : (m.advance rate cap now).credit < cap)
    (hrun : m.run rate cap events = some m') :
    ∃ n', (m.advance rate cap now).run rate cap events = some n' ∧
      ∀ later, now ≤ later → n'.advance rate cap later = m'.advance rate cap later := by
  by_cases hnow : m.clock ≤ now
  · obtain ⟨n', hrun', heq | hahead⟩ := (ahead_advance hbelow hnow).run hrun
    · exact ⟨n', hrun', fun later _ => by rw [heq]⟩
    · exact ⟨n', hrun', fun later hlater => (hahead.advance_eq (hahead.clock_until.trans hlater)).symm⟩
  · have hcredit : m.credit < cap := by
      simp only [advance, min_lt_iff, lt_self_iff_false, false_or] at hbelow
      omega
    rw [advance_of_le hcredit (by omega)]
    exact ⟨m', hrun, fun _ _ => rfl⟩

end Meter

end Meters
