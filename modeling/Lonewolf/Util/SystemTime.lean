import Mathlib

/-!
# Clock readings

`SystemTime` as the standard library has it on 64-bit Unix: signed seconds and nanoseconds around the epoch. A
duration is a number of nanoseconds.
-/

namespace Lonewolf.Util

/-- Nanoseconds before the first reading that is not representable. -/
def timeLimit : Int := 2 ^ 63 * 10 ^ 9

abbrev SystemTime := { nanos : Int // -timeLimit ≤ nanos ∧ nanos < timeLimit }

instance : LinearOrder SystemTime := @Subtype.instLinearOrder Int Int.instLinearOrder _

instance : DecidableLE SystemTime := fun a b => Int.decLe a.val b.val

instance : DecidableLT SystemTime := fun a b => Int.decLt a.val b.val

def fromSecs (seconds : Nat) : Nat := seconds * 10 ^ 9

namespace SystemTime

def unixEpoch : SystemTime := ⟨0, by decide⟩

def checkedAdd (time : SystemTime) (duration : Nat) : Option SystemTime :=
  if h : time.val + duration < timeLimit then
    some ⟨time.val + duration, by have := time.2.1; omega, h⟩
  else none

variable {duration : Nat}

theorem checkedAdd_eq_some {time result : SystemTime} :
    time.checkedAdd duration = some result ↔ result.val = time.val + duration := by
  unfold checkedAdd
  split
  · rw [Option.some.injEq]
    exact ⟨fun h => h ▸ rfl, fun h => Subtype.ext h.symm⟩
  · have := result.2.2
    simp only [reduceCtorEq, false_iff]
    omega

theorem checkedAdd_eq_none {time : SystemTime} : time.checkedAdd duration = none ↔ timeLimit ≤ time.val + duration := by
  unfold checkedAdd
  split
  · simp only [reduceCtorEq, false_iff]
    omega
  · simp only [true_iff]
    omega

end SystemTime

end Lonewolf.Util
