import Lonewolf.Base.Transition

/-!
# Notices of a grant

One party decides whether it grants something and sends notices of its decisions; the other hears them in order, and
may count on the grant from then on. The granting party need not announce everything, but it tells when it withdraws.
Then the other counts on a grant only while there is one or while a notice that ends it is on its way.
-/

namespace Notices

open Transitions

inductive Notice where
  | grant
  | withdraw
  deriving DecidableEq

/-- The decision, the notices that are on their way, the next one first, and whether the other party counts
on the grant. -/
structure State where
  granted : Bool
  queue : List Notice
  held : Bool

inductive Step : State → State → Prop where
  /-- The grant stands, or its end is told last, or there was none and nothing is told. -/
  | decide {s : State} (granted : Bool) (sent : List Notice)
      (htold : granted = true ∨ sent.getLast? = some .withdraw ∨ (sent = [] ∧ s.granted = false)) :
      Step s ⟨granted, s.queue ++ sent, s.held⟩
  /-- After a withdrawal the other party no longer counts on the grant. -/
  | hear {s : State} {notice : Notice} {rest : List Notice} (hqueue : s.queue = notice :: rest) (held : Bool)
      (hheard : notice = .withdraw → held = false) : Step s ⟨s.granted, rest, held⟩
  | release {s : State} (held : Bool) (hheld : held = true → s.held = true) : Step s ⟨s.granted, s.queue, held⟩

/-- Nothing is granted and nothing is on its way. -/
def system : System State where
  init s := s = ⟨false, [], false⟩
  step := Step

/-- Without a grant, its end is the last thing on the way, or has been heard. -/
def Told (s : State) : Prop :=
  s.granted = true ∨ s.queue.getLast? = some .withdraw ∨ (s.queue = [] ∧ s.held = false)

theorem Told.step {s t : State} (h : Told s) (hstep : Step s t) : Told t := by
  cases hstep with
  | decide granted sent htold =>
    rcases htold with hgranted | hlast | ⟨hsent, hnone⟩
    · exact .inl hgranted
    · refine .inr (.inl ?_)
      show (s.queue ++ sent).getLast? = some .withdraw
      rw [List.getLast?_append, hlast]
      rfl
    · rcases h with hgranted | h
      · rw [hnone] at hgranted
        cases hgranted
      · rw [hsent, List.append_nil]
        exact .inr h
  | @hear notice rest hqueue held hheard =>
    rcases h with hgranted | hlast | ⟨hnone, _⟩
    · exact .inl hgranted
    · rw [hqueue] at hlast
      cases rest with
      | nil =>
        have hwithdraw : notice = .withdraw := Option.some.inj hlast
        exact .inr (.inr ⟨rfl, hheard hwithdraw⟩)
      | cons next rest =>
        rw [List.getLast?_cons_cons] at hlast
        exact .inr (.inl hlast)
    · rw [hqueue] at hnone
      cases hnone
  | release held hheld =>
    rcases h with hgranted | hlast | ⟨hnone, hfree⟩
    · exact .inl hgranted
    · exact .inr (.inl hlast)
    · refine .inr (.inr ⟨hnone, ?_⟩)
      cases held with
      | false => rfl
      | true => exact absurd (hheld rfl) (by rw [hfree]; exact Bool.false_ne_true)

theorem told_of_reachable {s : State} (h : system.Reachable s) : Told s := by
  apply h.invariant
  · intro s hinit
    rw [show s = ⟨false, [], false⟩ from hinit]
    exact .inr (.inr ⟨rfl, rfl⟩)
  · intro s t _ htold hstep
    exact htold.step hstep

theorem granted_or_withdraw_mem {s : State} (h : system.Reachable s) (hheld : s.held = true) :
    s.granted = true ∨ .withdraw ∈ s.queue := by
  rcases told_of_reachable h with hgranted | hlast | ⟨_, hfree⟩
  · exact .inl hgranted
  · exact .inr (List.mem_of_getLast? hlast)
  · rw [hfree] at hheld
    cases hheld

end Notices
