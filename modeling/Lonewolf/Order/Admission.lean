import Lonewolf.Order.Release

/-!
# Taking a ticket

`Order::admit` puts the new id at the end of each queue it names and asks once whether it is first. Its
id is above every id in the queues, so the queues stay in order and no earlier ticket is affected.
-/

namespace Lonewolf.Order

open SortedTables SortedTable

namespace Lines

variable {α : Type} [LinearOrder α] {lines : Lines α} {gone : Nat} (accounts : List α) (global : Bool)

/-- The lines with a new ticket in place, before it is asked whether it is first. -/
def entered (lines : Lines α) (accounts : List α) (global : Bool) : Lines α :=
  { lines with
    next := lines.next + 1
    globals := if global then lines.globals.insert lines.next () else lines.globals
    queues := (accounts.foldl (pushBack · lines.next) lines).queues
    waiting := lines.waiting.insert lines.next ⟨accounts, some {}⟩ }

theorem foldl_pushBack_eq (lines : Lines α) (id : Nat) :
    accounts.foldl (pushBack · id) lines = { lines with queues := (accounts.foldl (pushBack · id) lines).queues } := by
  induction accounts generalizing lines with
  | nil => rfl
  | cons a rest ih =>
    rw [List.foldl_cons, ih]
    rfl

theorem queues_foldl_pushBack_congr {l l' : Lines α} (id : Nat) (h : l.queues = l'.queues) :
    (accounts.foldl (pushBack · id) l).queues = (accounts.foldl (pushBack · id) l').queues := by
  induction accounts generalizing l l' with
  | nil => exact h
  | cons a rest ih => exact ih (by simp only [pushBack, h])

theorem admitTicket_eq (lines : Lines α) (accounts : List α) (global : Bool) :
    lines.admitTicket accounts global = (lines.next, (lines.entered accounts global).wakeIfFirst lines.next) := by
  unfold admitTicket entered
  refine congrArg (Prod.mk lines.next) (congrArg (wakeIfFirst · lines.next) ?_)
  rw [foldl_pushBack_eq]
  cases global
  · exact congrArg (fun queues => Lines.mk _ queues _ _ _) (queues_foldl_pushBack_congr accounts _ rfl)
  · exact congrArg (fun queues => Lines.mk _ queues _ _ _) (queues_foldl_pushBack_congr accounts _ rfl)

/-- Queues in order, with no id above `id`. -/
private structure Ordered (lines : Lines α) (id : Nat) : Prop where
  ne_nil : ∀ a, lines.queues.get? a ≠ some []
  sorted : ∀ a q, lines.queues.get? a = some q → q.Pairwise (· ≤ ·)
  le_id : ∀ a q, lines.queues.get? a = some q → ∀ j ∈ q, j ≤ id

private theorem get?_pushBack (lines : Lines α) (id : Nat) (a b : α) :
    (lines.pushBack id a).queues.get? b =
      if b = a then some ((lines.queues.get? a).getD [] ++ [id]) else lines.queues.get? b := by
  rw [pushBack, get?_insert]

private theorem Ordered.pushBack {id : Nat} (h : lines.Ordered id) (a : α) : (lines.pushBack id a).Ordered id := by
  -- The queue the push extends, empty when the account has none.
  have hle : ∀ j ∈ (lines.queues.get? a).getD [], j ≤ id := fun j hj => by
    cases hq : lines.queues.get? a with
    | none => simp [hq] at hj
    | some q => exact h.le_id a q hq j (by simpa [hq] using hj)
  have hsorted : ((lines.queues.get? a).getD []).Pairwise (· ≤ ·) := by
    cases hq : lines.queues.get? a with
    | none => simp
    | some q => simpa using h.sorted a q hq
  refine ⟨fun b => ?_, fun b q hq => ?_, fun b q hq => ?_⟩
  · rw [get?_pushBack]
    split
    · simp
    · exact h.ne_nil b
  · rw [get?_pushBack] at hq
    split at hq
    · cases hq
      exact List.pairwise_append.mpr ⟨hsorted, List.pairwise_singleton _ _, fun j hj k hk =>
        (List.mem_singleton.mp hk) ▸ hle j hj⟩
    · exact h.sorted b q hq
  · rw [get?_pushBack] at hq
    split at hq
    · cases hq
      intro j hj
      rcases List.mem_append.mp hj with hj | hj
      · exact hle j hj
      · exact (List.mem_singleton.mp hj).le
    · exact h.le_id b q hq

private theorem mem_queue_pushBack (lines : Lines α) (id : Nat) (a b : α) (j : Nat) :
    (∃ q, (lines.pushBack id a).queues.get? b = some q ∧ j ∈ q) ↔
      (∃ q, lines.queues.get? b = some q ∧ j ∈ q) ∨ (j = id ∧ b = a) := by
  rw [get?_pushBack]
  by_cases hb : b = a
  · subst hb
    cases hq : lines.queues.get? b <;> simp
  · simp [hb]

private theorem Ordered.foldl_pushBack {id : Nat} (h : lines.Ordered id) :
    (accounts.foldl (Lines.pushBack · id) lines).Ordered id ∧
      ∀ b j, (∃ q, (accounts.foldl (Lines.pushBack · id) lines).queues.get? b = some q ∧ j ∈ q) ↔
        (∃ q, lines.queues.get? b = some q ∧ j ∈ q) ∨ (j = id ∧ b ∈ accounts) := by
  induction accounts generalizing lines with
  | nil => exact ⟨h, by simp⟩
  | cons a rest ih =>
    obtain ⟨hend, hmem⟩ := ih (h.pushBack a)
    refine ⟨hend, fun b j => ?_⟩
    rw [List.foldl_cons, hmem, mem_queue_pushBack, List.mem_cons, or_assoc, ← and_or_left]

theorem Shaped.ordered (h : lines.Shaped 0 fun _ => False) : lines.Ordered lines.next where
  ne_nil := h.queue_ne_nil
  sorted := h.queue_sorted
  le_id a q hq j hj := by
    obtain ⟨w, hw, _⟩ := ((h.mem_queue a j).mp ⟨q, hq, hj⟩).resolve_right (by simp)
    exact (h.below_next j (mem_keys.mpr ⟨w, hw⟩)).le

theorem Shaped.next_not_waiting {stale : α → Prop} (h : lines.Shaped gone stale) :
    lines.waiting.get? lines.next = none := by
  rw [get?_eq_none]
  exact fun hmem => absurd (h.below_next _ hmem) (lt_irrefl _)

theorem get?_entered (j : Nat) :
    (lines.entered accounts global).waiting.get? j =
      if j = lines.next then some ⟨accounts, some {}⟩ else lines.waiting.get? j :=
  get?_insert _ _ _ _

theorem mem_globals_entered (j : Nat) :
    j ∈ (lines.entered accounts global).globals.keys ↔ (j = lines.next ∧ global) ∨ j ∈ lines.globals.keys := by
  cases global
  · simp [entered]
  · simp only [entered, if_true, mem_keys, get?_insert, and_true]
    by_cases hj : j = lines.next <;> simp [hj]

theorem Shaped.entered (h : lines.Shaped 0 fun _ => False) (accounts : List α) (global : Bool)
    (hbarrier : global → accounts = []) : (lines.entered accounts global).Shaped 0 fun _ => False := by
  obtain ⟨hordered, hmem⟩ := h.ordered.foldl_pushBack accounts
  refine ⟨fun j hj => ?_, by simp, hordered.ne_nil, hordered.sorted, fun a j => ?_, fun j hj => ?_⟩
  · obtain ⟨w, hw⟩ := mem_keys.mp hj
    rw [get?_entered] at hw
    show j < lines.next + 1
    split at hw
    · omega
    · exact Nat.lt_succ_of_lt (h.below_next j (mem_keys.mpr ⟨w, hw⟩))
  · refine (hmem a j).trans ?_
    rw [h.mem_queue, get?_entered]
    by_cases hj : j = lines.next
    · subst hj
      simp [h.next_not_waiting]
    · simp [hj]
  · rw [get?_entered]
    rcases (mem_globals_entered accounts global j).mp hj with ⟨rfl, hg⟩ | hg
    · simp [hbarrier hg]
    · obtain ⟨w, hw, hnil⟩ := h.global_waiting j hg
      have hne : j ≠ lines.next := by
        rintro rfl
        simp [h.next_not_waiting] at hw
      exact ⟨w, by rw [if_neg hne, hw], hnil⟩

theorem conflict_entered {i j : Nat} (hi : i ≠ lines.next) (hj : j ≠ lines.next) :
    (lines.entered accounts global).Conflict i j ↔ lines.Conflict i j := by
  simp only [Conflict, get?_entered, mem_globals_entered, hi, hj, if_false, false_and, false_or]

theorem woken_entered (j : Nat) : (lines.entered accounts global).Woken j ↔ j ≠ lines.next ∧ lines.Woken j := by
  simp only [Woken, get?_entered]
  by_cases hj : j = lines.next <;> simp [hj]

/-- **Admission leaves the lines settled**: the new ticket is woken exactly when it is free, and it
blocks no ticket before it. -/
theorem Settled.admitTicket (h : lines.Settled) (accounts : List α) (global : Bool)
    (hbarrier : global → accounts = []) :
    (lines.admitTicket accounts global).1 = lines.next ∧
      (lines.admitTicket accounts global).2.Settled ∧
      Wakes (lines.entered accounts global) (lines.admitTicket accounts global).2 := by
  rw [admitTicket_eq]
  have hshaped := h.shaped.entered accounts global hbarrier
  obtain ⟨hwakes, hqueues, hwoken⟩ := hshaped.wakeAll [lines.next]
  refine ⟨rfl, ⟨hshaped.of_wakes hwakes hqueues, fun j hj => ?_⟩, hwakes⟩
  show (List.foldl wakeIfFirst _ [lines.next]).Woken j ↔
    ¬ (List.foldl wakeIfFirst (lines.entered accounts global) [lines.next]).Blocked j
  have hmem := (hwakes.mem_keys j).mp hj
  rw [hwoken, hwakes.blocked_iff, List.mem_singleton, woken_entered]
  by_cases hnew : j = lines.next
  · simp [hnew, hnew ▸ hmem]
  · have hheld : j ∈ lines.waiting.keys := by
      obtain ⟨w, hw⟩ := mem_keys.mp hmem
      rw [get?_entered, if_neg hnew] at hw
      exact mem_keys.mpr ⟨w, hw⟩
    have hbelow := h.shaped.below_next j hheld
    have hblocked : (lines.entered accounts global).Blocked j ↔ lines.Blocked j :=
      exists_congr fun i => and_congr_right fun hi => conflict_entered accounts global (by omega) hnew
    simp [hnew, hblocked, h.woken_iff j hheld]

end Lines

end Lonewolf.Order
