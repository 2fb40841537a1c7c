import Lonewolf.Order.Wake

/-!
# Giving back a ticket

Between operations the lines are settled: the queues agree with the waiting tickets, and a ticket has been woken
exactly when nothing blocks it. A release passes through states in which the released id still stands in some queues;
there a ticket that has become free is woken already, or shares an account still to be visited.
-/

namespace Lonewolf.Order

open SortedTables SortedTable

namespace Lines

variable {α : Type} [LinearOrder α]

/-- What holds of the lines whenever their lock is free. -/
structure Settled (lines : Lines α) : Prop where
  shaped : lines.Shaped 0 fun _ => False
  woken_iff : ∀ j ∈ lines.waiting.keys, (lines.Woken j ↔ ¬ lines.Blocked j)

theorem settled_empty : Settled ({} : Lines α) where
  shaped := ⟨by simp [keys], by simp, by simp, by simp, by simp, by simp [keys]⟩
  woken_iff := by simp [keys]

theorem Woken.mem_keys {lines : Lines α} {j : Nat} (h : lines.Woken j) : j ∈ lines.waiting.keys := by
  obtain ⟨w, hw, _⟩ := h
  exact SortedTable.mem_keys.mpr ⟨w, hw⟩

theorem Shaped.congr_stale {lines : Lines α} {gone gone' : Nat} {stale stale' : α → Prop}
    (h : lines.Shaped gone stale) (hstale : ∀ a, ¬ stale a) (hstale' : ∀ a, ¬ stale' a) :
    lines.Shaped gone' stale' where
  below_next := h.below_next
  gone_not_waiting := fun ⟨a, ha⟩ => absurd ha (hstale' a)
  queue_ne_nil := h.queue_ne_nil
  queue_sorted := h.queue_sorted
  mem_queue a id := by
    rw [h.mem_queue]
    simp [hstale, hstale']
  global_waiting := h.global_waiting

/-- A release of `gone` that has still to visit the accounts `stale`. -/
structure Releasing (lines : Lines α) (gone : Nat) (stale : α → Prop) : Prop where
  shaped : lines.Shaped gone stale
  not_waiting : lines.waiting.get? gone = none
  not_blocked : ∀ j, lines.Woken j → ¬ lines.Blocked j
  woken_or_stale : ∀ j w, lines.waiting.get? j = some w → ¬ lines.Blocked j →
    j ∉ lines.globals.keys → lines.Woken j ∨ ∃ a ∈ w.accounts, stale a

variable {lines : Lines α} {gone : Nat} {stale : α → Prop}

variable {q : List Nat} {a : α}

theorem Shaped.leave (h : lines.Shaped gone stale) (hgone : lines.waiting.get? gone = none)
    (hq : lines.queues.get? a = some q) {queues : SortedTable α (List Nat)}
    (hself : queues.get? a = if q.filter (· ≠ gone) = [] then none else some (q.filter (· ≠ gone)))
    (hother : ∀ b, b ≠ a → queues.get? b = lines.queues.get? b) :
    { lines with queues := queues }.Shaped gone fun b => stale b ∧ b ≠ a where
  below_next := h.below_next
  gone_not_waiting := fun ⟨b, hb, _⟩ => h.gone_not_waiting ⟨b, hb⟩
  queue_ne_nil b := by
    by_cases hb : b = a
    · subst hb
      show queues.get? b ≠ some []
      rw [hself]
      split <;> simp_all
    · exact (hother b hb).symm ▸ h.queue_ne_nil b
  queue_sorted b q' hq' := by
    by_cases hb : b = a
    · subst hb
      rw [show queues.get? b = _ from hself] at hq'
      split at hq' <;> cases hq'
      exact (h.queue_sorted b q hq).filter _
    · exact h.queue_sorted b q' ((hother b hb) ▸ hq')
  mem_queue b id := by
    show (∃ q', queues.get? b = some q' ∧ id ∈ q') ↔ _
    by_cases hb : b = a
    · subst hb
      have hmem : (∃ q', queues.get? b = some q' ∧ id ∈ q') ↔ id ∈ q ∧ id ≠ gone := by
        rw [hself]
        split
        · rename_i hnil
          simp only [List.filter_eq_nil_iff, decide_eq_true_eq, not_not] at hnil
          simp only [reduceCtorEq, false_and, exists_false, false_iff, not_and, not_not]
          exact hnil id
        · simp
      have hold := h.mem_queue b id
      rw [hq] at hold
      simp only [Option.some.injEq, exists_eq_left'] at hold
      rw [hmem, hold]
      simp only [ne_eq, not_true_eq_false, and_false, or_false]
      constructor
      · rintro ⟨hw | ⟨rfl, _⟩, hne⟩
        · exact hw
        · exact absurd rfl hne
      · rintro ⟨w, hw, hb⟩
        refine ⟨.inl ⟨w, hw, hb⟩, ?_⟩
        rintro rfl
        simp [hgone] at hw
    · rw [hother b hb, h.mem_queue]
      simp [hb]
  global_waiting := h.global_waiting

theorem Shaped.leave_absent (h : lines.Shaped gone stale)
    (hq : lines.queues.get? a = none) : lines.Shaped gone fun b => stale b ∧ b ≠ a where
  below_next := h.below_next
  gone_not_waiting := fun ⟨b, hb, _⟩ => h.gone_not_waiting ⟨b, hb⟩
  queue_ne_nil := h.queue_ne_nil
  queue_sorted := h.queue_sorted
  mem_queue b id := by
    have hold := h.mem_queue b id
    by_cases hb : b = a
    · subst hb
      simp only [hq, reduceCtorEq, false_and, exists_false, false_iff, not_or] at hold
      simp [hq, hold.1]
    · simp [hold, hb]
  global_waiting := h.global_waiting

variable {w : Waiting α}

section

variable (h : lines.Releasing gone stale)
include h

theorem Releasing.woken_or_left (hq : lines.queues.get? a = some q) {j : Nat} (hw : lines.waiting.get? j = some w)
    (hfree : ¬ lines.Blocked j) (hglobal : j ∉ lines.globals.keys) :
    (lines.Woken j ∨ ∃ b ∈ w.accounts, stale b ∧ b ≠ a) ∨ (a ∈ w.accounts ∧ j ∈ q.filter (· ≠ gone)) := by
  rcases h.woken_or_stale j w hw hfree hglobal with hwoken | ⟨b, hb, hs⟩
  · exact .inl (.inl hwoken)
  · by_cases hba : b = a
    · subst hba
      have hmem := (h.shaped.mem_queue b j).mpr (.inl ⟨w, hw, hb⟩)
      rw [hq] at hmem
      simp only [Option.some.injEq, exists_eq_left'] at hmem
      have hne : j ≠ gone := by
        rintro rfl
        simp [h.not_waiting] at hw
      exact .inr ⟨hb, List.mem_filter.mpr ⟨hmem, by simpa using hne⟩⟩
    · exact .inl (.inr ⟨b, hb, hs, hba⟩)

private theorem Releasing.leave_absent
    (hq : lines.queues.get? a = none) : lines.Releasing gone fun b => stale b ∧ b ≠ a where
  shaped := h.shaped.leave_absent hq
  not_waiting := h.not_waiting
  not_blocked := h.not_blocked
  woken_or_stale j w hw hfree hglobal := by
    have hstale : ¬ stale a := fun hs => by
      simpa [hq] using (h.shaped.mem_queue a gone).mpr (.inr ⟨rfl, hs⟩)
    refine (h.woken_or_stale j w hw hfree hglobal).imp_right ?_
    rintro ⟨b, hb, hs⟩
    exact ⟨b, hb, hs, fun heq => hstale (heq ▸ hs)⟩

private theorem Releasing.leave_last (hq : lines.queues.get? a = some q) (hnil : q.filter (· ≠ gone) = []) :
    { lines with queues := lines.queues.erase a }.Releasing gone fun b => stale b ∧ b ≠ a where
  shaped := h.shaped.leave h.not_waiting hq (by rw [if_pos hnil, get?_erase_self])
    fun b hb => get?_erase_ne _ hb
  not_waiting := h.not_waiting
  not_blocked j hj hb := h.not_blocked j hj (((Wakes.queues lines _).blocked_iff j).mp hb)
  woken_or_stale j w hw hfree hglobal := by
    have hfree' : ¬ lines.Blocked j := fun hb => hfree (((Wakes.queues lines _).blocked_iff j).mpr hb)
    rcases h.woken_or_left hq hw hfree' hglobal with hj | ⟨_, hj⟩
    · exact hj
    · rw [hnil] at hj
      simp at hj

private theorem Releasing.leave_head (hq : lines.queues.get? a = some q) {head : Nat}
    (hhead : (q.filter (· ≠ gone)).head? = some head) :
    ({ lines with queues := lines.queues.insert a (q.filter (· ≠ gone)) }.wakeIfFirst head).Releasing
      gone fun b => stale b ∧ b ≠ a := by
  have hne : q.filter (· ≠ gone) ≠ [] := fun hnil => by
    rw [hnil] at hhead
    simp at hhead
  have hqueue := Wakes.queues lines (lines.queues.insert a (q.filter (· ≠ gone)))
  set mid : Lines α := { lines with queues := lines.queues.insert a (q.filter (· ≠ gone)) } with hmid
  have hshaped : mid.Shaped gone fun b => stale b ∧ b ≠ a :=
    h.shaped.leave h.not_waiting hq (by rw [if_neg hne, get?_insert_self])
      fun b hb => get?_insert_ne _ _ hb
  have hwake := wakes_wakeIfFirst mid head
  have hwoken := woken_wakeIfFirst mid head
  refine ⟨hshaped.of_wakes hwake (wakeIfFirst_queues mid head),
    ((hqueue.trans hwake).get?_eq_none gone).mpr h.not_waiting, fun j hj => ?_,
    fun j w hw hfree hglobal => ?_⟩
  · rw [hwake.blocked_iff]
    rcases (hwoken j).mp hj with hold | ⟨rfl, w, hw, hfirst⟩
    · exact fun hb => h.not_blocked j hold ((hqueue.blocked_iff j).mp hb)
    · exact ((hshaped.isFirst_iff hw).mp hfirst).1
  · have hfree' : ¬ lines.Blocked j := fun hb =>
      hfree (((hqueue.trans hwake).blocked_iff j).mpr hb)
    rw [hwake.globals_eq] at hglobal
    obtain ⟨w', hw', hacc⟩ := (hwake.exists_accounts j (· = w.accounts)).mp ⟨w, hw, rfl⟩
    rw [← hacc]
    rcases h.woken_or_left hq hw' hfree' hglobal with (hj | hj) | ⟨ha, hj⟩
    · exact .inl (hwake.woken_mono j hj)
    · exact .inr hj
    · by_cases hstale : ∃ b ∈ w'.accounts, stale b ∧ b ≠ a
      · exact .inr hstale
      · -- The head of the queue conflicts with every later ticket in it, so a free one is the head.
        have hfront : mid.front a = some head := by
          rw [front, get?_insert_self, Option.bind_some, hhead]
        obtain ⟨hmem, hmin⟩ := hshaped.front_eq_some.mp hfront
        have hle := hmin j ⟨_, get?_insert_self _ _ _, hj⟩
        obtain ⟨wh, hwh, hah⟩ : ∃ wh, mid.waiting.get? head = some wh ∧ a ∈ wh.accounts := by
          rcases (hshaped.mem_queue a head).mp hmem with hw | ⟨_, _, hne⟩
          · exact hw
          · exact absurd rfl hne
        obtain rfl : head = j := by
          by_contra hlt
          exact hfree' ⟨head, by omega, wh, w', hwh, hw', .inr (.inr ⟨a, hah, ha⟩)⟩
        have hfirst : mid.isFirst head w' := (hshaped.isFirst_iff hw').mpr
          ⟨fun hb => hfree' ((hqueue.blocked_iff head).mp hb), fun b hb hs => absurd ⟨b, hb, hs⟩ hstale⟩
        exact .inl ((hwoken head).mpr (.inr ⟨rfl, w', hw', hfirst⟩))

theorem Releasing.leaveQueue (a : α) :
    (lines.leaveQueue gone a).Releasing gone (fun b => stale b ∧ b ≠ a) ∧ Wakes lines (lines.leaveQueue gone a) := by
  cases hq : lines.queues.get? a with
  | none =>
    rw [show lines.leaveQueue gone a = lines by simp [Lines.leaveQueue, hq]]
    exact ⟨h.leave_absent hq, .refl lines⟩
  | some q =>
    cases hhead : (q.filter (· ≠ gone)).head? with
    | none =>
      rw [show lines.leaveQueue gone a = { lines with queues := lines.queues.erase a } by
        simp only [Lines.leaveQueue, hq, hhead]]
      exact ⟨h.leave_last hq (List.head?_eq_none_iff.mp hhead), .queues lines _⟩
    | some head =>
      rw [show lines.leaveQueue gone a =
          { lines with queues := lines.queues.insert a (q.filter (· ≠ gone)) }.wakeIfFirst head by
        simp only [Lines.leaveQueue, hq, hhead]]
      exact ⟨h.leave_head hq hhead, (Wakes.queues lines _).trans (wakes_wakeIfFirst _ head)⟩

end

theorem Releasing.leaveQueues (accounts : List α) (h : lines.Releasing gone stale)
    (hstale : ∀ a, stale a → a ∈ accounts) :
    (accounts.foldl (Lines.leaveQueue gone) lines).Releasing gone (fun _ => False) ∧
      Wakes lines (accounts.foldl (Lines.leaveQueue gone) lines) := by
  induction accounts generalizing lines stale with
  | nil =>
    have hnone : stale = fun _ => False := by
      funext a
      simpa using fun hs => (hstale a hs)
    exact ⟨hnone ▸ h, .refl lines⟩
  | cons a rest ih =>
    obtain ⟨hnext, hwakes⟩ := h.leaveQueue a
    obtain ⟨hend, hwakes'⟩ := ih hnext fun b ⟨hs, hne⟩ =>
      (List.mem_cons.mp (hstale b hs)).resolve_left hne
    exact ⟨hend, hwakes.trans hwakes'⟩

/-- The tickets a cursor has still to visit. -/
private def ahead (after : Option Nat) (j : Nat) : Bool := after.all (· < j)

private theorem nextWaiting_eq (lines : Lines α) (after : Option Nat) :
    lines.nextWaiting after = (lines.waiting.keys.filter (ahead after)).head? := by
  cases after with
  | none =>
    have hall : lines.waiting.keys.filter (ahead none) = lines.waiting.keys :=
      List.filter_eq_self.mpr fun _ _ => rfl
    rw [nextWaiting, firstKey?, hall]
  | some last => rfl

theorem wakeFrom_eq_foldl (fuel : Nat) (after : Option Nat) (lines : Lines α)
    (hfuel : (lines.waiting.keys.filter (ahead after)).length ≤ fuel) :
    lines.wakeFrom fuel after = (lines.waiting.keys.filter (ahead after)).foldl wakeIfFirst lines := by
  induction fuel generalizing lines after with
  | zero => rw [List.length_eq_zero_iff.mp (Nat.le_zero.mp hfuel), wakeFrom, List.foldl_nil]
  | succ fuel ih =>
    rw [wakeFrom, nextWaiting_eq]
    cases hrest : lines.waiting.keys.filter (ahead after) with
    | nil => rfl
    | cons next rest =>
      have hsorted := hrest ▸ lines.waiting.keys_sorted.filter (ahead after)
      have hnext : ahead after next := (List.mem_filter.mp (hrest ▸ List.mem_cons_self)).2
      -- What lies ahead of the next ticket is the rest of what lay ahead of this one.
      have htail : lines.waiting.keys.filter (ahead (some next)) = rest := by
        have hsplit : lines.waiting.keys.filter (ahead (some next)) =
            (lines.waiting.keys.filter (ahead after)).filter (ahead (some next)) := by
          rw [List.filter_filter]
          refine List.filter_congr fun j _ => ?_
          cases after with
          | none => simp [ahead]
          | some last =>
            simp only [ahead, Option.all_some, decide_eq_true_eq] at hnext ⊢
            rw [Bool.eq_iff_iff, Bool.and_eq_true, decide_eq_true_eq, decide_eq_true_eq]
            omega
        rw [hsplit, hrest, List.filter_cons_of_neg (by simp [ahead])]
        exact List.filter_eq_self.mpr fun j hj => by
          simpa [ahead] using (List.pairwise_cons.mp hsorted).1 j hj
      have hkeys : (lines.wakeIfFirst next).waiting.keys = lines.waiting.keys :=
        keys_ext (wakes_wakeIfFirst lines next).mem_keys
      simp only [List.head?_cons, List.foldl_cons]
      rw [ih (some next) (lines.wakeIfFirst next), hkeys, htail]
      rw [hkeys, htail]
      simpa [hrest] using hfuel

theorem Shaped.wakeAll (ids : List Nat) (h : lines.Shaped gone fun _ => False) :
    Wakes lines (ids.foldl wakeIfFirst lines) ∧
      (ids.foldl wakeIfFirst lines).queues = lines.queues ∧
      ∀ j, (ids.foldl wakeIfFirst lines).Woken j ↔
        lines.Woken j ∨ (j ∈ ids ∧ j ∈ lines.waiting.keys ∧ ¬ lines.Blocked j) := by
  induction ids generalizing lines with
  | nil => exact ⟨.refl lines, rfl, by simp⟩
  | cons id ids ih =>
    have hwake := wakes_wakeIfFirst lines id
    have hqueues := wakeIfFirst_queues lines id
    obtain ⟨hwakes, hqueues', hwoken⟩ := ih (h.of_wakes hwake hqueues)
    refine ⟨hwake.trans hwakes, hqueues'.trans hqueues, fun j => ?_⟩
    have hself : (∃ w, lines.waiting.get? id = some w ∧ lines.isFirst id w) ↔
        id ∈ lines.waiting.keys ∧ ¬ lines.Blocked id := by
      constructor
      · rintro ⟨w, hw, hfirst⟩
        exact ⟨mem_keys.mpr ⟨w, hw⟩, ((h.isFirst_iff hw).mp hfirst).1⟩
      · rintro ⟨hmem, hfree⟩
        obtain ⟨w, hw⟩ := mem_keys.mp hmem
        exact ⟨w, hw, (h.isFirst_iff hw).mpr ⟨hfree, fun _ _ => False.elim⟩⟩
    rw [List.foldl_cons, hwoken, woken_wakeIfFirst, hself, hwake.mem_keys, hwake.blocked_iff, List.mem_cons]
    constructor
    · rintro ((hj | ⟨rfl, hj⟩) | ⟨hmem, hj⟩)
      · exact .inl hj
      · exact .inr ⟨.inl rfl, hj⟩
      · exact .inr ⟨.inr hmem, hj⟩
    · rintro (hj | ⟨rfl | hmem, hj⟩)
      · exact .inl (.inl hj)
      · exact .inl (.inr ⟨rfl, hj⟩)
      · exact .inr ⟨hmem, hj⟩

/-- The lines a release starts its visits from: the ticket waits no more. -/
def without (lines : Lines α) (id : Nat) : Lines α :=
  { lines with waiting := lines.waiting.erase id, globals := lines.globals.erase id }

theorem mem_keys_erase {V : Type} {t : SortedTable Nat V} {i k : Nat} : k ∈ (t.erase i).keys ↔ k ≠ i ∧ k ∈ t.keys := by
  simp only [mem_keys, get?_erase]
  by_cases h : k = i <;> simp [h]

theorem get?_without_of_some {id j : Nat} (hw : (lines.without id).waiting.get? j = some w) :
    j ≠ id ∧ lines.waiting.get? j = some w := by
  have hne : j ≠ id := by
    rintro rfl
    simp [without] at hw
  exact ⟨hne, by rwa [without, get?_erase_ne _ hne] at hw⟩

theorem Conflict.of_without {id i j : Nat} (h : (lines.without id).Conflict i j) : lines.Conflict i j := by
  obtain ⟨wi, wj, hwi, hwj, hconflict⟩ := h
  refine ⟨wi, wj, (get?_without_of_some hwi).2, (get?_without_of_some hwj).2, ?_⟩
  simp only [without, mem_keys_erase] at hconflict
  rcases hconflict with hg | hg | hshare
  · exact .inl hg.2
  · exact .inr (.inl hg.2)
  · exact .inr (.inr hshare)

theorem conflict_without {id i j : Nat} (hi : i ≠ id) (hj : j ≠ id) :
    (lines.without id).Conflict i j ↔ lines.Conflict i j := by
  unfold Conflict without
  simp only [get?_erase_ne _ hi, get?_erase_ne _ hj, mem_keys_erase, hi, hj, ne_eq, not_false_eq_true, true_and]

theorem woken_without {id j : Nat} : (lines.without id).Woken j ↔ j ≠ id ∧ lines.Woken j := by
  simp only [Woken, without, get?_erase]
  by_cases h : j = id <;> simp [h]

variable {id : Nat}

theorem Shaped.without (h : lines.Shaped 0 fun _ => False) (hw : lines.waiting.get? id = some w) :
    (lines.without id).Shaped id fun a => a ∈ w.accounts where
  below_next j hj := h.below_next j (mem_keys_erase.mp hj).2
  gone_not_waiting _ := get?_erase_self _ _
  queue_ne_nil := h.queue_ne_nil
  queue_sorted := h.queue_sorted
  mem_queue a j := by
    have hold := h.mem_queue a j
    simp only [and_false, or_false] at hold
    show (∃ q, lines.queues.get? a = some q ∧ j ∈ q) ↔
      (∃ w', (lines.waiting.erase id).get? j = some w' ∧ a ∈ w'.accounts) ∨ _
    rw [hold]
    by_cases hj : j = id
    · subst hj
      simp [hw]
    · simp [get?_erase_ne _ hj, hj]
  global_waiting j hj := by
    obtain ⟨hne, hj⟩ := mem_keys_erase.mp hj
    simpa [Lines.without, get?_erase_ne _ hne] using h.global_waiting j hj

/-- The start of a release. A ticket that waited only for the released one shares an account with it,
unless one of the two is a barrier. -/
theorem Settled.releasing (h : lines.Settled)
    (hw : lines.waiting.get? id = some w) (hglobal : id ∉ lines.globals.keys) :
    (lines.without id).Releasing id fun a => a ∈ w.accounts where
  shaped := h.shaped.without hw
  not_waiting := get?_erase_self _ _
  not_blocked j hj hb := by
    obtain ⟨_, hwoken⟩ := woken_without.mp hj
    obtain ⟨i, hi, hconflict⟩ := hb
    exact (h.woken_iff j hwoken.mem_keys).mp hwoken ⟨i, hi, hconflict.of_without⟩
  woken_or_stale j wj hwj hfree hj := by
    obtain ⟨hne, hheld⟩ := get?_without_of_some hwj
    have hmem : j ∈ lines.waiting.keys := mem_keys.mpr ⟨wj, hheld⟩
    by_cases hblocked : lines.Blocked j
    · obtain ⟨i, hi, hconflict⟩ := hblocked
      obtain rfl : i = id := by
        by_contra hid
        exact hfree ⟨i, hi, (conflict_without hid hne).mpr hconflict⟩
      obtain ⟨wi, wj', hwi, hwj', hshare⟩ := hconflict
      obtain rfl : w = wi := Option.some.inj (hw.symm.trans hwi)
      obtain rfl : wj = wj' := Option.some.inj (hheld.symm.trans hwj')
      have hjg : j ∉ lines.globals.keys := fun hg => hj (mem_keys_erase.mpr ⟨hne, hg⟩)
      rcases hshare with hg | hg | ⟨a, hai, haj⟩
      · exact absurd hg hglobal
      · exact absurd hg hjg
      · exact .inr ⟨a, haj, hai⟩
    · exact .inl (woken_without.mpr ⟨hne, (h.woken_iff j hmem).mpr hblocked⟩)

private theorem length_keys_ahead (lines : Lines α) : lines.waiting.keys.filter (ahead none) = lines.waiting.keys :=
  List.filter_eq_self.mpr fun _ _ => rfl

private theorem Settled.release_global (h : lines.Settled) (hw : lines.waiting.get? id = some w)
    (hglobal : id ∈ lines.globals.keys) : (lines.release id).Settled ∧ Wakes (lines.without id) (lines.release id) := by
  have haccounts : w.accounts = [] := by
    obtain ⟨w', hw', hnil⟩ := h.shaped.global_waiting id hglobal
    rw [hw] at hw'
    cases hw'
    exact hnil
  have hshaped : (lines.without id).Shaped 0 fun _ => False :=
    (h.shaped.without hw).congr_stale (by simp [haccounts]) (by simp)
  have heq : lines.release id = (lines.without id).waiting.keys.foldl wakeIfFirst (lines.without id) := by
    rw [← length_keys_ahead, ← wakeFrom_eq_foldl (lines.without id).waiting.entries.length none]
    · simp [release, hw, haccounts, hglobal, without]
    · rw [length_keys_ahead, keys, List.length_map]
  obtain ⟨hwakes, hqueues, hwoken⟩ := hshaped.wakeAll (lines.without id).waiting.keys
  rw [heq]
  refine ⟨⟨hshaped.of_wakes hwakes hqueues, fun j hj => ?_⟩, hwakes⟩
  rw [hwoken, hwakes.blocked_iff]
  have hmem := (hwakes.mem_keys j).mp hj
  constructor
  · rintro (hold | ⟨_, _, hfree⟩)
    · obtain ⟨_, hold⟩ := woken_without.mp hold
      rintro ⟨i, hi, hconflict⟩
      exact (h.woken_iff j hold.mem_keys).mp hold ⟨i, hi, hconflict.of_without⟩
    · exact hfree
  · exact fun hfree => .inr ⟨hmem, hmem, hfree⟩

/-- Releasing an account ticket: the heads of its queues are woken, then the first barrier, which is
the only barrier that can have become free. -/
private theorem Settled.release_accounts (h : lines.Settled) (hw : lines.waiting.get? id = some w)
    (hglobal : id ∉ lines.globals.keys) : (lines.release id).Settled ∧ Wakes (lines.without id) (lines.release id) := by
  obtain ⟨hend, hwakes⟩ := (h.releasing hw hglobal).leaveQueues w.accounts fun a ha => ha
  set left := w.accounts.foldl (Lines.leaveQueue id) (lines.without id) with hleft
  have hrelease : lines.release id = left.wakeFirstGlobal := by
    simp [Lines.release, hw, hglobal, hleft, Lines.without]
  have hshaped : left.Shaped 0 fun _ => False := hend.shaped.congr_stale (by simp) (by simp)
  have hfreeAccounts : ∀ j ∈ left.waiting.keys, j ∉ left.globals.keys → ¬ left.Blocked j → left.Woken j := by
    intro j hj hjg hfree
    obtain ⟨wj, hwj⟩ := mem_keys.mp hj
    exact (hend.woken_or_stale j wj hwj hfree hjg).resolve_right (by simp)
  cases hfirst : left.globals.firstKey? with
  | none =>
    rw [hrelease, wakeFirstGlobal, hfirst]
    refine ⟨⟨hshaped, fun j hj => ⟨hend.not_blocked j, hfreeAccounts j hj ?_⟩⟩, hwakes⟩
    rw [firstKey?_eq_none.mp hfirst]
    simp [keys]
  | some next =>
    obtain ⟨hnext, hmin⟩ := firstKey?_eq_some.mp hfirst
    obtain ⟨hwake, hqueues, hwoken⟩ := hshaped.wakeAll [next]
    rw [hrelease, wakeFirstGlobal, hfirst]
    refine ⟨⟨hshaped.of_wakes hwake hqueues, fun j hj => ?_⟩, hwakes.trans hwake⟩
    show (List.foldl wakeIfFirst left [next]).Woken j ↔ ¬ (List.foldl wakeIfFirst left [next]).Blocked j
    have hmem := (hwake.mem_keys j).mp hj
    rw [hwoken, hwake.blocked_iff, List.mem_singleton]
    constructor
    · rintro (hold | ⟨_, _, hfree⟩)
      · exact hend.not_blocked j hold
      · exact hfree
    · intro hfree
      by_cases hjg : j ∈ left.globals.keys
      · refine .inr ⟨?_, hmem, hfree⟩
        by_contra hne
        have hlt : next < j := lt_of_le_of_ne (hmin j hjg) (Ne.symm hne)
        obtain ⟨wn, hwn, _⟩ := hshaped.global_waiting next hnext
        obtain ⟨wj, hwj⟩ := mem_keys.mp hmem
        exact hfree ⟨next, hlt, wn, wj, hwn, hwj, .inl hnext⟩
      · exact .inl (hfreeAccounts j hmem hjg hfree)

theorem Settled.release (h : lines.Settled) (hid : id ∈ lines.waiting.keys) :
    (lines.release id).Settled ∧ Wakes (lines.without id) (lines.release id) := by
  obtain ⟨w, hw⟩ := mem_keys.mp hid
  by_cases hglobal : id ∈ lines.globals.keys
  · exact h.release_global hw hglobal
  · exact h.release_accounts hw hglobal

end Lines

end Lonewolf.Order
