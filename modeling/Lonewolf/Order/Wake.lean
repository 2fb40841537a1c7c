import Lonewolf.Order.Lines

/-!
# Who may be woken

A waiting ticket is blocked by an earlier waiting one that it conflicts with. The queues, the barrier set and the
waiting map agree on who that is, up to the ids a release in progress has not yet taken out of their queues; then the
test of `wake_if_first` says exactly that a ticket is not blocked.
-/

namespace Lonewolf.Order

open SortedTables SortedTable

namespace Lines

variable {α : Type} [LinearOrder α]

/-- Two waiting tickets that share an account, or one of which is a barrier. -/
def Conflict (lines : Lines α) (i j : Nat) : Prop :=
  ∃ wi wj, lines.waiting.get? i = some wi ∧ lines.waiting.get? j = some wj ∧
    (i ∈ lines.globals.keys ∨ j ∈ lines.globals.keys ∨ ∃ a ∈ wi.accounts, a ∈ wj.accounts)

/-- An earlier waiting ticket conflicts with this one. -/
def Blocked (lines : Lines α) (j : Nat) : Prop := ∃ i < j, lines.Conflict i j

/-- The queues hold the waiting tickets of each account in order, and besides them the id `gone` in the
queues of the accounts `stale`, which a release of `gone` has not reached yet. -/
structure Shaped (lines : Lines α) (gone : Nat) (stale : α → Prop) : Prop where
  below_next : ∀ id ∈ lines.waiting.keys, id < lines.next
  gone_not_waiting : (∃ a, stale a) → lines.waiting.get? gone = none
  queue_ne_nil : ∀ a, lines.queues.get? a ≠ some []
  queue_sorted : ∀ a q, lines.queues.get? a = some q → q.Pairwise (· ≤ ·)
  mem_queue : ∀ a id, (∃ q, lines.queues.get? a = some q ∧ id ∈ q) ↔
    (∃ w, lines.waiting.get? id = some w ∧ a ∈ w.accounts) ∨ (id = gone ∧ stale a)
  global_waiting : ∀ id ∈ lines.globals.keys, ∃ w, lines.waiting.get? id = some w ∧ w.accounts = []

variable {id : Nat}

private theorem head?_eq_some_iff {q : List Nat} (hq : q.Pairwise (· ≤ ·)) :
    q.head? = some id ↔ id ∈ q ∧ ∀ j ∈ q, id ≤ j := by
  cases q with
  | nil => simp
  | cons head tail =>
    have hhead := (List.pairwise_cons.mp hq).1
    simp only [List.head?_cons, Option.some.injEq, List.mem_cons, forall_eq_or_imp]
    constructor
    · rintro rfl
      exact ⟨.inl rfl, le_rfl, hhead⟩
    · rintro ⟨rfl | hmem, hle, _⟩
      · rfl
      · exact le_antisymm (hhead id hmem) hle

variable {lines : Lines α} {gone : Nat} {stale : α → Prop}

theorem Shaped.front_eq_some (h : lines.Shaped gone stale) {a : α} :
    lines.front a = some id ↔ (∃ q, lines.queues.get? a = some q ∧ id ∈ q) ∧
      ∀ j, (∃ q, lines.queues.get? a = some q ∧ j ∈ q) → id ≤ j := by
  rw [front]
  cases hq : lines.queues.get? a with
  | none => simp
  | some q => simp [head?_eq_some_iff (h.queue_sorted a q hq)]

theorem Shaped.front_eq_self (h : lines.Shaped gone stale) {a : α} {w : Waiting α}
    (hw : lines.waiting.get? id = some w) (ha : a ∈ w.accounts) :
    lines.front a = some id ↔
      (∀ j < id, ∀ wj, lines.waiting.get? j = some wj → a ∉ wj.accounts) ∧ (stale a → id < gone) := by
  rw [h.front_eq_some]
  simp only [h.mem_queue]
  constructor
  · rintro ⟨_, hle⟩
    refine ⟨fun j hj wj hwj haj => ?_, fun hstale => ?_⟩
    · exact absurd (hle j (.inl ⟨wj, hwj, haj⟩)) (by omega)
    · have hgone := h.gone_not_waiting ⟨a, hstale⟩
      have hne : id ≠ gone := by
        rintro rfl
        simp [hgone] at hw
      have := hle gone (.inr ⟨rfl, hstale⟩)
      omega
  · rintro ⟨hfirst, hstale⟩
    refine ⟨.inl ⟨w, hw, ha⟩, ?_⟩
    rintro j (⟨wj, hwj, haj⟩ | ⟨rfl, hs⟩)
    · by_contra hlt
      exact hfirst j (by omega) wj hwj haj
    · exact (hstale hs).le

theorem isFirst_iff_conditions {w : Waiting α} :
    lines.isFirst id w ↔ (∀ g ∈ lines.globals.keys, id ≤ g) ∧
      (id ∈ lines.globals.keys → lines.waiting.firstKey? = some id) ∧ ∀ a ∈ w.accounts, lines.front a = some id := by
  simp [isFirst, and_assoc, imp_iff_not_or]

/-- **The wake test is readiness**: a ticket is first everywhere when nothing blocks it and no stale id
stands before it in a queue of its own. -/
theorem Shaped.isFirst_iff (h : lines.Shaped gone stale) {w : Waiting α} (hw : lines.waiting.get? id = some w) :
    lines.isFirst id w ↔ ¬ lines.Blocked id ∧ ∀ a ∈ w.accounts, stale a → id < gone := by
  rw [isFirst_iff_conditions]
  constructor
  · rintro ⟨hglobals, hself, hfront⟩
    refine ⟨?_, fun a ha hs => ((h.front_eq_self hw ha).mp (hfront a ha)).2 hs⟩
    rintro ⟨i, hi, wi, wj, hwi, hwj, hconflict⟩
    obtain rfl : w = wj := Option.some.inj (hw.symm.trans hwj)
    rcases hconflict with hg | hg | ⟨a, hai, haj⟩
    · exact absurd (hglobals i hg) (by omega)
    · have hfirst := (firstKey?_eq_some.mp (hself hg)).2 i
        (mem_keys.mpr ⟨wi, hwi⟩)
      omega
    · exact ((h.front_eq_self hw haj).mp (hfront a haj)).1 i hi wi hwi hai
  · rintro ⟨hfree, hstale⟩
    refine ⟨fun g hg => ?_, fun hg => ?_, fun a ha => ?_⟩
    · by_contra hlt
      obtain ⟨wg, hwg, _⟩ := h.global_waiting g hg
      exact hfree ⟨g, by omega, wg, w, hwg, hw, .inl hg⟩
    · refine firstKey?_eq_some.mpr ⟨mem_keys.mpr ⟨w, hw⟩, fun j hj => ?_⟩
      obtain ⟨wj, hwj⟩ := mem_keys.mp hj
      by_contra hlt
      exact hfree ⟨j, by omega, wj, w, hwj, hw, .inr (.inl hg)⟩
    · refine (h.front_eq_self hw ha).mpr ⟨fun j hj wj hwj haj => ?_, hstale a ha⟩
      exact hfree ⟨j, hj, wj, w, hwj, hw, .inr (.inr ⟨a, haj, ha⟩)⟩

/-! ### Waking

Whatever is woken, the tickets keep their accounts and their barriers; senders are only ever taken, and
each one taken shows in the log once. -/

variable (lines : Lines α)

def Woken (j : Nat) : Prop := ∃ w, lines.waiting.get? j = some w ∧ w.ready = none

/-- `after` comes from `before` by changes to the queues and by waking tickets. -/
structure Wakes (before after : Lines α) : Prop where
  next_eq : after.next = before.next
  globals_eq : after.globals = before.globals
  accounts_eq : ∀ k, (after.waiting.get? k).map Waiting.accounts =
    (before.waiting.get? k).map Waiting.accounts
  woken_mono : ∀ j, before.Woken j → after.Woken j
  sent_eq : ∃ new, after.sent = before.sent ++ new ∧ new.Nodup ∧
    ∀ i, i ∈ new ↔ after.Woken i ∧ ¬ before.Woken i

theorem Wakes.refl : Wakes lines lines :=
  ⟨rfl, rfl, fun _ => rfl, fun _ h => h, [], by simp, List.nodup_nil, by simp⟩

theorem Wakes.trans {l l' l'' : Lines α} (h : Wakes l l') (h' : Wakes l' l'') : Wakes l l'' := by
  obtain ⟨new, hsent, hnodup, hnew⟩ := h.sent_eq
  obtain ⟨new', hsent', hnodup', hnew'⟩ := h'.sent_eq
  refine ⟨h'.next_eq.trans h.next_eq, h'.globals_eq.trans h.globals_eq,
    fun k => (h'.accounts_eq k).trans (h.accounts_eq k), fun j hj => h'.woken_mono j (h.woken_mono j hj),
    new ++ new', by rw [hsent', hsent, List.append_assoc], ?_, fun i => ?_⟩
  · refine List.nodup_append.mpr ⟨hnodup, hnodup', fun i hi j hj heq => ?_⟩
    subst heq
    exact ((hnew' i).mp hj).2 ((hnew i).mp hi).1
  · have hmono := h.woken_mono i
    have hmono' := h'.woken_mono i
    rw [List.mem_append, hnew, hnew']
    tauto

theorem Wakes.queues (queues : SortedTable α (List Nat)) : Wakes lines { lines with queues := queues } :=
  ⟨rfl, rfl, fun _ => rfl, fun _ h => h, [], by simp, List.nodup_nil, by simp [Woken]⟩

/-- What `wake_if_first` does: it takes the sender of a ticket that is first everywhere and still has
one, and leaves everything else as it is. -/
theorem wakeIfFirst_cases (id : Nat) :
    (lines.wakeIfFirst id = lines ∧
      ∀ w, lines.waiting.get? id = some w → lines.isFirst id w → w.ready = none) ∨
    (∃ w sender, lines.waiting.get? id = some w ∧ lines.isFirst id w ∧ w.ready = some sender ∧
      lines.wakeIfFirst id = { lines with
        waiting := lines.waiting.insert id { w with ready := none }
        sent := lines.sent ++ [id] }) := by
  cases hw : lines.waiting.get? id with
  | none => exact .inl ⟨by simp [wakeIfFirst, hw], by simp⟩
  | some w =>
    by_cases hfirst : lines.isFirst id w
    · cases hr : w.ready with
      | none => exact .inl ⟨by simp [wakeIfFirst, hw, hfirst, hr], by simp [hr]⟩
      | some sender =>
        exact .inr ⟨w, sender, rfl, hfirst, hr, by simp [wakeIfFirst, hw, hfirst, hr]⟩
    · exact .inl ⟨by simp [wakeIfFirst, hw, hfirst], by simp [hfirst]⟩

theorem wakeIfFirst_queues (id : Nat) : (lines.wakeIfFirst id).queues = lines.queues := by
  obtain ⟨heq, _⟩ | ⟨w, sender, _, _, _, heq⟩ := wakeIfFirst_cases lines id <;> rw [heq]

theorem woken_wakeIfFirst (id j : Nat) :
    (lines.wakeIfFirst id).Woken j ↔
      lines.Woken j ∨ (j = id ∧ ∃ w, lines.waiting.get? id = some w ∧ lines.isFirst id w) := by
  obtain ⟨heq, hready⟩ | ⟨w, sender, hw, hfirst, hr, heq⟩ := wakeIfFirst_cases lines id
  · rw [heq]
    refine ⟨.inl, ?_⟩
    rintro (h | ⟨rfl, w, hw, hfirst⟩)
    · exact h
    · exact ⟨w, hw, hready w hw hfirst⟩
  · rw [heq]
    by_cases hj : j = id
    · simp [Woken, hj, hw, hfirst]
    · simp [Woken, get?_insert_ne _ _ hj, hj]

theorem wakes_wakeIfFirst (id : Nat) : Wakes lines (lines.wakeIfFirst id) := by
  have hwoken := woken_wakeIfFirst lines id
  obtain ⟨heq, _⟩ | ⟨w, sender, hw, hfirst, hr, heq⟩ := wakeIfFirst_cases lines id
  · rw [heq]
    exact .refl lines
  · have hasleep : ¬ lines.Woken id := by
      rintro ⟨w', hw', hr'⟩
      obtain rfl : w = w' := Option.some.inj (hw.symm.trans hw')
      simp [hr] at hr'
    refine ⟨by rw [heq], by rw [heq], fun k => ?_, fun j hj => (hwoken j).mpr (.inl hj), [id],
      by rw [heq], List.nodup_singleton id, fun i => ?_⟩
    · by_cases hk : k = id
      · subst hk
        simp [heq, hw]
      · rw [heq]
        simp [get?_insert_ne _ _ hk]
    · rw [hwoken, List.mem_singleton]
      constructor
      · rintro rfl
        exact ⟨.inr ⟨rfl, w, hw, hfirst⟩, hasleep⟩
      · rintro ⟨h | ⟨h, _⟩, hn⟩
        · exact absurd h hn
        · exact h

section Wakes

variable {before after : Lines α}

section

variable (h : Wakes before after)
include h

theorem Wakes.exists_accounts (k : Nat) (p : List α → Prop) :
    (∃ w, after.waiting.get? k = some w ∧ p w.accounts) ↔ ∃ w, before.waiting.get? k = some w ∧ p w.accounts := by
  have heq := h.accounts_eq k
  cases ha : after.waiting.get? k <;> cases hb : before.waiting.get? k <;> simp_all

theorem Wakes.mem_keys (k : Nat) : k ∈ after.waiting.keys ↔ k ∈ before.waiting.keys := by
  have := h.exists_accounts k fun _ => True
  simpa only [SortedTable.mem_keys, and_true] using this

theorem Wakes.get?_eq_none (k : Nat) : after.waiting.get? k = none ↔ before.waiting.get? k = none := by
  rw [SortedTable.get?_eq_none, SortedTable.get?_eq_none, h.mem_keys]

theorem Wakes.conflict_iff (i j : Nat) : after.Conflict i j ↔ before.Conflict i j := by
  have hi := h.accounts_eq i
  have hj := h.accounts_eq j
  unfold Conflict
  rw [h.globals_eq]
  cases hai : after.waiting.get? i <;> cases hbi : before.waiting.get? i <;>
    cases haj : after.waiting.get? j <;> cases hbj : before.waiting.get? j <;> simp_all

theorem Wakes.blocked_iff (j : Nat) : after.Blocked j ↔ before.Blocked j := by
  simp only [Blocked, h.conflict_iff]

end

theorem Shaped.of_wakes (hs : before.Shaped gone stale) (h : Wakes before after)
    (hqueues : after.queues = before.queues) : after.Shaped gone stale where
  below_next id hid := by
    rw [h.next_eq]
    exact hs.below_next id ((h.mem_keys id).mp hid)
  gone_not_waiting hex := (h.get?_eq_none gone).mpr (hs.gone_not_waiting hex)
  queue_ne_nil a := by rw [hqueues]; exact hs.queue_ne_nil a
  queue_sorted a q hq := hs.queue_sorted a q (by rw [← hqueues]; exact hq)
  mem_queue a id := by
    rw [hqueues, hs.mem_queue, h.exists_accounts id fun accounts => a ∈ accounts]
  global_waiting id hid := by
    rw [h.globals_eq] at hid
    exact (h.exists_accounts id fun accounts => accounts = []).mpr (hs.global_waiting id hid)

end Wakes

end Lines

end Lonewolf.Order
