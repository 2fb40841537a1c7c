import Lonewolf.Base.Transition
import Lonewolf.Order.Admission

/-!
# Delivery order

The whole of `Order`: tasks that call `fix` or `fix_all` take the `fixing` lock, fix a storage view or a commit while
they hold it, and are admitted before they let it go; any held ticket may be dropped at any time. A fix that fails,
or a caller that goes away, gives the lock back without a ticket, even when its commit has happened.

A run also remembers every ticket ever admitted, at which place in the order of fixes its view or commit was fixed,
and which tickets are still held.
-/

namespace Lonewolf.Order

open SortedTables SortedTable Transitions

/-- What a caller of `fix` or `fix_all` asks for. -/
inductive Request (α : Type) where
  | fix (accounts : List α)
  | fixAll
  deriving DecidableEq, Repr

namespace Request

variable {α : Type}

def accounts : Request α → List α
  | fix accounts => accounts
  | fixAll => []

def global : Request α → Bool
  | fix _ => false
  | fixAll => true

/-- Two requests conflict when they share an account or one of them is a barrier. -/
def Conflict (r r' : Request α) : Prop :=
  r.global ∨ r'.global ∨ ∃ a ∈ r.accounts, a ∈ r'.accounts

theorem accounts_eq_nil_of_global {r : Request α} (h : r.global) : r.accounts = [] := by
  cases r with
  | fix accounts => simp [global] at h
  | fixAll => rfl

theorem Conflict.symm {r r' : Request α} (h : r.Conflict r') : r'.Conflict r := by
  rcases h with hg | hg | ⟨a, ha, ha'⟩
  · exact .inr (.inl hg)
  · exact .inl hg
  · exact .inr (.inr ⟨a, ha', ha⟩)

end Request

/-- The holder of the `fixing` lock, and the place of its view or commit once that is fixed. -/
inductive Fixing (α : Type) where
  | idle
  | locked (request : Request α)
  | fixed (request : Request α) (fixedAt : Nat)
  deriving DecidableEq, Repr

/-- A ticket as it was admitted. -/
structure Admission (α : Type) where
  request : Request α
  fixedAt : Nat
  deriving DecidableEq, Repr

structure State (α : Type) [LinearOrder α] where
  lines : Lines α := {}
  fixing : Fixing α := .idle
  /-- How many views and commits have been fixed so far. -/
  fixes : Nat := 0
  /-- Every ticket ever admitted; a ticket's id is its place here. -/
  history : List (Admission α) := []
  held : List Nat := []
  deriving DecidableEq

variable {α : Type} [LinearOrder α]

/-- The steps of the callers, one lock acquisition, fix, admission or drop at a time. A ticket is admitted while the
`u64` counter does not overflow. -/
inductive Step : State α → State α → Prop where
  | lock (s : State α) (request : Request α) (hidle : s.fixing = .idle) :
      Step s { s with fixing := .locked request }
  | fix (s : State α) (request : Request α) (hlocked : s.fixing = .locked request) :
      Step s { s with fixing := .fixed request s.fixes, fixes := s.fixes + 1 }
  | abandon (s : State α) (hbusy : s.fixing ≠ .idle) : Step s { s with fixing := .idle }
  | enter (s : State α) (request : Request α) (fixedAt : Nat)
      (hfixed : s.fixing = .fixed request fixedAt) (hfits : s.lines.next + 1 < 2 ^ 64) :
      Step s { s with
        lines := (s.lines.admitTicket request.accounts request.global).2
        fixing := .idle
        history := s.history ++ [⟨request, fixedAt⟩]
        held := s.held ++ [(s.lines.admitTicket request.accounts request.global).1] }
  | drop (s : State α) (id : Nat) (hheld : id ∈ s.held) :
      Step s { s with lines := s.lines.release id, held := s.held.filter (· ≠ id) }

def system (α : Type) [LinearOrder α] : System (State α) where
  init s := s = {}
  step := Step

namespace State

/-- The turn of a ticket has been announced on its channel. -/
def Ready (s : State α) (id : Nat) : Prop := id ∈ s.lines.sent

instance (s : State α) (id : Nat) : Decidable (s.Ready id) := inferInstanceAs (Decidable (id ∈ _))

/-- Two tickets, held or not, whose requests conflict. -/
def Conflict (s : State α) (i j : Nat) : Prop :=
  ∃ ti tj, s.history[i]? = some ti ∧ s.history[j]? = some tj ∧ ti.request.Conflict tj.request

/-- The view or commit of `i` was fixed before that of `j`. -/
def FixedBefore (s : State α) (i j : Nat) : Prop :=
  ∃ ti tj, s.history[i]? = some ti ∧ s.history[j]? = some tj ∧ ti.fixedAt < tj.fixedAt

theorem Conflict.symm {s : State α} {i j : Nat} (h : s.Conflict i j) : s.Conflict j i := by
  obtain ⟨ti, tj, hi, hj, hconflict⟩ := h
  exact ⟨tj, ti, hj, hi, hconflict.symm⟩

/-- What every run preserves. -/
structure Invariant (s : State α) : Prop where
  settled : s.lines.Settled
  held_iff : ∀ id, id ∈ s.held ↔ id ∈ s.lines.waiting.keys
  next_eq : s.lines.next = s.history.length
  recorded : ∀ id w, s.lines.waiting.get? id = some w → ∃ t, s.history[id]? = some t ∧
    t.request.accounts = w.accounts ∧ (t.request.global ↔ id ∈ s.lines.globals.keys)
  fixed_increasing : s.history.Pairwise fun t t' => t.fixedAt < t'.fixedAt
  fixed_below : ∀ t ∈ s.history, t.fixedAt < s.fixes
  fixed_last : ∀ r n, s.fixing = .fixed r n → n < s.fixes ∧ ∀ t ∈ s.history, t.fixedAt < n
  woken_iff : ∀ id ∈ s.held, (s.lines.Woken id ↔ s.Ready id)
  ready_admitted : ∀ id, s.Ready id → id < s.lines.next
  ready_free : ∀ i, s.Ready i → ∀ j ∈ s.held, j < i → ¬ s.Conflict i j
  ready_ordered : s.lines.sent.Pairwise fun i j => s.Conflict i j → i < j

theorem invariant_init : Invariant ({} : State α) where
  settled := Lines.settled_empty
  held_iff := by simp [keys]
  next_eq := rfl
  recorded := by simp
  fixed_increasing := List.Pairwise.nil
  fixed_below := by simp
  fixed_last := by simp
  woken_iff := by simp
  ready_admitted := by simp [Ready]
  ready_free := by simp [Ready]
  ready_ordered := List.Pairwise.nil

variable {s : State α}

theorem conflict_iff
    (hrecorded : ∀ id w, s.lines.waiting.get? id = some w → ∃ t, s.history[id]? = some t ∧
      t.request.accounts = w.accounts ∧ (t.request.global ↔ id ∈ s.lines.globals.keys))
    {i j : Nat} (hi : i ∈ s.lines.waiting.keys) (hj : j ∈ s.lines.waiting.keys) :
    s.lines.Conflict i j ↔ s.Conflict i j := by
  obtain ⟨wi, hwi⟩ := mem_keys.mp hi
  obtain ⟨wj, hwj⟩ := mem_keys.mp hj
  obtain ⟨ti, hti, hai, hgi⟩ := hrecorded i wi hwi
  obtain ⟨tj, htj, haj, hgj⟩ := hrecorded j wj hwj
  simp only [Lines.Conflict, Conflict, Request.Conflict, hwi, hwj, hti, htj, Option.some.injEq,
    exists_and_left, exists_eq_left', hai, haj, hgi, hgj]

/-- The announcements of one operation: it starts from the lines `base`, in which a held ticket has been
woken exactly when it was announced, and ends settled. -/
theorem announce {base : Lines α} (hwakes : Lines.Wakes base s.lines) (hsettled : s.lines.Settled)
    (hheld : ∀ id, id ∈ s.held ↔ id ∈ s.lines.waiting.keys)
    (hconflict : ∀ i ∈ s.held, ∀ j ∈ s.held, s.lines.Conflict i j ↔ s.Conflict i j)
    (hold : ∀ j ∈ s.held, (base.Woken j ↔ j ∈ base.sent))
    (hfree : ∀ i ∈ base.sent, ∀ j ∈ s.held, j < i → ¬ s.Conflict i j)
    (hordered : base.sent.Pairwise fun i j => s.Conflict i j → i < j) :
    (∀ id ∈ s.held, (s.lines.Woken id ↔ s.Ready id)) ∧
      (∀ i, s.Ready i → i ∈ base.sent ∨ i ∈ s.held) ∧
      (∀ i, s.Ready i → ∀ j ∈ s.held, j < i → ¬ s.Conflict i j) ∧
      s.lines.sent.Pairwise fun i j => s.Conflict i j → i < j := by
  obtain ⟨new, heq, hnodup, hnew⟩ := hwakes.sent_eq
  have hnewHeld : ∀ i ∈ new, i ∈ s.held := by
    intro i hi
    exact (hheld i).mpr ((hnew i).mp hi).1.mem_keys
  have hnewFree : ∀ i ∈ new, ∀ j ∈ s.held, j < i → ¬ s.Conflict i j := by
    intro i hi j hj hlt hij
    have hwoken := ((hnew i).mp hi).1
    apply (hsettled.woken_iff i hwoken.mem_keys).mp hwoken
    exact ⟨j, hlt, (hconflict j hj i (hnewHeld i hi)).mpr hij.symm⟩
  refine ⟨fun j hj => ?_, fun i hi => ?_, fun i hi => ?_, ?_⟩
  · rw [Ready, heq, List.mem_append, hnew, ← hold j hj]
    have hmono := hwakes.woken_mono j
    tauto
  · rw [Ready, heq, List.mem_append] at hi
    exact hi.imp_right (hnewHeld i)
  · rw [Ready, heq, List.mem_append] at hi
    exact hi.elim (hfree i) (hnewFree i)
  · rw [heq]
    refine List.pairwise_append.mpr ⟨hordered, ?_, fun i hi j hj hij => ?_⟩
    · refine hnodup.pairwise_of_forall_ne fun i hi j hj hne hij => ?_
      by_contra hlt
      exact hnewFree i hi j (hnewHeld j hj) (by omega) hij
    · by_contra hlt
      have hjs : j ∉ base.sent := fun hjs => ((hnew j).mp hj).2 ((hold j (hnewHeld j hj)).mpr hjs)
      have hne : i ≠ j := fun h => hjs (h ▸ hi)
      exact hfree i hi j (hnewHeld j hj) (by omega) hij

theorem Invariant.drop (h : s.Invariant) {id : Nat} (hid : id ∈ s.held) :
    Invariant { s with lines := s.lines.release id, held := s.held.filter (· ≠ id) } := by
  obtain ⟨hsettled, hwakes⟩ := h.settled.release ((h.held_iff id).mp hid)
  have hkeys : ∀ j, j ∈ (s.lines.release id).waiting.keys ↔ j ≠ id ∧ j ∈ s.lines.waiting.keys := by
    intro j
    rw [hwakes.mem_keys]
    exact Lines.mem_keys_erase
  have hheld : ∀ j, j ∈ s.held.filter (· ≠ id) ↔ j ∈ (s.lines.release id).waiting.keys := by
    intro j
    rw [List.mem_filter, hkeys, h.held_iff, decide_eq_true_eq, and_comm]
  have hrecorded : ∀ j w, (s.lines.release id).waiting.get? j = some w →
      ∃ t, s.history[j]? = some t ∧ t.request.accounts = w.accounts ∧
        (t.request.global ↔ j ∈ (s.lines.release id).globals.keys) := by
    intro j w hw
    obtain ⟨w', hw', hacc⟩ := (hwakes.exists_accounts j (· = w.accounts)).mp ⟨w, hw, rfl⟩
    obtain ⟨hne, hw'⟩ := Lines.get?_without_of_some hw'
    obtain ⟨t, ht, hta, htg⟩ := h.recorded j w' hw'
    refine ⟨t, ht, hta.trans hacc, htg.trans ?_⟩
    rw [hwakes.globals_eq, Lines.without, Lines.mem_keys_erase]
    simp [hne]
  have hsub : ∀ j ∈ s.held.filter (· ≠ id), j ∈ s.held := fun j hj => (List.mem_filter.mp hj).1
  set s' : State α := { s with lines := s.lines.release id, held := s.held.filter (· ≠ id) } with hs'
  obtain ⟨hwoken, hready, hfree, hordered⟩ : _ ∧ _ ∧ _ ∧ s'.lines.sent.Pairwise _ := by
    refine announce hwakes hsettled hheld (fun i hi j hj => ?_) (fun j hj => ?_)
      (fun i hi j hj => h.ready_free i hi j (hsub j hj)) h.ready_ordered
    · exact conflict_iff hrecorded ((hheld i).mp hi) ((hheld j).mp hj)
    · rw [Lines.woken_without, h.woken_iff j (hsub j hj), Ready]
      exact and_iff_right (by simpa using (List.mem_filter.mp hj).2)
  exact {
    settled := hsettled
    held_iff := hheld
    next_eq := hwakes.next_eq.trans h.next_eq
    recorded := hrecorded
    fixed_increasing := h.fixed_increasing
    fixed_below := h.fixed_below
    fixed_last := h.fixed_last
    woken_iff := hwoken
    ready_admitted := by
      intro j hj
      rcases hready j hj with hold | hnew
      · exact hwakes.next_eq ▸ h.ready_admitted j hold
      · exact hsettled.shaped.below_next j ((hheld j).mp hnew)
    ready_free := hfree
    ready_ordered := hordered }

theorem conflict_append {history : List (Admission α)} {t : Admission α} {i j : Nat}
    (hi : i < history.length) (hj : j < history.length) :
    Conflict { s with history := history ++ [t] } i j ↔ Conflict { s with history := history } i j := by
  simp only [Conflict, List.getElem?_append_left hi, List.getElem?_append_left hj]

theorem Invariant.enter (h : s.Invariant) {request : Request α} {fixedAt : Nat}
    (hfixed : s.fixing = .fixed request fixedAt) :
    Invariant { s with
      lines := (s.lines.admitTicket request.accounts request.global).2
      fixing := .idle
      history := s.history ++ [⟨request, fixedAt⟩]
      held := s.held ++ [(s.lines.admitTicket request.accounts request.global).1] } := by
  obtain ⟨hid, hsettled, hwakes⟩ := h.settled.admitTicket request.accounts request.global
    Request.accounts_eq_nil_of_global
  obtain ⟨hbelow, hlast⟩ := h.fixed_last request fixedAt hfixed
  set lines := (s.lines.admitTicket request.accounts request.global).2
  rw [hid]
  set s' : State α := { s with
    lines := lines, fixing := .idle, history := s.history ++ [⟨request, fixedAt⟩]
    held := s.held ++ [s.lines.next] } with hs'
  have hlt : ∀ j ∈ s.held, j < s.history.length := by
    intro j hj
    rw [← h.next_eq]
    exact h.settled.shaped.below_next j ((h.held_iff j).mp hj)
  have hheld : ∀ j, j ∈ s'.held ↔ j ∈ lines.waiting.keys := by
    intro j
    rw [hwakes.mem_keys, mem_keys, Lines.get?_entered, List.mem_append, h.held_iff, List.mem_singleton, mem_keys]
    by_cases hj : j = s.lines.next <;> simp [hj]
  have hrecorded : ∀ j w, lines.waiting.get? j = some w → ∃ t, s'.history[j]? = some t ∧
      t.request.accounts = w.accounts ∧ (t.request.global ↔ j ∈ lines.globals.keys) := by
    intro j w hw
    obtain ⟨w', hw', hacc⟩ := (hwakes.exists_accounts j (· = w.accounts)).mp ⟨w, hw, rfl⟩
    rw [hwakes.globals_eq, Lines.mem_globals_entered]
    rw [Lines.get?_entered] at hw'
    split at hw'
    · rename_i hj
      cases hw'
      refine ⟨⟨request, fixedAt⟩, by simp [hs', hj, h.next_eq], hacc, ?_⟩
      have hnot : s.lines.next ∉ s.lines.globals.keys := by
        intro hg
        obtain ⟨w, hw, _⟩ := h.settled.shaped.global_waiting _ hg
        simp [h.settled.shaped.next_not_waiting] at hw
      simp [hj, hnot]
    · rename_i hj
      obtain ⟨t, ht, hta, htg⟩ := h.recorded j w' hw'
      refine ⟨t, ?_, hta.trans hacc, by simp [htg, hj]⟩
      rw [hs', List.getElem?_append_left (List.getElem?_eq_some_iff.mp ht).1]
      exact ht
  have hconflict : ∀ i j, i < s.history.length → j < s.history.length →
      (s'.Conflict i j ↔ s.Conflict i j) := fun i j hi hj => conflict_append (s := s) hi hj
  have hsent : ∀ i ∈ s.lines.sent, i < s.history.length := by
    intro i hi
    rw [← h.next_eq]
    exact h.ready_admitted i hi
  obtain ⟨hwoken, hready, hfree, hordered⟩ : _ ∧ _ ∧ _ ∧ s'.lines.sent.Pairwise _ := by
    refine announce hwakes hsettled hheld (fun i hi j hj => ?_) (fun j hj => ?_) (fun i hi j hj hji => ?_) ?_
    · exact conflict_iff hrecorded ((hheld i).mp hi) ((hheld j).mp hj)
    · rw [Lines.woken_entered]
      show _ ↔ j ∈ s.lines.sent
      rcases List.mem_append.mp hj with hj | hj
      · have := hlt j hj
        rw [← h.next_eq] at this
        rw [h.woken_iff j hj, Ready]
        exact and_iff_right this.ne
      · have hnot : s.lines.next ∉ s.lines.sent := fun hmem =>
          absurd (h.ready_admitted _ hmem) (lt_irrefl _)
        rw [List.mem_singleton.mp hj]
        simp [hnot]
    · have hilt := hsent i hi
      have hjheld : j ∈ s.held := by
        refine (List.mem_append.mp hj).resolve_right fun hj => ?_
        rw [List.mem_singleton.mp hj, h.next_eq] at hji
        omega
      rw [hconflict i j hilt (hlt j hjheld)]
      exact h.ready_free i hi j hjheld hji
    · refine h.ready_ordered.imp_of_mem fun hi hj hold hij => ?_
      exact hold ((hconflict _ _ (hsent _ hi) (hsent _ hj)).mp hij)
  exact {
    settled := hsettled
    held_iff := hheld
    next_eq := by
      rw [hwakes.next_eq, hs', List.length_append, ← h.next_eq]
      rfl
    recorded := hrecorded
    fixed_increasing := by
      refine List.pairwise_append.mpr ⟨h.fixed_increasing, List.pairwise_singleton _ _, ?_⟩
      intro t ht t' ht'
      rw [List.mem_singleton.mp ht']
      exact hlast t ht
    fixed_below := by
      intro t ht
      rcases List.mem_append.mp ht with ht | ht
      · exact h.fixed_below t ht
      · rw [List.mem_singleton.mp ht]
        exact hbelow
    fixed_last := by simp [hs']
    woken_iff := hwoken
    ready_admitted := by
      intro j hj
      rcases hready j hj with hold | hnew
      · rw [hwakes.next_eq]
        exact Nat.lt_succ_of_lt (h.ready_admitted j hold)
      · exact hsettled.shaped.below_next j ((hheld j).mp hnew)
    ready_free := hfree
    ready_ordered := hordered }

theorem Invariant.step {t : State α} (h : s.Invariant) (hst : Step s t) : t.Invariant := by
  cases hst with
  | lock request _ => exact { h with fixed_last := by simp }
  | fix request hlocked =>
    refine { h with
      fixed_below := fun t ht => Nat.lt_succ_of_lt (h.fixed_below t ht)
      fixed_last := fun r n hfixed => ?_ }
    cases hfixed
    exact ⟨Nat.lt_succ_self _, h.fixed_below⟩
  | abandon _ => exact { h with fixed_last := by simp }
  | enter request fixedAt hfixed _ => exact h.enter hfixed
  | drop id hid => exact h.drop hid

theorem invariant_of_reachable (hs : (system α).Reachable s) : s.Invariant := by
  refine hs.invariant (fun s hinit => ?_) fun s t _ h hst => h.step hst
  rw [hinit]
  exact invariant_init

theorem Invariant.ready_iff (h : s.Invariant) {id : Nat} (hid : id ∈ s.held) :
    s.Ready id ↔ ∀ i ∈ s.held, i < id → ¬ s.Conflict i id := by
  have hmem := (h.held_iff id).mp hid
  rw [← h.woken_iff id hid, h.settled.woken_iff id hmem]
  constructor
  · intro hfree i hi hlt hconflict
    exact hfree ⟨i, hlt, (conflict_iff h.recorded ((h.held_iff i).mp hi) hmem).mpr hconflict⟩
  · rintro hfree ⟨i, hlt, hconflict⟩
    have hi : i ∈ s.lines.waiting.keys := by
      obtain ⟨wi, _, hwi, _⟩ := hconflict
      exact mem_keys.mpr ⟨wi, hwi⟩
    exact hfree i ((h.held_iff i).mpr hi) hlt ((conflict_iff h.recorded hi hmem).mp hconflict)

theorem Invariant.fixedBefore (h : s.Invariant) {i j : Nat} (hij : i < j) (hj : j < s.history.length) :
    s.FixedBefore i j := by
  have hi : i < s.history.length := by omega
  refine ⟨s.history[i], s.history[j], List.getElem?_eq_getElem hi, List.getElem?_eq_getElem hj, ?_⟩
  exact List.pairwise_iff_getElem.mp h.fixed_increasing i j hi hj hij

theorem Invariant.empty_of_held_nil (h : s.Invariant) (hnil : s.held = []) :
    s.lines.queues = ∅ ∧ s.lines.waiting = ∅ ∧ s.lines.globals = ∅ := by
  have hwaiting : ∀ id, s.lines.waiting.get? id = none := by
    intro id
    rw [get?_eq_none, ← h.held_iff, hnil]
    simp
  refine ⟨eq_empty_iff.mpr fun a => ?_, eq_empty_iff.mpr hwaiting, eq_empty_iff.mpr fun id => ?_⟩
  · cases hq : s.lines.queues.get? a with
    | none => rfl
    | some q =>
      cases q with
      | nil => exact absurd hq (h.settled.shaped.queue_ne_nil a)
      | cons id rest =>
        have := (h.settled.shaped.mem_queue a id).mp ⟨_, hq, List.mem_cons_self⟩
        simp [hwaiting] at this
  · rw [get?_eq_none]
    intro hid
    obtain ⟨w, hw, _⟩ := h.settled.shaped.global_waiting id hid
    simp [hwaiting] at hw

end State

/-- **Delivery order.** In every state that callers of `fix` and `fix_all` can reach, a held ticket has
been made ready exactly when no earlier held ticket conflicts with it. So conflicting tickets never hold
their turn together, conflicting turns are announced in the order in which their views or commits were
fixed, and once every ticket is dropped nothing is left in the lines. -/
theorem delivery_order {s : State α} (hs : (system α).Reachable s) :
    (∀ id ∈ s.held, (s.Ready id ↔ ∀ i ∈ s.held, i < id → ¬ s.Conflict i id)) ∧
      (∀ i ∈ s.held, ∀ j ∈ s.held, i ≠ j → s.Conflict i j → ¬ (s.Ready i ∧ s.Ready j)) ∧
      (s.lines.sent.Pairwise fun i j => s.Conflict i j → s.FixedBefore i j) ∧
      (s.held = [] → s.lines.queues = ∅ ∧ s.lines.waiting = ∅ ∧ s.lines.globals = ∅) := by
  have h := State.invariant_of_reachable hs
  refine ⟨fun id hid => h.ready_iff hid, ?_, ?_, h.empty_of_held_nil⟩
  · intro i hi j hj hne hconflict hready
    rcases Nat.lt_or_gt_of_ne hne with hlt | hlt
    · exact (h.ready_iff hj).mp hready.2 i hi hlt hconflict
    · exact (h.ready_iff hi).mp hready.1 j hj hlt hconflict.symm
  · refine h.ready_ordered.imp_of_mem fun hi hj hlt hconflict => ?_
    exact h.fixedBefore (hlt hconflict) (h.next_eq ▸ h.ready_admitted _ hj)

/-- One caller of `fix` or `fix_all` that runs from the lock to its ticket undisturbed. -/
def State.served (s : State α) (request : Request α) : State α :=
  { s with
    lines := (s.lines.admitTicket request.accounts request.global).2
    fixes := s.fixes + 1
    history := s.history ++ [⟨request, s.fixes⟩]
    held := s.held ++ [(s.lines.admitTicket request.accounts request.global).1] }

theorem reachable_served {s : State α} (hs : (system α).Reachable s) (hidle : s.fixing = .idle)
    (hfits : s.lines.next + 1 < 2 ^ 64) (request : Request α) : (system α).Reachable (s.served request) := by
  obtain ⟨lines, fixing, fixes, history, held⟩ := s
  subst hidle
  exact ((hs.step (.lock _ request rfl)).step (.fix _ request rfl)).step (.enter _ request fixes rfl hfits)

/-- Two tickets of one account and a barrier behind them. -/
def sharedAccountRun : State Nat :=
  ((({} : State Nat).served (.fix [7])).served (.fix [7, 7])).served .fixAll

theorem sharedAccountRun_reachable : (system Nat).Reachable sharedAccountRun :=
  reachable_served (reachable_served (reachable_served (.init rfl) rfl (by decide) _) rfl (by decide) _) rfl (by decide) _

theorem delivery_order_sharedAccountRun :
    (system Nat).Reachable sharedAccountRun ∧ sharedAccountRun.Ready 0 ∧ ¬ sharedAccountRun.Ready 1 ∧
      (sharedAccountRun.Ready 1 ↔
        ∀ i ∈ sharedAccountRun.held, i < 1 → ¬ sharedAccountRun.Conflict i 1) :=
  ⟨sharedAccountRun_reachable, by decide, by decide, (delivery_order sharedAccountRun_reachable).1 1 (by decide)⟩

variable {s s' : State α}

theorem State.held_of_run (hs : (system α).Reachable s) (hrun : Relation.ReflTransGen Step s s') :
    (system α).Reachable s' ∧ s.history.length ≤ s'.history.length ∧
      ∀ i ∈ s'.held, i < s.history.length → i ∈ s.held := by
  induction hrun with
  | refl => exact ⟨hs, le_rfl, fun _ hi _ => hi⟩
  | @tail u _ _ hstep ih =>
    obtain ⟨hu, hle, hold⟩ := ih
    refine ⟨hu.step hstep, ?_⟩
    cases hstep with
    | enter request fixedAt hfixed _ =>
      have hnext : (u.lines.admitTicket request.accounts request.global).1 = u.history.length :=
        (invariant_of_reachable hu).next_eq
      refine ⟨hle.trans (by simp), fun i hi hlt => ?_⟩
      rcases List.mem_append.mp hi with hi | hi
      · exact hold i hi hlt
      · rw [List.mem_singleton.mp hi, hnext] at hlt
        omega
    | drop id hheld => exact ⟨hle, fun i hi => hold i (List.mem_of_mem_filter hi)⟩
    | _ => exact ⟨hle, hold⟩

/-- No ticket starves: while one is held, one that is not behind it has its turn; and in every later state in which
those that were before it are dropped it has its own, whatever was admitted since. -/
theorem turn_comes {id : Nat} (hs : (system α).Reachable s) (hid : id ∈ s.held) :
    (∃ i ∈ s.held, i ≤ id ∧ s.Ready i) ∧
      ∀ s', Relation.ReflTransGen Step s s' → id ∈ s'.held → (∀ i ∈ s.held, i < id → i ∉ s'.held) → s'.Ready id := by
  have h := State.invariant_of_reachable hs
  refine ⟨?_, fun s' hrun hid' hgone => ?_⟩
  · have hex : ∃ i, i ∈ s.held := ⟨id, hid⟩
    refine ⟨Nat.find hex, Nat.find_spec hex, Nat.find_min' hex hid, (h.ready_iff (Nat.find_spec hex)).mpr ?_⟩
    exact fun j hj hlt => absurd (Nat.find_min' hex hj) hlt.not_ge
  · obtain ⟨hs', -, hold⟩ := State.held_of_run hs hrun
    obtain ⟨w, hw⟩ := mem_keys.mp ((h.held_iff id).mp hid)
    obtain ⟨_, hentry, -⟩ := h.recorded id w hw
    refine ((State.invariant_of_reachable hs').ready_iff hid').mpr fun i hi hlt => ?_
    exact absurd hi (hgone i (hold i hi (hlt.trans (List.getElem?_eq_some_iff.mp hentry).1)) hlt)

theorem turn_comes_sharedAccountRun :
    ¬ sharedAccountRun.Ready 1 ∧ ∃ i ∈ sharedAccountRun.held, i ≤ 1 ∧ sharedAccountRun.Ready i :=
  ⟨by decide, (turn_comes sharedAccountRun_reachable (by decide)).1⟩

end Lonewolf.Order
