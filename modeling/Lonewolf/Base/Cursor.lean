import Lonewolf.Base.Transaction

/-!
# Cursor loops

A loop that asks for the entry after the last one it has seen, until there is none. The loop is given a
bound on its rounds and reports whether it came to the end; when the entries after the cursor are a list
shorter than the bound, the loop runs its body once on each of them, in order.
-/

namespace Cursors

open Transactions

variable {K V σ ε : Type}

/-- The loop, with the rounds that are left and the cursor. -/
def forEachAfter (next : Option K → Except ε (Option (K × V))) (body : K → V → Tx σ ε Unit) :
    Nat → Option K → Tx σ ε Bool
  | 0, _ => return false
  | rounds + 1, after => do
      match ← Tx.read fun _ => next after with
      | none => return true
      | some (k, v) =>
        body k v
        forEachAfter next body rounds (some k)

def forEach (body : K → V → Tx σ ε Unit) : List (K × V) → Tx σ ε Unit
  | [] => return ()
  | (k, v) :: entries => do
      body k v
      forEach body entries

/-- The entries that the cursor passes from `after` to the end. -/
inductive Scans (next : Option K → Except ε (Option (K × V))) : Option K → List (K × V) → Prop where
  | done {after : Option K} (h : next after = .ok none) : Scans next after []
  | entry {after : Option K} {k : K} {v : V} {entries : List (K × V)} (h : next after = .ok (some (k, v)))
      (hrest : Scans next (some k) entries) : Scans next after ((k, v) :: entries)

variable {P : Type}

/-- A key is beyond the cursor; at the start every key is. -/
def beyond [LinearOrder P] (place : K → P) (after : Option K) (key : K) : Bool :=
  after.all fun k => decide (place k < place key)

/-- The search that a cursor makes among entries in increasing order: the first entry beyond it. -/
def firstAfter [LinearOrder P] (place : K → P) (entries : List (K × V)) (after : Option K) : Option (K × V) :=
  entries.find? fun entry => beyond place after entry.1

variable {entries : List (K × V)} {next : Option K → Except ε (Option (K × V))}

theorem scans_firstAfter [LinearOrder P] (place : K → P) (hsorted : entries.Pairwise fun a b => place a.1 < place b.1)
    (hnext : ∀ after, next after = .ok (firstAfter place entries after)) : Scans next none entries := by
  -- The entries seen are those the cursor is not before; the search skips them.
  suffices ∀ (rest seen : List (K × V)) (after : Option K), entries = seen ++ rest →
      (∀ entry ∈ seen, beyond place after entry.1 = false) →
      (∀ entry ∈ rest, beyond place after entry.1 = true) →
      Scans next after rest from
    this entries [] none rfl (fun _ h => absurd h List.not_mem_nil) fun _ _ => rfl
  intro rest
  induction rest with
  | nil =>
    intro seen after heq hseen _
    apply Scans.done
    rw [hnext, firstAfter, heq, List.append_nil, List.find?_eq_none.mpr]
    intro entry hentry
    rw [hseen entry hentry]
    exact Bool.false_ne_true
  | cons entry rest ih =>
    intro seen after heq hseen hrest
    apply Scans.entry
    · have hnone : (seen.find? fun entry => beyond place after entry.1) = none :=
        List.find?_eq_none.mpr fun entry hentry => by rw [hseen entry hentry]; exact Bool.false_ne_true
      have hpos := hrest entry List.mem_cons_self
      rw [hnext, firstAfter, heq, List.find?_append, hnone, Option.none_or, List.find?_cons, hpos]
    · rw [heq] at hsorted
      obtain ⟨_, hlater, hearlier⟩ := List.pairwise_append.mp hsorted
      apply ih (seen ++ [entry]) (some entry.1) (by rw [heq, List.append_assoc]; rfl)
      · intro e he
        rw [List.mem_append, List.mem_singleton] at he
        rw [beyond, Option.all_some, decide_eq_false_iff_not]
        rcases he with he | he
        · exact lt_asymm (hearlier e he entry List.mem_cons_self)
        · rw [he]
          exact lt_irrefl _
      · intro e he
        rw [beyond, Option.all_some, decide_eq_true_eq]
        exact (List.pairwise_cons.mp hlater).1 e he

variable {body : K → V → Tx σ ε Unit}

theorem forEachAfter_eq {after : Option K} (h : Scans next after entries) {rounds : Nat}
    (hrounds : entries.length < rounds) :
    forEachAfter next body rounds after = forEach body entries >>= fun _ => pure true := by
  induction h generalizing rounds with
  | @done after hnone =>
    obtain ⟨rounds, rfl⟩ : ∃ n, rounds = n + 1 := ⟨rounds - 1, by omega⟩
    have hread : (Tx.read fun _ => next after : Tx σ ε _) = pure none := by
      rw [hnone]
      rfl
    simp only [forEachAfter, hread, Tx.pure_bind, forEach]
  | @entry after k v entries hsome _ ih =>
    obtain ⟨rounds, rfl⟩ : ∃ n, rounds = n + 1 := ⟨rounds - 1, by omega⟩
    have hread : (Tx.read fun _ => next after : Tx σ ε _) = pure (some (k, v)) := by
      rw [hsome]
      rfl
    simp only [forEachAfter, hread, Tx.pure_bind, forEach, Tx.bind_assoc, ih (Nat.lt_of_succ_lt_succ hrounds)]

theorem forEach_filter {p : K → Bool} (hskip : ∀ k v, p k = false → body k v = pure ()) (entries : List (K × V)) :
    forEach body entries = forEach body (entries.filter fun entry => p entry.1) := by
  induction entries with
  | nil => rfl
  | cons entry entries ih =>
    obtain ⟨k, v⟩ := entry
    cases hp : p k with
    | true => rw [List.filter_cons_of_pos (by exact hp), forEach, forEach, ih]
    | false =>
      rw [List.filter_cons_of_neg (by simp [hp]), forEach, hskip k v hp, Tx.pure_bind, ih]

theorem run_forEach_append {α : Type} {body : K → V → Tx (List α) ε Unit} {out : K → V → List α}
    (entries : List (K × V))
    (hround : ∀ k v, (k, v) ∈ entries → ∀ done, (body k v).run done = (.ok (), done ++ out k v)) (done : List α) :
    (forEach body entries).run done = (.ok (), done ++ entries.flatMap fun entry => out entry.1 entry.2) := by
  induction entries generalizing done with
  | nil =>
    rw [List.flatMap_nil, List.append_nil]
    rfl
  | cons entry entries ih =>
    obtain ⟨k, v⟩ := entry
    rw [forEach, Tx.run_bind_of_ok (hround k v List.mem_cons_self done), List.flatMap_cons, ← List.append_assoc]
    exact ih (fun k' v' hmem => hround k' v' (List.mem_cons_of_mem (k, v) hmem)) _

theorem forEach_inStep {σ' ε' V' : Type} {body' : K → V' → Tx σ' ε' Unit} {R : List K → σ → σ' → Prop}
    (hround : ∀ k v v' rest s s', R (k :: rest) s s' → Tx.InStep (body k v) s (body' k v') s' (R rest))
    {entries' : List (K × V')} (hkeys : entries.map Prod.fst = entries'.map Prod.fst) {s : σ} {s' : σ'}
    (h : R (entries.map Prod.fst) s s') : Tx.InStep (forEach body entries) s (forEach body' entries') s' (R []) := by
  induction entries generalizing entries' s s' with
  | nil =>
    obtain rfl : entries' = [] := List.map_eq_nil_iff.mp hkeys.symm
    exact .pure h
  | cons entry entries ih =>
    obtain ⟨k, v⟩ := entry
    cases entries' with
    | nil => cases hkeys
    | cons entry' entries' =>
      obtain ⟨k', v'⟩ := entry'
      obtain ⟨rfl, htail⟩ : k = k' ∧ entries.map Prod.fst = entries'.map Prod.fst := by
        simpa using hkeys
      exact (hround k v v' _ s s' h).bind fun _ _ _ _ _ _ hrest => ih htail hrest

end Cursors
