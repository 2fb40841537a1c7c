import Mathlib

/-!
# Transactions

A computation on the working state of a write transaction. It ends with a value or an error, and leaves
the working state in either case, so that what an error leaves behind can be told; the transaction as a
whole commits its working state only when it ends with a value.
-/

namespace Transactions

section Except

variable {ε ε' α β : Type} {x : Except ε α} {a b : α}

theorem except_bind_eq_ok {f : α → Except ε β} {b : β} : (x >>= f) = .ok b ↔ ∃ a, x = .ok a ∧ f a = .ok b := by
  cases x <;> simp [bind, Except.bind]

theorem exists_unit {p : Unit → Prop} : (∃ u, p u) ↔ p () := Unique.exists_iff

theorem except_pure_eq_ok : (pure a : Except ε α) = .ok b ↔ a = b := by
  simp [pure, Except.pure]

theorem except_map_eq_ok {f : α → β} {b : β} : x.map f = .ok b ↔ ∃ a, x = .ok a ∧ f a = b := by
  cases x <;> simp [Except.map]

theorem except_mapError_eq_ok {f : ε → ε'} : x.mapError f = .ok a ↔ x = .ok a := by
  cases x <;> simp [Except.mapError]

/-- The computation succeeds exactly when `p` holds, and `q` holds of its result. -/
structure Yields (x : Except ε α) (p : Prop) (q : α → Prop) : Prop where
  of_ok : ∀ {a}, x = .ok a → p ∧ q a
  exists_ok : p → ∃ a, x = .ok a

namespace Yields

variable {f : α → Except ε β} {p p' : Prop} {q : α → Prop} {q' : β → Prop}

theorem iff (h : Yields x p q) (hp : p ↔ p') : Yields x p' q :=
  ⟨fun hx => ⟨hp.mp (h.of_ok hx).1, (h.of_ok hx).2⟩, fun hp' => h.exists_ok (hp.mpr hp')⟩

theorem of_iff (h : ∀ {a}, x = .ok a ↔ p ∧ a = b) : Yields x p (· = b) :=
  ⟨h.mp, fun hp => ⟨b, h.mpr ⟨hp, rfl⟩⟩⟩

theorem unit {x : Except ε Unit} : Yields x (x = .ok ()) fun _ => True := ⟨fun h => ⟨h, trivial⟩, fun h => ⟨(), h⟩⟩

theorem pure (h : q a) : Yields (Pure.pure a : Except ε α) True q :=
  ⟨fun hx => ⟨trivial, except_pure_eq_ok.mp hx ▸ h⟩, fun _ => ⟨a, rfl⟩⟩

theorem bind (h : Yields x p q) (hf : ∀ a, q a → Yields (f a) p' q') : Yields (x >>= f) (p ∧ p') q' where
  of_ok hx := by
    obtain ⟨a, ha, hb⟩ := except_bind_eq_ok.mp hx
    obtain ⟨hp, hq⟩ := h.of_ok ha
    obtain ⟨hp', hq'⟩ := (hf a hq).of_ok hb
    exact ⟨⟨hp, hp'⟩, hq'⟩
  exists_ok := by
    rintro ⟨hp, hp'⟩
    obtain ⟨a, ha⟩ := h.exists_ok hp
    obtain ⟨b, hb⟩ := (hf a (h.of_ok ha).2).exists_ok hp'
    exact ⟨b, except_bind_eq_ok.mpr ⟨a, ha, hb⟩⟩

theorem last (h : Yields x p q) {g : α → β} (hg : ∀ a, q a → q' (g a)) : Yields (x >>= fun a => Pure.pure (g a)) p q' :=
  (h.bind fun a hq => .pure (hg a hq)).iff (and_iff_left trivial)

end Yields

end Except

/-- A result or an error, and the working state that is left. -/
def Tx (σ ε α : Type) : Type := σ → Except ε α × σ

namespace Tx

variable {σ ε ε' α β : Type}

def run (x : Tx σ ε α) (s : σ) : Except ε α × σ := x s

instance : Monad (Tx σ ε) where
  pure a := fun s => (.ok a, s)
  bind x f := fun s =>
    match x.run s with
    | (.ok a, t) => (f a).run t
    | (.error e, t) => (.error e, t)

instance : MonadExceptOf ε (Tx σ ε) where
  throw e := fun s => (.error e, s)
  tryCatch x handle := fun s =>
    match x.run s with
    | (.ok a, t) => (.ok a, t)
    | (.error e, t) => (handle e).run t

def read (f : σ → Except ε α) : Tx σ ε α := fun s => (f s, s)

def write (f : σ → α × σ) : Tx σ ε α := fun s => (.ok (f s).1, (f s).2)

/-- The value of a computation, or its error as a value. -/
def outcome (x : Tx σ ε α) : Tx σ ε' (Except ε α) := fun s => (.ok (x.run s).1, (x.run s).2)

/-- `map_err`. -/
def mapError (f : ε → ε') (x : Tx σ ε α) : Tx σ ε' α := fun s => ((x.run s).1.mapError f, (x.run s).2)

theorem pure_bind (a : α) (f : α → Tx σ ε β) : (pure a >>= f) = f a := rfl

theorem bind_assoc {γ : Type} (x : Tx σ ε α) (f : α → Tx σ ε β) (g : β → Tx σ ε γ) :
    (x >>= f >>= g) = (x >>= fun a => f a >>= g) := by
  funext s
  show (match (match x.run s with
      | (.ok a, t) => (f a).run t
      | (.error e, t) => (.error e, t)) with
    | (.ok b, t) => (g b).run t
    | (.error e, t) => (.error e, t)) =
    (match x.run s with
    | (.ok a, t) => (f a >>= g).run t
    | (.error e, t) => (.error e, t))
  rcases x.run s with ⟨r, t⟩
  cases r <;> rfl

variable {x y : Tx σ ε α} {f : α → Tx σ ε β} {s t : σ} {a : α} {e : ε}

@[simp] theorem run_pure_eq {b : α} : (pure a : Tx σ ε α).run s = (.ok b, t) ↔ a = b ∧ s = t := by
  show ((Except.ok a, s) : Except ε α × σ) = (.ok b, t) ↔ _
  simp

theorem run_bind_of_ok (h : x.run s = (.ok a, t)) : (x >>= f).run s = (f a).run t := by
  show (match x.run s with
    | (.ok a, u) => (f a).run u
    | (.error e, u) => (.error e, u)) = _
  rw [h]

theorem run_bind_of_error (h : x.run s = (.error e, t)) : (x >>= f).run s = (.error e, t) := by
  show (match x.run s with
    | (.ok a, u) => (f a).run u
    | (.error e, u) => (.error e, u)) = _
  rw [h]

@[simp] theorem run_bind_eq {b : β} :
    (x >>= f).run s = (.ok b, t) ↔ ∃ a u, x.run s = (.ok a, u) ∧ (f a).run u = (.ok b, t) := by
  rcases hx : x.run s with ⟨_ | a, u⟩
  · simp [run_bind_of_error hx]
  · simp [run_bind_of_ok hx]

@[simp] theorem run_throw_eq : (throw e : Tx σ ε α).run s = (.ok a, t) ↔ False := by
  show ((Except.error e, s) : Except ε α × σ) = (.ok a, t) ↔ _
  simp

@[simp] theorem run_read_eq {f : σ → Except ε α} : (read f).run s = (.ok a, t) ↔ f s = .ok a ∧ s = t := by
  show (f s, s) = (.ok a, t) ↔ _
  simp

@[simp] theorem run_write_eq {f : σ → α × σ} : (write f : Tx σ ε α).run s = (.ok a, t) ↔ f s = (a, t) := by
  show ((Except.ok (f s).1, (f s).2) : Except ε α × σ) = (.ok a, t) ↔ _
  simp [Prod.ext_iff]

@[simp] theorem run_outcome_eq {r : Except ε α} : (outcome x : Tx σ ε' _).run s = (.ok r, t) ↔ x.run s = (r, t) := by
  show ((Except.ok (x.run s).1, (x.run s).2) : Except ε' _ × σ) = (.ok r, t) ↔ _
  simp [Prod.ext_iff]

@[simp] theorem run_mapError_eq {g : ε → ε'} : (mapError g x).run s = (.ok a, t) ↔ x.run s = (.ok a, t) := by
  show ((x.run s).1.mapError g, (x.run s).2) = (.ok a, t) ↔ _
  rcases x.run s with ⟨r, u⟩
  cases r <;> simp [Except.mapError]

@[simp] theorem run_ite_eq {c : Prop} [Decidable c] :
    (if c then x else y).run s = (.ok a, t) ↔ (c ∧ x.run s = (.ok a, t)) ∨ (¬ c ∧ y.run s = (.ok a, t)) := by
  split <;> simp [*]

/-! An error comes from one of the parts, and leaves what that part left. -/

@[simp] theorem run_pure_error : (pure a : Tx σ ε α).run s = (.error e, t) ↔ False := by
  show ((Except.ok a, s) : Except ε α × σ) = (.error e, t) ↔ _
  simp

@[simp] theorem run_bind_error :
    (x >>= f).run s = (.error e, t) ↔
      x.run s = (.error e, t) ∨ ∃ a u, x.run s = (.ok a, u) ∧ (f a).run u = (.error e, t) := by
  rcases hx : x.run s with ⟨_ | a, u⟩
  · simp [run_bind_of_error hx]
  · simp [run_bind_of_ok hx]

@[simp] theorem run_read_error {f : σ → Except ε α} : (read f).run s = (.error e, t) ↔ f s = .error e ∧ s = t := by
  show (f s, s) = (.error e, t) ↔ _
  simp

@[simp] theorem run_write_error {f : σ → α × σ} : (write f : Tx σ ε α).run s = (.error e, t) ↔ False := by
  show ((Except.ok (f s).1, (f s).2) : Except ε α × σ) = (.error e, t) ↔ _
  simp

@[simp] theorem run_ite_error {c : Prop} [Decidable c] :
    (if c then x else y).run s = (.error e, t) ↔ (c ∧ x.run s = (.error e, t)) ∨ (¬ c ∧ y.run s = (.error e, t)) := by
  split <;> simp [*]

/-! A computation whose value is not used. -/

theorem run_void_eq {u : Unit} : (x >>= fun _ => pure ()).run s = (.ok u, t) ↔ ∃ a, x.run s = (.ok a, t) := by
  simp

theorem run_void_error : (x >>= fun _ => (pure () : Tx σ ε Unit)).run s = (.error e, t) ↔ x.run s = (.error e, t) := by
  simp

/-- The computation ends with a value. -/
def Succeeds (x : Tx σ ε α) (s : σ) : Prop := ∃ a t, x.run s = (.ok a, t)

@[simp] theorem succeeds_pure : (pure a : Tx σ ε α).Succeeds s ↔ True :=
  iff_true_intro ⟨a, s, rfl⟩

@[simp] theorem succeeds_bind : (x >>= f).Succeeds s ↔ ∃ a t, x.run s = (.ok a, t) ∧ (f a).Succeeds t := by
  simp only [Succeeds, run_bind_eq]
  constructor
  · rintro ⟨b, t, a, u, hx, hf⟩
    exact ⟨a, u, hx, b, t, hf⟩
  · rintro ⟨a, u, hx, b, t, hf⟩
    exact ⟨b, t, a, u, hx, hf⟩

/-- The computation ends with a value when the condition holds, and with the error when it does not. -/
def Guarded (x : Tx σ ε α) (s : σ) (e : ε) (p : Prop) : Prop :=
  (p → x.Succeeds s) ∧ (¬ p → ∃ t, x.run s = (.error e, t))

namespace Guarded

variable {e' : ε} {p q : Prop}

theorem succeeds_iff (h : x.Guarded s e p) : x.Succeeds s ↔ p := by
  refine ⟨fun hsucceeds => ?_, h.1⟩
  by_contra hp
  obtain ⟨a, t, hrun⟩ := hsucceeds
  obtain ⟨t', hrun'⟩ := h.2 hp
  rw [hrun] at hrun'
  cases hrun'

theorem error_eq (h : x.Guarded s e p) (hrun : x.run s = (.error e', t)) : e' = e := by
  by_cases hp : p
  · obtain ⟨a, t', hrun'⟩ := h.1 hp
    rw [hrun] at hrun'
    cases hrun'
  · obtain ⟨t', hrun'⟩ := h.2 hp
    rw [hrun] at hrun'
    cases hrun'
    rfl

theorem of_succeeds (h : x.Succeeds s) (hp : p) : x.Guarded s e p := ⟨fun _ => h, fun hnot => absurd hp hnot⟩

theorem bind (h : x.Guarded s e p) (hf : ∀ a t, x.run s = (.ok a, t) → (f a).Guarded t e q) :
    (x >>= f).Guarded s e (p ∧ q) := by
  by_cases hp : p
  · obtain ⟨a, t, hrun⟩ := h.1 hp
    rw [and_iff_right hp, Guarded, Succeeds, run_bind_of_ok hrun]
    exact hf a t hrun
  · obtain ⟨t, hrun⟩ := h.2 hp
    exact ⟨fun hpq => absurd hpq.1 hp, fun _ => ⟨t, run_bind_of_error hrun⟩⟩

theorem andThen (h : x.Guarded s e p) (hf : ∀ a t, x.run s = (.ok a, t) → (f a).Succeeds t) :
    (x >>= f).Guarded s e p := by
  rw [← and_true p]
  exact h.bind fun a t hrun => of_succeeds (hf a t hrun) trivial

end Guarded

theorem guarded_bind_of_ok {p : Prop} (hrun : x.run s = (.ok a, t)) :
    (x >>= f).Guarded s e p ↔ (f a).Guarded t e p := by
  rw [Guarded, Succeeds, run_bind_of_ok hrun, Guarded, Succeeds]

/-- The outcome of the computation, a value or an error, has the property together with the state it leaves. -/
def Leads (x : Tx σ ε α) (s : σ) (Q : Except ε α → σ → Prop) : Prop := Q (x.run s).1 (x.run s).2

theorem Leads.of_run {r : Except ε α} {Q : Except ε α → σ → Prop} (h : x.Leads s Q)
    (hrun : x.run s = (r, t)) : Q r t := by
  unfold Leads at h
  rw [hrun] at h
  exact h

theorem leads_of_run {Q : Except ε α → σ → Prop} (h : ∀ r t, x.run s = (r, t) → Q r t) :
    x.Leads s Q := h _ _ rfl

theorem leads_pure {Q : Except ε α → σ → Prop} (h : Q (.ok a) s) : (pure a : Tx σ ε α).Leads s Q := h

theorem leads_read {f : σ → Except ε α} {Q : Except ε α → σ → Prop} (h : Q (f s) s) : (read f).Leads s Q := h

theorem leads_bind {P : Except ε α → σ → Prop}
    {Q : Except ε β → σ → Prop} (hx : x.Leads s P) (hok : ∀ a t, P (.ok a) t → (f a).Leads t Q)
    (herror : ∀ e t, P (.error e) t → Q (.error e) t) : (x >>= f).Leads s Q := by
  apply leads_of_run
  intro r t hrun
  rcases hfirst : x.run s with ⟨first, u⟩
  cases first with
  | ok a =>
    rw [run_bind_of_ok hfirst] at hrun
    exact (hok a u (hx.of_run hfirst)).of_run hrun
  | error e =>
    rw [run_bind_of_error hfirst] at hrun
    cases hrun
    exact herror e t (hx.of_run hfirst)

/-- Two computations end with values together, and then leave related states. -/
structure InStep {σ' α' : Type} (x : Tx σ ε α) (s : σ) (x' : Tx σ' ε' α') (s' : σ') (Q : σ → σ' → Prop) :
    Prop where
  succeeds : x.Succeeds s ↔ x'.Succeeds s'
  related : ∀ a t a' t', x.run s = (.ok a, t) → x'.run s' = (.ok a', t') → Q t t'

section InStep

variable {σ' α' β' : Type} {x' : Tx σ' ε' α'} {s' : σ'} {Q : σ → σ' → Prop}

theorem InStep.pure {a' : α'} (h : Q s s') :
    InStep (Pure.pure a : Tx σ ε α) s (Pure.pure a' : Tx σ' ε' α') s' Q where
  succeeds := iff_of_true (succeeds_pure.mpr trivial) (succeeds_pure.mpr trivial)
  related b t b' t' hrun hrun' := by
    obtain ⟨_, rfl⟩ := run_pure_eq.mp hrun
    obtain ⟨_, rfl⟩ := run_pure_eq.mp hrun'
    exact h

theorem InStep.bind {f' : α' → Tx σ' ε' β'} {Q' : σ → σ' → Prop} (h : InStep x s x' s' Q)
    (hnext : ∀ a t a' t', x.run s = (.ok a, t) → x'.run s' = (.ok a', t') → Q t t' → InStep (f a) t (f' a') t' Q') :
    InStep (x >>= f) s (x' >>= f') s' Q' where
  succeeds := by
    rw [succeeds_bind, succeeds_bind]
    constructor
    · rintro ⟨a, t, hrun, hrest⟩
      obtain ⟨a', t', hrun'⟩ := h.succeeds.mp ⟨a, t, hrun⟩
      have hnext := hnext a t a' t' hrun hrun' (h.related a t a' t' hrun hrun')
      exact ⟨a', t', hrun', hnext.succeeds.mp hrest⟩
    · rintro ⟨a', t', hrun', hrest⟩
      obtain ⟨a, t, hrun⟩ := h.succeeds.mpr ⟨a', t', hrun'⟩
      have hnext := hnext a t a' t' hrun hrun' (h.related a t a' t' hrun hrun')
      exact ⟨a, t, hrun, hnext.succeeds.mpr hrest⟩
  related b u b' u' hrun hrun' := by
    obtain ⟨a, t, hx, hrest⟩ := run_bind_eq.mp hrun
    obtain ⟨a', t', hx', hrest'⟩ := run_bind_eq.mp hrun'
    exact (hnext a t a' t' hx hx' (h.related a t a' t' hx hx')).related b u b' u' hrest hrest'

theorem InStep.read_right {f : σ' → Except ε' α'} {g : α' → Tx σ' ε' β'} {a : α'} (hread : f s' = .ok a)
    (h : InStep x s (g a) s' Q) : InStep x s (read f >>= g) s' Q := by
  have hrun : (read f >>= g).run s' = (g a).run s' := run_bind_of_ok (run_read_eq.mpr ⟨hread, rfl⟩)
  refine ⟨?_, ?_⟩
  · rw [h.succeeds, Succeeds, Succeeds, hrun]
  · rw [hrun]
    exact h.related

end InStep

end Tx

end Transactions
