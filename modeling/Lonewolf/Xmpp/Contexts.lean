import Lonewolf.Xmpp.Incoming

/-!
# What contexts resolve to

An arena holds a binding at its address, so that contexts of one arena that have the same address are the same.
From that, the bindings that are listed are those that resolve, each prefix once, and a generated prefix is
none of them.
-/

namespace Lonewolf.Xmpp

open Texts Text Decimals

/-- The arena holds the bindings of the context at their addresses. -/
def Arena.Holds (arena : Arena) : NamespaceContext → Prop
  | .empty => True
  | .bind address parent pre ns =>
    arena.bindings[address]? = some (.bind address parent pre ns) ∧ arena.Holds parent

/-- An arena only grows. -/
def Arena.Grows (arena later : Arena) : Prop := arena.bindings <+: later.bindings

namespace Arena

variable {arena later last : Arena} {context : NamespaceContext}

theorem Grows.refl (arena : Arena) : arena.Grows arena := List.prefix_refl _

theorem Grows.trans (h : arena.Grows later) (h' : later.Grows last) : arena.Grows last := List.IsPrefix.trans h h'

theorem Holds.mono (h : arena.Grows later) (hholds : arena.Holds context) : later.Holds context := by
  induction context with
  | empty => trivial
  | bind address parent pre ns ih =>
    refine ⟨?_, ih hholds.2⟩
    obtain ⟨rest, hrest⟩ := h
    rw [← hrest, List.getElem?_append_left]
    · exact hholds.1
    · exact (List.getElem?_eq_some_iff.mp hholds.1).1

theorem grows_bind (arena : Arena) (context : NamespaceContext) (pre ns : Text) :
    arena.Grows (arena.bind context pre ns).2 :=
  List.prefix_append _ _

theorem holds_bind (hholds : arena.Holds context) (pre ns : Text) :
    (arena.bind context pre ns).2.Holds (arena.bind context pre ns).1 := by
  refine ⟨?_, hholds.mono (grows_bind arena context pre ns)⟩
  simp [bind]

end Arena

namespace NamespaceContext

variable {arena : Arena} {self parent : NamespaceContext} {pre ns : Text}

def chain : NamespaceContext → List Binding
  | .empty => []
  | .bind address parent pre ns => ⟨address, pre, ns⟩ :: parent.chain

theorem binding_eq (self : NamespaceContext) (pre : Text) : self.binding pre = self.chain.find? (·.pre = pre) := by
  induction self with
  | empty => rfl
  | bind address parent pre' ns ih =>
    by_cases h : pre' = pre
    · simp [binding, chain, h]
    · simp [binding, chain, h, ih]

theorem bindingsFrom_eq (self current : NamespaceContext) :
    bindingsFrom self current =
      (current.chain.filter fun b => (self.binding b.pre).any (·.address = b.address)).map fun b => (b.pre, b.ns) := by
  induction current with
  | empty => rfl
  | bind address parent pre ns ih =>
    simp only [bindingsFrom, chain, List.filter_cons]
    split <;> simp [ih]

section

variable (h : arena.Holds self)
include h

theorem held_of_mem_chain {b : Binding} (hb : b ∈ self.chain) :
    ∃ context, arena.bindings[b.address]? = some context ∧ context.chain.length ≤ self.chain.length := by
  induction self with
  | empty => cases hb
  | bind address parent pre ns ih =>
    rcases List.mem_cons.mp hb with rfl | hmem
    · exact ⟨_, h.1, Nat.le_refl _⟩
    · obtain ⟨context, hcontext, hlen⟩ := ih h.2 hmem
      exact ⟨context, hcontext, Nat.le_succ_of_le hlen⟩

theorem nodup_addresses : (self.chain.map (·.address)).Nodup := by
  induction self with
  | empty => exact List.nodup_nil
  | bind address parent pre ns ih =>
    refine List.nodup_cons.mpr ⟨?_, ih h.2⟩
    intro hmem
    obtain ⟨b, hb, haddress⟩ := List.mem_map.mp hmem
    -- The binding at this address would be the whole context, which is longer than its parent.
    obtain ⟨context, hcontext, hlen⟩ := held_of_mem_chain h.2 hb
    rw [haddress, h.1] at hcontext
    cases hcontext
    simp only [chain, List.length_cons] at hlen
    omega

theorem mem_visible {b : Binding} (hb : b ∈ self.chain) :
    (self.binding b.pre).any (·.address = b.address) = true ↔ self.binding b.pre = some b := by
  constructor
  · intro hany
    cases hfirst : self.binding b.pre with
    | none => simp [hfirst] at hany
    | some b' =>
      have hmem : b' ∈ self.chain := by
        rw [binding_eq] at hfirst
        exact List.mem_of_find?_eq_some hfirst
      have haddress : b'.address = b.address := by simpa [hfirst] using hany
      rw [List.inj_on_of_nodup_map (nodup_addresses h) hmem hb haddress]
  · intro hsome
    simp [hsome]

theorem mem_bindings : (pre, ns) ∈ self.bindings ↔ self.resolve pre = some ns := by
  rw [bindings, bindingsFrom_eq, List.mem_map]
  constructor
  · rintro ⟨b, hb, heq⟩
    obtain ⟨hmem, hvisible⟩ := List.mem_filter.mp hb
    cases heq
    rw [resolve, (mem_visible h hmem).mp hvisible]
    rfl
  · intro hresolve
    obtain ⟨b, hb, rfl⟩ := Option.map_eq_some_iff.mp hresolve
    have hfind := hb
    rw [binding_eq] at hfind
    have hpre : b.pre = pre := by simpa using List.find?_some hfind
    have hmem := List.mem_of_find?_eq_some hfind
    refine ⟨b, List.mem_filter.mpr ⟨hmem, (mem_visible h hmem).mpr ?_⟩, by rw [hpre]⟩
    rw [hpre, hb]

theorem nodup_bindings : (self.bindings.map (·.1)).Nodup := by
  rw [bindings, bindingsFrom_eq, List.map_map]
  have hnodup := (List.Nodup.of_map _ (nodup_addresses h)).filter
    fun b => (self.binding b.pre).any (·.address = b.address)
  apply hnodup.map_on
  intro b hb b' hb' hpre
  obtain ⟨hmem, hvisible⟩ := List.mem_filter.mp hb
  obtain ⟨hmem', hvisible'⟩ := List.mem_filter.mp hb'
  have hfirst := (mem_visible h hmem).mp hvisible
  have hsecond := (mem_visible h hmem').mp hvisible'
  have hpre' : b.pre = b'.pre := hpre
  rw [hpre', hsecond] at hfirst
  exact (Option.some.inj hfirst).symm

end

variable (hself : arena.Holds self)
include hself

theorem eq_of_sameHandle (hparent : arena.Holds parent) (h : sameHandle self (some parent) = true) : self = parent := by
  cases self with
  | empty => cases h
  | bind address tail pre ns =>
    cases parent with
    | empty => cases h
    | bind address' tail' pre' ns' =>
      obtain rfl : address = address' := by simpa [sameHandle] using h
      exact Option.some.inj (hself.1.symm.trans hparent.1)

theorem mem_changedBindings {inherited : Option NamespaceContext}
    (hinherited : ∀ context ∈ inherited, arena.Holds context) :
    (pre, ns) ∈ self.changedBindings inherited ↔
      self.resolve pre = some ns ∧ inherited.bind (·.resolve pre) ≠ some ns := by
  unfold changedBindings
  by_cases hsame : sameHandle self inherited = true
  · cases inherited with
    | none => cases self <;> cases hsame
    | some parent =>
      have heq := eq_of_sameHandle hself (hinherited parent rfl) hsame
      simp only [hsame, if_true, bindings, bindingsFrom, List.filter_nil, List.not_mem_nil, false_iff, not_and]
      intro hresolve hne
      exact hne (by rw [← heq]; exact hresolve)
  · simp [hsame, mem_bindings hself]

theorem nodup_changedBindings (inherited : Option NamespaceContext) :
    ((self.changedBindings inherited).map (·.1)).Nodup := by
  unfold changedBindings
  split
  · exact List.nodup_nil
  · exact (nodup_bindings hself).sublist (List.filter_sublist.map _)

theorem namedPrefix_eq_some (h : self.namedPrefix ns = some pre) : pre ≠ [] ∧ self.resolve pre = some ns := by
  obtain ⟨binding, hfind, rfl⟩ := Option.map_eq_some_iff.mp h
  have hcondition := List.find?_some hfind
  simp only [Bool.and_eq_true, Bool.not_eq_true', List.isEmpty_eq_false_iff, decide_eq_true_eq] at hcondition
  refine ⟨hcondition.1, (mem_bindings hself).mp ?_⟩
  rw [← hcondition.2]
  exact List.mem_of_find?_eq_some hfind

end NamespaceContext

/-! ### Generated prefixes -/

theorem utf8Size_of_isDigit {c : Char} (h : c.isDigit = true) : c.utf8Size = 1 := by
  rw [Char.utf8Size_eq_one_iff]
  simp only [Char.isDigit, Bool.and_eq_true, decide_eq_true_eq] at h
  exact UInt32.le_trans h.2 (by decide)

theorem byteLen_decimal (n : Nat) : byteLen (decimal n) = (decimal n).length := by
  have hsize : ∀ t : Text, (∀ c ∈ t, c.isDigit = true) → byteLen t = t.length := by
    intro t ht
    induction t with
    | nil => rfl
    | cons c t ih =>
      rw [byteLen_cons, utf8Size_of_isDigit (ht c List.mem_cons_self), List.length_cons,
        ih fun d hd => ht d (List.mem_cons_of_mem c hd), Nat.add_comm]
  exact hsize _ fun c hc => isDigit_decimal hc

theorem occupies_generatedName (index : Nat) : occupies index (generatedName index) = true := by
  have hread := readUnsigned_decimal (Nat.lt_succ_self index)
  have hlength := (byteLen_decimal index).trans (length_decimal index)
  show (readUnsigned (index + 1) (decimal index) = some index && byteLen (decimal index) = Nat.log 10 index + 1) = true
  simp [hread, hlength]

theorem occupies_eq_true {index : Nat} {pre : Text} (h : occupies index pre = true) :
    ∃ suffix, pre = 'n' :: 's' :: suffix ∧ readUnsigned (index + 1) suffix = some index := by
  unfold occupies at h
  split at h
  case h_1 suffix =>
    rw [Bool.and_eq_true, decide_eq_true_eq] at h
    exact ⟨suffix, rfl, h.1⟩
  case h_2 => cases h

theorem eq_of_occupies {i j : Nat} {pre : Text} (hi : occupies i pre = true) (hj : occupies j pre = true) : i = j := by
  obtain ⟨suffix, rfl, hread⟩ := occupies_eq_true hi
  obtain ⟨suffix', heq, hread'⟩ := occupies_eq_true hj
  cases heq
  exact eq_of_readUnsigned hread hread'

namespace NamespaceContext

variable {arena : Arena} {self : NamespaceContext}

/-- A binding takes the prefix of this number. -/
def Taken (self : NamespaceContext) (index : Nat) : Prop :=
  (self.bindings.any fun (pre, _) => occupies index pre) = true

theorem generatedFrom_spec (self : NamespaceContext) (fuel index : Nat) :
    index ≤ self.generatedFrom fuel index ∧
      (self.Taken (self.generatedFrom fuel index) → ∀ i ≤ fuel, self.Taken (index + i)) := by
  induction fuel generalizing index with
  | zero =>
    refine ⟨Nat.le_refl _, fun htaken i hi => ?_⟩
    obtain rfl : i = 0 := by omega
    exact htaken
  | succ fuel ih =>
    rw [generatedFrom]
    split
    next htaken =>
      obtain ⟨hle, hall⟩ := ih (index + 1)
      refine ⟨by omega, fun hlast i hi => ?_⟩
      cases i with
      | zero => exact htaken
      | succ i =>
        rw [show index + (i + 1) = index + 1 + i by omega]
        exact hall hlast i (by omega)
    next htaken => exact ⟨Nat.le_refl _, fun h => absurd h htaken⟩

theorem not_taken_generated (self : NamespaceContext) (index : Nat) : ¬ self.Taken (self.generated index) := by
  intro htaken
  have hall := (generatedFrom_spec self self.bindings.length index).2 htaken
  have hchoose : ∀ i ∈ List.range (self.bindings.length + 1),
      ∃ pre ∈ self.bindings.map (·.1), occupies (index + i) pre = true := by
    intro i hi
    have hi' := List.mem_range.mp hi
    obtain ⟨binding, hmem, hoccupies⟩ := List.any_eq_true.mp (hall i (by omega))
    exact ⟨binding.1, List.mem_map_of_mem hmem, hoccupies⟩
  choose! f hmem hoccupies using hchoose
  have hinjective : ∀ i ∈ List.range (self.bindings.length + 1), ∀ j ∈ List.range (self.bindings.length + 1),
      f i = f j → i = j := by
    intro i hi j hj heq
    have hi' := hoccupies i hi
    rw [heq] at hi'
    have hsum := eq_of_occupies hi' (hoccupies j hj)
    omega
  have hnodup := List.nodup_range.map_on hinjective
  have hsubset : (List.range (self.bindings.length + 1)).map f ⊆ self.bindings.map (·.1) := by
    intro pre hpre
    obtain ⟨i, hi, rfl⟩ := List.mem_map.mp hpre
    exact hmem i hi
  have hlength := (List.subperm_of_subset hnodup hsubset).length_le
  simp only [List.length_map, List.length_range] at hlength
  omega

theorem resolve_generatedName (hself : arena.Holds self) (index : Nat) :
    self.resolve (generatedName (self.generated index)) = none := by
  cases hresolve : self.resolve (generatedName (self.generated index)) with
  | none => rfl
  | some ns =>
    refine absurd ?_ (not_taken_generated self index)
    exact List.any_eq_true.mpr ⟨_, (mem_bindings hself).mpr hresolve, occupies_generatedName _⟩

theorem le_generated (self : NamespaceContext) (index : Nat) : index ≤ self.generated index :=
  (generatedFrom_spec self self.bindings.length index).1

end NamespaceContext

theorem generatedName_injective : Function.Injective generatedName := by
  intro i j h
  have hj := occupies_generatedName j
  rw [← h] at hj
  exact eq_of_occupies (occupies_generatedName i) hj

end Lonewolf.Xmpp
