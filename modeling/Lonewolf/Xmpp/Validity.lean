import Lonewolf.Base.Transaction
import Lonewolf.Xmpp.Contexts

/-!
# Valid trees

What holds of every tree that is stored: names are local names, attributes are told apart by their expanded
names, and the bindings of a context can be declared, with a default namespace among them. The operations on
attributes, the copies of contexts and the copies of trees keep it.
-/

namespace Lonewolf.Xmpp

open Texts Transactions

/-! ### Names and attributes -/

/-- A name that can be written with a prefix of its own. -/
structure ValidName (name ns : Text) : Prop where
  localName : validLocalName name = true
  notXmlns : ns ≠ xmlnsNamespace

structure Attribute.Valid (a : Attribute) : Prop where
  name : ValidName a.name a.ns
  notDeclaration : ¬ (a.ns = [] ∧ a.name = "xmlns".toList)

def Attribute.key (a : Attribute) : Text × Text := (a.name, a.ns)

structure ValidAttributes (attributes : List Attribute) : Prop where
  valid : ∀ a ∈ attributes, a.Valid
  nodup : (attributes.map Attribute.key).Nodup

theorem validName_of_validateName {name ns : Text} {inAttribute : Bool} (h : validateName name ns inAttribute = .ok ())
    : ValidName name ns ∧ (inAttribute = true → ¬ (ns = [] ∧ name = "xmlns".toList)) := by
  unfold validateName at h
  split at h
  · cases h
  next hname =>
    split at h
    · cases h
    next hns =>
      simp only [Bool.not_eq_true', Bool.not_eq_false] at hname
      simp only [Bool.or_eq_true, decide_eq_true_eq, not_or, Bool.and_eq_true, List.isEmpty_iff] at hns
      refine ⟨⟨hname, hns.1⟩, fun hattribute hboth => hns.2 ⟨⟨hattribute, hboth.1⟩, hboth.2⟩⟩

theorem validAttributes_nil : ValidAttributes [] := ⟨nofun, List.nodup_nil⟩

theorem ValidAttributes.sublist {attributes rest : List Attribute} (h : ValidAttributes attributes)
    (hsub : rest.Sublist attributes) : ValidAttributes rest :=
  ⟨fun a ha => h.valid a (hsub.subset ha), h.nodup.sublist (hsub.map _)⟩

theorem matches_iff {a : Attribute} {name ns : Text} : a.matches name ns = true ↔ a.key = (name, ns) := by
  simp [Attribute.matches, Attribute.key]

variable {attributes result : List Attribute} {name ns value : Text}

theorem setAttribute_spec (h : setAttribute attributes name ns value = .ok result) :
    Attribute.Valid ⟨name, ns, value⟩ ∧ ((∃ index, attributes.map Attribute.key = result.map Attribute.key ∧
        result = attributes.set index ⟨name, ns, value⟩) ∨
      ((name, ns) ∉ attributes.map Attribute.key ∧ result = attributes ++ [⟨name, ns, value⟩])) := by
  simp only [setAttribute, except_bind_eq_ok, exists_unit] at h
  obtain ⟨hname, -, hset⟩ := h
  obtain ⟨hvalid, hplain⟩ := validName_of_validateName hname
  refine ⟨⟨hvalid, hplain rfl⟩, ?_⟩
  split at hset
  next index hindex =>
    cases hset
    refine .inl ⟨index, ?_, rfl⟩
    obtain ⟨hlt, hmatch, -⟩ := List.findIdx?_eq_some_iff_getElem.mp hindex
    -- The attribute that is replaced has the name of the one that is set.
    have hkey : (attributes.map Attribute.key)[index]? = some (name, ns) := by
      rw [List.getElem?_map, List.getElem?_eq_getElem hlt, Option.map_some, matches_iff.mp hmatch]
    rw [List.map_set]
    apply List.ext_getElem?
    intro i
    rw [List.getElem?_set, List.length_map, if_pos hlt]
    split
    next heq => rw [← heq, hkey]; rfl
    next => rfl
  next hnone =>
    cases hset
    refine .inr ⟨?_, rfl⟩
    intro hmem
    obtain ⟨a, ha, hkey⟩ := List.mem_map.mp hmem
    rw [List.findIdx?_eq_none_iff] at hnone
    exact absurd (matches_iff.mpr hkey) (by simpa using hnone a ha)

theorem ValidAttributes.set (hvalid : ValidAttributes attributes)
    (h : setAttribute attributes name ns value = .ok result) : ValidAttributes result := by
  obtain ⟨hnew, ⟨index, hkeys, rfl⟩ | ⟨hkey, rfl⟩⟩ := setAttribute_spec h
  · refine ⟨fun a ha => ?_, hkeys ▸ hvalid.nodup⟩
    rcases List.mem_or_eq_of_mem_set ha with hmem | rfl
    · exact hvalid.valid a hmem
    · exact hnew
  · refine ⟨List.forall_mem_append.mpr ⟨hvalid.valid, List.forall_mem_singleton.mpr hnew⟩, ?_⟩
    rw [List.map_append, List.nodup_append]
    refine ⟨hvalid.nodup, List.nodup_singleton _, fun key hmem key' hmem' heq => ?_⟩
    rw [List.map_singleton, List.mem_singleton] at hmem'
    rw [heq, hmem'] at hmem
    exact hkey hmem

theorem key_of_setAttribute (h : setAttribute attributes name ns value = .ok result) {a : Attribute} (ha : a ∈ result) :
    a ∈ attributes ∨ a = ⟨name, ns, value⟩ := by
  obtain ⟨-, ⟨index, -, rfl⟩ | ⟨-, rfl⟩⟩ := setAttribute_spec h
  · exact List.mem_or_eq_of_mem_set ha
  · rwa [List.mem_append, List.mem_singleton] at ha

theorem removeAttribute_sublist (attributes : List Attribute) (name ns : Text) :
    (removeAttribute attributes name ns).Sublist attributes := by
  unfold removeAttribute
  split
  · exact List.eraseIdx_sublist ..
  · exact List.Sublist.refl _

theorem setAttribute_of_frameAttribute (h : frameAttribute attributes name ns value = .ok result) :
    setAttribute attributes name ns value = .ok result := by
  unfold frameAttribute at h
  split at h
  · cases h
  · exact h

theorem appendAttributes_eq {attributes values result : List Attribute}
    (h : appendAttributes attributes values = .ok result) : result = attributes ++ values := by
  induction values generalizing attributes with
  | nil =>
    cases h
    exact (List.append_nil _).symm
  | cons value values ih =>
    simp only [appendAttributes, List.foldlM_cons, except_bind_eq_ok, exists_unit, except_pure_eq_ok] at h
    obtain ⟨_, ⟨-, rfl⟩, hrest⟩ := h
    rw [ih hrest, List.append_assoc]
    rfl

/-! ### Contexts -/

namespace NamespaceContext

/-- The prefixes and namespaces from the innermost binding on. -/
def pairs : NamespaceContext → List (Text × Text)
  | .empty => []
  | .bind _ parent pre ns => (pre, ns) :: parent.pairs

theorem resolve_eq (self : NamespaceContext) (pre : Text) : self.resolve pre = self.pairs.lookup pre := by
  induction self with
  | empty => rfl
  | bind address parent pre' ns ih =>
    by_cases h : pre' = pre
    · simp [resolve, binding, pairs, h]
    · have hne : (pre == pre') = false := by simpa using fun heq => h heq.symm
      rw [pairs, List.lookup_cons, hne, ← ih]
      simp [resolve, binding, h]

/-- The bindings can be declared, and there is a default namespace unless there is no binding. -/
structure Valid (context : NamespaceContext) : Prop where
  accepted : ∀ binding ∈ context.pairs, acceptsBinding binding.1 binding.2 = true
  default : context.pairs ≠ [] → ∃ ns, context.pairs.lookup [] = some ns

theorem valid_empty : Valid .empty := ⟨nofun, fun h => absurd rfl h⟩

/-- What the copies of an arena's bindings are: bindings that the other arena holds, with the same prefixes and
the namespaces that they become. -/
def Copied (source : Arena) (rescope : Option (Text × Text)) (arena : Arena) (copies : NamespaceCopies) : Prop :=
  ∀ address copied, copies.lookup address = some copied → ∃ context, source.bindings[address]? = some context ∧
    arena.Holds copied ∧
    copied.pairs = context.pairs.map fun (pre, ns) => (pre, rescopeNamespace rescope pre ns)

variable {source arena later : Arena} {rescope : Option (Text × Text)} {copies : NamespaceCopies}

theorem copied_nil (source : Arena) (rescope : Option (Text × Text)) (arena : Arena) : Copied source rescope arena [] :=
  nofun

theorem Copied.mono (h : Copied source rescope arena copies) (hgrows : arena.Grows later) :
    Copied source rescope later copies := by
  intro address copied hlookup
  obtain ⟨context, hcontext, hholds, hpairs⟩ := h address copied hlookup
  exact ⟨context, hcontext, hholds.mono hgrows, hpairs⟩

theorem copyIn_spec {context : NamespaceContext} (hsource : source.Holds context)
    (hcopies : Copied source rescope arena copies) :
    arena.Grows (context.copyIn rescope arena copies).2.1 ∧
      (context.copyIn rescope arena copies).2.1.Holds (context.copyIn rescope arena copies).1 ∧
      (context.copyIn rescope arena copies).1.pairs =
        context.pairs.map (fun (pre, ns) => (pre, rescopeNamespace rescope pre ns)) ∧
      Copied source rescope (context.copyIn rescope arena copies).2.1 (context.copyIn rescope arena copies).2.2 := by
  induction context generalizing arena copies with
  | empty => exact ⟨.refl _, trivial, rfl, hcopies⟩
  | bind address parent pre ns ih =>
    rw [copyIn]
    split
    next copied hlookup =>
      obtain ⟨context, hcontext, hholds, hpairs⟩ := hcopies address copied hlookup
      rw [hsource.1] at hcontext
      cases hcontext
      exact ⟨.refl _, hholds, hpairs, hcopies⟩
    next hlookup =>
      obtain ⟨hgrows, hholds, hpairs, hcopied⟩ := ih hsource.2 hcopies
      have hlast := Arena.grows_bind (parent.copyIn rescope arena copies).2.1
        (parent.copyIn rescope arena copies).1 pre (rescopeNamespace rescope pre ns)
      have hbind := Arena.holds_bind hholds pre (rescopeNamespace rescope pre ns)
      have hbound : ((parent.copyIn rescope arena copies).2.1.bind (parent.copyIn rescope arena copies).1 pre
          (rescopeNamespace rescope pre ns)).1.pairs =
          (NamespaceContext.bind address parent pre ns).pairs.map
            fun (pre, ns) => (pre, rescopeNamespace rescope pre ns) := by
        rw [pairs, List.map_cons, ← hpairs]
        rfl
      refine ⟨hgrows.trans hlast, hbind, hbound, ?_⟩
      intro address' copied' hlookup'
      rw [List.lookup_cons] at hlookup'
      split at hlookup'
      next heq =>
        cases hlookup'
        rw [beq_iff_eq.mp heq]
        exact ⟨_, hsource.1, hbind, hbound⟩
      next => exact hcopied.mono hlast address' copied' hlookup'

/-- The namespaces that a rescoping may write. -/
def RescopeOk (rescope : Option (Text × Text)) : Prop :=
  ∀ source target, rescope = some (source, target) → acceptsBinding [] target = true

theorem rescopeOk_none : RescopeOk none := nofun

theorem rescopeOk_some {source target : Text} (h : acceptsBinding [] target = true) :
    RescopeOk (some (source, target)) := by
  intro _ _ heq
  cases heq
  exact h

theorem accepts_rescoped (hrescope : RescopeOk rescope) {pre ns : Text} (h : acceptsBinding pre ns = true) :
    acceptsBinding pre (rescopeNamespace rescope pre ns) = true := by
  cases rescope with
  | none => exact h
  | some spaces =>
    simp only [rescopeNamespace]
    split
    next hcondition =>
      rw [Bool.and_eq_true, List.isEmpty_iff] at hcondition
      rw [hcondition.1]
      exact hrescope spaces.1 spaces.2 rfl
    next => exact h

theorem lookup_map (f : Text → Text → Text) (pairs : List (Text × Text)) (pre : Text) :
    (pairs.map fun (pre, ns) => (pre, f pre ns)).lookup pre = (pairs.lookup pre).map (f pre) := by
  induction pairs with
  | nil => rfl
  | cons binding pairs ih =>
    rw [List.map_cons, List.lookup_cons, List.lookup_cons]
    cases h : pre == binding.1 with
    | true => rw [beq_iff_eq.mp h]; rfl
    | false => exact ih

theorem Valid.rescoped {context copied : NamespaceContext} (h : context.Valid) (hrescope : RescopeOk rescope)
    (hpairs : copied.pairs = context.pairs.map fun (pre, ns) => (pre, rescopeNamespace rescope pre ns)) :
    copied.Valid := by
  refine ⟨fun binding hmem => ?_, fun hne => ?_⟩
  · rw [hpairs] at hmem
    obtain ⟨⟨pre, ns⟩, hsource, rfl⟩ := List.mem_map.mp hmem
    exact accepts_rescoped hrescope (h.accepted (pre, ns) hsource)
  · have hsource : context.pairs ≠ [] := by
      intro hnil
      rw [hnil] at hpairs
      exact hne hpairs
    obtain ⟨ns, hns⟩ := h.default hsource
    exact ⟨rescopeNamespace rescope [] ns, by rw [hpairs, lookup_map, hns, Option.map_some]⟩

end NamespaceContext

/-! ### Trees -/

open NamespaceContext (Copied copyIn_spec copied_nil rescopeOk_none rescopeOk_some)

/-- What the arena holds and can be written of an element. An element in no namespace is in the default
namespace of its context. -/
structure ElementData.Valid (arena : Arena) (data : ElementData) : Prop where
  name : ValidName data.name data.ns
  held : arena.Holds data.namespaces
  context : data.namespaces.Valid
  unnamed : data.ns = [] → data.namespaces.pairs ≠ [] → data.namespaces.pairs.lookup [] = some []
  attributes : ValidAttributes data.attributes

def Nodes.Valid (arena : Arena) : Nodes → Prop
  | .nil => True
  | .text _ rest => rest.Valid arena
  | .element data children rest => data.Valid arena ∧ children.Valid arena ∧ rest.Valid arena

structure Element.Valid (arena : Arena) (element : Element) : Prop where
  data : element.data.Valid arena
  children : element.children.Valid arena

variable {source arena later : Arena} {copies rescoped : NamespaceCopies}

theorem ElementData.Valid.mono {data : ElementData} (h : data.Valid arena) (hgrows : arena.Grows later) :
    data.Valid later :=
  ⟨h.name, h.held.mono hgrows, h.context, h.unnamed, h.attributes⟩

variable {nodes : Nodes}

theorem Nodes.Valid.mono (h : nodes.Valid arena) (hgrows : arena.Grows later) : nodes.Valid later := by
  induction nodes with
  | nil => trivial
  | text t rest ih => exact ih h
  | element data children rest ihchildren ih => exact ⟨h.1.mono hgrows, ihchildren h.2.1, ih h.2.2⟩

variable {element : Element}

theorem Element.Valid.mono (h : element.Valid arena) (hgrows : arena.Grows later) : element.Valid later :=
  ⟨h.data.mono hgrows, h.children.mono hgrows⟩

theorem Nodes.Valid.append {nodes rest : Nodes} (h : nodes.Valid arena) (h' : rest.Valid arena) :
    (nodes.append rest).Valid arena := by
  induction nodes with
  | nil => exact h'
  | text t tail ih => exact ih h
  | element data children tail _ ih => exact ⟨h.1, h.2.1, ih h.2.2⟩

theorem Nodes.Valid.pushElement (h : nodes.Valid arena)
    (helement : element.Valid arena) : (nodes.pushElement element).Valid arena :=
  h.append ⟨helement.data, helement.children, trivial⟩

theorem Nodes.Valid.removeElements (h : nodes.Valid arena) (name ns : Text) :
    (nodes.removeElements name ns).Valid arena := by
  induction nodes with
  | nil => trivial
  | text t rest ih => exact ih h
  | element data children rest _ ih =>
    rw [Nodes.removeElements]
    split
    · exact ih h.2.2
    · exact ⟨h.1, h.2.1, ih h.2.2⟩

theorem build_eq_ok {builder : ElementBuilder} (h : builder.build = .ok element) : element = builder := by
  unfold ElementBuilder.build at h
  split at h
  · cases h
  · cases h
    rfl

/-! ### Copies of trees -/

theorem ElementData.cloneIn_valid {data : ElementData} (h : data.Valid source)
    (hcopies : Copied source none arena copies) {result : ElementData × Arena × NamespaceCopies}
    (hclone : data.cloneIn arena copies = .ok result) :
    arena.Grows result.2.1 ∧ result.1.Valid result.2.1 ∧ Copied source none result.2.1 result.2.2 := by
  simp only [cloneIn, except_bind_eq_ok, exists_unit, except_pure_eq_ok] at hclone
  obtain ⟨-, attributes, hattributes, rfl⟩ := hclone
  obtain ⟨hgrows, hholds, hpairs, hcopied⟩ := copyIn_spec h.held hcopies
  have hsame : (data.namespaces.copyIn none arena copies).1.pairs = data.namespaces.pairs := by
    rw [hpairs]
    exact List.map_id _
  refine ⟨hgrows, ⟨h.name, hholds, h.context.rescoped rescopeOk_none hpairs, ?_, ?_⟩, hcopied⟩
  · intro hns hne
    rw [hsame] at hne ⊢
    exact h.unnamed hns hne
  · rw [appendAttributes_eq hattributes]
    exact h.attributes

theorem Nodes.cloneIn_valid (h : nodes.Valid source) (hcopies : Copied source none arena copies)
    {result : Nodes × Arena × NamespaceCopies} (hclone : nodes.cloneIn arena copies = .ok result) :
    arena.Grows result.2.1 ∧ result.1.Valid result.2.1 ∧ Copied source none result.2.1 result.2.2 := by
  induction nodes generalizing arena copies result with
  | nil =>
    cases hclone
    exact ⟨.refl _, trivial, hcopies⟩
  | text t rest ih =>
    simp only [cloneIn, except_bind_eq_ok, except_pure_eq_ok] at hclone
    obtain ⟨tail, htail, rfl⟩ := hclone
    obtain ⟨hgrows, hrest, hcopied⟩ := ih h hcopies htail
    exact ⟨hgrows, hrest, hcopied⟩
  | element data children rest ihchildren ih =>
    simp only [cloneIn, except_bind_eq_ok, except_pure_eq_ok] at hclone
    obtain ⟨first, hfirst, inner, hinner, element, helement, tail, htail, rfl⟩ := hclone
    obtain rfl := build_eq_ok helement
    obtain ⟨hgrows, hdata, hcopied⟩ := data.cloneIn_valid h.1 hcopies hfirst
    obtain ⟨hgrows', hchildren, hcopied'⟩ := ihchildren h.2.1 hcopied hinner
    obtain ⟨hgrows'', hrest, hcopied''⟩ := ih h.2.2 hcopied' htail
    exact ⟨hgrows.trans (hgrows'.trans hgrows''),
      ⟨hdata.mono (hgrows'.trans hgrows''), hchildren.mono hgrows'', hrest⟩, hcopied''⟩

theorem Element.Valid.toBuilder_valid (h : element.Valid source) (hcopies : Copied source none arena copies)
    {result : ElementBuilder × Arena × NamespaceCopies}
    (hclone : element.toBuilderWithNamespaces arena copies = .ok result) :
    arena.Grows result.2.1 ∧ Element.Valid result.2.1 result.1 ∧ Copied source none result.2.1 result.2.2 := by
  simp only [Element.toBuilderWithNamespaces, except_bind_eq_ok, except_pure_eq_ok] at hclone
  obtain ⟨first, hfirst, inner, hinner, rfl⟩ := hclone
  obtain ⟨hgrows, hdata, hcopied⟩ := element.data.cloneIn_valid h.data hcopies hfirst
  obtain ⟨hgrows', hchildren, hcopied'⟩ := element.children.cloneIn_valid h.children hcopied hinner
  exact ⟨hgrows.trans hgrows', ⟨hdata.mono hgrows', hchildren⟩, hcopied'⟩

theorem Nodes.rescopeIn_valid {scope target : Text} (htarget : acceptsBinding [] target = true) (hne : target ≠ [])
    (h : nodes.Valid source) (hcopies : Copied source none arena copies)
    (hrescoped : Copied source (some (scope, target)) arena rescoped)
    {result : Nodes × Arena × NamespaceCopies × NamespaceCopies}
    (hclone : nodes.rescopeIn scope target arena copies rescoped = .ok result) :
    arena.Grows result.2.1 ∧ result.1.Valid result.2.1 ∧
      Copied source none result.2.1 result.2.2.1 ∧
      Copied source (some (scope, target)) result.2.1 result.2.2.2 := by
  induction nodes generalizing arena copies rescoped result with
  | nil =>
    cases hclone
    exact ⟨.refl _, trivial, hcopies, hrescoped⟩
  | text t rest ih =>
    simp only [rescopeIn, except_bind_eq_ok, exists_unit, except_pure_eq_ok] at hclone
    obtain ⟨-, tail, htail, rfl⟩ := hclone
    obtain ⟨hgrows, hrest, hcopied⟩ := ih h hcopies hrescoped htail
    exact ⟨hgrows, hrest, hcopied⟩
  | element data children rest ihchildren ih =>
    rw [rescopeIn] at hclone
    split at hclone
    next =>
      simp only [except_bind_eq_ok, except_pure_eq_ok] at hclone
      obtain ⟨first, hfirst, element, helement, tail, htail, rfl⟩ := hclone
      obtain rfl := build_eq_ok helement
      have hboth : Element.Valid source ⟨data, children⟩ := ⟨h.1, h.2.1⟩
      obtain ⟨hgrows, helement, hcopied⟩ := hboth.toBuilder_valid hcopies hfirst
      obtain ⟨hgrows', hrest, hcopied', hrescoped'⟩ := ih h.2.2 hcopied (hrescoped.mono hgrows) htail
      exact ⟨hgrows.trans hgrows', ⟨helement.data.mono hgrows', helement.children.mono hgrows', hrest⟩,
        hcopied', hrescoped'⟩
    next =>
      simp only [except_bind_eq_ok, exists_unit, except_pure_eq_ok] at hclone
      obtain ⟨hname, attributes, hattributes, inner, hinner, element, helement, tail, htail, rfl⟩ := hclone
      obtain rfl := build_eq_ok helement
      obtain ⟨hgrows, hholds, hpairs, hcontexts⟩ := copyIn_spec h.1.held hrescoped
      obtain ⟨hgrows', hchildren, hcopied', hrescoped'⟩ := ihchildren h.2.1 (hcopies.mono hgrows) hcontexts hinner
      obtain ⟨hgrows'', hrest, hcopied'', hrescoped''⟩ := ih h.2.2 hcopied' hrescoped' htail
      have hlater := hgrows'.trans hgrows''
      refine ⟨hgrows.trans hlater, ⟨⟨(validName_of_validateName hname).1, hholds.mono hlater,
        h.1.context.rescoped (rescopeOk_some htarget) hpairs, fun hnil => absurd hnil hne, ?_⟩, hchildren.mono hgrows'', hrest⟩,
        hcopied'', hrescoped''⟩
      rw [appendAttributes_eq hattributes]
      exact h.1.attributes

end Lonewolf.Xmpp
