import Lonewolf.Xmpp.Serialisation

/-!
# Rescoped stanzas

A stanza that goes from a client to a server or back changes its content namespace. What `rescope_in` returns is the
tree in which the elements of the content namespace are moved, down to the first element of another namespace; it is
read as that tree when it is written, and rescoping it back gives the tree before, unless an element of the other
content namespace was among those moved.
-/

namespace Lonewolf.Xmpp

open Texts Text XmlReading Transactions

/-! ### Trees without contexts -/

namespace Nodes

/-- The tree without the bindings of prefixes. -/
def bare : Nodes → Nodes
  | .nil => .nil
  | .text t rest => .text t rest.bare
  | .element data children rest => .element { data with namespaces := .empty } children.bare rest.bare

/-- The elements of the source namespace that no other element stands above are moved. -/
def moved (source target : Text) : Nodes → Nodes
  | .nil => .nil
  | .text t rest => .text t (rest.moved source target)
  | .element data children rest =>
    if data.ns = source then
      .element { data with ns := target } (children.moved source target) (rest.moved source target)
    else .element data children (rest.moved source target)

/-- No element of the target namespace is among those that moving reaches. -/
def Apart (source target : Text) : Nodes → Prop
  | .nil => True
  | .text _ rest => rest.Apart source target
  | .element data children rest =>
    data.ns ≠ target ∧ (data.ns = source → children.Apart source target) ∧ rest.Apart source target

/-- The elements of a list one after another. -/
def ofElements : List Element → Nodes
  | [] => .nil
  | first :: rest => .element first.data first.children (ofElements rest)

variable {source target : Text} {nodes : Nodes}

theorem bare_moved (nodes : Nodes) : (nodes.moved source target).bare = nodes.bare.moved source target := by
  induction nodes with
  | nil => rfl
  | text t rest ih => simp only [moved, bare, ih]
  | element data children rest ihchildren ih =>
    simp only [moved, bare]
    split
    · simp only [bare, ihchildren, ih]
    · simp only [bare, ih]

theorem moved_self (nodes : Nodes) : nodes.moved source source = nodes := by
  induction nodes with
  | nil => rfl
  | text t rest ih => simp only [moved, ih]
  | element data children rest ihchildren ih =>
    simp only [moved]
    split
    next hns => rw [ihchildren, ih, ← hns]
    · rw [ih]

theorem moved_moved (h : nodes.Apart source target) : (nodes.moved source target).moved target source = nodes := by
  induction nodes with
  | nil => rfl
  | text t rest ih =>
    simp only [moved]
    rw [ih h]
  | element data children rest ihchildren ih =>
    obtain ⟨htarget, hchildren, hrest⟩ := h
    simp only [moved]
    split
    next hns =>
      simp only [moved, if_true]
      rw [ihchildren (hchildren hns), ih hrest, ← hns]
    next hns =>
      simp only [moved, if_neg htarget]
      rw [ih hrest]

theorem apart_bare : nodes.bare.Apart source target ↔ nodes.Apart source target := by
  induction nodes with
  | nil => rfl
  | text t rest ih => exact ih
  | element data children rest ihchildren ih => simp only [bare, Apart, ihchildren, ih]

theorem events_bare (nodes : Nodes) : nodes.bare.events = nodes.events := by
  induction nodes with
  | nil => rfl
  | text t rest ih => simp only [bare, events, ih]
  | element data children rest ihchildren ih => simp only [bare, events, ihchildren, ih]

theorem size_bare (nodes : Nodes) : nodes.bare.size = nodes.size := by
  induction nodes with
  | nil => rfl
  | text t rest ih => simp only [bare, size, ih]
  | element data children rest ihchildren ih => simp only [bare, size, ihchildren, ih]

theorem size_moved (source target : Text) (nodes : Nodes) : (nodes.moved source target).size = nodes.size := by
  induction nodes with
  | nil => rfl
  | text t rest ih => simp only [moved, size, ih]
  | element data children rest ihchildren ih =>
    simp only [moved]
    split
    · simp only [size, ihchildren, ih]
    · simp only [size, ih]

theorem size_eq_of_bare {other : Nodes} (h : nodes.bare = other.bare) : nodes.size = other.size := by
  rw [← size_bare nodes, h, size_bare]

theorem events_ofElements (elements : List Element) : (ofElements elements).events = elements.flatMap Element.events := by
  induction elements with
  | nil => rfl
  | cons first rest ih => simp [ofElements, events, Element.events, ih]

end Nodes

open Nodes (ofElements bare moved size_eq_of_bare)

/-! ### When copying succeeds, and what is copied -/

/-- The names of an element can be stored. -/
structure ElementData.Copyable (name ns : Text) (attributes : List Attribute) : Prop where
  name : validateName name ns false = .ok ()
  attributes : ∀ a ∈ attributes, validateName a.name a.ns true = .ok ()

/-- An element with these children can be built. -/
def Nodes.Fits (children : Nodes) : Prop :=
  children.size.1 + 1 ≤ maxElementDepth ∧ children.size.2 + 1 ≤ maxElementNodes

def Nodes.Copyable : Nodes → Prop
  | .nil => True
  | .text _ rest => rest.Copyable
  | .element data children rest =>
    ElementData.Copyable data.name data.ns data.attributes ∧ children.Copyable ∧ children.Fits ∧ rest.Copyable

def Nodes.Rescopable (source target : Text) : Nodes → Prop
  | .nil => True
  | .text t rest => validateText t = .ok () ∧ rest.Rescopable source target
  | .element data children rest =>
    (if data.ns = source then
      ElementData.Copyable data.name target data.attributes ∧ children.Rescopable source target ∧ children.Fits
    else ElementData.Copyable data.name data.ns data.attributes ∧ children.Copyable ∧ children.Fits) ∧
      rest.Rescopable source target

theorem appendAttributes_eq_ok {attributes values result : List Attribute} :
    appendAttributes attributes values = .ok result ↔
      (∀ a ∈ values, validateName a.name a.ns true = .ok ()) ∧ result = attributes ++ values := by
  induction values generalizing attributes with
  | nil =>
    simp only [appendAttributes, List.foldlM_nil, except_pure_eq_ok, List.append_nil]
    exact ⟨fun h => ⟨fun _ hmem => absurd hmem List.not_mem_nil, h.symm⟩, fun h => h.2.symm⟩
  | cons value values ih =>
    simp only [appendAttributes] at ih ⊢
    rw [List.foldlM_cons]
    simp only [except_bind_eq_ok, except_pure_eq_ok, exists_unit]
    constructor
    · rintro ⟨next, ⟨hvalue, rfl⟩, hrest⟩
      obtain ⟨hvalues, rfl⟩ := ih.mp hrest
      refine ⟨fun a hmem => ?_, by simp⟩
      rcases List.mem_cons.mp hmem with rfl | hmem
      · exact hvalue
      · exact hvalues a hmem
    · rintro ⟨hvalues, rfl⟩
      refine ⟨_, ⟨hvalues value List.mem_cons_self, rfl⟩, ?_⟩
      exact ih.mpr ⟨fun a hmem => hvalues a (List.mem_cons_of_mem value hmem), by simp⟩

theorem build_eq_ok_iff {builder : ElementBuilder} {element : Element} :
    builder.build = .ok element ↔ builder.children.Fits ∧ element = builder := by
  unfold ElementBuilder.build Nodes.Fits
  split
  next hlimits =>
    constructor
    · nofun
    · rintro ⟨⟨hdepth, hnodes⟩, -⟩
      omega
  next hlimits =>
    constructor
    · intro h
      cases h
      exact ⟨⟨by omega, by omega⟩, rfl⟩
    · rintro ⟨-, rfl⟩
      rfl

theorem build_yields {builder : ElementBuilder} {nodes : Nodes} (h : builder.children.size = nodes.size) :
    Yields builder.build nodes.Fits (· = builder) := by
  refine (Yields.of_iff build_eq_ok_iff).iff ?_
  rw [Nodes.Fits, h]
  rfl

theorem appendAttributes_yields (values : List Attribute) :
    Yields (appendAttributes [] values) (∀ a ∈ values, validateName a.name a.ns true = .ok ()) (· = values) :=
  .of_iff appendAttributes_eq_ok

section Copies

variable {source target : Text}

theorem ElementData.cloneIn_yields (data : ElementData) (arena : Arena) (copies : NamespaceCopies) :
    Yields (data.cloneIn arena copies) (ElementData.Copyable data.name data.ns data.attributes) fun result =>
      ({ result.1 with namespaces := .empty } : ElementData) = { data with namespaces := .empty } := by
  unfold ElementData.cloneIn
  refine (Yields.unit.bind fun _ _ => (appendAttributes_yields data.attributes).last ?_).iff
    ⟨fun h => ⟨h.1, h.2⟩, fun h => ⟨h.1, h.2⟩⟩
  rintro _ rfl
  rfl

theorem Nodes.cloneIn_yields (nodes : Nodes) (arena : Arena) (copies : NamespaceCopies) :
    Yields (nodes.cloneIn arena copies) nodes.Copyable fun result => result.1.bare = nodes.bare := by
  induction nodes generalizing arena copies with
  | nil => exact .pure rfl
  | text t rest ih =>
    refine (ih arena copies).last fun tail htail => ?_
    simp only [bare, htail]
  | element data children rest ihchildren ih =>
    refine (data.cloneIn_yields arena copies).bind fun first hfirst => ?_
    refine (ihchildren first.2.1 first.2.2).bind fun inner hinner => ?_
    refine (build_yields (size_eq_of_bare hinner)).bind ?_
    rintro _ rfl
    refine (ih inner.2.1 inner.2.2).last fun tail htail => ?_
    simp only [bare, hfirst, hinner, htail]

theorem Element.toBuilder_yields (element : Element) (arena : Arena) (copies : NamespaceCopies) :
    Yields (element.toBuilderWithNamespaces arena copies)
      (ElementData.Copyable element.data.name element.data.ns element.data.attributes ∧ element.children.Copyable)
      fun result => ({ result.1.data with namespaces := .empty } : ElementData) =
        { element.data with namespaces := .empty } ∧ result.1.children.bare = element.children.bare :=
  (element.data.cloneIn_yields arena copies).bind fun first hfirst =>
    (element.children.cloneIn_yields first.2.1 first.2.2).last fun _ hinner => ⟨hfirst, hinner⟩

theorem Nodes.rescopeIn_yields (hne : source ≠ target) (nodes : Nodes) (arena : Arena)
    (copies rescoped : NamespaceCopies) :
    Yields (nodes.rescopeIn source target arena copies rescoped) (nodes.Rescopable source target) fun result =>
      result.1.bare = (nodes.moved source target).bare := by
  induction nodes generalizing arena copies rescoped with
  | nil => exact .pure rfl
  | text t rest ih =>
    refine Yields.unit.bind fun _ _ => (ih arena copies rescoped).last fun tail htail => ?_
    simp only [bare, moved, htail]
  | element data children rest ihchildren ih =>
    unfold Nodes.rescopeIn Nodes.Rescopable moved
    by_cases hns : data.ns = source
    · rw [if_neg (by simp [hns, hne]), if_pos hns, if_pos hns]
      let context := data.namespaces.copyIn (some (source, target)) arena rescoped
      refine Yields.iff (p := validateName data.name target false = .ok () ∧
        (∀ a ∈ data.attributes, validateName a.name a.ns true = .ok ()) ∧ children.Rescopable source target ∧
          children.Fits ∧ rest.Rescopable source target)
        (Yields.unit.bind fun _ _ => (appendAttributes_yields data.attributes).bind ?_)
        ⟨fun h => ⟨⟨⟨h.1, h.2.1⟩, h.2.2.1, h.2.2.2.1⟩, h.2.2.2.2⟩, fun h => ⟨h.1.1.1, h.1.1.2, h.1.2.1, h.1.2.2, h.2⟩⟩
      rintro _ rfl
      refine (ihchildren context.2.1 copies context.2.2).bind fun inner hinner => ?_
      refine (build_yields ((size_eq_of_bare hinner).trans (Nodes.size_moved source target _))).bind ?_
      rintro _ rfl
      refine (ih inner.2.1 inner.2.2.1 inner.2.2.2).last fun tail htail => ?_
      simp only [bare, hinner, htail]
    · rw [if_pos (.inl hns), if_neg hns, if_neg hns]
      refine Yields.iff (p := (ElementData.Copyable data.name data.ns data.attributes ∧ children.Copyable) ∧
        children.Fits ∧ rest.Rescopable source target)
        ((Element.toBuilder_yields ⟨data, children⟩ arena copies).bind fun copied hcopied => ?_)
        ⟨fun h => ⟨⟨h.1.1, h.1.2, h.2.1⟩, h.2.2⟩, fun h => ⟨⟨h.1.1, h.1.2.1⟩, h.1.2.2, h.2⟩⟩
      refine (build_yields (size_eq_of_bare hcopied.2)).bind ?_
      rintro _ rfl
      refine (ih copied.2.1 copied.2.2 rescoped).last fun tail htail => ?_
      simp only [bare, hcopied.1, hcopied.2, htail]

end Copies

/-! ### Rescoping back -/

section Back

variable {source target : Text} {nodes : Nodes}

theorem copyable_bare (nodes : Nodes) : nodes.bare.Copyable ↔ nodes.Copyable := by
  induction nodes with
  | nil => rfl
  | text t rest ih => exact ih
  | element data children rest ihchildren ih =>
    simp only [bare, Nodes.Copyable, ihchildren, ih, Nodes.Fits, Nodes.size_bare]

theorem rescopable_bare (nodes : Nodes) : nodes.bare.Rescopable source target ↔ nodes.Rescopable source target := by
  induction nodes with
  | nil => rfl
  | text t rest ih => simp only [bare, Nodes.Rescopable, ih]
  | element data children rest ihchildren ih =>
    simp only [bare, Nodes.Rescopable, ihchildren, ih, Nodes.Fits, Nodes.size_bare, copyable_bare]

theorem validateName_of_stanza {name ns : Text} (h : validateName name ns false = .ok ()) (stanza : StanzaNamespace) :
    validateName name stanza.asStr false = .ok () := by
  obtain ⟨hname, -⟩ := validName_of_validateName h
  have hns : ¬((decide (stanza.asStr = xmlnsNamespace) ||
      (false && stanza.asStr.isEmpty && decide (name = "xmlns".toList))) = true) := by
    cases stanza <;> simp <;> decide
  have htext : validateText stanza.asStr = .ok () := by cases stanza <;> decide
  rw [validateName, hname.localName, if_neg (by simp), if_neg hns, htext]

theorem Rescopable.back {ns : StanzaNamespace} (h : nodes.Rescopable ns.asStr target)
    (hapart : nodes.Apart ns.asStr target) : (nodes.moved ns.asStr target).Rescopable target ns.asStr := by
  induction nodes with
  | nil => trivial
  | text t rest ih => exact ⟨h.1, ih h.2 hapart⟩
  | element data children rest ihchildren ih =>
    obtain ⟨helement, hrest⟩ := h
    obtain ⟨htarget, hchildren, hapart'⟩ := hapart
    simp only [moved]
    split at helement
    next hns =>
      obtain ⟨⟨hname, hattributes⟩, hinner, hfits⟩ := helement
      rw [if_pos hns]
      refine ⟨?_, ih hrest hapart'⟩
      rw [if_pos rfl]
      refine ⟨⟨validateName_of_stanza hname ns, hattributes⟩, ihchildren hinner (hchildren hns), ?_⟩
      rwa [Nodes.Fits, Nodes.size_moved]
    next hns =>
      rw [if_neg hns]
      refine ⟨?_, ih hrest hapart'⟩
      rw [if_neg htarget]
      exact helement

end Back

/-! ### The children of a stanza -/

section Children

variable {source target : Text}

theorem bare_element {nodes children : Nodes} {data : ElementData}
    (h : nodes.bare = (Nodes.element data children .nil).bare) :
    ∃ data' children', nodes = .element data' children' .nil ∧
      ({ data' with namespaces := .empty } : ElementData) = { data with namespaces := .empty } ∧
      children'.bare = children.bare := by
  match nodes with
  | .element data' children' .nil =>
    simp only [bare, Nodes.element.injEq] at h
    exact ⟨data', children', rfl, h.1, h.2.1⟩
  | .element _ _ (.text _ _) | .element _ _ (.element _ _ _) =>
    simp only [bare, Nodes.element.injEq, reduceCtorEq, and_false] at h

theorem rescopeChildren_yields (hne : source ≠ target) (children : List Element) (arena : Arena)
    (copies rescoped : NamespaceCopies) :
    Yields (Stanza.rescopeChildren source target children arena copies rescoped)
      ((ofElements children).Rescopable source target) fun result =>
        (ofElements result.1).bare = ((ofElements children).moved source target).bare := by
  induction children generalizing arena copies rescoped with
  | nil => exact .pure rfl
  | cons child rest ih =>
    -- What is left of the tree of the child alone when it was moved.
    have hshape : ∃ data children, (Nodes.element child.data child.children .nil).moved source target =
        .element data children .nil ∧
        (ofElements (child :: rest)).moved source target =
          .element data children ((ofElements rest).moved source target) := by
      simp only [ofElements, moved]
      split
      · exact ⟨_, _, rfl, rfl⟩
      · exact ⟨_, _, rfl, rfl⟩
    obtain ⟨data, children, hmoved, hmoved'⟩ := hshape
    rw [hmoved']
    refine Yields.iff (p := (Nodes.element child.data child.children .nil).Rescopable source target ∧
        (ofElements rest).Rescopable source target)
      ((Nodes.rescopeIn_yields hne _ arena copies rescoped).bind fun first hfirst => ?_)
      ⟨fun h => ⟨h.1.1, h.2⟩, fun h => ⟨⟨h.1, trivial⟩, h.2⟩⟩
    rw [hmoved] at hfirst
    obtain ⟨nodes, arena, copies, rescoped⟩ := first
    obtain ⟨data', children', rfl, hdata, hchildren⟩ := bare_element hfirst
    refine (ih arena copies rescoped).last fun tail htail => ?_
    simp only [ofElements, bare, hdata, hchildren, htail]

theorem cloneChildren_yields (children : List Element) (arena : Arena) (copies : NamespaceCopies) :
    Yields (Stanza.cloneChildren (fun _ => true) children arena copies) (ofElements children).Copyable
      fun result => (ofElements result.1).bare = (ofElements children).bare := by
  induction children generalizing arena copies with
  | nil => exact .pure rfl
  | cons child rest ih =>
    refine Yields.iff (p := (ElementData.Copyable child.data.name child.data.ns child.data.attributes ∧
        child.children.Copyable) ∧ child.children.Fits ∧ (ofElements rest).Copyable)
      ((child.toBuilder_yields arena copies).bind fun copied hcopied => ?_) and_assoc
    refine (build_yields (size_eq_of_bare hcopied.2)).bind ?_
    rintro _ rfl
    refine (ih copied.2.1 copied.2.2).last fun tail htail => ?_
    simp only [ofElements, bare, hcopied.1, hcopied.2, htail]

end Children

/-! ### What is validated -/

section Validation

theorem validateChildren_congr {children children' : List Element}
    (h : (ofElements children).bare = (ofElements children').bare) (ns : Text) (nodes errors : Nat) :
    StanzaBuilder.validateChildren ns nodes errors children = StanzaBuilder.validateChildren ns nodes errors children' ∧
      children.length = children'.length := by
  induction children generalizing children' nodes errors with
  | nil =>
    cases children' with
    | nil => exact ⟨rfl, rfl⟩
    | cons _ _ => cases h
  | cons child rest ih =>
    cases children' with
    | nil => cases h
    | cons child' rest' =>
      simp only [ofElements, bare, Nodes.element.injEq] at h
      obtain ⟨hdata, hchildren, hrest⟩ := h
      obtain ⟨hname, hns, -⟩ := ElementData.mk.inj hdata
      have hsize := size_eq_of_bare hchildren
      have hlength := (ih hrest 0 0).2
      have hempty : rest ≠ [] ↔ rest' ≠ [] := by
        rw [← List.length_pos_iff, ← List.length_pos_iff, hlength]
      simp only [StanzaBuilder.validateChildren, hname, hns, hsize, hempty, List.length_cons, hlength,
        (ih hrest _ _).1, and_self]

theorem validate_congr {builder builder' : StanzaBuilder} (hns : builder.header.ns = builder'.header.ns)
    (hfrom : builder.header.fromJid = none ↔ builder'.header.fromJid = none)
    (hto : builder.header.toJid = none ↔ builder'.header.toJid = none)
    (htype : builder.header.stanzaType = builder'.header.stanzaType) (hid : builder.header.id = builder'.header.id)
    (hchildren : (ofElements builder.children).bare = (ofElements builder'.children).bare) :
    builder.validate = builder'.validate := by
  have hvalidate := fun ns nodes errors => (validateChildren_congr hchildren ns nodes errors).1
  have hlength := (validateChildren_congr hchildren [] 0 0).2
  simp only [StanzaBuilder.validate, hns, hfrom, hto, htype, hid, hvalidate, hlength]

theorem build_stanza_yields (builder : StanzaBuilder) :
    Yields builder.build (builder.validate = .ok ()) (· = builder) :=
  Yields.unit.last fun _ _ => rfl

end Validation

/-! ### Stanzas -/

namespace Stanza

/-- The tree of a stanza, with the attributes of its header. -/
def tree (stanza : Stanza) : Nodes :=
  .element ⟨stanza.header.stanzaType.kind.asStr, stanza.header.ns.asStr, .empty,
    stanza.headerAttributes ++ stanza.attributes⟩ (Nodes.ofElements stanza.children).bare .nil

theorem events_tree (stanza : Stanza) : stanza.tree.events = stanza.events := by
  simp [tree, Nodes.events, Nodes.events_bare, Nodes.events_ofElements, events]

theorem headerAttributes_clone (stanza : Stanza) (ns : StanzaNamespace) (namespaces : NamespaceContext)
    (attributes : List Attribute) (children : List Element) :
    headerAttributes ⟨{ cloneHeader stanza.header with ns := ns }, namespaces, attributes, children⟩ =
      stanza.headerAttributes := by
  simp [headerAttributes, cloneHeader, Function.comp_def, Jid.resolve_clone, serializedType]

/-- The names of a stanza can be stored in the other namespace. -/
structure Moves (stanza : Stanza) (ns : StanzaNamespace) : Prop where
  attributes : ∀ a ∈ stanza.attributes, validateName a.name a.ns true = .ok ()
  children : if ns = stanza.header.ns then (Nodes.ofElements stanza.children).Copyable
    else (Nodes.ofElements stanza.children).Rescopable stanza.header.ns.asStr ns.asStr

/-- The stanza in the other namespace, apart from its contexts. -/
structure IsMoved (stanza : Stanza) (ns : StanzaNamespace) (result : Stanza) : Prop where
  header : result.header = { cloneHeader stanza.header with ns := ns }
  attributes : result.attributes = stanza.attributes
  children : (Nodes.ofElements result.children).bare =
    ((Nodes.ofElements stanza.children).moved stanza.header.ns.asStr ns.asStr).bare

theorem asStr_ne {ns ns' : StanzaNamespace} (h : ns ≠ ns') : ns'.asStr ≠ ns.asStr := by
  cases ns <;> cases ns' <;> first | exact absurd rfl h | decide

theorem IsMoved.validate_same {stanza result result' : Stanza} {ns : StanzaNamespace} (h : stanza.IsMoved ns result)
    (h' : stanza.IsMoved ns result') : StanzaBuilder.validate result = StanzaBuilder.validate result' := by
  have hheader := h.header.trans h'.header.symm
  have hchildren := h.children.trans h'.children.symm
  apply validate_congr _ _ _ _ _ hchildren <;> rw [hheader]

theorem toBuilderInFiltered_yields (stanza : Stanza) (arena : Arena) :
    Yields (stanza.toBuilderInFiltered (fun _ => true) arena)
      ((∀ a ∈ stanza.attributes, validateName a.name a.ns true = .ok ()) ∧
        (ofElements stanza.children).Copyable) fun result => stanza.IsMoved stanza.header.ns result.1 := by
  let context := stanza.namespaces.copyIn none arena []
  refine (appendAttributes_yields stanza.attributes).bind ?_
  rintro _ rfl
  refine (cloneChildren_yields stanza.children context.2.1 context.2.2).last fun copied hcopied => ⟨rfl, rfl, ?_⟩
  rw [Nodes.moved_self]
  exact hcopied

/-- When rescoping succeeds, and what it gives: all stanzas that are so moved are valid or none. -/
theorem rescopeIn_yields (stanza : Stanza) (ns : StanzaNamespace) (arena : Arena) : Yields (stanza.rescopeIn ns arena)
      (stanza.Moves ns ∧ ∀ result, stanza.IsMoved ns result → StanzaBuilder.validate result = .ok ())
      fun result => stanza.IsMoved ns result.1 := by
  have hbuild (builder : StanzaBuilder) (hmoved : stanza.IsMoved ns builder) : Yields builder.build
      (∀ result, stanza.IsMoved ns result → StanzaBuilder.validate result = .ok ()) (· = builder) :=
    (build_stanza_yields builder).iff ⟨fun h _ hresult => (hresult.validate_same hmoved).trans h, fun h => h _ hmoved⟩
  have hmoves : ((∀ a ∈ stanza.attributes, validateName a.name a.ns true = .ok ()) ∧
      if ns = stanza.header.ns then (ofElements stanza.children).Copyable
      else (ofElements stanza.children).Rescopable stanza.header.ns.asStr ns.asStr) ↔ stanza.Moves ns :=
    ⟨fun h => ⟨h.1, h.2⟩, fun h => ⟨h.1, h.2⟩⟩
  rw [← hmoves]
  unfold rescopeIn
  by_cases hns : ns = stanza.header.ns
  · rw [if_pos hns, if_pos hns]
    subst hns
    refine (stanza.toBuilderInFiltered_yields arena).bind fun first hfirst => (hbuild _ hfirst).last ?_
    rintro _ rfl
    exact hfirst
  · rw [if_neg hns, if_neg hns]
    let context := stanza.namespaces.copyIn (some (stanza.header.ns.asStr, ns.asStr)) arena []
    refine Yields.iff ((appendAttributes_yields stanza.attributes).bind ?_) and_assoc.symm
    rintro _ rfl
    refine (rescopeChildren_yields (asStr_ne hns) stanza.children context.2.1 [] context.2.2).bind
      fun copied hcopied => ?_
    have hmoved : stanza.IsMoved ns
        ⟨{ cloneHeader stanza.header with ns := ns }, context.1, stanza.attributes, copied.1⟩ := ⟨rfl, rfl, hcopied⟩
    refine (hbuild _ hmoved).last ?_
    rintro _ rfl
    exact hmoved

section Moved

variable {stanza result : Stanza} {ns : StanzaNamespace}

section

variable (h : stanza.IsMoved ns result)
include h

theorem IsMoved.tree : result.tree = stanza.tree.moved stanza.header.ns.asStr ns.asStr := by
  obtain ⟨header, namespaces, attributes, children⟩ := result
  obtain ⟨rfl, hattributes, hchildren⟩ := h
  simp only at hattributes hchildren
  subst hattributes
  have hheader := headerAttributes_clone stanza ns namespaces stanza.attributes children
  simp only [Stanza.tree, moved, if_true, hheader, hchildren, Nodes.bare_moved]
  rfl

theorem IsMoved.back_children (hapart : (ofElements stanza.children).Apart stanza.header.ns.asStr ns.asStr) :
    ((ofElements result.children).moved ns.asStr stanza.header.ns.asStr).bare = (ofElements stanza.children).bare := by
  rw [Nodes.bare_moved, h.children, ← Nodes.bare_moved, Nodes.moved_moved hapart]

theorem IsMoved.moves_back (hmoves : stanza.Moves ns)
    (hapart : (ofElements stanza.children).Apart stanza.header.ns.asStr ns.asStr) : result.Moves stanza.header.ns := by
  have hns : result.header.ns = ns := by rw [h.header]
  have hchildren := hmoves.children
  refine ⟨by rw [h.attributes]; exact hmoves.attributes, ?_⟩
  rw [hns]
  split at hchildren
  next heq =>
    rw [if_pos heq.symm, ← copyable_bare, h.children, heq, Nodes.moved_self]
    exact (copyable_bare _).mpr hchildren
  next hne =>
    rw [if_neg (Ne.symm hne), ← rescopable_bare, h.children]
    exact (rescopable_bare _).mpr (Rescopable.back hchildren hapart)

theorem IsMoved.validate_back {back : Stanza} (hback : result.IsMoved stanza.header.ns back)
    (hapart : (ofElements stanza.children).Apart stanza.header.ns.asStr ns.asStr) :
    StanzaBuilder.validate back = StanzaBuilder.validate stanza := by
  have hns : result.header.ns = ns := by rw [h.header]
  have hchildren := hback.children
  rw [hns, h.back_children hapart] at hchildren
  apply validate_congr
  · rw [hback.header]
  · rw [hback.header, h.header]
    simp [cloneHeader]
  · rw [hback.header, h.header]
    simp [cloneHeader]
  · rw [hback.header, h.header]
    rfl
  · rw [hback.header, h.header]
    rfl
  · exact hchildren

end

theorem moved_back_tree (hapart : (ofElements stanza.children).Apart stanza.header.ns.asStr ns.asStr) :
    (stanza.tree.moved stanza.header.ns.asStr ns.asStr).moved ns.asStr stanza.header.ns.asStr = stanza.tree := by
  have hchildren := Nodes.moved_moved (Nodes.apart_bare.mpr hapart)
  simp only [Stanza.tree, moved, if_true, hchildren]

end Moved

end Stanza

theorem Made.validated {unicode : Unicode} {arena : Arena} {item : Item} (h : Made unicode arena item) :
    ∀ stanza, item = .stanza stanza → StanzaBuilder.validate stanza = .ok () := by
  induction h with
  | grown _ _ ih => exact ih
  | buildStanza _ hbuild =>
    rintro stanza ⟨⟩
    obtain ⟨hvalidate, rfl⟩ := (build_stanza_yields _).of_ok hbuild
    exact hvalidate
  | rescope _ hrescope =>
    rintro stanza ⟨⟩
    obtain ⟨⟨-, hvalid⟩, hmoved⟩ := (Stanza.rescopeIn_yields _ _ _).of_ok hrescope
    exact hvalid _ hmoved
  | finish _ hfinish =>
    rintro stanza ⟨⟩
    obtain ⟨rfl, hvalidate, -⟩ := finish_stanza hfinish
    exact hvalidate
  | rejected herror =>
    rintro stanza ⟨⟩
    simp only [RejectedStanza.errorIn] at herror
    split at herror
    · cases herror
    · simp only [except_bind_eq_ok] at herror
      obtain ⟨_, -, herror⟩ := herror
      obtain ⟨hvalidate, rfl⟩ := (build_stanza_yields _).of_ok herror
      exact hvalidate
  | _ =>
    intro stanza heq
    cases heq

/-- Rescoping moves the elements of the content namespace down to the first element of another one and nothing else;
the result is read so when it is written, and rescoping it back gives the tree of the stanza when no element of the
other content namespace was among those that are reached. -/
theorem rescoping_moves_content {unicode : Unicode} {source arena : Arena} {stanza : Stanza} {ns : StanzaNamespace}
    {result : Stanza × Arena} (hmade : Made unicode source (.stanza stanza))
    (h : stanza.rescopeIn ns arena = .ok result) :
    result.1.tree = stanza.tree.moved stanza.header.ns.asStr ns.asStr ∧
      (∀ scope : Scope, ReadsAs scope result.1.writeXml (stanza.tree.moved stanza.header.ns.asStr ns.asStr).events) ∧
      ((Nodes.ofElements stanza.children).Apart stanza.header.ns.asStr ns.asStr →
        ∀ later : Arena, ∃ back, result.1.rescopeIn stanza.header.ns later = .ok back ∧ back.1.tree = stanza.tree) := by
  obtain ⟨⟨hmoves, -⟩, hmoved⟩ := (stanza.rescopeIn_yields ns arena).of_ok h
  have htree := hmoved.tree
  refine ⟨htree, fun scope => ?_, fun hapart later => ?_⟩
  · rw [← htree, Stanza.events_tree]
    exact (reads_stanza (Made.rescope hmade h).valid scope).readsAs
  · have hvalid : ∀ back, result.1.IsMoved stanza.header.ns back → StanzaBuilder.validate back = .ok () := by
      intro back hback
      rw [hmoved.validate_back hback hapart]
      exact hmade.validated stanza rfl
    have hyields := result.1.rescopeIn_yields stanza.header.ns later
    obtain ⟨back, hback⟩ := hyields.exists_ok ⟨hmoved.moves_back hmoves hapart, hvalid⟩
    obtain ⟨-, hmovedBack⟩ := hyields.of_ok hback
    have hns : result.1.header.ns = ns := by rw [hmoved.header]
    refine ⟨back, hback, ?_⟩
    rw [hmovedBack.tree, htree, hns]
    exact Stanza.moved_back_tree hapart

def sampleBody : Element := ⟨⟨"body".toList, clientNamespace, .empty, []⟩, .text "hi".toList .nil⟩

def sampleForeign : Element :=
  ⟨⟨"x".toList, "urn:x".toList, .empty, []⟩, .element sampleBody.data sampleBody.children .nil⟩

def sampleSender : Jid := ⟨"a@x".toList, ⟨3, by decide⟩, some 1, none⟩

def sampleReceiver : Jid := ⟨"b@y".toList, ⟨3, by decide⟩, some 1, none⟩

/-- A message with a body of its own and one that is carried in an element of another namespace. -/
def sampleCarrier (ns : StanzaNamespace) : Stanza :=
  { header := { stanzaType := .message .chat, originalMessageType := none, ns := ns, fromJid := some sampleSender,
                toJid := some sampleReceiver, id := none, lang := none }
    namespaces := .empty
    attributes := []
    children := [{ sampleBody with data.ns := ns.asStr }, sampleForeign] }

theorem sampleBody_made : Made asciiTables ⟨[]⟩ (.element sampleBody) := by
  have hnew : ElementBuilder.new "body".toList clientNamespace = .ok ⟨sampleBody.data, .nil⟩ := rfl
  have htext : ElementBuilder.text ⟨sampleBody.data, .nil⟩ "hi".toList = .ok sampleBody := rfl
  have hbuild : ElementBuilder.build sampleBody = .ok sampleBody := rfl
  exact .build (.text (.newBuilder hnew) htext) hbuild

theorem sampleForeign_made : Made asciiTables ⟨[]⟩ (.element sampleForeign) := by
  have hnew : ElementBuilder.new "x".toList "urn:x".toList = .ok ⟨sampleForeign.data, .nil⟩ := rfl
  have hbuild : ElementBuilder.build sampleForeign = .ok sampleForeign := rfl
  exact .build (.child (.newBuilder hnew) sampleBody_made) hbuild

theorem sampleCarrier_made : Made asciiTables ⟨[]⟩ (.stanza (sampleCarrier .client)) := by
  have hnew : Made asciiTables ⟨[]⟩ (.stanzaBuilder (.new (.message .chat) .client)) := .newStanza _ _ _
  have hfrom : StanzaBuilder.changeHeader (StanzaBuilder.new (.message .chat) .client).header
      (.fromJid (some sampleSender)) = .ok { (sampleCarrier .client).header with toJid := none } := rfl
  have hto : StanzaBuilder.changeHeader { (sampleCarrier .client).header with toJid := none }
      (.toJid (some sampleReceiver)) = .ok (sampleCarrier .client).header := rfl
  have hbuild : StanzaBuilder.build (sampleCarrier .client) = .ok (sampleCarrier .client) := rfl
  exact .buildStanza (.stanzaChild (.stanzaChild (.changeHeader (.changeHeader hnew hfrom) hto) sampleBody_made)
    sampleForeign_made) hbuild

theorem rescoping_moves_content_sample :
    (sampleCarrier .client).rescopeIn .server ⟨[]⟩ = .ok (sampleCarrier .server, ⟨[]⟩) ∧
      ∃ back, (sampleCarrier .server).rescopeIn .client ⟨[]⟩ = .ok back ∧
        back.1.tree = (sampleCarrier .client).tree := by
  have hrescope : (sampleCarrier .client).rescopeIn .server ⟨[]⟩ = .ok (sampleCarrier .server, ⟨[]⟩) := rfl
  have hapart : (ofElements (sampleCarrier .client).children).Apart clientNamespace serverNamespace := by
    refine ⟨?_, fun _ => trivial, ?_, fun h => absurd h ?_, trivial⟩ <;> decide
  exact ⟨hrescope, (rescoping_moves_content sampleCarrier_made hrescope).2.2 hapart ⟨[]⟩⟩

end Lonewolf.Xmpp
