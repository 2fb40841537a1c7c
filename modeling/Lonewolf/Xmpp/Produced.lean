import Lonewolf.Xmpp.Validity

/-!
# The trees that can be made

Everything that the parser's frames and the builders make, in any order and in any number of arenas: frames with
the namespaces in scope, builders with their changes, derived builders, trees that share children, copies from
another arena, rescoped stanzas and stanzas made elements. All of it is valid.
-/

namespace Lonewolf.Xmpp

open Texts Transactions

/-! ### Contexts of the parser -/

variable {context : NamespaceContext}

theorem bindAll_spec {arena : Arena} (h : arena.Holds context) (bindings : List (Text × Text)) :
    arena.Grows (arena.bindAll context bindings).2 ∧
      (arena.bindAll context bindings).2.Holds (arena.bindAll context bindings).1 ∧
      (arena.bindAll context bindings).1.pairs = bindings.reverse ++ context.pairs := by
  induction bindings generalizing arena context with
  | nil => exact ⟨.refl _, h, rfl⟩
  | cons binding bindings ih =>
    obtain ⟨hgrows, hholds, hpairs⟩ := ih (Arena.holds_bind h binding.1 binding.2)
    refine ⟨(Arena.grows_bind arena context binding.1 binding.2).trans hgrows, hholds, ?_⟩
    rw [List.reverse_cons, List.append_assoc]
    exact hpairs

/-- The declarations in scope are those that were accepted. -/
def Resolver.Accepted (resolver : Resolver) : Prop := ∀ binding ∈ resolver, acceptsBinding binding.1 binding.2 = true

theorem mem_of_lookup {l : List (Text × Text)} {pre ns : Text} (h : l.lookup pre = some ns) : (pre, ns) ∈ l := by
  induction l with
  | nil => cases h
  | cons binding l ih =>
    rw [List.lookup_cons] at h
    split at h
    next heq =>
      cases h
      rw [beq_iff_eq.mp heq]
      exact List.mem_cons_self
    next => exact List.mem_cons_of_mem _ (ih h)

theorem lookup_append (l l' : List (Text × Text)) (pre : Text) :
    (l ++ l').lookup pre = (l.lookup pre).or (l'.lookup pre) := by
  induction l with
  | nil => rfl
  | cons binding l ih =>
    rw [List.cons_append, List.lookup_cons, List.lookup_cons]
    split
    · rfl
    · exact ih

theorem Resolver.Accepted.push {resolver inner : Resolver} (h : resolver.Accepted)
    {declarations : List (Text × Text)} (hpush : resolver.push declarations = some inner) :
    inner.Accepted ∧ (∀ binding ∈ declarations, acceptsBinding binding.1 binding.2 = true) ∧
      inner = declarations.reverse ++ resolver := by
  unfold Resolver.push at hpush
  split at hpush
  next hall =>
    cases hpush
    have hdeclared := List.all_eq_true.mp hall
    exact ⟨List.forall_mem_append.mpr ⟨fun binding hmem => hdeclared binding (List.mem_reverse.mp hmem), h⟩,
      hdeclared, rfl⟩
  next => cases hpush

variable {resolver : Resolver}

theorem Resolver.Accepted.content (h : resolver.Accepted) : acceptsBinding [] resolver.contentNamespace = true := by
  unfold Resolver.contentNamespace
  cases hlookup : resolver.lookup [] with
  | none => decide
  | some ns => exact h _ (mem_of_lookup hlookup)

theorem Resolver.Accepted.named (h : resolver.Accepted) {binding : Text × Text}
    (hmem : binding ∈ resolver.named) : binding.1 ≠ [] ∧ acceptsBinding binding.1 binding.2 = true := by
  unfold Resolver.named at hmem
  obtain ⟨pre, hpre, rfl⟩ := List.mem_map.mp hmem
  obtain ⟨hkey, hcondition⟩ := List.mem_filter.mp hpre
  simp only [Bool.and_eq_true, Bool.not_eq_true', List.isEmpty_eq_false_iff, ne_eq, decide_eq_true_eq] at hcondition
  refine ⟨hcondition.1.1, ?_⟩
  cases hlookup : resolver.lookup pre with
  | some ns => exact h _ (mem_of_lookup hlookup)
  | none =>
    obtain ⟨binding, hbinding, rfl⟩ := List.mem_map.mp (List.mem_reverse.mp (List.mem_dedup.mp hkey))
    rw [List.lookup_eq_none_iff] at hlookup
    have hself := hlookup binding hbinding
    rw [bne_self_eq_false] at hself
    cases hself

/-- The namespaces of a frame are those in scope. -/
structure InScope (arena : Arena) (resolver : Resolver) (context : NamespaceContext) : Prop where
  accepted : resolver.Accepted
  held : arena.Holds context
  valid : context.Valid
  content : context.pairs.lookup [] = some resolver.contentNamespace

theorem inScope_root (h : resolver.Accepted) (declarations : List (Text × Text)) (arena : Arena) :
    InScope (frameNamespaces resolver declarations none arena).2 resolver
      (frameNamespaces resolver declarations none arena).1 := by
  have hempty : arena.Holds .empty := trivial
  obtain ⟨-, hholds, hpairs⟩ := bindAll_spec hempty (([], resolver.contentNamespace) :: resolver.named)
  have hlookup : (frameNamespaces resolver declarations none arena).1.pairs.lookup [] =
      some resolver.contentNamespace := by
    rw [frameNamespaces, hpairs, List.reverse_cons, lookup_append, lookup_append]
    have hnamed : resolver.named.reverse.lookup [] = none := by
      rw [List.lookup_eq_none_iff]
      intro binding hmem
      simpa using (h.named (List.mem_reverse.mp hmem)).1.symm
    rw [hnamed]
    rfl
  refine ⟨h, hholds, ⟨fun binding hmem => ?_, fun _ => ⟨_, hlookup⟩⟩, hlookup⟩
  rw [frameNamespaces, hpairs, List.mem_append, List.mem_reverse, List.mem_cons] at hmem
  rcases hmem with (rfl | hmem) | hmem
  · exact h.content
  · exact (h.named hmem).2
  · cases hmem

theorem InScope.nested {arena : Arena} {resolver inner : Resolver} (h : InScope arena resolver context)
    {declarations : List (Text × Text)} (hpush : resolver.push declarations = some inner) :
    InScope (frameNamespaces inner declarations (some context) arena).2 inner
      (frameNamespaces inner declarations (some context) arena).1 := by
  obtain ⟨haccepted, hdeclared, rfl⟩ := h.accepted.push hpush
  obtain ⟨-, hholds, hpairs⟩ := bindAll_spec h.held declarations
  have hlookup : (frameNamespaces (declarations.reverse ++ resolver) declarations (some context) arena).1.pairs.lookup
      [] = some (Resolver.contentNamespace (declarations.reverse ++ resolver)) := by
    rw [frameNamespaces, hpairs, lookup_append, h.content]
    simp only [Resolver.contentNamespace, lookup_append]
    cases declarations.reverse.lookup [] <;> rfl
  refine ⟨haccepted, hholds, ⟨fun binding hmem => ?_, fun _ => ⟨_, hlookup⟩⟩, hlookup⟩
  rw [frameNamespaces, hpairs, List.mem_append, List.mem_reverse] at hmem
  rcases hmem with hmem | hmem
  · exact hdeclared binding hmem
  · exact h.valid.accepted binding hmem

theorem InScope.content_eq_nil {arena : Arena} (h : InScope arena resolver context) {pre : Text}
    (helement : resolver.element pre = some []) : context.pairs.lookup [] = some [] := by
  unfold Resolver.element at helement
  split at helement
  · rw [h.content, ← helement]
  · split at helement
    · exact absurd (Option.some.inj helement) (by decide)
    next hpre _ =>
      have haccepts := h.accepted _ (mem_of_lookup helement)
      simp only [acceptsBinding, List.isEmpty_nil, Bool.not_true, Bool.false_or, Bool.and_eq_true] at haccepts
      exact absurd haccepts.1.1.2 hpre

/-! ### Stanzas -/

open NamespaceContext (Copied copyIn_spec copied_nil rescopeOk_none rescopeOk_some)

/-- What the arena holds and can be written of a stanza. -/
structure StanzaParts (arena : Arena) (namespaces : NamespaceContext) (attributes : List Attribute)
    (children : List Element) : Prop where
  held : arena.Holds namespaces
  context : namespaces.Valid
  distinct : ValidAttributes attributes
  unreserved : ∀ a ∈ attributes, reservedAttribute a.name a.ns = false
  elements : ∀ child ∈ children, child.Valid arena

variable {source arena later : Arena} {copies rescoped : NamespaceCopies} {namespaces : NamespaceContext}
  {attributes : List Attribute} {children : List Element}

theorem StanzaParts.mono (h : StanzaParts arena namespaces attributes children) (hgrows : arena.Grows later) :
    StanzaParts later namespaces attributes children :=
  ⟨h.held.mono hgrows, h.context, h.distinct, h.unreserved, fun child hmem => (h.elements child hmem).mono hgrows⟩

theorem stanzaParts_new (h : ∀ child ∈ children, child.Valid arena) : StanzaParts arena .empty [] children :=
  ⟨trivial, NamespaceContext.valid_empty, validAttributes_nil, nofun, h⟩

variable {name ns value : Text}

section

variable (h : StanzaParts arena namespaces attributes children)
include h

theorem StanzaParts.withChild {element : Element} (helement : element.Valid arena) :
    StanzaParts arena namespaces attributes (children ++ [element]) :=
  ⟨h.held, h.context, h.distinct, h.unreserved,
    List.forall_mem_append.mpr ⟨h.elements, List.forall_mem_singleton.mpr helement⟩⟩

theorem StanzaParts.setAttribute (hreserved : reservedAttribute name ns = false) {result : List Attribute}
    (hset : Xmpp.setAttribute attributes name ns value = .ok result) :
    StanzaParts arena namespaces result children := by
  refine ⟨h.held, h.context, h.distinct.set hset, fun a ha => ?_, h.elements⟩
  rcases key_of_setAttribute hset ha with hmem | rfl
  · exact h.unreserved a hmem
  · exact hreserved

theorem StanzaParts.sublist {rest : List Attribute} (hsub : rest.Sublist attributes) :
    StanzaParts arena namespaces rest children :=
  ⟨h.held, h.context, h.distinct.sublist hsub, fun a ha => h.unreserved a (hsub.subset ha), h.elements⟩

theorem StanzaParts.subset {rest : List Element} (hsub : rest ⊆ children) :
    StanzaParts arena namespaces attributes rest :=
  ⟨h.held, h.context, h.distinct, h.unreserved, fun child hmem => h.elements child (hsub hmem)⟩

end

variable {keep : Element → Bool}

theorem cloneChildren_valid (h : ∀ child ∈ children, child.Valid source)
    (hcopies : Copied source none arena copies) {result : List Element × Arena × NamespaceCopies}
    (hclone : Stanza.cloneChildren keep children arena copies = .ok result) :
    arena.Grows result.2.1 ∧ ∀ child ∈ result.1, child.Valid result.2.1 := by
  induction children generalizing arena copies result with
  | nil =>
    cases hclone
    exact ⟨.refl _, nofun⟩
  | cons child rest ih =>
    obtain ⟨hchild, hrest⟩ := List.forall_mem_cons.mp h
    rw [Stanza.cloneChildren] at hclone
    split at hclone
    · simp only [except_bind_eq_ok, except_pure_eq_ok] at hclone
      obtain ⟨first, hfirst, element, helement, tail, htail, rfl⟩ := hclone
      obtain rfl := build_eq_ok helement
      obtain ⟨hgrows, hvalid, hcopied⟩ := hchild.toBuilder_valid hcopies hfirst
      obtain ⟨hgrows', hvalid'⟩ := ih hrest hcopied htail
      exact ⟨hgrows.trans hgrows', List.forall_mem_cons.mpr ⟨hvalid.mono hgrows', hvalid'⟩⟩
    · exact ih hrest hcopies hclone

theorem rescopeChildren_valid {scope target : Text} (htarget : acceptsBinding [] target = true) (hne : target ≠ [])
    (h : ∀ child ∈ children, child.Valid source) (hcopies : Copied source none arena copies)
    (hrescoped : Copied source (some (scope, target)) arena rescoped) {result : List Element × Arena}
    (hclone : Stanza.rescopeChildren scope target children arena copies rescoped = .ok result) :
    arena.Grows result.2 ∧ ∀ child ∈ result.1, child.Valid result.2 := by
  induction children generalizing arena copies rescoped result with
  | nil =>
    cases hclone
    exact ⟨.refl _, nofun⟩
  | cons child rest ih =>
    obtain ⟨hchild, hrest⟩ := List.forall_mem_cons.mp h
    simp only [Stanza.rescopeChildren, except_bind_eq_ok] at hclone
    obtain ⟨first, hfirst, tail, htail, hresult⟩ := hclone
    have hnodes : (Nodes.element child.data child.children .nil).Valid source :=
      ⟨hchild.data, hchild.children, trivial⟩
    obtain ⟨hgrows, hvalid, hcopied, hrescoped'⟩ := Nodes.rescopeIn_valid htarget hne hnodes hcopies hrescoped hfirst
    obtain ⟨hgrows', hvalid'⟩ := ih hrest hcopied hrescoped' htail
    split at hresult
    next data inner _ heq =>
      cases hresult
      rw [heq] at hvalid
      have hmoved : Element.Valid _ ⟨data, inner⟩ := ⟨hvalid.1.mono hgrows', hvalid.2.1.mono hgrows'⟩
      exact ⟨hgrows.trans hgrows', List.forall_mem_cons.mpr ⟨hmoved, hvalid'⟩⟩
    next =>
      cases hresult
      exact ⟨hgrows.trans hgrows', hvalid'⟩

variable {stanza : Stanza}

theorem StanzaParts.toBuilder (h : StanzaParts source stanza.namespaces stanza.attributes stanza.children)
    {result : StanzaBuilder × Arena} (hclone : stanza.toBuilderInFiltered keep arena = .ok result) :
    StanzaParts result.2 result.1.namespaces result.1.attributes result.1.children := by
  simp only [Stanza.toBuilderInFiltered, except_bind_eq_ok, except_pure_eq_ok] at hclone
  obtain ⟨attributes, hattributes, tail, htail, rfl⟩ := hclone
  obtain ⟨-, hholds, hpairs, hcopied⟩ :=
    copyIn_spec h.held (copied_nil source none arena)
  obtain ⟨hgrows, hchildren⟩ := cloneChildren_valid h.elements hcopied htail
  obtain rfl : attributes = stanza.attributes := appendAttributes_eq hattributes
  exact ⟨hholds.mono hgrows, h.context.rescoped rescopeOk_none hpairs, h.distinct, h.unreserved, hchildren⟩

theorem accepts_stanzaNamespace (ns : StanzaNamespace) : acceptsBinding [] ns.asStr = true ∧ ns.asStr ≠ [] := by
  cases ns <;> decide

theorem build_stanza_eq_ok {builder : StanzaBuilder} (h : builder.build = .ok stanza) : stanza = builder := by
  simp only [StanzaBuilder.build, except_bind_eq_ok, except_pure_eq_ok] at h
  obtain ⟨_, -, rfl⟩ := h
  rfl

theorem StanzaParts.rescope (h : StanzaParts source stanza.namespaces stanza.attributes stanza.children)
    {ns : StanzaNamespace} {result : Stanza × Arena} (hclone : stanza.rescopeIn ns arena = .ok result) :
    StanzaParts result.2 result.1.namespaces result.1.attributes result.1.children := by
  unfold Stanza.rescopeIn at hclone
  split at hclone
  · simp only [except_bind_eq_ok, except_pure_eq_ok] at hclone
    obtain ⟨first, hfirst, built, hbuilt, rfl⟩ := hclone
    obtain rfl := build_stanza_eq_ok hbuilt
    exact h.toBuilder hfirst
  · simp only [except_bind_eq_ok, except_pure_eq_ok] at hclone
    obtain ⟨attributes, hattributes, tail, htail, built, hbuilt, rfl⟩ := hclone
    obtain rfl := build_stanza_eq_ok hbuilt
    obtain ⟨htarget, hne⟩ := accepts_stanzaNamespace ns
    obtain ⟨-, hholds, hpairs, hcontexts⟩ := copyIn_spec h.held
      (copied_nil source (some (stanza.header.ns.asStr, ns.asStr)) arena)
    obtain ⟨hgrows, hchildren⟩ := rescopeChildren_valid htarget hne h.elements
      (copied_nil source none _) hcontexts htail
    obtain rfl : attributes = stanza.attributes := appendAttributes_eq hattributes
    exact ⟨hholds.mono hgrows, h.context.rescoped (rescopeOk_some htarget) hpairs, h.distinct, h.unreserved, hchildren⟩

variable {builder : ElementBuilder}

theorem new_eq_ok {name ns : Text} (h : ElementBuilder.new name ns = .ok builder) :
    ValidName name ns ∧ builder = ⟨⟨name, ns, .empty, []⟩, .nil⟩ := by
  simp only [ElementBuilder.new, except_bind_eq_ok, exists_unit, except_pure_eq_ok] at h
  exact ⟨(validName_of_validateName h.1).1, h.2.symm⟩

theorem frameAttributes_valid {values result : List Attribute} (hvalid : ValidAttributes attributes)
    (h : values.foldlM (fun attributes value => frameAttribute attributes value.name value.ns value.value)
      attributes = .ok result) :
    ValidAttributes result ∧ ∀ a ∈ result, a ∈ attributes ∨ a ∈ values := by
  induction values generalizing attributes with
  | nil =>
    cases h
    exact ⟨hvalid, fun a ha => .inl ha⟩
  | cons value values ih =>
    simp only [List.foldlM_cons, except_bind_eq_ok] at h
    obtain ⟨first, hfirst, hrest⟩ := h
    have hset := setAttribute_of_frameAttribute hfirst
    obtain ⟨hresult, hmem⟩ := ih (hvalid.set hset) hrest
    refine ⟨hresult, fun a ha => ?_⟩
    rcases hmem a ha with hmem | hmem
    · rcases key_of_setAttribute hset hmem with hmem | rfl
      · exact .inl hmem
      · exact .inr List.mem_cons_self
    · exact .inr (List.mem_cons_of_mem value hmem)

theorem reserved_headerAttributes (stanza : Stanza) {a : Attribute} (h : a ∈ stanza.headerAttributes) :
    reservedAttribute a.name a.ns = true := by
  simp only [Stanza.headerAttributes, List.mem_append, Option.mem_toList, Option.map_eq_some_iff] at h
  rcases h with ⟨_, -, rfl⟩ | ⟨_, -, rfl⟩ | ⟨_, -, rfl⟩ | ⟨_, -, rfl⟩ | ⟨_, -, rfl⟩ <;> rfl

theorem validAttributes_append {values : List Attribute} (h : ValidAttributes attributes)
    (hreserved : ∀ a ∈ attributes, reservedAttribute a.name a.ns = true) (h' : ValidAttributes values)
    (hunreserved : ∀ a ∈ values, reservedAttribute a.name a.ns = false) : ValidAttributes (attributes ++ values) := by
  refine ⟨List.forall_mem_append.mpr ⟨h.valid, h'.valid⟩, ?_⟩
  rw [List.map_append, List.nodup_append]
  refine ⟨h.nodup, h'.nodup, fun key hkey key' hkey' heq => ?_⟩
  obtain ⟨a, ha, rfl⟩ := List.mem_map.mp hkey
  obtain ⟨b, hb, rfl⟩ := List.mem_map.mp hkey'
  have hname : a.name = b.name ∧ a.ns = b.ns := by simpa [Attribute.key] using heq
  have hconflict := hreserved a ha
  rw [hname.1, hname.2, hunreserved b hb] at hconflict
  cases hconflict

theorem pushElements_valid {nodes : Nodes} (h : nodes.Valid arena) (helements : ∀ child ∈ children, child.Valid arena) :
    (children.foldl Nodes.pushElement nodes).Valid arena := by
  induction children generalizing nodes with
  | nil => exact h
  | cons child rest ih =>
    obtain ⟨hchild, hrest⟩ := List.forall_mem_cons.mp helements
    exact ih (h.pushElement hchild) hrest

theorem StanzaParts.toElementBuilder (h : StanzaParts source stanza.namespaces stanza.attributes stanza.children)
    {result : ElementBuilder × Arena} (hclone : stanza.toElementBuilderInFiltered keep arena = .ok result) :
    Element.Valid result.2 result.1 := by
  simp only [Stanza.toElementBuilderInFiltered, except_bind_eq_ok, except_pure_eq_ok] at hclone
  obtain ⟨frame, hframe, first, hfirst, attributes, hattributes, tail, htail, rfl⟩ := hclone
  obtain ⟨hname, rfl⟩ := new_eq_ok hframe
  obtain ⟨-, hholds, hpairs, hcopied⟩ :=
    copyIn_spec h.held (copied_nil source none arena)
  obtain ⟨hgrows, hchildren⟩ := cloneChildren_valid h.elements hcopied htail
  obtain ⟨hvalid, hmem⟩ := frameAttributes_valid validAttributes_nil hfirst
  obtain rfl := appendAttributes_eq hattributes
  have hreserved : ∀ a ∈ first, reservedAttribute a.name a.ns = true := by
    intro a ha
    rcases hmem a ha with hnil | hheader
    · cases hnil
    · exact reserved_headerAttributes stanza hheader
  exact ⟨⟨hname, hholds.mono hgrows, h.context.rescoped rescopeOk_none hpairs,
    fun hnil => absurd hnil (accepts_stanzaNamespace stanza.header.ns).2,
    validAttributes_append hvalid hreserved h.distinct h.unreserved⟩, pushElements_valid trivial hchildren⟩

/-! ### Frames of stanzas -/

theorem StanzaParts.withAttribute {frame result : StanzaFrame}
    (h : StanzaParts arena frame.namespaces frame.attributes frame.children)
    (hset : frame.withAttribute name ns value = .ok result) :
    StanzaParts arena result.namespaces result.attributes result.children := by
  unfold StanzaFrame.withAttribute at hset
  split_ifs at hset with hfrom hto hid hlang htype
  all_goals
    simp only [except_bind_eq_ok, except_pure_eq_ok] at hset
    obtain ⟨_, hattributes, rfl⟩ := hset
  -- Of a reserved name only the header changes.
  iterate 5 exact h
  have hattribute := setAttribute_of_frameAttribute hattributes
  refine h.setAttribute ?_ hattribute
  have hplain := (setAttribute_spec hattribute).1.notDeclaration
  simp only [List.isEmpty_iff] at hfrom hto hid htype
  simp only [reservedAttribute, Bool.or_eq_false_iff, Bool.and_eq_false_iff, List.isEmpty_eq_false_iff,
    List.contains_eq_mem, decide_eq_false_iff_not, List.mem_cons, List.not_mem_nil, or_false, not_or]
  refine ⟨?_, not_and_or.mp hlang⟩
  by_cases hns : ns = []
  · exact .inr ⟨fun heq => hfrom ⟨hns, heq⟩, fun heq => hto ⟨hns, heq⟩, fun heq => hid ⟨hns, heq⟩,
      fun heq => htype ⟨hns, heq⟩, fun heq => hplain ⟨hns, heq⟩⟩
  · exact .inl hns

/-! ### Everything that is made -/

/-- The namespaces that the parser has for a frame, and the declarations they are made of. -/
inductive Opened : Arena → Resolver → NamespaceContext → Prop where
  | grown : ∀ {arena later resolver context}, Opened arena resolver context → arena.Grows later →
      Opened later resolver context
  | root {resolver : Resolver} (declarations : List (Text × Text)) (arena : Arena) : resolver.Accepted →
      Opened (frameNamespaces resolver declarations none arena).2 resolver
        (frameNamespaces resolver declarations none arena).1
  | nested {arena : Arena} {resolver inner : Resolver} {context : NamespaceContext}
      {declarations : List (Text × Text)} : Opened arena resolver context →
      resolver.push declarations = some inner →
      Opened (frameNamespaces inner declarations (some context) arena).2 inner
        (frameNamespaces inner declarations (some context) arena).1

theorem Opened.inScope (h : Opened arena resolver context) : InScope arena resolver context := by
  induction h with
  | grown _ hgrows ih => exact ⟨ih.accepted, ih.held.mono hgrows, ih.valid, ih.content⟩
  | root declarations arena haccepted => exact inScope_root haccepted declarations arena
  | nested _ hpush ih => exact ih.nested hpush

def Nodes.elements : Nodes → List Element
  | .nil => []
  | .text _ rest => rest.elements
  | .element data children rest => ⟨data, children⟩ :: rest.elements

theorem Nodes.Valid.elements {nodes : Nodes} (h : nodes.Valid arena) : ∀ child ∈ nodes.elements, child.Valid arena := by
  intro child hmem
  induction nodes with
  | nil => cases hmem
  | text t rest ih => exact ih h hmem
  | element data children rest _ ih =>
    rcases List.mem_cons.mp hmem with rfl | hmem
    · exact ⟨h.1, h.2.1⟩
    · exact ih h.2.2 hmem

/-- What can be made in an arena. The frame of an element is a builder. -/
inductive Item where
  | builder (builder : ElementBuilder)
  | element (element : Element)
  | frame (frame : StanzaFrame)
  | stanzaBuilder (builder : StanzaBuilder)
  | stanza (stanza : Stanza)

section

variable (unicode : Unicode)

/-- The item was made in the arena, by frames and builders and from what was made before. -/
inductive Made : Arena → Item → Prop where
  | grown : ∀ {arena later item}, Made arena item → arena.Grows later → Made later item
  -- Elements
  | newBuilder : ∀ {arena name ns builder}, ElementBuilder.new name ns = .ok builder → Made arena (.builder builder)
  | newFrame : ∀ {arena resolver context pre name ns builder}, Opened arena resolver context →
      resolver.element pre = some ns → ElementBuilder.new name ns = .ok builder →
      Made arena (.builder (builder.setNamespaces context))
  | withAttribute : ∀ {arena builder result name ns value}, Made arena (.builder builder) →
      builder.withAttribute name ns value = .ok result → Made arena (.builder result)
  | frameAttribute : ∀ {arena builder result name ns value}, Made arena (.builder builder) →
      builder.frameAttribute name ns value = .ok result → Made arena (.builder result)
  | removeAttribute : ∀ {arena builder} (name ns : Text), Made arena (.builder builder) →
      Made arena (.builder (builder.removeAttribute name ns))
  | text : ∀ {arena builder result t}, Made arena (.builder builder) → builder.text t = .ok result →
      Made arena (.builder result)
  | frameText : ∀ {arena builder result t}, Made arena (.builder builder) → builder.frameText t = .ok result →
      Made arena (.builder result)
  | child : ∀ {arena builder element}, Made arena (.builder builder) → Made arena (.element element) →
      Made arena (.builder (builder.child element))
  | removeChildren : ∀ {arena builder} (name ns : Text), Made arena (.builder builder) →
      Made arena (.builder (builder.removeChildren name ns))
  | clearChildren : ∀ {arena builder}, Made arena (.builder builder) → Made arena (.builder builder.clearChildren)
  | build : ∀ {arena builder element}, Made arena (.builder builder) → builder.build = .ok element →
      Made arena (.element element)
  | derive : ∀ {arena element}, Made arena (.element element) → Made arena (.builder element)
  | copy : ∀ {source arena element result}, Made source (.element element) →
      element.toBuilderIn arena = .ok result → Made result.2 (.builder result.1)
  | inner : ∀ {arena element child}, Made arena (.element element) → child ∈ element.children.elements →
      Made arena (.element child)
  -- Stanzas
  | newStanza (arena : Arena) (stanzaType : StanzaType) (ns : StanzaNamespace) :
      Made arena (.stanzaBuilder (.new stanzaType ns))
  | changeHeader : ∀ {arena builder change header}, Made arena (.stanzaBuilder builder) →
      StanzaBuilder.changeHeader builder.header change = .ok header →
      Made arena (.stanzaBuilder { builder with header := header })
  | stanzaAttribute : ∀ {arena builder result name ns value}, Made arena (.stanzaBuilder builder) →
      builder.withAttribute name ns value = .ok result → Made arena (.stanzaBuilder result)
  | removeStanzaAttribute : ∀ {arena builder result name ns}, Made arena (.stanzaBuilder builder) →
      builder.removeAttribute name ns = .ok result → Made arena (.stanzaBuilder result)
  | clearStanzaAttributes : ∀ {arena builder}, Made arena (.stanzaBuilder builder) →
      Made arena (.stanzaBuilder builder.clearAttributes)
  | stanzaChild : ∀ {arena builder element}, Made arena (.stanzaBuilder builder) →
      Made arena (.element element) → Made arena (.stanzaBuilder (builder.child element))
  | removeStanzaChildren : ∀ {arena builder} (name ns : Text), Made arena (.stanzaBuilder builder) →
      Made arena (.stanzaBuilder (builder.removeChildren name ns))
  | clearStanzaChildren : ∀ {arena builder}, Made arena (.stanzaBuilder builder) →
      Made arena (.stanzaBuilder builder.clearChildren)
  | buildStanza : ∀ {arena builder stanza}, Made arena (.stanzaBuilder builder) → builder.build = .ok stanza →
      Made arena (.stanza stanza)
  | deriveStanza : ∀ {arena stanza}, Made arena (.stanza stanza) → Made arena (.stanzaBuilder stanza)
  | reply : ∀ {arena builder} {stanza : Stanza}, stanza.replyIn = .ok builder → Made arena (.stanzaBuilder builder)
  | errorReply : ∀ {arena stanza error builder}, Made arena (.stanza stanza) →
      Made arena (.element error) → stanza.errorReplyIn error = .ok builder →
      Made arena (.stanzaBuilder builder)
  | copyStanza : ∀ {source arena stanza keep result}, Made source (.stanza stanza) →
      stanza.toBuilderInFiltered keep arena = .ok result → Made result.2 (.stanzaBuilder result.1)
  | rescope : ∀ {source arena stanza ns result}, Made source (.stanza stanza) →
      stanza.rescopeIn ns arena = .ok result → Made result.2 (.stanza result.1)
  | toElement : ∀ {source arena stanza keep result}, Made source (.stanza stanza) →
      stanza.toElementBuilderInFiltered keep arena = .ok result → Made result.2 (.builder result.1)
  | payload : ∀ {arena stanza child}, Made arena (.stanza stanza) → child ∈ stanza.children →
      Made arena (.element child)
  -- Frames of stanzas
  | newStanzaFrame : ∀ {arena resolver context} (kind : StanzaKind) (ns : StanzaNamespace),
      Opened arena resolver context → Made arena (.frame (.new kind ns context))
  | stanzaFrameAttribute : ∀ {arena frame result name ns value}, Made arena (.frame frame) →
      frame.withAttribute name ns value = .ok result → Made arena (.frame result)
  | stanzaFrameText : ∀ {arena frame result t}, Made arena (.frame frame) → frame.text t = .ok result →
      Made arena (.frame result)
  | stanzaFrameChild : ∀ {arena frame element}, Made arena (.frame frame) →
      Made arena (.element element) → Made arena (.frame (frame.child element))
  | finish : ∀ {arena frame stanza}, Made arena (.frame frame) → frame.finish unicode = .ok (.inl stanza) →
      Made arena (.stanza stanza)
  | rejected : ∀ {arena authenticated server stanza} {rejected : RejectedStanza},
      rejected.errorIn authenticated server = .ok stanza → Made arena (.stanza stanza)

end

/-- What is valid of an item. -/
def Item.Valid (arena : Arena) : Item → Prop
  | .builder b => Element.Valid arena b
  | .element e => e.Valid arena
  | .frame f => StanzaParts arena f.namespaces f.attributes f.children
  | .stanzaBuilder b => StanzaParts arena b.namespaces b.attributes b.children
  | .stanza s => StanzaParts arena s.namespaces s.attributes s.children

theorem Item.Valid.mono {item : Item} (h : item.Valid arena) (hgrows : arena.Grows later) : item.Valid later := by
  cases item with
  | builder | element => exact Element.Valid.mono h hgrows
  | frame | stanzaBuilder | stanza => exact StanzaParts.mono h hgrows

theorem Element.Valid.withAttributes (h : Element.Valid arena builder)
    (hattributes : ValidAttributes attributes) : Element.Valid arena (builder.withAttributes attributes) :=
  ⟨⟨h.data.name, h.data.held, h.data.context, h.data.unnamed, hattributes⟩, h.children⟩

theorem Element.Valid.new {name ns : Text} (h : ElementBuilder.new name ns = .ok builder) :
    Element.Valid arena builder := by
  obtain ⟨hname, rfl⟩ := new_eq_ok h
  exact ⟨⟨hname, trivial, NamespaceContext.valid_empty, fun _ hne => absurd rfl hne, validAttributes_nil⟩, trivial⟩

theorem Element.Valid.newFrame (h : InScope arena resolver context)
    {pre name ns : Text} (hns : resolver.element pre = some ns)
    (hnew : ElementBuilder.new name ns = .ok builder) : Element.Valid arena (builder.setNamespaces context) := by
  obtain ⟨hname, rfl⟩ := new_eq_ok hnew
  refine ⟨⟨hname, h.held, h.valid, fun hnil _ => ?_, validAttributes_nil⟩, trivial⟩
  have hempty : ns = [] := hnil
  rw [hempty] at hns
  exact h.content_eq_nil hns

variable {result : ElementBuilder} {t : Text}

theorem text_eq_ok {builder : ElementBuilder} (h : builder.text t = .ok result) :
    result = builder ∨ result = { builder with children := builder.children.pushText t } := by
  simp only [ElementBuilder.text, except_bind_eq_ok, exists_unit] at h
  obtain ⟨-, hresult⟩ := h
  split at hresult
  · cases hresult
    exact .inl rfl
  · cases hresult
    exact .inr rfl

section

variable (h : Element.Valid arena builder)
include h

theorem Element.Valid.withAttribute {name ns value : Text} (hset : builder.withAttribute name ns value = .ok result) :
    Element.Valid arena result := by
  simp only [ElementBuilder.withAttribute, except_bind_eq_ok, except_pure_eq_ok] at hset
  obtain ⟨attributes, hattributes, rfl⟩ := hset
  exact h.withAttributes (h.data.attributes.set hattributes)

theorem Element.Valid.text (htext : builder.text t = .ok result) : Element.Valid arena result := by
  rcases text_eq_ok htext with rfl | rfl
  · exact h
  · exact ⟨h.data, h.children.append trivial⟩

theorem Element.Valid.child {element : Element} (hchild : element.Valid arena) :
    Element.Valid arena (builder.child element) :=
  ⟨h.data, h.children.pushElement hchild⟩

end

theorem Element.Valid.errorElementIn {ns : StanzaNamespace} {reason : StanzaRejection} {error : Element}
    (h : errorElementIn ns reason = .ok error) : error.Valid arena := by
  simp only [Xmpp.errorElementIn, except_bind_eq_ok] at h
  obtain ⟨_, hdefined, _, hbuilt, _, hnew, _, hlang, _, htext, _, hbuilt', _, herror, _, htype, h⟩ := h
  obtain rfl := build_eq_ok hbuilt
  obtain rfl := build_eq_ok hbuilt'
  obtain rfl := build_eq_ok h
  exact (((new herror).withAttribute htype).child (new hdefined)).child (((new hnew).withAttribute hlang).text htext)

variable {builder : StanzaBuilder}

theorem StanzaParts.errorReply {error : Element} (h : ∀ child ∈ stanza.children, child.Valid arena)
    (herror : error.Valid arena) (hreply : stanza.errorReplyIn error = .ok builder) :
    StanzaParts arena builder.namespaces builder.attributes builder.children := by
  have hparts := (stanzaParts_new h).withChild herror
  simp only [Stanza.errorReplyIn] at hreply
  split at hreply
  case h_5 => cases hreply
  case h_3 | h_4 =>
    split at hreply
    · cases hreply
    · cases hreply
      exact hparts
  all_goals
    cases hreply
    exact hparts

theorem StanzaParts.reply (h : stanza.replyIn = .ok builder) :
    StanzaParts arena builder.namespaces builder.attributes builder.children := by
  unfold Stanza.replyIn at h
  split at h
  case h_3 => cases h
  all_goals
    cases h
    exact stanzaParts_new nofun

theorem StanzaParts.errorIn {rejected : RejectedStanza} {authenticated server : Jid}
    (h : rejected.errorIn authenticated server = .ok stanza) :
    StanzaParts arena stanza.namespaces stanza.attributes stanza.children := by
  simp only [RejectedStanza.errorIn] at h
  split at h
  · cases h
  · simp only [except_bind_eq_ok] at h
    obtain ⟨error, herror, h⟩ := h
    rw [build_stanza_eq_ok h]
    exact stanzaParts_new (List.forall_mem_singleton.mpr (.errorElementIn herror))

variable {result : StanzaBuilder}

theorem stanzaAttribute_eq_ok (h : builder.withAttribute name ns value = .ok result) :
    ∃ attributes, reservedAttribute name ns = false ∧ setAttribute builder.attributes name ns value = .ok attributes ∧
      result = { builder with attributes := attributes } := by
  unfold StanzaBuilder.withAttribute at h
  split at h
  · cases h
  next hreserved =>
    simp only [except_bind_eq_ok, except_pure_eq_ok] at h
    obtain ⟨attributes, hset, rfl⟩ := h
    exact ⟨attributes, by simpa using hreserved, hset, rfl⟩

theorem removeStanzaAttribute_eq_ok {name ns : Text} (h : builder.removeAttribute name ns = .ok result) :
    result = { builder with attributes := removeAttribute builder.attributes name ns } := by
  unfold StanzaBuilder.removeAttribute at h
  split at h
  · cases h
  · cases h
    rfl

theorem Made.valid {unicode : Unicode} {item : Item} (h : Made unicode arena item) : item.Valid arena := by
  induction h with
  | grown _ hgrows ih => exact ih.mono hgrows
  | newBuilder hnew => exact Element.Valid.new hnew
  | newFrame hopened hns hnew => exact Element.Valid.newFrame hopened.inScope hns hnew
  | withAttribute _ hset ih => exact Element.Valid.withAttribute ih hset
  | frameAttribute _ hset ih =>
    simp only [ElementBuilder.frameAttribute, except_bind_eq_ok, except_pure_eq_ok] at hset
    obtain ⟨attributes, hattributes, rfl⟩ := hset
    exact Element.Valid.withAttributes ih (ih.data.attributes.set (setAttribute_of_frameAttribute hattributes))
  | removeAttribute name ns _ ih =>
    exact Element.Valid.withAttributes ih (ih.data.attributes.sublist (removeAttribute_sublist _ name ns))
  | text _ htext ih => exact Element.Valid.text ih htext
  | frameText _ htext ih =>
    simp only [ElementBuilder.frameText, except_bind_eq_ok, exists_unit, except_pure_eq_ok] at htext
    obtain ⟨-, rfl⟩ := htext
    exact ⟨ih.data, ih.children.append trivial⟩
  | child _ _ ih ihchild => exact Element.Valid.child ih ihchild
  | removeChildren name ns _ ih => exact ⟨ih.data, ih.children.removeElements name ns⟩
  | clearChildren _ ih => exact ⟨ih.data, trivial⟩
  | build _ hbuild ih =>
    obtain rfl := build_eq_ok hbuild
    exact ih
  | derive _ ih => exact ih
  | copy _ hcopy ih =>
    simp only [Element.toBuilderIn, except_bind_eq_ok, except_pure_eq_ok] at hcopy
    obtain ⟨copied, hcopied, rfl⟩ := hcopy
    exact (Element.Valid.toBuilder_valid ih (copied_nil _ none _) hcopied).2.1
  | inner _ hmem ih => exact ih.children.elements _ hmem
  | newStanza arena stanzaType ns => exact stanzaParts_new nofun
  | changeHeader _ _ ih => exact ih
  | stanzaAttribute _ hset ih =>
    obtain ⟨attributes, hreserved, hattributes, rfl⟩ := stanzaAttribute_eq_ok hset
    exact StanzaParts.setAttribute ih hreserved hattributes
  | removeStanzaAttribute _ hremove ih =>
    obtain rfl := removeStanzaAttribute_eq_ok hremove
    exact StanzaParts.sublist ih (removeAttribute_sublist _ _ _)
  | clearStanzaAttributes _ ih => exact StanzaParts.sublist ih (List.nil_sublist _)
  | stanzaChild _ _ ih ihchild => exact StanzaParts.withChild ih ihchild
  | removeStanzaChildren name ns _ ih => exact StanzaParts.subset ih (List.filter_subset_self _)
  | clearStanzaChildren _ ih => exact StanzaParts.subset ih (List.nil_subset _)
  | buildStanza _ hbuild ih =>
    obtain rfl := build_stanza_eq_ok hbuild
    exact ih
  | deriveStanza _ ih => exact ih
  | reply hreply => exact StanzaParts.reply hreply
  | errorReply _ _ hreply ih iherror => exact StanzaParts.errorReply ih.elements iherror hreply
  | copyStanza _ hcopy ih => exact StanzaParts.toBuilder ih hcopy
  | rescope _ hrescope ih => exact StanzaParts.rescope ih hrescope
  | toElement _ helement ih => exact StanzaParts.toElementBuilder ih helement
  | payload _ hmem ih => exact ih.elements _ hmem
  | newStanzaFrame kind ns hopened =>
    exact ⟨hopened.inScope.held, hopened.inScope.valid, validAttributes_nil, nofun, nofun⟩
  | stanzaFrameAttribute _ hset ih => exact StanzaParts.withAttribute ih hset
  | stanzaFrameText _ htext ih =>
    simp only [StanzaFrame.text, except_bind_eq_ok, exists_unit, except_pure_eq_ok] at htext
    obtain ⟨-, rfl⟩ := htext
    exact ih
  | stanzaFrameChild _ _ ih ihchild => exact StanzaParts.withChild ih ihchild
  | finish _ hfinish ih =>
    obtain ⟨rfl, -⟩ := finish_stanza hfinish
    exact ih
  | rejected herror => exact StanzaParts.errorIn herror

end Lonewolf.Xmpp
