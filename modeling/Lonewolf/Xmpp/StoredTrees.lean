import Lonewolf.Xmpp.Published

/-!
# Stored trees

The elements of one arena. An element is stored with a slice of its children and with the depth and the number of
nodes that its builder computed from those of the children; any number of elements may share a child. The tree of
an element is what is left when each child is replaced by its own tree.
-/

namespace Lonewolf.Xmpp.Storage

open Texts Transitions

/-! ### Elements of an arena -/

inductive StoredNode where
  | element (index : Nat)
  | text (text : Text)
  deriving DecidableEq

structure StoredElement where
  data : ElementData
  children : StoredSlice
  depth : Nat
  nodes : Nat

/-- An addition of `usize`. -/
def usizeAdd (a b : Nat) : Except Fault Nat := if usizeLimit ≤ a + b then .error .overflow else .ok (a + b)

/-- What a child adds in `build`. -/
def childSize (elements : List StoredElement) : StoredNode → Except Fault (Nat × Nat)
  | .element index =>
    match elements[index]? with
    | none => .error .wrongArena
    | some element => .ok (element.depth, element.nodes)
  | .text _ => .ok (0, 1)

/-- The loop of `ElementBuilder::build`. -/
def measure (elements : List StoredElement) : Nat → Nat → List StoredNode → Except Fault (Nat × Nat)
  | depth, nodes, [] => .ok (depth, nodes)
  | depth, nodes, child :: rest => do
      let (childDepth, childNodes) ← childSize elements child
      let childDepth ← usizeAdd childDepth 1
      let nodes ← usizeAdd nodes childNodes
      if maxElementDepth < max depth childDepth ∨ maxElementNodes < nodes then .error (.build .treeLimitExceeded)
      else measure elements (max depth childDepth) nodes rest

/-- The limits that the loop of `StanzaBuilder::validate` checks, over the elements of a stanza. -/
def measureStanza (elements : List StoredElement) : Nat → List Nat → Except Fault Nat
  | nodes, [] => .ok nodes
  | nodes, child :: rest => do
      let (childDepth, childNodes) ← childSize elements (.element child)
      let nodes ← usizeAdd nodes childNodes
      if maxElementDepth ≤ childDepth ∨ maxElementNodes < nodes then .error (.build .treeLimitExceeded)
      else measureStanza elements nodes rest

/-- An arena with its elements, and the builders of children. -/
structure Forest where
  slices : State StoredNode
  elements : List StoredElement

/-- The node is of an arena with so many elements. -/
def StoredNode.Valid (count : Nat) : StoredNode → Prop
  | .element index => index < count
  | .text _ => True

namespace Forest

inductive Move where
  /-- A step of the builders: a new one, one derived from children that are stored, or an operation on one. -/
  | slices (label : Label (Operation StoredNode))
  | build (builder : Nat) (data : ElementData)

/-- Only what is an element of the arena is stored as a child. -/
def Allowed (forest : Forest) : Move → Prop
  | .slices (.edit _ operation) => operation.Stores fun node => node.Valid forest.elements.length
  | _ => True

/-- `build`: the children are finished and the element is stored; a builder that fails is gone. -/
def build (forest : Forest) (index : Nat) (builder : SliceBuilder) (data : ElementData) : Forest :=
  match builder.asSlice forest.slices.arena >>= measure forest.elements 1 1 with
  | .error _ => { forest with slices := forest.slices.without index }
  | .ok (depth, nodes) =>
    ⟨{ forest.slices.without index with published := forest.slices.published ++ [builder.finish] },
      forest.elements ++ [⟨data, builder.finish, depth, nodes⟩]⟩

def step (forest : Forest) : Move → Option Forest
  | .slices label => (forest.slices.step Operation.run label).map fun slices => { forest with slices := slices }
  | .build index data => (forest.slices.builder? index).map fun builder => forest.build index builder data

def system : System Forest where
  init forest := forest.slices.Initial ∧ forest.elements = []
  step forest forest' := ∃ move, forest.Allowed move ∧ forest.step move = some forest'

end Forest

/-! ### Expansion -/

/-- The tree of some nodes. -/
inductive Expands (forest : Forest) : List StoredNode → Nodes → Prop where
  | nil : Expands forest [] .nil
  | text : ∀ {t rest nodes}, Expands forest rest nodes → Expands forest (.text t :: rest) (.text t nodes)
  | element : ∀ {index element values rest children nodes}, forest.elements[index]? = some element →
      element.children.get forest.slices.arena = .ok values → Expands forest values children →
      Expands forest rest nodes → Expands forest (.element index :: rest) (.element element.data children nodes)

variable {forest forest' : Forest}

variable {values : List StoredNode}

theorem Expands.unique {nodes nodes' : Nodes} (h : Expands forest values nodes)
    (h' : Expands forest values nodes') : nodes = nodes' := by
  induction h generalizing nodes' with
  | nil =>
    cases h'
    rfl
  | text _ ih =>
    cases h' with
    | text hrest => rw [ih hrest]
  | element hindex hvalues _ _ ihchildren ihrest =>
    cases h' with
    | element hindex' hvalues' hchildren' hrest' =>
      obtain rfl := Option.some.inj (hindex.symm.trans hindex')
      obtain rfl := Except.ok.inj (hvalues.symm.trans hvalues')
      rw [ihchildren hchildren', ihrest hrest']

theorem StoredNode.Valid.mono {count count' : Nat} {node : StoredNode} (h : node.Valid count) (hle : count ≤ count') :
    node.Valid count' := by
  cases node with
  | element index => exact lt_of_lt_of_le h hle
  | text t => trivial

/-- The element has a tree, and its size is stored with it. -/
structure StoredElement.Measured (forest : Forest) (element : StoredElement) : Prop where
  published : element.children ∈ forest.slices.published
  tree : ∃ nodes, Expands forest (element.children.contents forest.slices.arena) nodes ∧
    element.depth = nodes.size.1 + 1 ∧ element.nodes = nodes.size.2 + 1
  depth : element.depth ≤ maxElementDepth
  nodes : element.nodes ≤ maxElementNodes

/-- Every element is measured, and builders and finished slices hold nodes of the arena. -/
structure Forest.Inv (forest : Forest) : Prop where
  reach : (State.system Operation.run).Reachable forest.slices
  builders : ∀ {index builder}, forest.slices.builder? index = some builder →
    ∀ node ∈ builder.slice.contents forest.slices.arena, node.Valid forest.elements.length
  published : ∀ slice ∈ forest.slices.published,
    ∀ node ∈ slice.contents forest.slices.arena, node.Valid forest.elements.length
  measured : ∀ element ∈ forest.elements, element.Measured forest

theorem Forest.Inv.sound {slice : StoredSlice} (h : forest.Inv) (hmem : slice ∈ forest.slices.published) :
    slice.Sound forest.slices.arena := ((inv_reachable Operation.operates h.reach).published slice hmem).sound

variable {element : StoredElement}

theorem Forest.Inv.get (h : forest.Inv) (hmem : element ∈ forest.elements) :
    element.children.get forest.slices.arena = .ok (element.children.contents forest.slices.arena) :=
  (h.sound (h.measured element hmem).published).get

theorem Forest.Inv.expands (h : forest.Inv)
    (hvalid : ∀ node ∈ values, node.Valid forest.elements.length) : ∃ nodes, Expands forest values nodes := by
  induction values with
  | nil => exact ⟨.nil, .nil⟩
  | cons node rest ih =>
    obtain ⟨nodes, hnodes⟩ := ih fun other hmem => hvalid other (List.mem_cons_of_mem node hmem)
    have hnode := hvalid node List.mem_cons_self
    cases node with
    | text t => exact ⟨.text t nodes, .text hnodes⟩
    | element index =>
      have hindex : index < forest.elements.length := hnode
      have hmem := List.getElem_mem hindex
      obtain ⟨children, hchildren, -⟩ := (h.measured _ hmem).tree
      exact ⟨.element forest.elements[index].data children nodes,
        .element (List.getElem?_eq_getElem hindex) (h.get hmem) hchildren hnodes⟩

theorem Forest.Inv.size {index : Nat} {children : Nodes}
    (h : forest.Inv) (hindex : forest.elements[index]? = some element)
    (hvalues : element.children.get forest.slices.arena = .ok values) (hchildren : Expands forest values children) :
    childSize forest.elements (.element index) = .ok (children.size.1 + 1, children.size.2 + 1) ∧
      children.size.1 + 1 ≤ maxElementDepth ∧ children.size.2 + 1 ≤ maxElementNodes := by
  have hmem := List.mem_of_getElem? hindex
  have hmeasured := h.measured element hmem
  obtain ⟨nodes, hnodes, hdepth, hcount⟩ := hmeasured.tree
  obtain rfl := Except.ok.inj (hvalues.symm.trans (h.get hmem))
  obtain rfl := hnodes.unique hchildren
  rw [← hdepth, ← hcount]
  exact ⟨by simp [childSize, hindex], hmeasured.depth, hmeasured.nodes⟩

/-! ### Measuring -/

theorem usizeAdd_eq {a b : Nat} (ha : a ≤ maxElementNodes) (hb : b ≤ maxElementNodes) : usizeAdd a b = .ok (a + b) := by
  have hlimit : ¬usizeLimit ≤ a + b := by
    simp only [maxElementNodes, usizeLimit] at *
    omega
  rw [usizeAdd, if_neg hlimit]

theorem measure_cons {elements : List StoredElement} {child : StoredNode} {rest : List StoredNode}
    {depth count childDepth childNodes : Nat} (hsize : childSize elements child = .ok (childDepth, childNodes))
    (hdepth : childDepth ≤ maxElementDepth) (hnodes : childNodes ≤ maxElementNodes) (hcount : count ≤ maxElementNodes) :
    measure elements depth count (child :: rest) =
      if maxElementDepth < max depth (childDepth + 1) ∨ maxElementNodes < count + childNodes then
        .error (.build .treeLimitExceeded)
      else measure elements (max depth (childDepth + 1)) (count + childNodes) rest := by
  have hone : usizeAdd childDepth 1 = .ok (childDepth + 1) := by
    apply usizeAdd_eq
    · simp only [maxElementDepth, maxElementNodes] at *
      omega
    · simp [maxElementNodes]
  simp only [measure, hsize, hone, usizeAdd_eq hcount hnodes, bind, Except.bind]

/-- The result for a tree of this size, when so much was measured before. -/
def withinLimits (depth count : Nat) (size : Nat × Nat) : Except Fault (Nat × Nat) :=
  if maxElementDepth < max depth (size.1 + 1) ∨ maxElementNodes < count + size.2 then
    .error (.build .treeLimitExceeded)
  else .ok (max depth (size.1 + 1), count + size.2)

variable {depth count : Nat}

theorem withinLimits_zero (hone : 1 ≤ depth) (hdepth : depth ≤ maxElementDepth)
    (hcount : count ≤ maxElementNodes) : withinLimits depth count (0, 0) = .ok (depth, count) := by
  have hnot : ¬(maxElementDepth < max depth (0 + 1) ∨ maxElementNodes < count + 0) := by omega
  have hmax : max depth (0 + 1) = depth := by omega
  rw [withinLimits, if_neg hnot, hmax, Nat.add_zero]

theorem withinLimits_cons (childDepth childNodes : Nat) (rest : Nat × Nat) {size : Nat × Nat}
    (hdepth : max depth (size.1 + 1) = max (max depth (childDepth + 1)) (rest.1 + 1))
    (hnodes : size.2 = childNodes + rest.2) :
    (if maxElementDepth < max depth (childDepth + 1) ∨ maxElementNodes < count + childNodes then
        .error (.build .treeLimitExceeded)
      else withinLimits (max depth (childDepth + 1)) (count + childNodes) rest) = withinLimits depth count size := by
  unfold withinLimits
  rw [hdepth, hnodes, Nat.add_assoc]
  by_cases hchild : maxElementDepth < max depth (childDepth + 1) ∨ maxElementNodes < count + childNodes
  · rw [if_pos hchild, if_pos (by omega)]
  · rw [if_neg hchild]

theorem measure_eq {nodes : Nodes} (hinv : forest.Inv)
    (h : Expands forest values nodes) (hone : 1 ≤ depth) (hdepth : depth ≤ maxElementDepth)
    (hcount : count ≤ maxElementNodes) : measure forest.elements depth count values = withinLimits depth count nodes.size := by
  induction h generalizing depth count with
  | nil => exact (withinLimits_zero hone hdepth hcount).symm
  | @text t rest nodes _ ih =>
    rw [measure_cons rfl (Nat.zero_le _) (by simp [maxElementNodes]) hcount, ← withinLimits_cons 0 1 nodes.size]
    · split
      · rfl
      · rw [ih (by omega) (by omega) (by omega)]
    · simp only [Nodes.size]
      omega
    · simp only [Nodes.size]
      omega
  | @element index element values rest children nodes hindex hvalues hchildren _ _ ih =>
    obtain ⟨hsize, hdepth', hnodes'⟩ := hinv.size hindex hvalues hchildren
    rw [measure_cons hsize hdepth' hnodes' hcount,
      ← withinLimits_cons (children.size.1 + 1) (children.size.2 + 1) nodes.size]
    · split
      · rfl
      · rw [ih (by omega) (by omega) (by omega)]
    · simp only [Nodes.size]
      omega
    · simp only [Nodes.size]

theorem measureStanza_eq {children : List Nat} {nodes : Nodes} {count : Nat} (hinv : forest.Inv)
    (h : Expands forest (children.map .element) nodes) (hcount : count ≤ maxElementNodes) :
    measureStanza forest.elements count children =
      if maxElementDepth < nodes.size.1 + 1 ∨ maxElementNodes < count + nodes.size.2 then
        .error (.build .treeLimitExceeded)
      else .ok (count + nodes.size.2) := by
  induction children generalizing count nodes with
  | nil =>
    cases h
    have hnot : ¬(maxElementDepth < 0 + 1 ∨ maxElementNodes < count + 0) := by
      simp only [maxElementDepth, maxElementNodes] at *
      omega
    exact (if_neg hnot).symm
  | cons child rest ih =>
    cases h with
    | @element _ element values _ children nodes hindex hvalues hchildren hrest =>
      obtain ⟨hsize, hdepth, hnodes⟩ := hinv.size hindex hvalues hchildren
      have hdeepest : (Nodes.element element.data children nodes).size.1 =
          max (children.size.1 + 1) nodes.size.1 := rfl
      have htotal : (Nodes.element element.data children nodes).size.2 =
          children.size.2 + 1 + nodes.size.2 := rfl
      simp only [measureStanza, hsize, usizeAdd_eq hcount hnodes, bind, Except.bind]
      by_cases hchild : maxElementDepth ≤ children.size.1 + 1 ∨ maxElementNodes < count + (children.size.2 + 1)
      · rw [if_pos hchild, if_pos (by omega)]
      · have hsum : count + (Nodes.element element.data children nodes).size.2 =
            count + (children.size.2 + 1) + nodes.size.2 := by omega
        rw [if_neg hchild, ih hrest (by omega), hsum]
        by_cases hlater : maxElementDepth < nodes.size.1 + 1 ∨
            maxElementNodes < count + (children.size.2 + 1) + nodes.size.2
        · rw [if_pos hlater, if_pos (by omega)]
        · rw [if_neg hlater, if_neg (by omega)]

/-! ### Runs -/

theorem Expands.later {nodes : Nodes} (h : Expands forest values nodes)
    (helements : forest.elements <+: forest'.elements)
    (hget : ∀ element ∈ forest.elements,
      element.children.get forest'.slices.arena = element.children.get forest.slices.arena) :
    Expands forest' values nodes := by
  induction h with
  | nil => exact .nil
  | text _ ih => exact .text ih
  | @element index element _ _ _ _ hindex hvalues _ _ ihchildren ihrest =>
    have hindex' : forest'.elements[index]? = some element := by
      obtain ⟨rest, hrest⟩ := helements
      obtain ⟨hlt, -⟩ := List.getElem?_eq_some_iff.mp hindex
      rw [← hrest, List.getElem?_append_left hlt, hindex]
    exact .element hindex' ((hget _ (List.mem_of_getElem? hindex)).trans hvalues) ihchildren ihrest

theorem StoredElement.Measured.later (h : element.Measured forest)
    (hpublished : forest.slices.published ⊆ forest'.slices.published)
    (helements : forest.elements <+: forest'.elements)
    (hget : ∀ element ∈ forest.elements,
      element.children.get forest'.slices.arena = element.children.get forest.slices.arena)
    (hcontents : element.children.contents forest'.slices.arena = element.children.contents forest.slices.arena) :
    element.Measured forest' := by
  obtain ⟨nodes, hnodes, hdepth, hcount⟩ := h.tree
  refine ⟨hpublished h.published, ⟨nodes, ?_, hdepth, hcount⟩, h.depth, h.nodes⟩
  rw [hcontents]
  exact hnodes.later helements hget

variable {builder : SliceBuilder} {index : Nat}

section

variable (hinv : forest.Inv)
include hinv

theorem Forest.Inv.slices {label : Label (Operation StoredNode)} {slices : State StoredNode}
    (hallowed : forest.Allowed (.slices label)) (h : forest.slices.step Operation.run label = some slices) :
    Forest.Inv ⟨slices, forest.elements⟩ := by
  have hinner := inv_reachable Operation.operates hinv.reach
  have hreach := hinv.reach.step ⟨label, h⟩
  have hlabel : ∀ index operation, label = .edit index operation →
      operation.Stores fun node => node.Valid forest.elements.length := by
    intro index operation heq
    rw [heq] at hallowed
    exact hallowed
  obtain ⟨hbuilders, hpublished⟩ := contents_step hinv.reach h hlabel hinv.builders hinv.published
  have hcontents : ∀ element ∈ forest.elements,
      element.children.contents slices.arena = element.children.contents forest.slices.arena := fun element hmem =>
    (slice_step Operation.operates hinner h (hinv.measured element hmem).published).1
  have hget : ∀ element ∈ forest.elements,
      element.children.get slices.arena = element.children.get forest.slices.arena := by
    intro element hmem
    have hmem' := published_step h (hinv.measured element hmem).published
    have hsound := ((inv_reachable Operation.operates hreach).published _ hmem').sound
    rw [hsound.get, hinv.get hmem, hcontents element hmem]
  exact ⟨hreach, hbuilders, hpublished, fun element hmem =>
    (hinv.measured element hmem).later (fun _ => published_step h) List.prefix_rfl hget (hcontents element hmem)⟩

theorem Forest.Inv.extend (h : element.Measured forest) : Forest.Inv ⟨forest.slices, forest.elements ++ [element]⟩ := by
  have hle : forest.elements.length ≤ (forest.elements ++ [element]).length := by simp
  have hlater : ∀ other : StoredElement, other.Measured forest →
      other.Measured ⟨forest.slices, forest.elements ++ [element]⟩ := fun other hother =>
    hother.later (List.Subset.refl _) (List.prefix_append _ _) (fun _ _ => rfl) rfl
  exact ⟨hinv.reach, fun hbuilder node hmem => (hinv.builders hbuilder node hmem).mono hle,
    fun slice hslice node hmem => (hinv.published slice hslice node hmem).mono hle, List.forall_mem_append.mpr
      ⟨fun other hmem => hlater other (hinv.measured other hmem), List.forall_mem_singleton.mpr (hlater element h)⟩⟩

theorem measure_builder (h : forest.slices.builder? index = some builder) :
    ∃ values nodes, builder.asSlice forest.slices.arena = .ok values ∧ Expands forest values nodes ∧
      measure forest.elements 1 1 values = withinLimits 1 1 nodes.size := by
  obtain ⟨nodes, hnodes⟩ := hinv.expands (hinv.builders h)
  have hsound := ((inv_reachable Operation.operates hinv.reach).builders h).sound
  exact ⟨_, nodes, hsound.get, hnodes, measure_eq hinv hnodes le_rfl (by decide) (by decide)⟩

theorem Forest.Inv.build {data : ElementData} (h : forest.slices.builder? index = some builder) :
    (forest.build index builder data).Inv := by
  obtain ⟨values, nodes, hvalues, hnodes, hmeasure⟩ := measure_builder hinv h
  have hcontents : builder.slice.contents forest.slices.arena = values := by
    have hsound := ((inv_reachable Operation.operates hinv.reach).builders h).sound
    exact Except.ok.inj (hsound.get.symm.trans hvalues)
  have hbind : (builder.asSlice forest.slices.arena >>= measure forest.elements 1 1) = withinLimits 1 1 nodes.size := by
    rw [hvalues, ← hmeasure]
    rfl
  unfold Forest.build
  rw [hbind]
  unfold withinLimits
  split
  next error heq =>
    -- The builder is dropped.
    have hdrop : forest.slices.step Operation.run (.drop index) = some (forest.slices.without index) := by
      rw [State.step, h]
      rfl
    have hallowed : forest.Allowed (.slices (.drop index)) := trivial
    exact hinv.slices hallowed hdrop
  next depth count heq =>
    split at heq
    · cases heq
    next hlimits =>
      cases heq
      have hfinish : forest.slices.step Operation.run (.finish index) =
          some { forest.slices.without index with published := forest.slices.published ++ [builder.finish] } := by
        rw [State.step, h]
        rfl
      have hallowed : forest.Allowed (.slices (.finish index)) := trivial
      have hslices := hinv.slices hallowed hfinish
      have hexpands : Expands ⟨{ forest.slices.without index with
          published := forest.slices.published ++ [builder.finish] }, forest.elements⟩ values nodes :=
        hnodes.later List.prefix_rfl fun _ _ => rfl
      refine hslices.extend ⟨List.mem_append_right _ List.mem_cons_self, ⟨nodes, ?_, ?_, ?_⟩, ?_, ?_⟩
      · have hsame : builder.finish.contents forest.slices.arena = values := hcontents
        exact hsame ▸ hexpands
      · show max 1 (nodes.size.1 + 1) = nodes.size.1 + 1
        omega
      · exact Nat.add_comm 1 _
      · exact Nat.not_lt.mp fun hlt => hlimits (.inl hlt)
      · exact Nat.not_lt.mp fun hlt => hlimits (.inr hlt)

end

theorem Forest.inv_reachable (h : Forest.system.Reachable forest) : forest.Inv := by
  refine h.invariant (fun forest hinit => ?_) fun forest forest' _ hinv hstep => ?_
  · obtain ⟨hinitial, helements⟩ := hinit
    have hreach : (State.system Operation.run).Reachable forest.slices := .init hinitial
    obtain ⟨-, hbuilders, hpublished⟩ := hinitial
    refine ⟨hreach, fun {index builder} hfound => ?_, by simp [hpublished], by simp [helements]⟩
    rw [State.builder?, hbuilders] at hfound
    cases hfound
  · obtain ⟨move, hallowed, hmove⟩ := hstep
    cases move with
    | slices label =>
      obtain ⟨slices, hslices, rfl⟩ := Option.map_eq_some_iff.mp hmove
      exact hinv.slices hallowed hslices
    | build index data =>
      obtain ⟨builder, hbuilder, rfl⟩ := Option.map_eq_some_iff.mp hmove
      exact hinv.build hbuilder

end Lonewolf.Xmpp.Storage
