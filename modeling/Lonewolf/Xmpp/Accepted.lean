import Lonewolf.Xmpp.Rescoping
import Lonewolf.Xmpp.TreeLimits

/-!
# What the parser accepts

Every element and stanza that the parser completes was made by frames, with the namespaces that were in scope, and can
be stored again: its names and texts pass the checks of the builders, and each of its subtrees is within the limits.
-/

namespace Lonewolf.Xmpp

open Texts XmlReading Transactions

/-! ### Trees that can be stored -/

/-- The attribute passes the checks of a builder. -/
structure Attribute.Storable (a : Attribute) : Prop where
  name : validateName a.name a.ns true = .ok ()
  value : validateText a.value = .ok ()

structure ElementData.Storable (data : ElementData) : Prop where
  name : validateName data.name data.ns false = .ok ()
  attributes : ∀ a ∈ data.attributes, a.Storable

/-- Every node passes the checks of a builder, and every element is within the limits. -/
def Nodes.Storable : Nodes → Prop
  | .nil => True
  | .text t rest => validateText t = .ok () ∧ rest.Storable
  | .element data children rest => data.Storable ∧ children.Storable ∧ children.Fits ∧ rest.Storable

structure Stanza.Storable (stanza : Stanza) : Prop where
  id : ∀ t ∈ stanza.header.id, validateText t = .ok ()
  lang : ∀ t ∈ stanza.header.lang, validateText t = .ok ()
  type : ∀ t ∈ stanza.header.originalMessageType, validateText t = .ok ()
  attributes : ∀ a ∈ stanza.attributes, a.Storable
  children : (Nodes.ofElements stanza.children).Storable

section Trees

variable {nodes rest : Nodes} {source : Text}

theorem ElementData.Storable.copyable {data : ElementData} (h : data.Storable) :
    ElementData.Copyable data.name data.ns data.attributes :=
  ⟨h.name, fun a ha => (h.attributes a ha).name⟩

theorem Nodes.Storable.append (h : nodes.Storable) (h' : rest.Storable) : (nodes.append rest).Storable := by
  induction nodes with
  | nil => exact h'
  | text t tail ih => exact ⟨h.1, ih h.2⟩
  | element data children tail _ ih => exact ⟨h.1, h.2.1, h.2.2.1, ih h.2.2.2⟩

theorem Nodes.Storable.copyable (h : nodes.Storable) : nodes.Copyable := by
  induction nodes with
  | nil => trivial
  | text t rest ih => exact ih h.2
  | element data children rest ihchildren ih =>
    exact ⟨h.1.copyable, ihchildren h.2.1, h.2.2.1, ih h.2.2.2⟩

theorem Nodes.Storable.rescopable (h : nodes.Storable) (ns : StanzaNamespace) : nodes.Rescopable source ns.asStr := by
  induction nodes with
  | nil => trivial
  | text t rest ih => exact ⟨h.1, ih h.2⟩
  | element data children rest ihchildren ih =>
    obtain ⟨hdata, hchildren, hfits, hrest⟩ := h
    refine ⟨?_, ih hrest⟩
    split
    · exact ⟨⟨validateName_of_stanza hdata.name ns, hdata.copyable.attributes⟩, ihchildren hchildren, hfits⟩
    · exact ⟨hdata.copyable, hchildren.copyable, hfits⟩

theorem Nodes.ofElements_append (children : List Element) (child : Element) :
    Nodes.ofElements (children ++ [child]) = (Nodes.ofElements children).append (.element child.data child.children .nil) := by
  induction children with
  | nil => rfl
  | cons first rest ih => simp only [List.cons_append, Nodes.ofElements, Nodes.append, ih]

theorem Stanza.Storable.moves {stanza : Stanza} (h : stanza.Storable) (ns : StanzaNamespace) : stanza.Moves ns where
  attributes a ha := (h.attributes a ha).name
  children := by
    split
    · exact h.children.copyable
    · exact h.children.rescopable ns

end Trees

/-! ### Attributes -/

variable {name ns value : Text}

theorem Attribute.Storable.of_set {attributes result : List Attribute} (h : ∀ a ∈ attributes, a.Storable)
    (hset : setAttribute attributes name ns value = .ok result) : ∀ a ∈ result, a.Storable := by
  simp only [setAttribute, except_bind_eq_ok] at hset
  obtain ⟨_, hname, _, hvalue, hresult⟩ := hset
  split at hresult
  · cases hresult
    intro a ha
    rcases List.mem_or_eq_of_mem_set ha with ha | rfl
    · exact h a ha
    · exact ⟨hname, hvalue⟩
  · cases hresult
    exact List.forall_mem_append.mpr ⟨h, List.forall_mem_singleton.mpr ⟨hname, hvalue⟩⟩

theorem Attribute.Storable.of_frame {attributes result : List Attribute} (h : ∀ a ∈ attributes, a.Storable)
    (hset : frameAttribute attributes name ns value = .ok result) : ∀ a ∈ result, a.Storable := by
  unfold frameAttribute at hset
  split at hset
  · cases hset
  · exact .of_set h hset

/-! ### Scopes -/

theorem declarations_cons (name value : Text) (rest : List (Text × Text)) :
    declarations ((name, value) :: rest) =
      ((declares name).map fun pre => (pre, value)).toList ++ declarations rest := by
  simp only [declarations, List.filterMap_cons]
  cases declares name <;> rfl

variable {tag : Tag}

namespace Resolver

variable {resolver inner : Resolver}

theorem pushAttribute_eq {name value : Text} (h : resolver.pushAttribute name value = .ok inner) :
    inner = ((declares name).map fun pre => (pre, value)).toList ++ resolver ∧
      ∀ pre ∈ declares name, acceptsBinding pre value = true := by
  simp only [pushAttribute, except_bind_eq_ok] at h
  obtain ⟨_, -, h⟩ := h
  split at h
  next hdeclares =>
    cases h
    rw [hdeclares]
    exact ⟨rfl, fun _ hmem => by cases hmem⟩
  next pre hdeclares =>
    obtain ⟨ns, hns, h⟩ := except_bind_eq_ok.mp h
    obtain ⟨_, -, rfl⟩ := except_map_eq_ok.mp hns
    split at h
    next haccepts =>
      cases h
      rw [hdeclares]
      refine ⟨rfl, fun pre' hmem => ?_⟩
      cases hmem
      exact haccepts
    · cases h

theorem push_cons {pre ns : Text} (h : acceptsBinding pre ns = true) (rest : List (Text × Text)) :
    resolver.push ((pre, ns) :: rest) = push ((pre, ns) :: resolver) rest := by
  simp only [push, List.all_cons, h, Bool.true_and, List.reverse_cons, List.append_assoc, List.singleton_append]

theorem pushAttributes_eq {seen : List Text} {attributes : List (Text × Text)}
    (h : resolver.pushAttributes seen attributes = .ok inner) : resolver.push (declarations attributes) = some inner := by
  induction attributes generalizing resolver seen with
  | nil =>
    cases h
    rfl
  | cons first rest ih =>
    obtain ⟨name, value⟩ := first
    simp only [pushAttributes] at h
    split at h
    · cases h
    · split at h
      · cases h
      · obtain ⟨next, hnext, hrest⟩ := except_bind_eq_ok.mp h
        obtain ⟨rfl, haccepts⟩ := pushAttribute_eq hnext
        have hpush := ih hrest
        rw [declarations_cons]
        cases hdeclares : declares name with
        | none =>
          rw [hdeclares] at hpush
          exact hpush
        | some pre =>
          rw [hdeclares] at hpush
          exact (push_cons (haccepts pre hdeclares) _).trans hpush

theorem push_of_pushStart (h : resolver.pushStart tag = .ok inner) :
    resolver.push (declarations tag.attributes) = some inner := by
  obtain ⟨_, -, h⟩ := except_bind_eq_ok.mp h
  exact pushAttributes_eq h

theorem element_of_elementName {name ns : Text} (h : resolver.elementName tag = .ok (name, ns))
    (hns : ns ≠ xmlnsNamespace) : ∃ pre, resolver.element pre = some ns := by
  unfold elementName at h
  split at h
  · cases h
    exact ⟨[], rfl⟩
  next pre suffix _ =>
    obtain ⟨found, hfound, heq⟩ := except_map_eq_ok.mp h
    cases heq
    refine ⟨pre, ?_⟩
    unfold resolvePrefix at hfound
    split at hfound
    · cases hfound
      exact absurd rfl hns
    · split at hfound
      next hlookup =>
        cases hfound
        exact hlookup
      · cases hfound

end Resolver

/-! ### Frames -/

/-- An element that was completed, with its subtrees. -/
structure Element.Sound (unicode : Unicode) (arena : Arena) (element : Element) : Prop where
  made : Made unicode arena (.element element)
  data : element.data.Storable
  children : element.children.Storable
  fits : element.children.Fits

namespace Frame

def item : Frame → Item
  | .element frame => .builder frame
  | .stanza frame => .frame frame

/-- What the frame has so far can be stored. -/
def Storable : Frame → Prop
  | .element frame => frame.data.Storable ∧ frame.children.Storable
  | .stanza frame => (∀ t ∈ frame.id, validateText t = .ok ()) ∧ (∀ t ∈ frame.lang, validateText t = .ok ()) ∧
      (∀ t ∈ frame.rawType, validateText t = .ok ()) ∧ (∀ a ∈ frame.attributes, a.Storable) ∧
      (Nodes.ofElements frame.children).Storable

/-- A frame that the parser can have. -/
structure Sound (unicode : Unicode) (arena : Arena) (frame : Frame) : Prop where
  made : Made unicode arena frame.item
  storable : frame.Storable

variable {unicode : Unicode} {arena later : Arena} {frame frame' : Frame}

theorem Sound.mono (h : frame.Sound unicode arena) (hgrows : arena.Grows later) : frame.Sound unicode later :=
  ⟨.grown h.made hgrows, h.storable⟩

theorem namespaces_withAttribute (h : frame.withAttribute name ns value = .ok frame') :
    frame'.namespaces = frame.namespaces := by
  cases frame with
  | element frame =>
    obtain ⟨result, hresult, rfl⟩ := except_map_eq_ok.mp h
    obtain ⟨_, -, hresult⟩ := except_bind_eq_ok.mp hresult
    cases hresult
    rfl
  | stanza frame =>
    obtain ⟨result, hresult, rfl⟩ := except_map_eq_ok.mp h
    unfold StanzaFrame.withAttribute at hresult
    split_ifs at hresult <;> simp only [except_bind_eq_ok, except_pure_eq_ok] at hresult <;>
      obtain ⟨_, -, rfl⟩ := hresult <;> rfl

variable (h : frame.Sound unicode arena)
include h

theorem Sound.withAttribute (hset : frame.withAttribute name ns value = .ok frame') : frame'.Sound unicode arena := by
  cases frame with
  | element frame =>
    obtain ⟨result, hresult, rfl⟩ := except_map_eq_ok.mp hset
    refine ⟨.frameAttribute h.made hresult, ?_⟩
    obtain ⟨attributes, hattributes, hresult⟩ := except_bind_eq_ok.mp hresult
    cases hresult
    exact ⟨⟨h.storable.1.name, .of_frame h.storable.1.attributes hattributes⟩, h.storable.2⟩
  | stanza frame =>
    obtain ⟨result, hresult, rfl⟩ := except_map_eq_ok.mp hset
    refine ⟨.stanzaFrameAttribute h.made hresult, ?_⟩
    obtain ⟨hid, hlang, htype, hattributes, hchildren⟩ := h.storable
    unfold StanzaFrame.withAttribute at hresult
    split_ifs at hresult <;> simp only [except_bind_eq_ok, except_pure_eq_ok] at hresult <;>
      obtain ⟨_, hvalid, rfl⟩ := hresult
    · exact ⟨hid, hlang, htype, hattributes, hchildren⟩
    · exact ⟨hid, hlang, htype, hattributes, hchildren⟩
    · exact ⟨fun t ht => by cases ht; exact hvalid, hlang, htype, hattributes, hchildren⟩
    · exact ⟨hid, fun t ht => by cases ht; exact hvalid, htype, hattributes, hchildren⟩
    · exact ⟨hid, hlang, fun t ht => by cases ht; exact hvalid, hattributes, hchildren⟩
    · exact ⟨hid, hlang, htype, .of_frame hattributes hvalid, hchildren⟩

theorem Sound.text {t : Text} (htext : frame.text t = .ok frame') :
    frame'.Sound unicode arena ∧ frame'.namespaces = frame.namespaces := by
  cases frame with
  | element frame =>
    obtain ⟨result, hresult, rfl⟩ := except_map_eq_ok.mp htext
    have hmade := Made.frameText h.made hresult
    obtain ⟨_, hvalid, hresult⟩ := except_bind_eq_ok.mp hresult
    cases hresult
    exact ⟨⟨hmade, h.storable.1, h.storable.2.append ⟨hvalid, trivial⟩⟩, rfl⟩
  | stanza frame =>
    obtain ⟨result, hresult, rfl⟩ := except_map_eq_ok.mp htext
    have hmade := Made.stanzaFrameText h.made hresult
    obtain ⟨_, -, hresult⟩ := except_bind_eq_ok.mp hresult
    cases hresult
    exact ⟨⟨hmade, h.storable⟩, rfl⟩

theorem Sound.child {element : Element} (helement : element.Sound unicode arena) :
    (frame.child element).Sound unicode arena ∧ (frame.child element).namespaces = frame.namespaces := by
  have hnode : (Nodes.element element.data element.children .nil).Storable :=
    ⟨helement.data, helement.children, helement.fits, trivial⟩
  cases frame with
  | element frame => exact ⟨⟨.child h.made helement.made, h.storable.1, h.storable.2.append hnode⟩, rfl⟩
  | stanza frame =>
    obtain ⟨hid, hlang, htype, hattributes, hchildren⟩ := h.storable
    refine ⟨⟨.stanzaFrameChild h.made helement.made, hid, hlang, htype, hattributes, ?_⟩, rfl⟩
    show (Nodes.ofElements (frame.children ++ [element])).Storable
    rw [Nodes.ofElements_append]
    exact hchildren.append hnode

end Frame

/-- What was completed can be stored. -/
def Completed.Sound (unicode : Unicode) (arena : Arena) : Completed → Prop
  | .element result => result.Sound unicode arena
  | .stanza result => Made unicode arena (.stanza result) ∧ result.Storable
  | _ => True

variable {completed : Completed}

section Frames

variable {unicode : Unicode} {arena : Arena} {frame : Frame}

variable {resolver : Resolver} {frame' : Frame}
variable {root : Bool}

section

variable (h : frame.Sound unicode arena)
include h

theorem Frame.Sound.finish (hfinish : frame.finish unicode = .ok completed) : completed.Sound unicode arena := by
  cases frame with
  | element frame =>
    obtain ⟨element, hbuild, rfl⟩ := except_map_eq_ok.mp hfinish
    obtain rfl := build_eq_ok hbuild
    refine ⟨.build h.made hbuild, h.storable.1, h.storable.2, ?_⟩
    unfold ElementBuilder.build at hbuild
    split at hbuild
    · cases hbuild
    next hlimits =>
      rw [not_or, not_lt, not_lt] at hlimits
      exact hlimits
  | stanza frame =>
    obtain ⟨result, hresult, rfl⟩ := except_map_eq_ok.mp hfinish
    cases result with
    | inr rejected => trivial
    | inl stanza =>
      obtain ⟨hid, hlang, htype, hattributes, hchildren⟩ := h.storable
      refine ⟨.finish h.made hresult, ?_⟩
      obtain ⟨rfl, -⟩ := finish_stanza hresult
      refine ⟨hid, hlang, fun t ht => htype t ?_, hattributes, hchildren⟩
      change t ∈ if frame.kind = .message then frame.rawType else none at ht
      split at ht
      · exact ht
      · cases ht

theorem Frame.Sound.attributes {attributes : List (Text × Text)}
    (hset : attributes.foldlM (fun frame (name, value) => frameTagAttribute resolver frame name value) frame = .ok frame')
    : frame'.Sound unicode arena ∧ frame'.namespaces = frame.namespaces := by
  induction attributes generalizing frame with
  | nil =>
    cases hset
    exact ⟨h, rfl⟩
  | cons first rest ih =>
    simp only [List.foldlM_cons, except_bind_eq_ok] at hset
    obtain ⟨next, hnext, hrest⟩ := hset
    simp only [frameTagAttribute, except_bind_eq_ok] at hnext
    obtain ⟨_, -, _, -, hattribute⟩ := hnext
    have hattribute := except_mapError_eq_ok.mp hattribute
    rw [← namespaces_withAttribute hattribute]
    exact ih (h.withAttribute hattribute) hrest

theorem Frame.Sound.inherit {name : Text} {value : Option Text}
    (hset : inheritAttribute resolver tag root name value frame = .ok frame') :
    frame'.Sound unicode arena ∧ frame'.namespaces = frame.namespaces := by
  unfold inheritAttribute at hset
  split at hset
  · split at hset
    · have hattribute := except_mapError_eq_ok.mp hset
      exact ⟨h.withAttribute hattribute, namespaces_withAttribute hattribute⟩
    · cases hset
      exact ⟨h, rfl⟩
  · cases hset
    exact ⟨h, rfl⟩

end

theorem bareFrame_sound (unicode : Unicode) {context : NamespaceContext} {name ns : Text} {bare : Frame}
    (hopened : Opened arena resolver context) (hname : resolver.elementName tag = .ok (name, ns))
    (h : bareFrame tag root name ns = .ok bare) :
    (bare.setNamespaces context).Sound unicode arena ∧ (bare.setNamespaces context).namespaces = context := by
  unfold bareFrame at h
  split at h
  next kind ns' hroot =>
    split at h
    · cases h
    · cases h
      have hnone : ∀ t ∈ (none : Option Text), validateText t = .ok () := fun t ht => by cases ht
      have hnil : ∀ a ∈ ([] : List Attribute), a.Storable := fun a ha => by cases ha
      exact ⟨⟨.newStanzaFrame kind ns' hopened, hnone, hnone, hnone, hnil, trivial⟩, rfl⟩
  next hroot =>
    obtain ⟨builder, hbuilder, rfl⟩ := except_map_eq_ok.mp h
    have hnew := except_mapError_eq_ok.mp hbuilder
    have hvalid : validateName name ns false = .ok () := by
      obtain ⟨_, hvalid, -⟩ := except_bind_eq_ok.mp hnew
      exact hvalid
    obtain ⟨pre, hns⟩ := Resolver.element_of_elementName hname (validName_of_validateName hvalid).1.notXmlns
    refine ⟨⟨.newFrame hopened hns hnew, ?_⟩, rfl⟩
    obtain ⟨-, rfl⟩ := new_eq_ok hnew
    exact ⟨⟨hvalid, fun a ha => by cases ha⟩, trivial⟩

theorem newFrame_sound (unicode : Unicode) {stream : StreamContext} {parent : Option NamespaceContext} {arena' : Arena}
    (hopened : Opened (frameNamespaces resolver (declarations tag.attributes) parent arena).2 resolver
      (frameNamespaces resolver (declarations tag.attributes) parent arena).1)
    (h : newFrame stream resolver tag root parent arena = .ok (frame, arena')) :
    arena' = (frameNamespaces resolver (declarations tag.attributes) parent arena).2 ∧
      frame.Sound unicode arena' ∧
      frame.namespaces = (frameNamespaces resolver (declarations tag.attributes) parent arena).1 := by
  obtain ⟨⟨name, ns⟩, hname, h⟩ := except_bind_eq_ok.mp h
  obtain ⟨bare, hbare, h⟩ := except_bind_eq_ok.mp h
  simp only [except_bind_eq_ok, except_pure_eq_ok] at h
  obtain ⟨attributed, hattributed, withLang, hlang, result, hspace, heq⟩ := h
  cases heq
  obtain ⟨hbare, hcontext⟩ := bareFrame_sound unicode hopened hname hbare
  obtain ⟨hattributed, hsame⟩ := hbare.attributes hattributed
  obtain ⟨hlang, hsame'⟩ := hattributed.inherit hlang
  obtain ⟨hspace, hsame''⟩ := hlang.inherit hspace
  exact ⟨rfl, hspace, by rw [hsame'', hsame', hsame, hcontext]⟩

end Frames

/-! ### The stack -/

namespace Parser

/-- The frames with their scopes, the innermost first, over the scope of the stream. -/
inductive Stack (unicode : Unicode) (arena : Arena) : List Resolver → List Frame → Prop where
  | base : ∀ {resolvers}, Resolver.Accepted (resolvers.headD []) → Stack unicode arena resolvers []
  | push : ∀ {resolver resolvers frame frames}, Stack unicode arena resolvers frames →
      Opened arena resolver frame.namespaces → frame.Sound unicode arena →
      Stack unicode arena (resolver :: resolvers) (frame :: frames)

variable {unicode : Unicode} {stream : StreamContext} {parser parser' : Parser} {limited : Bool} {arena later : Arena}
  {resolvers : List Resolver} {frame : Frame} {frames : List Frame}

theorem Stack.mono (h : Stack unicode arena resolvers frames) (hgrows : arena.Grows later) :
    Stack unicode later resolvers frames := by
  induction h with
  | base haccepted => exact .base haccepted
  | push _ hopened hsound ih => exact .push ih (.grown hopened hgrows) (hsound.mono hgrows)

theorem Stack.accepted (h : Stack unicode arena resolvers frames) : Resolver.Accepted (resolvers.headD []) := by
  cases h with
  | base haccepted => exact haccepted
  | push _ hopened _ => exact hopened.inScope.accepted

theorem Stack.resolvers_eq (h : Stack unicode arena resolvers (frame :: frames)) :
    ∃ resolver, resolvers = resolver :: resolvers.tail := by
  cases h with
  | push => exact ⟨_, rfl⟩

theorem Stack.replace {frame' : Frame} (h : Stack unicode arena resolvers (frame :: frames))
    (hsound : frame.Sound unicode arena → frame'.Sound unicode arena ∧ frame'.namespaces = frame.namespaces) :
    Stack unicode arena resolvers (frame' :: frames) := by
  cases h with
  | push hrest hopened hframe =>
    obtain ⟨hsound', hnamespaces⟩ := hsound hframe
    rw [← hnamespaces] at hopened
    exact .push hrest hopened hsound'

theorem Stack.flushText (h : Stack unicode parser.arena parser.resolvers parser.frames)
    (hflush : parser.flushText limited = .ok parser') :
    Stack unicode parser'.arena parser'.resolvers parser'.frames := by
  obtain ⟨-, rfl⟩ | ⟨frame, frame', frames, -, hframes, htext, rfl⟩ := flushText_cases hflush
  · exact h
  · rw [hframes] at h
    exact h.replace fun hsound => hsound.text htext

theorem Stack.openFrame {opened : Parser} (h : Stack unicode parser.arena parser.resolvers parser.frames)
    (hopen : parser.openFrame limited stream tag = .ok (opened, frame)) :
    Stack unicode opened.arena opened.resolvers (frame :: opened.frames) := by
  simp only [Parser.openFrame, except_bind_eq_ok, except_pure_eq_ok] at hopen
  obtain ⟨flushed, hflushed, _, -, nodes, -, inner, hpush, ⟨name, ns⟩, -, _, -, ⟨new, arena⟩, hnew, heq⟩ := hopen
  cases heq
  have hstack := h.flushText hflushed
  have hpush := Resolver.push_of_pushStart hpush
  have hinner : inner.Accepted := (hstack.accepted.push hpush).1
  -- the namespaces are those of the frame above, or all that are in scope
  have hopened : flushed.arena.Grows (frameNamespaces inner (declarations tag.attributes)
        (flushed.frames.head?.map Frame.namespaces) flushed.arena).2 ∧
      Opened (frameNamespaces inner (declarations tag.attributes) (flushed.frames.head?.map Frame.namespaces)
          flushed.arena).2 inner
        (frameNamespaces inner (declarations tag.attributes) (flushed.frames.head?.map Frame.namespaces)
          flushed.arena).1 := by
    cases hframes : flushed.frames with
    | nil =>
      have hempty : flushed.arena.Holds .empty := trivial
      exact ⟨(bindAll_spec hempty _).1, .root _ _ hinner⟩
    | cons above frames =>
      rw [hframes] at hstack
      cases hresolvers : flushed.resolvers with
      | nil =>
        rw [hresolvers] at hstack
        cases hstack
      | cons resolver resolvers =>
        rw [hresolvers] at hstack
        cases hstack with
        | push _ habove _ =>
          rw [Parser.resolver, hresolvers, List.headD_cons] at hpush
          exact ⟨(bindAll_spec habove.inScope.held _).1, habove.nested hpush⟩
  obtain ⟨rfl, hsound, hnamespaces⟩ := newFrame_sound unicode hopened.2 hnew
  refine .push (hstack.mono hopened.1) ?_ hsound
  rw [hnamespaces]
  exact hopened.2

theorem Stack.finishFrame {completed : Option Completed} (resolver : Resolver)
    (h : Stack unicode parser.arena (resolver :: parser.resolvers) (frame :: parser.frames))
    (hfinish : parser.finishFrame unicode frame = .ok (parser', completed)) :
    (completed = none → Stack unicode parser'.arena parser'.resolvers parser'.frames) ∧
      ∀ result ∈ completed, result.Sound unicode parser'.arena := by
  cases h with
  | push hrest _ hsound =>
    obtain ⟨result, hresult, ⟨-, rfl, rfl⟩ | ⟨above, frames, element, hframes, rfl, rfl, rfl⟩⟩ := finishFrame_cases hfinish
    · refine ⟨fun hnone => (by cases hnone), fun result' hmem => ?_⟩
      cases hmem
      exact hsound.finish hresult
    · refine ⟨fun _ => ?_, fun result' hmem => by cases hmem⟩
      rw [hframes] at hrest
      exact hrest.replace fun habove => habove.child (hsound.finish hresult)

theorem Stack.step {event : XmlEvent} {completed : Option Completed}
    (h : Stack unicode parser.arena parser.resolvers parser.frames)
    (hstep : parser.step limited unicode stream event = .ok (parser', completed)) :
    (completed = none → Stack unicode parser'.arena parser'.resolvers parser'.frames) ∧
      ∀ result ∈ completed, result.Sound unicode parser'.arena := by
  obtain ⟨tag, opened, frame, rfl, hopened, rfl, rfl⟩ | ⟨tag, opened, frame, rfl, hopened, hfinish⟩ |
    ⟨flushed, frame, frames, rfl, hflushed, hframes, hfinish⟩ | ⟨-, rfl⟩ | ⟨t, -, -, rfl, rfl⟩ := step_cases hstep
  · exact ⟨fun _ => h.openFrame hopened, fun result hmem => by cases hmem⟩
  · have hstack := h.openFrame hopened
    obtain ⟨resolver, hresolvers⟩ := hstack.resolvers_eq
    rw [hresolvers] at hstack
    refine Stack.finishFrame resolver ?_ hfinish
    exact hstack
  · have hstack := h.flushText hflushed
    rw [hframes] at hstack
    obtain ⟨resolver, hresolvers⟩ := hstack.resolvers_eq
    rw [hresolvers] at hstack
    refine Stack.finishFrame resolver ?_ hfinish
    exact hstack
  · refine ⟨fun hnone => (by cases hnone), fun result hmem => ?_⟩
    cases hmem
    trivial
  · exact ⟨fun _ => h, fun result hmem => by cases hmem⟩

theorem Stack.readNext {events rest : List XmlEvent} (h : Stack unicode parser.arena parser.resolvers parser.frames)
    (hread : parser.readNext limited unicode stream events = .ok (completed, parser', rest)) :
    completed.Sound unicode parser'.arena := by
  induction events generalizing parser with
  | nil => cases hread
  | cons event events ih =>
    simp only [Parser.readNext, except_bind_eq_ok] at hread
    obtain ⟨⟨next, result⟩, hstep, hread⟩ := hread
    obtain ⟨hstack, hsound⟩ := h.step hstep
    cases result with
    | some result =>
      cases hread
      exact hsound _ rfl
    | none => exact ih (hstack rfl) hread

theorem nextEvent_sound {events rest : List XmlEvent} (h : parser.resolver.Accepted)
    (hread : parser.nextEvent limited unicode stream events = .ok (completed, parser', rest)) :
    completed.Sound unicode parser'.arena := by
  refine Stack.readNext ?_ hread
  exact .base h

end Parser

end Lonewolf.Xmpp
