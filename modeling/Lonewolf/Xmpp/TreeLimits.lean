import Lonewolf.Xmpp.Canonical
import Lonewolf.Xmpp.StoredTrees
import Lonewolf.Xmpp.Parser

/-!
# The limits of trees

The parser counts nodes and open elements while it reads, and the builders measure what they finish. The two agree
for elements. Of a stanza the parser also counts the runs of white space between its children, that are not stored.
-/

namespace Lonewolf.Xmpp

open Texts XmlReading Transactions

/-! ### The size of what is open -/

/-- The depth of the deepest child, and the number of nodes of all children. -/
def childrenSize : List Element → Nat × Nat
  | [] => (0, 0)
  | child :: rest => (max (child.children.size.1 + 1) (childrenSize rest).1,
      child.children.size.2 + 1 + (childrenSize rest).2)

def Frame.size : Frame → Nat × Nat
  | .element frame => frame.children.size
  | .stanza frame => childrenSize frame.children

def Frame.isStanza : Frame → Bool
  | .element _ => false
  | .stanza _ => true

/-- The depth that the open elements reach, with their children. -/
def reach : List Frame → Nat
  | [] => 0
  | frame :: frames => max (frames.length + 1 + frame.size.1) (reach frames)

/-- The nodes of the open elements. -/
def stored : List Frame → Nat
  | [] => 0
  | frame :: frames => frame.size.2 + 1 + stored frames

def Completed.size : Completed → Option (Nat × Nat)
  | .element root => some (root.children.size.1 + 1, root.children.size.2 + 1)
  | .stanza root => some ((childrenSize root.children).1 + 1, (childrenSize root.children).2 + 1)
  | _ => none

def Completed.isStanza : Completed → Bool
  | .stanza _ => true
  | _ => false

theorem Nodes.size_append (nodes other : Nodes) :
    (nodes.append other).size = (max nodes.size.1 other.size.1, nodes.size.2 + other.size.2) := by
  induction nodes with
  | nil => simp [Nodes.append, Nodes.size]
  | text t rest ih =>
    simp only [Nodes.append, Nodes.size, ih, Prod.mk.injEq, true_and]
    omega
  | element data children rest _ ih =>
    simp only [Nodes.append, Nodes.size, ih, Prod.mk.injEq]
    omega

theorem childrenSize_append (children : List Element) (child : Element) :
    childrenSize (children ++ [child]) = (max (childrenSize children).1 (child.children.size.1 + 1),
      (childrenSize children).2 + (child.children.size.2 + 1)) := by
  induction children with
  | nil => simp [childrenSize]
  | cons first rest ih =>
    simp only [List.cons_append, childrenSize, ih, Prod.mk.injEq]
    omega

theorem Frame.size_child (frame : Frame) (element : Element) :
    (frame.child element).size =
      (max frame.size.1 (element.children.size.1 + 1), frame.size.2 + (element.children.size.2 + 1)) := by
  cases frame with
  | element frame =>
    show (frame.children.append _).size = _
    rw [Nodes.size_append]
    simp [Frame.size, Nodes.size]
  | stanza frame => exact childrenSize_append frame.children element

theorem Frame.isStanza_child (frame : Frame) (element : Element) : (frame.child element).isStanza = frame.isStanza := by
  cases frame <;> rfl

theorem Frame.size_text {frame frame' : Frame} {t : Text} (h : frame.text t = .ok frame') :
    frame'.size = (frame.size.1, frame.size.2 + if frame.isStanza then 0 else 1) ∧
      frame'.isStanza = frame.isStanza := by
  cases frame with
  | element frame =>
    obtain ⟨result, hresult, rfl⟩ := except_map_eq_ok.mp h
    simp only [ElementBuilder.frameText, except_bind_eq_ok, except_pure_eq_ok] at hresult
    obtain ⟨_, -, rfl⟩ := hresult
    refine ⟨?_, rfl⟩
    show (frame.children.append _).size = _
    rw [Nodes.size_append]
    simp [Frame.size, Frame.isStanza, Nodes.size]
  | stanza frame =>
    obtain ⟨result, hresult, rfl⟩ := except_map_eq_ok.mp h
    simp only [StanzaFrame.text, except_bind_eq_ok, except_pure_eq_ok] at hresult
    obtain ⟨_, -, rfl⟩ := hresult
    exact ⟨rfl, rfl⟩

/-! ### A new frame -/

def Frame.shape (frame : Frame) : (Nat × Nat) × Bool := (frame.size, frame.isStanza)

theorem Frame.shape_withAttribute {frame frame' : Frame} {name ns value : Text}
    (h : frame.withAttribute name ns value = .ok frame') : frame'.shape = frame.shape := by
  cases frame with
  | element frame =>
    obtain ⟨result, hresult, rfl⟩ := except_map_eq_ok.mp h
    simp only [ElementBuilder.frameAttribute, except_bind_eq_ok, except_pure_eq_ok] at hresult
    obtain ⟨_, -, rfl⟩ := hresult
    rfl
  | stanza frame =>
    obtain ⟨result, hresult, rfl⟩ := except_map_eq_ok.mp h
    suffices hchildren : result.children = frame.children by simp [Frame.shape, Frame.size, hchildren, Frame.isStanza]
    unfold StanzaFrame.withAttribute at hresult
    split_ifs at hresult <;> simp only [except_bind_eq_ok, except_pure_eq_ok] at hresult <;>
      obtain ⟨_, -, rfl⟩ := hresult <;> rfl

variable {resolver : Resolver} {tag : Tag} {frame : Frame}

theorem shape_frameTagAttribute {frame' : Frame} {name value : Text}
    (h : frameTagAttribute resolver frame name value = .ok frame') : frame'.shape = frame.shape := by
  simp only [frameTagAttribute, except_bind_eq_ok] at h
  obtain ⟨_, -, _, -, hattribute⟩ := h
  exact Frame.shape_withAttribute (except_mapError_eq_ok.mp hattribute)

theorem shape_inheritAttribute {root : Bool} {name : Text} {value : Option Text} {frame' : Frame}
    (h : inheritAttribute resolver tag root name value frame = .ok frame') : frame'.shape = frame.shape := by
  unfold inheritAttribute at h
  split at h
  · split at h
    · exact Frame.shape_withAttribute (except_mapError_eq_ok.mp h)
    · cases h
      rfl
  · cases h
    rfl

theorem shape_foldlM {attributes : List (Text × Text)} {frame' : Frame}
    (h : attributes.foldlM (fun frame (name, value) => frameTagAttribute resolver frame name value) frame = .ok frame') :
    frame'.shape = frame.shape := by
  induction attributes generalizing frame with
  | nil =>
    cases h
    rfl
  | cons first rest ih =>
    simp only [List.foldlM_cons, except_bind_eq_ok] at h
    obtain ⟨next, hnext, hrest⟩ := h
    exact (ih hrest).trans (shape_frameTagAttribute hnext)

theorem newFrame_empty {stream : StreamContext} {root : Bool} {parent : Option NamespaceContext} {arena arena' : Arena}
    (h : newFrame stream resolver tag root parent arena = .ok (frame, arena')) :
    frame.size = (0, 0) ∧ (root = false → frame.isStanza = false) := by
  simp only [newFrame, except_bind_eq_ok, except_pure_eq_ok] at h
  obtain ⟨_, -, bare, hbare, attributed, hattributed, withLang, hlang, result, hspace, heq⟩ := h
  cases heq
  obtain ⟨hsize, hkind⟩ := Prod.mk.inj
    ((shape_inheritAttribute hspace).trans ((shape_inheritAttribute hlang).trans (shape_foldlM hattributed)))
  rw [hsize, hkind]
  unfold bareFrame at hbare
  split at hbare
  next kind ns hroot =>
    split at hbare
    · cases hbare
    · cases hbare
      refine ⟨rfl, fun hinner => ?_⟩
      rw [hinner] at hroot
      cases hroot
  next hroot =>
    obtain ⟨builder, hbuilder, rfl⟩ := except_map_eq_ok.mp hbare
    have hnew := except_mapError_eq_ok.mp hbuilder
    simp only [ElementBuilder.new, except_bind_eq_ok, except_pure_eq_ok] at hnew
    obtain ⟨_, -, rfl⟩ := hnew
    exact ⟨rfl, fun _ => rfl⟩

/-! ### Finished frames -/

theorem validateChildren_limits {ns : Text} {nodes errors count : Nat} {children : List Element}
    (h : StanzaBuilder.validateChildren ns nodes errors children = .ok count) (hnodes : nodes ≤ maxElementNodes) :
    (childrenSize children).1 + 1 ≤ maxElementDepth ∧ nodes + (childrenSize children).2 ≤ maxElementNodes := by
  induction children generalizing nodes errors with
  | nil => exact ⟨by decide, hnodes⟩
  | cons child rest ih =>
    have hdepth : (childrenSize (child :: rest)).1 = max (child.children.size.1 + 1) (childrenSize rest).1 := rfl
    have hcount : (childrenSize (child :: rest)).2 = child.children.size.2 + 1 + (childrenSize rest).2 := rfl
    simp only [StanzaBuilder.validateChildren] at h
    split_ifs at h with hlimits
    all_goals
      obtain ⟨hdepth', hcount'⟩ := ih h (by omega)
      omega

theorem validate_limits {builder : StanzaBuilder} (h : builder.validate = .ok ()) :
    (childrenSize builder.children).1 + 1 ≤ maxElementDepth ∧ 1 + (childrenSize builder.children).2 ≤ maxElementNodes := by
  simp only [StanzaBuilder.validate] at h
  split at h
  · cases h
  · obtain ⟨errors, hchildren, -⟩ := except_bind_eq_ok.mp h
    exact validateChildren_limits hchildren (by decide)

theorem Frame.finish_isStanza {unicode : Unicode} {completed : Completed} (h : frame.finish unicode = .ok completed)
    (hsize : completed.size.isSome) : completed.isStanza = frame.isStanza := by
  cases frame with
  | element frame =>
    obtain ⟨element, -, rfl⟩ := except_map_eq_ok.mp h
    rfl
  | stanza frame =>
    obtain ⟨result, -, rfl⟩ := except_map_eq_ok.mp h
    cases result with
    | inr rejected => cases hsize
    | inl stanza => rfl

theorem Frame.finish_size {unicode : Unicode} {completed : Completed} {size : Nat × Nat}
    (h : frame.finish unicode = .ok completed) (hsize : completed.size = some size) :
    size = (frame.size.1 + 1, frame.size.2 + 1) ∧ size.1 ≤ maxElementDepth ∧ size.2 ≤ maxElementNodes := by
  cases frame with
  | element frame =>
    obtain ⟨element, helement, rfl⟩ := except_map_eq_ok.mp h
    cases hsize
    unfold ElementBuilder.build at helement
    split at helement
    · cases helement
    next hlimits =>
      cases helement
      exact ⟨rfl, by omega, by omega⟩
  | stanza frame =>
    obtain ⟨result, hresult, rfl⟩ := except_map_eq_ok.mp h
    cases result with
    | inr rejected => cases hsize
    | inl stanza =>
      cases hsize
      obtain ⟨rfl, hvalidate, -⟩ := finish_stanza hresult
      obtain ⟨hdepth, hcount⟩ := validate_limits hvalidate
      exact ⟨rfl, hdepth, (Nat.add_comm _ _).trans_le hcount⟩

/-! ### Steps -/

def XmlEvent.characters : XmlEvent → Option Text
  | .text t | .cdata t => some (Parser.lineEnds t)
  | .reference _ c => c.map fun c => [c]
  | _ => none

def XmlEvent.opens : XmlEvent → Bool
  | .start _ | .empty _ => true
  | _ => false

theorem XmlEvent.opens_of_characters {event : XmlEvent} {t : Text} (h : event.characters = some t) :
    event.opens = false := by
  cases event <;> first | rfl | cases h

namespace Parser

variable {unicode : Unicode} {stream : StreamContext} {parser parser' : Parser} {limited : Bool} {event : XmlEvent}
  {events rest : List XmlEvent} {completed : Completed} {size : Nat × Nat} {stanza : Bool} {dropped : Nat}

theorem countNode_eq {nodes count : Nat} (h : countNode limited nodes = .ok count) : count = nodes + 1 := by
  unfold countNode at h
  split at h
  · cases h
  · exact (Except.ok.inj h).symm

theorem flushText_cases (h : parser.flushText limited = .ok parser') :
    (parser.text = [] ∧ parser' = parser) ∨
      ∃ frame frame' frames, parser.text ≠ [] ∧ parser.frames = frame :: frames ∧
        frame.text parser.text = .ok frame' ∧
        parser' = { parser with frames := frame' :: frames, nodes := parser.nodes + 1, text := [] } := by
  unfold flushText at h
  split at h
  next hempty =>
    cases h
    exact .inl ⟨List.isEmpty_iff.mp hempty, rfl⟩
  next htext =>
    obtain ⟨nodes, hnodes, hrest⟩ := except_bind_eq_ok.mp h
    split at hrest
    · cases hrest
    next frame frames hframes =>
      obtain ⟨frame', hframe, hresult⟩ := except_bind_eq_ok.mp hrest
      cases hresult
      exact .inr ⟨frame, frame', frames, mt List.isEmpty_iff.mpr htext, hframes, except_mapError_eq_ok.mp hframe,
        by rw [countNode_eq hnodes]⟩

theorem openFrame_spec {opened : Parser} (h : parser.openFrame limited stream tag = .ok (opened, frame)) :
    ∃ flushed, parser.flushText limited = .ok flushed ∧ opened.frames = flushed.frames ∧
      opened.text = flushed.text ∧ opened.nodes = flushed.nodes + 1 ∧ frame.size = (0, 0) ∧
      (flushed.frames ≠ [] → frame.isStanza = false) := by
  simp only [openFrame, except_bind_eq_ok, except_pure_eq_ok] at h
  obtain ⟨flushed, hflushed, _, -, nodes, hnodes, resolver, -, ⟨name, ns⟩, -, _, -, ⟨new, arena⟩, hnew, heq⟩ := h
  cases heq
  obtain ⟨hsize, hkind⟩ := newFrame_empty hnew
  exact ⟨flushed, hflushed, rfl, rfl, countNode_eq hnodes, hsize, fun hne => hkind (by simpa using hne)⟩

theorem finishFrame_cases {completed : Option Completed}
    (h : parser.finishFrame unicode frame = .ok (parser', completed)) :
    ∃ result, frame.finish unicode = .ok result ∧
      ((parser.frames = [] ∧ parser' = parser ∧ completed = some result) ∨
        ∃ above frames element, parser.frames = above :: frames ∧ result = .element element ∧
          parser' = { parser with frames := above.child element :: frames } ∧ completed = none) := by
  obtain ⟨result, hresult, hrest⟩ := except_bind_eq_ok.mp h
  refine ⟨result, except_mapError_eq_ok.mp hresult, ?_⟩
  split at hrest
  next hframes =>
    cases hrest
    exact .inl ⟨hframes, rfl, rfl⟩
  next above frames hframes =>
    split at hrest
    next element =>
      cases hrest
      exact .inr ⟨above, frames, element, hframes, rfl, rfl, rfl⟩
    · cases hrest

theorem finishFrame_none (h : parser.finishFrame unicode frame = .ok (parser', none)) :
    ∃ above frames element, parser.frames = above :: frames ∧ element.children.size = frame.size ∧
      parser' = { parser with frames := above.child element :: frames } := by
  obtain ⟨result, hresult, ⟨-, -, hcompleted⟩ | ⟨above, frames, element, habove, rfl, rfl, -⟩⟩ := finishFrame_cases h
  · cases hcompleted
  · obtain ⟨hsize, -⟩ := Frame.finish_size hresult rfl
    simp only [Prod.mk.injEq, Nat.add_right_cancel_iff] at hsize
    exact ⟨above, frames, element, habove, Prod.ext hsize.1 hsize.2, rfl⟩

theorem characters_cases {t : Text} {completed : Option Completed} (h : parser.characters t = .ok (parser', completed))
    : parser.frames ≠ [] ∧ parser' = { parser with text := parser.text ++ t } ∧ completed = none := by
  unfold characters at h
  split at h
  · obtain ⟨_, -, hthrow⟩ := except_bind_eq_ok.mp h
    cases hthrow
  next hframes =>
    cases h
    exact ⟨by simpa using hframes, rfl, rfl⟩

theorem step_cases {completed : Option Completed}
    (h : parser.step limited unicode stream event = .ok (parser', completed)) :
    (∃ tag opened frame, event = .start tag ∧ parser.openFrame limited stream tag = .ok (opened, frame) ∧
      parser' = { opened with frames := frame :: opened.frames } ∧ completed = none) ∨
    (∃ tag opened frame, event = .empty tag ∧ parser.openFrame limited stream tag = .ok (opened, frame) ∧
      ({ opened with resolvers := opened.resolvers.tail } : Parser).finishFrame unicode frame =
        .ok (parser', completed)) ∨
    (∃ flushed frame frames, event = .finish ∧ parser.flushText limited = .ok flushed ∧
      flushed.frames = frame :: frames ∧
      ({ flushed with frames := frames, resolvers := flushed.resolvers.tail } : Parser).finishFrame unicode frame =
        .ok (parser', completed)) ∨
    (event = .finish ∧ completed = some .streamEnd) ∨
    ∃ t, event.characters = some t ∧ parser.frames ≠ [] ∧ parser' = { parser with text := parser.text ++ t } ∧
      completed = none := by
  cases event with
  | start tag =>
    obtain ⟨⟨opened, frame⟩, hopened, hresult⟩ := except_bind_eq_ok.mp h
    cases hresult
    exact .inl ⟨tag, opened, frame, rfl, hopened, rfl, rfl⟩
  | empty tag =>
    obtain ⟨⟨opened, frame⟩, hopened, hresult⟩ := except_bind_eq_ok.mp h
    exact .inr (.inl ⟨tag, opened, frame, rfl, hopened, hresult⟩)
  | finish =>
    obtain ⟨flushed, hflushed, hresult⟩ := except_bind_eq_ok.mp h
    simp only at hresult
    split at hresult
    next frame frames hframes => exact .inr (.inr (.inl ⟨flushed, frame, frames, rfl, hflushed, hframes, hresult⟩))
    next hframes =>
      cases hresult
      exact .inr (.inr (.inr (.inl ⟨rfl, rfl⟩)))
  | text t =>
    simp only [step] at h
    split at h
    · cases h
    · exact .inr (.inr (.inr (.inr ⟨_, rfl, characters_cases h⟩)))
  | cdata t => exact .inr (.inr (.inr (.inr ⟨_, rfl, characters_cases h⟩)))
  | reference name character =>
    cases character with
    | none =>
      simp only [step] at h
      split at h <;> cases h
    | some c => exact .inr (.inr (.inr (.inr ⟨_, rfl, characters_cases h⟩)))
  | restricted => cases h
  | declaration => cases h

/-! ### What is open stays below what is completed -/

theorem flushText_reach (h : parser.flushText limited = .ok parser') :
    reach parser'.frames = reach parser.frames ∧ parser'.frames.length = parser.frames.length ∧
      parser.nodes ≤ parser'.nodes := by
  obtain ⟨-, rfl⟩ | ⟨frame, frame', frames, -, hframes, htext, rfl⟩ := flushText_cases h
  · exact ⟨rfl, rfl, le_rfl⟩
  · rw [hframes]
    simp [reach, (Frame.size_text htext).1]

theorem reach_child (above : Frame) (element : Element) (rest : List Frame) :
    reach (above.child element :: rest) =
      max (rest.length + 1 + max above.size.1 (element.children.size.1 + 1)) (reach rest) := by
  rw [reach, Frame.size_child]

theorem step_reach (h : parser.step limited unicode stream event = .ok (parser', none)) :
    reach parser.frames ≤ reach parser'.frames ∧ parser.nodes ≤ parser'.nodes ∧
      (event.opens → parser.frames.length + 1 ≤ reach parser'.frames) := by
  obtain ⟨tag, opened, frame, rfl, hopened, rfl, -⟩ | ⟨tag, opened, frame, rfl, hopened, hfinish⟩ |
    ⟨flushed, frame, frames, rfl, hflushed, hframes, hfinish⟩ | ⟨-, hcompleted⟩ | ⟨t, htext, -, rfl, -⟩ := step_cases h
  · obtain ⟨flushed, hflushed, hframes, -, hnodes, hsize, -⟩ := openFrame_spec hopened
    obtain ⟨hreach, hlength, hcount⟩ := flushText_reach hflushed
    have hnew : reach (frame :: opened.frames) = max (flushed.frames.length + 1) (reach flushed.frames) := by
      simp [reach, hsize, hframes]
    simp only [hnew]
    omega
  · obtain ⟨flushed, hflushed, hframes, -, hnodes, hsize, -⟩ := openFrame_spec hopened
    obtain ⟨hreach, hlength, hcount⟩ := flushText_reach hflushed
    obtain ⟨above, rest, element, habove, hchild, rfl⟩ := finishFrame_none hfinish
    have hold : reach flushed.frames = max (rest.length + 1 + above.size.1) (reach rest) := by
      rw [← hframes, habove, reach]
    have hopen : flushed.frames.length = rest.length + 1 := by rw [← hframes, habove, List.length_cons]
    simp only [reach_child, hchild, hsize]
    omega
  · obtain ⟨hreach, hlength, hcount⟩ := flushText_reach hflushed
    obtain ⟨above, rest, element, habove, hchild, rfl⟩ := finishFrame_none hfinish
    have hrest : frames = above :: rest := habove
    have hold : reach flushed.frames = max (rest.length + 1 + 1 + frame.size.1)
        (max (rest.length + 1 + above.size.1) (reach rest)) := by
      rw [hframes, hrest, reach, reach, List.length_cons]
    simp only [reach_child, hchild]
    exact ⟨by omega, hcount, nofun⟩
  · cases hcompleted
  · refine ⟨le_rfl, le_rfl, fun hopens => ?_⟩
    rw [XmlEvent.opens_of_characters htext] at hopens
    cases hopens

theorem step_completed (h : parser.step limited unicode stream event = .ok (parser', some completed))
    (hsize : completed.size = some size) :
    reach parser.frames ≤ maxElementDepth ∧ parser.nodes ≤ parser'.nodes ∧ (event.opens → parser.frames = []) ∧
      size.2 ≤ maxElementNodes := by
  obtain ⟨tag, opened, frame, rfl, hopened, -, hnone⟩ | ⟨tag, opened, frame, rfl, hopened, hfinish⟩ |
    ⟨flushed, frame, frames, rfl, hflushed, hframes, hfinish⟩ | ⟨-, hend⟩ | ⟨t, -, -, -, hnone⟩ := step_cases h
  · cases hnone
  · obtain ⟨flushed, hflushed, hframes, -, hnodes, -⟩ := openFrame_spec hopened
    obtain ⟨hreach, hlength, hcount⟩ := flushText_reach hflushed
    obtain ⟨result, hresult, ⟨hempty, rfl, hsome⟩ | ⟨_, _, _, -, -, -, hnone⟩⟩ := finishFrame_cases hfinish
    · cases hsome
      have hnil : flushed.frames = [] := hframes.symm.trans hempty
      have hparser : parser.frames = [] := List.length_eq_zero_iff.mp (by rw [← hlength, hnil]; rfl)
      rw [hparser]
      exact ⟨Nat.zero_le _, by simp only [hnodes]; omega, fun _ => rfl, (Frame.finish_size hresult hsize).2.2⟩
    · cases hnone
  · obtain ⟨hreach, hlength, hcount⟩ := flushText_reach hflushed
    obtain ⟨result, hresult, ⟨hempty, rfl, hsome⟩ | ⟨_, _, _, -, -, -, hnone⟩⟩ := finishFrame_cases hfinish
    · cases hsome
      obtain ⟨heq, hdepth, hlimit⟩ := Frame.finish_size hresult hsize
      have hroot : flushed.frames = [frame] := by
        have hnil : frames = [] := hempty
        rw [hframes, hnil]
      rw [← hreach, hroot]
      refine ⟨?_, hcount, nofun, hlimit⟩
      rw [heq] at hdepth
      simp only [reach, List.length_nil]
      omega
    · cases hnone
  · cases hend
    cases hsize
  · cases hnone

theorem readNext_completed (h : parser.readNext limited unicode stream events = .ok (completed, parser', rest))
    (hsize : completed.size = some size) :
    reach parser.frames ≤ maxElementDepth ∧ parser.nodes ≤ parser'.nodes ∧ size.2 ≤ maxElementNodes := by
  induction events generalizing parser with
  | nil => cases h
  | cons event events ih =>
    obtain ⟨⟨next, done⟩, hstep, hrest⟩ := except_bind_eq_ok.mp h
    cases done with
    | some result =>
      cases hrest
      obtain ⟨hreach, hnodes, -, hlimit⟩ := step_completed hstep hsize
      exact ⟨hreach, hnodes, hlimit⟩
    | none =>
      obtain ⟨hreach, hnodes, hlimit⟩ := ih hrest
      obtain ⟨hreach', hnodes', -⟩ := step_reach hstep
      exact ⟨hreach'.trans hreach, hnodes'.trans hnodes, hlimit⟩

/-! ### The parser with and without its limits -/

/-- The limits make no other difference than an error, and none if something fits. -/
structure Limits {α : Type} (fits : Prop) (checked unchecked : Except ParseError α) : Prop where
  agrees : checked = unchecked ∨ checked = .error (.build .treeLimitExceeded)
  pass : fits → checked = unchecked
  fail : ∀ a, checked = .ok a → fits

section Limits

variable {α β : Type} {fits : Prop} {x y : Except ParseError α}

theorem Limits.same (x : Except ParseError α) : Limits True x x := ⟨.inl rfl, fun _ => rfl, fun _ _ => trivial⟩

theorem Limits.congr {fits' : Prop} (h : Limits fits x y) (hiff : fits ↔ fits') : Limits fits' x y :=
  ⟨h.agrees, fun hfits => h.pass (hiff.mpr hfits), fun a ha => hiff.mp (h.fail a ha)⟩

theorem Limits.check (c : Prop) [Decidable c] (x : Except ParseError α) :
    Limits (¬c) (if true ∧ c then .error (.build .treeLimitExceeded) else x)
      (if false ∧ c then .error (.build .treeLimitExceeded) else x) := by
  by_cases h : c
  · simp only [h, and_self, if_true]
    exact ⟨.inr rfl, fun hnot => absurd trivial hnot, nofun⟩
  · simp only [h, and_false, if_false]
    exact ⟨.inl rfl, fun _ => rfl, fun _ _ => not_false⟩

theorem Limits.bind {rest : α → Prop} {f g : α → Except ParseError β} (h : Limits fits x y)
    (hrest : ∀ a, y = .ok a → Limits (rest a) (f a) (g a)) :
    Limits (fits ∧ ∀ a, y = .ok a → rest a) (x >>= f) (y >>= g) := by
  obtain rfl | rfl := h.agrees
  · cases x with
    | error error => exact ⟨.inl rfl, fun _ => rfl, nofun⟩
    | ok a =>
      have ha := hrest a rfl
      refine ⟨ha.agrees, fun hfits => ha.pass (hfits.2 a rfl), fun b hb => ⟨h.fail a rfl, fun a' heq => ?_⟩⟩
      cases heq
      exact ha.fail b hb
  · refine ⟨.inr rfl, fun hfits => ?_, nofun⟩
    rw [← h.pass hfits.1]
    rfl

end Limits

theorem flushText_limits (parser : Parser) :
    Limits (parser.text = [] ∨ parser.nodes ≠ maxElementNodes) (parser.flushText true) (parser.flushText false) := by
  unfold flushText
  split
  next hempty => exact ⟨.inl rfl, fun _ => rfl, fun _ _ => .inl (List.isEmpty_iff.mp hempty)⟩
  next htext =>
    refine ((Limits.check _ _).bind fun _ _ => .same _).congr ?_
    have hne : parser.text ≠ [] := mt List.isEmpty_iff.mpr htext
    simp only [hne, false_or, implies_true, and_true, ne_eq]

theorem openFrame_limits (parser : Parser) (tag : Tag) :
    Limits ((parser.text = [] ∨ parser.nodes ≠ maxElementNodes) ∧ ∀ flushed, parser.flushText false = .ok flushed →
        flushed.frames.length ≠ maxElementDepth ∧ flushed.nodes ≠ maxElementNodes)
      (parser.openFrame true stream tag) (parser.openFrame false stream tag) := by
  refine (flushText_limits parser).bind fun flushed _ => ?_
  refine ((Limits.check _ _).bind fun _ _ => (Limits.check _ _).bind fun _ _ => .same _).congr ?_
  simp only [implies_true, and_true, false_and, if_false, Bool.false_eq_true, ne_eq, forall_const]

/-- The limits that an event is checked against. -/
def Fits (parser : Parser) (event : XmlEvent) : Prop :=
  (event.opens ∨ event = .finish → parser.text = [] ∨ parser.nodes ≠ maxElementNodes) ∧
    (event.opens → ∀ flushed, parser.flushText false = .ok flushed →
      flushed.frames.length ≠ maxElementDepth ∧ flushed.nodes ≠ maxElementNodes)

theorem step_limits (parser : Parser) (event : XmlEvent) :
    Limits (parser.Fits event) (parser.step true unicode stream event) (parser.step false unicode stream event) := by
  cases event with
  | start tag | empty tag =>
    refine ((openFrame_limits parser tag).bind fun _ _ => .same _).congr ?_
    simp [Fits, XmlEvent.opens]
  | finish =>
    refine ((flushText_limits parser).bind fun _ _ => .same _).congr ?_
    simp [Fits, XmlEvent.opens]
  | reference name character =>
    refine Limits.congr ?_ (by simp [Fits, XmlEvent.opens] : True ↔ _)
    cases character <;> exact .same _
  | _ => exact (Limits.same _).congr (by simp [Fits, XmlEvent.opens])

theorem readNext_agrees (unicode : Unicode) (stream : StreamContext) (parser : Parser) (events : List XmlEvent) :
    parser.readNext true unicode stream events = parser.readNext false unicode stream events ∨
      parser.readNext true unicode stream events = .error (.build .treeLimitExceeded) := by
  induction events generalizing parser with
  | nil => exact .inl rfl
  | cons event events ih =>
    rw [readNext, readNext]
    obtain hsame | herror := (step_limits parser event).agrees
    · rw [hsame]
      cases parser.step false unicode stream event with
      | error error => exact .inl rfl
      | ok result =>
        obtain ⟨next, _ | completed⟩ := result
        · exact ih next
        · exact .inl rfl
    · rw [herror]
      exact .inr rfl

theorem finishFrame_nodes {completed : Option Completed}
    (h : parser.finishFrame unicode frame = .ok (parser', completed)) : parser'.nodes = parser.nodes := by
  obtain ⟨_, -, ⟨-, rfl, -⟩ | ⟨_, _, _, -, -, rfl, -⟩⟩ := finishFrame_cases h
  · rfl
  · rfl

theorem flushText_nodes (h : parser.flushText false = .ok parser') (hnodes : parser.nodes ≤ maxElementNodes) :
    parser.text = [] ∨ parser.nodes ≠ maxElementNodes ↔ parser'.nodes ≤ maxElementNodes := by
  obtain ⟨hempty, rfl⟩ | ⟨_, _, _, hne, -, -, rfl⟩ := flushText_cases h
  · exact iff_of_true (.inl hempty) hnodes
  · simp only [hne, false_or]
    omega

theorem fits_iff {completed : Option Completed} (hnodes : parser.nodes ≤ maxElementNodes)
    (h : parser.step false unicode stream event = .ok (parser', completed)) (hend : completed ≠ some .streamEnd) :
    parser.Fits event ↔ parser'.nodes ≤ maxElementNodes ∧ (event.opens → parser.frames.length ≠ maxElementDepth) := by
  have hopened : ∀ {tag opened frame}, parser.openFrame false stream tag = .ok (opened, frame) →
      parser'.nodes = opened.nodes → event.opens = true → (parser.Fits event ↔ parser'.nodes ≤ maxElementNodes ∧
        (event.opens → parser.frames.length ≠ maxElementDepth)) := by
    intro tag opened frame hopened heq hopens
    obtain ⟨flushed, hflushed, -, -, hcount, -⟩ := openFrame_spec hopened
    have hflush := flushText_nodes hflushed hnodes
    obtain ⟨-, hlength, -⟩ := flushText_reach hflushed
    simp only [Fits, hopens, hflushed, Except.ok.injEq, forall_eq', true_or, forall_const, heq, hcount, hflush, hlength]
    omega
  obtain ⟨tag, opened, frame, rfl, hopen, rfl, -⟩ | ⟨tag, opened, frame, rfl, hopen, hfinish⟩ |
    ⟨flushed, frame, frames, rfl, hflushed, -, hfinish⟩ | ⟨-, hstream⟩ | ⟨t, htext, -, rfl, -⟩ := step_cases h
  · exact hopened hopen rfl rfl
  · have hcount := finishFrame_nodes hfinish
    exact hopened hopen hcount rfl
  · have hcount := finishFrame_nodes hfinish
    simp [Fits, XmlEvent.opens, flushText_nodes hflushed hnodes, hcount]
  · exact absurd hstream hend
  · have hopens := XmlEvent.opens_of_characters htext
    have hfinish : event ≠ .finish := by
      rintro rfl
      cases htext
    simp [Fits, hopens, hfinish, hnodes]

theorem readNext_limited (hsize : completed.size = some size) (hnodes : parser.nodes ≤ maxElementNodes) :
    parser.readNext true unicode stream events = .ok (completed, parser', rest) ↔
      parser.readNext false unicode stream events = .ok (completed, parser', rest) ∧
        parser'.nodes ≤ maxElementNodes := by
  induction events generalizing parser with
  | nil => exact iff_of_false nofun nofun
  | cons event events ih =>
    have hlimits := @step_limits unicode stream parser event
    have hend : some completed ≠ some .streamEnd := by
      rintro ⟨⟩
      cases hsize
    constructor
    · intro h
      obtain ⟨⟨next, done⟩, hstep, hrest⟩ := except_bind_eq_ok.mp h
      have hfits := hlimits.fail _ hstep
      rw [hlimits.pass hfits] at hstep
      cases done with
      | some result =>
        cases hrest
        exact ⟨except_bind_eq_ok.mpr ⟨_, hstep, rfl⟩, ((fits_iff hnodes hstep hend).mp hfits).1⟩
      | none =>
        obtain ⟨hnext, hlast⟩ := (ih ((fits_iff hnodes hstep nofun).mp hfits).1).mp hrest
        exact ⟨except_bind_eq_ok.mpr ⟨_, hstep, hnext⟩, hlast⟩
    · rintro ⟨h, hlast⟩
      obtain ⟨⟨next, done⟩, hstep, hrest⟩ := except_bind_eq_ok.mp h
      cases done with
      | some result =>
        cases hrest
        have hfits := (fits_iff hnodes hstep hend).mpr ⟨hlast, fun hopens => ?_⟩
        · exact except_bind_eq_ok.mpr ⟨_, (hlimits.pass hfits).trans hstep, rfl⟩
        · rw [(step_completed hstep hsize).2.2.1 hopens]
          decide
      | none =>
        obtain ⟨hreach, hcount, -⟩ := readNext_completed hrest hsize
        have hle := hcount.trans hlast
        have hfits := (fits_iff hnodes hstep nofun).mpr ⟨hle, fun hopens => ?_⟩
        · exact except_bind_eq_ok.mpr ⟨_, (hlimits.pass hfits).trans hstep, (ih hle).mpr ⟨hrest, hlast⟩⟩
        · have hdepth := (step_reach hstep).2.2 hopens
          omega

/-! ### What is counted -/

/-- The frames of a top-level element or stanza. -/
inductive Rooted (stanza : Bool) : List Frame → Prop where
  | root {frame : Frame} : frame.isStanza = stanza → Rooted stanza [frame]
  | inner {frame : Frame} {frames : List Frame} : frame.isStanza = false → Rooted stanza frames →
      Rooted stanza (frame :: frames)

/-- One when text stands directly in the top-level element. -/
def rootText (depth : Nat) (pending : Bool) : Nat := if depth = 1 ∧ pending then 1 else 0

/-- The runs of text that stand directly in a top-level element, from some depth on and with or without text before
the next tag. -/
def rootTexts : Nat → Bool → List XmlEvent → Nat
  | _, _, [] => 0
  | depth, pending, .start _ :: events => rootText depth pending + rootTexts (depth + 1) false events
  | depth, pending, .empty _ :: events => rootText depth pending + if depth = 0 then 0 else rootTexts depth false events
  | depth, pending, .finish :: events =>
    rootText depth pending + if depth ≤ 1 then 0 else rootTexts (depth - 1) false events
  | depth, pending, event :: events =>
    rootTexts depth (pending || event.characters.any fun t => !t.isEmpty) events

theorem rootTexts_characters {t : Text} (h : event.characters = some t) (depth : Nat) (pending : Bool)
    (events : List XmlEvent) :
    rootTexts depth pending (event :: events) = rootTexts depth (pending || !t.isEmpty) events := by
  cases event with
  | text t' | cdata t' | reference name c =>
    rw [rootTexts, h]
    · rfl
    all_goals nofun
  | start tag | empty tag | finish | restricted | declaration => cases h

theorem Rooted.ne_nil {frames : List Frame} (h : Rooted stanza frames) : frames ≠ [] := by
  cases h <;> simp

theorem Rooted.child {frames : List Frame} (h : Rooted stanza (frame :: frames)) (element : Element) :
    Rooted stanza (frame.child element :: frames) := by
  cases h with
  | root hkind => exact .root ((Frame.isStanza_child frame element).trans hkind)
  | inner hkind hrest => exact .inner ((Frame.isStanza_child frame element).trans hkind) hrest

/-- What the parser has counted and does not store. -/
structure Dropped (stanza : Bool) (dropped : Nat) (parser : Parser) : Prop where
  rooted : Rooted stanza parser.frames
  nodes : parser.nodes = stored parser.frames + dropped

/-- The run of text before the next tag, if it is dropped. -/
def dropsText (stanza : Bool) (parser : Parser) : Nat :=
  if stanza then rootText parser.frames.length (!parser.text.isEmpty) else 0

theorem Dropped.flush (hdropped : parser.Dropped stanza dropped) (h : parser.flushText limited = .ok parser') :
    parser'.text = [] ∧ parser'.frames.length = parser.frames.length ∧
      parser'.Dropped stanza (dropped + dropsText stanza parser) := by
  obtain ⟨hempty, rfl⟩ | ⟨frame, frame', frames, htext, hframes, hframe, rfl⟩ := flushText_cases h
  · refine ⟨hempty, rfl, hdropped.rooted, ?_⟩
    simp [hdropped.nodes, hempty, dropsText, rootText]
  · obtain ⟨hsize, hkind⟩ := Frame.size_text hframe
    have hpending : (!parser.text.isEmpty) = true := by simpa using htext
    have hnodes := hdropped.nodes
    have hrooted := hdropped.rooted
    simp only [dropsText, hframes, hpending, rootText, and_true]
    rw [hframes] at hnodes hrooted
    refine ⟨trivial, by simp, ?_⟩
    cases hrooted with
    | root hroot =>
      refine ⟨.root (hkind.trans hroot), ?_⟩
      simp only [stored, hsize, hroot, List.length_singleton] at hnodes ⊢
      cases stanza <;> simp <;> omega
    | inner hinner hrest =>
      refine ⟨.inner (hkind.trans hinner) hrest, ?_⟩
      have hdepth : ¬(frame :: frames).length = 1 := by
        cases hrest <;> simp
      simp only [stored, hsize, hinner, if_neg hdepth, ite_self, Bool.false_eq_true, if_false] at hnodes ⊢
      omega

/-- The runs of text that are still to be dropped. -/
def dropsFrom (stanza : Bool) (parser : Parser) (events : List XmlEvent) : Nat :=
  if stanza then rootTexts parser.frames.length (!parser.text.isEmpty) events else 0

section

variable (hdropped : parser.Dropped stanza dropped)
include hdropped

theorem Dropped.step (h : parser.step limited unicode stream event = .ok (parser', none)) (events : List XmlEvent) :
    ∃ dropped', parser'.Dropped stanza dropped' ∧
      dropped + dropsFrom stanza parser (event :: events) = dropped' + dropsFrom stanza parser' events := by
  obtain ⟨tag, opened, frame, rfl, hopened, rfl, -⟩ | ⟨tag, opened, frame, rfl, hopened, hfinish⟩ |
    ⟨flushed, frame, frames, rfl, hflushed, hframes, hfinish⟩ | ⟨-, hcompleted⟩ | ⟨t, htext, -, rfl, -⟩ := step_cases h
  · obtain ⟨flushed, hflushed, hframes, htext, hcount, hsize, hkind⟩ := openFrame_spec hopened
    obtain ⟨hempty, hlength, hrooted, hnodes⟩ := hdropped.flush hflushed
    refine ⟨dropped + dropsText stanza parser, ⟨.inner (hkind hrooted.ne_nil) (hframes ▸ hrooted), ?_⟩, ?_⟩
    · simp only [stored, hsize, hframes]
      omega
    · simp only [dropsFrom, dropsText, rootTexts, List.length_cons, hframes, hlength, htext, hempty]
      cases stanza <;> simp [Nat.add_assoc]
  · obtain ⟨flushed, hflushed, hframes, htext, hcount, hsize, -⟩ := openFrame_spec hopened
    obtain ⟨hempty, hlength, hrooted, hnodes⟩ := hdropped.flush hflushed
    obtain ⟨above, rest, element, habove, hchild, rfl⟩ := finishFrame_none hfinish
    have hstack : flushed.frames = above :: rest := hframes.symm.trans habove
    rw [hstack] at hrooted hnodes hlength
    refine ⟨dropped + dropsText stanza parser, ⟨hrooted.child element, ?_⟩, ?_⟩
    · simp only [stored, Frame.size_child, hchild, hsize] at hnodes ⊢
      omega
    · have hopen : parser.frames.length ≠ 0 := by
        rw [← hlength]
        exact Nat.succ_ne_zero _
      simp only [dropsFrom, dropsText, rootTexts, List.length_cons] at hlength ⊢
      rw [hlength, if_neg hopen, htext, hempty]
      cases stanza <;> simp [Nat.add_assoc]
  · obtain ⟨hempty, hlength, hrooted, hnodes⟩ := hdropped.flush hflushed
    obtain ⟨above, rest, element, habove, hchild, rfl⟩ := finishFrame_none hfinish
    have hrest : frames = above :: rest := habove
    rw [hframes, hrest] at hrooted hnodes hlength
    cases hrooted with
    | inner _ houter =>
      refine ⟨dropped + dropsText stanza parser, ⟨houter.child element, ?_⟩, ?_⟩
      · simp only [stored, Frame.size_child, hchild] at hnodes ⊢
        omega
      · simp only [List.length_cons] at hlength
        have hdeep : ¬parser.frames.length ≤ 1 := by omega
        simp only [dropsFrom, dropsText, rootTexts, List.length_cons, hempty, if_neg hdeep]
        rw [← hlength]
        cases stanza <;> simp [Nat.add_assoc]
  · cases hcompleted
  · refine ⟨dropped, ⟨hdropped.rooted, hdropped.nodes⟩, ?_⟩
    simp only [dropsFrom, rootTexts_characters htext]
    cases parser.text <;> simp

theorem Dropped.finish (h : parser.step limited unicode stream event = .ok (parser', some completed))
    (hsize : completed.size = some size) (events : List XmlEvent) :
    completed.isStanza = stanza ∧ parser'.nodes = size.2 + (dropped + dropsFrom stanza parser (event :: events)) := by
  obtain ⟨tag, opened, frame, rfl, -, -, hnone⟩ | ⟨tag, opened, frame, rfl, -, -⟩ |
    ⟨flushed, frame, frames, rfl, hflushed, hframes, hfinish⟩ | ⟨-, hend⟩ | ⟨t, -, -, -, hnone⟩ := step_cases h
  · cases hnone
  · exact absurd ((step_completed h hsize).2.2.1 rfl) hdropped.rooted.ne_nil
  · obtain ⟨-, hlength, hrooted, hnodes⟩ := hdropped.flush hflushed
    obtain ⟨result, hresult, ⟨hempty, rfl, hsome⟩ | ⟨_, _, _, -, -, -, hnone⟩⟩ := finishFrame_cases hfinish
    · cases hsome
      have hnil : frames = [] := hempty
      obtain ⟨heq, -⟩ := Frame.finish_size hresult hsize
      have hkind := Frame.finish_isStanza hresult (Option.isSome_of_eq_some hsize)
      rw [hframes, hnil] at hrooted hnodes hlength
      have hroot : frame.isStanza = stanza := by
        cases hrooted with
        | root hroot => exact hroot
        | inner _ hinner => cases hinner
      refine ⟨hkind.trans hroot, ?_⟩
      simp only [hnodes, stored, heq, dropsFrom, dropsText, rootTexts, ← hlength, List.length_singleton, le_refl,
        if_true, Nat.add_zero]
    · cases hnone
  · cases hend
    cases hsize
  · cases hnone

theorem Dropped.readNext (h : parser.readNext limited unicode stream events = .ok (completed, parser', rest))
    (hsize : completed.size = some size) :
    completed.isStanza = stanza ∧ parser'.nodes = size.2 + (dropped + dropsFrom stanza parser events) := by
  induction events generalizing parser dropped with
  | nil => cases h
  | cons event events ih =>
    obtain ⟨⟨next, done⟩, hstep, hrest⟩ := except_bind_eq_ok.mp h
    cases done with
    | some result =>
      cases hrest
      exact hdropped.finish hstep hsize rest
    | none =>
      obtain ⟨dropped', hdropped', heq⟩ := hdropped.step hstep events
      rw [heq]
      exact ih hdropped' hrest

end

theorem nextEvent_nodes (h : parser.nextEvent limited unicode stream events = .ok (completed, parser', rest))
    (hsize : completed.size = some size) :
    parser'.nodes = size.2 + if completed.isStanza then rootTexts 0 false events else 0 := by
  cases events with
  | nil => cases h
  | cons event events =>
    obtain ⟨⟨next, done⟩, hstep, hrest⟩ := except_bind_eq_ok.mp h
    obtain ⟨tag, opened, frame, rfl, hopened, rfl, rfl⟩ | ⟨tag, opened, frame, rfl, hopened, hfinish⟩ |
      ⟨flushed, frame, frames, rfl, hflushed, hframes, -⟩ | ⟨-, rfl⟩ | ⟨t, -, hopen, -, -⟩ := step_cases hstep
    · obtain ⟨flushed, hflushed, hframes, htext, hcount, hempty, -⟩ := openFrame_spec hopened
      cases hflushed
      have hdropped : Dropped frame.isStanza 0 { opened with frames := frame :: opened.frames } := by
        constructor
        · simp only [hframes]
          exact .root rfl
        · simp only [hframes, stored, hempty]
          omega
      obtain ⟨hkind, hnodes⟩ := hdropped.readNext hrest hsize
      rw [hnodes, hkind]
      simp [dropsFrom, hframes, htext, rootTexts, rootText]
    · obtain ⟨flushed, hflushed, hframes, -, hcount, hempty, -⟩ := openFrame_spec hopened
      cases hflushed
      obtain ⟨result, hresult, ⟨-, rfl, rfl⟩ | ⟨above, rest, _, habove, -⟩⟩ := finishFrame_cases hfinish
      · cases hrest
        obtain ⟨heq, -⟩ := Frame.finish_size hresult hsize
        have hroot : rootTexts 0 false (.empty tag :: rest) = 0 := rfl
        simp only [hcount, heq, hempty, hroot, ite_self]
      · cases hframes.symm.trans habove
    · cases hflushed
      cases hframes
    · cases hrest
      cases hsize
    · exact absurd rfl hopen

/-! ### Stored sizes and counters -/

open Xmpp.Storage

/-- The sizes that are stored are those of the trees, and within the limits; building computes them without an
overflow and fails at the limits only. The limits that the parser checks while it reads make no difference to an
element, and to a stanza when the runs of text directly in it are counted as nodes. -/
theorem tree_sizes_exact {forest : Forest} (h : Forest.system.Reachable forest) :
    (∀ (index : Nat) (element : StoredElement), forest.elements[index]? = some element →
      ∃ values nodes, element.children.get forest.slices.arena = .ok values ∧ Expands forest values nodes ∧
        element.depth = nodes.size.1 + 1 ∧ element.nodes = nodes.size.2 + 1 ∧
        element.depth ≤ maxElementDepth ∧ element.nodes ≤ maxElementNodes) ∧
    (∀ index builder, forest.slices.builder? index = some builder →
      ∃ values nodes, builder.asSlice forest.slices.arena = .ok values ∧ Expands forest values nodes ∧
        measure forest.elements 1 1 values =
          if maxElementDepth < nodes.size.1 + 1 ∨ maxElementNodes < nodes.size.2 + 1 then
            .error (.build .treeLimitExceeded)
          else .ok (nodes.size.1 + 1, nodes.size.2 + 1)) ∧
    (∀ children nodes, Expands forest (children.map .element) nodes →
      measureStanza forest.elements 1 children =
        if maxElementDepth < nodes.size.1 + 1 ∨ maxElementNodes < nodes.size.2 + 1 then
          .error (.build .treeLimitExceeded)
        else .ok (nodes.size.2 + 1)) ∧
    ∀ (unicode : Unicode) (stream : StreamContext) (parser : Parser) (events : List XmlEvent),
      (parser.nextEvent true unicode stream events = parser.nextEvent false unicode stream events ∨
        parser.nextEvent true unicode stream events = .error (.build .treeLimitExceeded)) ∧
      (∀ element parser' rest, parser.nextEvent true unicode stream events = .ok (.element element, parser', rest) ↔
        parser.nextEvent false unicode stream events = .ok (.element element, parser', rest)) ∧
      ∀ stanza parser' rest, parser.nextEvent true unicode stream events = .ok (.stanza stanza, parser', rest) ↔
        parser.nextEvent false unicode stream events = .ok (.stanza stanza, parser', rest) ∧
          (childrenSize stanza.children).2 + 1 + rootTexts 0 false events ≤ maxElementNodes := by
  have hinv := Forest.inv_reachable h
  refine ⟨fun index element hindex => ?_, fun index builder hbuilder => ?_, fun children nodes hnodes => ?_,
    fun unicode stream parser events => ⟨readNext_agrees unicode stream _ events, fun element parser' rest => ?_,
      fun stanza parser' rest => ?_⟩⟩
  · have hmem := List.mem_of_getElem? hindex
    have hmeasured := hinv.measured element hmem
    obtain ⟨nodes, hnodes, hdepth, hcount⟩ := hmeasured.tree
    exact ⟨_, nodes, hinv.get hmem, hnodes, hdepth, hcount, hmeasured.depth, hmeasured.nodes⟩
  · obtain ⟨values, nodes, hvalues, hnodes, hmeasure⟩ := measure_builder hinv hbuilder
    refine ⟨values, nodes, hvalues, hnodes, ?_⟩
    rw [hmeasure, withinLimits, max_eq_right (Nat.le_add_left 1 _), Nat.add_comm 1]
  · rw [measureStanza_eq hinv hnodes (by decide), Nat.add_comm 1]
  · refine (readNext_limited rfl (Nat.zero_le _)).trans (and_iff_left_of_imp fun haccepted => ?_)
    obtain ⟨-, -, hlimit⟩ := readNext_completed haccepted rfl
    exact (nextEvent_nodes haccepted rfl).trans_le hlimit
  · refine (readNext_limited rfl (Nat.zero_le _)).trans (and_congr_right fun haccepted => ?_)
    have hnodes := nextEvent_nodes haccepted rfl
    rw [hnodes]
    rfl

/-- An element that has another one twice. -/
def sampleForest : Forest :=
  ([.slices .create, .slices (.edit 0 (.push (.text "hi".toList))), .build 0 ⟨"a".toList, [], .empty, []⟩,
    .slices .create, .slices (.edit 1 (.push (.element 0))), .slices (.edit 1 (.push (.element 0))),
    .build 1 ⟨"b".toList, [], .empty, []⟩] : List Forest.Move).foldl
      (fun forest move => (forest.step move).getD forest) ⟨⟨⟨0, [], [], true⟩, [], []⟩, []⟩

theorem sampleForest_reachable : Forest.system.Reachable sampleForest := by
  have hinit : Forest.system.Reachable ⟨⟨⟨0, [], [], true⟩, [], []⟩, []⟩ := .init ⟨⟨rfl, rfl, rfl⟩, rfl⟩
  have hfirst := ((hinit.step ⟨.slices .create, trivial, rfl⟩).step
    ⟨.slices (.edit 0 (.push (.text "hi".toList))), trivial, rfl⟩).step
      ⟨.build 0 ⟨"a".toList, [], .empty, []⟩, trivial, rfl⟩
  exact (((hfirst.step ⟨.slices .create, trivial, rfl⟩).step
    ⟨.slices (.edit 1 (.push (.element 0))), Nat.zero_lt_one, rfl⟩).step
      ⟨.slices (.edit 1 (.push (.element 0))), Nat.zero_lt_one, rfl⟩).step
        ⟨.build 1 ⟨"b".toList, [], .empty, []⟩, trivial, rfl⟩

theorem tree_sizes_exact_sample :
    ∃ element values nodes, sampleForest.elements[1]? = some element ∧
      element.children.get sampleForest.slices.arena = .ok values ∧ Expands sampleForest values nodes ∧
      element.depth = nodes.size.1 + 1 ∧ element.nodes = nodes.size.2 + 1 ∧ element.depth = 2 ∧ element.nodes = 5 := by
  obtain ⟨values, nodes, hget, hexpands, hdepth, hnodes, -⟩ := (tree_sizes_exact sampleForest_reachable).1 1 _ rfl
  exact ⟨_, values, nodes, rfl, hget, hexpands, hdepth, hnodes, rfl, rfl⟩

/-! ### White space in a stanza -/

/-- So many children of a stanza, each after a space, and the end of the stanza. -/
def spaced : Nat → List XmlEvent
  | 0 => [.finish]
  | count + 1 => .text " ".toList :: .empty ⟨"a".toList, []⟩ :: spaced count

def spacedChild (context : NamespaceContext) : Element := ⟨⟨"a".toList, clientNamespace, context, []⟩, .nil⟩

def messageTag : Tag := ⟨"message".toList, [("xmlns".toList, clientNamespace)]⟩

/-- The parser in a message with some children. -/
def inMessage (context : NamespaceContext) (count nodes : Nat) (arena : Arena) : Parser :=
  ⟨[[([], clientNamespace)], []], [.stanza { StanzaFrame.new .message .client context with
    children := List.replicate count (spacedChild context) }], [], nodes, arena⟩

theorem rootTexts_spaced (count : Nat) : rootTexts 1 false (spaced count) = count := by
  induction count with
  | zero => rfl
  | succ count ih =>
    have hsplit : rootTexts 1 false (spaced (count + 1)) = 1 + rootTexts 1 false (spaced count) := rfl
    rw [hsplit, ih, Nat.add_comm]

theorem step_inMessage (context : NamespaceContext) (count nodes : Nat) (arena : Arena) (events : List XmlEvent) :
    (inMessage context count nodes arena).readNext false unicode ⟨[], none⟩
      (.text " ".toList :: .empty ⟨"a".toList, []⟩ :: events) =
      (inMessage context (count + 1) (nodes + 2) arena).readNext false unicode ⟨[], none⟩ events := by
  rw [inMessage, inMessage, List.replicate_succ']
  rfl

theorem readNext_spaced (context : NamespaceContext) (remaining count nodes : Nat) (arena : Arena) :
    (inMessage context count nodes arena).readNext false unicode ⟨[], none⟩ (spaced remaining) =
      (inMessage context (count + remaining) (nodes + 2 * remaining) arena).readNext false unicode ⟨[], none⟩
        [.finish] := by
  induction remaining generalizing count nodes with
  | zero => rfl
  | succ remaining ih =>
    rw [spaced, step_inMessage, ih]
    congr 2 <;> omega

theorem validateChildren_replicate (context : NamespaceContext) (count nodes : Nat)
    (h : nodes + count ≤ maxElementNodes) :
    StanzaBuilder.validateChildren clientNamespace nodes 0 (List.replicate count (spacedChild context)) = .ok 0 := by
  induction count generalizing nodes with
  | zero => rfl
  | succ count ih =>
    have hlimits : ¬(maxElementDepth ≤ (spacedChild context).children.size.1 + 1 ∨
        maxElementNodes < nodes + ((spacedChild context).children.size.2 + 1)) := by
      simp only [spacedChild, Nodes.size, maxElementDepth]
      omega
    have hname : ¬((spacedChild context).data.name = "error".toList ∧
        (spacedChild context).data.ns = clientNamespace) := by
      rintro ⟨h, -⟩
      cases h
    rw [List.replicate_succ, StanzaBuilder.validateChildren, if_neg hlimits, if_neg hname]
    exact ih _ (by simp only [spacedChild, Nodes.size]; omega)

theorem finish_inMessage (unicode : Unicode) (context : NamespaceContext) (count nodes : Nat) (arena : Arena)
    (h : 1 + count ≤ maxElementNodes) :
    ∃ stanza parser', (inMessage context count nodes arena).readNext false unicode ⟨[], none⟩ [.finish] =
      .ok (.stanza stanza, parser', []) ∧ stanza.children = List.replicate count (spacedChild context) := by
  let frame := { StanzaFrame.new .message .client context with children := List.replicate count (spacedChild context) }
  have hvalid : (frame.stanza unicode).validate = .ok () := by
    have hchildren := validateChildren_replicate context count 1 h
    change (StanzaBuilder.validateChildren clientNamespace 1 0 (List.replicate count (spacedChild context)) >>= _) = _
    rw [hchildren]
    rfl
  have hfinish : (Frame.stanza frame).finish unicode = .ok (.stanza (frame.stanza unicode)) := by
    simp only [Frame.finish, StanzaFrame.finish, hvalid]
    rfl
  refine ⟨frame.stanza unicode, ⟨[[]], [], [], nodes, arena⟩,
    except_bind_eq_ok.mpr ⟨(⟨[[]], [], [], nodes, arena⟩, some (.stanza (frame.stanza unicode))), ?_, rfl⟩, rfl⟩
  change (((Frame.stanza frame).finish unicode).mapError ParseError.build >>= _) = _
  rw [hfinish]
  rfl

theorem childrenSize_replicate (context : NamespaceContext) (count : Nat) :
    (childrenSize (List.replicate count (spacedChild context))).2 = count := by
  induction count with
  | zero => rfl
  | succ count ih =>
    rw [List.replicate_succ, childrenSize, ih]
    exact Nat.add_comm _ _

/-- A stream without a header, as for a standalone element. -/
def standalone : Parser := ⟨[[]], [], [], 0, ⟨[]⟩⟩

theorem nextEvent_spaced (unicode : Unicode) {count : Nat} (h : 1 + count ≤ maxElementNodes)
    (hspaces : maxElementNodes < 1 + 2 * count) :
    ∃ stanza parser', standalone.nextEvent false unicode ⟨[], none⟩ (.start messageTag :: spaced count) =
        .ok (.stanza stanza, parser', []) ∧
      standalone.nextEvent true unicode ⟨[], none⟩ (.start messageTag :: spaced count) =
        .error (.build .treeLimitExceeded) := by
  let context : NamespaceContext := .bind 0 .empty [] clientNamespace
  have hstart : ∀ events, standalone.nextEvent false unicode ⟨[], none⟩ (.start messageTag :: events) =
      (inMessage context 0 1 ⟨[context]⟩).readNext false unicode ⟨[], none⟩ events := fun _ => rfl
  obtain ⟨stanza, parser', hread, hchildren⟩ :=
    finish_inMessage unicode context (0 + count) (1 + 2 * count) ⟨[context]⟩ (by omega)
  have haccepted : standalone.nextEvent false unicode ⟨[], none⟩ (.start messageTag :: spaced count) =
      .ok (.stanza stanza, parser', []) := by
    rw [hstart, readNext_spaced, hread]
  refine ⟨stanza, parser', haccepted, ?_⟩
  obtain hsame | herror := readNext_agrees unicode ⟨[], none⟩ standalone (.start messageTag :: spaced count)
  · obtain ⟨-, hlimit⟩ := (readNext_limited rfl (Nat.zero_le _)).mp (hsame.trans haccepted)
    have hnodes := nextEvent_nodes haccepted rfl
    have htexts : rootTexts 0 false (.start messageTag :: spaced count) = count := by
      rw [rootTexts, rootTexts_spaced]
      exact Nat.zero_add count
    simp only [Completed.isStanza, if_true, htexts, hchildren, childrenSize_replicate] at hnodes
    omega
  · exact herror

/-- A message whose tree is within the limits is refused for the spaces between its children. -/
theorem white_space_counted : ∃ (events : List XmlEvent) (stanza : Stanza) (parser' : Parser),
    standalone.nextEvent false asciiTables ⟨[], none⟩ events = .ok (.stanza stanza, parser', []) ∧
      standalone.nextEvent true asciiTables ⟨[], none⟩ events = .error (.build .treeLimitExceeded) := by
  have hlimits : 1 + 32768 ≤ maxElementNodes ∧ maxElementNodes < 1 + 2 * 32768 := by decide
  obtain ⟨stanza, parser', haccepted, hrefused⟩ := nextEvent_spaced asciiTables hlimits.1 hlimits.2
  exact ⟨_, stanza, parser', haccepted, hrefused⟩

end Parser

end Lonewolf.Xmpp
