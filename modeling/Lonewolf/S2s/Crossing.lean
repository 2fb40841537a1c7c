import Lonewolf.S2s.Ingress
import Lonewolf.Xmpp.Accepted

/-!
# Stanzas between clients and servers

A stanza changes its content namespace when it comes in from another server (`s2s/ingress/receive.rs`) and when it is
written to one (`s2s/outbound/link.rs`). Rescoping checks it again in its new namespace. Of what the parser has
accepted these checks only refuse a stanza without its addresses on the way to a server, and one with a foreign child
that is an `error` of the new content namespace.
-/

namespace Lonewolf

open Texts XmlReading Transactions

namespace Xmpp

/-! ### The checks of a stanza -/

namespace StanzaBuilder

/-- The end of `validate`: the payloads that the type of a stanza allows. -/
def checkPayloads (header : Header) (payloads : Nat) : Except BuildError Unit :=
  match header.stanzaType with
  | .iq iqType =>
    if header.id = none then .error .missingIqId
    else if !(match iqType with
      | .get | .set => decide (payloads = 1)
      | .result | .error => decide (payloads ≤ 1)) then .error .invalidIqPayload
    else .ok ()
  | _ => .ok ()

/-- The part of `validate` that does not look at the addresses. -/
def validateContent (builder : StanzaBuilder) : Except BuildError Unit :=
  (validateChildren builder.header.ns.asStr 1 0 builder.children).bind fun errors =>
    if errors ≠ (if builder.header.stanzaType.isError then 1 else 0) then .error .invalidErrorPayload
    else checkPayloads builder.header (builder.children.length - errors)

theorem validate_eq (builder : StanzaBuilder) :
    builder.validate =
      if builder.header.ns = .server ∧ (builder.header.fromJid = none ∨ builder.header.toJid = none) then
        .error .missingServerAddresses
      else builder.validateContent := by
  rfl

theorem validateContent_eq_ok {builder : StanzaBuilder} :
    builder.validateContent = .ok () ↔
      ∃ errors, validateChildren builder.header.ns.asStr 1 0 builder.children = .ok errors ∧
        errors = (if builder.header.stanzaType.isError then 1 else 0) ∧
        checkPayloads builder.header (builder.children.length - errors) = .ok () := by
  refine except_bind_eq_ok.trans (exists_congr fun errors => and_congr_right fun _ => ?_)
  by_cases heq : errors = (if builder.header.stanzaType.isError then 1 else 0)
  · rw [if_neg (not_not.mpr heq), and_iff_right heq]
  · rw [if_pos heq]
    exact iff_of_false (by simp) fun h => heq h.1

/-- A child that is an error of the content namespace. -/
def isErrorOf (ns : Text) (child : Element) : Bool := child.data.name = "error".toList ∧ child.data.ns = ns

theorem isErrorOf_iff {ns : Text} {child : Element} :
    isErrorOf ns child = true ↔ child.data.name = "error".toList ∧ child.data.ns = ns :=
  decide_eq_true_iff

theorem count_of_validateChildren {ns : Text} {nodes errors count : Nat} {children : List Element}
    (h : validateChildren ns nodes errors children = .ok count) : count = errors + children.countP (isErrorOf ns) := by
  induction children generalizing nodes errors with
  | nil =>
    cases h
    rfl
  | cons child rest ih =>
    simp only [validateChildren] at h
    split at h
    · cases h
    · split at h
      next herror =>
        split at h
        · cases h
        · rw [ih h, List.countP_cons, if_pos (isErrorOf_iff.mpr herror)]
          omega
      next herror =>
        rw [ih h, List.countP_cons, if_neg fun hfound => herror (isErrorOf_iff.mp hfound)]
        omega

end StanzaBuilder

/-! ### Children that are moved -/

/-- The element where its content is moved to another namespace. -/
def Element.moved (source target : Text) (element : Element) : Element :=
  if element.data.ns = source then
    ⟨{ element.data with ns := target }, element.children.moved source target⟩
  else element

variable {source target : Text}

theorem ofElements_map_moved (children : List Element) :
    Nodes.ofElements (children.map (Element.moved source target)) = (Nodes.ofElements children).moved source target := by
  induction children with
  | nil => rfl
  | cons child rest ih =>
    rw [List.map_cons, Nodes.ofElements, ih, Nodes.ofElements, Nodes.moved, Element.moved]
    split <;> rfl

open StanzaBuilder in
theorem isErrorOf_moved (child : Element) :
    isErrorOf target (child.moved source target) = (isErrorOf source child || isErrorOf target child) := by
  rw [Bool.eq_iff_iff, Bool.or_eq_true, isErrorOf_iff, isErrorOf_iff, isErrorOf_iff, Element.moved]
  split
  next hns => exact ⟨fun h => .inl ⟨h.1, hns⟩, fun h => ⟨h.elim (·.1) (·.1), rfl⟩⟩
  next hns => exact ⟨.inr, fun h => h.elim (fun hsource => absurd hsource.2 hns) id⟩

open StanzaBuilder in
theorem countP_moved (hne : source ≠ target) (children : List Element) :
    (children.map (Element.moved source target)).countP (isErrorOf target) =
      children.countP (isErrorOf source) + children.countP (isErrorOf target) := by
  induction children with
  | nil => rfl
  | cons child rest ih =>
    have hdisjoint : ¬ (isErrorOf source child = true ∧ isErrorOf target child = true) := by
      rw [isErrorOf_iff, isErrorOf_iff]
      exact fun h => hne (h.1.2.symm.trans h.2.2)
    rw [List.map_cons, List.countP_cons, List.countP_cons, List.countP_cons, ih, isErrorOf_moved]
    cases hsource : isErrorOf source child <;> cases htarget : isErrorOf target child <;> simp_all <;> omega

open StanzaBuilder in
theorem validateChildren_moved {children : List Element} (h : ∀ child ∈ children, isErrorOf target child = false)
    (nodes errors : Nat) :
    validateChildren target nodes errors (children.map (Element.moved source target)) =
      validateChildren source nodes errors children := by
  induction children generalizing nodes errors with
  | nil => rfl
  | cons child rest ih =>
    have hsize : (child.moved source target).children.size = child.children.size := by
      rw [Element.moved]
      split
      · exact Nodes.size_moved source target child.children
      · rfl
    have herror : ((child.moved source target).data.name = "error".toList ∧
        (child.moved source target).data.ns = target) ↔
          (child.data.name = "error".toList ∧ child.data.ns = source) := by
      rw [← isErrorOf_iff, ← isErrorOf_iff, isErrorOf_moved, h child List.mem_cons_self, Bool.or_false]
    have hrest := ih fun child' hmem => h child' (List.mem_cons_of_mem child hmem)
    simp only [List.map_cons, validateChildren, hsize, herror, hrest, ne_eq, List.map_eq_nil_iff]

section Moved

open StanzaBuilder

variable {stanza result : Stanza} {ns : StanzaNamespace}

theorem Stanza.IsMoved.content_valid (h : stanza.IsMoved ns result) (hne : ns ≠ stanza.header.ns)
    (hcontent : validateContent stanza = .ok ()) :
    validateContent result = .ok () ↔ ∀ child ∈ stanza.children, isErrorOf ns.asStr child = false := by
  have hbare : (Nodes.ofElements result.children).bare =
      (Nodes.ofElements (stanza.children.map (Element.moved stanza.header.ns.asStr ns.asStr))).bare := by
    rw [h.children, ofElements_map_moved]
  have hchildren := fun nodes errors => (validateChildren_congr hbare ns.asStr nodes errors).1
  have hlength : result.children.length = stanza.children.length := by
    rw [(validateChildren_congr hbare [] 0 0).2, List.length_map]
  have hpayloads : checkPayloads result.header = checkPayloads stanza.header := by
    rw [h.header]
    rfl
  have htype : result.header.stanzaType = stanza.header.stanzaType := by
    rw [h.header]
    rfl
  have hns : result.header.ns = ns := by rw [h.header]
  obtain ⟨errors, hvalid, hexpected, hfits⟩ := validateContent_eq_ok.mp hcontent
  rw [validateContent_eq_ok, hns, htype, hlength, hpayloads, hchildren]
  constructor
  · rintro ⟨errors', hvalid', hexpected', -⟩ child hmem
    have hcount := count_of_validateChildren hvalid
    have hcount' := count_of_validateChildren hvalid'
    rw [countP_moved (Stanza.asStr_ne hne)] at hcount'
    have hzero : stanza.children.countP (isErrorOf ns.asStr) = 0 := by omega
    exact Bool.eq_false_iff.mpr (List.countP_eq_zero.mp hzero child hmem)
  · intro hforeign
    rw [validateChildren_moved hforeign]
    exact ⟨errors, hvalid, hexpected, hfits⟩

/-- What stands between a stanza that was accepted and the other namespace. -/
structure Stanza.Crosses (stanza : Stanza) (ns : StanzaNamespace) : Prop where
  addresses : ns = .server → stanza.header.fromJid ≠ none ∧ stanza.header.toJid ≠ none
  payloads : ∀ child ∈ stanza.children, isErrorOf ns.asStr child = false

theorem Stanza.IsMoved.validate_iff (h : stanza.IsMoved ns result) (hne : ns ≠ stanza.header.ns)
    (hcontent : validateContent stanza = .ok ()) : validate result = .ok () ↔ stanza.Crosses ns := by
  have hns : result.header.ns = ns := by rw [h.header]
  have hfrom : result.header.fromJid = none ↔ stanza.header.fromJid = none := by
    rw [h.header]
    exact Option.map_eq_none_iff
  have hto : result.header.toJid = none ↔ stanza.header.toJid = none := by
    rw [h.header]
    exact Option.map_eq_none_iff
  have hvalid := h.content_valid hne hcontent
  rw [validate_eq, hns]
  simp only [hfrom, hto]
  split
  next hmissing =>
    refine iff_of_false (by simp) fun hcrosses => ?_
    obtain ⟨hfrom, hto⟩ := hcrosses.addresses hmissing.1
    exact hmissing.2.elim hfrom hto
  next hmissing =>
    rw [not_and, not_or] at hmissing
    exact hvalid.trans ⟨fun hpayloads => ⟨hmissing, hpayloads⟩, Crosses.payloads⟩

theorem Stanza.Storable.rescopes_iff (h : stanza.Storable) (hne : ns ≠ stanza.header.ns)
    (hcontent : validateContent stanza = .ok ()) (arena : Arena) :
    (∃ moved, stanza.rescopeIn ns arena = .ok moved) ↔ stanza.Crosses ns := by
  constructor
  · rintro ⟨moved, hrescope⟩
    obtain ⟨⟨-, hvalid⟩, hmoved⟩ := (stanza.rescopeIn_yields ns arena).of_ok hrescope
    exact (hmoved.validate_iff hne hcontent).mp (hvalid _ hmoved)
  · intro hcrosses
    exact (stanza.rescopeIn_yields ns arena).exists_ok ⟨h.moves ns, fun moved hmoved =>
      (hmoved.validate_iff hne hcontent).mpr hcrosses⟩

end Moved

end Xmpp

namespace S2s

open Xmpp

/-- The copy that `write` of `outbound/link.rs` sends; a stanza of which there is none is discarded. -/
def prepared (stanza : Stanza) (arena : Arena) : Option Stanza :=
  match stanza.rescopeIn .server arena with
  | .ok (copy, _) => some copy
  | .error _ => none

/-- A stanza that the parser has accepted, given other addresses. -/
def addressed (stanza : Stanza) (fromJid toJid : Option Jid) : Stanza :=
  { stanza with header := { stanza.header with fromJid := fromJid, toJid := toJid } }

section Accepted

variable {unicode : Unicode} {stream : StreamContext} {parser parser' : Parser} {events rest : List XmlEvent}
  {stanza : Stanza}

theorem storable_of_accepted (hscope : parser.resolver.Accepted)
    (h : parser.nextEvent true unicode stream events = .ok (.stanza stanza, parser', rest)) :
    stanza.Storable ∧ StanzaBuilder.validateContent stanza = .ok () := by
  obtain ⟨hmade, hstorable⟩ := Parser.nextEvent_sound hscope h
  have hvalid := hmade.validated stanza rfl
  rw [StanzaBuilder.validate_eq] at hvalid
  split at hvalid
  · cases hvalid
  · exact ⟨hstorable, hvalid⟩

theorem validate_server {ns : StanzaNamespace} {fromJid toJid : Option JidRef} {peer : InboundPeer}
    (h : S2s.validate ns fromJid toJid peer = .error .internalServerError) : False := by
  unfold S2s.validate at h
  split at h
  · cases h
  · split at h
    · split at h
      · cases h
      · split at h <;> cases h
    · cases h

/-- A stanza that the parser has accepted is rescoped to the other content namespace, whatever addresses it was given,
if it crosses; so ingress does not end the stream with an internal error, and no stanza with its addresses is
discarded on the way out. -/
theorem accepted_stanza_rescopes (hscope : parser.resolver.Accepted)
    (h : parser.nextEvent true unicode stream events = .ok (.stanza stanza, parser', rest)) :
    (∀ (ns : StanzaNamespace) (fromJid toJid : Option Jid) (arena : Arena), ns ≠ stanza.header.ns →
      (addressed stanza fromJid toJid).Crosses ns →
        ∃ moved, (addressed stanza fromJid toJid).rescopeIn ns arena = .ok moved) ∧
    (∀ peer : InboundPeer, stanza.Crosses .client →
      process peer (.stanza stanza) ≠ .error .internalServerError) ∧
    ∀ (sender target : Jid) (arena : Arena), stanza.header.ns = .client →
      (addressed stanza (some sender) (some target)).Crosses .server →
        (prepared (addressed stanza (some sender) (some target)) arena).isSome := by
  obtain ⟨hstorable, hcontent⟩ := storable_of_accepted hscope h
  have hrescopes (ns : StanzaNamespace) (fromJid toJid : Option Jid) (arena : Arena) (hne : ns ≠ stanza.header.ns)
      (hcrosses : (addressed stanza fromJid toJid).Crosses ns) :
      ∃ moved, (addressed stanza fromJid toJid).rescopeIn ns arena = .ok moved := by
    have hstorable' : (addressed stanza fromJid toJid).Storable := ⟨hstorable.id, hstorable.lang, hstorable.type,
      hstorable.attributes, hstorable.children⟩
    exact (hstorable'.rescopes_iff hne hcontent arena).mpr hcrosses
  refine ⟨hrescopes, fun peer hcrosses herror => ?_, fun sender target arena hclient hcrosses => ?_⟩
  · simp only [process] at herror
    cases hvalidate : S2s.validate stanza.header.ns (stanza.header.fromJid.map Jid.resolve)
      (stanza.header.toJid.map Jid.resolve) peer with
    | error condition =>
      rw [hvalidate] at herror
      cases herror
      exact validate_server hvalidate
    | ok u =>
      rw [hvalidate] at herror
      have hserver : stanza.header.ns = .server := by
        by_contra hns
        unfold S2s.validate at hvalidate
        rw [if_pos hns] at hvalidate
        cases hvalidate
      obtain ⟨moved, hmoved⟩ := hrescopes .client stanza.header.fromJid stanza.header.toJid ⟨[]⟩
        (by rw [hserver]; decide) hcrosses
      have hmoved : stanza.rescopeIn .client ⟨[]⟩ = .ok moved := hmoved
      simp only [hmoved] at herror
      cases herror
  · obtain ⟨moved, hmoved⟩ := hrescopes .server (some sender) (some target) arena (by rw [hclient]; decide) hcrosses
    rw [prepared, hmoved]
    rfl

end Accepted

def openStream (ns : Text) : Parser := ⟨[[([], ns)]], [], [], 0, ⟨[]⟩⟩

theorem openStream_accepted (ns : StanzaNamespace) : (openStream ns.asStr).resolver.Accepted := by
  intro binding hmem
  rw [List.mem_singleton.mp hmem]
  exact (accepts_stanzaNamespace ns).1

def messageWith (attributes : List (Text × Text)) (child : Tag) : List XmlEvent :=
  [.start ⟨"message".toList, attributes⟩, .empty child, .finish]

def sampleAddresses : List (Text × Text) := [("from".toList, "a@x".toList), ("to".toList, "b@y".toList)]

theorem accepted_stanza_rescopes_sample :
    ∃ stanza moved, (∃ parser' rest, (openStream serverNamespace).nextEvent true asciiTables ⟨[], none⟩
        (messageWith sampleAddresses ⟨"body".toList, []⟩) = .ok (.stanza stanza, parser', rest)) ∧
      stanza.rescopeIn .client ⟨[]⟩ = .ok moved := by
  obtain ⟨stanza, parser', rest, haccepted, hserver, hcrosses⟩ : ∃ stanza parser' rest,
      (openStream serverNamespace).nextEvent true asciiTables ⟨[], none⟩
        (messageWith sampleAddresses ⟨"body".toList, []⟩) = .ok (.stanza stanza, parser', rest) ∧
      stanza.header.ns = .server ∧ stanza.Crosses .client := by
    refine ⟨_, _, _, rfl, rfl, fun hns => (by cases hns), fun child hmem => ?_⟩
    rw [List.mem_singleton.mp hmem]
    rfl
  obtain ⟨moved, hmoved⟩ := (accepted_stanza_rescopes (openStream_accepted .server) haccepted).1 .client
    stanza.header.fromJid stanza.header.toJid ⟨[]⟩ (by rw [hserver]; decide) hcrosses
  exact ⟨stanza, moved, ⟨parser', rest, haccepted⟩, hmoved⟩

theorem accepted_stanza_not_rescoped :
    (∃ stanza parser' rest, (openStream serverNamespace).nextEvent true asciiTables ⟨[], none⟩
        (messageWith sampleAddresses ⟨"error".toList, [("xmlns".toList, clientNamespace)]⟩) =
          .ok (.stanza stanza, parser', rest) ∧
      stanza.rescopeIn .client ⟨[]⟩ = .error .invalidErrorPayload ∧
      process ⟨"y".toList, "x".toList⟩ (.stanza stanza) = .error .internalServerError) ∧
    ∃ stanza parser' rest, (openStream clientNamespace).nextEvent true asciiTables ⟨[], none⟩
        (messageWith [] ⟨"body".toList, []⟩) = .ok (.stanza stanza, parser', rest) ∧
      stanza.rescopeIn .server ⟨[]⟩ = .error .missingServerAddresses := by
  refine ⟨⟨_, _, _, rfl, ?_, ?_⟩, _, _, _, rfl, ?_⟩
  · rfl
  · rfl
  · rfl

end S2s

end Lonewolf
