import Lonewolf.Xmpp.Canonical
import Lonewolf.Xmpp.Tags

/-!
# Serialisation

Trees and stanzas are read as they are stored: every name and attribute with its namespace and every character
in order, in every scope that agrees with what they are written under.
-/

namespace Lonewolf.Xmpp

open Texts XmlReading

/-! ### Trees -/

/-- What a reader has to find: every name with its namespace, every attribute and every character. -/
def Nodes.events : Nodes → List Event
  | .nil => []
  | .text t rest => t.map .char ++ rest.events
  | .element data children rest =>
    .start ⟨data.name, data.ns⟩ (data.attributes.map Attribute.expanded) :: (children.events ++ .finish :: rest.events)

def Element.events (element : Element) : List Event := (Nodes.element element.data element.children .nil).events

def Stanza.events (stanza : Stanza) : List Event :=
  .start ⟨stanza.header.stanzaType.kind.asStr, stanza.header.ns.asStr⟩
    ((stanza.headerAttributes ++ stanza.attributes).map Attribute.expanded) ::
    (stanza.children.flatMap Element.events ++ [.finish])

def ElementData.opening (data : ElementData) : Opening :=
  ⟨data.name, data.ns, data.namespaces, chooseFrom data.namespaces data.elementPrefix.nextGenerated 0 data.attributes⟩

theorem NamePrefix.lt_nextGenerated {pre : NamePrefix} {index : Nat} (h : index ∈ pre.index) :
    index < pre.nextGenerated := by
  rw [NamePrefix.eq_generated h]
  exact Nat.lt_succ_self index

theorem nodup_indexes {arena : Arena} {context : NamespaceContext} (h : arena.Holds context) (pre : NamePrefix)
    (values : List Attribute) : (pre.index ++ indexes (chooseFrom context pre.nextGenerated 0 values)).Nodup := by
  obtain ⟨-, -, habove, hnodup⟩ := chooseFrom_spec h pre.nextGenerated 0 values
  refine List.nodup_append.mpr ⟨nodup_index pre, hnodup, fun i hi j hj => ?_⟩
  have hlt := NamePrefix.lt_nextGenerated hi
  have hle := habove j hj
  omega

theorem ElementData.Valid.values_opening {arena : Arena} {data : ElementData} (h : data.Valid arena) :
    data.opening.choices.map Choice.value = data.attributes :=
  (chooseFrom_spec h.held data.elementPrefix.nextGenerated 0 data.attributes).1

theorem ElementData.Valid.opening {arena : Arena} {data : ElementData} (h : data.Valid arena) :
    data.opening.Valid arena := by
  obtain ⟨-, hmeans, -⟩ := chooseFrom_spec h.held data.elementPrefix.nextGenerated 0 data.attributes
  refine ⟨h.name, h.held, h.context, h.unnamed, hmeans, ?_, nodup_indexes h.held data.elementPrefix data.attributes⟩
  rw [h.values_opening]
  exact h.attributes

section Trees

variable {arena : Arena} {scope : Scope} {parentNamespace : Option Text} {parentContext : Option NamespaceContext}

theorem writeStart_eq (data : ElementData) (parentNamespace : Option Text) (parentContext : Option NamespaceContext) :
    data.writeStart parentNamespace parentContext =
      "<".toList ++ (data.opening.pre.write ++ data.name) ++
        writeAll (data.opening.tag parentNamespace parentContext).attributes := by
  rw [ElementData.writeStart, write_eq, writeAttributes, writeAttributesFrom_eq, ← writeAll_append, List.append_assoc,
    List.append_assoc]
  rfl

theorem reads_nodes {nodes : Nodes} (h : nodes.Valid arena) (hparent : ∀ context ∈ parentContext, arena.Holds context)
    (hagrees : Agrees scope parentNamespace parentContext) :
    Reads scope (nodes.writeIn parentNamespace parentContext) nodes.events := by
  induction nodes generalizing scope parentNamespace parentContext with
  | nil => exact .nil scope
  | text t rest ih => exact (reads_text scope t).append (ih h hparent hagrees)
  | element data children rest ihchildren ih =>
    obtain ⟨hdata, hchildren, hrest⟩ := h
    have hopening := hdata.opening
    obtain ⟨⟨hne, hname⟩, s, hruns, htag⟩ := runs_opening hopening hparent hagrees
    have hexpand := expand_opening hopening hparent hagrees
    rw [hdata.values_opening] at hexpand
    have hinner := ihchildren hchildren (fun context hcontext => by cases hcontext; exact hdata.held)
      (agrees_inner hopening hparent hagrees)
    have hfirst : Reads scope (data.writeStart parentNamespace parentContext ++
        if children.isEmpty then "/>".toList
        else ">".toList ++ (children.writeIn (data.childDefault parentNamespace) (some data.namespaces) ++
          data.writeEnd))
        (.start ⟨data.name, data.ns⟩ (data.attributes.map Attribute.expanded) :: (children.events ++ [.finish])) := by
      rw [writeStart_eq]
      cases hempty : children.isEmpty with
      | true =>
        have hnil : children = .nil := by
          cases children with
          | nil => rfl
          | text _ _ => cases hempty
          | element _ _ _ => cases hempty
        rw [hnil]
        exact Reads.empty hruns htag hexpand
      | false =>
        have hwhole := Reads.element hruns htag hexpand hinner hne hname
        rw [ElementData.writeEnd]
        simp only [Opening.tag, List.append_assoc] at hwhole ⊢
        exact hwhole
    have hevents : (Nodes.element data children rest).events =
        (.start ⟨data.name, data.ns⟩ (data.attributes.map Attribute.expanded) :: (children.events ++ [.finish])) ++
          rest.events := by
      simp [Nodes.events]
    rw [hevents, Nodes.writeIn]
    exact hfirst.append (ih hrest hparent hagrees)

theorem reads_element {element : Element} (h : element.Valid arena)
    (hparent : ∀ context ∈ parentContext, arena.Holds context) (hagrees : Agrees scope parentNamespace parentContext) :
    Reads scope (element.writeIn parentNamespace parentContext) element.events := by
  have hnodes : (Nodes.element element.data element.children .nil).Valid arena := ⟨h.data, h.children, trivial⟩
  exact reads_nodes hnodes hparent hagrees

/-! ### Stanzas -/

/-- An attribute of the header, which is never declared a prefix. -/
def headerChoice (a : Attribute) : Choice := ⟨if a.ns = xmlNamespace then .named "xml".toList else .default, a⟩

def Stanza.opening (stanza : Stanza) : Opening :=
  ⟨stanza.header.stanzaType.kind.asStr, stanza.header.ns.asStr, stanza.namespaces,
    stanza.headerAttributes.map headerChoice ++
      chooseFrom stanza.namespaces stanza.elementPrefix.nextGenerated 0 stanza.attributes⟩

theorem keys_headerAttributes (stanza : Stanza) :
    (stanza.headerAttributes.map Attribute.key).Sublist
      [("from".toList, []), ("to".toList, []), ("id".toList, []), ("type".toList, []),
        ("lang".toList, xmlNamespace)] := by
  have hoption : ∀ {α : Type} (value : Option α) (f : α → Attribute) (key : Text × Text), (∀ a, (f a).key = key) →
      ((value.map f).toList.map Attribute.key).Sublist [key] := by
    intro α value f key hkey
    cases value with
    | none => exact List.nil_sublist _
    | some a =>
      rw [Option.map_some, Option.toList_some, List.map_singleton, hkey]
  have hfrom := hoption stanza.header.fromJid (fun jid => ⟨"from".toList, [], jid.resolve.text⟩)
    ("from".toList, []) fun _ => rfl
  have hto := hoption stanza.header.toJid (fun jid => ⟨"to".toList, [], jid.resolve.text⟩)
    ("to".toList, []) fun _ => rfl
  have hid := hoption stanza.header.id (fun id => ⟨"id".toList, [], id⟩)
    ("id".toList, []) fun _ => rfl
  have htype := hoption stanza.serializedType (fun stanzaType => ⟨"type".toList, [], stanzaType⟩)
    ("type".toList, []) fun _ => rfl
  have hlang := hoption stanza.header.lang (fun lang => ⟨"lang".toList, xmlNamespace, lang⟩)
    ("lang".toList, xmlNamespace) fun _ => rfl
  simp only [Stanza.headerAttributes, List.map_append]
  exact hfrom.append (hto.append (hid.append (htype.append hlang)))

theorem validAttributes_header (stanza : Stanza) : ValidAttributes stanza.headerAttributes := by
  refine ⟨fun a ha => ?_, List.Nodup.sublist (keys_headerAttributes stanza) (by decide)⟩
  have hkeys := (keys_headerAttributes stanza).subset (List.mem_map_of_mem ha)
  have hall : ∀ key ∈ [("from".toList, []), ("to".toList, []), ("id".toList, []), ("type".toList, []),
      ("lang".toList, xmlNamespace)], validLocalName key.1 = true ∧ key.2 ≠ xmlnsNamespace ∧
        ¬ (key.2 = [] ∧ key.1 = "xmlns".toList) := by decide
  obtain ⟨hname, hxmlns, hdeclaration⟩ := hall _ hkeys
  exact ⟨⟨hname, hxmlns⟩, hdeclaration⟩

variable {stanza : Stanza}

theorem means_headerChoice {a : Attribute} (ha : a ∈ stanza.headerAttributes)
    (context : NamespaceContext) : (headerChoice a).pre.Means context a.ns := by
  have hkeys := (keys_headerAttributes stanza).subset (List.mem_map_of_mem ha)
  have hall : ∀ key ∈ [("from".toList, []), ("to".toList, []), ("id".toList, []), ("type".toList, []),
      ("lang".toList, xmlNamespace)], key.2 = xmlNamespace ∨ key.2 = [] := by decide
  unfold headerChoice
  split
  next hxml => exact .inl ⟨rfl, hxml⟩
  next hxml => exact (hall _ hkeys).resolve_left hxml

theorem index_headerChoice (a : Attribute) : (headerChoice a).pre.index = [] := by
  unfold headerChoice
  split <;> rfl

theorem StanzaParts.values_opening (h : StanzaParts arena stanza.namespaces stanza.attributes stanza.children) :
    stanza.opening.choices.map Choice.value = stanza.headerAttributes ++ stanza.attributes := by
  have hvalues := (chooseFrom_spec h.held stanza.elementPrefix.nextGenerated 0 stanza.attributes).1
  rw [Stanza.opening, List.map_append, hvalues, List.map_map]
  exact congrArg (· ++ stanza.attributes) (List.map_id _)

theorem StanzaParts.opening
    (h : StanzaParts arena stanza.namespaces stanza.attributes stanza.children) : stanza.opening.Valid arena := by
  obtain ⟨-, hmeans, -⟩ := chooseFrom_spec h.held stanza.elementPrefix.nextGenerated 0 stanza.attributes
  have hname : ValidName stanza.header.stanzaType.kind.asStr stanza.header.ns.asStr := by
    cases stanza.header.stanzaType.kind <;> cases stanza.header.ns <;> exact ⟨by decide, by decide⟩
  have hindexes : indexes stanza.opening.choices =
      indexes (chooseFrom stanza.namespaces stanza.elementPrefix.nextGenerated 0 stanza.attributes) := by
    have hheader : indexes (stanza.headerAttributes.map headerChoice) = [] := by
      rw [indexes, List.flatMap_map, List.flatMap_eq_nil_iff]
      exact fun a _ => index_headerChoice a
    rw [Stanza.opening, indexes, List.flatMap_append]
    exact congrArg (· ++ _) hheader
  refine ⟨hname, h.held, h.context, fun hnil => absurd hnil (accepts_stanzaNamespace stanza.header.ns).2,
    fun c hc => ?_, ?_, ?_⟩
  · rcases List.mem_append.mp hc with hmem | hmem
    · obtain ⟨a, ha, rfl⟩ := List.mem_map.mp hmem
      exact means_headerChoice ha stanza.namespaces
    · exact hmeans c hmem
  · rw [h.values_opening]
    exact validAttributes_append (validAttributes_header stanza) (fun a ha => reserved_headerAttributes stanza ha)
      h.distinct h.unreserved
  · rw [hindexes]
    exact nodup_indexes h.held stanza.elementPrefix stanza.attributes

theorem writeHeader_eq (stanza : Stanza) :
    stanza.writeHeader = writeAll ((stanza.headerAttributes.map headerChoice).flatMap fun c =>
      declarationAttributes c.declared ++ [c.written]) := by
  have hone : ∀ a : Attribute, declarationAttributes (headerChoice a).declared ++ [(headerChoice a).written] =
      [(headerChoice a).written] := by
    intro a
    rw [Choice.declared, index_headerChoice]
    rfl
  have hoption : ∀ {α : Type} (value : Option α) (f : α → Attribute) (g : α → Text),
      (∀ a, g a = writeAll [(headerChoice (f a)).written]) →
      (value.map g).getD [] = writeAll ((value.map f).toList.map fun a => (headerChoice a).written) := by
    intro α value f g hsame
    cases value with
    | none => rfl
    | some a => exact hsame a
  have hplain : ∀ name value : Text, writeAttribute name value = writeAll [(headerChoice ⟨name, [], value⟩).written] :=
    fun name value => (List.append_nil _).symm
  have hfrom := hoption stanza.header.fromJid (fun jid => ⟨"from".toList, [], jid.resolve.text⟩) _
    fun jid => hplain "from".toList jid.resolve.text
  have hto := hoption stanza.header.toJid (fun jid => ⟨"to".toList, [], jid.resolve.text⟩) _
    fun jid => hplain "to".toList jid.resolve.text
  have hid := hoption stanza.header.id (fun id => ⟨"id".toList, [], id⟩) _ (hplain "id".toList)
  have htype := hoption stanza.serializedType (fun stanzaType => ⟨"type".toList, [], stanzaType⟩) _
    (hplain "type".toList)
  have hlang := hoption stanza.header.lang (fun lang => ⟨"lang".toList, xmlNamespace, lang⟩)
    (writeAttribute "xml:lang".toList) fun lang => (List.append_nil _).symm
  rw [List.flatMap_map]
  simp only [hone]
  rw [← List.map_eq_flatMap]
  simp only [Stanza.headerAttributes, List.map_append, writeAll_append, Stanza.writeHeader, ← hfrom, ← hto, ← hid,
    ← htype, ← hlang]

theorem agrees_none (scope : Scope) : Agrees scope none none :=
  ⟨fun _ hns => (nomatch hns), fun _ hcontext => nomatch hcontext⟩

theorem reads_stanza (h : StanzaParts arena stanza.namespaces stanza.attributes stanza.children) (scope : Scope) :
    Reads scope stanza.writeXml stanza.events := by
  have hopening := h.opening
  have hparent : ∀ context ∈ (none : Option NamespaceContext), arena.Holds context := fun _ hcontext => nomatch hcontext
  have hagrees := agrees_none scope
  obtain ⟨⟨hne, hname⟩, s, hruns, htag⟩ := runs_opening hopening hparent hagrees
  have hexpand := expand_opening hopening hparent hagrees
  have hinner := agrees_inner hopening hparent hagrees
  rw [h.values_opening] at hexpand
  have hstart : "<".toList ++ (stanza.opening.pre.write ++ stanza.opening.name) ++
      writeAll (stanza.opening.tag none none).attributes =
      "<".toList ++ (stanza.elementPrefix.write ++ (stanza.header.stanzaType.kind.asStr ++
        (stanza.namespaces.write stanza.elementPrefix stanza.header.ns.asStr none none ++ (stanza.writeHeader ++
          writeAttributes stanza.attributes stanza.namespaces stanza.elementPrefix)))) := by
    rw [write_eq, writeHeader_eq, writeAttributes, writeAttributesFrom_eq, ← writeAll_append, ← List.flatMap_append,
      ← writeAll_append, List.append_assoc, List.append_assoc]
    rfl
  rw [hstart] at hruns
  have hcontext : ∀ context ∈ some stanza.namespaces, arena.Holds context := by
    rintro _ ⟨⟩
    exact h.held
  have hchildren := Reads.flatMap stanza.children fun child hchild =>
    reads_element (h.elements child hchild) hcontext hinner
  cases hempty : stanza.children with
  | nil =>
    have hwhole := Reads.empty hruns htag hexpand
    simp only [List.append_assoc] at hwhole
    simp only [Stanza.writeXml, Stanza.events, hempty, List.isEmpty_nil, if_true]
    exact hwhole
  | cons child rest =>
    have hwhole := Reads.element hruns htag hexpand hchildren hne hname
    simp only [List.append_assoc, Opening.tag] at hwhole
    simp only [Stanza.writeXml, Stanza.events, hempty, List.isEmpty_cons, Bool.false_eq_true, if_false]
    rw [hempty] at hwhole
    exact hwhole

end Trees

/-- Every element and every stanza that can be made is read as it is stored, whatever is written around it: an
element in every scope that agrees with the inherited context, and by itself in every scope at all. -/
theorem serialisation_namespace_correct {unicode : Unicode} {arena : Arena} :
    (∀ element : Element, Made unicode arena (.element element) →
      (∀ (scope : Scope) (parentNamespace : Option Text) (parentContext : Option NamespaceContext),
        (∀ context ∈ parentContext, arena.Holds context) → Agrees scope parentNamespace parentContext →
        ReadsAs scope (element.writeIn parentNamespace parentContext) element.events) ∧
      ∀ scope : Scope, ReadsAs scope element.writeXml element.events) ∧
    ∀ stanza : Stanza, Made unicode arena (.stanza stanza) →
      ∀ scope : Scope, ReadsAs scope stanza.writeXml stanza.events := by
  refine ⟨fun element hmade => ⟨fun scope parentNamespace parentContext hparent hagrees => ?_, fun scope => ?_⟩,
    fun stanza hmade scope => ?_⟩
  · exact (reads_element hmade.valid hparent hagrees).readsAs
  · have hparent : ∀ context ∈ (none : Option NamespaceContext), arena.Holds context :=
      fun _ hcontext => nomatch hcontext
    exact (reads_element hmade.valid hparent (agrees_none scope)).readsAs
  · exact (reads_stanza hmade.valid scope).readsAs

def sampleResolver : Resolver := [("p".toList, "urn:p".toList), ([], clientNamespace)]

def sampleScope : NamespaceContext × Arena := frameNamespaces sampleResolver [] none ⟨[]⟩

def sampleFrame : ElementBuilder := ⟨⟨"x".toList, "urn:p".toList, sampleScope.1, []⟩, .nil⟩

def samplePayload : Element :=
  ⟨⟨"y".toList, "urn:y".toList, .empty, [⟨"a".toList, "urn:a".toList, "<".toList⟩]⟩, .text "&".toList .nil⟩

/-- A parsed element with a child that was built. -/
def sampleTree : Element :=
  (sampleFrame.withAttributes [⟨"k".toList, "urn:q".toList, "1".toList⟩]).child samplePayload

theorem sampleFrame_made : Made asciiTables sampleScope.2 (.builder sampleFrame) := by
  have haccepted : sampleResolver.Accepted := by unfold Resolver.Accepted; decide
  have hopened : Opened sampleScope.2 sampleResolver sampleScope.1 := .root [] ⟨[]⟩ haccepted
  have hnew : ElementBuilder.new "x".toList "urn:p".toList =
      .ok ⟨⟨"x".toList, "urn:p".toList, .empty, []⟩, .nil⟩ := rfl
  have hns : sampleResolver.element "p".toList = some "urn:p".toList := rfl
  exact .newFrame hopened hns hnew

theorem samplePayload_made : Made asciiTables sampleScope.2 (.element samplePayload) := by
  have hnew : ElementBuilder.new "y".toList "urn:y".toList =
      .ok ⟨⟨"y".toList, "urn:y".toList, .empty, []⟩, .nil⟩ := rfl
  have hattribute : ElementBuilder.withAttribute ⟨⟨"y".toList, "urn:y".toList, .empty, []⟩, .nil⟩ "a".toList
      "urn:a".toList "<".toList = .ok ⟨samplePayload.data, .nil⟩ := rfl
  have htext : ElementBuilder.text ⟨samplePayload.data, .nil⟩ "&".toList = .ok samplePayload := rfl
  have hbuild : ElementBuilder.build samplePayload = .ok samplePayload := rfl
  exact .build (.text (.withAttribute (.newBuilder hnew) hattribute) htext) hbuild

theorem sampleTree_made : Made asciiTables sampleScope.2 (.element sampleTree) := by
  have hattribute : sampleFrame.frameAttribute "k".toList "urn:q".toList "1".toList =
      .ok (sampleFrame.withAttributes [⟨"k".toList, "urn:q".toList, "1".toList⟩]) := rfl
  have hbuild : ElementBuilder.build sampleTree = .ok sampleTree := rfl
  exact .build (.child (.frameAttribute sampleFrame_made hattribute) samplePayload_made) hbuild

theorem serialisation_namespace_correct_sample :
    sampleTree.writeXml =
      ("<p:x xmlns:p=\"urn:p\" xmlns=\"jabber:client\" xmlns:ns0=\"urn:q\" ns0:k=\"1\">" ++
        "<y xmlns=\"urn:y\" xmlns:ns0=\"urn:a\" ns0:a=\"&lt;\">&amp;</y></p:x>").toList ∧
    ReadsAs (fun _ => none) sampleTree.writeXml sampleTree.events :=
  ⟨by decide +kernel, (serialisation_namespace_correct.1 sampleTree sampleTree_made).2 fun _ => none⟩

end Lonewolf.Xmpp
