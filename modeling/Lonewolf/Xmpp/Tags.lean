import Lonewolf.Base.XmlReader
import Lonewolf.Xmpp.Produced

/-!
# Start tags

What a reader of XML makes of a written start tag, which is described by its declarations and by its attributes with
the prefixes that were chosen for them. In a scope that agrees with what the tag is written under, the names it is
read with are those that are stored, and the scope inside agrees with what is written there.
-/

namespace Lonewolf.Xmpp

open Texts XmlReading
open NamespaceContext (mem_changedBindings resolve_eq writeBinding)

/-! ### Characters -/

theorem not_nameChar_of_mem_delimiters : ∀ c ∈ ':' :: delimiters, nameChar c = false := by
  simp only [← Bool.not_eq_true', ← List.all_eq_true]
  decide

theorem nameChar_of_validLocalName {name : Text} (h : validLocalName name = true) : ∀ c ∈ name, nameChar c = true := by
  intro c hc
  unfold validLocalName at h
  split at h
  · cases h
  next first rest =>
    rw [Bool.and_eq_true] at h
    rcases List.mem_cons.mp hc with rfl | hmem
    · simp [nameChar, h.1]
    · exact List.all_eq_true.mp h.2 c hmem

theorem ne_nil_of_validLocalName {name : Text} (h : validLocalName name = true) : name ≠ [] := by
  rintro rfl
  cases h

theorem undelimited_of_validLocalName {name : Text} (h : validLocalName name = true) : Undelimited name := by
  intro c hc hdelimiter
  have hname := nameChar_of_validLocalName h c hc
  rw [not_nameChar_of_mem_delimiters c (List.mem_cons_of_mem ':' hdelimiter)] at hname
  cases hname

theorem not_colon_of_validLocalName {name : Text} (h : validLocalName name = true) : ':' ∉ name := by
  intro hc
  have hname := nameChar_of_validLocalName h ':' hc
  rw [not_nameChar_of_mem_delimiters ':' List.mem_cons_self] at hname
  cases hname

theorem nameChar_of_isDigit {c : Char} (h : c.isDigit = true) : nameChar c = true := by
  have hdigit : between '0' '9' c = true := by
    simp only [Char.isDigit, Bool.and_eq_true, decide_eq_true_eq] at h
    simp only [between, Bool.and_eq_true, decide_eq_true_eq]
    exact h
  simp [nameChar, hdigit]

theorem validLocalName_generatedName (index : Nat) : validLocalName (generatedName index) = true := by
  have hrest : ∀ c ∈ 's' :: Decimals.decimal index, nameChar c = true := by
    intro c hc
    rcases List.mem_cons.mp hc with rfl | hmem
    · decide
    · exact nameChar_of_isDigit (Decimals.isDigit_decimal hmem)
  have hall : ('s' :: Decimals.decimal index).all nameChar = true := List.all_eq_true.mpr hrest
  show (nameStart 'n' && ('s' :: Decimals.decimal index).all nameChar) = true
  rw [hall]
  decide

theorem generatedName_ne {index : Nat} {t : Text} (h : t.head? ≠ some 'n') : generatedName index ≠ t := by
  rintro rfl
  exact h rfl

theorem runs_escaped (tag : Tag) (name value : Text) (c : Char) :
    Runs scan (.attributeValue tag name value) (escaped true c) (.attributeValue tag name (value ++ [c])) [] := by
  unfold escaped escapeReplacement
  split_ifs with h1 h2 h3 h4 h5 h6 h7
  · rw [h1]; exact runs_attributeReference tag name value "amp".toList (by decide)
  · rw [h2]; exact runs_attributeReference tag name value "lt".toList (by decide)
  · rw [h3]; exact runs_attributeReference tag name value "gt".toList (by decide)
  · rw [Bool.and_true, decide_eq_true_eq] at h4
    rw [h4]; exact runs_attributeReference tag name value "quot".toList (by decide)
  · rw [Bool.and_true, decide_eq_true_eq] at h5
    rw [h5]; exact runs_attributeReference tag name value "#x9".toList (by decide)
  · rw [Bool.and_true, decide_eq_true_eq] at h6
    rw [h6]; exact runs_attributeReference tag name value "#xA".toList (by decide)
  · rw [h7]; exact runs_attributeReference tag name value "#xD".toList (by decide)
  · simp only [Bool.and_true, decide_eq_true_eq] at h4 h5 h6
    exact .single (by simp [scan, h1, h2, h4, h5, h6, h7])

theorem runs_escape (tag : Tag) (name value : Text) :
    Runs scan (.attributeValue tag name []) (escape value true) (.attributeValue tag name value) [] := by
  have hfrom : ∀ (t done : Text), Runs scan (.attributeValue tag name done) (t.flatMap (escaped true))
      (.attributeValue tag name (done ++ t)) [] := by
    intro t
    induction t with
    | nil =>
      intro done
      rw [List.append_nil]
      exact .nil _
    | cons c t ih =>
      intro done
      have hrest := ih (done ++ [c])
      rw [List.append_assoc] at hrest
      rw [List.flatMap_cons]
      exact (runs_escaped tag name done c).append hrest
  rw [escape_eq]
  exact hfrom value []

theorem reads_escaped (scope : Scope) (c : Char) : Reads scope (escaped false c) [.char c] := by
  refine .char ?_
  unfold escaped escapeReplacement
  split_ifs with h1 h2 h3 h4 h5 h6 h7
  · rw [h1]; exact runs_reference "amp".toList (by decide)
  · rw [h2]; exact runs_reference "lt".toList (by decide)
  · rw [h3]; exact runs_reference "gt".toList (by decide)
  · simp at h4
  · simp at h5
  · simp at h6
  · rw [h7]; exact runs_reference "#xD".toList (by decide)
  · exact .single (by simp [scan, h1, h2, h3, h7])

theorem reads_text (scope : Scope) (t : Text) : Reads scope (escape t false) (t.map .char) := by
  have hreads := Reads.flatMap (f := escaped false) (g := fun c => [Event.char c]) t fun c _ => reads_escaped scope c
  rw [escape_eq]
  rwa [← List.map_eq_flatMap] at hreads

/-! ### Prefixes -/

/-- How a prefix stands before a name. -/
inductive NamePrefix.Spelled : NamePrefix → Text → Prop where
  | unprefixed : Spelled .default []
  | named {t : Text} : validLocalName t = true → t ≠ "xmlns".toList → Spelled (.named t) t
  | generated (index : Nat) : Spelled (.generated index) (generatedName index)

namespace NamePrefix

variable {pre : NamePrefix} {t name : Text}

theorem Spelled.write_eq (h : pre.Spelled t) :
    (t = [] ∧ pre.write = []) ∨ (validLocalName t = true ∧ t ≠ "xmlns".toList ∧ pre.write = t ++ [':']) := by
  cases h with
  | unprefixed => exact .inl ⟨rfl, rfl⟩
  | named hvalid hne => exact .inr ⟨hvalid, hne, rfl⟩
  | generated index => exact .inr ⟨validLocalName_generatedName index, generatedName_ne (by decide), rfl⟩

section

variable (h : pre.Spelled t) (hname : validLocalName name = true)
include h hname

theorem Spelled.qualified_eq : qualified (pre.write ++ name) = some (t, name) := by
  have hne := ne_nil_of_validLocalName hname
  have hcolon := not_colon_of_validLocalName hname
  rcases h.write_eq with ⟨rfl, hwrite⟩ | ⟨hvalid, -, hwrite⟩
  · rw [hwrite]
    exact qualified_local hne hcolon
  · rw [hwrite, List.append_assoc]
    exact qualified_prefixed (ne_nil_of_validLocalName hvalid) (not_colon_of_validLocalName hvalid) hne hcolon

theorem Spelled.undelimited : Undelimited (pre.write ++ name) := by
  have hlocal := undelimited_of_validLocalName hname
  rcases h.write_eq with ⟨-, hwrite⟩ | ⟨hvalid, -, hwrite⟩
  · rw [hwrite]
    exact hlocal
  · have hcolon : Undelimited [':'] := by decide
    rw [hwrite]
    exact ((undelimited_of_validLocalName hvalid).append hcolon).append hlocal

theorem Spelled.declares_eq (hxmlns : t = [] → name ≠ "xmlns".toList) : declares (pre.write ++ name) = none := by
  rcases h.write_eq with ⟨hnil, hwrite⟩ | ⟨hvalid, hne, hwrite⟩
  · rw [hwrite]
    exact declares_local (not_colon_of_validLocalName hname) (hxmlns hnil)
  · rw [hwrite, List.append_assoc]
    exact declares_prefixed (not_colon_of_validLocalName hvalid) hne

end

/-- The number of a generated prefix. -/
def index : NamePrefix → List Nat
  | .generated index => [index]
  | _ => []

end NamePrefix

theorem legal_of_acceptsBinding {pre ns : Text} (h : acceptsBinding pre ns = true) :
    legal pre ns = true ∧ (pre ≠ [] → validLocalName pre = true ∧ pre ≠ "xmlns".toList) := by
  simp only [acceptsBinding, Bool.and_eq_true, Bool.or_eq_true, List.isEmpty_iff, decide_eq_true_eq, ne_eq,
    Bool.not_eq_true', List.isEmpty_eq_false_iff] at h
  obtain ⟨⟨⟨⟨⟨hname, hxmlns⟩, hxml⟩, hempty⟩, hxml'⟩, hpre⟩ := h
  refine ⟨?_, fun hne => ⟨hname.resolve_left hne, hpre⟩⟩
  have hiff : (pre = "xml".toList) ↔ (ns = xmlName) := by
    refine ⟨fun heq => ?_, fun heq => ?_⟩
    · exact hxml'.resolve_left (fun h => h heq)
    · exact hxml.resolve_left (fun h => h heq)
  simp only [legal, Bool.and_eq_true, Bool.or_eq_true, List.isEmpty_iff, decide_eq_true_eq, ne_eq,
    Bool.not_eq_true', List.isEmpty_eq_false_iff, beq_iff_eq, decide_eq_decide]
  exact ⟨⟨⟨hxmlns, hpre⟩, hiff⟩, hempty.symm⟩

theorem legal_of_ne {pre ns : Text} (hpre : pre ≠ "xml".toList) (hpre' : pre ≠ "xmlns".toList)
    (hns : ns ≠ xmlNamespace) (hns' : ns ≠ xmlnsNamespace) (hempty : pre = [] ∨ ns ≠ []) : legal pre ns = true := by
  have hxml : ns ≠ xmlName := hns
  have hxmlns : ns ≠ xmlnsName := hns'
  simp only [legal, hpre, hpre', hxml, hxmlns, ne_eq, not_false_eq_true, decide_true, decide_false, Bool.true_and,
    beq_self_eq_true, Bool.or_eq_true, Bool.not_eq_true', List.isEmpty_iff, List.isEmpty_eq_false_iff]
  exact hempty

theorem legal_generatedName (index : Nat) {ns : Text} (hempty : ns ≠ []) (hxml : ns ≠ xmlNamespace)
    (hxmlns : ns ≠ xmlnsNamespace) : legal (generatedName index) ns = true :=
  legal_of_ne (generatedName_ne (by decide)) (generatedName_ne (by decide)) hxml hxmlns (.inr hempty)

/-! ### Start tags -/

/-- An attribute with the prefix that was chosen for it. -/
structure Choice where
  pre : NamePrefix
  value : Attribute

namespace Choice

def declared (c : Choice) : List (Text × Text) := c.pre.index.map fun index => (generatedName index, c.value.ns)

def written (c : Choice) : Text × Text := (c.pre.write ++ c.value.name, c.value.value)

end Choice

/-- The attributes of a start tag that declare some prefixes. -/
def declarationAttributes (bindings : List (Text × Text)) : List (Text × Text) :=
  bindings.map fun b => (declarationName b.1, b.2)

/-- The choices of the loop of `write_attributes`. -/
def chooseFrom (namespaces : NamespaceContext) : Nat → Nat → List Attribute → List Choice
  | _, _, [] => []
  | generated, index, value :: values =>
    ⟨(namespaces.attributePrefix value.ns (max generated index)).1, value⟩ ::
      chooseFrom namespaces (namespaces.attributePrefix value.ns (max generated index)).2 (index + 1) values

/-- The declaration that an element adds to those of its context. -/
def ownDeclaration (context : NamespaceContext) (pre : NamePrefix) (ns : Text) (parentNamespace : Option Text) :
    List (Text × Text) :=
  match pre with
  | .generated index => [(generatedName index, ns)]
  | .default => if context = .empty ∧ some ns ≠ parentNamespace then [([], ns)] else []
  | .named pre => if pre = "stream".toList ∧ context = .empty then [("stream".toList, streamNamespace)] else []

def writeAll (attributes : List (Text × Text)) : Text := attributes.flatMap fun a => writeAttribute a.1 a.2

theorem writeAll_append (l l' : List (Text × Text)) : writeAll (l ++ l') = writeAll l ++ writeAll l' :=
  List.flatMap_append

theorem writeBinding_eq (pre ns : Text) : writeBinding pre ns = writeAttribute (declarationName pre) ns := by
  unfold writeBinding declarationName writeAttribute
  cases pre with
  | nil => rfl
  | cons c pre => simp

theorem writeGenerated_eq (index : Nat) (ns : Text) :
    NamespaceContext.writeGenerated index ns = writeAttribute (declarationName (generatedName index)) ns := by
  have hne : generatedName index ≠ [] := generatedName_ne (by decide)
  unfold NamespaceContext.writeGenerated writeAttribute
  rw [declarationName, if_neg hne]
  simp

theorem write_eq (context : NamespaceContext) (pre : NamePrefix) (ns : Text) (parentNamespace : Option Text)
    (parentContext : Option NamespaceContext) :
    context.write pre ns parentNamespace parentContext =
      writeAll (declarationAttributes
        (context.changedBindings parentContext ++ ownDeclaration context pre ns parentNamespace)) := by
  have hbindings : ∀ l : List (Text × Text), l.flatMap (fun b => writeBinding b.1 b.2) =
      writeAll (declarationAttributes l) := by
    intro l
    rw [writeAll, declarationAttributes, List.flatMap_map]
    exact List.flatMap_congr fun b _ => writeBinding_eq b.1 b.2
  rw [declarationAttributes, List.map_append, writeAll_append]
  unfold NamespaceContext.write
  refine congr (congrArg _ (hbindings _)) ?_
  cases pre with
  | default =>
    simp only [ownDeclaration]
    split
    · exact (List.append_nil _).symm
    · rfl
  | named pre =>
    simp only [ownDeclaration]
    split
    · exact (List.append_nil _).symm
    · rfl
  | generated index => exact (writeGenerated_eq index ns).trans (List.append_nil _).symm

theorem writeAttributesFrom_eq (namespaces : NamespaceContext) (generated index : Nat) (values : List Attribute) :
    writeAttributesFrom namespaces generated index values =
      writeAll ((chooseFrom namespaces generated index values).flatMap fun c =>
        declarationAttributes c.declared ++ [c.written]) := by
  induction values generalizing generated index with
  | nil => rfl
  | cons value values ih =>
    have hdeclaration : ∀ pre : NamePrefix, pre.writeDeclaration value.ns =
        writeAll (declarationAttributes (Choice.declared ⟨pre, value⟩)) := by
      intro pre
      cases pre with
      | default => rfl
      | named pre => rfl
      | generated index => exact (writeGenerated_eq index value.ns).trans (List.append_nil _).symm
    rw [writeAttributesFrom, chooseFrom, List.flatMap_cons, writeAll_append, writeAll_append, ← hdeclaration, ← ih]
    simp [writeAll, Choice.written, writeAttribute]

/-! ### The prefixes that are chosen -/

/-- A prefix of an attribute means its namespace in the scope of the context, or is declared for it. -/
def NamePrefix.Means (context : NamespaceContext) (ns : Text) : NamePrefix → Prop
  | .default => ns = []
  | .named t => (t = "xml".toList ∧ ns = xmlNamespace) ∨ (t ≠ [] ∧ context.resolve t = some ns)
  | .generated index => context.resolve (generatedName index) = none ∧ ns ≠ [] ∧ ns ≠ xmlNamespace

section Choosing

variable {arena : Arena} {context : NamespaceContext}

theorem attributePrefix_spec (h : arena.Holds context) (ns : Text) (index : Nat) :
    (context.attributePrefix ns index).1.Means context ns ∧ index ≤ (context.attributePrefix ns index).2 ∧
      ∀ i ∈ (context.attributePrefix ns index).1.index, index ≤ i ∧ i < (context.attributePrefix ns index).2 := by
  unfold NamespaceContext.attributePrefix
  split
  next hempty => exact ⟨List.isEmpty_iff.mp hempty, Nat.le_refl _, nofun⟩
  next hempty =>
    split
    next hxml => exact ⟨.inl ⟨rfl, hxml⟩, Nat.le_refl _, nofun⟩
    next hxml =>
      split
      next t hnamed =>
        exact ⟨.inr (NamespaceContext.namedPrefix_eq_some h hnamed), Nat.le_refl _, nofun⟩
      next =>
        have hle := NamespaceContext.le_generated context index
        refine ⟨⟨NamespaceContext.resolve_generatedName h index, fun heq => hempty (List.isEmpty_iff.mpr heq),
          hxml⟩, Nat.le_succ_of_le hle, fun i hi => ?_⟩
        obtain rfl := List.mem_singleton.mp hi
        exact ⟨hle, Nat.lt_succ_self _⟩

/-- The numbers of the generated prefixes of a tag, in order. -/
def indexes (choices : List Choice) : List Nat := choices.flatMap fun c => c.pre.index

theorem nodup_index (pre : NamePrefix) : pre.index.Nodup := by
  cases pre with
  | generated index => exact List.nodup_singleton index
  | default => exact List.nodup_nil
  | named t => exact List.nodup_nil

theorem chooseFrom_spec (h : arena.Holds context) (generated index : Nat) (values : List Attribute) :
    (chooseFrom context generated index values).map Choice.value = values ∧
      (∀ c ∈ chooseFrom context generated index values, c.pre.Means context c.value.ns) ∧
      (∀ i ∈ indexes (chooseFrom context generated index values), generated ≤ i) ∧
      (indexes (chooseFrom context generated index values)).Nodup := by
  induction values generalizing generated index with
  | nil => exact ⟨rfl, nofun, nofun, List.nodup_nil⟩
  | cons value values ih =>
    obtain ⟨hmeans, hle, hrange⟩ := attributePrefix_spec h value.ns (max generated index)
    obtain ⟨hvalues, hrest, habove, hnodup⟩ :=
      ih (context.attributePrefix value.ns (max generated index)).2 (index + 1)
    refine ⟨congrArg (value :: ·) hvalues, fun c hc => ?_, fun i hi => ?_, ?_⟩
    · rcases List.mem_cons.mp hc with rfl | hmem
      · exact hmeans
      · exact hrest c hmem
    · rcases List.mem_append.mp hi with hmem | hmem
      · have := hrange i hmem
        omega
      · have := habove i hmem
        omega
    · refine List.nodup_append.mpr ⟨nodup_index _, hnodup, fun i hi j hj => ?_⟩
      have := hrange i hi
      have := habove j hj
      omega

/-- The prefix of an element means its namespace, by what is in scope, by the context or by a declaration. -/
inductive ElementPrefix (context : NamespaceContext) (ns : Text) : NamePrefix → Prop where
  | xml : ns = xmlNamespace → ElementPrefix context ns (.named "xml".toList)
  | stream : context = .empty → ns = streamNamespace → ElementPrefix context ns (.named "stream".toList)
  | unbound : context = .empty → ns ≠ xmlNamespace → ElementPrefix context ns .default
  | inherited : context ≠ .empty → (context.resolve []).getD [] = ns → ElementPrefix context ns .default
  | named {t : Text} : t ≠ [] → context.resolve t = some ns → ElementPrefix context ns (.named t)
  | generated {index : Nat} : context ≠ .empty → ns ≠ xmlNamespace → (context.resolve []).getD [] ≠ ns →
      context.resolve (generatedName index) = none → ElementPrefix context ns (.generated index)

theorem elementPrefix_spec (h : arena.Holds context) (ns : Text) :
    ElementPrefix context ns (context.elementPrefix ns) := by
  unfold NamespaceContext.elementPrefix
  split
  next hxml => exact .xml hxml
  next hxml =>
    split
    next hcontext =>
      split
      next hstream => exact .stream hcontext hstream
      next => exact .unbound hcontext hxml
    next hcontext =>
      split
      next hdefault => exact .inherited hcontext hdefault
      next hdefault =>
        split
        next t hnamed =>
          obtain ⟨hne, hresolve⟩ := NamespaceContext.namedPrefix_eq_some h hnamed
          exact .named hne hresolve
        next => exact .generated hcontext hxml hdefault (NamespaceContext.resolve_generatedName h 0)

end Choosing

/-! ### The scope inside a tag -/

/-- What a start tag is written from. -/
structure Opening where
  name : Text
  ns : Text
  context : NamespaceContext
  choices : List Choice

namespace Opening

def pre (o : Opening) : NamePrefix := o.context.elementPrefix o.ns

/-- The declarations beside those of the context. -/
def added (o : Opening) (parentNamespace : Option Text) : List (Text × Text) :=
  ownDeclaration o.context o.pre o.ns parentNamespace ++ o.choices.flatMap Choice.declared

/-- All declarations of the tag. -/
def declared (o : Opening) (parentNamespace : Option Text) (parentContext : Option NamespaceContext) :
    List (Text × Text) :=
  o.context.changedBindings parentContext ++ o.added parentNamespace

def tag (o : Opening) (parentNamespace : Option Text) (parentContext : Option NamespaceContext) : Tag where
  name := o.pre.write ++ o.name
  attributes :=
    declarationAttributes
      (o.context.changedBindings parentContext ++ ownDeclaration o.context o.pre o.ns parentNamespace) ++
      o.choices.flatMap fun c => declarationAttributes c.declared ++ [c.written]

structure Valid (arena : Arena) (o : Opening) : Prop where
  name : ValidName o.name o.ns
  held : arena.Holds o.context
  context : o.context.Valid
  unnamed : o.ns = [] → o.context.pairs ≠ [] → o.context.pairs.lookup [] = some []
  means : ∀ c ∈ o.choices, c.pre.Means o.context c.value.ns
  attributes : ValidAttributes (o.choices.map Choice.value)
  indexes : (o.pre.index ++ Xmpp.indexes o.choices).Nodup

end Opening

/-- The scope in which something is written has the default namespace and the bindings that it is told. -/
structure Agrees (scope : Scope) (parentNamespace : Option Text) (parentContext : Option NamespaceContext) : Prop where
  default : ∀ ns ∈ parentNamespace, (scope []).getD [] = ns
  context : ∀ context ∈ parentContext, ∀ pre ns, context.resolve pre = some ns → scope pre = some ns

theorem NamespaceContext.Valid.accepts {context : NamespaceContext} (h : context.Valid) {pre ns : Text}
    (hresolve : context.resolve pre = some ns) : acceptsBinding pre ns = true := by
  rw [resolve_eq] at hresolve
  exact h.accepted _ (mem_of_lookup hresolve)

theorem NamespaceContext.Valid.resolve_nil {context : NamespaceContext} (h : context.Valid)
    (hcontext : context ≠ .empty) : ∃ ns, context.resolve [] = some ns := by
  have hpairs : context.pairs ≠ [] := by
    cases context with
    | empty => exact absurd rfl hcontext
    | bind _ _ _ _ => exact List.cons_ne_nil _ _
  obtain ⟨ns, hns⟩ := h.default hpairs
  exact ⟨ns, by rw [resolve_eq, hns]⟩

theorem map_fst_declared (choices : List Choice) :
    (choices.flatMap Choice.declared).map (·.1) = (indexes choices).map generatedName := by
  rw [List.map_flatMap, indexes, List.map_flatMap]
  exact List.flatMap_congr fun c _ => List.map_map

/-- What a reader makes of an attribute. -/
def Attribute.expanded (a : Attribute) : Expanded × Text := (⟨a.name, a.ns⟩, a.value)

section Opening

variable {arena : Arena} {o : Opening} {scope : Scope} {parentNamespace : Option Text}
  {parentContext : Option NamespaceContext} {t ns : Text}

theorem mem_added (h : (t, ns) ∈ o.added parentNamespace) :
    (t = [] ∧ o.pre = .default ∧ ns = o.ns ∧ o.context = .empty) ∨
      (t = "stream".toList ∧ ns = streamNamespace ∧ o.context = .empty) ∨
      (∃ index ∈ o.pre.index, t = generatedName index ∧ ns = o.ns) ∨
      ∃ c ∈ o.choices, ∃ index ∈ c.pre.index, t = generatedName index ∧ ns = c.value.ns := by
  rcases List.mem_append.mp h with hown | hchoice
  · unfold ownDeclaration at hown
    split at hown
    next index hpre =>
      cases List.mem_singleton.mp hown
      exact .inr (.inr (.inl ⟨index, by rw [hpre]; exact List.mem_singleton_self index, rfl, rfl⟩))
    next hpre =>
      split at hown
      next hcondition =>
        cases List.mem_singleton.mp hown
        exact .inl ⟨rfl, hpre, rfl, hcondition.1⟩
      next => cases hown
    next pre hpre =>
      split at hown
      next hcondition =>
        cases List.mem_singleton.mp hown
        exact .inr (.inl ⟨rfl, rfl, hcondition.2⟩)
      next => cases hown
  · obtain ⟨c, hc, hmem⟩ := List.mem_flatMap.mp hchoice
    obtain ⟨index, hindex, heq⟩ := List.mem_map.mp hmem
    cases heq
    exact .inr (.inr (.inr ⟨c, hc, index, hindex, rfl, rfl⟩))

theorem NamePrefix.eq_generated {pre : NamePrefix} {index : Nat} (h : index ∈ pre.index) : pre = .generated index := by
  cases pre with
  | default => cases h
  | named t => cases h
  | generated i => rw [List.mem_singleton.mp h]

section

variable (h : o.Valid arena)
include h

theorem Opening.Valid.generated {index : Nat} (hindex : index ∈ o.pre.index) :
    o.context.resolve (generatedName index) = none ∧ o.ns ≠ [] ∧ o.ns ≠ xmlNamespace := by
  have hspec := elementPrefix_spec h.held o.ns
  have hpre : o.context.elementPrefix o.ns = .generated index := NamePrefix.eq_generated hindex
  rw [hpre] at hspec
  cases hspec with
  | generated hcontext hxml hdefault hresolve =>
    refine ⟨hresolve, fun hnil => hdefault ?_, hxml⟩
    -- An element in no namespace is in the default namespace of its context.
    obtain ⟨ns, hns⟩ := h.context.resolve_nil hcontext
    rw [resolve_eq] at hns ⊢
    have hpairs : o.context.pairs ≠ [] := by
      intro hpairs
      rw [hpairs] at hns
      cases hns
    rw [h.unnamed hnil hpairs, hnil]
    rfl

theorem resolve_of_mem_added (hmem : (t, ns) ∈ o.added parentNamespace) : o.context.resolve t = none := by
  rcases mem_added hmem with ⟨-, -, -, hempty⟩ | ⟨-, -, hempty⟩ | ⟨index, hindex, rfl, -⟩ | ⟨c, hc, index, hindex, rfl, -⟩
  · rw [hempty]
    rfl
  · rw [hempty]
    rfl
  · exact (h.generated hindex).1
  · have hmeans := h.means c hc
    rw [NamePrefix.eq_generated hindex] at hmeans
    exact hmeans.1

theorem legal_of_mem_added (hmem : (t, ns) ∈ o.added parentNamespace) : legal t ns = true := by
  rcases mem_added hmem with ⟨rfl, hpre, rfl, hempty⟩ | ⟨rfl, rfl, -⟩ | ⟨index, hindex, rfl, rfl⟩ |
      ⟨c, hc, index, hindex, rfl, rfl⟩
  · have hspec := elementPrefix_spec h.held o.ns
    have hdefault : o.context.elementPrefix o.ns = .default := hpre
    rw [hdefault] at hspec
    cases hspec with
    | unbound _ hxml => exact legal_of_ne (by decide) (by decide) hxml h.name.notXmlns (.inl rfl)
    | inherited hcontext _ => exact absurd hempty hcontext
  · decide
  · obtain ⟨-, hnil, hxml⟩ := h.generated hindex
    exact legal_generatedName index hnil hxml h.name.notXmlns
  · have hmeans := h.means c hc
    rw [NamePrefix.eq_generated hindex] at hmeans
    have hname := (h.attributes.valid c.value (List.mem_map_of_mem hc)).name
    exact legal_generatedName index hmeans.2.1 hmeans.2.2 hname.notXmlns

theorem nodup_added : ((o.added parentNamespace).map (·.1)).Nodup := by
  obtain ⟨-, hchoices, hdisjoint⟩ := List.nodup_append.mp h.indexes
  rw [Opening.added, List.map_append, map_fst_declared]
  refine List.nodup_append.mpr ⟨?_, hchoices.map generatedName_injective, fun k hk k' hk' => ?_⟩
  · unfold ownDeclaration
    split
    · exact List.nodup_singleton _
    · split
      · exact List.nodup_singleton _
      · exact List.nodup_nil
    · split
      · exact List.nodup_singleton _
      · exact List.nodup_nil
  · obtain ⟨j, hj, rfl⟩ := List.mem_map.mp hk'
    unfold ownDeclaration at hk
    split at hk
    next index hpre =>
      obtain rfl : k = generatedName index := List.mem_singleton.mp hk
      intro heq
      refine hdisjoint index ?_ j hj (generatedName_injective heq)
      rw [hpre]
      exact List.mem_singleton_self index
    · split at hk
      · obtain rfl : k = [] := List.mem_singleton.mp hk
        exact (generatedName_ne (by decide)).symm
      · cases hk
    · split at hk
      · obtain rfl : k = "stream".toList := List.mem_singleton.mp hk
        exact (generatedName_ne (by decide)).symm
      · cases hk

variable (hparent : ∀ context ∈ parentContext, arena.Holds context)
include hparent

theorem nodup_declared : ((o.declared parentNamespace parentContext).map (·.1)).Nodup := by
  rw [Opening.declared, List.map_append]
  refine List.nodup_append.mpr ⟨NamespaceContext.nodup_changedBindings h.held parentContext, nodup_added h, ?_⟩
  rintro k hk _ hk' rfl
  obtain ⟨⟨_, ns⟩, hchanged, rfl⟩ := List.mem_map.mp hk
  obtain ⟨⟨_, ns'⟩, hadded, rfl⟩ := List.mem_map.mp hk'
  have hbound := ((mem_changedBindings h.held hparent).mp hchanged).1
  rw [resolve_of_mem_added h hadded] at hbound
  cases hbound

theorem legal_of_mem_declared (hmem : (t, ns) ∈ o.declared parentNamespace parentContext) : legal t ns = true := by
  rcases List.mem_append.mp hmem with hchanged | hadded
  · have hbound := ((mem_changedBindings h.held hparent).mp hchanged).1
    exact (legal_of_acceptsBinding (h.context.accepts hbound)).1
  · exact legal_of_mem_added h hadded

theorem inner_of_mem_added (hmem : (t, ns) ∈ o.added parentNamespace) :
    scope.declare (o.declared parentNamespace parentContext) t = some ns :=
  Scope.declare_of_mem (nodup_declared h hparent) (List.mem_append_right _ hmem)

theorem inner_nil (hresolve : o.context.resolve [] = none) (hown : o.pre ≠ .default ∨ some o.ns = parentNamespace) :
    scope.declare (o.declared parentNamespace parentContext) [] = scope [] := by
  apply Scope.declare_of_not_mem
  intro hkey
  obtain ⟨⟨_, ns⟩, hmem, rfl⟩ := List.mem_map.mp hkey
  rcases List.mem_append.mp hmem with hmem | hmem
  · have hbound := ((mem_changedBindings h.held hparent).mp hmem).1
    rw [hresolve] at hbound
    cases hbound
  · have hgenerated : ∀ index, generatedName index ≠ [] := fun index => generatedName_ne (by decide)
    rcases List.mem_append.mp hmem with hmem | hmem
    · unfold ownDeclaration at hmem
      split at hmem
      next index _ => exact hgenerated index (congrArg Prod.fst (List.mem_singleton.mp hmem)).symm
      next hpre =>
        split at hmem
        next hcondition => exact hown.elim (fun hne => hne hpre) hcondition.2
        next => cases hmem
      · split at hmem
        · cases congrArg Prod.fst (List.mem_singleton.mp hmem)
        · cases hmem
    · have hindex := List.mem_map_of_mem (f := Prod.fst) hmem
      have hkeys := map_fst_declared o.choices
      rw [hkeys] at hindex
      obtain ⟨index, -, heq⟩ := List.mem_map.mp hindex
      exact hgenerated index heq

theorem spelled_of_mem_added {index : Nat} (hmem : (generatedName index, ns) ∈ o.added parentNamespace) :
    (scope.declare (o.declared parentNamespace parentContext)).find (generatedName index) = some ns := by
  have hxml : generatedName index ≠ "xml".toList := generatedName_ne (by decide)
  rw [Scope.find, if_neg hxml]
  exact inner_of_mem_added h hparent hmem

theorem undelimited_of_mem_declared (hmem : (t, ns) ∈ o.declared parentNamespace parentContext) : Undelimited t := by
  rcases List.mem_append.mp hmem with hchanged | hadded
  · have hbound := ((mem_changedBindings h.held hparent).mp hchanged).1
    by_cases hnil : t = []
    · rw [hnil]
      exact fun _ hc => nomatch hc
    · exact undelimited_of_validLocalName ((legal_of_acceptsBinding (h.context.accepts hbound)).2 hnil).1
  · rcases mem_added hadded with ⟨rfl, -⟩ | ⟨rfl, -⟩ | ⟨index, -, rfl, -⟩ | ⟨c, -, index, -, rfl, -⟩
    · exact fun _ hc => nomatch hc
    · exact undelimited_of_validLocalName (by decide)
    · exact undelimited_of_validLocalName (validLocalName_generatedName index)
    · exact undelimited_of_validLocalName (validLocalName_generatedName index)

variable (hagrees : Agrees scope parentNamespace parentContext)
include hagrees

theorem inner_of_resolve (hresolve : o.context.resolve t = some ns) :
    scope.declare (o.declared parentNamespace parentContext) t = some ns := by
  have hchanged : ∀ ns', (t, ns') ∈ o.context.changedBindings parentContext ↔
      o.context.resolve t = some ns' ∧ parentContext.bind (·.resolve t) ≠ some ns' :=
    fun _ => mem_changedBindings h.held hparent
  by_cases hinherited : parentContext.bind (·.resolve t) = some ns
  · obtain ⟨context, hcontext, hbound⟩ := Option.bind_eq_some_iff.mp hinherited
    rw [Scope.declare_of_not_mem]
    · exact hagrees.context context hcontext t ns hbound
    · intro hkey
      obtain ⟨⟨_, ns'⟩, hmem, rfl⟩ := List.mem_map.mp hkey
      rcases List.mem_append.mp hmem with hmem | hmem
      · obtain ⟨hbound', hne⟩ := (hchanged ns').mp hmem
        rw [hresolve] at hbound'
        cases hbound'
        exact hne hinherited
      · rw [resolve_of_mem_added h hmem] at hresolve
        cases hresolve
  · exact Scope.declare_of_mem (nodup_declared h hparent)
      (List.mem_append_left _ ((hchanged ns).mpr ⟨hresolve, hinherited⟩))

theorem inner_default (hpre : o.pre = .default) :
    (scope.declare (o.declared parentNamespace parentContext) []).getD [] = o.ns := by
  have hspec := elementPrefix_spec h.held o.ns
  have hdefault : o.context.elementPrefix o.ns = .default := hpre
  rw [hdefault] at hspec
  cases hspec with
  | inherited hcontext hns =>
    obtain ⟨ns, hresolve⟩ := h.context.resolve_nil hcontext
    rw [hresolve] at hns
    rw [inner_of_resolve h hparent hagrees hresolve]
    exact hns
  | unbound hempty _ =>
    by_cases hsame : some o.ns = parentNamespace
    · have hresolve : o.context.resolve [] = none := by
        rw [hempty]
        rfl
      rw [inner_nil h hparent hresolve (.inr hsame)]
      exact hagrees.default o.ns hsame.symm
    · have hmem : ([], o.ns) ∈ o.added parentNamespace := by
        refine List.mem_append_left _ ?_
        rw [hpre, ownDeclaration]
        simp only [hempty, hsame, ne_eq, not_false_eq_true, and_self, if_true, List.mem_singleton]
      rw [inner_of_mem_added h hparent hmem]
      rfl

theorem agrees_inner : Agrees (scope.declare (o.declared parentNamespace parentContext))
      (o.context.childDefault o.pre o.ns parentNamespace) (some o.context) := by
  refine ⟨fun ns hns => ?_, fun context hcontext t ns hresolve => ?_⟩
  · unfold NamespaceContext.childDefault at hns
    split at hns
    next ns' hresolve =>
      cases hns
      rw [inner_of_resolve h hparent hagrees hresolve]
      rfl
    next hresolve =>
      split at hns
      next hpre =>
        cases hns
        exact inner_default h hparent hagrees hpre
      next hpre =>
        rw [inner_nil h hparent hresolve (.inl hpre)]
        exact hagrees.default ns hns
  · cases hcontext
    exact inner_of_resolve h hparent hagrees hresolve

theorem spelled_of_resolve (hne : t ≠ []) (hresolve : o.context.resolve t = some ns) :
    (NamePrefix.named t).Spelled t ∧ (scope.declare (o.declared parentNamespace parentContext)).find t = some ns := by
  have haccepts := h.context.accepts hresolve
  obtain ⟨hvalid, hxmlns⟩ := (legal_of_acceptsBinding haccepts).2 hne
  refine ⟨.named hvalid hxmlns, ?_⟩
  unfold Scope.find
  split
  next hxml =>
    simp only [acceptsBinding, Bool.and_eq_true, Bool.or_eq_true, decide_eq_true_eq, ne_eq] at haccepts
    rw [haccepts.1.2.resolve_left fun hne => hne hxml]
    rfl
  next => exact inner_of_resolve h hparent hagrees hresolve

theorem opening_elementName :
    (∃ t, o.pre.Spelled t) ∧
      (scope.declare (o.declared parentNamespace parentContext)).elementName (o.pre.write ++ o.name) =
        some ⟨o.name, o.ns⟩ := by
  have hname : ∀ {t : Text}, o.pre.Spelled t → t ≠ [] →
      (scope.declare (o.declared parentNamespace parentContext)).find t = some o.ns →
      (scope.declare (o.declared parentNamespace parentContext)).elementName (o.pre.write ++ o.name) =
        some ⟨o.name, o.ns⟩ := by
    intro t hspelled hne hfind
    simp [Scope.elementName, hspelled.qualified_eq h.name.localName, hne, hfind]
  have hspec : ElementPrefix o.context o.ns o.pre := elementPrefix_spec h.held o.ns
  cases hpre : o.pre with
  | default =>
    refine ⟨⟨[], .unprefixed⟩, ?_⟩
    have hqualified := NamePrefix.Spelled.qualified_eq .unprefixed h.name.localName
    simp [Scope.elementName, hqualified, inner_default h hparent hagrees hpre]
  | generated index =>
    have hspelled := NamePrefix.Spelled.generated index
    have hmem : (generatedName index, o.ns) ∈ o.added parentNamespace := by
      refine List.mem_append_left _ ?_
      rw [hpre]
      exact List.mem_singleton_self _
    rw [hpre] at hname
    exact ⟨⟨_, hspelled⟩, hname hspelled (generatedName_ne (by decide)) (spelled_of_mem_added h hparent hmem)⟩
  | named t =>
    rw [hpre] at hspec hname
    cases hspec with
    | xml hns =>
      have hspelled : (NamePrefix.named "xml".toList).Spelled "xml".toList := .named (by decide) (by decide)
      refine ⟨⟨_, hspelled⟩, hname hspelled (by decide) ?_⟩
      rw [hns]
      rfl
    | stream hempty hns =>
      have hspelled : (NamePrefix.named "stream".toList).Spelled "stream".toList := .named (by decide) (by decide)
      have hmem : ("stream".toList, o.ns) ∈ o.added parentNamespace := by
        refine List.mem_append_left _ ?_
        rw [hpre, ownDeclaration, if_pos ⟨rfl, hempty⟩, hns]
        exact List.mem_singleton_self _
      refine ⟨⟨_, hspelled⟩, hname hspelled (by decide) ?_⟩
      rw [Scope.find, if_neg (by decide)]
      exact inner_of_mem_added h hparent hmem
    | named hne hresolve =>
      obtain ⟨hspelled, hfind⟩ := spelled_of_resolve h hparent hagrees hne hresolve
      exact ⟨⟨_, hspelled⟩, hname hspelled hne hfind⟩

theorem opening_attributeName {c : Choice} (hc : c ∈ o.choices) :
    (∃ t, c.pre.Spelled t ∧ (t = [] → c.value.ns = [])) ∧
      (scope.declare (o.declared parentNamespace parentContext)).attributeName c.written.1 =
        some ⟨c.value.name, c.value.ns⟩ := by
  obtain ⟨pre, value⟩ := c
  have hlocal := (h.attributes.valid value (List.mem_map_of_mem hc)).name.localName
  have hmeans := h.means _ hc
  have hname : ∀ {t : Text}, pre.Spelled t → t ≠ [] →
      (scope.declare (o.declared parentNamespace parentContext)).find t = some value.ns →
      (scope.declare (o.declared parentNamespace parentContext)).attributeName (pre.write ++ value.name) =
        some ⟨value.name, value.ns⟩ := by
    intro t hspelled hne hfind
    simp [Scope.attributeName, hspelled.qualified_eq hlocal, hne, hfind]
  cases pre with
  | default =>
    have hns : value.ns = [] := hmeans
    refine ⟨⟨[], .unprefixed, fun _ => hns⟩, ?_⟩
    have hqualified := NamePrefix.Spelled.qualified_eq .unprefixed hlocal
    simp [Scope.attributeName, Choice.written, hqualified, hns]
  | generated index =>
    have hspelled := NamePrefix.Spelled.generated index
    have hne : generatedName index ≠ [] := generatedName_ne (by decide)
    have hmem : (generatedName index, value.ns) ∈ o.added parentNamespace := by
      refine List.mem_append_right _ (List.mem_flatMap.mpr ⟨_, hc, ?_⟩)
      exact List.mem_singleton_self _
    exact ⟨⟨_, hspelled, fun hnil => absurd hnil hne⟩, hname hspelled hne (spelled_of_mem_added h hparent hmem)⟩
  | named t =>
    rcases hmeans with ⟨rfl, hns⟩ | ⟨hne, hresolve⟩
    · have hspelled : (NamePrefix.named "xml".toList).Spelled "xml".toList := .named (by decide) (by decide)
      have hne : "xml".toList ≠ [] := by decide
      have hxml : value.ns = xmlNamespace := hns
      refine ⟨⟨_, hspelled, fun hnil => absurd hnil hne⟩, hname hspelled hne ?_⟩
      rw [hxml]
      rfl
    · obtain ⟨hspelled, hfind⟩ := spelled_of_resolve h hparent hagrees hne hresolve
      exact ⟨⟨_, hspelled, fun hnil => absurd hnil hne⟩, hname hspelled hne hfind⟩

theorem tag_attributes :
    declarations (o.tag parentNamespace parentContext).attributes = o.declared parentNamespace parentContext ∧
      plain (o.tag parentNamespace parentContext).attributes = o.choices.map Choice.written := by
  have hwritten : ∀ c ∈ o.choices, declares c.written.1 = none := by
    intro c hc
    obtain ⟨⟨t, hspelled, hunprefixed⟩, -⟩ := opening_attributeName h hparent hagrees hc
    have hvalid := h.attributes.valid c.value (List.mem_map_of_mem hc)
    exact hspelled.declares_eq hvalid.name.localName fun hnil heq => hvalid.notDeclaration ⟨hunprefixed hnil, heq⟩
  have hchoices : ∀ choices : List Choice, (∀ c ∈ choices, declares c.written.1 = none) →
      declarations (choices.flatMap fun c => declarationAttributes c.declared ++ [c.written]) =
        choices.flatMap Choice.declared ∧
      plain (choices.flatMap fun c => declarationAttributes c.declared ++ [c.written]) =
        choices.map Choice.written := by
    intro choices hnone
    induction choices with
    | nil => exact ⟨rfl, rfl⟩
    | cons c choices ih =>
      have hfirst := hnone c List.mem_cons_self
      obtain ⟨hdeclared, hplain⟩ := ih fun c' hc' => hnone c' (List.mem_cons_of_mem c hc')
      have hsingle : declarations [c.written] = [] ∧ plain [c.written] = [c.written] := by
        simp [declarations, plain, hfirst]
      rw [List.flatMap_cons, declarations_append, declarations_append, plain_append, plain_append, hdeclared, hplain,
        hsingle.1, hsingle.2, declarationAttributes, declarations_declarationName, plain_declarationName,
        List.append_nil]
      exact ⟨rfl, rfl⟩
  obtain ⟨hdeclared, hplain⟩ := hchoices o.choices hwritten
  simp only [Opening.tag, declarations_append, plain_append, hdeclared, hplain]
  rw [declarationAttributes, declarations_declarationName, plain_declarationName, List.append_assoc]
  exact ⟨rfl, rfl⟩

theorem expand_opening :
    scope.expand (o.tag parentNamespace parentContext) =
      some (scope.declare (o.declared parentNamespace parentContext), ⟨o.name, o.ns⟩,
        (o.choices.map Choice.value).map Attribute.expanded) := by
  rw [List.map_map]
  obtain ⟨hdeclared, hplain⟩ := tag_attributes h hparent hagrees
  refine Scope.expand_eq hdeclared (nodup_declared h hparent) (fun b hb => legal_of_mem_declared h hparent hb)
    (opening_elementName h hparent hagrees).2 hplain
    (fun c hc => ⟨(opening_attributeName h hparent hagrees hc).2, rfl⟩) ?_
  have hkeys := h.attributes.nodup
  rw [List.map_map] at hkeys
  refine List.Nodup.of_map (fun e : Expanded => (e.name, e.ns)) ?_
  rw [List.map_map]
  exact hkeys

theorem undelimited_of_mem_tag {a : Text × Text}
    (ha : a ∈ (o.tag parentNamespace parentContext).attributes) : a.1 ≠ [] ∧ Undelimited a.1 := by
  have hdeclaration : ∀ bindings : List (Text × Text), bindings ⊆ o.declared parentNamespace parentContext →
      a ∈ declarationAttributes bindings → a.1 ≠ [] ∧ Undelimited a.1 := by
    intro bindings hsub hmem
    obtain ⟨b, hb, rfl⟩ := List.mem_map.mp hmem
    exact ⟨declarationName_ne_nil b.1, undelimited_declarationName (undelimited_of_mem_declared h hparent (hsub hb))⟩
  rcases List.mem_append.mp ha with hmem | hmem
  · refine hdeclaration _ ?_ hmem
    rw [Opening.declared, Opening.added, ← List.append_assoc]
    exact List.subset_append_left _ _
  · obtain ⟨c, hc, hmem⟩ := List.mem_flatMap.mp hmem
    rcases List.mem_append.mp hmem with hmem | hmem
    · refine hdeclaration _ (fun b hb => ?_) hmem
      exact List.mem_append_right _ (List.mem_append_right _ (List.mem_flatMap.mpr ⟨c, hc, hb⟩))
    · obtain rfl := List.mem_singleton.mp hmem
      obtain ⟨⟨t, hspelled, -⟩, -⟩ := opening_attributeName h hparent hagrees hc
      have hlocal := (h.attributes.valid c.value (List.mem_map_of_mem hc)).name.localName
      exact ⟨fun hnil => ne_nil_of_validLocalName hlocal (List.append_eq_nil_iff.mp hnil).2,
        hspelled.undelimited hlocal⟩

theorem runs_opening :
    (o.pre.write ++ o.name ≠ [] ∧ Undelimited (o.pre.write ++ o.name)) ∧
      ∃ s, Runs scan .content
        ("<".toList ++ (o.pre.write ++ o.name) ++ writeAll (o.tag parentNamespace parentContext).attributes) s [] ∧
      InTag s (o.tag parentNamespace parentContext) := by
  obtain ⟨⟨t, hspelled⟩, -⟩ := opening_elementName h hparent hagrees
  have hne : o.pre.write ++ o.name ≠ [] :=
    fun hnil => ne_nil_of_validLocalName h.name.localName (List.append_eq_nil_iff.mp hnil).2
  have hname := hspelled.undelimited h.name.localName
  obtain ⟨s, hruns, htag⟩ := (InTag.name (o.pre.write ++ o.name)).runs_attributes runs_escape
    (o.tag parentNamespace parentContext).attributes fun a ha => undelimited_of_mem_tag h hparent hagrees ha
  exact ⟨⟨hne, hname⟩, s, (runs_open hne hname).append hruns, htag⟩

end

end Opening

end Lonewolf.Xmpp
