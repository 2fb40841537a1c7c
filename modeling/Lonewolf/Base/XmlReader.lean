import Lonewolf.Base.Slices

/-!
# Reading XML with namespaces

A strict reader for XML text, in two machines. The first finds the tags, their attributes and the characters, with
references resolved. The second resolves prefixes in the declarations in scope. The reader refuses an undeclared
prefix, one that is declared twice on a tag, is bound to the empty namespace or rebinds `xml`, two attributes of one
expanded name, an end tag that does not match its start tag, and characters that a reader would normalize.
-/

namespace XmlReading

open Texts Text

/-! ### Machines with output -/

section Machine

variable {σ ι ω : Type} (step : σ → ι → Option (σ × List ω))

def run : σ → List ι → Option (σ × List ω)
  | s, [] => some (s, [])
  | s, i :: is => do
      let (s, first) ← step s i
      let (s, rest) ← run s is
      return (s, first ++ rest)

/-- The machine takes the input from one state to another, with this output. -/
def Runs (s : σ) (input : List ι) (s' : σ) (output : List ω) : Prop := run step s input = some (s', output)

variable {step}

theorem Runs.nil (s : σ) : Runs step s [] s [] := rfl

theorem Runs.single {s s' : σ} {i : ι} {output : List ω} (h : step s i = some (s', output)) :
    Runs step s [i] s' output := by
  simp [Runs, run, h]

theorem Runs.append {s s' s'' : σ} {first second : List ι} {o o' : List ω} (h : Runs step s first s' o)
    (h' : Runs step s' second s'' o') : Runs step s (first ++ second) s'' (o ++ o') := by
  induction first generalizing s o with
  | nil =>
    cases h
    exact h'
  | cons i is ih =>
    simp only [Runs, run, List.cons_append] at h ⊢
    cases hstep : step s i with
    | none => simp [hstep] at h
    | some next =>
      cases hrest : run step next.1 is with
      | none => simp [hstep, hrest] at h
      | some rest =>
        simp only [hstep, hrest, Option.pure_def, Option.bind_eq_bind, Option.bind_some, Option.some.injEq,
          Prod.mk.injEq] at h ⊢
        obtain ⟨rfl, rfl⟩ := h
        have happend := ih hrest
        simp only [Runs] at happend
        simp [happend]

theorem Runs.collect {S : List ι → σ} (t : List ι) (h : ∀ n, ∀ c ∈ t, step (S n) c = some (S (n ++ [c]), []))
    (n : List ι) : Runs step (S n) t (S (n ++ t)) [] := by
  induction t generalizing n with
  | nil =>
    rw [List.append_nil]
    exact .nil _
  | cons c t ih =>
    have hrest := ih (fun n d hd => h n d (List.mem_cons_of_mem c hd)) (n ++ [c])
    rw [List.append_assoc] at hrest
    exact (Runs.single (h n c List.mem_cons_self)).append hrest

theorem Runs.flatMap {α : Type} {s : σ} {f : α → List ι} {g : α → List ω} (l : List α)
    (h : ∀ a ∈ l, Runs step s (f a) s (g a)) : Runs step s (l.flatMap f) s (l.flatMap g) := by
  induction l with
  | nil => exact .nil s
  | cons a l ih =>
    rw [List.flatMap_cons, List.flatMap_cons]
    exact (h a List.mem_cons_self).append (ih fun b hb => h b (List.mem_cons_of_mem a hb))

end Machine

/-! ### Tags and characters -/

/-- A start tag as it is written. -/
structure Tag where
  name : Text
  attributes : List (Text × Text)

inductive Token where
  | start (tag : Tag)
  /-- The end of an element, with the name of its end tag when there is one. -/
  | finish (name : Option Text)
  | char (c : Char)

inductive Scanner where
  | content
  | reference (entity : Text)
  | markup
  | startName (name : Text)
  | afterAttribute (tag : Tag)
  | attributeName (tag : Tag) (name : Text)
  | attributeEquals (tag : Tag) (name : Text)
  | attributeValue (tag : Tag) (name value : Text)
  | attributeReference (tag : Tag) (name value entity : Text)
  | emptyTag (tag : Tag)
  | endName (name : Text)

/-- The characters that end a name or cannot be part of it. -/
def delimiters : List Char := [' ', '\t', '\n', '\r', '<', '>', '/', '=', '"', '\'', '&']

def entities : List (Text × Char) :=
  [("amp".toList, '&'), ("lt".toList, '<'), ("gt".toList, '>'), ("quot".toList, '"'), ("#x9".toList, '\t'),
    ("#xA".toList, '\n'), ("#xD".toList, '\r')]

/-- What may follow the name of a start tag or one of its attributes. -/
def scanTag (tag : Tag) (c : Char) : Option (Scanner × List Token) :=
  if c = ' ' then some (.attributeName tag [], [])
  else if c = '/' then some (.emptyTag tag, [])
  else if c = '>' then some (.content, [.start tag])
  else none

def scan : Scanner → Char → Option (Scanner × List Token)
  | .content, c =>
    if c = '<' then some (.markup, [])
    else if c = '&' then some (.reference [], [])
    else if c = '>' ∨ c = '\r' then none
    else some (.content, [.char c])
  | .reference entity, c =>
    if c = ';' then (entities.lookup entity).map fun c => (.content, [.char c])
    else some (.reference (entity ++ [c]), [])
  | .markup, c =>
    if c = '/' then some (.endName [], [])
    else if c ∈ delimiters then none
    else some (.startName [c], [])
  | .startName name, c =>
    if c ∈ delimiters then scanTag ⟨name, []⟩ c else some (.startName (name ++ [c]), [])
  | .afterAttribute tag, c => scanTag tag c
  | .attributeName tag name, c =>
    if c = '=' then if name = [] then none else some (.attributeEquals tag name, [])
    else if c ∈ delimiters then none
    else some (.attributeName tag (name ++ [c]), [])
  | .attributeEquals tag name, c => if c = '"' then some (.attributeValue tag name [], []) else none
  | .attributeValue tag name value, c =>
    if c = '"' then some (.afterAttribute { tag with attributes := tag.attributes ++ [(name, value)] }, [])
    else if c = '&' then some (.attributeReference tag name value [], [])
    else if c = '<' ∨ c = '\t' ∨ c = '\n' ∨ c = '\r' then none
    else some (.attributeValue tag name (value ++ [c]), [])
  | .attributeReference tag name value entity, c =>
    if c = ';' then (entities.lookup entity).map fun c => (.attributeValue tag name (value ++ [c]), [])
    else some (.attributeReference tag name value (entity ++ [c]), [])
  | .emptyTag tag, c => if c = '>' then some (.content, [.start tag, .finish none]) else none
  | .endName name, c =>
    if c = '>' then if name = [] then none else some (.content, [.finish (some name)])
    else if c ∈ delimiters then none
    else some (.endName (name ++ [c]), [])

/-- A name that is read to its end. -/
def Undelimited (t : Text) : Prop := ∀ c ∈ t, c ∉ delimiters

instance (t : Text) : Decidable (Undelimited t) := List.decidableBAll (fun c => c ∉ delimiters) t

theorem Undelimited.append {t u : Text} (ht : Undelimited t) (hu : Undelimited u) : Undelimited (t ++ u) :=
  List.forall_mem_append.mpr ⟨ht, hu⟩

theorem ne_of_undelimited {c d : Char} (hc : c ∉ delimiters) (hd : d ∈ delimiters) : c ≠ d := by
  rintro rfl
  exact hc hd

theorem runs_startName (name t : Text) (h : Undelimited t) :
    Runs scan (.startName name) t (.startName (name ++ t)) [] :=
  Runs.collect t (fun _ c hc => if_neg (h c hc)) name

theorem runs_attributeName (tag : Tag) (name t : Text) (h : Undelimited t) :
    Runs scan (.attributeName tag name) t (.attributeName tag (name ++ t)) [] := by
  refine Runs.collect (S := Scanner.attributeName tag) t (fun n c hc => ?_) name
  rw [scan, if_neg (ne_of_undelimited (h c hc) (by decide)), if_neg (h c hc)]

theorem runs_endName (name t : Text) (h : Undelimited t) : Runs scan (.endName name) t (.endName (name ++ t)) [] := by
  refine Runs.collect t (fun n c hc => ?_) name
  rw [scan, if_neg (ne_of_undelimited (h c hc) (by decide)), if_neg (h c hc)]

theorem runs_reference (entity : Text) {c : Char} (h : (entity, c) ∈ entities) :
    Runs scan .content ('&' :: (entity ++ [';'])) .content [.char c] := by
  simp only [entities, List.mem_cons, Prod.mk.injEq, List.not_mem_nil, or_false] at h
  rcases h with ⟨rfl, rfl⟩ | ⟨rfl, rfl⟩ | ⟨rfl, rfl⟩ | ⟨rfl, rfl⟩ | ⟨rfl, rfl⟩ | ⟨rfl, rfl⟩ | ⟨rfl, rfl⟩ <;> rfl

theorem runs_attributeReference (tag : Tag) (name value entity : Text) {c : Char} (h : (entity, c) ∈ entities) :
    Runs scan (.attributeValue tag name value) ('&' :: (entity ++ [';']))
      (.attributeValue tag name (value ++ [c])) [] := by
  simp only [entities, List.mem_cons, Prod.mk.injEq, List.not_mem_nil, or_false] at h
  rcases h with ⟨rfl, rfl⟩ | ⟨rfl, rfl⟩ | ⟨rfl, rfl⟩ | ⟨rfl, rfl⟩ | ⟨rfl, rfl⟩ | ⟨rfl, rfl⟩ | ⟨rfl, rfl⟩ <;> rfl

/-- A state in a start tag, after its name or an attribute. -/
inductive InTag : Scanner → Tag → Prop where
  | name (name : Text) : InTag (.startName name) ⟨name, []⟩
  | attributes (tag : Tag) : InTag (.afterAttribute tag) tag

theorem InTag.scan_eq {s : Scanner} {tag : Tag} (h : InTag s tag) {c : Char} (hc : c ∈ delimiters) :
    scan s c = scanTag tag c := by
  cases h with
  | name name => exact if_pos hc
  | attributes tag => rfl

theorem InTag.runs_attribute {s : Scanner} {tag : Tag} (h : InTag s tag) {name raw value : Text}
    (hne : name ≠ []) (hname : Undelimited name)
    (hvalue : Runs scan (.attributeValue tag name []) raw (.attributeValue tag name value) []) :
    Runs scan s (" ".toList ++ (name ++ ("=\"".toList ++ (raw ++ "\"".toList))))
      (.afterAttribute { tag with attributes := tag.attributes ++ [(name, value)] }) [] := by
  have hspace : Runs scan s " ".toList (.attributeName tag []) [] := .single (h.scan_eq (by decide))
  have hequals : Runs scan (.attributeName tag name) "=\"".toList (.attributeValue tag name []) [] := by
    have hfirst : Runs scan (.attributeName tag name) ['='] (.attributeEquals tag name) [] :=
      .single (by rw [scan, if_pos rfl, if_neg hne])
    exact hfirst.append (.single rfl)
  have hquote : Runs scan (.attributeValue tag name value) "\"".toList
      (.afterAttribute { tag with attributes := tag.attributes ++ [(name, value)] }) [] := .single rfl
  exact hspace.append ((runs_attributeName tag [] name hname).append (hequals.append (hvalue.append hquote)))

variable (l : List (Text × Text))

theorem InTag.runs_attributes {s : Scanner} {tag : Tag} (h : InTag s tag) {raw : Text → Text}
    (hraw : ∀ tag name value, Runs scan (.attributeValue tag name []) (raw value) (.attributeValue tag name value) [])
    (l : List (Text × Text)) (hnames : ∀ a ∈ l, a.1 ≠ [] ∧ Undelimited a.1) :
    ∃ s', Runs scan s (l.flatMap fun a => " ".toList ++ (a.1 ++ ("=\"".toList ++ (raw a.2 ++ "\"".toList)))) s' [] ∧
      InTag s' { tag with attributes := tag.attributes ++ l } := by
  induction l generalizing s tag with
  | nil =>
    rw [List.append_nil]
    exact ⟨s, .nil s, h⟩
  | cons a l ih =>
    obtain ⟨hne, hname⟩ := hnames a List.mem_cons_self
    obtain ⟨s', hruns, htag⟩ := ih (InTag.attributes { tag with attributes := tag.attributes ++ [a] })
      fun b hb => hnames b (List.mem_cons_of_mem a hb)
    rw [List.append_assoc] at htag
    refine ⟨s', ?_, htag⟩
    rw [List.flatMap_cons]
    exact (h.runs_attribute hne hname (hraw tag a.1 a.2)).append hruns

theorem runs_open {name : Text} (hne : name ≠ []) (hname : Undelimited name) :
    Runs scan .content ("<".toList ++ name) (.startName name) [] := by
  have hless : Runs scan .content "<".toList .markup [] := .single rfl
  obtain ⟨c, rest, rfl⟩ := List.exists_cons_of_ne_nil hne
  have hc := hname c List.mem_cons_self
  have hfirst : Runs scan .markup [c] (.startName [c]) [] :=
    .single (by rw [scan, if_neg (ne_of_undelimited hc (by decide)), if_neg hc])
  exact hless.append (hfirst.append (runs_startName [c] rest fun d hd => hname d (List.mem_cons_of_mem c hd)))

/-! ### Namespaces -/

/-- The name that a prefixed one stands for. -/
structure Expanded where
  name : Text
  ns : Text
  deriving DecidableEq

inductive Event where
  | start (name : Expanded) (attributes : List (Expanded × Text))
  | finish
  | char (c : Char)
  deriving DecidableEq

/-- The namespace that a prefix is bound to; the empty prefix has the default namespace. -/
abbrev Scope := Text → Option Text

def xmlName : Text := "http://www.w3.org/XML/1998/namespace".toList

def xmlnsName : Text := "http://www.w3.org/2000/xmlns/".toList

/-- The prefix that an attribute declares. -/
def declares (name : Text) : Option Text :=
  match splitOnce ':' name with
  | none => if name = "xmlns".toList then some [] else none
  | some (pre, suffix) => if pre = "xmlns".toList then some suffix else none

def declarations (attributes : List (Text × Text)) : List (Text × Text) :=
  attributes.filterMap fun (name, value) => (declares name).map fun pre => (pre, value)

def plain (attributes : List (Text × Text)) : List (Text × Text) :=
  attributes.filter fun (name, _) => (declares name).isNone

/-- The declarations that Namespaces in XML lets be made. -/
def legal (pre ns : Text) : Bool :=
  ns ≠ xmlnsName && pre ≠ "xmlns".toList && (pre = "xml".toList) == (ns = xmlName) && (pre.isEmpty || !ns.isEmpty)

/-- The scope inside a tag. -/
def Scope.declare (scope : Scope) (declared : List (Text × Text)) : Scope :=
  fun pre => (declared.lookup pre).or (scope pre)

/-- A name with its prefix, when the prefix and the local part are there. -/
def qualified (name : Text) : Option (Text × Text) :=
  match splitOnce ':' name with
  | none => if name = [] then none else some ([], name)
  | some (pre, suffix) => if pre = [] ∨ suffix = [] ∨ ':' ∈ suffix then none else some (pre, suffix)

def Scope.find (scope : Scope) (pre : Text) : Option Text :=
  if pre = "xml".toList then some xmlName else scope pre

/-- The name of an element: without a prefix it is in the default namespace. -/
def Scope.elementName (scope : Scope) (name : Text) : Option Expanded := do
  let (pre, name) ← qualified name
  if pre = [] then return ⟨name, (scope []).getD []⟩ else return ⟨name, ← scope.find pre⟩

/-- The name of an attribute: without a prefix it is in no namespace. -/
def Scope.attributeName (scope : Scope) (name : Text) : Option Expanded := do
  let (pre, name) ← qualified name
  if pre = [] then return ⟨name, []⟩ else return ⟨name, ← scope.find pre⟩

/-- A start tag with its prefixes resolved, and the scope inside it. -/
def Scope.expand (scope : Scope) (tag : Tag) : Option (Scope × Expanded × List (Expanded × Text)) := do
  let declared := declarations tag.attributes
  if ¬ (declared.map (·.1)).Nodup ∨ ¬ declared.all fun (pre, ns) => legal pre ns then failure
  let inner := scope.declare declared
  let name ← inner.elementName tag.name
  let attributes ← (plain tag.attributes).mapM fun (name, value) => do return (← inner.attributeName name, value)
  if ¬ (attributes.map (·.1)).Nodup then failure
  return (inner, name, attributes)

section Names

variable {pre name : Text}

def declarationName (pre : Text) : Text :=
  if pre = [] then "xmlns".toList else "xmlns".toList ++ ':' :: pre

theorem declares_declarationName (pre : Text) : declares (declarationName pre) = some pre := by
  by_cases h : pre = []
  · rw [h]
    rfl
  · have hcolon : ':' ∉ "xmlns".toList := by decide
    rw [declarationName, if_neg h, declares, splitOnce_append _ pre hcolon]
    rfl

theorem undelimited_declarationName (h : Undelimited pre) : Undelimited (declarationName pre) := by
  have hxmlns : Undelimited "xmlns".toList := by decide
  unfold declarationName
  split
  · exact hxmlns
  · have hcolon : Undelimited [':'] := by decide
    exact hxmlns.append (hcolon.append h)

theorem declarationName_ne_nil (pre : Text) : declarationName pre ≠ [] := by
  unfold declarationName
  split
  · decide
  · exact fun h => absurd (List.append_eq_nil_iff.mp h).1 (by decide)

theorem qualified_local (hne : name ≠ []) (hcolon : ':' ∉ name) : qualified name = some ([], name) := by
  rw [qualified, splitOnce_eq_none hcolon]
  exact if_neg hne

theorem qualified_prefixed (hpre : pre ≠ []) (hcolon : ':' ∉ pre) (hne : name ≠ []) (hcolon' : ':' ∉ name) :
    qualified (pre ++ ':' :: name) = some (pre, name) := by
  rw [qualified, splitOnce_append pre name hcolon]
  exact if_neg (by simp [hpre, hne, hcolon'])

theorem declares_local (hcolon : ':' ∉ name) (h : name ≠ "xmlns".toList) : declares name = none := by
  rw [declares, splitOnce_eq_none hcolon]
  exact if_neg h

theorem declares_prefixed (hcolon : ':' ∉ pre) (h : pre ≠ "xmlns".toList) : declares (pre ++ ':' :: name) = none := by
  rw [declares, splitOnce_append pre name hcolon]
  exact if_neg h

theorem declarations_append (l' : List (Text × Text)) : declarations (l ++ l') = declarations l ++ declarations l' :=
  List.filterMap_append

theorem plain_append (l' : List (Text × Text)) : plain (l ++ l') = plain l ++ plain l' :=
  List.filter_append l l'

theorem declarations_declarationName : declarations (l.map fun b => (declarationName b.1, b.2)) = l := by
  induction l with
  | nil => rfl
  | cons b l ih =>
    rw [List.map_cons, declarations, List.filterMap_cons]
    simp only [declares_declarationName, Option.map_some]
    exact congrArg (b :: ·) ih

theorem plain_declarationName : plain (l.map fun b => (declarationName b.1, b.2)) = [] := by
  refine List.filter_eq_nil_iff.mpr fun a ha => ?_
  obtain ⟨b, -, rfl⟩ := List.mem_map.mp ha
  simp [declares_declarationName]

end Names

section Scopes

variable {scope : Scope} {declared : List (Text × Text)} {pre ns : Text}

theorem Scope.declare_of_mem (hnodup : (declared.map (·.1)).Nodup) (h : (pre, ns) ∈ declared) :
    scope.declare declared pre = some ns := by
  have hlookup : declared.lookup pre = some ns := by
    induction declared with
    | nil => cases h
    | cons b rest ih =>
      obtain ⟨hfirst, hrest⟩ := List.nodup_cons.mp hnodup
      rw [List.lookup_cons]
      rcases List.mem_cons.mp h with rfl | hmem
      · rw [beq_self_eq_true]
      · have hne : (pre == b.1) = false := by
          refine beq_eq_false_iff_ne.mpr ?_
          rintro rfl
          exact hfirst (List.mem_map.mpr ⟨_, hmem, rfl⟩)
        rw [hne]
        exact ih hrest hmem
  rw [Scope.declare, hlookup]
  rfl

theorem Scope.declare_of_not_mem (h : pre ∉ declared.map (·.1)) : scope.declare declared pre = scope pre := by
  have hlookup : declared.lookup pre = none := by
    rw [List.lookup_eq_none_iff]
    intro b hb
    refine bne_iff_ne.mpr ?_
    rintro rfl
    exact h (List.mem_map_of_mem hb)
  rw [Scope.declare, hlookup]
  rfl

theorem Scope.expand_eq {tag : Tag} {name : Expanded} {α : Type} {items : List α} {written : α → Text × Text}
    {meaning : α → Expanded × Text} (hdeclared : declarations tag.attributes = declared)
    (hnodup : (declared.map (·.1)).Nodup) (hlegal : ∀ b ∈ declared, legal b.1 b.2 = true)
    (hname : (scope.declare declared).elementName tag.name = some name)
    (hplain : plain tag.attributes = items.map written)
    (hitems : ∀ a ∈ items, (scope.declare declared).attributeName (written a).1 = some (meaning a).1 ∧
      (meaning a).2 = (written a).2)
    (hdistinct : (items.map fun a => (meaning a).1).Nodup) :
    scope.expand tag = some (scope.declare declared, name, items.map meaning) := by
  have hattributes : (items.map written).mapM
      (fun a => do return (← (scope.declare declared).attributeName a.1, a.2) : Text × Text → Option (Expanded × Text)) =
      some (items.map meaning) := by
    clear hplain hdistinct
    induction items with
    | nil => rfl
    | cons a items ih =>
      obtain ⟨hfirst, hvalue⟩ := hitems a List.mem_cons_self
      have hrest := ih fun b hb => hitems b (List.mem_cons_of_mem a hb)
      rw [List.map_cons, List.mapM_cons, hrest, hfirst, ← hvalue]
      rfl
  have hmeanings : ((items.map meaning).map (·.1)).Nodup := by rwa [List.map_map]
  have hrefused : ¬ (¬ (declared.map (·.1)).Nodup ∨ ¬ (declared.all fun b => legal b.1 b.2) = true) := by
    rw [List.all_eq_true]
    exact fun h => h.elim (fun h => h hnodup) (fun h => h hlegal)
  simp only [Scope.expand, hdeclared, hplain, hname, hattributes]
  rw [if_neg hrefused]
  simp only [Option.pure_def, Option.bind_eq_bind, Option.bind_some]
  rw [if_neg (not_not.mpr hmeanings)]

end Scopes

/-- The scope, and the open elements with their names and the scopes outside them. -/
structure Resolver where
  scope : Scope
  outer : List (Text × Scope)

def resolve (s : Resolver) : Token → Option (Resolver × List Event)
  | .char c => some (s, [.char c])
  | .start tag => do
      let (inner, name, attributes) ← s.scope.expand tag
      return (⟨inner, (tag.name, s.scope) :: s.outer⟩, [.start name attributes])
  | .finish ending =>
    match s.outer with
    | [] => none
    | (name, scope) :: outer => if ending.all (· = name) then some (⟨scope, outer⟩, [.finish]) else none

/-- The text, read from its first tag to the end of its last one. -/
def read (scope : Scope) (text : Text) : Option (List Event) := do
  let (scanner, tokens) ← run scan .content text
  let .content := scanner | failure
  let (resolver, events) ← run resolve ⟨scope, []⟩ tokens
  if resolver.outer ≠ [] then failure
  return events

/-- Both machines take a text to its events and are where they were. -/
def Reads (scope : Scope) (text : Text) (events : List Event) : Prop :=
  ∃ tokens, Runs scan .content text .content tokens ∧
    ∀ outer, Runs resolve ⟨scope, outer⟩ tokens ⟨scope, outer⟩ events

theorem Reads.nil (scope : Scope) : Reads scope [] [] := ⟨[], .nil _, fun _ => .nil _⟩

theorem Reads.append {scope : Scope} {t u : Text} {first second : List Event} (h : Reads scope t first)
    (h' : Reads scope u second) : Reads scope (t ++ u) (first ++ second) := by
  obtain ⟨tokens, hscan, hresolve⟩ := h
  obtain ⟨tokens', hscan', hresolve'⟩ := h'
  exact ⟨tokens ++ tokens', hscan.append hscan', fun outer => (hresolve outer).append (hresolve' outer)⟩

theorem Reads.flatMap {scope : Scope} {α : Type} {f : α → Text} {g : α → List Event} (l : List α)
    (h : ∀ a ∈ l, Reads scope (f a) (g a)) : Reads scope (l.flatMap f) (l.flatMap g) := by
  induction l with
  | nil => exact .nil scope
  | cons a l ih =>
    rw [List.flatMap_cons, List.flatMap_cons]
    exact (h a List.mem_cons_self).append (ih fun b hb => h b (List.mem_cons_of_mem a hb))

theorem Reads.char {scope : Scope} {raw : Text} {c : Char} (h : Runs scan .content raw .content [.char c]) :
    Reads scope raw [.char c] :=
  ⟨[.char c], h, fun _ => .single rfl⟩

section Elements

variable {scope inner : Scope} {s : Scanner} {tag : Tag} {name : Expanded} {attributes : List (Expanded × Text)}
  {start content : Text} {events : List Event}

theorem Reads.empty (hstart : Runs scan .content start s []) (htag : InTag s tag)
    (hexpand : scope.expand tag = some (inner, name, attributes)) :
    Reads scope (start ++ "/>".toList) [.start name attributes, .finish] := by
  have hslash : Runs scan s ['/'] (.emptyTag tag) [] := .single (htag.scan_eq (by decide))
  have hend : Runs scan (.emptyTag tag) ['>'] .content [.start tag, .finish none] := .single rfl
  refine ⟨[.start tag, .finish none], hstart.append (hslash.append hend), fun outer => ?_⟩
  have hfirst : Runs resolve ⟨scope, outer⟩ [.start tag] ⟨inner, (tag.name, scope) :: outer⟩
      [.start name attributes] := .single (by simp [resolve, hexpand])
  exact hfirst.append (.single rfl)

theorem Reads.element (hstart : Runs scan .content start s []) (htag : InTag s tag)
    (hexpand : scope.expand tag = some (inner, name, attributes)) (hcontent : Reads inner content events)
    (hne : tag.name ≠ []) (hname : Undelimited tag.name) :
    Reads scope (start ++ (">".toList ++ (content ++ ("</".toList ++ (tag.name ++ ">".toList)))))
      (.start name attributes :: (events ++ [.finish])) := by
  obtain ⟨tokens, hscan, hresolve⟩ := hcontent
  have hopen : Runs scan s ">".toList .content [.start tag] := .single (htag.scan_eq (by decide))
  have hless : Runs scan .content ['<'] .markup [] := .single rfl
  have hslash : Runs scan .markup ['/'] (.endName []) [] := .single rfl
  have hmarkup : Runs scan .content "</".toList (.endName []) [] := hless.append hslash
  have hclose : Runs scan (.endName tag.name) ['>'] .content [.finish (some tag.name)] :=
    .single (by rw [scan, if_pos rfl, if_neg hne])
  refine ⟨.start tag :: (tokens ++ [.finish (some tag.name)]), ?_, fun outer => ?_⟩
  · exact hstart.append (hopen.append (hscan.append (hmarkup.append ((runs_endName [] tag.name hname).append hclose))))
  · have hfirst : Runs resolve ⟨scope, outer⟩ [.start tag] ⟨inner, (tag.name, scope) :: outer⟩
        [.start name attributes] := .single (by simp [resolve, hexpand])
    have hlast : Runs resolve ⟨inner, (tag.name, scope) :: outer⟩ [.finish (some tag.name)] ⟨scope, outer⟩
        [.finish] := .single (by simp [resolve])
    exact hfirst.append ((hresolve ((tag.name, scope) :: outer)).append hlast)

end Elements

theorem Reads.read_eq {scope : Scope} {text : Text} {events : List Event} (h : Reads scope text events) :
    read scope text = some events := by
  obtain ⟨tokens, hscan, hresolve⟩ := h
  have hrun := hresolve []
  simp only [Runs] at hscan hrun
  simp [read, hscan, hrun]

/-! ### What the reader refuses -/

/-- Each prefix is declared once, none for the empty namespace, and `xml` only for its own. -/
structure Tag.Declares (tag : Tag) : Prop where
  once : ((declarations tag.attributes).map (·.1)).Nodup
  named : ∀ b ∈ declarations tag.attributes, b.1 ≠ [] → b.2 ≠ []
  xml : ∀ b ∈ declarations tag.attributes, b.1 = "xml".toList → b.2 = xmlName

/-- The text is read, and its tags are as Namespaces in XML has them. -/
structure ReadsAs (scope : Scope) (text : Text) (events : List Event) : Prop where
  read_eq : read scope text = some events
  tags : ∃ tokens, run scan .content text = some (.content, tokens) ∧ ∀ tag, .start tag ∈ tokens → tag.Declares
  distinct : ∀ name attributes, .start name attributes ∈ events → (attributes.map (·.1)).Nodup

theorem Scope.expand_spec {scope inner : Scope} {tag : Tag} {name : Expanded} {attributes : List (Expanded × Text)}
    (h : scope.expand tag = some (inner, name, attributes)) : tag.Declares ∧ (attributes.map (·.1)).Nodup := by
  simp only [Scope.expand] at h
  split at h
  · cases h
  next hlegal =>
    rw [not_or, not_not, not_not, List.all_eq_true] at hlegal
    simp only [Option.bind_eq_bind, Option.bind_eq_some_iff] at h
    obtain ⟨name', -, attributes', -, h⟩ := h
    split at h
    · cases h
    next hdistinct =>
      cases h
      refine ⟨⟨hlegal.1, fun b hb hne hempty => ?_, fun b hb hxml => ?_⟩, not_not.mp hdistinct⟩
      · have hb' := hlegal.2 b hb
        simp [legal, hne, hempty] at hb'
      · have hb' := hlegal.2 b hb
        simp only [legal, hxml, Bool.and_eq_true, beq_iff_eq, decide_true] at hb'
        exact of_decide_eq_true hb'.1.2.symm

variable {events : List Event}

theorem resolve_strict {tokens : List Token} {s s' : Resolver} (h : Runs resolve s tokens s' events) :
    (∀ tag, .start tag ∈ tokens → tag.Declares) ∧
      ∀ name attributes, .start name attributes ∈ events → (attributes.map (·.1)).Nodup := by
  induction tokens generalizing s events with
  | nil =>
    cases h
    exact ⟨fun _ hmem => (nomatch hmem), fun _ _ hmem => nomatch hmem⟩
  | cons token tokens ih =>
    simp only [Runs, run, Option.bind_eq_bind, Option.bind_eq_some_iff, Option.pure_def, Option.some.injEq,
      Prod.mk.injEq] at h
    obtain ⟨⟨next, first⟩, hfirst, ⟨last, rest⟩, hrest, rfl, rfl⟩ := h
    obtain ⟨htags, hdistinct⟩ := ih hrest
    cases token with
    | char c =>
      cases hfirst
      exact ⟨fun tag hmem => htags tag (by simpa using hmem), fun name attributes hmem =>
        hdistinct name attributes (by simpa using hmem)⟩
    | finish ending =>
      have hevents : first = [.finish] := by
        simp only [resolve] at hfirst
        split at hfirst
        · cases hfirst
        · split at hfirst
          · cases hfirst
            rfl
          · cases hfirst
      rw [hevents]
      exact ⟨fun tag hmem => htags tag (by simpa using hmem), fun name attributes hmem =>
        hdistinct name attributes (by simpa using hmem)⟩
    | start tag =>
      simp only [resolve, Option.bind_eq_bind, Option.bind_eq_some_iff, Option.pure_def, Option.some.injEq,
        Prod.mk.injEq] at hfirst
      obtain ⟨⟨inner, name, attributes⟩, hexpand, -, rfl⟩ := hfirst
      obtain ⟨hdeclares, hnodup⟩ := Scope.expand_spec hexpand
      refine ⟨fun tag' hmem => ?_, fun name' attributes' hmem => ?_⟩
      · rcases List.mem_cons.mp hmem with heq | hmem
        · cases heq
          exact hdeclares
        · exact htags tag' hmem
      · rcases List.mem_cons.mp hmem with heq | hmem
        · cases heq
          exact hnodup
        · exact hdistinct name' attributes' hmem

theorem Reads.readsAs {scope : Scope} {text : Text} (h : Reads scope text events) : ReadsAs scope text events := by
  have hread := h.read_eq
  obtain ⟨tokens, hscan, hresolve⟩ := h
  obtain ⟨htags, hdistinct⟩ := resolve_strict (hresolve [])
  exact ⟨hread, ⟨tokens, hscan, htags⟩, hdistinct⟩

end XmlReading
