import Lonewolf.Xmpp.Stanza

/-!
# The asynchronous writer

`write_xml_async` writes a tree with a stack of its own instead of by recursion, and bytes instead of characters.
Each of its parts writes the bytes of what the recursive writer writes, and a run of the stack over some children
leaves the frame that they belong to at the child after them.
-/

namespace Lonewolf.Xmpp

open Texts Text Decimals

/-! ### The parts -/

/-- The loop of `escape_async`; nothing is written for an empty slice. -/
def escapeAsyncFrom (inAttribute : Bool) (pending : Text) : Text → Bytes
  | [] => if pending.isEmpty then [] else utf8 pending
  | c :: text =>
    match escapeReplacement c inAttribute with
    | none => escapeAsyncFrom inAttribute (pending ++ [c]) text
    | some replacement =>
      (if pending.isEmpty then [] else utf8 pending) ++ (utf8 replacement ++ escapeAsyncFrom inAttribute [] text)

def escapeAsync (text : Text) (inAttribute : Bool) : Bytes := escapeAsyncFrom inAttribute [] text

/-- The loop of `number_async`: the digits are put in front of one another. -/
def numberFrom : Nat → Nat → Bytes → Bytes
  | 0, _, digits => digits
  | fuel + 1, number, digits =>
    let digits := UInt8.ofNat ('0'.toNat + number % 10) :: digits
    if number / 10 = 0 then digits else numberFrom fuel (number / 10) digits

def numberAsync (number : Nat) : Bytes := numberFrom (number + 1) number []

def attributeAsync (name value : Text) : Bytes :=
  utf8 " ".toList ++ (utf8 name ++ (utf8 "=\"".toList ++ (escapeAsync value true ++ utf8 "\"".toList)))

def NamePrefix.writeAsync : NamePrefix → Bytes
  | .default => []
  | .named pre => utf8 pre ++ utf8 ":".toList
  | .generated index => utf8 "ns".toList ++ (numberAsync index ++ utf8 ":".toList)

namespace NamespaceContext

def writeBindingAsync (pre ns : Text) : Bytes :=
  utf8 " xmlns".toList ++ ((if pre.isEmpty then [] else utf8 ":".toList ++ utf8 pre) ++
    (utf8 "=\"".toList ++ (escapeAsync ns true ++ utf8 "\"".toList)))

def writeGeneratedAsync (index : Nat) (ns : Text) : Bytes :=
  utf8 " xmlns:ns".toList ++ (numberAsync index ++ (utf8 "=\"".toList ++ (escapeAsync ns true ++ utf8 "\"".toList)))

def writeAsync (self : NamespaceContext) (elementPrefix : NamePrefix) (ns : Text) (parentNamespace : Option Text)
    (parentContext : Option NamespaceContext) : Bytes :=
  (self.changedBindings parentContext).flatMap (fun (pre, ns) => writeBindingAsync pre ns) ++
    match elementPrefix with
    | .generated index => writeGeneratedAsync index ns
    | .default =>
      if self = .empty ∧ some ns ≠ parentNamespace then attributeAsync "xmlns".toList ns else []
    | .named pre =>
      if pre = "stream".toList ∧ self = .empty then attributeAsync "xmlns:stream".toList streamNamespace else []

end NamespaceContext

def NamePrefix.writeDeclarationAsync (pre : NamePrefix) (ns : Text) : Bytes :=
  match pre with
  | .generated index => NamespaceContext.writeGeneratedAsync index ns
  | _ => []

/-- The loop of `write_attributes_async`. -/
def writeAttributesAsyncFrom (namespaces : NamespaceContext) : Nat → Nat → List Attribute → Bytes
  | _, _, [] => []
  | generated, index, value :: values =>
    let (pre, next) := namespaces.attributePrefix value.ns (max generated index)
    pre.writeDeclarationAsync value.ns ++
      (utf8 " ".toList ++ (pre.writeAsync ++ (utf8 value.name ++ (utf8 "=\"".toList ++
        (escapeAsync value.value true ++ (utf8 "\"".toList ++
          writeAttributesAsyncFrom namespaces next (index + 1) values))))))

def writeAttributesAsync (attributes : List Attribute) (namespaces : NamespaceContext)
    (elementPrefix : NamePrefix) : Bytes :=
  writeAttributesAsyncFrom namespaces elementPrefix.nextGenerated 0 attributes

/-- `write_start_async`: what is written, and the default namespace of the children when there are any. -/
def writeStartAsync (element : Element) (parentNamespace : Option Text)
    (parentContext : Option NamespaceContext) : Bytes × Option (Option Text) :=
  let data := element.data
  let pre := data.namespaces.elementPrefix data.ns
  let start := utf8 "<".toList ++ (pre.writeAsync ++ (utf8 data.name ++
    (data.namespaces.writeAsync pre data.ns parentNamespace parentContext ++
      writeAttributesAsync data.attributes data.namespaces pre)))
  if element.children.isEmpty then (start ++ utf8 "/>".toList, none)
  else (start ++ utf8 ">".toList, some (data.namespaces.childDefault pre data.ns parentNamespace))

def writeEndAsync (element : Element) : Bytes :=
  utf8 "</".toList ++ ((element.data.namespaces.elementPrefix element.data.ns).writeAsync ++
    (utf8 element.data.name ++ utf8 ">".toList))

/-! ### The stack -/

inductive Node where
  | element (element : Element)
  | text (text : Text)

/-- `children.get(index)`. -/
def Nodes.get? : Nodes → Nat → Option Node
  | .nil, _ => none
  | .text t rest, index => if index = 0 then some (.text t) else rest.get? (index - 1)
  | .element data children rest, index =>
    if index = 0 then some (.element ⟨data, children⟩) else rest.get? (index - 1)

structure WriteFrame where
  element : Element
  ns : Option Text
  namespaces : NamespaceContext
  nextChild : Nat

/-- The frames of `write_in_async`, the last one first, and what was written. -/
structure AsyncWriter where
  frames : List WriteFrame
  output : Bytes

/-- The frame that is pushed for an element with children. -/
def pushFrame (element : Element) (ns : Option (Option Text)) (frames : List WriteFrame) : List WriteFrame :=
  match ns with
  | some ns => ⟨element, ns, element.data.namespaces, 0⟩ :: frames
  | none => frames

/-- One turn of the loop; there is none without a frame. -/
def AsyncWriter.step (writer : AsyncWriter) : AsyncWriter :=
  match writer.frames with
  | [] => writer
  | frame :: frames =>
    match frame.element.children.get? frame.nextChild with
    | some (.element child) =>
      let (bytes, ns) := writeStartAsync child frame.ns (some frame.namespaces)
      ⟨pushFrame child ns ({ frame with nextChild := frame.nextChild + 1 } :: frames), writer.output ++ bytes⟩
    | some (.text t) =>
      ⟨{ frame with nextChild := frame.nextChild + 1 } :: frames, writer.output ++ escapeAsync t false⟩
    | none => ⟨frames, writer.output ++ writeEndAsync frame.element⟩

def AsyncWriter.run : Nat → AsyncWriter → AsyncWriter
  | 0, writer => writer
  | turns + 1, writer => AsyncWriter.run turns writer.step

/-- The turns of the loop for some children. -/
def Nodes.turns : Nodes → Nat
  | .nil => 0
  | .text _ rest => rest.turns + 1
  | .element _ children rest => (if children.isEmpty then 1 else children.turns + 2) + rest.turns

/-- `write_in_async`: what is written when the loop ends, which it does without a frame. -/
def Element.writeInAsync (element : Element) (parentNamespace : Option Text)
    (parentContext : Option NamespaceContext) : Option Bytes :=
  let (bytes, ns) := writeStartAsync element parentNamespace parentContext
  let writer := AsyncWriter.run (element.children.turns + 1) ⟨pushFrame element ns [], bytes⟩
  if writer.frames.isEmpty then some writer.output else none

def Element.writeXmlAsync (element : Element) : Option Bytes := element.writeInAsync none none

namespace Stanza

def writeHeaderAsync (stanza : Stanza) : Bytes :=
  ((stanza.header.fromJid.map fun jid => attributeAsync "from".toList jid.resolve.text).getD []) ++
    (((stanza.header.toJid.map fun jid => attributeAsync "to".toList jid.resolve.text).getD []) ++
    (((stanza.header.id.map (attributeAsync "id".toList)).getD []) ++
    (((stanza.serializedType.map (attributeAsync "type".toList)).getD []) ++
    ((stanza.header.lang.map (attributeAsync "xml:lang".toList)).getD []))))

def writeChildrenAsync (ns : Option Text) (namespaces : NamespaceContext) : List Element → Option Bytes
  | [] => some []
  | child :: rest => do
      let bytes ← child.writeInAsync ns (some namespaces)
      return bytes ++ (← writeChildrenAsync ns namespaces rest)

def writeXmlAsync (stanza : Stanza) : Option Bytes := do
  let name := stanza.header.stanzaType.kind.asStr
  let ns := stanza.header.ns.asStr
  let pre := stanza.elementPrefix
  let start := utf8 "<".toList ++ (pre.writeAsync ++ (utf8 name ++ (stanza.namespaces.writeAsync pre ns none none ++
    (stanza.writeHeaderAsync ++ writeAttributesAsync stanza.attributes stanza.namespaces pre))))
  if stanza.children.isEmpty then return start ++ utf8 "/>".toList
  else
    let children ← writeChildrenAsync (stanza.namespaces.childDefault pre ns none) stanza.namespaces stanza.children
    return start ++ (utf8 ">".toList ++ (children ++ (utf8 "</".toList ++ (pre.writeAsync ++ (utf8 name ++ utf8 ">".toList)))))

end Stanza

/-! ### The same bytes, part by part -/

theorem utf8_append (t u : Text) : utf8 (t ++ u) = utf8 t ++ utf8 u := by
  simp [utf8]

theorem utf8_cons (c : Char) (t : Text) : utf8 (c :: t) = utf8 [c] ++ utf8 t := by
  simp [utf8]

theorem utf8_flatMap {α : Type} (f : α → Text) (l : List α) : utf8 (l.flatMap f) = l.flatMap fun a => utf8 (f a) := by
  simp [utf8, List.flatMap_assoc]

theorem utf8_if_empty (pending : Text) : (if pending.isEmpty then [] else utf8 pending) = utf8 pending := by
  cases pending <;> rfl

theorem escapeAsyncFrom_eq (inAttribute : Bool) (pending text : Text) :
    escapeAsyncFrom inAttribute pending text = utf8 (escapeFrom inAttribute pending text) := by
  induction text generalizing pending with
  | nil => exact utf8_if_empty pending
  | cons c text ih =>
    unfold escapeAsyncFrom escapeFrom
    cases escapeReplacement c inAttribute with
    | none => exact ih (pending ++ [c])
    | some replacement => simp only [ih, utf8_if_empty, utf8_append, List.append_assoc]

theorem escapeAsync_eq (text : Text) (inAttribute : Bool) :
    escapeAsync text inAttribute = utf8 (escape text inAttribute) :=
  escapeAsyncFrom_eq inAttribute [] text

theorem utf8_digitChar {d : Nat} (h : d < 10) : utf8 [d.digitChar] = [UInt8.ofNat ('0'.toNat + d)] := by
  revert d
  decide

theorem numberFrom_eq (fuel number : Nat) (digits : Text) :
    numberFrom fuel number (utf8 digits) = utf8 (Nat.toDigitsCore 10 fuel number digits) := by
  induction fuel generalizing number digits with
  | zero => rfl
  | succ fuel ih =>
    have hdigit := utf8_digitChar (Nat.mod_lt number (by decide : 0 < 10))
    have hcons : UInt8.ofNat ('0'.toNat + number % 10) :: utf8 digits = utf8 ((number % 10).digitChar :: digits) := by
      rw [utf8_cons, hdigit, List.singleton_append]
    unfold numberFrom Nat.toDigitsCore
    rw [hcons]
    by_cases hzero : number / 10 = 0
    · simp only [hzero, if_pos]
    · simp only [hzero, if_neg, not_false_eq_true, ih]

theorem numberAsync_eq (number : Nat) : numberAsync number = utf8 (decimal number) :=
  numberFrom_eq (number + 1) number []

theorem length_numberFrom (fuel e number : Nat) (digits : Bytes) (h : number < 10 ^ (e + 1)) :
    (numberFrom fuel number digits).length ≤ digits.length + (e + 1) := by
  induction fuel generalizing number e digits with
  | zero => exact Nat.le_add_right _ _
  | succ fuel ih =>
    unfold numberFrom
    by_cases hzero : number / 10 = 0
    · simp only [hzero, if_pos, List.length_cons]
      omega
    · simp only [hzero, if_neg, not_false_eq_true]
      -- A number with another digit in front of its last one is not below ten.
      cases e with
      | zero => exact absurd (Nat.div_eq_of_lt (by simpa using h)) hzero
      | succ e =>
        have hnext : number / 10 < 10 ^ (e + 1) := by
          rw [Nat.div_lt_iff_lt_mul (by decide), ← Nat.pow_succ]
          exact h
        have hlen := ih e (number / 10) (UInt8.ofNat ('0'.toNat + number % 10) :: digits) hnext
        rw [List.length_cons] at hlen
        omega

theorem length_numberAsync {number : Nat} (h : number < 2 ^ 64) : (numberAsync number).length ≤ 20 :=
  length_numberFrom (number + 1) 19 number [] (lt_trans h (by decide))

theorem attributeAsync_eq (name value : Text) : attributeAsync name value = utf8 (writeAttribute name value) := by
  rw [attributeAsync, writeAttribute, utf8_append, utf8_append, utf8_append, utf8_append, escapeAsync_eq]

theorem writeAsync_eq (pre : NamePrefix) : pre.writeAsync = utf8 pre.write := by
  cases pre with
  | default => rfl
  | named pre => exact (utf8_append pre ":".toList).symm
  | generated index =>
    rw [NamePrefix.writeAsync, NamePrefix.write, generatedName, numberAsync_eq, utf8_append, utf8_append,
      List.append_assoc]

namespace NamespaceContext

theorem writeBindingAsync_eq (pre ns : Text) : writeBindingAsync pre ns = utf8 (writeBinding pre ns) := by
  have hpre : (if pre.isEmpty then [] else utf8 ":".toList ++ utf8 pre) =
      utf8 (if pre.isEmpty then [] else ":".toList ++ pre) := by
    cases pre with
    | nil => rfl
    | cons c pre => exact (utf8_append ":".toList (c :: pre)).symm
  rw [writeBindingAsync, writeBinding, hpre, utf8_append, utf8_append, utf8_append, utf8_append, escapeAsync_eq]

theorem writeGeneratedAsync_eq (index : Nat) (ns : Text) :
    writeGeneratedAsync index ns = utf8 (writeGenerated index ns) := by
  have htext : " xmlns:ns".toList = " xmlns:".toList ++ "ns".toList := by decide
  have hstart : utf8 " xmlns:ns".toList = utf8 " xmlns:".toList ++ utf8 "ns".toList := by
    rw [htext, utf8_append]
  unfold writeGeneratedAsync writeGenerated generatedName
  simp only [hstart, utf8_append, numberAsync_eq, escapeAsync_eq, List.append_assoc]

theorem writeAsync_eq (self : NamespaceContext) (elementPrefix : NamePrefix) (ns : Text)
    (parentNamespace : Option Text) (parentContext : Option NamespaceContext) :
    self.writeAsync elementPrefix ns parentNamespace parentContext =
      utf8 (self.write elementPrefix ns parentNamespace parentContext) := by
  unfold NamespaceContext.writeAsync NamespaceContext.write
  rw [utf8_append, utf8_flatMap]
  congr 1
  · apply List.flatMap_congr
    intro binding _
    exact writeBindingAsync_eq binding.1 binding.2
  · cases elementPrefix with
    | generated index => exact writeGeneratedAsync_eq index ns
    | default =>
      simp only [attributeAsync_eq]
      split <;> rfl
    | named pre =>
      simp only [attributeAsync_eq]
      split <;> rfl

end NamespaceContext

theorem writeDeclarationAsync_eq (pre : NamePrefix) (ns : Text) :
    pre.writeDeclarationAsync ns = utf8 (pre.writeDeclaration ns) := by
  cases pre with
  | generated index => exact NamespaceContext.writeGeneratedAsync_eq index ns
  | default => rfl
  | named pre => rfl

theorem writeAttributesAsyncFrom_eq (namespaces : NamespaceContext) (generated index : Nat)
    (attributes : List Attribute) :
    writeAttributesAsyncFrom namespaces generated index attributes =
      utf8 (writeAttributesFrom namespaces generated index attributes) := by
  induction attributes generalizing generated index with
  | nil => rfl
  | cons value values ih =>
    obtain ⟨⟨pre, next⟩, hpre⟩ : ∃ p, namespaces.attributePrefix value.ns (max generated index) = p := ⟨_, rfl⟩
    simp only [writeAttributesAsyncFrom, writeAttributesFrom, hpre]
    rw [writeDeclarationAsync_eq, ih, utf8_append, utf8_append, utf8_append, utf8_append, utf8_append, utf8_append,
      utf8_append, writeAsync_eq, escapeAsync_eq]

theorem writeAttributesAsync_eq (attributes : List Attribute) (namespaces : NamespaceContext)
    (elementPrefix : NamePrefix) :
    writeAttributesAsync attributes namespaces elementPrefix =
      utf8 (writeAttributes attributes namespaces elementPrefix) :=
  writeAttributesAsyncFrom_eq namespaces elementPrefix.nextGenerated 0 attributes

theorem writeStartAsync_eq (element : Element) (parentNamespace : Option Text)
    (parentContext : Option NamespaceContext) :
    writeStartAsync element parentNamespace parentContext =
      if element.children.isEmpty then
        (utf8 (element.data.writeStart parentNamespace parentContext ++ "/>".toList), none)
      else (utf8 (element.data.writeStart parentNamespace parentContext ++ ">".toList),
        some (element.data.childDefault parentNamespace)) := by
  have hstart : utf8 (element.data.writeStart parentNamespace parentContext) =
      utf8 "<".toList ++ ((element.data.namespaces.elementPrefix element.data.ns).writeAsync ++ (utf8 element.data.name ++
        (element.data.namespaces.writeAsync (element.data.namespaces.elementPrefix element.data.ns) element.data.ns
          parentNamespace parentContext ++
        writeAttributesAsync element.data.attributes element.data.namespaces
          (element.data.namespaces.elementPrefix element.data.ns)))) := by
    rw [ElementData.writeStart, utf8_append, utf8_append, utf8_append, utf8_append, writeAsync_eq,
      NamespaceContext.writeAsync_eq, writeAttributesAsync_eq]
    rfl
  rw [utf8_append, utf8_append, hstart]
  rfl

theorem writeEndAsync_eq (element : Element) : writeEndAsync element = utf8 element.data.writeEnd := by
  rw [writeEndAsync, ElementData.writeEnd, utf8_append, utf8_append, utf8_append, writeAsync_eq]
  rfl

/-! ### A run of the stack -/

namespace Nodes

def length : Nodes → Nat
  | .nil => 0
  | .text _ rest => rest.length + 1
  | .element _ _ rest => rest.length + 1

theorem get?_append (before nodes : Nodes) : (before.append nodes).get? before.length = nodes.get? 0 := by
  induction before with
  | nil => rfl
  | text t rest ih => simpa [append, length, get?] using ih
  | element data children rest _ ih => simpa [append, length, get?] using ih

theorem append_nil (nodes : Nodes) : nodes.append .nil = nodes := by
  induction nodes with
  | nil => rfl
  | text t rest ih => rw [append, ih]
  | element data children rest _ ih => rw [append, ih]

theorem append_assoc (a b c : Nodes) : (a.append b).append c = a.append (b.append c) := by
  induction a with
  | nil => rfl
  | text t rest ih => rw [append, append, append, ih]
  | element data children rest _ ih => rw [append, append, append, ih]

theorem length_append (a b : Nodes) : (a.append b).length = a.length + b.length := by
  induction a with
  | nil => exact (Nat.zero_add _).symm
  | text t rest ih =>
    rw [append, length, length, ih]
    omega
  | element data children rest _ ih =>
    rw [append, length, length, ih]
    omega

end Nodes

namespace AsyncWriter

theorem run_add (m n : Nat) (writer : AsyncWriter) : run (m + n) writer = run n (run m writer) := by
  induction m generalizing writer with
  | zero => rw [Nat.zero_add, run]
  | succ m ih => rw [Nat.succ_add, run, ih, run]

/-- The frame of an element whose children are some that are written and some that are not. -/
def frameAt (data : ElementData) (before after : Nodes) (ns : Option Text) (namespaces : NamespaceContext) :
    WriteFrame :=
  ⟨⟨data, before.append after⟩, ns, namespaces, before.length⟩

section Turns

variable (data : ElementData) (before rest : Nodes) (ns : Option Text) (namespaces : NamespaceContext)
  (frames : List WriteFrame) (output : Bytes)

theorem frameAt_next (node : Nodes) (hone : node.length = 1) :
    { frameAt data before (node.append rest) ns namespaces with nextChild := before.length + 1 } =
      frameAt data (before.append node) rest ns namespaces := by
  rw [frameAt, frameAt, Nodes.append_assoc, Nodes.length_append, hone]

theorem step_text (t : Text) :
    step ⟨frameAt data before (.text t rest) ns namespaces :: frames, output⟩ =
      ⟨frameAt data (before.append (.text t .nil)) rest ns namespaces :: frames, output ++ utf8 (escape t false)⟩ := by
  rw [← frameAt_next data before rest ns namespaces (.text t .nil) rfl]
  simp only [step, frameAt, Nodes.append, Nodes.get?_append, Nodes.get?, if_pos, escapeAsync_eq]

theorem step_element (child : ElementData) (children : Nodes) :
    step ⟨frameAt data before (.element child children rest) ns namespaces :: frames, output⟩ =
      let parent := frameAt data (before.append (.element child children .nil)) rest ns namespaces
      if children.isEmpty then
        ⟨parent :: frames, output ++ utf8 (child.writeStart ns (some namespaces) ++ "/>".toList)⟩
      else
        ⟨frameAt child .nil children (child.childDefault ns) child.namespaces :: parent :: frames,
          output ++ utf8 (child.writeStart ns (some namespaces) ++ ">".toList)⟩ := by
  rw [← frameAt_next data before rest ns namespaces (.element child children .nil) rfl]
  simp only [step, frameAt, Nodes.append, Nodes.get?_append, Nodes.get?, if_pos, writeStartAsync_eq]
  cases children.isEmpty <;> rfl

theorem step_end :
    step ⟨frameAt data before .nil ns namespaces :: frames, output⟩ = ⟨frames, output ++ utf8 data.writeEnd⟩ := by
  simp only [step, frameAt, Nodes.get?_append, Nodes.get?, writeEndAsync_eq]

/-- The turns over the children that are not written write these. -/
theorem run_nodes (nodes : Nodes) :
    run nodes.turns ⟨frameAt data before nodes ns namespaces :: frames, output⟩ =
      ⟨frameAt data (before.append nodes) .nil ns namespaces :: frames,
        output ++ utf8 (nodes.writeIn ns (some namespaces))⟩ := by
  induction nodes generalizing before data ns namespaces frames output with
  | nil => simp [Nodes.turns, run, Nodes.writeIn, utf8, Nodes.append_nil]
  | text t rest ih =>
    rw [Nodes.turns, run, step_text, ih, Nodes.append_assoc, Nodes.writeIn, utf8_append, List.append_assoc]
    rfl
  | element child children rest ihchildren ih =>
    have hnodes : (before.append (.element child children .nil)).append rest =
        before.append (.element child children rest) := Nodes.append_assoc ..
    rw [Nodes.turns, Nodes.writeIn, utf8_append]
    cases hempty : children.isEmpty with
    | true =>
      rw [if_pos rfl, if_pos rfl, Nat.add_comm, run, step_element, if_pos hempty, ih, hnodes, List.append_assoc]
    | false =>
      -- One turn pushes the frame of the child, its children follow, and one more turn ends it.
      rw [if_neg (by decide), if_neg (by decide), show children.turns + 2 + rest.turns =
        children.turns + (1 + rest.turns) + 1 by omega, run, step_element, if_neg (by rw [hempty]; decide), run_add,
        ihchildren, run_add, run, run, step_end, ih, hnodes]
      simp only [utf8_append, List.append_assoc]

end Turns

end AsyncWriter

theorem writeInAsync_eq (element : Element) (parentNamespace : Option Text) (parentContext : Option NamespaceContext) :
    element.writeInAsync parentNamespace parentContext = some (utf8 (element.writeIn parentNamespace parentContext)) := by
  obtain ⟨data, children⟩ := element
  have htext : Element.writeIn ⟨data, children⟩ parentNamespace parentContext =
      data.writeStart parentNamespace parentContext ++
        if children.isEmpty then "/>".toList
        else ">".toList ++ (children.writeIn (data.childDefault parentNamespace) (some data.namespaces) ++
          data.writeEnd) := by
    rw [Element.writeIn, Nodes.writeIn, Nodes.writeIn, List.append_nil]
  simp only [Element.writeInAsync, writeStartAsync_eq, htext]
  cases hempty : children.isEmpty with
  | true =>
    have hidle : ∀ turns output, AsyncWriter.run turns ⟨[], output⟩ = ⟨[], output⟩ := by
      intro turns output
      induction turns with
      | zero => rfl
      | succ turns ih => exact ih
    simp only [if_true, pushFrame, hidle, List.isEmpty_nil]
  | false =>
    have hrun : AsyncWriter.run children.turns
        ⟨[⟨⟨data, children⟩, data.childDefault parentNamespace, data.namespaces, 0⟩], _⟩ = _ :=
      AsyncWriter.run_nodes data .nil (data.childDefault parentNamespace) data.namespaces []
        (utf8 (data.writeStart parentNamespace parentContext ++ ">".toList)) children
    simp only [Bool.false_eq_true, if_false, pushFrame]
    rw [AsyncWriter.run_add, hrun, AsyncWriter.run, AsyncWriter.run, AsyncWriter.step_end]
    simp only [List.isEmpty_nil, if_true, utf8_append, List.append_assoc]

theorem writeChildrenAsync_eq (ns : Option Text) (namespaces : NamespaceContext) (children : List Element) :
    Stanza.writeChildrenAsync ns namespaces children =
      some (utf8 (children.flatMap fun child => child.writeIn ns (some namespaces))) := by
  induction children with
  | nil => rfl
  | cons child rest ih =>
    rw [Stanza.writeChildrenAsync, writeInAsync_eq, ih, List.flatMap_cons, utf8_append]
    rfl

theorem writeHeaderAsync_eq (stanza : Stanza) : stanza.writeHeaderAsync = utf8 stanza.writeHeader := by
  have hoption : ∀ {α : Type} (o : Option α) (f : α → Text), (o.map fun a => utf8 (f a)).getD [] = utf8 ((o.map f).getD []) := by
    intro α o f
    cases o <;> rfl
  have hvalue : ∀ (name : Text) (o : Option Text),
      (o.map (attributeAsync name)).getD [] = utf8 ((o.map (writeAttribute name)).getD []) := by
    intro name o
    cases o with
    | none => rfl
    | some value => exact attributeAsync_eq name value
  simp only [Stanza.writeHeaderAsync, Stanza.writeHeader, utf8_append, hvalue, attributeAsync_eq, hoption]

/-- The asynchronous writer ends, with no frame left, and has written the bytes of the recursive one: for every
element under every inherited context, and for every stanza. Its numbers fit their buffer. -/
theorem async_writer_equals_recursive :
    (∀ (element : Element) (parentNamespace : Option Text) (parentContext : Option NamespaceContext),
      element.writeInAsync parentNamespace parentContext =
        some (utf8 (element.writeIn parentNamespace parentContext))) ∧
    (∀ element : Element, element.writeXmlAsync = some (utf8 element.writeXml)) ∧
    (∀ stanza : Stanza, stanza.writeXmlAsync = some (utf8 stanza.writeXml)) ∧
    ∀ number < 2 ^ 64, (numberAsync number).length ≤ 20 := by
  refine ⟨writeInAsync_eq, fun element => writeInAsync_eq element none none, fun stanza => ?_,
    fun number h => length_numberAsync h⟩
  unfold Stanza.writeXmlAsync Stanza.writeXml
  simp only [writeAsync_eq, NamespaceContext.writeAsync_eq, writeHeaderAsync_eq, writeAttributesAsync_eq,
    writeChildrenAsync_eq]
  cases hempty : stanza.children.isEmpty with
  | true => simp only [if_true, utf8_append, List.append_assoc, pure]
  | false =>
    simp only [Bool.false_eq_true, if_false, utf8_append, List.append_assoc, pure, bind, Option.bind]

def sampleElement : Element :=
  ⟨⟨"body".toList, "urn:x".toList, .empty, [⟨"n".toList, "urn:a".toList, "1 & 2".toList⟩]⟩, .text "<hi>".toList .nil⟩

theorem async_writer_equals_recursive_sample :
    sampleElement.writeXml =
      "<body xmlns=\"urn:x\" xmlns:ns0=\"urn:a\" ns0:n=\"1 &amp; 2\">&lt;hi&gt;</body>".toList ∧
    sampleElement.writeXmlAsync = some (utf8 sampleElement.writeXml) :=
  ⟨by decide +kernel, async_writer_equals_recursive.2.1 sampleElement⟩

end Lonewolf.Xmpp
