import Lonewolf.Base.Decimal
import Lonewolf.Xmpp.Xml

/-!
# Namespace contexts

`stanza/namespace.rs`: the bindings of prefixes that an element was parsed with, as a list that shares its
tails, and the prefixes that are chosen when the element is written. A binding has the address at which its
arena holds it, since the code compares bindings by address.
-/

namespace Lonewolf.Xmpp

open Texts Text Decimals

/-- `NamespaceContext`: no binding, or a handle of a binding with its parent. -/
inductive NamespaceContext where
  | empty
  | bind (address : Nat) (parent : NamespaceContext) (pre ns : Text)
  deriving DecidableEq

/-- A binding that was looked up. -/
structure Binding where
  address : Nat
  pre : Text
  ns : Text

/-- `Prefix`. -/
inductive NamePrefix where
  | default
  | named (pre : Text)
  | generated (index : Nat)
  deriving DecidableEq

def generatedName (index : Nat) : Text := "ns".toList ++ decimal index

def NamePrefix.write : NamePrefix → Text
  | .default => []
  | .named pre => pre ++ ":".toList
  | .generated index => generatedName index ++ ":".toList

/-- `suffix.parse::<usize>() == Ok(index)`, for the text after `ns`. A number above `index` is not told from
an overflow. -/
def occupies (index : Nat) (pre : Text) : Bool :=
  match pre with
  | 'n' :: 's' :: suffix => readUnsigned (index + 1) suffix = some index && byteLen suffix = Nat.log 10 index + 1
  | _ => false

namespace NamespaceContext

def binding (pre : Text) : NamespaceContext → Option Binding
  | .empty => none
  | .bind address parent pre' ns => if pre' = pre then some ⟨address, pre', ns⟩ else binding pre parent

variable (self : NamespaceContext)

/-- The loop of `bindings`: the bindings of `self` that no other binding of their prefix hides. -/
def bindingsFrom (self : NamespaceContext) : NamespaceContext → List (Text × Text)
  | .empty => []
  | .bind address parent pre ns =>
    if (self.binding pre).any (·.address = address) then (pre, ns) :: bindingsFrom self parent
    else bindingsFrom self parent

def bindings : List (Text × Text) := bindingsFrom self self

def resolve (pre : Text) : Option Text := (self.binding pre).map (·.ns)

/-- Both contexts are the handle of the same binding. -/
def sameHandle : NamespaceContext → Option NamespaceContext → Bool
  | .bind address .., some (.bind address' ..) => address = address'
  | _, _ => false

def changedBindings (parent : Option NamespaceContext) : List (Text × Text) :=
  let bindings := if sameHandle self parent then .empty else self
  bindings.bindings.filter fun (pre, ns) => parent.bind (·.resolve pre) ≠ some ns

def namedPrefix (ns : Text) : Option Text :=
  (self.bindings.find? fun (pre, value) => !pre.isEmpty && value = ns).map (·.1)

/-- The loop of `generated`; there are no more prefixes to pass than bindings. -/
def generatedFrom (self : NamespaceContext) : Nat → Nat → Nat
  | 0, index => index
  | fuel + 1, index =>
    if self.bindings.any fun (pre, _) => occupies index pre then generatedFrom self fuel (index + 1) else index

def generated (index : Nat) : Nat := generatedFrom self self.bindings.length index

def elementPrefix (ns : Text) : NamePrefix :=
  if ns = xmlNamespace then .named "xml".toList
  else if self = .empty then if ns = streamNamespace then .named "stream".toList else .default
  else if (self.resolve []).getD [] = ns then .default
  else match self.namedPrefix ns with
    | some pre => .named pre
    | none => .generated (self.generated 0)

/-- The prefix of an attribute, and the index that the next one is generated from. -/
def attributePrefix (ns : Text) (index : Nat) : NamePrefix × Nat :=
  if ns.isEmpty then (.default, index)
  else if ns = xmlNamespace then (.named "xml".toList, index)
  else match self.namedPrefix ns with
    | some pre => (.named pre, index)
    | none => (.generated (self.generated index), self.generated index + 1)

def writeBinding (pre ns : Text) : Text :=
  " xmlns".toList ++ ((if pre.isEmpty then [] else ":".toList ++ pre) ++ ("=\"".toList ++ (escape ns true ++ "\"".toList)))

def writeGenerated (index : Nat) (ns : Text) : Text :=
  " xmlns:".toList ++ (generatedName index ++ ("=\"".toList ++ (escape ns true ++ "\"".toList)))

def write (elementPrefix : NamePrefix) (ns : Text) (parentNamespace : Option Text)
    (parentContext : Option NamespaceContext) : Text :=
  (self.changedBindings parentContext).flatMap (fun (pre, ns) => writeBinding pre ns) ++
    match elementPrefix with
    | .generated index => writeGenerated index ns
    | .default =>
      if self = .empty ∧ some ns ≠ parentNamespace then writeAttribute "xmlns".toList ns else []
    | .named pre =>
      if pre = "stream".toList ∧ self = .empty then writeAttribute "xmlns:stream".toList streamNamespace else []

def childDefault (pre : NamePrefix) (ns : Text) (parentNamespace : Option Text) : Option Text :=
  match self.resolve [] with
  | some ns => some ns
  | none => if pre = .default then some ns else parentNamespace

end NamespaceContext

/-! ### The arena of the bindings -/

/-- The bindings that an arena holds, each at its address. -/
structure Arena where
  bindings : List NamespaceContext

def Arena.bind (arena : Arena) (context : NamespaceContext) (pre ns : Text) : NamespaceContext × Arena :=
  let binding := .bind arena.bindings.length context pre ns
  (binding, ⟨arena.bindings ++ [binding]⟩)

/-- `NamespaceCopies`: the copies of the bindings at some addresses of another arena. -/
abbrev NamespaceCopies := List (Nat × NamespaceContext)

/-- What a default namespace becomes. -/
def rescopeNamespace (rescope : Option (Text × Text)) (pre ns : Text) : Text :=
  match rescope with
  | some (source, target) => if pre.isEmpty && ns = source then target else ns
  | none => ns

/-- `copy_in`: the bindings that were not copied yet are, from the outermost one on. -/
def NamespaceContext.copyIn (rescope : Option (Text × Text)) :
    NamespaceContext → Arena → NamespaceCopies → NamespaceContext × Arena × NamespaceCopies
  | .empty, arena, copies => (.empty, arena, copies)
  | .bind address parent pre ns, arena, copies =>
    match copies.lookup address with
    | some copied => (copied, arena, copies)
    | none =>
      let (parent', arena, copies) := parent.copyIn rescope arena copies
      let (copied, arena) := arena.bind parent' pre (rescopeNamespace rescope pre ns)
      (copied, arena, (address, copied) :: copies)

end Lonewolf.Xmpp
