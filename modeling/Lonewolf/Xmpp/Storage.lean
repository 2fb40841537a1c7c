import Lonewolf.Base.Blocks
import Lonewolf.Base.Transaction
import Lonewolf.Xmpp.Element

/-!
# Slices in an arena

`stanza/storage.rs`, and the attributes of `stanza/element.rs` that are kept in such slices. An arena is its
strings and its slices; a slice builder shares the storage of a finished slice until it has to write. What an
operation leaves behind is told for errors too; an index out of range and an overflow are among them.
-/

namespace Lonewolf.Xmpp.Storage

open Texts Transactions Blocks

/-! ### The arena -/

inductive Fault where
  | allocation
  | capacityOverflow
  | wrongArena
  | index
  | overflow
  | build (error : BuildError)
  deriving DecidableEq

/-- `Handle`: the identity of its arena, and where it points to. -/
structure Handle where
  identity : Nat
  index : Nat
  deriving DecidableEq

structure Arena (α : Type) where
  identity : Nat
  strings : List Text
  slices : Store α
  /-- Whether the next allocation is given memory. -/
  available : Bool

variable {α : Type}

namespace Arena

def get (arena : Arena α) (handle : Handle) : Except Fault (List α) :=
  if handle.identity ≠ arena.identity then .error .wrongArena else .ok (arena.slices.read handle.index)

def getStr (arena : Arena α) (handle : Handle) : Except Fault Text :=
  if handle.identity ≠ arena.identity then .error .wrongArena else .ok (arena.strings.getD handle.index [])

end Arena

/-! ### Builders -/

structure StoredSlice where
  values : Option Handle
  len : Nat
  deriving DecidableEq

def StoredSlice.get (slice : StoredSlice) (arena : Arena α) : Except Fault (List α) :=
  match slice.values with
  | none => .ok []
  | some values => do
      let block ← arena.get values
      if block.length < slice.len then .error .index else .ok (block.take slice.len)

structure SliceBuilder where
  slice : StoredSlice
  writable : Bool
  deriving DecidableEq

/-- What works on a builder and the arena. -/
abbrev Edit (α β : Type) := Tx (SliceBuilder × Arena α) Fault β

/-- The limit of `usize`. -/
def usizeLimit : Nat := 2 ^ 64

def tryAllocSliceFill (capacity : Nat) (value : α) : Edit α Handle := fun (builder, arena) =>
  if arena.available then
    (.ok ⟨arena.identity, arena.slices.length⟩,
      builder, { arena with slices := arena.slices.alloc (List.replicate capacity value) })
  else (.error .allocation, builder, arena)

/-- `get_mut`, and a write of the whole block. -/
def modify (handle : Handle) (f : List α → Except Fault (List α)) : Edit α Unit := fun (builder, arena) =>
  match arena.get handle >>= f with
  | .error fault => (.error fault, builder, arena)
  | .ok values => (.ok (), builder, { arena with slices := arena.slices.replace handle.index values })

/-- A write at an index. -/
def write (handle : Handle) (index : Nat) (value : α) : Edit α Unit :=
  modify handle fun block => if index < block.length then .ok (block.set index value) else .error .index

/-- `copy_within(first..last, dest)`. -/
def copyWithin (handle : Handle) (first last dest : Nat) : Edit α Unit :=
  modify handle fun block =>
    if first ≤ last ∧ last ≤ block.length ∧ dest + (last - first) ≤ block.length then
      .ok (block.take dest ++ ((block.take last).drop first ++ block.drop (dest + (last - first))))
    else .error .index

def setLen (len : Nat) : Edit α Unit :=
  Tx.write fun (builder, arena) => ((), { builder with slice := { builder.slice with len := len } }, arena)

namespace SliceBuilder

def new : SliceBuilder := ⟨⟨none, 0⟩, true⟩

def fromSlice (slice : StoredSlice) : SliceBuilder := ⟨slice, false⟩

def asSlice (builder : SliceBuilder) (arena : Arena α) : Except Fault (List α) := builder.slice.get arena

/-- `as_slice` at an index. -/
def at? (index : Nat) : Edit α α :=
  Tx.read fun (builder, arena) => do
    let values ← builder.asSlice arena
    (values[index]?).elim (.error .index) .ok

def len : Edit α Nat := Tx.read fun (builder, _) => .ok builder.slice.len

/-- The storage of the builder, if it may be written and is long enough. -/
def reusable (len : Nat) (builder : SliceBuilder) (arena : Arena α) : Except Fault (Option Handle) :=
  match builder.slice.values with
  | none => .ok none
  | some values =>
    if builder.writable then do
      let block ← arena.get values
      return if len ≤ block.length then some values else none
    else .ok none

/-- The capacity of new storage for a builder with so many values. -/
def capacity (current len : Nat) : Except Fault Nat :=
  if current < len then
    if usizeLimit ≤ 2 * current then .error .capacityOverflow else .ok (max (max (2 * current) len) 4)
  else .ok len

/-- The first values are copied, one by one. -/
def copyValues (handle : Handle) : Nat → Edit α Unit
  | 0 => pure ()
  | count + 1 => do
      copyValues handle count
      let value ← at? count
      write handle count value

/-- The storage is the builder's own from now on. -/
def adopt (values : Handle) : Edit α Handle :=
  Tx.write fun (builder, arena) => (values, ⟨⟨some values, builder.slice.len⟩, true⟩, arena)

/-- New storage with the values of the builder. -/
def copyOut (required : Nat) (fill : α) : Edit α Handle := do
  let current ← len
  let capacity ← Tx.read fun _ => capacity current required
  let values ← tryAllocSliceFill capacity fill
  copyValues values current
  adopt values

def prepare (required : Nat) (fill : α) : Edit α Handle := do
  match ← Tx.read fun (builder, arena) => reusable required builder arena with
  | some values => return values
  | none => copyOut required fill

def push (value : α) : Edit α Unit := do
  let current ← len
  Tx.read fun _ => if usizeLimit ≤ current + 1 then .error .capacityOverflow else .ok ()
  let values ← prepare (current + 1) value
  write values current value
  setLen (current + 1)

def set (index : Nat) (value : α) : Edit α Unit := do
  let values ← prepare (← len) value
  write values index value

def remove (index : Nat) : Edit α Unit := do
  let value ← at? index
  let current ← len
  let values ← prepare current value
  copyWithin values (index + 1) current index
  setLen (current - 1)

/-- A value that is kept moves to the end of those before it. -/
def moveBack (index retained : Nat) (value : α) : Edit α Unit :=
  if retained = index then pure () else set retained value

/-- The loop of `retain` over the indices that are left; `keep` has no answer when it cannot read. -/
def retainFrom (keep : α → Option Bool) : Nat → Nat → Nat → Edit α Unit
  | _, 0, retained => setLen retained
  | index, left + 1, retained => do
      let value ← at? index
      match keep value with
      | none => throw .wrongArena
      | some false => retainFrom keep (index + 1) left retained
      | some true => do
          moveBack index retained value
          retainFrom keep (index + 1) left (retained + 1)

def retain (keep : α → Option Bool) : Edit α Unit := do
  retainFrom keep 0 (← len) 0

def finish (builder : SliceBuilder) : StoredSlice := builder.slice

end SliceBuilder

/-! ### Attributes -/

structure StoredName where
  localName : Handle
  ns : Handle
  deriving DecidableEq

structure StoredAttribute where
  name : StoredName
  value : Handle
  deriving DecidableEq

def StoredName.matches (stored : StoredName) (name ns : Text) (arena : Arena StoredAttribute) : Except Fault Bool := do
  let localName ← arena.getStr stored.localName
  if localName = name then return (← arena.getStr stored.ns) = ns else return false

def tryAllocStr (text : Text) : Edit α Handle := fun (builder, arena) =>
  if arena.available then
    (.ok ⟨arena.identity, arena.strings.length⟩, builder, { arena with strings := arena.strings ++ [text] })
  else (.error .allocation, builder, arena)

def check (result : Except BuildError Unit) : Edit α Unit := Tx.read fun _ => result.mapError .build

/-- `Name::new` for an attribute. -/
def newName (name ns : Text) : Edit α StoredName := do
  check (validateName name ns true)
  return ⟨← tryAllocStr name, ← tryAllocStr ns⟩

namespace AttributesBuilder

/-- The loop of `find` from an index. -/
def findFrom (name ns : Text) (arena : Arena StoredAttribute) : Nat → List StoredAttribute → Except Fault (Option Nat)
  | _, [] => .ok none
  | index, value :: values => do
      if ← value.name.matches name ns arena then return some index else findFrom name ns arena (index + 1) values

def find (name ns : Text) (builder : SliceBuilder) (arena : Arena StoredAttribute) : Except Fault (Option Nat) := do
  findFrom name ns arena 0 (← builder.asSlice arena)

/-- The name that is stored already, or a new one. -/
def storedName (name ns : Text) : Option Nat → Edit StoredAttribute StoredName
  | some index => do return (← SliceBuilder.at? index).name
  | none => newName name ns

def store (value : StoredAttribute) : Option Nat → Edit StoredAttribute Unit
  | some index => SliceBuilder.set index value
  | none => SliceBuilder.push value

def set (name ns value : Text) : Edit StoredAttribute Unit := do
  check (validateName name ns true)
  check (validateText value)
  let index ← Tx.read fun (builder, arena) => find name ns builder arena
  let stored ← storedName name ns index
  let text ← tryAllocStr value
  store ⟨stored, text⟩ index

def remove (name ns : Text) : Edit StoredAttribute Unit := do
  match ← Tx.read fun (builder, arena) => find name ns builder arena with
  | some index => SliceBuilder.remove index
  | none => pure ()

/-- `append_from` of the attributes that are resolved in their own arena. -/
def appendFrom : List Attribute → Edit StoredAttribute Unit
  | [] => pure ()
  | value :: values => do
      let name ← newName value.name value.ns
      let text ← tryAllocStr value.value
      SliceBuilder.push ⟨name, text⟩
      appendFrom values

end AttributesBuilder

end Lonewolf.Xmpp.Storage
