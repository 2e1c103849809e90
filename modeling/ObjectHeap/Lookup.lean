/-
This file defines what a heap knows about the values on it: their kinds and type names, the
classes they are instances of, which class derives from which, and what a class finds under
a name. Nothing here changes the heap. A question about an entry that was freed is a fault.
-/

import ObjectHeap.Heap

namespace ObjectHeap.Heap

variable {Code : Type}

/-- The kind of a value. -/
def kind (heap : Heap Code) : Value → Except Fault Kind
  | .nil => return .nil
  | .bool _ => return .bool
  | .int _ => return .int
  | .ref handle => return (← heap.read handle).kind

/-- The payload of a value, if it lives on the heap. -/
def readValue (heap : Heap Code) : Value → Except Fault (Option (Payload Code))
  | .ref handle => return some (← heap.read handle)
  | _ => return none

/-- The text of a value, if it is a string. -/
def text? (heap : Heap Code) (value : Value) : Except Fault (Option String) := do
  match ← heap.readValue value with
  | some (.str text) => return some text
  | _ => return none

/-- The items of a value, if it is a list or a tuple. -/
def items? (heap : Heap Code) (value : Value) : Except Fault (Option (List Value)) := do
  match ← heap.readValue value with
  | some (.list items) | some (.tuple items) => return some items
  | _ => return none

/-- The handle of a value, if it is a method. -/
def method? (heap : Heap Code) (value : Value) : Except Fault (Option Handle) := do
  match ← heap.readValue value with
  | some (.method _) => return value.handle?
  | _ => return none

/-- The handle of a value, if it is a class. -/
def type? (heap : Heap Code) (value : Value) : Except Fault (Option Handle) := do
  match ← heap.readValue value with
  | some (.type _) => return value.handle?
  | _ => return none

/-- The class of a value, if it is an instance of one. -/
def instanceType? (heap : Heap Code) (value : Value) : Except Fault (Option Handle) := do
  match ← heap.readValue value with
  | some (.object data) => return some data.type
  | _ => return none

/-- The handle of a value, if it can be weakly referenced. -/
def referable? (heap : Heap Code) (value : Value) : Except Fault (Option Handle) := do
  match ← heap.readValue value with
  | some payload => return if payload.isReferable then value.handle? else none
  | none => return none

/-- Whether a value can be called. -/
def isCallable (heap : Heap Code) (value : Value) : Except Fault Bool := do
  match ← heap.readValue value with
  | some (.function _) | some (.method _) | some (.type _) | some (.weakref _) => return true
  | _ => return false

/-- Whether a value counts as true. Nil, zero and empty texts and sequences do not. -/
def truth (heap : Heap Code) : Value → Except Fault Bool
  | .nil => return false
  | .bool value => return value
  | .int value => return value != 0
  | .ref handle => do
    match ← heap.read handle with
    | .str text => return !text.isEmpty
    | .list items | .tuple items => return !items.isEmpty
    | _ => return true

/-- The function in a slot that has to hold one. -/
def function (heap : Heap Code) (handle : Handle) : Except Fault (Function Code) := do
  match ← heap.read handle with
  | .function data => return data
  | payload => throw (.notFunction handle payload.kind)

/-- The method in a slot that has to hold one. -/
def method (heap : Heap Code) (handle : Handle) : Except Fault Method := do
  match ← heap.read handle with
  | .method data => return data
  | payload => throw (.notMethod handle payload.kind)

/-! ### Classes -/

/-- The name of a class. -/
def className (heap : Heap Code) (type : Handle) : Except Fault String := do
  match ← heap.read type with
  | .type data => return data.name
  | _ => return "?"

/-- What the type of a value is called: the class of an instance, and otherwise the kind. -/
def typeName (heap : Heap Code) (value : Value) : Except Fault String := do
  match ← heap.instanceType? value with
  | some type => heap.className type
  | none => return (← heap.kind value).label

/-- What an owner of a method is called: a class by its name, another value by its type. -/
def ownerName (heap : Heap Code) : Option Value → Except Fault String
  | none => return "?"
  | some owner => do
    match ← heap.type? owner with
    | some type => heap.className type
    | none => heap.typeName owner

/-- Whether a class is the other one or derives from it. -/
def derives (heap : Heap Code) (sub sup : Handle) : Except Fault Bool := do
  if sub = sup then
    return true
  match ← heap.read sub with
  | .type data => return data.ancestors.contains sup
  | _ => return false

/-- The classes in the order in which a class with these bases looks beyond itself: each base
with its own ancestors behind it, and every class only where it comes first. -/
def ancestors (heap : Heap Code) (bases : List Handle) : Except Fault (List Handle) := do
  let chains ← bases.mapM fun base => do
    match ← heap.read base with
    | .type data => return base :: data.ancestors
    | _ => return []
  return chains.flatten.eraseDups

/-- What the first class of a chain that has the name stores under it. -/
def findAlong (heap : Heap Code) (name : String) : List Handle → Except Fault (Option Value)
  | [] => return none
  | type :: rest => do
    match ← heap.read type with
    | .type data =>
      match data.members.find? name with
      | some value => return some value
      | none => heap.findAlong name rest
    | _ => heap.findAlong name rest

/-- What a class finds under a name, in itself or else in its ancestors. -/
def find (heap : Heap Code) (type : Handle) (name : String) : Except Fault (Option Value) := do
  match ← heap.read type with
  | .type data => heap.findAlong name (type :: data.ancestors)
  | _ => return none

/-- The function that a class finds under a name. Other values do not count. -/
def findFunction (heap : Heap Code) (type : Handle) (name : String) :
    Except Fault (Option Handle) := do
  match ← heap.find type name with
  | some (.ref handle) =>
    match ← heap.read handle with
    | .function _ => return some handle
    | _ => return none
  | _ => return none

/-- The function that the class of an instance finds under a special name. What the instance
itself stores under the name does not count. -/
def special? (heap : Heap Code) (value : Value) (name : String) :
    Except Fault (Option Handle) := do
  match ← heap.instanceType? value with
  | some type => heap.findFunction type name
  | none => return none

end ObjectHeap.Heap
