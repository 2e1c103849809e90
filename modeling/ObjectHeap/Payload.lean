/-
This file defines what the slots of a heap hold: texts, lists, tuples, functions, classes,
instances, weak references and methods. For every payload it says what the payload is
estimated to weigh, which references it owns, and which weak references are registered
against it. The owned references are listed twice, by independent definitions: `visits` is
what the cycle collector subtracts, and `leavings` is what is released after a payload dies.
-/

import ObjectHeap.Attributes

namespace ObjectHeap

/-- A function. `Code` stands for what runs when the function is called. -/
structure Function (Code : Type) where
  /-- The number of the function, which no other function of the heap ever has. -/
  counter : Nat
  name : String
  qualifiedName : String
  doc : Option String
  code : Code
  /-- The attributes that were assigned after the function was made. -/
  attributes : Attributes

/-- A class. -/
structure Class where
  name : String
  /-- The direct bases, each an owned reference. -/
  bases : List Handle
  /-- All ancestors in the order of lookup, without the class itself. They are not owned: the
  bases keep them alive. -/
  ancestors : List Handle
  members : Attributes

/-- An instance of a class. -/
structure Instance where
  /-- The class, an owned reference. -/
  type : Handle
  attributes : Attributes
  /-- The weak references registered against the instance, in order of registration. -/
  watchers : List Handle

/-- A weak reference. -/
structure Weakref where
  /-- What is referred to, which is not owned; nothing once it was freed. -/
  target : Option Handle
  /-- What is called when the target is freed, an owned reference. -/
  callback : Option Value

/-- A method: bound when it has a receiver, and otherwise unbound. -/
structure Method where
  /-- The function, an owned reference. -/
  function : Handle
  receiver : Option Value
  owner : Option Value
  /-- The weak references registered against the method, in order of registration. -/
  watchers : List Handle

/-- What a slot holds. -/
inductive Payload (Code : Type) where
  | str (text : String)
  | list (items : List Value)
  | tuple (items : List Value)
  | function (function : Function Code)
  | type (type : Class)
  | object (object : Instance)
  | weakref (weakref : Weakref)
  | method (method : Method)

namespace Payload

variable {Code : Type}

/-- The kind of value a payload makes. -/
def kind : Payload Code → Kind
  | .str _ => .str
  | .list _ => .list
  | .tuple _ => .tuple
  | .function _ => .function
  | .type _ => .type
  | .object _ => .object
  | .weakref _ => .weakref
  | .method _ => .method

/-- Whether a payload is a method, whose slot may be kept apart for the next method. -/
def isMethod : Payload Code → Bool
  | .method _ => true
  | _ => false

/-- Whether a payload can take part in a cycle. Only such payloads make a collection due. -/
def isContainer : Payload Code → Bool
  | .str _ => false
  | _ => true

/-- Whether a payload can be weakly referenced. -/
def isReferable : Payload Code → Bool
  | .object _ | .method _ => true
  | _ => false

/-! ### Weight -/

/-- The bytes of one value in a sequence. -/
def valueSize : Nat := 16

/-- The bytes of one handle. -/
def handleSize : Nat := 8

/-- The bytes of one attribute. -/
def attributeSize : Nat := 40

/-- The estimated weight of a payload in bytes, as it stands now. Texts count their bytes in
UTF-8. -/
def size : Payload Code → Nat
  | .str text => 24 + text.utf8ByteSize
  | .list items => 24 + items.length * valueSize
  | .tuple items => 24 + items.length * valueSize
  | .function data =>
    160 + data.name.utf8ByteSize + data.qualifiedName.utf8ByteSize +
      (data.doc.map String.utf8ByteSize).getD 0 + data.attributes.size * attributeSize
  | .type data =>
    144 + data.name.utf8ByteSize + (data.bases.length + data.ancestors.length) * handleSize +
      data.members.size * attributeSize
  | .object data =>
    104 + data.attributes.size * attributeSize + data.watchers.length * handleSize
  | .weakref _ => 32
  | .method data => 64 + data.watchers.length * handleSize

/-! ### Owned references -/

/-- The entries a payload refers to and keeps alive, once for every reference. The collector
follows these. -/
def visits : Payload Code → List Handle
  | .str _ => []
  | .list items | .tuple items => items.filterMap Value.handle?
  | .function data => data.attributes.values.filterMap Value.handle?
  | .type data => data.bases ++ data.members.values.filterMap Value.handle?
  | .object data => data.type :: data.attributes.values.filterMap Value.handle?
  | .weakref data => (data.callback.bind Value.handle?).toList
  | .method data =>
    data.function :: ((data.receiver.bind Value.handle?).toList ++
      (data.owner.bind Value.handle?).toList)

/-- Puts the handle of a value, if it has one, on a stack. -/
def leave (stack : List Handle) (value : Value) : List Handle :=
  match value with
  | .ref handle => handle :: stack
  | _ => stack

/-- Puts the handle of a value, if both are there, on a stack. -/
def leave? (stack : List Handle) (value : Option Value) : List Handle :=
  match value with
  | some value => leave stack value
  | none => stack

/-- Puts the references that a dead payload leaves behind on a stack, so that the last of them
is the next to be released. -/
def leavings (stack : List Handle) : Payload Code → List Handle
  | .str _ => stack
  | .list items | .tuple items => items.foldl leave stack
  | .function data => data.attributes.values.foldl leave stack
  | .type data =>
    data.members.values.foldl leave (data.bases.foldl (fun stack base => base :: stack) stack)
  | .object data => data.attributes.values.foldl leave (data.type :: stack)
  | .weakref data => leave? stack data.callback
  | .method data => leave? (leave? (data.function :: stack) data.receiver) data.owner

/-! ### Weak references -/

/-- The weak references registered against a payload. -/
def watchers : Payload Code → List Handle
  | .object data => data.watchers
  | .method data => data.watchers
  | _ => []

/-- Changes the register of a payload that can be weakly referenced. -/
def mapWatchers (change : List Handle → List Handle) : Payload Code → Payload Code
  | .object data => .object { data with watchers := change data.watchers }
  | .method data => .method { data with watchers := change data.watchers }
  | payload => payload

/-- The target of a weak reference that was not cleared yet. -/
def target? : Payload Code → Option Handle
  | .weakref data => data.target
  | _ => none

end Payload

end ObjectHeap
