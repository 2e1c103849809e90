/-
This file defines how methods are made and bound. A method pairs a function with a receiver,
an owner class, or both. With a receiver it is bound. Without one it is unbound, and turns
into a bound method when it is read through an instance of its owner.
-/

import ObjectHeap.Create
import ObjectHeap.Signature

namespace ObjectHeap

variable {Code Host : Type}

/-- The receiver and the owner of a method, those that are there. An operation that works with
a method holds references of its own to them, since code of the host may run in its course. -/
def Method.parts (method : Method) : List Value :=
  method.receiver.toList ++ method.owner.toList

/-- The handle of the function that a method is to be made of. -/
def methodFunction (function : Value) : Attempt Code Host Handle := do
  match function with
  | .ref handle =>
    match ← fetch handle with
    | .function _ => return handle
    | .method _ | .type _ | .weakref _ => Attempt.refuse .methodOfNonFunction
    | _ => Attempt.refuse .methodOfNonCallable
  | _ => Attempt.refuse .methodOfNonCallable

namespace Engine

/-- Allocates a method, which takes the receiver and the owner over and takes a reference to
the function. A refusal is reported by the name of the function, and not by the limit. -/
def allocateMethod (engine : Engine Code Host) (function : Handle)
    (receiver owner : Option Value) : Attempt Code Host Value := do
  retain function
  let payload := Payload.method { function, receiver, owner, watchers := [] }
  match ← engine.charge payload with
  | some _ =>
    let data ← ask fun heap => heap.function function
    Attempt.refuse (.methodNotCreated data.name)
  | none =>
    let slot ← changeHeap Heap.takeFreeForMethod
    let handle ← changeHeap (·.place payload slot)
    return .ref handle

/-- Creates a method. A receiver or owner that is nil is none; one of the two is needed. -/
def newMethod (engine : Engine Code Host) (function receiver owner : Value) :
    Attempt Code Host Value := do
  let function ← methodFunction function
  if receiver.isNil && owner.isNil then
    Attempt.refuse .methodWithoutOwner
  else
    retainValue receiver
    retainValue owner
    engine.allocateMethod function receiver.present? owner.present?

/-- Creates a method from arguments: a function, a receiver and possibly an owner. -/
def methodOfArguments (engine : Engine Code Host) (arguments : Arguments) :
    Attempt Code Host Value := do
  let arguments ← engine.withoutKeywords "method" arguments
  match arguments.positional with
  | [function, receiver] =>
    (engine.newMethod function receiver .nil).ensuring
      (engine.releaseList [function, receiver])
  | [function, receiver, owner] =>
    (engine.newMethod function receiver owner).ensuring
      (engine.releaseList [function, receiver, owner])
  | values =>
    engine.releaseList values
    if values.length < 2 then
      Attempt.refuse (.tooFewArguments "method" 2 values.length)
    else
      Attempt.refuse (.tooManyArguments "method" 3 values.length)

/-- Reads a method through an instance, or through a class if the instance is nil. A bound
method stays as it is, and so does an unbound one whose owner the class does not derive from.
Otherwise there is a new method with the instance as its receiver. -/
def bindMethod (engine : Engine Code Host) (method : Handle) (object type : Value) :
    Attempt Code Host Value := do
  let data ← ask fun heap => heap.method method
  match data.receiver with
  | some _ =>
    retain method
    return .ref method
  | none =>
    retainAll data.parts
    let applies ← match data.owner with
      | some owner =>
        if type.isNil then
          pure true
        else
          (isSubtype type owner).onError (engine.release owner)
      | none => pure true
    if applies then
      retainValue object
      engine.allocateMethod data.function object.present? data.owner
    else
      engine.release? data.owner
      retain method
      return .ref method

/-- Reads a value through an instance or a class, which changes methods only. -/
def bind (engine : Engine Code Host) (value object type : Value) : Attempt Code Host Value := do
  match ← ask fun heap => heap.method? value with
  | some method => engine.bindMethod method object type
  | none =>
    retainValue value
    return value

end Engine

end ObjectHeap
