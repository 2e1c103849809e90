/-
This file defines when two values are equal. The same value is always equal to itself. Methods
are equal when their functions are the same and their receivers are equal, instances as
their classes say, strings by their text, and lists and tuples item by item. Everything else
is equal to itself alone.
-/

import ObjectHeap.Call

namespace ObjectHeap

variable {Code Host : Type}

/-- The number of the function of a method. -/
def Heap.methodCounter (heap : Heap Code) (method : Handle) : Except Fault Nat := do
  let data ← heap.method method
  return (← heap.function data.function).counter

/-- The items of two sequences of one kind. -/
def Payload.bothItems (left right : Payload Code) : Option (List Value × List Value) :=
  match left, right with
  | .list lefts, .list rights => some (lefts, rights)
  | .tuple lefts, .tuple rights => some (lefts, rights)
  | _, _ => none

/-- Whether items are equal, pair by pair as far as both lists go, where `equal` compares one
pair. -/
def allEqual (equal : Value → Value → Attempt Code Host Bool) :
    List Value → List Value → Attempt Code Host Bool
  | left :: lefts, right :: rights => do
    if ← equal left right then
      allEqual equal lefts rights
    else
      return false
  | _, _ => return true

namespace Engine

/-- Whether a method equals another value, where `equal` compares receivers. A value that is no
method gives no answer. -/
def methodEquals (engine : Engine Code Host)
    (equal : Value → Value → Attempt Code Host Bool) (method : Handle) (value : Value) :
    Attempt Code Host (Option Bool) := do
  match ← ask fun heap => heap.method? value with
  | none => return none
  | some other =>
    if other = method then
      return some true
    let counter ← ask fun heap => heap.methodCounter method
    let otherCounter ← ask fun heap => heap.methodCounter other
    if counter ≠ otherCounter then
      return some false
    let left ← ask fun heap => heap.method method
    retainAll left.parts
    let right ← ask fun heap => heap.method other
    retainAll right.parts
    let result : Attempt Code Host Bool :=
      match left.receiver, right.receiver with
      | none, none => return true
      | some receiver, some otherReceiver => equal receiver otherReceiver
      | _, _ => return false
    return some (← result.ensuring (engine.releaseList (left.parts ++ right.parts)))

/-- What a method among two values says about their equality. -/
def methodsEqual (engine : Engine Code Host)
    (equal : Value → Value → Attempt Code Host Bool) (left right : Value) :
    Attempt Code Host (Option Bool) := do
  match ← ask fun heap => heap.method? left with
  | some method => engine.methodEquals equal method right
  | none => return none

/-- What the class of a value says about its equality to another one. -/
def specialEqual (engine : Engine Code Host) (left right : Value) :
    Attempt Code Host (Option Bool) := do
  match ← engine.callSpecial left "__eq__" [left, right] with
  | none => return none
  | some answer =>
    let truth ← ask fun heap => heap.truth answer
    engine.release answer
    return some truth

/-- Whether two values are equal by their contents, where `equal` compares items. -/
def contentsEqual (engine : Engine Code Host)
    (equal : Value → Value → Attempt Code Host Bool) (left right : Value) :
    Attempt Code Host Bool := do
  match left, right with
  | .ref left, .ref right =>
    let left ← fetch left
    let right ← fetch right
    match left, right with
    | .str text, .str other => return text == other
    | _, _ =>
      match left.bothItems right with
      | none => return false
      | some (lefts, rights) =>
        retainAll (lefts ++ rights)
        let result : Attempt Code Host Bool :=
          if lefts.length = rights.length then allEqual equal lefts rights else return false
        result.ensuring (engine.releaseList (lefts ++ rights))
  | _, _ => return false

/-- Whether two values are equal, looking at most so many levels deep. -/
def equalWithin (engine : Engine Code Host) : Nat → Value → Value → Attempt Code Host Bool
  | 0, _, _ => Attempt.refuse .tooDeep
  | levels + 1, left, right => do
    if left.same right then
      return true
    if let some number := left.number? then
      if let some other := right.number? then
        return number == other
    if let some answer ← engine.methodsEqual (engine.equalWithin levels) left right then
      return answer
    if let some answer ← engine.methodsEqual (engine.equalWithin levels) right left then
      return answer
    if let some answer ← engine.specialEqual left right then
      return answer
    if let some answer ← engine.specialEqual right left then
      return answer
    engine.contentsEqual (engine.equalWithin levels) left right

/-- Whether two values are equal. -/
def equal (engine : Engine Code Host) (left right : Value) : Attempt Code Host Bool :=
  engine.equalWithin (maxDataDepth + 1) left right

end Engine

end ObjectHeap
