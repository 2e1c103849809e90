/-
This file defines the order of values. Numbers are ordered as numbers, strings by their code
points, lists and tuples by the first items that differ, methods by their functions and then
by their receivers, and instances as their classes say. No other two values are ordered.
-/

import ObjectHeap.Equality

namespace ObjectHeap

variable {Code Host : Type}

namespace Engine

/-- The order of two methods: by the numbers of their functions, then unbound methods first,
then by the receivers, where `order` compares receivers that are not the same. -/
def methodOrder (engine : Engine Code Host)
    (order : Value → Value → Attempt Code Host Ordering) (method other : Handle) :
    Attempt Code Host Ordering := do
  let counter ← ask fun heap => heap.methodCounter method
  let otherCounter ← ask fun heap => heap.methodCounter other
  if counter ≠ otherCounter then
    return compare counter otherCounter
  let left ← ask fun heap => heap.method method
  retainAll left.parts
  let right ← ask fun heap => heap.method other
  retainAll right.parts
  let result : Attempt Code Host Ordering :=
    match left.receiver, right.receiver with
    | none, none => return .eq
    | none, some _ => return .lt
    | some _, none => return .gt
    | some receiver, some otherReceiver =>
      if receiver.same otherReceiver then return .eq else order receiver otherReceiver
  result.ensuring (engine.releaseList (left.parts ++ right.parts))

/-- The order of two lists of items: that of the first pair that is not equal, and otherwise
that of their lengths. -/
def itemsOrder (equal : Value → Value → Attempt Code Host Bool)
    (order : Value → Value → Attempt Code Host Ordering) :
    List Value → List Value → Attempt Code Host Ordering
  | left :: lefts, right :: rights => do
    if ← equal left right then
      itemsOrder equal order lefts rights
    else
      order left right
  | lefts, rights => return compare lefts.length rights.length

/-- The order of an instance and another value by its class, where `function` is what the class
finds under the special name and `equal` compares the two values first. -/
def specialOrder (engine : Engine Code Host)
    (equal : Value → Value → Attempt Code Host Bool) (function : Handle) (left right : Value) :
    Attempt Code Host Ordering := do
  retain function
  let result : Attempt Code Host Ordering := do
    if ← equal left right then
      return .eq
    retainAll [left, right]
    let answer ← engine.call (.ref function) (Arguments.ofList [left, right])
    let less ← ask fun heap => heap.truth answer
    engine.release answer
    return if less then .lt else .gt
  result.ensuring (engine.release (.ref function))

/-- The order of two values by their contents, where `equal` and `order` compare items. -/
def contentsOrder (engine : Engine Code Host)
    (equal : Value → Value → Attempt Code Host Bool)
    (order : Value → Value → Attempt Code Host Ordering) (left right : Value) :
    Attempt Code Host Ordering := do
  let payload ← ask fun heap => heap.readValue left
  let other ← ask fun heap => heap.readValue right
  match payload, other with
  | some (.str text), some (.str otherText) => return compare text otherText
  | _, _ =>
    match payload.bind fun payload => other.bind payload.bothItems with
    | some (lefts, rights) =>
      retainAll (lefts ++ rights)
      (itemsOrder equal order lefts rights).ensuring (engine.releaseList (lefts ++ rights))
    | none =>
      let leftType ← ask fun heap => heap.typeName left
      let rightType ← ask fun heap => heap.typeName right
      Attempt.refuse (.notOrdered leftType rightType)

/-- The order of two values, looking at most so many levels deep. -/
def orderWithin (engine : Engine Code Host) : Nat → Value → Value → Attempt Code Host Ordering
  | 0, _, _ => Attempt.refuse .tooDeep
  | levels + 1, left, right => do
    if let some number := left.number? then
      if let some other := right.number? then
        return compare number.toInt other.toInt
    let method ← ask fun heap => heap.method? left
    let other ← ask fun heap => heap.method? right
    if let (some method, some other) := (method, other) then
      return ← engine.methodOrder (engine.orderWithin levels) method other
    if let some function ← ask fun heap => heap.special? left "__lt__" then
      return ← engine.specialOrder (engine.equalWithin (levels + 1)) function left right
    engine.contentsOrder (engine.equalWithin levels) (engine.orderWithin levels) left right

/-- The order of two values. -/
def order (engine : Engine Code Host) (left right : Value) : Attempt Code Host Ordering :=
  engine.orderWithin (maxDataDepth + 1) left right

end Engine

end ObjectHeap
