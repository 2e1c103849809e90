/-
This file defines the hashes of values. Numbers hash to themselves, strings and tuples by their
contents, methods to the numbers of their functions, and instances as their classes say.
Other entries hash by their public numbers, except that lists have no hash.
-/

import ObjectHeap.Call
import ObjectHeap.Equality
import ObjectHeap.SipHash

namespace ObjectHeap

variable {Code Host : Type}

/-- The hash of nil. -/
def nilHash : Int64 := 0x5f3759df

/-- The greatest hash, which stands for the numbers of functions that are greater still. -/
def maxHash : Nat := 0x7fffffffffffffff

/-- The hash of a method whose function has the number. -/
def counterHash (counter : Nat) : Int64 :=
  Int64.ofNat (min counter maxHash)

/-- The hash of an entry by its identity. -/
def Heap.identityHash (heap : Heap Code) (handle : Handle) : Int64 :=
  (SipHash.hashWord (heap.publicId handle)).toInt64

/-- The hashes of items in order, where `hash` hashes one item. -/
def allHashes (hash : Value → Attempt Code Host Int64) : List Value → Attempt Code Host (List Int64)
  | [] => return []
  | item :: rest => do
    let first ← hash item
    return first :: (← allHashes hash rest)

namespace Engine

/-- The hash of an instance: what its class says, or else its identity, unless its class has
an equality of its own. -/
def instanceHash (engine : Engine Code Host) (object : Value) (handle : Handle) :
    Attempt Code Host Int64 := do
  match ← engine.callSpecial object "__hash__" [object] with
  | some (.int hash) => return hash
  | some answer =>
    engine.release answer
    Attempt.refuse .hashNotInteger
  | none =>
    match ← ask fun heap => heap.special? object "__eq__" with
    | some function =>
      retain function
      engine.release (.ref function)
      Attempt.refuse (.unhashable (← ask fun heap => heap.typeName object))
    | none => return (← currentHeap).identityHash handle

/-- The hash of a value, looking at most so many levels deep. -/
def hashWithin (engine : Engine Code Host) : Nat → Value → Attempt Code Host Int64
  | 0, _ => Attempt.refuse .tooDeep
  | levels + 1, value => do
    match value with
    | .nil => return nilHash
    | .bool value => return if value then 1 else 0
    | .int value => return value
    | .ref handle =>
      match ← fetch handle with
      | .str text => return (SipHash.hashText text).toInt64
      | .list _ => Attempt.refuse (.unhashable Kind.list.label)
      | .method _ => return counterHash (← ask fun heap => heap.methodCounter handle)
      | .object _ => engine.instanceHash value handle
      | .function _ | .type _ | .weakref _ => return (← currentHeap).identityHash handle
      | .tuple items =>
        retainAll items
        let hashes ← (allHashes (engine.hashWithin levels) items).ensuring
          (engine.releaseList items)
        return (SipHash.hashWords (hashes.map Int64.toUInt64)).toInt64

/-- The hash of a value. -/
def hash (engine : Engine Code Host) (value : Value) : Attempt Code Host Int64 :=
  engine.hashWithin (maxDataDepth + 1) value

end Engine

end ObjectHeap
