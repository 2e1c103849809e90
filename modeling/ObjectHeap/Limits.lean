/-
This file defines the limits a heap can be held to. Every limit can be switched off on its
own. The limit on nested calls is the only one that is on unless someone switches it off.
-/

namespace ObjectHeap

/-- The limits on a heap. A limit that is `none` is off. -/
structure Limits where
  /-- How many allocations may be made in all. -/
  maxAllocations : Option UInt64
  /-- How many bytes the live entries may take, by estimate. -/
  maxMemory : Option UInt64
  /-- After how many allocations of containers the cycle collector runs. -/
  gcInterval : Option UInt64
  /-- How many calls may be nested. -/
  maxRecursionDepth : Option UInt64
deriving DecidableEq, Repr

namespace Limits

/-- No limits at all. -/
def unlimited : Limits :=
  { maxAllocations := none, maxMemory := none, gcInterval := none, maxRecursionDepth := none }

/-- The nesting of calls that is allowed unless another limit is set. -/
def standardRecursionDepth : UInt64 := 1000

/-- The limits of a heap nobody has configured: only nested calls are limited. -/
def standard : Limits :=
  { unlimited with maxRecursionDepth := some standardRecursionDepth }

end Limits

/-- How deep equality, ordering, hashing, rendering and copying look into a structure: an
operation may visit a value at this depth, and gives up on one that lies deeper. -/
def maxDataDepth : Nat := 200

end ObjectHeap
