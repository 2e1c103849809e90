/-
This file defines faults, which stop a whole run. The heap refuses to touch a slot that was
freed under a handle still in use; that takes a host that releases what it does not own, or
one that keeps no hold on what it works with. The last fault is the model's own: a run that
was given fewer rounds than it needs.
-/

import ObjectHeap.Value

namespace ObjectHeap

/-- Why a run stops. -/
inductive Fault where
  /-- A reference was taken to an entry that was freed. -/
  | retainedFreed
  /-- A reference was released to an entry that was freed. -/
  | releasedFreed
  /-- An entry was read that was freed. -/
  | readFreed
  /-- An entry was changed that was freed. -/
  | changedFreed
  /-- A slot that has to hold a function holds something else. -/
  | notFunction (handle : Handle) (found : Kind)
  /-- A slot that has to hold a method holds something else. -/
  | notMethod (handle : Handle) (found : Kind)
  /-- The rounds are used up. -/
  | exhausted
deriving DecidableEq, Repr

/-- What is said about a fault. -/
def Fault.message : Fault → String
  | .retainedFreed => "Heap::inc_ref: object already freed"
  | .releasedFreed => "Heap::dec_ref: object already freed"
  | .readFreed => "Heap::get: object already freed"
  | .changedFreed => "Heap::get_mut: object already freed"
  | .notFunction handle found =>
    s!"expected a function at HeapId({handle}), found {found.name}"
  | .notMethod handle found =>
    s!"expected a method at HeapId({handle}), found {found.name}"
  | .exhausted => "rounds exhausted"

end ObjectHeap
