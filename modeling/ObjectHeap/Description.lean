/-
This file defines what can be shown of a value without touching it: small values by their
text, entries of the heap by their type, their slot and the references to them.
-/

import ObjectHeap.Lookup

namespace ObjectHeap

/-- What is shown of a value. -/
inductive Description where
  | small (text : String)
  /-- The type, the slot and the number of references; of a string also its text. -/
  | entry (type : String) (handle : Handle) (count : Nat) (text : Option String)
deriving DecidableEq, Repr

/-- Describes a value. -/
def Heap.describe {Code : Type} (heap : Heap Code) (value : Value) :
    Except Fault Description := do
  match value with
  | .nil => return .small Value.nilText
  | .bool value => return .small (Value.boolText value)
  | .int value => return .small (Value.intText value)
  | .ref handle =>
    let type ← heap.typeName value
    let text ← heap.text? value
    return .entry type handle ((heap.count? value).getD 0) text

end ObjectHeap
