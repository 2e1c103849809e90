/-
This file defines engines. An operation on the heap may have to run code of the host in its
course: the body of a function, or the callback of a weak reference whose target dies. That
code may do anything an operation may, even set off the very operation that runs it. An
engine is the operation's way to run such code. Engines are built one on the other, each
with one round less to give, so that every run comes to an end.
-/

import ObjectHeap.World

namespace ObjectHeap

/-- How to run code of the host, and how many releases may follow from one. -/
structure Engine (Code Host : Type) where
  /-- How many releases one release may set off. -/
  rounds : Nat
  /-- Runs the code of a function. The code takes the arguments over. -/
  run : Code → Arguments → Attempt Code Host Value
  /-- Calls back a value. The call takes the arguments over, but not the value. -/
  callBack : Value → Arguments → Attempt Code Host Value

/-- The engine that has no rounds left. -/
def Engine.exhausted {Code Host : Type} : Engine Code Host :=
  { rounds := 0
    run := fun _ _ => stop .exhausted
    callBack := fun _ _ => stop .exhausted }

end ObjectHeap
