/-
This file puts hosts under a watch. The watch counts the bodies of functions that run, and keeps what
could be seen of the heap whenever an operation or a body began and ended. It may also see to it itself
how many bodies run at a time, in place of the heap: then a function runs only as long as there is room,
and is refused otherwise, as if it had never been called. What the host is shown is the same either way.
-/

import ObjectHeap.Proofs.Discipline

namespace ObjectHeap

variable {Code Host : Type}

/-- A heap that is held to another limit on nested calls. -/
def Heap.limitCalls (heap : Heap Code) (limit : Option UInt64) : Heap Code :=
  { heap with
    tracker :=
      { heap.tracker with limits := { heap.tracker.limits with maxRecursionDepth := limit } } }

/-- What could be seen of a heap at a moment, and how many bodies of functions were running. -/
structure Sight (Code : Type) where
  heap : Heap Code
  running : Nat

/-- A part of a run from its beginning to its end: an operation, or the body of a function. -/
structure Span (Code : Type) where
  work : Option (Operation Code)
  begun : Sight Code
  ended : Sight Code

/-- The state of a host that is watched. -/
structure Watched (Code Host : Type) where
  host : Host
  running : Nat
  spans : List (Span Code)
  /-- How many bodies may run at a time, if it is the watch that sees to it. -/
  room : Option UInt64

namespace Watched

variable (watched : Watched Code Host)

/-- What the host is shown of the heap: the limit on nested calls is there, whoever sees to it. -/
def shown (heap : Heap Code) : Heap Code :=
  match watched.room with
  | none => heap
  | some limit => heap.limitCalls (some limit)

/-- What can be seen now. -/
def sight (heap : Heap Code) : Sight Code :=
  { heap := watched.shown heap, running := watched.running }

/-- Keeps a part of the run that ends. -/
def closing (work : Option (Operation Code)) (begun : Sight Code) (heap : Heap Code) :
    Watched Code Host :=
  { watched with spans := { work, begun, ended := watched.sight heap } :: watched.spans }

/-- One more body runs. -/
def starting : Watched Code Host :=
  { watched with running := watched.running + 1 }

end Watched

namespace Program

/-- A program that is watched. It keeps what could be seen of each operation. -/
def watched (last : Except Error Value → Program Code (Watched Code Host)) :
    Program Code Host → Program Code (Watched Code Host)
  | finish outcome => last outcome
  | perform operation next =>
    consult (fun watched _ => watched) fun watched heap =>
      perform operation fun answer =>
        consult (·.closing (some operation) (watched.sight heap)) fun _ _ =>
          (next answer).watched last
  | consult change next =>
    consult (fun watched heap => { watched with host := change watched.host (watched.shown heap) })
      fun watched heap => (next watched.host (watched.shown heap)).watched last

end Program

namespace Engine

/-- Gives arguments up, since as many bodies run as may run. -/
def refuseNesting (engine : Engine Code Host) (limit : UInt64) (arguments : Arguments) :
    Action Code Host (Except Error Value) := do
  engine.releaseArguments arguments
  return .error (Refusal.limit (.recursion limit (limit + 1))).error

/-- Refuses a call after all. It does not count while its arguments are given up. -/
def callOff (engine : Engine Code Host) (limit : UInt64) (arguments : Arguments) :
    Action Code Host (Except Error Value) := do
  modifyHeap fun heap => { heap with callDepth := heap.callDepth - 1 }
  let outcome ← engine.refuseNesting limit arguments
  modifyHeap fun heap => { heap with callDepth := heap.callDepth + 1 }
  return outcome

/-- An engine under a watch. Where the watch sees to how many bodies run at a time, code runs only as
long as there is room. -/
def guarded (engine : Engine Code (Watched Code Host)) : Engine Code (Watched Code Host) :=
  { engine with
    run := fun code arguments => ⟨do
      let watched := (← get).host
      match watched.room with
      | none => (engine.run code arguments).run
      | some limit =>
        if watched.running < limit.toNat then (engine.run code arguments).run
        else engine.callOff limit arguments⟩ }

end Engine

namespace World

/-- The world in which a watched run starts. -/
def unwatched (config : Config) (host : Host) : World Code (Watched Code Host) :=
  { heap := .new config, host := { host, running := 0, spans := [], room := none } }

/-- The world in which the watch sees to the limit on nested calls, and the heap does not. -/
def overseen (world : World Code (Watched Code Host)) (limit : UInt64) :
    World Code (Watched Code Host) :=
  { heap := world.heap.limitCalls none, host := { world.host with room := some limit } }

end World

end ObjectHeap
