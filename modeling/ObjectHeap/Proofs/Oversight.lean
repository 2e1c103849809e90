/-
This file shows that the limit on nested calls does what it is meant to do: a call is refused exactly
if as many bodies of functions run as may run. For that a run is compared with another one, in which
the heap knows no such limit, and a watch counts the bodies and refuses calls by that number alone. The
two runs are the same, whatever calls what: nothing but calls minds the limit, and the depth that the
heap keeps is the number of bodies wherever a call begins.
-/

import ObjectHeap.Proofs.Dispatch
import ObjectHeap.Proofs.Indifference
import ObjectHeap.Proofs.Watch

namespace ObjectHeap

variable {Code Host α β : Type}

/-! ### Worlds that are overseen -/

namespace World

/-- A world in which the heap sees to the limit, and has counted some of the calls whose bodies run. -/
structure Limited (limit : UInt64) (depth running : Nat) (world : World Code (Watched Code Host)) :
    Prop where
  limited : world.heap.tracker.limits.maxRecursionDepth = some limit
  room : world.host.room = none
  depth : world.heap.callDepth = depth
  running : world.host.running = running

variable {limit : UInt64} {depth running : Nat} {world : World Code (Watched Code Host)}

/-- The host is shown the heap as it is, whoever sees to the limit. -/
theorem Limited.shown (held : world.Limited limit depth running) :
    world.host.shown world.heap = world.heap := by
  unfold Watched.shown
  rw [held.room]

theorem Limited.shown_overseen (held : world.Limited limit depth running) :
    (world.overseen limit).host.shown (world.overseen limit).heap = world.heap := by
  show { world.heap with tracker := { world.heap.tracker with
    limits := { world.heap.tracker.limits with maxRecursionDepth := some limit } } } = world.heap
  rw [← held.limited]

/-- So what can be seen is the same. -/
theorem Limited.sight (held : world.Limited limit depth running) :
    (world.overseen limit).host.sight (world.overseen limit).heap = world.host.sight world.heap := by
  unfold Watched.sight
  rw [held.shown, held.shown_overseen]
  rfl

/-- The watch keeps the same of a part of the run that ends. -/
theorem Limited.closing (held : world.Limited limit depth running) (work : Option (Operation Code))
    (begun : Sight Code) : (world.overseen limit).host.closing work begun (world.overseen limit).heap =
      { world.host.closing work begun world.heap with room := some limit } := by
  unfold Watched.closing
  rw [held.sight]
  rfl

end World

/-- An action that is the same where a watch sees to the limit. As many bodies run after it as before it,
and they are no more than may run. -/
def Action.Overseen (limit : UInt64) (action : Action Code (Watched Code Host) α) : Prop :=
  ∀ running : Fin (limit.toNat + 1), action.Commutes (World.Limited limit running running)
    (World.Limited limit running running) (·.overseen limit)

theorem Action.Overseen.change (limit : UInt64) {change : Heap Code → α × Heap Code}
    (indifferent : Heap.Indifferent change) :
    (changeHeap change : Action Code (Watched Code Host) α).Overseen limit := by
  have moves (heap : Heap Code) :
      change (heap.limitCalls none) = ((change heap).1, (change heap).2.limitCalls none) :=
    (indifferent.beside heap (heap.limitCalls none).aside).trans
      (congrArg (fun last => ((change heap).1, last.limitCalls none)) (indifferent.keeps heap))
  refine fun running => .changeHeap (fun world held => ?_) (fun world _ => ?_) fun world _ => ?_
  · have aside := indifferent.aside_eq world.heap
    exact
      { held with
        limited := (congrArg Aside.depthLimit aside).trans held.limited
        depth := (congrArg Aside.depth aside).trans held.depth }
  · exact (congrArg Prod.fst (moves world.heap) :)
  · exact congrArg (fun changed => ({ world.overseen limit with heap := changed.2 } : World Code _))
      (moves world.heap)

/-- The discipline of actions that are the same where a watch sees to the limit. -/
def Discipline.overseen (limit : UInt64) : Discipline Code (Watched Code Host) :=
  .commuting (fun _ world _ => ⟨(world.overseen limit).heap.aside, rfl⟩)
    (Action.Overseen.change limit)

namespace Heap

end Heap

/-- Changes of the state of the work in progress have nothing to do with calls. -/
theorem Action.Overseen.modify {limit : UInt64} {change : Heap Code → Heap Code}
    (limited : ∀ heap, (change heap).tracker.limits = heap.tracker.limits)
    (depth : ∀ heap, (change heap).callDepth = heap.callDepth)
    (same : ∀ heap, change (heap.limitCalls none) = (change heap).limitCalls none) :
    (modifyHeap change : Action Code (Watched Code Host) Unit).Overseen limit :=
  fun _ => .modifyHeap
    (fun world held =>
      { held with
        limited := (congrArg Limits.maxRecursionDepth (limited world.heap)).trans held.limited
        depth := (depth world.heap).trans held.depth })
    fun world _ => congrArg (fun heap => ({ world.overseen limit with heap } : World Code _))
      (same world.heap)

namespace Engine

variable {limit : UInt64} {engine : Engine Code (Watched Code Host)}

section

variable (calls : ∀ callback arguments,
  (engine.callBack callback arguments).Obeys (.overseen limit))

include calls

end

end Engine

/-! ### Calls -/

namespace Attempt

/-- What is expected of the body of a function: it is the same where the watch sees to the limit, if
there is room for it. -/
def Fits (limit : UInt64) (body : Attempt Code (Watched Code Host) Value) : Prop :=
  ∀ running < limit.toNat, body.run.Commutes (World.Limited limit (running + 1) running)
    (World.Limited limit (running + 1) running) (·.overseen limit)

/-- A body runs, and its call counts meanwhile. -/
def counting (body : Attempt Code (Watched Code Host) Value) :
    Action Code (Watched Code Host) (Except Error Value) := do
  modifyHeap fun heap => { heap with callDepth := heap.callDepth + 1 }
  let outcome ← body.run
  modifyHeap fun heap => { heap with callDepth := heap.callDepth - 1 }
  return outcome

variable {body other : Attempt Code (Watched Code Host) Value} {limit : UInt64} {running : Nat}
  {world : World Code (Watched Code Host)}

end Attempt

namespace Engine

variable {limit : UInt64} {engine : Engine Code (Watched Code Host)} {code : Code}
  {arguments : Arguments} {world : World Code (Watched Code Host)}

section

variable (runs : ∀ code arguments, (engine.run code arguments).Fits limit)
  (calls : ∀ callback arguments, (engine.callBack callback arguments).Obeys (.overseen limit))

include runs calls

end

end Engine

/-! ### Programs -/

namespace Program

variable {limit : UInt64} {engine : Engine Code (Watched Code Host)}
  {after : World Code (Watched Code Host) → Prop} (obeys : engine.Obeys (.overseen limit))

include obeys

end Program

end ObjectHeap
