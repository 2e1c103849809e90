/-
This file defines the collector of cycles. It needs no roots from outside. What the entries of
the heap hold of one another is subtracted from the counts, so that a count above zero tells
of a holder outside the heap, and everything that no such entry leads to is garbage. Garbage
is freed at once. Callbacks are called only for weak references that are no garbage
themselves, and references from garbage to survivors are given up as usual.
-/

import ObjectHeap.Release

namespace ObjectHeap

variable {Code Host : Type}

namespace Heap

/-! ### Finding garbage -/

/-- The references that the live entries hold, once for every reference. -/
def edges (heap : Heap Code) : List Handle :=
  heap.payloads.flatMap Payload.visits

/-- For every slot the number of references to its entry from outside the heap: those that
are counted, less those that entries hold. -/
def outsideCounts (heap : Heap Code) : Array Nat :=
  let counts := heap.slots.map fun slot => (slot.entry.map Entry.count).getD 0
  heap.edges.foldl (fun counts target => counts.modify target (· - 1)) counts

/-- The live entries that are held from outside. -/
def roots (heap : Heap Code) : List Handle :=
  let counts := heap.outsideCounts
  heap.liveHandles.filter fun handle => decide (0 < (counts[handle]?).getD 0)

/-- The entries that a slot refers to; an empty slot refers to none. -/
def visits (heap : Heap Code) (handle : Handle) : List Handle :=
  ((heap.payload? handle).map Payload.visits).getD []

/-- Marks what can be reached from the slots in `work`. Every step takes one of them off, and
adds what it refers to in case it was not marked before. -/
def mark (heap : Heap Code) : Nat → Array Bool → List Handle → Array Bool
  | _, marked, [] => marked
  | 0, marked, _ => marked
  | steps + 1, marked, handle :: work =>
    if (marked[handle]?).getD true then
      heap.mark steps marked work
    else
      heap.mark steps (marked.setIfInBounds handle true) (heap.visits handle ++ work)

/-- The slots that can be reached from the entries held from outside. A slot is taken off once
for every time it was added, which bounds the steps: the roots are added once, and every
reference at most once. -/
def reachable (heap : Heap Code) : Array Bool :=
  heap.mark (heap.slots.size + heap.edges.length)
    (Array.replicate heap.slots.size false) heap.roots

/-- The live entries that nothing outside leads to, in the order of their slots. -/
def garbage (heap : Heap Code) : List Handle :=
  let reachable := heap.reachable
  heap.liveHandles.filter fun handle => !(reachable[handle]?).getD true

/-! ### Freeing garbage -/

/-- Clears the weak references to garbage, entry by entry. Those that are garbage are left
alone. The answer is the callbacks that are due. -/
def clearGarbage (heap : Heap Code) (isGarbage : Handle → Bool) :
    List Handle → List (Handle × Value) × Heap Code
  | [] => ([], heap)
  | handle :: rest =>
    let watchers := ((heap.payload? handle).map Payload.watchers).getD []
    let heap := heap.mapPayload handle (Payload.mapWatchers fun _ => [])
    let (due, heap) := heap.clearWatchers handle isGarbage watchers
    let (others, heap) := heap.clearGarbage isGarbage rest
    (due ++ others, heap)

/-- Frees one entry of the garbage. The answer is what it held of survivors. -/
def sweepOne (heap : Heap Code) (isGarbage : Handle → Bool) (handle : Handle) :
    List Handle × Heap Code :=
  match heap.payload? handle with
  | none => ([], heap)
  | some payload =>
    let heap := heap.setEntry handle none
    let heap := { heap with tracker := heap.tracker.credit (UInt64.ofNat payload.size) }
    let heap :=
      match payload.target? with
      | some target => heap.unregister target handle
      | none => heap
    ((payload.leavings []).filter fun child => !isGarbage child,
      heap.recycle handle payload.isMethod)

/-- Frees the garbage in order. The answer is what it held of survivors, stacked so that what
was held by the last entry comes first. -/
def sweep (heap : Heap Code) (isGarbage : Handle → Bool) (survivors : List Handle) :
    List Handle → List Handle × Heap Code
  | [] => (survivors, heap)
  | handle :: rest =>
    let (held, heap) := heap.sweepOne isGarbage handle
    heap.sweep isGarbage (held ++ survivors) rest

/-- Clears and frees garbage. What it held of survivors joins the references that wait for
their release. The answer is the callbacks that are due. -/
def removeGarbage (heap : Heap Code) (garbage : List Handle) :
    List (Handle × Value) × Heap Code :=
  let isGarbage := fun handle => garbage.contains handle
  let (callbacks, heap) := heap.clearGarbage isGarbage garbage
  let (survivors, heap) := heap.sweep isGarbage [] garbage
  (callbacks, { heap with pending := survivors ++ heap.pending })

end Heap

namespace Engine

/-- Collects cycles and answers how many entries were freed. Nothing is collected while
releases are worked off, since an entry that waits would look as if it were held. -/
def collect (engine : Engine Code Host) : Action Code Host Nat := do
  if (← currentHeap).releasing then
    return 0
  modifyHeap fun heap => { heap with sinceCollection := 0 }
  let garbage := (← currentHeap).garbage
  if garbage.isEmpty then
    return 0
  let callbacks ← changeHeap (·.removeGarbage garbage)
  engine.drain
  engine.runCallbacks engine.release callbacks
  return garbage.length

end Engine

end ObjectHeap
