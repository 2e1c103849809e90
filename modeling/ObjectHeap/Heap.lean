/-
This file defines the heap: slots that hold counted entries, the slots that are free, the
books of the tracker, and the state of the work in progress. The functions here are plain
functions of a heap. They read it, or make one change that needs no code of the host to run.
-/

import ObjectHeap.Config
import ObjectHeap.Exception
import ObjectHeap.Fault
import ObjectHeap.MethodPool
import ObjectHeap.Payload
import ObjectHeap.Tracker

namespace ObjectHeap

/-- What is in a slot: a payload and the number of references to it. -/
structure Entry (Code : Type) where
  count : Nat
  payload : Payload Code

/-- A slot. Its generation tells how often the slot was used again. -/
structure Slot (Code : Type) where
  generation : Nat
  entry : Option (Entry Code)

/-- A heap. -/
structure Heap (Code : Type) where
  slots : Array (Slot Code)
  /-- The free slots, the one freed last at the head. -/
  free : List Handle
  /-- The free slots that are kept for methods. -/
  pool : MethodPool
  tracker : Tracker
  methodStyle : MethodStyle
  /-- The number of the next function. -/
  nextCounter : Nat
  /-- The references that wait for their release, the next one at the head. -/
  pending : List Handle
  /-- Whether releases are being worked off. A release asked for in the meantime waits. -/
  releasing : Bool
  /-- How many calls are running. -/
  callDepth : Nat
  /-- How many containers were allocated since the last collection. -/
  sinceCollection : UInt64
  /-- The errors that no caller could receive, the oldest first. -/
  unraisable : List Error

/-- The numbers of a heap at one time. -/
structure Stats where
  liveObjects : Nat
  freeSlots : Nat
  pooledSlots : Nat
  totalSlots : Nat
  /-- How many entries of each kind are live. -/
  byKind : List (Kind × Nat)
  allocations : UInt64
  memory : UInt64
deriving DecidableEq, Repr

namespace Heap

variable {Code : Type}

/-- An empty heap. -/
def new (config : Config) : Heap Code :=
  { slots := #[]
    free := []
    pool := MethodPool.new config.methodPoolCapacity.toNat
    tracker := Tracker.new config.limits
    methodStyle := config.methodStyle
    nextCounter := 1
    pending := []
    releasing := false
    callDepth := 0
    sinceCollection := 0
    unraisable := [] }

/-! ### Reading -/

/-- The entry of a slot. -/
def occupant? (heap : Heap Code) (handle : Handle) : Option (Entry Code) :=
  heap.slots[handle]? >>= Slot.entry

/-- The payload of a slot. -/
def payload? (heap : Heap Code) (handle : Handle) : Option (Payload Code) :=
  (heap.occupant? handle).map Entry.payload

/-- Whether a slot is in use. -/
def isLive (heap : Heap Code) (handle : Handle) : Bool :=
  (heap.occupant? handle).isSome

/-- The payload of a slot that has to be in use. -/
def read (heap : Heap Code) (handle : Handle) : Except Fault (Payload Code) :=
  match heap.payload? handle with
  | some payload => .ok payload
  | none => .error .readFreed

/-- The number of references to the entry of a value; a small value has none. -/
def count? (heap : Heap Code) (value : Value) : Option Nat :=
  value.handle? >>= fun handle => (heap.occupant? handle).map Entry.count

/-- The number shown for the entry of a slot, made of the slot and its generation. Only the
last 32 bits of the generation take part. -/
def publicId (heap : Heap Code) (handle : Handle) : UInt64 :=
  let generation := ((heap.slots[handle]?).map Slot.generation).getD 0
  (((UInt32.ofNat generation).toUInt64 <<< 32) ||| UInt64.ofNat handle) * 16 + 0x1000

/-- The slots in use, in order. -/
def liveHandles (heap : Heap Code) : List Handle :=
  (List.range heap.slots.size).filter heap.isLive

/-- The payloads of the slots in use, in order. -/
def payloads (heap : Heap Code) : List (Payload Code) :=
  heap.slots.toList.filterMap fun slot => slot.entry.map Entry.payload

/-- The numbers of a heap. Kinds without a live entry are left out. -/
def stats (heap : Heap Code) : Stats :=
  let kinds := heap.payloads.map Payload.kind
  { liveObjects := kinds.length
    freeSlots := heap.free.length
    pooledSlots := heap.pool.size
    totalSlots := heap.slots.size
    byKind := (Kind.all.map fun kind => (kind, kinds.count kind)).filter fun pair => pair.2 != 0
    allocations := heap.tracker.allocations
    memory := heap.tracker.memory }

/-! ### Changing one slot -/

/-- Changes what is in a slot. -/
def setEntry (heap : Heap Code) (handle : Handle) (entry : Option (Entry Code)) : Heap Code :=
  { heap with slots := heap.slots.modify handle fun slot => { slot with entry } }

/-- Changes the entry of a slot that is in use. -/
def mapEntry (heap : Heap Code) (handle : Handle) (change : Entry Code → Entry Code) :
    Heap Code :=
  { heap with
    slots := heap.slots.modify handle fun slot => { slot with entry := slot.entry.map change } }

/-- Changes the payload of a slot that is in use. -/
def mapPayload (heap : Heap Code) (handle : Handle) (change : Payload Code → Payload Code) :
    Heap Code :=
  heap.mapEntry handle fun entry => { entry with payload := change entry.payload }

/-- Takes one more reference to the entry of a slot. -/
def increment (heap : Heap Code) (handle : Handle) : Heap Code :=
  heap.mapEntry handle fun entry => { entry with count := entry.count + 1 }

/-! ### Free slots -/

/-- Takes a free slot, the one that was freed last. -/
def takeFree (heap : Heap Code) : Option Handle × Heap Code :=
  match heap.free with
  | [] => (none, heap)
  | handle :: rest => (some handle, { heap with free := rest })

/-- Takes a slot for a method, if possible one that a method has left. -/
def takeFreeForMethod (heap : Heap Code) : Option Handle × Heap Code :=
  match heap.pool.take? with
  | some (handle, pool) => (some handle, { heap with pool })
  | none => heap.takeFree

/-- Gives a slot that was freed back. The slot of a method goes to the pool as long as there
is room. -/
def recycle (heap : Heap Code) (handle : Handle) (isMethod : Bool) : Heap Code :=
  match if isMethod then heap.pool.keep? handle else none with
  | some pool => { heap with pool }
  | none => { heap with free := handle :: heap.free }

/-- Puts a payload with one reference into a slot, or into a new slot at the end. A slot that
is used again moves on to its next generation. -/
def place (heap : Heap Code) (payload : Payload Code) (slot : Option Handle) :
    Handle × Heap Code :=
  let entry := some { count := 1, payload }
  match slot with
  | some handle =>
    (handle,
      { heap with
        slots := heap.slots.modify handle fun slot =>
          { generation := slot.generation + 1, entry } })
  | none =>
    (heap.slots.size, { heap with slots := heap.slots.push { generation := 0, entry } })

/-! ### Weak references -/

/-- Registers a weak reference against its target. -/
def register (heap : Heap Code) (target weakref : Handle) : Heap Code :=
  heap.mapPayload target (Payload.mapWatchers (· ++ [weakref]))

/-- Takes a weak reference that dies off the register of its target. -/
def unregister (heap : Heap Code) (target weakref : Handle) : Heap Code :=
  heap.mapPayload target (Payload.mapWatchers (·.erase weakref))

/-- Clears a weak reference if it refers to `target`, and hands its callback out. -/
def clear (heap : Heap Code) (target weakref : Handle) : Option Value × Heap Code :=
  match heap.payload? weakref with
  | some (.weakref data) =>
    if data.target = some target then
      (data.callback,
        heap.mapPayload weakref fun _ => .weakref { target := none, callback := none })
    else
      (none, heap)
  | _ => (none, heap)

/-- Clears the weak references in a register of `target`, leaving out those that are `skipped`.
The answer pairs each weak reference that had a callback with its callback, in order. -/
def clearAll (heap : Heap Code) (target : Handle) (skipped : Handle → Bool) :
    List Handle → List (Handle × Value) × Heap Code
  | [] => ([], heap)
  | weakref :: rest =>
    if skipped weakref then
      heap.clearAll target skipped rest
    else
      let (callback, heap) := heap.clear target weakref
      let (callbacks, heap) := heap.clearAll target skipped rest
      match callback with
      | some callback => ((weakref, callback) :: callbacks, heap)
      | none => (callbacks, heap)

/-- Clears weak references as `clearAll` does, and takes a reference to each one whose callback
is due, so that no callback can free a weak reference that another one is still due for. -/
def clearWatchers (heap : Heap Code) (target : Handle) (skipped : Handle → Bool)
    (watchers : List Handle) : List (Handle × Value) × Heap Code :=
  let (callbacks, heap) := heap.clearAll target skipped watchers
  (callbacks, callbacks.foldl (fun heap pair => heap.increment pair.1) heap)

end Heap

end ObjectHeap
