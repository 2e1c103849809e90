/-
This file defines the release of references. Giving up the last reference to an entry frees
it: its weak references are cleared and their callbacks called, the references it owned are
given up in turn, and its slot is free again. The references to give up wait on a stack, so
that structures of any depth come apart in one loop; while the loop runs, a release asked
for by a callback only joins the stack.
-/

import ObjectHeap.Engine

namespace ObjectHeap

variable {Code Host : Type}

/-! ### The stack of references to give up -/

/-- Notes an error that no caller can receive. -/
def reportUnraisable (error : Error) : Action Code Host Unit :=
  modifyHeap fun heap => { heap with unraisable := heap.unraisable ++ [error] }

/-- Puts a reference on the stack of those that wait for their release. -/
def enqueue : Value → Action Code Host Unit
  | .ref handle => modifyHeap fun heap => { heap with pending := handle :: heap.pending }
  | _ => return ()

/-- Takes the next reference off the stack. -/
def dequeue : Action Code Host (Option Handle) :=
  changeHeap fun heap =>
    match heap.pending with
    | [] => (none, heap)
    | handle :: rest => (some handle, { heap with pending := rest })

/-- Gives up one reference to an entry. The answer is the payload when it was the last one:
the slot is then empty, but not free yet. -/
def decrement (handle : Handle) : Action Code Host (Option (Payload Code)) := do
  match (← currentHeap).occupant? handle with
  | none => stop .releasedFreed
  | some entry =>
    if 1 < entry.count then
      modifyHeap (·.mapEntry handle fun entry => { entry with count := entry.count - 1 })
      return none
    else
      modifyHeap (·.setEntry handle none)
      return some entry.payload

/-! ### The loop -/

namespace Engine

/-- Calls the callbacks of cleared weak references, each with its weak reference as the only
argument, and gives the callbacks up with `release`. What a callback answers is given up as
well, and its errors are noted. -/
def runCallbacks (engine : Engine Code Host) (release : Value → Action Code Host Unit) :
    List (Handle × Value) → Action Code Host Unit
  | [] => return ()
  | (weakref, callback) :: rest => do
    let outcome ← (engine.callBack callback (Arguments.ofList [.ref weakref])).run
    release callback
    match outcome with
    | .ok answer => release answer
    | .error error => reportUnraisable error
    engine.runCallbacks release rest

/-- Takes a dead payload apart. Its slot was emptied before. The order is part of the rule:
the memory is given back, the weak references to it are cleared and called back, it leaves
the register of its own target, the references it owned join the stack, and its slot is free
again. Since this happens while releases are worked off, whatever is given up in between
joins the stack as well. -/
def tearDown (engine : Engine Code Host) (handle : Handle) (payload : Payload Code) :
    Action Code Host Unit := do
  modifyHeap fun heap =>
    { heap with tracker := heap.tracker.credit (UInt64.ofNat payload.size) }
  let callbacks ← changeHeap (·.clearWatchers handle (fun _ => false) payload.watchers)
  engine.runCallbacks enqueue callbacks
  match payload.target? with
  | some target => modifyHeap (·.unregister target handle)
  | none => pure ()
  modifyHeap fun heap => { heap with pending := payload.leavings heap.pending }
  modifyHeap (·.recycle handle payload.isMethod)

/-- Gives up one reference that waited. -/
def releaseNext (engine : Engine Code Host) (handle : Handle) : Action Code Host Unit := do
  match ← decrement handle with
  | some payload => engine.tearDown handle payload
  | none => return ()

/-- Gives up the references that wait, until none is left. -/
def releaseAll (engine : Engine Code Host) : Nat → Action Code Host Unit
  | 0 => do
    match ← dequeue with
    | none => return ()
    | some _ => stop .exhausted
  | rounds + 1 => do
    match ← dequeue with
    | none => return ()
    | some handle =>
      engine.releaseNext handle
      engine.releaseAll rounds

/-- Works off the releases that wait, unless that is already going on. -/
def drain (engine : Engine Code Host) : Action Code Host Unit := do
  if (← currentHeap).releasing then
    return ()
  modifyHeap fun heap => { heap with releasing := true }
  engine.releaseAll engine.rounds
  modifyHeap fun heap => { heap with releasing := false }

/-- Gives up a value: the reference it owns, if it owns one. -/
def release (engine : Engine Code Host) : Value → Action Code Host Unit
  | .ref handle => do
    enqueue (.ref handle)
    engine.drain
  | _ => return ()

/-- Gives up an optional value. -/
def release? (engine : Engine Code Host) : Option Value → Action Code Host Unit
  | some value => engine.release value
  | none => return ()

/-- Gives up values in order. -/
def releaseList (engine : Engine Code Host) (values : List Value) : Action Code Host Unit :=
  values.forM engine.release

/-- Gives up arguments: first those by position, then those by keyword. -/
def releaseArguments (engine : Engine Code Host) (arguments : Arguments) :
    Action Code Host Unit :=
  engine.releaseList arguments.values

end Engine

end ObjectHeap
