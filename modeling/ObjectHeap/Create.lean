/-
This file defines how entries come to the heap. An allocation of a container may first set
off a collection; then the tracker is asked, and a refused payload gives up the references
that it owned. The payloads that need no more than that are created here as well.
-/

import ObjectHeap.Collect
import ObjectHeap.Lookup

namespace ObjectHeap

variable {Code Host : Type}

/-! ### Checks of classes -/

/-- The handles of the bases of a class, which have to be classes. -/
def baseHandles : List Value → Attempt Code Host (List Handle)
  | [] => return []
  | base :: rest => do
    match ← ask fun heap => heap.type? base with
    | some handle => return handle :: (← baseHandles rest)
    | none => Attempt.refuse (.baseNotType (← ask fun heap => heap.typeName base))

/-- Whether a value is an instance of a class or of one that derives from it. -/
def isInstance (value type : Value) : Attempt Code Host Bool := do
  match ← ask fun heap => heap.type? type with
  | none => Attempt.refuse .instanceCheckOfNonType
  | some sup =>
    match ← ask fun heap => heap.instanceType? value with
    | some sub => ask fun heap => heap.derives sub sup
    | none => return false

/-- Whether a class is the other one or derives from it. -/
def isSubtype (sub sup : Value) : Attempt Code Host Bool := do
  match ← ask fun heap => heap.type? sub with
  | none => Attempt.refuse .subtypeCheckOfNonType
  | some sub =>
    match ← ask fun heap => heap.type? sup with
    | none => Attempt.refuse .subtypeCheckAgainstNonType
    | some sup => ask fun heap => heap.derives sub sup

namespace Engine

/-! ### Allocation -/

/-- Counts an allocation of a container, and collects cycles when that is due. -/
def countAllocation (engine : Engine Code Host) (payload : Payload Code) :
    Action Code Host Unit := do
  if payload.isContainer then
    modifyHeap fun heap => { heap with sinceCollection := heap.sinceCollection + 1 }
    let heap ← currentHeap
    if heap.tracker.collectionDue heap.sinceCollection then
      let _ ← engine.collect

/-- Charges the tracker for a payload. The answer is the limit that refuses the payload, which
is then given up with all references it owned. -/
def charge (engine : Engine Code Host) (payload : Payload Code) :
    Action Code Host (Option LimitExceeded) := do
  engine.countAllocation payload
  match (← currentHeap).tracker.charge (UInt64.ofNat payload.size) with
  | .ok tracker =>
    modifyHeap fun heap => { heap with tracker }
    return none
  | .error exceeded =>
    modifyHeap fun heap => { heap with pending := payload.leavings heap.pending }
    engine.drain
    return some exceeded

/-- Allocates a payload that is no method. The answer owns the first reference. -/
def allocate (engine : Engine Code Host) (payload : Payload Code) :
    Attempt Code Host Value := do
  match ← engine.charge payload with
  | some exceeded => Attempt.refuse (.limit exceeded)
  | none =>
    let slot ← changeHeap Heap.takeFree
    let handle ← changeHeap (·.place payload slot)
    return .ref handle

/-! ### Strings, lists and tuples -/

/-- Creates a string. -/
def newString (engine : Engine Code Host) (text : String) : Attempt Code Host Value :=
  engine.allocate (.str text)

/-- Creates a list, which takes its items over. -/
def newList (engine : Engine Code Host) (items : List Value) : Attempt Code Host Value :=
  engine.allocate (.list items)

/-- Creates a tuple, which takes its items over. -/
def newTuple (engine : Engine Code Host) (items : List Value) : Attempt Code Host Value :=
  engine.allocate (.tuple items)

/-- Appends an item to a list, which takes it over. -/
def append (engine : Engine Code Host) (list item : Value) : Attempt Code Host Unit := do
  let items ← match list with
    | .ref handle => do
      match ← fetchToChange handle with
      | .list items => pure (some (handle, items))
      | _ => pure none
    | _ => pure none
  match items with
  | some (handle, items) =>
    modifyHeap (·.mapPayload handle fun _ => .list (items ++ [item]))
  | none =>
    let type ← ask fun heap => heap.typeName list
    engine.release item
    Attempt.refuse (.noAttribute type "append")

/-! ### Functions -/

/-- Creates a function, and gives it the next number. The number is used up even if the
function is refused. The qualified name is the name unless another one is given. -/
def newFunction (engine : Engine Code Host) (name : String) (qualifiedName doc : Option String)
    (code : Code) : Attempt Code Host Value := do
  let counter := (← currentHeap).nextCounter
  modifyHeap fun heap => { heap with nextCounter := counter + 1 }
  engine.allocate <| .function
    { counter, name, qualifiedName := qualifiedName.getD name, doc, code
      attributes := Attributes.empty }

/-! ### Classes and instances -/

/-- Creates a class that derives from the bases. -/
def newClass (engine : Engine Code Host) (name : String) (bases : List Value) :
    Attempt Code Host Value := do
  let bases ← baseHandles bases
  let ancestors ← ask fun heap => heap.ancestors bases
  bases.forM fun base => retain base
  engine.allocate (.type { name, bases, ancestors, members := Attributes.empty })

/-- Creates an instance of a class. Its initializer is not called. -/
def newInstance (engine : Engine Code Host) (type : Value) : Attempt Code Host Value := do
  match ← ask fun heap => heap.type? type with
  | none => Attempt.refuse (.instanceOfNonType (← ask fun heap => heap.typeName type))
  | some handle =>
    retain handle
    engine.allocate (.object { type := handle, attributes := Attributes.empty, watchers := [] })

/-! ### Weak references -/

/-- Creates a weak reference to an instance or a method, which takes its callback over. A
callback that is nil is no callback. -/
def newWeakref (engine : Engine Code Host) (target : Value) (callback : Option Value) :
    Attempt Code Host Value := do
  let callback := callback.bind Value.present?
  match ← ask fun heap => heap.referable? target with
  | none =>
    let type ← ask fun heap => heap.typeName target
    engine.release? callback
    Attempt.refuse (.notReferable type)
  | some handle =>
    let value ← engine.allocate (.weakref { target := some handle, callback })
    let _ ← fetchToChange handle
    match value with
    | .ref weakref => modifyHeap (·.register handle weakref)
    | _ => pure ()
    return value

end Engine

/-! ### New references to what is there -/

section

variable {m : Type → Type} [MonadWorld Code Host m]

/-- What a weak reference refers to, or nil once that is gone. -/
def referent (weakref : Handle) : m Value :=
  MonadWorld.act do
    match ← fetch weakref with
    | .weakref { target := some target, .. } =>
      if (← currentHeap).isLive target then
        retain target
        return .ref target
      else
        return .nil
    | _ => return .nil

/-- The items of a list or a tuple, each with a reference of its own. -/
def retainItems (value : Value) : m (Option (List Value)) :=
  MonadWorld.act do
    match ← ask fun heap => heap.items? value with
    | some items =>
      retainAll items
      return some items
    | none => return none

end

end ObjectHeap
