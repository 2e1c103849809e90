/-
This file defines what operations on the heap are: changes of a world, which is a heap and
whatever its host keeps beside it. An action always comes to its end, short of a fault. An
attempt can also end with an error, and the world then stays as the attempt left it. Some attempts
go along with something beside the world that they change. The host is part of the world because
operations call its code, which may work on the heap in turn.
-/

import ObjectHeap.Arguments
import ObjectHeap.Heap
import ObjectHeap.Refusal

namespace ObjectHeap

/-- A heap and the state of its host. -/
structure World (Code Host : Type) where
  heap : Heap Code
  host : Host

/-- A change of the world that ends with an answer, or stops with a fault. -/
abbrev Action (Code Host : Type) (α : Type) : Type :=
  StateT (World Code Host) (Except Fault) α

/-- A change of the world that ends with an answer or an error, or stops with a fault. -/
structure Attempt (Code Host : Type) (α : Type) where
  /-- The attempt as an action, whose answer tells whether the attempt succeeded. -/
  run : Action Code Host (Except Error α)

/-- An attempt that also changes a state beside the world, and leaves it as it is when it fails. -/
structure Along (State Code Host : Type) (α : Type) where
  run : State → Action Code Host (Except Error α × State)

/-- The kinds of changes, in all of which an action can be run. -/
class MonadWorld (Code Host : outParam Type) (m : Type → Type) where
  act {α : Type} : Action Code Host α → m α

variable {Code Host : Type} {α : Type}

instance : MonadWorld Code Host (Action Code Host) where
  act action := action

/-! ### Attempts -/

namespace Attempt

instance : Monad (Attempt Code Host) where
  pure answer := ⟨pure (.ok answer)⟩
  bind attempt next :=
    ⟨do
      match ← attempt.run with
      | .ok answer => (next answer).run
      | .error error => return .error error⟩

/-- An action is an attempt that always succeeds. -/
def ofAction (action : Action Code Host α) : Attempt Code Host α :=
  ⟨do return .ok (← action)⟩

instance : MonadWorld Code Host (Attempt Code Host) where
  act := ofAction

instance : MonadLift (Action Code Host) (Attempt Code Host) where
  monadLift := ofAction

/-- Ends an attempt with an error. -/
def fail (error : Error) : Attempt Code Host α :=
  ⟨pure (.error error)⟩

/-- Ends an attempt for a reason. -/
def refuse (refusal : Refusal) : Attempt Code Host α :=
  fail refusal.error

/-- An attempt, and then an action whether the attempt succeeded or not. -/
def ensuring (attempt : Attempt Code Host α) (action : Action Code Host Unit) :
    Attempt Code Host α :=
  ⟨do
    let outcome ← attempt.run
    action
    return outcome⟩

/-- An attempt, and an action in case it fails. -/
def onError (attempt : Attempt Code Host α) (action : Action Code Host Unit) :
    Attempt Code Host α :=
  ⟨do
    let outcome ← attempt.run
    match outcome with
    | .ok _ => return outcome
    | .error _ =>
      action
      return outcome⟩

end Attempt

/-! ### Attempts along a state -/

namespace Along

variable {State : Type}

instance : Monad (Along State Code Host) where
  pure answer := ⟨fun state => pure (.ok answer, state)⟩
  bind along next :=
    ⟨fun state => do
      match ← along.run state with
      | (.ok answer, state) => (next answer).run state
      | (.error error, state) => return (.error error, state)⟩

/-- An attempt that leaves the state alone. -/
def ofAttempt (attempt : Attempt Code Host α) : Along State Code Host α :=
  ⟨fun state => do return (← attempt.run, state)⟩

instance : MonadLift (Attempt Code Host) (Along State Code Host) where
  monadLift := ofAttempt

instance : MonadWorld Code Host (Along State Code Host) where
  act action := ofAttempt (Attempt.ofAction action)

/-- The state as it is. -/
def state : Along State Code Host State :=
  ⟨fun state => pure (.ok state, state)⟩

/-- Changes the state. -/
def setState (state : State) : Along State Code Host Unit :=
  ⟨fun _ => pure (.ok (), state)⟩

/-- The attempt alone, with a state to start from. -/
def starting (along : Along State Code Host α) (state : State) : Attempt Code Host α :=
  ⟨do return (← along.run state).1⟩

/-- An attempt, and an action whether the attempt succeeded or not. -/
def ensuring (along : Along State Code Host α) (action : Action Code Host Unit) :
    Along State Code Host α :=
  ⟨fun state => do
    let outcome ← along.run state
    action
    return outcome⟩

end Along

/-! ### What every change is made of -/

section

variable {m : Type → Type} [MonadWorld Code Host m]

/-- The heap as it is. -/
def currentHeap : m (Heap Code) :=
  MonadWorld.act do return (← get).heap

/-- Changes the heap. -/
def modifyHeap (change : Heap Code → Heap Code) : m Unit :=
  MonadWorld.act do modify fun world => { world with heap := change world.heap }

/-- Changes the heap and answers what the change finds out. -/
def changeHeap (change : Heap Code → α × Heap Code) : m α :=
  MonadWorld.act do
    modifyGet fun world =>
      let (answer, heap) := change world.heap
      (answer, { world with heap })

/-- Asks the heap. -/
def ask (question : Heap Code → Except Fault α) : m α :=
  MonadWorld.act do
    match question (← currentHeap) with
    | .ok answer => return answer
    | .error fault => throw fault

/-- Stops with a fault. -/
def stop (fault : Fault) : m α :=
  MonadWorld.act do throw fault

/-- The payload of a slot that has to be in use. -/
def fetch (handle : Handle) : m (Payload Code) :=
  ask fun heap => heap.read handle

/-- The payload of a slot that has to be in use, for a change of it. -/
def fetchToChange (handle : Handle) : m (Payload Code) :=
  ask fun heap =>
    match heap.payload? handle with
    | some payload => .ok payload
    | none => .error .changedFreed

/-- Takes one more reference to an entry. -/
def retain (handle : Handle) : m Unit :=
  MonadWorld.act do
    if (← currentHeap).isLive handle then
      modifyHeap (·.increment handle)
    else
      stop .retainedFreed

/-- Takes one more reference to what a value refers to. -/
def retainValue : Value → m Unit
  | .ref handle => retain handle
  | _ => MonadWorld.act (pure ())

/-- Takes one more reference to each of some values, in order. -/
def retainAll (values : List Value) : m Unit :=
  MonadWorld.act (values.forM retainValue)

end

end ObjectHeap
