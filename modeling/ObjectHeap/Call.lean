/-
This file defines calls. A function runs its code, a method puts its receiver before the
arguments or insists on a first argument of its owner class, a class creates an instance and
lets its initializer work on it, and a weak reference answers with what it refers to.
-/

import ObjectHeap.Method

namespace ObjectHeap

variable {Code Host : Type}

/-- Refuses the call of an unbound method with a first argument of the type `received`. -/
def refuseReceiver (method : Method) (received : Option String) :
    Attempt Code Host Unit := do
  let data ← ask fun heap => heap.function method.function
  let owner ← ask fun heap => heap.ownerName method.owner
  Attempt.refuse (.wrongReceiver data.name owner received)

/-- Passes if the arguments may be given to an unbound method: the first one is an instance of
the owner. -/
def checkReceiver (method : Method) (arguments : Arguments) : Attempt Code Host Unit := do
  match arguments.first?, method.owner with
  | none, _ => refuseReceiver method none
  | some first, some owner =>
    if ← isInstance first owner then
      return ()
    else
      refuseReceiver method (some (← ask fun heap => heap.typeName first))
  | some _, none => return ()

namespace Engine

/-- Calls a function, which counts as one more running call. Nothing runs when that passes the
limit; the arguments are then given up. -/
def invoke (engine : Engine Code Host) (function : Handle) (arguments : Arguments) :
    Attempt Code Host Value := do
  match ← fetch function with
  | .function data =>
    let heap ← currentHeap
    match heap.tracker.recursionRefusal? (UInt64.ofNat heap.callDepth) with
    | some exceeded => engine.refuseArguments arguments (.limit exceeded)
    | none =>
      modifyHeap fun heap => { heap with callDepth := heap.callDepth + 1 }
      (engine.run data.code arguments).ensuring
        (modifyHeap fun heap => { heap with callDepth := heap.callDepth - 1 })
  | _ =>
    engine.releaseArguments arguments
    Attempt.fail (.internal "Function::invoke on a non-function")

/-- Calls a method. -/
def callMethod (engine : Engine Code Host) (method : Handle) (arguments : Arguments) :
    Attempt Code Host Value := do
  let data ← ask fun heap => heap.method method
  retainAll data.parts
  match data.receiver with
  | some receiver =>
    engine.release? data.owner
    engine.invoke data.function (arguments.prepend receiver)
  | none =>
    let checked := (checkReceiver data arguments).ensuring (engine.release? data.owner)
    checked.onError (engine.releaseArguments arguments)
    engine.invoke data.function arguments

/-- Calls a class: creates an instance and calls the initializer on it, which is the function
that the class finds under its name. Without one there must be no arguments. -/
def instantiate (engine : Engine Code Host) (type : Handle) (arguments : Arguments) :
    Attempt Code Host Value := do
  match ← ask fun heap => heap.findFunction type "__init__" with
  | none =>
    if 0 < arguments.count then
      let name ← ask fun heap => heap.className type
      engine.refuseArguments arguments (.someArgumentsToType name)
    else
      engine.newInstance (.ref type)
  | some initializer =>
    retain initializer
    let created := (engine.newInstance (.ref type)).onError do
      engine.release (.ref initializer)
      engine.releaseArguments arguments
    let object ← created
    retainValue object
    let initialized := (engine.invoke initializer (arguments.prepend object)).ensuring
      (engine.release (.ref initializer))
    match ← initialized.onError (engine.release object) with
    | .nil => return object
    | answer =>
      let type ← ask fun heap => heap.typeName answer
      engine.release answer
      engine.release object
      Attempt.refuse (.initializerAnswered type)

/-- Refuses the call of a value that cannot be called. -/
def refuseCall (engine : Engine Code Host) (callable : Value) (arguments : Arguments) :
    Attempt Code Host Value := do
  let type ← ask fun heap => heap.typeName callable
  engine.refuseArguments arguments (.notCallable type)

/-- Calls a value with arguments, which the call takes over. -/
def call (engine : Engine Code Host) (callable : Value) (arguments : Arguments) :
    Attempt Code Host Value := do
  match callable with
  | .ref handle =>
    match ← fetch handle with
    | .function _ => engine.invoke handle arguments
    | .method _ => engine.callMethod handle arguments
    | .type _ => engine.instantiate handle arguments
    | .weakref _ =>
      if 0 < arguments.count then
        engine.refuseArguments arguments (.someArguments "weakref" arguments.count)
      else
        referent handle
    | _ => engine.refuseCall callable arguments
  | _ => engine.refuseCall callable arguments

/-! ### Engines that stand on one another -/

/-- The engine with so many rounds, for a host that runs its code with `run`. Code and
callbacks run on the engine with one round less. -/
def ofRounds (run : Engine Code Host → Code → Arguments → Attempt Code Host Value) :
    Nat → Engine Code Host
  | 0 => exhausted
  | rounds + 1 =>
    { rounds
      run := fun code arguments => run (ofRounds run rounds) code arguments
      callBack := fun callable arguments => (ofRounds run rounds).call callable arguments }

/-- Calls the function that the class of an instance finds under a special name, with copies of
some values as arguments. Without such a function there is no answer. -/
def callSpecial (engine : Engine Code Host) (object : Value) (name : String)
    (values : List Value) : Attempt Code Host (Option Value) := do
  match ← ask fun heap => heap.special? object name with
  | none => return none
  | some function =>
    retain function
    retainAll values
    let called := (engine.call (.ref function) (Arguments.ofList values)).ensuring
      (engine.release (.ref function))
    return some (← called)

end Engine

end ObjectHeap
