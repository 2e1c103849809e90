/-
This file defines calls of attributes by name. Three names are special on methods: two that
ask for a form to store them in, which methods refuse, and the one that copies. Everywhere
else the attribute is read and what it gives is called.
-/

import ObjectHeap.AttributeAccess
import ObjectHeap.DeepCopy

namespace ObjectHeap

variable {Code Host : Type}

/-- Lets a value pass that is a method, for an operation of methods. -/
def checkMethod (operation : String) (value : Value) : Attempt Code Host Unit := do
  match ← ask fun heap => heap.method? value with
  | some _ => return ()
  | none => Attempt.refuse (.notMethod operation (← ask fun heap => heap.typeName value))

/-- Asks a method for a form to store it in, which it refuses. -/
def reduce (method : Value) : Attempt Code Host Value := do
  checkMethod "__reduce__" method
  Attempt.refuse .methodNotStorable

namespace Engine

/-- Asks a method for a form to store it in by a protocol, which is checked before the method
refuses. -/
def reduceBy (engine : Engine Code Host) (method : Value) (arguments : Arguments) :
    Attempt Code Host Value := do
  (checkMethod "__reduce_ex__" method).onError (engine.releaseArguments arguments)
  match ← engine.atMostOne "__reduce_ex__" arguments with
  | none | some (.int _) | some (.bool _) => Attempt.refuse .methodNotStorable
  | some protocol =>
    let type ← ask fun heap => heap.typeName protocol
    engine.release protocol
    Attempt.refuse (.protocolNotInteger type)

/-- Asks a method for a copy of itself, with nil for the memo. The walk is the one through the
memo that the copy is made with. -/
def copyOf (engine : Engine Code Host) (method : Handle) (arguments : Arguments)
    (walk : Memo.Walk) : Attempt Code Host Value := do
  let memo ← engine.exactlyOne "__deepcopy__" arguments
  if memo.isNil then
    engine.withFreshMemo (engine.copyMethod (engine.copyWithin (maxDataDepth + 1)) method) walk
  else
    let type ← ask fun heap => heap.typeName memo
    engine.release memo
    Attempt.refuse (.memoGiven type)

/-- Reads an attribute of a value and calls it. -/
def callRead (engine : Engine Code Host) (value : Value) (name : String)
    (arguments : Arguments) : Attempt Code Host Value := do
  let callable ← (engine.getAttribute value name).onError (engine.releaseArguments arguments)
  (engine.call callable arguments).ensuring (engine.release callable)

/-- Calls an attribute of a value by name. A call that copies gives up its memo on the walk. -/
def callAttribute (engine : Engine Code Host) (value : Value) (name : String)
    (arguments : Arguments) (walk : Memo.Walk) : Attempt Code Host Value := do
  match ← ask fun heap => heap.method? value with
  | none => engine.callRead value name arguments
  | some method =>
    match name with
    | "__reduce__" =>
      if 0 < arguments.count then
        engine.refuseArguments arguments (.someArguments "__reduce__" arguments.count)
      else
        reduce value
    | "__reduce_ex__" => engine.reduceBy value arguments
    | "__deepcopy__" => engine.copyOf method arguments walk
    | _ => engine.callRead value name arguments

end Engine

end ObjectHeap
