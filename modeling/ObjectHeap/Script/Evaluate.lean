/-
This file defines the values of expressions. The parts of an expression are evaluated from left
to right. When one of them fails, the values that were there before it are given up in
order, so that a failed expression owns nothing.
-/

import ObjectHeap.Script.Session

namespace ObjectHeap.Script

mutual

/-- The value of an expression. -/
def evaluate (engine : ScriptEngine) : Expression → Attempt Body Session Value
  | .nil => return .nil
  | .bool value => return .bool value
  | .int value => return .int value
  | .register name => do
    let value ← readRegister name
    retainValue value
    return value
  | .move name => takeRegister name
  | .text text => engine.newString text
  | .list items => do
    let values ← evaluateAll engine [] items
    engine.newList values
  | .tuple items => do
    let values ← evaluateAll engine [] items
    engine.newTuple values

/-- The values of expressions behind the values that are there already. -/
def evaluateAll (engine : ScriptEngine) (done : List Value) :
    List Expression → Attempt Body Session (List Value)
  | [] => return done
  | expression :: rest => do
    let value ← (evaluate engine expression).onError (engine.releaseList done)
    evaluateAll engine (done ++ [value]) rest

end

/-- The values of arguments by keyword behind those that are there already. -/
def evaluateKeywords (engine : ScriptEngine) (done : List (String × Value)) :
    List (String × Expression) → Attempt Body Session (List (String × Value))
  | [] => return done
  | (name, expression) :: rest => do
    let value ← (evaluate engine expression).onError
      (engine.releaseList (done.map Prod.snd))
    evaluateKeywords engine (done ++ [(name, value)]) rest

/-- The arguments of a call: first those by position, then those by keyword. -/
def evaluateOperands (engine : ScriptEngine) (operands : Operands) :
    Attempt Body Session Arguments := do
  let positional ← evaluateAll engine [] operands.positional
  let keywords ← (evaluateKeywords engine [] operands.keywords).onError
    (engine.releaseList positional)
  return { positional, keywords }

/-! ### Operands that an operation borrows

The operation does not take these values over. They are given up after it, whether it
succeeded or not. -/

variable {α : Type}

/-- An operation on a list of values. -/
def withAll (engine : ScriptEngine) (expressions : List Expression)
    (operation : List Value → Attempt Body Session α) : Attempt Body Session α := do
  let values ← evaluateAll engine [] expressions
  (operation values).ensuring (engine.releaseList values)

/-- An operation on one value. -/
def withOne (engine : ScriptEngine) (expression : Expression)
    (operation : Value → Attempt Body Session α) : Attempt Body Session α := do
  let value ← evaluate engine expression
  (operation value).ensuring (engine.release value)

/-- An operation on two values. -/
def withTwo (engine : ScriptEngine) (first second : Expression)
    (operation : Value → Value → Attempt Body Session α) : Attempt Body Session α := do
  let one ← evaluate engine first
  let two ← (evaluate engine second).onError (engine.release one)
  (operation one two).ensuring (engine.releaseList [one, two])

/-- An operation on three values. -/
def withThree (engine : ScriptEngine) (first second third : Expression)
    (operation : Value → Value → Value → Attempt Body Session α) : Attempt Body Session α := do
  let one ← evaluate engine first
  let two ← (evaluate engine second).onError (engine.release one)
  let three ← (evaluate engine third).onError (engine.releaseList [one, two])
  (operation one two three).ensuring (engine.releaseList [one, two, three])

/-- An operation on one value that takes a second one over. -/
def withOneTaking (engine : ScriptEngine) (first second : Expression)
    (operation : Value → Value → Attempt Body Session α) : Attempt Body Session α :=
  withOne engine first fun one => do
    let two ← evaluate engine second
    operation one two

/-- An operation on one value that takes arguments over. -/
def withOperands (engine : ScriptEngine) (first : Expression) (operands : Operands)
    (operation : Value → Arguments → Attempt Body Session α) : Attempt Body Session α :=
  withOne engine first fun one => do
    let arguments ← evaluateOperands engine operands
    operation one arguments

end ObjectHeap.Script
