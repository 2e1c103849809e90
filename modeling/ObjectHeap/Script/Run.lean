/-
This file defines how scripts run. A step does what its command says; a value that comes of it
is stored in a register or given up again, and what was shown of it is the answer of the
step. Blocks end early when a step ends the script with a value or fails. The body of a
function runs on registers of its own, which are given up in the end.
-/

import ObjectHeap.CallAttribute
import ObjectHeap.Hash
import ObjectHeap.Order
import ObjectHeap.Rendering
import ObjectHeap.Script.Evaluate

namespace ObjectHeap.Script

/-- What a step shows. -/
inductive Answer where
  | nothing
  | value (description : Description)
  | text (text : String)
  /-- The items of a sequence, or nothing for another value. -/
  | items (items : Option (List Description))
  /-- The type name of a value, its kind, and whether it is nil. -/
  | kind (type : String) (kind : Kind) (isNil : Bool)
  /-- How many copies a memo has. -/
  | memo (size : Nat)
  /-- The number of arguments, the first one by position, and all of them. -/
  | arguments (count : Nat) (first : Option Description) (positional : List Description)
    (keywords : List (String × Description))
  | stats (stats : Stats)
  /-- The number of references to a value, if it has one, and the value. -/
  | count (count : Option Nat) (description : Description)
  | errors (errors : List Error)
deriving DecidableEq, Repr

/-- What a command comes to. -/
inductive Result where
  /-- A value, which whoever goes on with the result owns. -/
  | value (value : Value)
  | shown (answer : Answer)
  /-- The end of the script with a value. -/
  | ended (value : Value)

/-- What a step comes to. -/
inductive Flow where
  | next (answer : Answer)
  /-- The end of the script with a value, which whoever goes on owns. -/
  | ended (value : Value)

/-! ### Commands without blocks -/

/-- A result that is a truth value. -/
def boolResult (attempt : Attempt Body Session Bool) : Attempt Body Session Result := do
  return .value (.bool (← attempt))

/-- A result that is a value. -/
def valueResult (attempt : Attempt Body Session Value) : Attempt Body Session Result := do
  return .value (← attempt)

/-- A result that shows nothing. -/
def emptyResult (attempt : Attempt Body Session Unit) : Attempt Body Session Result := do
  attempt
  return .shown .nothing

/-- The number that stands for an order. -/
def orderNumber : Ordering → Int64
  | .lt => -1
  | .eq => 0
  | .gt => 1

/-- Fails with an exception of the kind that is named. Without such a kind the error is
internal. -/
def raise {α : Type} (kind : String) (message : Option String) : Attempt Body Session α :=
  match ExceptionKind.ofName? kind with
  | some kind => Attempt.fail (.raised { kind, message })
  | none => failInternally (message.getD "")

/-- Takes values out of registers and gives them up one by one, up to the first register that
is not there. -/
def dropRegisters (engine : ScriptEngine) : List String → Attempt Body Session Unit
  | [] => return ()
  | name :: rest => do
    let value ← takeRegister name
    engine.release value
    dropRegisters engine rest

/-- Shows the items of a sequence. -/
def showItems (engine : ScriptEngine) (value : Value) : Attempt Body Session Result := do
  match ← retainItems value with
  | none => return .shown (.items none)
  | some items =>
    let descriptions ← describeAll items
    engine.releaseList items
    return .shown (.items (some descriptions))

/-- One item of a sequence, with a reference of its own. -/
def selectItem (engine : ScriptEngine) (value : Value) (place : Nat) :
    Attempt Body Session Value := do
  match ← retainItems value with
  | none => failInternally "no item"
  | some items =>
    match items[place]? with
    | some item =>
      engine.releaseList (items.eraseIdx place)
      return item
    | none =>
      engine.releaseList items
      failInternally "no item"

/-- Shows what a value is. -/
def showKind (value : Value) : Attempt Body Session Result := do
  let type ← ask fun heap => heap.typeName value
  let kind ← ask fun heap => heap.kind value
  return .shown (.kind type kind value.isNil)

/-- Copies a value with the memo of a name, which is kept whether the copy succeeds or not. -/
def copyWithMemo (engine : ScriptEngine) (value : Value) (name : String) :
    Attempt Body Session Value :=
  ⟨do
    let memo ← findMemo name
    removeMemo name
    let (outcome, memo) ← engine.deepCopy value (memo.getD Memo.empty)
    keepMemo name memo
    return outcome⟩

/-- Copies a value with the memo of a name, or with a memo of its own. -/
def copyResult (engine : ScriptEngine) (memo : Option String) (value : Value) :
    Attempt Body Session Result :=
  match memo with
  | some name => valueResult (copyWithMemo engine value name)
  | none =>
    valueResult (engine.withFreshMemo (engine.copyWithin (maxDataDepth + 1) value) .recorded)

/-- Shows the size of a memo, which has to be there. -/
def showMemo (name : String) : Attempt Body Session (Memo × Result) := do
  match ← findMemo name with
  | some memo => return (memo, .shown (.memo memo.size))
  | none => failInternally "no memo"

/-- Shows arguments and gives them up. -/
def showArguments (engine : ScriptEngine) (arguments : Arguments) :
    Attempt Body Session Result := do
  let first ← describeAll arguments.first?.toList
  let positional ← describeAll arguments.positional
  let keywords ← describeAll (arguments.keywords.map Prod.snd)
  engine.releaseArguments arguments
  return .shown (.arguments arguments.count first.head? positional
    ((arguments.keywords.map Prod.fst).zip keywords))

/-- Checks arguments. A signature of at most one argument leads to the argument. -/
def checkArguments (engine : ScriptEngine) (check : Check) (callable : String)
    (arguments : Arguments) : Attempt Body Session Result := do
  match check with
  | .exactlyOne => return .value (← engine.exactlyOne callable arguments)
  | .atMostOne =>
    match ← engine.atMostOne callable arguments with
    | some value => return .value value
    | none => return .shown .nothing
  | .withoutKeywords =>
    let arguments ← engine.withoutKeywords callable arguments
    showArguments engine arguments
  | .unchecked => showArguments engine arguments

/-- Evaluates arguments, and puts one before them if there is one. -/
def evaluateBehind (engine : ScriptEngine) (operands : Operands) (first : Option Expression) :
    Attempt Body Session Arguments := do
  let arguments ← evaluateOperands engine operands
  match first with
  | some expression =>
    let value ← (evaluate engine expression).onError (engine.releaseArguments arguments)
    return arguments.prepend value
  | none => return arguments

/-- Evaluates an optional expression. -/
def evaluate? (engine : ScriptEngine) : Option Expression → Attempt Body Session (Option Value)
  | some expression => do return some (← evaluate engine expression)
  | none => return none

/-- Takes the errors that no caller could receive. -/
def takeUnraisable : Action Body Session (List Error) :=
  changeHeap fun heap => (heap.unraisable, { heap with unraisable := [] })

/-! ### The log of a failure -/

/-- An attempt whose failure is written to the log and passed over. -/
def caught (attempt : Attempt Body Session Flow) : Attempt Body Session Flow :=
  ⟨do
    match ← attempt.run with
    | .ok flow => return .ok flow
    | .error error =>
      writeLog (.error error)
      return .ok (.next .nothing)⟩

/-- Runs a block so many times, counting the runs in a register. A failure is passed on after
the number of the run was written to the log. -/
def loop (engine : ScriptEngine) (block : Attempt Body Session (Option Value)) :
    Nat → Nat → Attempt Body Session (Option Value)
  | 0, _ => return none
  | times + 1, index => do
    storeRegister engine "#" (.int (Int64.ofNat index))
    match ← block.onError (writeLog (.text ("failed at " ++ toString index))) with
    | some value => return some value
    | none => loop engine block times (index + 1)

/-- The result of a block. -/
def blockResult (block : Attempt Body Session (Option Value)) :
    Attempt Body Session Result := do
  match ← block with
  | some value => return .ended value
  | none => return .shown .nothing

/-- Goes on with the result of a command. A value is stored, or shown and given up; a text is
made a string in order to be stored. -/
def settle (engine : ScriptEngine) (store : Option String) (result : Result) :
    Attempt Body Session Flow := do
  match result, store with
  | .value value, some name =>
    storeRegister engine name value
    return .next (.value (← describe value))
  | .value value, none =>
    let description ← describe value
    engine.release value
    return .next (.value description)
  | .shown (.text text), some name =>
    let value ← engine.newString text
    storeRegister engine name value
    return .next (.value (← describe value))
  | .shown answer, _ => return .next answer
  | .ended value, _ => return .ended value

/-! ### Commands, steps and blocks -/

mutual

/-- Runs a command. -/
def runCommand (engine : ScriptEngine) : Command → Attempt Body Session Result
  | .keep value => valueResult (evaluate engine value)
  | .log value =>
    emptyResult (withOne engine value fun value => do
      writeLog (.value (← describe value)))
  | .drop registers => emptyResult (dropRegisters engine registers)
  | .answer value => do return .ended (← evaluate engine value)
  | .raise kind message => raise kind message
  | .branch condition yes no => do
    let truth ← withOne engine condition fun value => ask fun heap => heap.truth value
    blockResult (if truth then runBlock engine yes else runBlock engine no)
  | .loop times block => blockResult (loop engine (runBlock engine block) times 0)
  | .newClass name bases =>
    valueResult (withAll engine bases fun bases => engine.newClass name bases)
  | .newInstance type =>
    valueResult (withOne engine type fun type => engine.newInstance type)
  | .newFunction name qualifiedName doc body =>
    valueResult (engine.newFunction name qualifiedName doc body)
  | .newMethod function receiver owner =>
    valueResult (withThree engine function receiver owner fun function receiver owner =>
      engine.newMethod function receiver owner)
  | .methodOfArguments operands =>
    valueResult do engine.methodOfArguments (← evaluateOperands engine operands)
  | .newWeakref target callback =>
    valueResult (withOne engine target fun target => do
      engine.newWeakref target (← evaluate? engine callback))
  | .append list item =>
    emptyResult (withOneTaking engine list item fun list item => engine.append list item)
  | .items value => withOne engine value fun value => showItems engine value
  | .item value place =>
    valueResult (withOne engine value fun value => selectItem engine value place)
  | .getAttribute value name =>
    valueResult (withOne engine value fun value => engine.getAttribute value name)
  | .setAttribute value content name =>
    emptyResult (withOneTaking engine value content fun value content =>
      engine.setAttribute value name content)
  | .call callable operands =>
    valueResult (withOperands engine callable operands fun callable arguments =>
      engine.call callable arguments)
  | .callAttribute value operands name =>
    valueResult (withOperands engine value operands fun value arguments =>
      engine.callAttribute value name arguments .recorded)
  | .reduce method => valueResult (withOne engine method fun method => reduce method)
  | .reduceBy method operands =>
    valueResult (withOperands engine method operands fun method arguments =>
      engine.reduceBy method arguments)
  | .bind value object type =>
    valueResult (withThree engine value object type fun value object type =>
      engine.bind value object type)
  | .equal left right =>
    boolResult (withTwo engine left right fun left right => engine.equal left right)
  | .same left right =>
    boolResult (withTwo engine left right fun left right => return left.same right)
  | .order left right =>
    valueResult (withTwo engine left right fun left right => do
      return .int (orderNumber (← engine.order left right)))
  | .hash value =>
    valueResult (withOne engine value fun value => do return .int (← engine.hash value))
  | .truth value =>
    boolResult (withOne engine value fun value => ask fun heap => heap.truth value)
  | .isCallable value =>
    boolResult (withOne engine value fun value => ask fun heap => heap.isCallable value)
  | .render value =>
    withOne engine value fun value => do return .shown (.text (← engine.render value))
  | .kind value => withOne engine value showKind
  | .isInstance value type =>
    boolResult (withTwo engine value type fun value type => isInstance value type)
  | .isSubtype sub sup =>
    boolResult (withTwo engine sub sup fun sub sup => isSubtype sub sup)
  | .deepCopy value memo => withOne engine value fun value => copyResult engine memo value
  | .memoSize memo => do return (← showMemo memo).2
  | .dropMemo name => do
    let (memo, result) ← showMemo name
    removeMemo name
    engine.releaseMemo memo .recorded
    return result
  | .check operands first check callable => do
    let arguments ← evaluateBehind engine operands first
    checkArguments engine check callable arguments
  | .collect => valueResult do return .int (Int64.ofNat (← engine.collect))
  | .stats => do return .shown (.stats (← currentHeap).stats)
  | .count register => do
    let value ← readRegister register
    return .shown (.count ((← currentHeap).count? value) (← describe value))
  | .increment register => emptyResult do retainValue (← readRegister register)
  | .decrement register => emptyResult do engine.release (← readRegister register)
  | .unraisable => do return .shown (.errors (← takeUnraisable))
  | .methodStyle => do return .shown (.text (← currentHeap).methodStyle.name)
  | .unknown name => failInternally ("unknown step " ++ name)

/-- Runs a step. -/
def runStep (engine : ScriptEngine) : Step → Attempt Body Session Flow
  | .mk command store isCaught =>
    let attempt : Attempt Body Session Flow := do
      let result ← runCommand engine command
      settle engine store result
    if isCaught then caught attempt else attempt

/-- Runs a block. The answer is the value that the script ended with, if it ended in the
block. -/
def runBlock (engine : ScriptEngine) : List Step → Attempt Body Session (Option Value)
  | [] => return none
  | step :: rest => do
    match ← runStep engine step with
    | .next _ => runBlock engine rest
    | .ended value => return some value

end

/-! ### Bodies of functions -/

/-- The registers that the body of a function starts with: its arguments by position, then
those by keyword. -/
def startRegisters (arguments : Arguments) : Registers :=
  (arguments.positional.mapIdx fun place value => ("$" ++ toString place, value)) ++
    arguments.keywords.map fun keyword => ("$kw:" ++ keyword.1, keyword.2)

/-- Runs a script on registers of its own. The registers that are left are given up in order,
after the value that the script ends with was found. -/
def runScript (engine : ScriptEngine) (steps : List Step) (arguments : Arguments) :
    Attempt Body Session Value :=
  ⟨do
    let outer := (← session).locals
    modifySession fun session => { session with locals := startRegisters arguments }
    let outcome ← (runBlock engine steps).run
    let left := (← session).locals
    modifySession fun session => { session with locals := outer }
    engine.releaseList (left.map Prod.snd)
    return outcome.map fun value => value.getD .nil⟩

/-- Runs the body of a function, which takes the arguments over. -/
def runBody (engine : ScriptEngine) (body : Body) (arguments : Arguments) :
    Attempt Body Session Value := do
  match body with
  | .echo =>
    engine.releaseList (arguments.keywords.map Prod.snd)
    engine.newTuple arguments.positional
  | .countKeywords =>
    engine.releaseArguments arguments
    return .int (Int64.ofNat arguments.keywords.length)
  | .nothing =>
    engine.releaseArguments arguments
    return .nil
  | .script steps => runScript engine steps arguments

/-- The engine of scripts with so many rounds. -/
def scriptEngine (rounds : Nat) : ScriptEngine :=
  Engine.ofRounds runBody rounds

/-! ### Whole scripts -/

/-- What one step of a whole script came to. -/
structure Report where
  outcome : Except Error Answer
  /-- What the step wrote to the log. -/
  log : List LogEntry
  /-- The numbers of the heap after the step. -/
  stats : Stats

/-- Runs a step on its own. A failure is always passed on, and a value that would end a script
is shown and given up. -/
def runAlone (engine : ScriptEngine) (step : Step) : Attempt Body Session Answer := do
  modifySession fun session => { session with log := [] }
  let .mk command store _ := step
  let result ← runCommand engine command
  match ← settle engine store result with
  | .next answer => return answer
  | .ended value =>
    let description ← describe value
    engine.release value
    return .value description

/-- Runs steps one after the other, whether they fail or not. The answer has a report for every
step up to the end or to a fault, and the fault. -/
def runAll (engine : ScriptEngine) : List Step → ScriptWorld → List Report × Option Fault
  | [], _ => ([], none)
  | step :: rest, world =>
    match (runAlone engine step).run world with
    | .error fault => ([], some fault)
    | .ok (outcome, world) =>
      let report := { outcome, log := world.host.log, stats := world.heap.stats }
      let (reports, fault) := runAll engine rest world
      (report :: reports, fault)

/-- Runs steps on a fresh heap. -/
def run (rounds : Nat) (config : Config) (steps : List Step) : List Report × Option Fault :=
  runAll (scriptEngine rounds) steps { heap := Heap.new config, host := Session.new }

end ObjectHeap.Script
