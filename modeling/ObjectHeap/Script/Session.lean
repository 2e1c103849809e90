/-
This file defines what a host keeps while its scripts run: registers, memos of deep copies, and
the log. Registers whose names begin with a dollar sign belong to the script that is running,
all others to the whole session. A register owns its value.
-/

import ObjectHeap.DeepCopy
import ObjectHeap.Description
import ObjectHeap.Script.Syntax

namespace ObjectHeap.Script

/-- Registers in the order in which they were first stored. -/
abbrev Registers := List (String × Value)

/-- Stores a value in the first register of the name, or in a new one at the end. -/
def Registers.store (name : String) (value : Value) : Registers → Registers
  | [] => [(name, value)]
  | register :: rest =>
    if register.1 = name then
      (name, value) :: rest
    else
      register :: Registers.store name value rest

/-- Removes the first register of the name. -/
def Registers.remove (name : String) (registers : Registers) : Registers :=
  registers.eraseP fun register => register.1 = name

/-- What a script writes to the log. -/
inductive LogEntry where
  | value (description : Description)
  | text (text : String)
  | error (error : Error)
deriving DecidableEq, Repr

/-- What a host keeps. -/
structure Session where
  /-- The registers of the session. -/
  globals : Registers
  /-- The registers of the running script. -/
  locals : Registers
  memos : List (String × Memo)
  /-- The log, the oldest entry first. -/
  log : List LogEntry

/-- A session that keeps nothing yet. -/
def Session.new : Session :=
  { globals := [], locals := [], memos := [], log := [] }

/-- Whether a register belongs to the running script. -/
def isLocal (name : String) : Bool :=
  name.startsWith "$"

namespace Session

/-- The registers that a register of the name is among. -/
def registers (session : Session) (name : String) : Registers :=
  if isLocal name then session.locals else session.globals

/-- Changes the registers that a register of the name is among. -/
def mapRegisters (session : Session) (name : String) (change : Registers → Registers) :
    Session :=
  if isLocal name then
    { session with locals := change session.locals }
  else
    { session with globals := change session.globals }

/-- The value of a register. -/
def find? (session : Session) (name : String) : Option Value :=
  (session.registers name).lookup name

end Session

/-- The world of a script. -/
abbrev ScriptWorld := World Body Session

/-- The engine of a script. -/
abbrev ScriptEngine := Engine Body Session

/-! ### The session as a part of the world -/

section

variable {m : Type → Type} [MonadWorld Body Session m]

/-- The session as it is. -/
def session : m Session :=
  MonadWorld.act do return (← get).host

/-- Changes the session. -/
def modifySession (change : Session → Session) : m Unit :=
  MonadWorld.act do modify fun world => { world with host := change world.host }

/-- Writes to the log. -/
def writeLog (entry : LogEntry) : m Unit :=
  modifySession fun session => { session with log := session.log ++ [entry] }

/-- Describes a value. -/
def describe (value : Value) : m Description :=
  ask fun heap => heap.describe value

/-- Describes values in order. -/
def describeAll (values : List Value) : m (List Description) :=
  ask fun heap => values.mapM heap.describe

end

/-- Fails for want of something. -/
def failInternally {α : Type} (message : String) : Attempt Body Session α :=
  Attempt.fail (.internal message)

/-- The value of a register, which has to be there. -/
def readRegister (name : String) : Attempt Body Session Value := do
  match (← session).find? name with
  | some value => return value
  | none => failInternally ("no register " ++ name)

/-- Takes the value of a register out of it. -/
def takeRegister (name : String) : Attempt Body Session Value := do
  let value ← readRegister name
  modifySession fun session => session.mapRegisters name (Registers.remove name)
  return value

/-- Stores a value in a register and gives up what was there. -/
def storeRegister (engine : ScriptEngine) (name : String) (value : Value) :
    Action Body Session Unit := do
  let old := (← session).find? name
  modifySession fun session => session.mapRegisters name (Registers.store name value)
  engine.release? old

/-- The memo of a name. -/
def findMemo (name : String) : Action Body Session (Option Memo) := do
  return (← session).memos.lookup name

/-- Removes the memo of a name. -/
def removeMemo (name : String) : Action Body Session Unit :=
  modifySession fun session =>
    { session with memos := session.memos.eraseP fun memo => memo.1 = name }

/-- Keeps a memo under a name. -/
def keepMemo (name : String) (memo : Memo) : Action Body Session Unit := do
  removeMemo name
  modifySession fun session => { session with memos := session.memos ++ [(name, memo)] }

end ObjectHeap.Script
