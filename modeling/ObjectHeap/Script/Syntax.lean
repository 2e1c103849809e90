/-
This file defines scripts, the programs that a host runs on a heap. A script is a list of
steps. The operands of a step are expressions over registers, in which the host keeps the
values it owns; what a step leads to may be stored in a register in turn. The bodies of
functions are scripts too, or one of three bodies that are built in.
-/

import ObjectHeap.Value

namespace ObjectHeap.Script

/-- An expression. Its value is owned by whoever evaluates it. -/
inductive Expression where
  | nil
  | bool (value : Bool)
  | int (value : Int64)
  /-- A new reference to the value of a register. -/
  | register (name : String)
  /-- The value of a register, which is taken out of it. -/
  | move (name : String)
  /-- A new string. -/
  | text (text : String)
  /-- A new list. -/
  | list (items : List Expression)
  /-- A new tuple. -/
  | tuple (items : List Expression)
deriving Inhabited

/-- The arguments of a call. -/
structure Operands where
  positional : List Expression
  keywords : List (String × Expression)

/-- The signature that arguments are checked against. -/
inductive Check where
  | exactlyOne
  | atMostOne
  | withoutKeywords
  /-- Any arguments will do. -/
  | unchecked
deriving DecidableEq, Repr

mutual

/-- What runs when a function is called. -/
inductive Body where
  /-- Answers with a tuple of the arguments by position. -/
  | echo
  /-- Answers with the number of arguments by keyword. -/
  | countKeywords
  /-- Answers with nil. -/
  | nothing
  | script (steps : List Step)

/-- What a step does. -/
inductive Command where
  /-- Leads to a value. -/
  | keep (value : Expression)
  /-- Writes the description of a value to the log. -/
  | log (value : Expression)
  /-- Gives up the values of registers, and the registers with them. -/
  | drop (registers : List String)
  /-- Ends the script with a value. -/
  | answer (value : Expression)
  /-- Fails with an exception of the kind that is named. -/
  | raise (kind : String) (message : Option String)
  /-- Goes on with one of two blocks. -/
  | branch (condition : Expression) (yes no : List Step)
  /-- Runs a block so many times. -/
  | loop (times : Nat) (block : List Step)
  | newClass (name : String) (bases : List Expression)
  | newInstance (type : Expression)
  | newFunction (name : String) (qualifiedName doc : Option String) (body : Body)
  | newMethod (function receiver owner : Expression)
  | methodOfArguments (operands : Operands)
  /-- A weak reference. No callback is not the same as one that is nil only in what is
  evaluated. -/
  | newWeakref (target : Expression) (callback : Option Expression)
  | append (list item : Expression)
  /-- Shows the items of a sequence. -/
  | items (value : Expression)
  /-- Leads to one item of a sequence. -/
  | item (value : Expression) (place : Nat)
  | getAttribute (value : Expression) (name : String)
  | setAttribute (value content : Expression) (name : String)
  | call (callable : Expression) (operands : Operands)
  | callAttribute (value : Expression) (operands : Operands) (name : String)
  | reduce (method : Expression)
  | reduceBy (method : Expression) (operands : Operands)
  | bind (value object type : Expression)
  | equal (left right : Expression)
  | same (left right : Expression)
  | order (left right : Expression)
  | hash (value : Expression)
  | truth (value : Expression)
  | isCallable (value : Expression)
  | render (value : Expression)
  /-- Shows the type of a value. -/
  | kind (value : Expression)
  | isInstance (value type : Expression)
  | isSubtype (sub sup : Expression)
  /-- A deep copy. The memo of a name is kept for the next copies. -/
  | deepCopy (value : Expression) (memo : Option String)
  | memoSize (memo : String)
  | dropMemo (memo : String)
  /-- Checks arguments, with one put before them if there is one. -/
  | check (operands : Operands) (first : Option Expression) (check : Check) (callable : String)
  | collect
  | stats
  /-- Shows how many references there are to the value of a register. -/
  | count (register : String)
  /-- Takes one more reference to the value of a register, which nobody owns. -/
  | increment (register : String)
  /-- Gives up one reference to the value of a register, which the register still counts on. -/
  | decrement (register : String)
  /-- Shows the errors that no caller could receive, and forgets them. -/
  | unraisable
  | methodStyle
  /-- A command that nobody knows. -/
  | unknown (name : String)

/-- One step of a script. -/
inductive Step where
  /-- What the step does, the register for its value, and whether a failure is written to the
  log and passed over. -/
  | mk (command : Command) (store : Option String) (caught : Bool)

end

deriving instance Inhabited for Command, Step, Body

end ObjectHeap.Script
