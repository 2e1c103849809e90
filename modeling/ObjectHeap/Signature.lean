/-
This file defines the checks of arguments against the few signatures that operations have: no
keywords, at most one argument, exactly one argument. A check that fails gives up all
arguments.
-/

import ObjectHeap.Release

namespace ObjectHeap.Engine

variable {Code Host : Type}

/-- Gives arguments up and refuses them. -/
def refuseArguments {α : Type} (engine : Engine Code Host) (arguments : Arguments)
    (refusal : Refusal) : Attempt Code Host α := do
  engine.releaseArguments arguments
  Attempt.refuse refusal

/-- Lets arguments pass that have no keywords. -/
def withoutKeywords (engine : Engine Code Host) (callable : String) (arguments : Arguments) :
    Attempt Code Host Arguments := do
  if arguments.keywords.isEmpty then
    return arguments
  else
    engine.refuseArguments arguments (.keywordArguments callable)

/-- The only argument, or none. -/
def atMostOne (engine : Engine Code Host) (callable : String) (arguments : Arguments) :
    Attempt Code Host (Option Value) := do
  let arguments ← engine.withoutKeywords callable arguments
  match arguments.positional with
  | [] => return none
  | [value] => return some value
  | values =>
    engine.releaseList values
    Attempt.refuse (.moreThanOneArgument callable values.length)

/-- The only argument, which is given by position. -/
def exactlyOne (engine : Engine Code Host) (callable : String) (arguments : Arguments) :
    Attempt Code Host Value := do
  match arguments with
  | { positional := [value], keywords := [] } => return value
  | _ => engine.refuseArguments arguments (.notOneArgument callable arguments.count)

end ObjectHeap.Engine
