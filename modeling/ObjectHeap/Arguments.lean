/-
This file defines the arguments of a call: values by position, then values by keyword in the
order they were given. Arguments own every value they hold.
-/

import ObjectHeap.Value

namespace ObjectHeap

/-- The arguments of a call. A keyword may be given more than once. -/
structure Arguments where
  positional : List Value
  keywords : List (String × Value)
deriving DecidableEq, Repr

namespace Arguments

/-- Arguments by position alone. -/
def ofList (positional : List Value) : Arguments :=
  { positional, keywords := [] }

/-- How many arguments there are, by position and by keyword. -/
def count (arguments : Arguments) : Nat :=
  arguments.positional.length + arguments.keywords.length

/-- The first argument by position. -/
def first? (arguments : Arguments) : Option Value :=
  arguments.positional.head?

/-- Puts a value before all others. -/
def prepend (arguments : Arguments) (value : Value) : Arguments :=
  { arguments with positional := value :: arguments.positional }

/-- All values in the order in which they are released. -/
def values (arguments : Arguments) : List Value :=
  arguments.positional ++ arguments.keywords.map Prod.snd

end Arguments

end ObjectHeap
