/-
This file defines the values a program on the heap works with, and the kinds that values are
told apart by. Small values carry their content; everything else lives in a slot of the heap,
and the value is a handle on that slot.
-/

namespace ObjectHeap

/-- A handle is the number of a slot. -/
abbrev Handle := Nat

/-- A value. A value that is a handle owns one reference to the entry in its slot. -/
inductive Value where
  | nil
  | bool (value : Bool)
  | int (value : Int64)
  | ref (handle : Handle)
deriving DecidableEq, Repr, Inhabited

namespace Value

/-- The handle of a value that lives on the heap. -/
def handle? : Value → Option Handle
  | .ref handle => some handle
  | _ => none

/-- Whether a value is the nil value, which also says that something is absent. -/
def isNil : Value → Bool
  | .nil => true
  | _ => false

/-- The value itself, unless it is nil. -/
def present? : Value → Option Value
  | .nil => none
  | value => some value

/-- The number a value stands for in comparisons: truth values count as one and zero. -/
def number? : Value → Option Int64
  | .bool value => some (if value then 1 else 0)
  | .int value => some value
  | _ => none

/-- Whether two values are the same: the same slot, or equal small values of one kind. -/
def same (left right : Value) : Bool :=
  left = right

/-- The text of nil. -/
def nilText : String := "None"

/-- The text of a truth value. -/
def boolText (value : Bool) : String :=
  if value then "True" else "False"

/-- The text of an integer: its decimal digits, after a sign if it is negative. -/
def intText (value : Int64) : String :=
  toString value.toInt

/-- The text of a small value. -/
def text? : Value → Option String
  | .nil => some nilText
  | .bool value => some (boolText value)
  | .int value => some (intText value)
  | .ref _ => none

end Value

/-- The kinds of values. -/
inductive Kind where
  | nil
  | bool
  | int
  | str
  | list
  | tuple
  | function
  | type
  | object
  | weakref
  | method
deriving DecidableEq, Repr

namespace Kind

/-- All kinds. -/
def all : List Kind :=
  [.nil, .bool, .int, .str, .list, .tuple, .function, .type, .object, .weakref, .method]

/-- What a kind is called in messages and in rendered values. An object is called by its
class instead, wherever its class is known. -/
def label : Kind → String
  | .nil => "NoneType"
  | .bool => "bool"
  | .int => "int"
  | .str => "str"
  | .list => "list"
  | .tuple => "tuple"
  | .function => "function"
  | .type => "type"
  | .object => "object"
  | .weakref => "weakref"
  | .method => "method"

/-- The name a kind is stored under. -/
def name : Kind → String
  | .nil => "NoneType"
  | .bool => "Bool"
  | .int => "Int"
  | .str => "Str"
  | .list => "List"
  | .tuple => "Tuple"
  | .function => "Function"
  | .type => "Type"
  | .object => "Instance"
  | .weakref => "WeakRef"
  | .method => "Method"

/-- The name the entries of a kind are counted under. -/
def entryName : Kind → String
  | .type => "ClassObject"
  | kind => kind.name

/-- The kind of a name, which has to be spelled exactly. -/
def ofName? (name : String) : Option Kind :=
  all.find? fun kind => kind.name == name

end Kind

end ObjectHeap
