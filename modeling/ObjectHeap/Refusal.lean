/-
This file lists the reasons for which an operation on the heap refuses to go on, each with
the exception it is raised as. Names and counts in a message are parts of the reason.
-/

import ObjectHeap.Exception
import ObjectHeap.Tracker

namespace ObjectHeap

/-- Why an operation refuses to go on. -/
inductive Refusal where
  /-- A structure is nested deeper than operations look. -/
  | tooDeep
  /-- A limit of the tracker would be passed. -/
  | limit (exceeded : LimitExceeded)
  /-- The method could not be allocated; `function` is the name of its function. -/
  | methodNotCreated (function : String)
  /-- A value of the type has no such attribute. -/
  | noAttribute (type key : String)
  /-- The class has no such attribute. -/
  | noClassAttribute (type key : String)
  /-- The attribute is there but cannot be assigned. -/
  | readOnlyAttribute (type key : String)
  | notCallable (type : String)
  | unhashable (type : String)
  | notOrdered (left right : String)
  | baseNotType (type : String)
  /-- Only a class has instances. -/
  | instanceOfNonType (type : String)
  | instanceCheckOfNonType
  | subtypeCheckOfNonType
  | subtypeCheckAgainstNonType
  | notReferable (type : String)
  /-- The callable takes no arguments, and got `count`. -/
  | someArguments (callable : String) (count : Nat)
  /-- The class has no initializer that could take arguments. -/
  | someArgumentsToType (type : String)
  | keywordArguments (callable : String)
  /-- The callable takes at most one argument. -/
  | moreThanOneArgument (callable : String) (count : Nat)
  /-- The callable takes exactly one argument. -/
  | notOneArgument (callable : String) (count : Nat)
  | tooFewArguments (callable : String) (least count : Nat)
  | tooManyArguments (callable : String) (most count : Nat)
  /-- An initializer answered with a value of the type. -/
  | initializerAnswered (type : String)
  | hashNotInteger
  | renderingNotText (type : String)
  /-- Only a function makes a method, and the value is at least callable. -/
  | methodOfNonFunction
  /-- Only a function makes a method, and the value is not even callable. -/
  | methodOfNonCallable
  /-- A method without a receiver needs an owner. -/
  | methodWithoutOwner
  /-- An unbound method was called without any argument, or with a first argument of the type
  `received`, which is no instance of the owner. -/
  | wrongReceiver (function owner : String) (received : Option String)
  | methodNotStorable
  /-- The operation is one of methods, and was asked of a value of the type. -/
  | notMethod (operation type : String)
  /-- The protocol of a reduction is an integer. -/
  | protocolNotInteger (type : String)
  /-- A method asked to copy itself starts a memo of its own. -/
  | memoGiven (type : String)
deriving DecidableEq, Repr

namespace Refusal

/-- The kind of exception a reason is raised as. -/
def kind : Refusal → ExceptionKind
  | .tooDeep | .limit (.recursion ..) => .recursionError
  | .limit (.allocations ..) | .limit (.memory ..) => .memoryError
  | .methodNotCreated _ => .runtimeError
  | .noAttribute .. | .noClassAttribute .. | .readOnlyAttribute .. => .attributeError
  | _ => .typeError

/-- What is said about a reason. -/
def message : Refusal → String
  | .tooDeep => "maximum recursion depth exceeded"
  | .limit exceeded => exceeded.message
  | .methodNotCreated function => s!"cannot create method {function}"
  | .noAttribute type key => s!"'{type}' object has no attribute '{key}'"
  | .noClassAttribute type key => s!"type object '{type}' has no attribute '{key}'"
  | .readOnlyAttribute type key =>
    s!"attribute '{key}' of '{type}' objects is not writable"
  | .notCallable type => s!"'{type}' object is not callable"
  | .unhashable type => s!"unhashable type: '{type}'"
  | .notOrdered left right =>
    s!"'<' not supported between instances of '{left}' and '{right}'"
  | .baseNotType type => s!"bases must be types, not '{type}'"
  | .instanceOfNonType type => s!"object.__new__(X): X is not a type object ({type})"
  | .instanceCheckOfNonType => "isinstance() arg 2 must be a type"
  | .subtypeCheckOfNonType => "issubclass() arg 1 must be a class"
  | .subtypeCheckAgainstNonType => "issubclass() arg 2 must be a class"
  | .notReferable type => s!"cannot create weak reference to '{type}' object"
  | .someArguments callable count => s!"{callable}() takes no arguments ({count} given)"
  | .someArgumentsToType type => s!"{type}() takes no arguments"
  | .keywordArguments callable => s!"{callable}() takes no keyword arguments"
  | .moreThanOneArgument callable count =>
    s!"{callable}() takes at most 1 argument ({count} given)"
  | .notOneArgument callable count =>
    s!"{callable}() takes exactly one argument ({count} given)"
  | .tooFewArguments callable least count =>
    s!"{callable} expected at least {least} arguments, got {count}"
  | .tooManyArguments callable most count =>
    s!"{callable} expected at most {most} arguments, got {count}"
  | .initializerAnswered type => s!"__init__() should return None, not '{type}'"
  | .hashNotInteger => "__hash__ method should return an integer"
  | .renderingNotText type => s!"__repr__ returned non-string (type {type})"
  | .methodOfNonFunction => "first argument must be a compiled function"
  | .methodOfNonCallable => "first argument must be callable"
  | .methodWithoutOwner => "unbound methods must have non-NULL im_class"
  | .wrongReceiver function owner received =>
    let got := match received with
      | some type => s!"{type} instance"
      | none => "nothing"
    s!"unbound method {function}() must be called with {owner} instance as first argument " ++
      s!"(got {got} instead)"
  | .methodNotStorable => "Can't pickle instancemethod objects"
  | .notMethod operation type =>
    s!"descriptor '{operation}' requires a 'method' object but received '{type}'"
  | .protocolNotInteger type => s!"an integer is required (got type {type})"
  | .memoGiven type => s!"__deepcopy__() memo must be None, not '{type}'"

/-- The exception a reason is raised as. -/
def exception (refusal : Refusal) : Exception :=
  { kind := refusal.kind, message := some refusal.message }

/-- The error an operation ends with. -/
def error (refusal : Refusal) : Error :=
  .raised refusal.exception

end Refusal

end ObjectHeap
