/-
This file defines exceptions, the errors that an operation on the heap can end with, and
their form as documents. An exception has a kind and often a message. The kinds form a small
hierarchy: everything is an `Exception`, and a `RecursionError` is a `RuntimeError`.
-/

import ObjectHeap.Document

namespace ObjectHeap

/-- The kinds of exceptions. -/
inductive ExceptionKind where
  | exception
  | runtimeError
  | recursionError
  | attributeError
  | valueError
  | memoryError
  | typeError
deriving DecidableEq, Repr

namespace ExceptionKind

/-- All kinds, the more general ones first. -/
def all : List ExceptionKind :=
  [.exception, .runtimeError, .recursionError, .attributeError, .valueError, .memoryError,
    .typeError]

/-- The name of a kind. -/
def name : ExceptionKind → String
  | .exception => "Exception"
  | .runtimeError => "RuntimeError"
  | .recursionError => "RecursionError"
  | .attributeError => "AttributeError"
  | .valueError => "ValueError"
  | .memoryError => "MemoryError"
  | .typeError => "TypeError"

/-- The kind of a name, which has to be spelled exactly. -/
def ofName? (name : String) : Option ExceptionKind :=
  all.find? fun kind => kind.name == name

/-- Whether a handler for `handled` catches an exception of this kind. -/
def isCaughtBy (kind handled : ExceptionKind) : Bool :=
  kind = handled ||
    match handled with
    | .exception => true
    | .runtimeError => kind = .recursionError
    | _ => false

/-- Reads a kind. -/
def ofDocument? (document : Document) : Option ExceptionKind :=
  document.alternative? >>= ofName?

end ExceptionKind

/-- A raised exception. -/
structure Exception where
  kind : ExceptionKind
  message : Option String
deriving DecidableEq, Repr

namespace Exception

/-- The kind and, after a colon, the message. -/
def display (exception : Exception) : String :=
  match exception.message with
  | some message => s!"{exception.kind.name}: {message}"
  | none => exception.kind.name

/-- Writes both fields. -/
def toDocument (exception : Exception) : Document :=
  .object
    [("exc_type", .text exception.kind.name), ("arg", .ofOptionalText exception.message)]

/-- Reads an exception. An object may leave out the message, an array has both fields. -/
def ofDocument? : Document → Option Exception
  | .object fields => do
    let kind ← fields.lookup "exc_type" >>= ExceptionKind.ofDocument?
    let message ← ((fields.lookup "arg").getD .null).optionalText?
    return { kind, message }
  | .array [kind, message] => do
    let kind ← ExceptionKind.ofDocument? kind
    let message ← message.optionalText?
    return { kind, message }
  | _ => none

end Exception

/-- How an operation on the heap fails. -/
inductive Error where
  /-- Something went wrong that no program on the heap can ask for. -/
  | internal (message : String)
  | raised (exception : Exception)
deriving DecidableEq, Repr

namespace Error

/-- The error in full. -/
def display : Error → String
  | .internal message => s!"Internal error in bindery: {message}"
  | .raised exception => exception.display

/-- The kind of the exception; an internal error has none. -/
def kind? : Error → Option ExceptionKind
  | .internal _ => none
  | .raised exception => some exception.kind

/-- The message without the kind. -/
def message? : Error → Option String
  | .internal message => some message
  | .raised exception => exception.message

/-- Whether a handler for `handled` catches the error. Nothing catches an internal error. -/
def isCaughtBy (error : Error) (handled : ExceptionKind) : Bool :=
  match error with
  | .internal _ => false
  | .raised exception => exception.kind.isCaughtBy handled

/-- An internal error whose cause is a failure to write text. -/
def formatting : Error :=
  .internal "formatting failed"

end Error

end ObjectHeap
