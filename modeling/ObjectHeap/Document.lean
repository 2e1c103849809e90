/-
This file defines documents, the trees that settings and exceptions are written to and
read from. A number is kept apart only as far as the readers look at it: a whole number by
its value, every other spelling by its text.
-/

namespace ObjectHeap

/-- A document: what a data file parses to. Fields keep the order they were written in. -/
inductive Document where
  | null
  | boolean (value : Bool)
  | whole (value : Int)
  /-- A number that is not written as a whole one, by its spelling. -/
  | fractional (spelling : String)
  | text (value : String)
  | array (items : List Document)
  | object (fields : List (String × Document))

namespace Document

/-- The least number that is too great for an unsigned machine word. -/
def wordBound : Int := 0x10000000000000000

/-- A whole number that fits an unsigned machine word. -/
def word? : Document → Option UInt64
  | .whole value =>
    if 0 ≤ value ∧ value < wordBound then some (UInt64.ofNat value.toNat) else none
  | _ => none

/-- A word or, spelled `null`, the absence of one. -/
def optionalWord? : Document → Option (Option UInt64)
  | .null => some none
  | document => document.word?.map some

/-- A text or, spelled `null`, the absence of one. -/
def optionalText? : Document → Option (Option String)
  | .null => some none
  | .text value => some (some value)
  | _ => none

/-- The name of a bare alternative: the name as a text, or an object whose only field is
that name with nothing in it. -/
def alternative? : Document → Option String
  | .text name => some name
  | .object [(name, .null)] => some name
  | _ => none

/-- The document of a word. -/
def ofWord (value : UInt64) : Document :=
  .whole value.toNat

/-- The document of an optional word. -/
def ofOptionalWord : Option UInt64 → Document
  | none => .null
  | some value => ofWord value

/-- The document of an optional text. -/
def ofOptionalText : Option String → Document
  | none => .null
  | some value => .text value

/-! ### Records

A record is written as an object, whose fields may come in any order and beside fields that
nobody reads, or as an array of its fields in the order of their declaration. -/

/-- One field of a record with two spellings: what is written under `name`, or at the head of
what is left of the array. -/
structure Fields where
  /-- The fields by name; empty for an array. -/
  named : List (String × Document)
  /-- The fields by place that are still to be read; empty for an object. -/
  placed : List Document

/-- The fields of a record, or nothing for a document that is no record. -/
def fields? : Document → Option Fields
  | .object fields => some ⟨fields, []⟩
  | .array items => some ⟨[], items⟩
  | _ => none

namespace Fields

/-- Takes the next field: its document if it is written, and the fields after it. -/
def next (fields : Fields) (name : String) : Option Document × Fields :=
  match fields.placed with
  | document :: rest => (some document, { fields with placed := rest })
  | [] => (fields.named.lookup name, fields)

/-- Reads the next field with `read`, or takes `fallback` for a field that is not written. -/
def nextOr {α : Type} (fields : Fields) (name : String) (read : Document → Option α)
    (fallback : α) : Option (α × Fields) :=
  match fields.next name with
  | (none, rest) => some (fallback, rest)
  | (some document, rest) => (read document).map fun value => (value, rest)

/-- Succeeds when no field by place is left over. -/
def done? (fields : Fields) : Option Unit :=
  if fields.placed.isEmpty then some () else none

end Fields

end Document

end ObjectHeap
