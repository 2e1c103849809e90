/-
This file defines the quoted form of a text, the form a string has inside a rendered value.
A text is put in single quotes, or in double quotes when that saves escaping: it has a single
quote and no double one. A backslash escapes itself, the quote that is used, and the three
line and column breaks, which are written as letters.
-/

namespace ObjectHeap.Text.Quoted

/-- The quote a text is put in. -/
def quote (text : List Char) : Char :=
  if '\'' ∈ text ∧ '"' ∉ text then '"' else '\''

/-- A character inside quotes. -/
def escape (quote char : Char) : List Char :=
  if char = '\\' then ['\\', '\\']
  else if char = '\n' then ['\\', 'n']
  else if char = '\r' then ['\\', 'r']
  else if char = '\t' then ['\\', 't']
  else if char = quote then ['\\', char]
  else [char]

/-- The quoted form of a text. -/
def encode (text : List Char) : List Char :=
  let mark := quote text
  mark :: text.flatMap (escape mark) ++ [mark]

/-- The quoted form of a string. -/
def render (text : String) : String :=
  String.ofList (encode text.toList)

end ObjectHeap.Text.Quoted
