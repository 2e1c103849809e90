/-
This file defines how values are rendered as text. Lists and tuples render their items, and a
list or tuple that stands inside itself is cut short there: one set goes along that has those in
it that are being rendered. Instances render as their classes say. What has no contents to show is
rendered by its name and its public number.
-/

import ObjectHeap.Call
import ObjectHeap.Equality
import ObjectHeap.Text.Quoted

namespace ObjectHeap

variable {Code Host : Type} {α : Type}

/-- A word in hexadecimal digits. -/
def hexadecimal (word : UInt64) : String :=
  "0x" ++ String.ofList (Nat.toDigits 16 word.toNat)

/-- Where the entry of a slot is, by its public number. -/
def Heap.location (heap : Heap Code) (handle : Handle) : String :=
  hexadecimal (heap.publicId handle)

/-- What the items of a sequence are rendered between. -/
structure Brackets where
  opening : String
  closing : String
  /-- What follows an item that has no other beside it. -/
  afterSingle : String

/-- The brackets of a list. -/
def Brackets.list : Brackets := ⟨"[", "]", ""⟩

/-- The brackets of a tuple. -/
def Brackets.tuple : Brackets := ⟨"(", ")", ","⟩

/-- The text of items that have texts of their own. -/
def Brackets.enclose (brackets : Brackets) (texts : List String) : String :=
  let ending := if texts.length = 1 then brackets.afterSingle else ""
  brackets.opening ++ ", ".intercalate texts ++ ending ++ brackets.closing

/-- The text of a sequence that is cut short because it stands inside itself. -/
def Brackets.cut (brackets : Brackets) : String :=
  brackets.opening ++ "..." ++ brackets.closing

/-- An attempt along which the lists and tuples are kept that are being rendered. No slot is there
twice. -/
abbrev Rendering (Code Host : Type) : Type → Type :=
  Along (List Handle) Code Host

/-- Renders something with a slot among those that are being rendered. The slot is taken out again
also when that fails. -/
def Rendering.inside (handle : Handle) (rendering : Rendering Code Host α) :
    Rendering Code Host α :=
  ⟨fun unfinished => do
    let (outcome, unfinished) ← rendering.run (unfinished.insert handle)
    return (outcome, unfinished.erase handle)⟩

/-- The texts of items in order, where `render` renders one item. -/
def allTexts (render : Value → Rendering Code Host String) :
    List Value → Rendering Code Host (List String)
  | [] => return []
  | item :: rest => do
    let first ← render item
    return first :: (← allTexts render rest)

/-- The text of a weak reference, which tells what it refers to. -/
def weakrefText (handle : Handle) (weakref : Weakref) : Attempt Code Host String := do
  let heap ← currentHeap
  let location := heap.location handle
  match weakref.target.filter heap.isLive with
  | some target =>
    let type ← ask fun heap => heap.typeName (.ref target)
    let targetLocation := heap.location target
    return s!"<weakref at {location}; to '{type}' at {targetLocation}>"
  | none => return s!"<weakref at {location}; dead>"

/-- How a method is named in its text. -/
def methodTarget (method : Method) : Attempt Code Host String := do
  let data ← ask fun heap => heap.function method.function
  match (← currentHeap).methodStyle with
  | .classQualified =>
    let owner ← ask fun heap => heap.ownerName method.owner
    return owner ++ "." ++ data.name
  | .qualifiedName => return data.qualifiedName

namespace Engine

/-- The text of a method, where `render` renders a receiver. -/
def methodText (engine : Engine Code Host) (render : Value → Rendering Code Host String)
    (method : Handle) : Rendering Code Host String := do
  let data ← ask fun heap => heap.method method
  retainAll data.parts
  let target ← Along.ofAttempt (methodTarget data)
  let result : Rendering Code Host String := do
    match data.receiver with
    | none => return s!"<unbound method {target}>"
    | some receiver =>
      let text ← render receiver
      return s!"<bound method {target} of {text}>"
  result.ensuring (engine.releaseList data.parts)

/-- The text of an instance: what its class says, or else its type and place. -/
def instanceText (engine : Engine Code Host) (object : Value) (handle : Handle) :
    Attempt Code Host String := do
  match ← engine.callSpecial object "__repr__" [object] with
  | none =>
    let type ← ask fun heap => heap.typeName object
    let location := (← currentHeap).location handle
    return s!"<{type} object at {location}>"
  | some answer =>
    match ← ask fun heap => heap.text? answer with
    | some text =>
      engine.release answer
      return text
    | none =>
      let type ← ask fun heap => heap.typeName answer
      engine.release answer
      Attempt.refuse (.renderingNotText type)

/-- The text of the sequence in a slot, where `render` renders an item. It is cut short if the
sequence is being rendered already. -/
def sequenceText (engine : Engine Code Host) (render : Value → Rendering Code Host String)
    (handle : Handle) (brackets : Brackets) (items : List Value) :
    Rendering Code Host String := do
  retainAll items
  if (← Along.state).contains handle then
    engine.releaseList items
    return brackets.cut
  else
    let texts ← (Rendering.inside handle (allTexts render items)).ensuring
      (engine.releaseList items)
    return brackets.enclose texts

/-- The text of a value, looking at most so many levels deep. -/
def renderWithin (engine : Engine Code Host) : Nat → Value → Rendering Code Host String
  | 0, _ => Along.ofAttempt (Attempt.refuse .tooDeep)
  | levels + 1, value => do
    match value with
    | .nil => return Value.nilText
    | .bool value => return Value.boolText value
    | .int value => return Value.intText value
    | .ref handle =>
      match ← fetch handle with
      | .str text => return Text.Quoted.render text
      | .function data =>
        let name := data.qualifiedName
        let location := (← currentHeap).location handle
        return s!"<function {name} at {location}>"
      | .type data =>
        let name := data.name
        return s!"<class '{name}'>"
      | .weakref data => Along.ofAttempt (weakrefText handle data)
      | .method _ => engine.methodText (engine.renderWithin levels) handle
      | .object _ => engine.instanceText value handle
      | .list items =>
        engine.sequenceText (engine.renderWithin levels) handle Brackets.list items
      | .tuple items =>
        engine.sequenceText (engine.renderWithin levels) handle Brackets.tuple items

/-- The text of a value. -/
def render (engine : Engine Code Host) (value : Value) : Attempt Code Host String :=
  (engine.renderWithin (maxDataDepth + 1) value).starting []

end Engine

end ObjectHeap
