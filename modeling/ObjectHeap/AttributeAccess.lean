/-
This file defines how attributes are read and assigned. An instance is asked for itself
first, and then its class with all ancestors. A function that is found on the class turns
into a method bound to the instance; read through the class itself, it turns into an unbound
method. Methods pass on what they do not know to their functions.
-/

import ObjectHeap.Method

namespace ObjectHeap

variable {Code Host : Type}

/-- Refuses an attribute that a value does not have. -/
def refuseAttribute {α : Type} (value : Value) (name : String) : Attempt Code Host α := do
  Attempt.refuse (.noAttribute (← ask fun heap => heap.typeName value) name)

/-- Whether a name is one of those that every function answers to by itself. They cannot be
assigned. -/
def isReadOnly (name : String) : Bool :=
  name = "__name__" || name = "__qualname__" || name = "__doc__"

namespace Engine

/-- Reads an attribute of a function. -/
def functionAttribute (engine : Engine Code Host) (function : Handle) (name : String) :
    Attempt Code Host Value := do
  match ← fetch function with
  | .function data =>
    match name with
    | "__name__" => engine.newString data.name
    | "__qualname__" => engine.newString data.qualifiedName
    | "__doc__" =>
      match data.doc with
      | some doc => engine.newString doc
      | none => return .nil
    | _ =>
      match data.attributes.find? name with
      | some value =>
        retainValue value
        return value
      | none => Attempt.refuse (.noAttribute Kind.function.label name)
  | _ => Attempt.fail (.internal "Function::py_getattr on a non-function")

/-- Reads an attribute of a method: its parts, or else what its function has. -/
def methodAttribute (engine : Engine Code Host) (method : Handle) (name : String) :
    Attempt Code Host Value := do
  let data ← ask fun heap => heap.method method
  match name with
  | "__func__" | "im_func" =>
    retain data.function
    return .ref data.function
  | "__self__" | "im_self" =>
    let value := data.receiver.getD .nil
    retainValue value
    return value
  | "im_class" =>
    let value := data.owner.getD .nil
    retainValue value
    return value
  | _ => engine.functionAttribute data.function name

/-- Turns what a class found into what is read through it. A function becomes a method of the
class with the instance as its receiver, a method is bound, and other values stay. -/
def readThrough (engine : Engine Code Host) (found object type : Value) :
    Attempt Code Host Value := do
  let payload ← ask fun heap => heap.readValue found
  match payload, found with
  | some (.function _), _ => engine.newMethod found object type
  | some (.method _), .ref method => engine.bindMethod method object type
  | _, _ =>
    retainValue found
    return found

/-- Reads an attribute that an instance does not have itself. -/
def instanceTypeAttribute (engine : Engine Code Host) (object : Value) (type : Handle)
    (name : String) : Attempt Code Host Value := do
  if name = "__class__" then
    retain type
    return .ref type
  match ← ask fun heap => heap.find type name with
  | some found => engine.readThrough found object (.ref type)
  | none => Attempt.refuse (.noAttribute (← ask fun heap => heap.className type) name)

/-- Reads an attribute of a class. -/
def typeAttribute (engine : Engine Code Host) (type : Handle) (name : String) :
    Attempt Code Host Value := do
  if name = "__name__" then
    engine.newString (← ask fun heap => heap.className type)
  else
    match ← ask fun heap => heap.find type name with
    | some found => engine.readThrough found .nil (.ref type)
    | none => Attempt.refuse (.noClassAttribute (← ask fun heap => heap.className type) name)

/-- Reads an attribute of a value. -/
def getAttribute (engine : Engine Code Host) (value : Value) (name : String) :
    Attempt Code Host Value := do
  match value with
  | .ref handle =>
    match ← fetch handle with
    | .object data =>
      match data.attributes.find? name with
      | some content =>
        retainValue content
        return content
      | none => engine.instanceTypeAttribute value data.type name
    | .type _ => engine.typeAttribute handle name
    | .method _ => engine.methodAttribute handle name
    | .function _ => engine.functionAttribute handle name
    | _ => refuseAttribute value name
  | _ => refuseAttribute value name

/-- Assigns an attribute of a value, which takes the new content over and gives up what was
there. Instances, classes and functions take new attributes. -/
def setAttribute (engine : Engine Code Host) (value : Value) (name : String)
    (content : Value) : Attempt Code Host Unit := do
  match value with
  | .ref handle =>
    match ← fetchToChange handle with
    | .object data =>
      modifyHeap (·.mapPayload handle fun _ =>
        .object { data with attributes := data.attributes.insert name content })
      engine.release? (data.attributes.find? name)
    | .type data =>
      modifyHeap (·.mapPayload handle fun _ =>
        .type { data with members := data.members.insert name content })
      engine.release? (data.members.find? name)
    | .function data =>
      if isReadOnly name then
        engine.release content
        Attempt.refuse (.readOnlyAttribute Kind.function.label name)
      else
        modifyHeap (·.mapPayload handle fun _ =>
          .function { data with attributes := data.attributes.insert name content })
        engine.release? (data.attributes.find? name)
    | .method _ =>
      engine.release content
      Attempt.refuse (.noAttribute Kind.method.label name)
    | _ =>
      let type ← ask fun heap => heap.typeName value
      engine.release content
      Attempt.refuse (.noAttribute type name)
  | _ =>
    let type ← ask fun heap => heap.typeName value
    engine.release content
    Attempt.refuse (.noAttribute type name)

end Engine

end ObjectHeap
