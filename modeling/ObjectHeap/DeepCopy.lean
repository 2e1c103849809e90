/-
This file defines deep copies. Lists, tuples, instances and methods are copied with all they
contain; everything else is shared between a value and its copy. A memo records what was
copied, so that what occurs twice is copied once, and what contains itself is copied to
something that contains itself. A memo outlives a copy that fails, with what it recorded.
-/

import ObjectHeap.AttributeAccess
import ObjectHeap.Call

namespace ObjectHeap

/-- The copies that were made so far, by the slots of what was copied. A memo owns a reference
to every copy. No slot is there twice. -/
structure Memo where
  copies : List (Handle × Value)
  distinct : (copies.map Prod.fst).Nodup
deriving DecidableEq

namespace Memo

/-- A memo without copies. -/
def empty : Memo :=
  { copies := [], distinct := List.nodup_nil }

/-- How many copies are recorded. -/
def size (memo : Memo) : Nat :=
  memo.copies.length

/-- The copy of what is in a slot. -/
def find? (memo : Memo) (source : Handle) : Option Value :=
  memo.copies.lookup source

/-- Records a copy in the place of an earlier one. -/
def insert (memo : Memo) (source : Handle) (copy : Value) : Memo :=
  if present : source ∈ memo.copies.map Prod.fst then
    { copies := memo.copies.map fun entry =>
        if entry.1 = source then (source, copy) else entry
      distinct := by rw [map_fst_replace]; exact memo.distinct }
  else
    { copies := memo.copies ++ [(source, copy)]
      distinct := by
        rw [List.map_append]
        exact nodup_concat memo.distinct present }

/-- The copies, each once, in the order in which they were first recorded. -/
def values (memo : Memo) : List Value :=
  memo.copies.map Prod.snd

/-- A way to go through the copies of memos. Memos have no order of their own, so that a walk may
come to the copies in any order, but comes to each of them once. -/
structure Walk where
  along : Memo → List Value
  perm (memo : Memo) : (along memo).Perm memo.values

/-- The walk in the order in which the copies were first recorded. -/
def Walk.recorded : Walk where
  along := values
  perm memo := .refl memo.values

/-- A copy that is recorded is found, and every other one is found as before. -/
theorem find?_insert (memo : Memo) (source other : Handle) (copy : Value) :
    (memo.insert source copy).find? other =
      if other = source then some copy else memo.find? other := by
  unfold insert
  split
  · rename_i present
    show (memo.copies.map fun entry =>
      if entry.1 = source then (source, copy) else entry).lookup other = _
    rw [lookup_replace_of_mem memo.copies source copy present]
    rfl
  · rename_i absent
    show (memo.copies ++ [(source, copy)]).lookup other = _
    rw [lookup_concat_of_not_mem memo.copies source copy absent]
    rfl

end Memo

variable {Code Host : Type} {α : Type}

/-- An attempt that also changes a memo. -/
abbrev Copying (Code Host : Type) : Type → Type :=
  Along Memo Code Host

namespace Copying

/-- An attempt that leaves the memo alone. -/
abbrev ofAttempt (attempt : Attempt Code Host α) : Copying Code Host α :=
  Along.ofAttempt attempt

/-- The memo as it is. -/
def memo : Copying Code Host Memo :=
  Along.state

/-- Changes the memo. -/
def setMemo (memo : Memo) : Copying Code Host Unit :=
  Along.setState memo

/-- A copy, and an action whether it succeeded or not. -/
abbrev ensuring (copying : Copying Code Host α) (action : Action Code Host Unit) :
    Copying Code Host α :=
  Along.ensuring copying action

/-- A copy, and an action in case it fails. -/
def onError (copying : Copying Code Host α) (action : Action Code Host Unit) :
    Copying Code Host α :=
  ⟨fun memo => do
    let outcome ← copying.run memo
    match outcome.1 with
    | .ok _ => return outcome
    | .error _ =>
      action
      return outcome⟩

/-- The recorded copy of what is in a slot, with a reference of its own. -/
def recorded? (source : Handle) : Copying Code Host (Option Value) := do
  match (← memo).find? source with
  | some copy =>
    retainValue copy
    return some copy
  | none => return none

/-- The attributes of an instance, each value with a reference of its own. -/
def retainAttributes (handle : Handle) : Copying Code Host (List (String × Value)) := do
  match ← fetch handle with
  | .object data =>
    retainAll data.attributes.values
    return data.attributes.entries
  | _ => return []

end Copying

namespace Engine

/-- Records a copy, with a reference of its own, and gives up one that was recorded before. -/
def memorize (engine : Engine Code Host) (source : Handle) (copy : Value) :
    Copying Code Host Unit := do
  retainValue copy
  let memo ← Copying.memo
  Copying.setMemo (memo.insert source copy)
  engine.release? (memo.find? source)

/-- Copies the items that are left and appends the copies to a list, where `copy` copies one
item. -/
def copyInto (engine : Engine Code Host) (copy : Value → Copying Code Host Value)
    (list : Value) : List Value → Copying Code Host Unit
  | [] => return ()
  | item :: rest => do
    let append : Copying Code Host Unit := do
      let copied ← (copy item).ensuring (engine.release item)
      engine.append list copied
    append.onError do
      engine.releaseList rest
      engine.release list
    engine.copyInto copy list rest

/-- Copies a list. The copy is recorded while it is still empty, and takes its items then. -/
def copyList (engine : Engine Code Host) (copy : Value → Copying Code Host Value)
    (handle : Handle) (items : List Value) : Copying Code Host Value := do
  let list ← (Copying.ofAttempt (engine.newList [])).onError (engine.releaseList items)
  engine.memorize handle list
  engine.copyInto copy list items
  return list

/-- Copies the items that are left behind those in `copies`, where `copy` copies one item. -/
def copyItems (engine : Engine Code Host) (copy : Value → Copying Code Host Value)
    (copies : List Value) : List Value → Copying Code Host (List Value)
  | [] => return copies
  | item :: rest => do
    let copied ← ((copy item).ensuring (engine.release item)).onError do
      engine.releaseList rest
      engine.releaseList copies
    engine.copyItems copy (copies ++ [copied]) rest

/-- Copies a tuple. A tuple that its own items lead back to was copied on the way; that copy
is the one that counts. -/
def copyTuple (engine : Engine Code Host) (copy : Value → Copying Code Host Value)
    (handle : Handle) (items : List Value) : Copying Code Host Value := do
  let copies ← engine.copyItems copy [] items
  match ← Copying.recorded? handle with
  | some existing =>
    engine.releaseList copies
    return existing
  | none =>
    let tuple ← engine.newTuple copies
    engine.memorize handle tuple
    return tuple

/-- Copies the attributes that are left to an instance, where `copy` copies one value. -/
def copyAttributes (engine : Engine Code Host) (copy : Value → Copying Code Host Value)
    (object : Value) : List (String × Value) → Copying Code Host Unit
  | [] => return ()
  | (name, value) :: rest => do
    let store : Copying Code Host Unit := do
      let copied ← (copy value).ensuring (engine.release value)
      engine.setAttribute object name copied
    store.onError do
      engine.releaseList (rest.map Prod.snd)
      engine.release object
    engine.copyAttributes copy object rest

/-- Copies an instance: as its class says, or else by a new instance that is recorded while it
is still bare, and takes its attributes then. -/
def copyInstance (engine : Engine Code Host) (copy : Value → Copying Code Host Value)
    (value : Value) (handle type : Handle) : Copying Code Host Value := do
  match ← ask fun heap => heap.special? value "__deepcopy__" with
  | some function =>
    retain function
    retainValue value
    let copied ← (engine.call (.ref function) (Arguments.ofList [value, .nil])).ensuring
      (engine.release (.ref function))
    engine.memorize handle copied
    return copied
  | none =>
    let object ← engine.newInstance (.ref type)
    engine.memorize handle object
    let attributes ← Copying.retainAttributes handle
    engine.copyAttributes copy object attributes
    return object

/-- Copies a method: a new method of the same function and owner, and a copy of the receiver. -/
def copyMethod (engine : Engine Code Host) (copy : Value → Copying Code Host Value)
    (handle : Handle) : Copying Code Host Value := do
  let data ← ask fun heap => heap.method handle
  retainAll data.parts
  match data.receiver with
  | some receiver =>
    let copied ← ((copy receiver).ensuring (engine.release receiver)).onError
      (engine.release? data.owner)
    engine.allocateMethod data.function (some copied) data.owner
  | none => engine.allocateMethod data.function none data.owner

/-- Copies a value, looking at most so many levels deep. What was copied before is found at
any depth. -/
def copyWithin (engine : Engine Code Host) : Nat → Value → Copying Code Host Value
  | 0, value => do
    match value with
    | .ref handle =>
      match ← Copying.recorded? handle with
      | some copy => return copy
      | none => Copying.ofAttempt (Attempt.refuse .tooDeep)
    | value => return value
  | levels + 1, value => do
    match value with
    | .ref handle =>
      match ← Copying.recorded? handle with
      | some copy => return copy
      | none =>
        match ← fetch handle with
        | .str _ | .function _ | .type _ | .weakref _ =>
          retainValue value
          return value
        | .list items =>
          retainAll items
          engine.copyList (engine.copyWithin levels) handle items
        | .tuple items =>
          retainAll items
          engine.copyTuple (engine.copyWithin levels) handle items
        | .object data => engine.copyInstance (engine.copyWithin levels) value handle data.type
        | .method _ =>
          let copy ← engine.copyMethod (engine.copyWithin levels) handle
          engine.memorize handle copy
          return copy
    | value => return value

/-- Copies a value, with the copies in a memo. The answer has the memo as it is then, also when
the copy failed. -/
def deepCopy (engine : Engine Code Host) (value : Value) (memo : Memo) :
    Action Code Host (Except Error Value × Memo) :=
  (engine.copyWithin (maxDataDepth + 1) value).run memo

/-- Gives up all copies in a memo, on a walk through them. -/
def releaseMemo (engine : Engine Code Host) (memo : Memo) (walk : Memo.Walk) :
    Action Code Host Unit :=
  engine.releaseList (walk.along memo)

/-- Runs a copy with a memo of its own, which is given up afterwards. -/
def withFreshMemo (engine : Engine Code Host) (copying : Copying Code Host α) (walk : Memo.Walk) :
    Attempt Code Host α :=
  ⟨do
    let (outcome, memo) ← copying.run Memo.empty
    engine.releaseMemo memo walk
    return outcome⟩

end Engine

end ObjectHeap
