/-
This file lists every handle in a payload with the place it is stored at, and says by the place
alone whether the payload owns it: ancestors, the target of a weak reference and registered weak
references are known, and every other place owns what is stored there. What the collector follows
and what a dead payload leaves behind are both, with multiplicity, the handles at owning places.
So the two agree with each other, and neither changes with what is only known.
-/

import ObjectHeap.Proofs.Renaming

namespace ObjectHeap

/-! ### Places -/

/-- Where in a payload a handle is stored. -/
inductive Place where
  | item
  | field
  | base
  | ancestor
  | member
  | type
  | target
  | callback
  | function
  | receiver
  | owner
  | watcher
deriving DecidableEq, Repr

namespace Place

/-- Whether a payload owns what is stored at a place. The bases of a class keep its ancestors
alive. A weak reference does not keep its target alive, and it is not kept alive by being
registered with it. -/
def isOwning : Place → Bool
  | .ancestor | .target | .watcher => false
  | _ => true

/-- Handles that are all stored at one place. -/
def holding (place : Place) (handles : List Handle) : List (Place × Handle) :=
  handles.map fun handle => (place, handle)

/-- Values that are all stored at one place. Only handles refer to anything. -/
def holdingValues (place : Place) (values : List Value) : List (Place × Handle) :=
  place.holding (values.filterMap Value.handle?)

end Place

namespace Payload

open Place

variable {Code : Type}

/-- The handles in a payload, once for every time one is stored, with their places. -/
def references : Payload Code → List (Place × Handle)
  | .str _ => []
  | .list items | .tuple items => item.holdingValues items
  | .function data => field.holdingValues data.attributes.values
  | .type data =>
    base.holding data.bases ++ ancestor.holding data.ancestors ++
      member.holdingValues data.members.values
  | .object data =>
    Place.type.holding [data.type] ++ field.holdingValues data.attributes.values ++
      watcher.holding data.watchers
  | .weakref data =>
    target.holding data.target.toList ++ callback.holdingValues data.callback.toList
  | .method data =>
    Place.function.holding [data.function] ++ receiver.holdingValues data.receiver.toList ++
      owner.holdingValues data.owner.toList ++ watcher.holding data.watchers

/-- The handles that are stored at the places a choice accepts. -/
def referred (payload : Payload Code) (choice : Place → Bool) : List Handle :=
  (payload.references.filter fun reference => choice reference.1).map Prod.snd

theorem filterMap_handle?_toList (value : Option Value) :
    value.toList.filterMap Value.handle? = (value.bind Value.handle?).toList := by
  cases value with
  | none => rfl
  | some value => cases value <;> rfl

/-! ### The list is complete -/

@[simp]
theorem map_snd_holding (place : Place) (handles : List Handle) :
    (place.holding handles).map Prod.snd = handles :=
  List.map_map.trans (List.map_id handles)

@[simp]
theorem map_snd_holdingValues (place : Place) (values : List Value) :
    (place.holdingValues values).map Prod.snd = values.filterMap Value.handle? :=
  map_snd_holding place _

/-- A handle is mentioned in a payload exactly when it is stored at some place in it. -/
theorem mem_mentions_iff (payload : Payload Code) (handle : Handle) :
    handle ∈ payload.mentions ↔ handle ∈ payload.references.map Prod.snd := by
  cases payload <;>
    simp only [mentions, visits, watchers, target?, references, List.map_append, List.map_nil,
      map_snd_holding, map_snd_holdingValues, filterMap_handle?_toList, List.mem_append,
      List.mem_cons, List.not_mem_nil, Option.toList_none, or_false] <;>
    tauto

/-- Renamings that agree on the references of a payload make the same of it: there are no other
handles in it. -/
theorem rename_congr_of_references {name other : Handle → Handle} {payload : Payload Code}
    (same : ∀ reference ∈ payload.references, name reference.2 = other reference.2) :
    payload.rename name = payload.rename other := by
  refine rename_congr fun handle mentioned => ?_
  obtain ⟨reference, stored, rfl⟩ := List.mem_map.mp ((payload.mem_mentions_iff handle).mp mentioned)
  exact same reference stored

/-! ### What is owned -/

theorem referred_holding (choice : Place → Bool) (place : Place) (handles : List Handle) :
    (((place.holding handles).filter fun reference => choice reference.1).map Prod.snd) =
      if choice place then handles else [] := by
  unfold holding
  rw [List.filter_map, List.map_map]
  cases accepted : choice place <;> simp [Function.comp_def, accepted]

theorem referred_holdingValues (choice : Place → Bool) (place : Place) (values : List Value) :
    (((place.holdingValues values).filter fun reference => choice reference.1).map Prod.snd) =
      if choice place then values.filterMap Value.handle? else [] :=
  referred_holding choice place _

/-- The collector follows the references at owning places, each once. -/
theorem visits_eq_referred (payload : Payload Code) :
    payload.visits = payload.referred isOwning := by
  cases payload <;>
    simp only [visits, referred, references, List.filter_append, List.map_append,
      referred_holding, referred_holdingValues, filterMap_handle?_toList] <;>
    simp [isOwning]

/-- A payload with other handles where it owns none. -/
def withKnown (ancestors watchers : List Handle) (target : Option Handle) :
    Payload Code → Payload Code
  | .type data => .type { data with ancestors }
  | .object data => .object { data with watchers }
  | .weakref data => .weakref { data with target }
  | .method data => .method { data with watchers }
  | payload => payload

/-- What the collector follows in a payload and what the payload leaves behind when it dies are
the same references, each as often in the one as in the other, and they are those that the
payload owns. Other ancestors, another target and other registered weak references change
neither. -/
theorem traversal_agrees_with_teardown (payload : Payload Code) :
    (∀ stack, (payload.leavings stack : Multiset Handle) =
      (payload.visits : Multiset Handle) + (stack : Multiset Handle)) ∧
    (payload.visits : Multiset Handle) = payload.referred isOwning ∧
    ∀ ancestors watchers target,
      (payload.withKnown ancestors watchers target).visits = payload.visits ∧
      ∀ stack, (payload.withKnown ancestors watchers target).leavings stack =
        payload.leavings stack := by
  refine ⟨payload.leavings_eq, congrArg _ payload.visits_eq_referred,
    fun ancestors watchers target => ?_⟩
  cases payload <;> exact ⟨rfl, fun stack => rfl⟩

end Payload

end ObjectHeap
