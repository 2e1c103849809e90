/-
This file says what values, payloads, arguments and memos own: a multiset of handles, with one
handle for every reference. What a payload owns is what the collector follows, and it is also
what a payload leaves behind when it dies. Storing an attribute or recording a copy takes one
value over, and gives back the value that was there before.
-/

import Mathlib.Algebra.BigOperators.Group.Multiset.Basic
import Mathlib.Algebra.Order.Group.Multiset
import Mathlib.Tactic.Abel
import ObjectHeap.DeepCopy

namespace ObjectHeap

/-! ### Values -/

/-- The references that some values own. -/
def owned (values : List Value) : Multiset Handle :=
  (values.filterMap Value.handle? : List Handle)

/-- The reference that a value owns, if it is a handle. -/
def Value.owns (value : Value) : Multiset Handle :=
  owned [value]

@[simp] theorem owned_nil : owned [] = 0 := rfl

@[simp] theorem owned_cons (value : Value) (rest : List Value) :
    owned (value :: rest) = value.owns + owned rest := by
  cases value with
  | ref handle => rfl
  | _ => exact (zero_add _).symm

theorem mem_owned {values : List Value} {handle : Handle} :
    handle ∈ owned values ↔ Value.ref handle ∈ values := by
  unfold owned
  rw [Multiset.mem_coe, List.mem_filterMap]
  constructor
  · rintro ⟨value, member, same⟩
    cases value <;> cases same
    exact member
  · intro member
    exact ⟨.ref handle, member, rfl⟩

@[simp] theorem owned_append (values others : List Value) :
    owned (values ++ others) = owned values + owned others := by
  unfold owned
  rw [List.filterMap_append]
  rfl

/-- The order of values has no bearing on the references that they own. -/
theorem owned_perm {values others : List Value} (perm : values.Perm others) :
    owned values = owned others :=
  Multiset.coe_eq_coe.mpr (perm.filterMap _)

namespace Value

@[simp] theorem owns_nil : Value.nil.owns = 0 := rfl

@[simp] theorem owns_bool (value : Bool) : (Value.bool value).owns = 0 := rfl

@[simp] theorem owns_int (value : Int64) : (Value.int value).owns = 0 := rfl

@[simp] theorem owns_ref (handle : Handle) : (Value.ref handle).owns = {handle} := rfl

theorem present?_ne_nil (value : Value) : value.present? ≠ some .nil := by
  cases value <;> exact nofun

/-- What is left of a value that may be nil owns what the value owns. -/
theorem owned_present? (value : Value) : owned value.present?.toList = value.owns := by
  cases value <;> simp [present?]

end Value

/-- The references that a value owns, if there is a value. -/
theorem owned_toList (value : Option Value) :
    owned value.toList = ((value.bind Value.handle?).toList : List Handle) := by
  cases value with
  | none => rfl
  | some value => cases value <;> rfl

/-! ### Payloads -/

namespace Payload

variable {Code : Type}

/-- The references that a payload owns. -/
def owns (payload : Payload Code) : Multiset Handle :=
  payload.visits

@[simp] theorem owns_str (text : String) : (str text : Payload Code).owns = 0 := rfl

@[simp] theorem owns_list (items : List Value) :
    (list items : Payload Code).owns = owned items := rfl

@[simp] theorem owns_tuple (items : List Value) :
    (tuple items : Payload Code).owns = owned items := rfl

@[simp] theorem owns_function (data : Function Code) :
    (function data).owns = owned data.attributes.values := rfl

@[simp] theorem owns_type (data : Class) :
    (type data : Payload Code).owns = (data.bases : Multiset Handle) + owned data.members.values :=
  rfl

@[simp] theorem owns_object (data : Instance) :
    (object data : Payload Code).owns = {data.type} + owned data.attributes.values := rfl

@[simp] theorem owns_weakref (data : Weakref) :
    (weakref data : Payload Code).owns = owned data.callback.toList :=
  (owned_toList data.callback).symm

@[simp] theorem owns_method (data : Method) :
    (method data : Payload Code).owns = {data.function} + owned data.parts := by
  rw [Method.parts, owned_append, owned_toList, owned_toList]
  rfl

/-- Registered weak references are not owned. -/
@[simp] theorem visits_mapWatchers (payload : Payload Code)
    (change : List Handle → List Handle) :
    (payload.mapWatchers change).visits = payload.visits := by
  cases payload <;> rfl

/-! ### What a payload leaves behind -/

theorem leave_eq (stack : List Handle) (value : Value) :
    (leave stack value : Multiset Handle) = value.owns + (stack : Multiset Handle) := by
  cases value with
  | ref handle => rfl
  | _ => exact (zero_add _).symm

theorem leave?_eq (stack : List Handle) (value : Option Value) :
    (leave? stack value : Multiset Handle) = owned value.toList + (stack : Multiset Handle) := by
  cases value with
  | none => exact (zero_add _).symm
  | some value => simp [leave?, leave_eq]

theorem foldl_leave_eq (values : List Value) (stack : List Handle) :
    ((values.foldl leave stack : List Handle) : Multiset Handle) =
      owned values + (stack : Multiset Handle) := by
  induction values generalizing stack with
  | nil => exact (zero_add _).symm
  | cons value rest inductionHypothesis =>
    rw [List.foldl_cons, inductionHypothesis, leave_eq, owned_cons]
    abel

theorem foldl_push_eq (handles stack : List Handle) :
    ((handles.foldl (fun stack base => base :: stack) stack : List Handle) : Multiset Handle) =
      (handles : Multiset Handle) + (stack : Multiset Handle) := by
  rw [List.foldl_flip_cons_eq_append, ← Multiset.coe_add, Multiset.coe_reverse, List.map_id']

/-- A payload leaves behind what it owned, each reference once. -/
theorem leavings_eq (payload : Payload Code) (stack : List Handle) :
    (payload.leavings stack : Multiset Handle) = payload.owns + (stack : Multiset Handle) := by
  cases payload with
  | str text => exact (zero_add _).symm
  | list items => exact foldl_leave_eq items stack
  | tuple items => exact foldl_leave_eq items stack
  | function data => exact foldl_leave_eq data.attributes.values stack
  | type data =>
    rw [leavings, foldl_leave_eq, foldl_push_eq, owns_type]
    abel
  | object data =>
    rw [leavings, foldl_leave_eq, owns_object, ← Multiset.cons_coe, ← Multiset.singleton_add]
    abel
  | weakref data => rw [leavings, leave?_eq, owns_weakref]
  | method data =>
    rw [leavings, leave?_eq, leave?_eq, owns_method, Method.parts, owned_append,
      ← Multiset.cons_coe, ← Multiset.singleton_add]
    abel

end Payload

/-! ### Tables -/

section

variable {κ : Type} [DecidableEq κ] (entries : List (κ × Value)) (name : κ) (value : Value)

/-- A name that is not there stays as it is when others are replaced. -/
theorem replace_of_not_mem (absent : name ∉ entries.map Prod.fst) :
    (entries.map fun entry => if entry.1 = name then (name, value) else entry) = entries := by
  refine (List.map_congr_left fun entry member => if_neg fun same => ?_).trans (List.map_id _)
  exact absent (List.mem_map.mpr ⟨entry, member, same⟩)

/-- Replacing the value of a name exchanges one value for the other. -/
theorem owned_replace (distinct : (entries.map Prod.fst).Nodup)
    (present : name ∈ entries.map Prod.fst) :
    owned ((entries.map fun entry =>
        if entry.1 = name then (name, value) else entry).map Prod.snd) +
        owned (entries.lookup name).toList =
      owned (entries.map Prod.snd) + value.owns := by
  induction entries with
  | nil => simp at present
  | cons entry rest inductionHypothesis =>
    rw [List.map_cons, List.nodup_cons] at distinct
    by_cases here : entry.1 = name
    · rw [here] at distinct
      rw [List.map_cons, replace_of_not_mem rest name value distinct.1, if_pos here,
        List.lookup_cons]
      simp only [here, beq_self_eq_true, List.map_cons, owned_cons, Option.toList_some,
        owned_nil, add_zero]
      abel
    · have skipped : (name == entry.1) = false := by simpa using Ne.symm here
      have inRest : name ∈ rest.map Prod.fst := by
        rcases List.mem_cons.mp present with same | inRest
        · exact absurd same.symm here
        · exact inRest
      rw [List.map_cons, if_neg here, List.lookup_cons, skipped]
      simp only [List.map_cons, owned_cons]
      rw [add_assoc, inductionHypothesis distinct.2 inRest, add_assoc]

/-- A value that is stored at the end is owned beside all others. -/
theorem owned_concat (absent : name ∉ entries.map Prod.fst) :
    owned ((entries ++ [(name, value)]).map Prod.snd) + owned (entries.lookup name).toList =
      owned (entries.map Prod.snd) + value.owns := by
  have fresh : entries.lookup name = none := by
    rw [List.lookup_eq_none_iff]
    intro entry member
    by_cases same : name = entry.1
    · exact absurd (List.mem_map.mpr ⟨entry, member, same.symm⟩) absent
    · simpa using same
  simp [fresh]

end

/-- Storing an attribute takes its value over, and gives up what was there. -/
theorem Attributes.owned_insert (attributes : Attributes) (name : String) (value : Value) :
    owned (attributes.insert name value).values + owned (attributes.find? name).toList =
      owned attributes.values + value.owns := by
  unfold insert
  split
  · rename_i present
    exact owned_replace attributes.entries name value attributes.distinct present
  · rename_i absent
    exact owned_concat attributes.entries name value absent

namespace Payload

variable {Code : Type} (name : String) (content : Value)

/-- A payload with a table takes over what is stored in it, and gives up what was there. -/
theorem owns_object_insert (data : Instance) :
    (object { data with attributes := data.attributes.insert name content } : Payload Code).owns +
        owned (data.attributes.find? name).toList =
      (object data : Payload Code).owns + content.owns := by
  rw [owns_object, owns_object, add_assoc, Attributes.owned_insert, add_assoc]

theorem owns_type_insert (data : Class) :
    (type { data with members := data.members.insert name content } : Payload Code).owns +
        owned (data.members.find? name).toList =
      (type data : Payload Code).owns + content.owns := by
  rw [owns_type, owns_type, add_assoc, Attributes.owned_insert, add_assoc]

theorem owns_function_insert (data : Function Code) :
    (function { data with attributes := data.attributes.insert name content }).owns +
        owned (data.attributes.find? name).toList =
      (function data).owns + content.owns :=
  data.attributes.owned_insert name content

end Payload

/-- The references that a memo owns. -/
def Memo.owns (memo : Memo) : Multiset Handle :=
  owned memo.values

@[simp] theorem Memo.owns_empty : Memo.empty.owns = 0 := rfl

/-- On every walk through a memo one comes to all references that the memo owns. -/
theorem Memo.Walk.owned_along (walk : Memo.Walk) (memo : Memo) :
    owned (walk.along memo) = memo.owns :=
  owned_perm (walk.perm memo)

/-- Recording a copy takes it over, and gives up the copy that was there. -/
theorem Memo.owns_insert (memo : Memo) (source : Handle) (copy : Value) :
    (memo.insert source copy).owns + owned (memo.find? source).toList =
      memo.owns + copy.owns := by
  unfold insert
  split
  · rename_i present
    exact owned_replace memo.copies source copy memo.distinct present
  · rename_i absent
    exact owned_concat memo.copies source copy absent

/-- What is recorded is owned. -/
theorem Memo.owns_subset_of_find? {memo : Memo} {source : Handle} {copy : Value}
    (found : memo.find? source = some copy) : copy.owns ⊆ memo.owns := by
  obtain ⟨earlier, later, split, _⟩ := List.lookup_eq_some_iff.mp found
  have member : copy ∈ memo.values := List.mem_map.mpr ⟨(source, copy), split ▸ by simp, rfl⟩
  cases copy with
  | ref handle =>
    exact Multiset.singleton_subset.mpr (mem_owned.mpr member)
  | _ => exact Multiset.zero_subset _

/-! ### Arguments -/

/-- The references that arguments own. -/
def Arguments.owns (arguments : Arguments) : Multiset Handle :=
  owned arguments.values

@[simp] theorem Arguments.owns_ofList (values : List Value) :
    (Arguments.ofList values).owns = owned values := by
  unfold owns Arguments.values ofList
  simp

@[simp] theorem Arguments.owns_prepend (arguments : Arguments) (value : Value) :
    (arguments.prepend value).owns = value.owns + arguments.owns := by
  unfold owns Arguments.values prepend
  simp only [List.cons_append, owned_cons]

end ObjectHeap
