/-
This file renames the slots that payloads refer to. What a payload is does not depend on slot
numbers: its kind and its weight stay, and whatever is computed from its references comes to the
same after they are renamed as before. Only what a payload refers to matters for the result, so
that two renamings that agree on that are as good as each other.
-/

import ObjectHeap.Create
import ObjectHeap.Proofs.Correspondence
import ObjectHeap.Proofs.Freeing

namespace ObjectHeap

variable {name other : Handle → Handle}

/-- Keeping every element only where it comes first does not depend on what the elements are. -/
theorem eraseDups_map_of_injective {α : Type} [DecidableEq α] {change : α → α}
    (injective : change.Injective) (values : List α) :
    (values.map change).eraseDups = values.eraseDups.map change := by
  -- A head is kept, and what goes on is the part of the tail without it.
  induction size : values.length using Nat.strong_induction_on generalizing values with
  | _ length inductionHypothesis =>
    cases values with
    | nil => rfl
    | cons head rest =>
      have shorter : (rest.filter fun value => !value == head).length < length := by
        have filtered := List.length_filter_le (fun value => !value == head) rest
        rw [← size, List.length_cons]
        omega
      rw [List.map_cons, List.eraseDups_cons, List.eraseDups_cons, List.map_cons,
        ← inductionHypothesis _ shorter _ rfl, List.filter_map]
      congr 3
      refine List.filter_congr fun value _ => ?_
      simp [injective.eq_iff]

/-! ### Values -/

namespace Value

theorem handle?_rename (name : Handle → Handle) (value : Value) :
    (value.rename name).handle? = value.handle?.map name := by
  cases value <;> rfl

@[simp] theorem isNil_rename (name : Handle → Handle) (value : Value) :
    (value.rename name).isNil = value.isNil := by
  cases value <;> rfl

theorem present?_rename (name : Handle → Handle) (value : Value) :
    (value.rename name).present? = value.present?.map (Value.rename name) := by
  cases value <;> rfl

theorem owns_rename (name : Handle → Handle) (value : Value) :
    (value.rename name).owns = value.owns.map name := by
  cases value <;> rfl

/-- Only the name of the own handle matters. -/
theorem rename_congr {value : Value} (same : ∀ handle ∈ value.owns, name handle = other handle) :
    value.rename name = value.rename other := by
  cases value with
  | ref handle => exact congrArg Value.ref (same handle (Multiset.mem_singleton_self handle))
  | _ => rfl

end Value

theorem filterMap_handle?_rename (name : Handle → Handle) (values : List Value) :
    (values.map (Value.rename name)).filterMap Value.handle? =
      (values.filterMap Value.handle?).map name := by
  rw [List.filterMap_map, List.map_filterMap]
  exact congrArg (List.filterMap · values) (funext (Value.handle?_rename name))

theorem owned_map_rename (name : Handle → Handle) (values : List Value) :
    owned (values.map (Value.rename name)) = (owned values).map name :=
  congrArg _ (filterMap_handle?_rename name values)

theorem map_rename_congr {values : List Value}
    (same : ∀ handle ∈ owned values, name handle = other handle) :
    values.map (Value.rename name) = values.map (Value.rename other) := by
  refine List.map_congr_left fun value member => Value.rename_congr fun handle owns => same handle ?_
  cases value with
  | ref found =>
    rw [Value.owns_ref, Multiset.mem_singleton] at owns
    exact mem_owned.mpr (owns ▸ member)
  | _ => cases owns

theorem option_map_rename_congr {value : Option Value}
    (same : ∀ handle ∈ owned value.toList, name handle = other handle) :
    value.map (Value.rename name) = value.map (Value.rename other) := by
  cases value with
  | none => rfl
  | some value =>
    exact congrArg some (Value.rename_congr fun handle member => same handle (by simpa using member))

/-! ### Attributes -/

namespace Attributes

/-- A table with other names for the handles in it. -/
def rename (name : Handle → Handle) (attributes : Attributes) : Attributes where
  entries := attributes.entries.map fun entry => (entry.1, entry.2.rename name)
  distinct := by
    rw [List.map_map]
    exact attributes.distinct

theorem ext_entries {first second : Attributes} (same : first.entries = second.entries) :
    first = second := by
  cases first
  cases second
  cases same
  rfl

theorem values_rename (name : Handle → Handle) (attributes : Attributes) :
    (attributes.rename name).values = attributes.values.map (Value.rename name) := by
  unfold values rename
  rw [List.map_map, List.map_map]
  rfl

@[simp] theorem size_rename (name : Handle → Handle) (attributes : Attributes) :
    (attributes.rename name).size = attributes.size :=
  List.length_map _

theorem find?_rename (name : Handle → Handle) (attributes : Attributes) (key : String) :
    (attributes.rename name).find? key = (attributes.find? key).map (Value.rename name) := by
  show (attributes.entries.map fun entry => (entry.1, entry.2.rename name)).lookup key =
    (attributes.entries.lookup key).map (Value.rename name)
  induction attributes.entries with
  | nil => rfl
  | cons entry rest inductionHypothesis =>
    rw [List.map_cons, List.lookup_cons, List.lookup_cons, inductionHypothesis]
    cases key == entry.1 <;> rfl

theorem rename_insert (name : Handle → Handle) (attributes : Attributes) (key : String)
    (value : Value) :
    (attributes.insert key value).rename name =
      (attributes.rename name).insert key (value.rename name) := by
  have keys : (attributes.rename name).entries.map Prod.fst = attributes.entries.map Prod.fst :=
    List.map_map
  apply ext_entries
  show (attributes.insert key value).entries.map (fun entry => (entry.1, entry.2.rename name)) = _
  by_cases present : key ∈ attributes.entries.map Prod.fst
  · rw [entries_insert_of_mem _ present, entries_insert_of_mem _ (keys.symm ▸ present), List.map_map]
    show _ = (attributes.entries.map fun entry => (entry.1, entry.2.rename name)).map _
    rw [List.map_map]
    refine List.map_congr_left fun entry _ => ?_
    by_cases same : entry.1 = key <;> simp [same]
  · rw [entries_insert_of_not_mem _ present, entries_insert_of_not_mem _ (keys.symm ▸ present),
      List.map_append]
    rfl

theorem rename_congr {attributes : Attributes}
    (same : ∀ handle ∈ owned attributes.values, name handle = other handle) :
    attributes.rename name = attributes.rename other := by
  apply ext_entries
  refine List.map_congr_left fun entry member => Prod.ext rfl ?_
  refine Value.rename_congr fun handle owns => same handle ?_
  cases value : entry.2 with
  | ref found =>
    rw [value, Value.owns_ref, Multiset.mem_singleton] at owns
    exact mem_owned.mpr (List.mem_map.mpr ⟨entry, member, owns ▸ value⟩)
  | _ =>
    rw [value] at owns
    cases owns

end Attributes

/-! ### Payloads -/

namespace Payload

open Heap (callbackOf deadWeakref)

variable {Code : Type}

/-- A payload with other names for all handles in it. -/
def rename (name : Handle → Handle) : Payload Code → Payload Code
  | .str text => .str text
  | .list items => .list (items.map (Value.rename name))
  | .tuple items => .tuple (items.map (Value.rename name))
  | .function data => .function { data with attributes := data.attributes.rename name }
  | .type data =>
    .type { data with
      bases := data.bases.map name
      ancestors := data.ancestors.map name
      members := data.members.rename name }
  | .object data =>
    .object {
      type := name data.type
      attributes := data.attributes.rename name
      watchers := data.watchers.map name }
  | .weakref data =>
    .weakref { target := data.target.map name, callback := data.callback.map (Value.rename name) }
  | .method data =>
    .method {
      function := name data.function
      receiver := data.receiver.map (Value.rename name)
      owner := data.owner.map (Value.rename name)
      watchers := data.watchers.map name }

variable (name) (payload : Payload Code)

@[simp] theorem kind_rename : (payload.rename name).kind = payload.kind := by
  cases payload <;> rfl

@[simp] theorem isMethod_rename : (payload.rename name).isMethod = payload.isMethod := by
  cases payload <;> rfl

@[simp] theorem isContainer_rename : (payload.rename name).isContainer = payload.isContainer := by
  cases payload <;> rfl

@[simp] theorem isReferable_rename : (payload.rename name).isReferable = payload.isReferable := by
  cases payload <;> rfl

@[simp] theorem size_rename : (payload.rename name).size = payload.size := by
  cases payload <;> simp [rename, size]

theorem visits_rename : (payload.rename name).visits = payload.visits.map name := by
  have optional (value : Option Value) :
      ((value.map (Value.rename name)).bind Value.handle?).toList =
        ((value.bind Value.handle?).toList).map name := by
    cases value with
    | none => rfl
    | some value => cases value <;> rfl
  cases payload <;>
    simp only [rename, visits, filterMap_handle?_rename, Attributes.values_rename, optional,
      List.map_append, List.map_cons, List.map_nil]

theorem owns_rename : (payload.rename name).owns = payload.owns.map name :=
  congrArg _ (payload.visits_rename name)

theorem watchers_rename : (payload.rename name).watchers = payload.watchers.map name := by
  cases payload <;> rfl

theorem target?_rename : (payload.rename name).target? = payload.target?.map name := by
  cases payload <;> rfl

theorem callbackOf_rename :
    callbackOf (payload.rename name) = (callbackOf payload).map (Value.rename name) := by
  cases payload <;> rfl

theorem foldl_leave_rename (values : List Value) (stack : List Handle) :
    (values.map (Value.rename name)).foldl leave (stack.map name) =
      (values.foldl leave stack).map name := by
  induction values generalizing stack with
  | nil => rfl
  | cons value rest inductionHypothesis =>
    rw [List.map_cons, List.foldl_cons, List.foldl_cons, ← inductionHypothesis]
    cases value <;> rfl

theorem leave?_rename (stack : List Handle) (value : Option Value) :
    leave? (stack.map name) (value.map (Value.rename name)) = (leave? stack value).map name := by
  cases value with
  | none => rfl
  | some value => cases value <;> rfl

/-- The references that a renamed payload leaves behind are stacked in the same order. -/
theorem leavings_rename (stack : List Handle) :
    (payload.rename name).leavings (stack.map name) = (payload.leavings stack).map name := by
  have pushed (handles : List Handle) :
      (handles.map name).foldl (fun stack base => base :: stack) (stack.map name) =
        (handles.foldl (fun stack base => base :: stack) stack).map name := by
    rw [List.foldl_map]
    exact List.foldl_hom _ fun _ _ => rfl
  cases payload with
  | str text => rfl
  | list items => exact foldl_leave_rename name items stack
  | tuple items => exact foldl_leave_rename name items stack
  | function data =>
    show (data.attributes.rename name).values.foldl leave _ = _
    rw [Attributes.values_rename]
    exact foldl_leave_rename name _ stack
  | type data =>
    show (data.members.rename name).values.foldl leave ((data.bases.map name).foldl _ _) = _
    rw [Attributes.values_rename, pushed]
    exact foldl_leave_rename name _ _
  | object data =>
    show (data.attributes.rename name).values.foldl leave _ = _
    rw [Attributes.values_rename]
    exact foldl_leave_rename name _ (data.type :: stack)
  | weakref data => exact leave?_rename name stack data.callback
  | method data =>
    show leave? (leave? ((data.function :: stack).map name) _) _ = _
    rw [leave?_rename, leave?_rename]
    rfl

variable {name payload}

/-- A change of registers that goes by the names goes by the new names as well. -/
theorem mapWatchers_rename {change renamed : List Handle → List Handle}
    (same : renamed (payload.watchers.map name) = (change payload.watchers).map name) :
    (payload.rename name).mapWatchers renamed = (payload.mapWatchers change).rename name := by
  cases payload with
  | object data | method data =>
    simp only [watchers] at same
    simp only [rename, mapWatchers, same]
  | _ => rfl

@[simp] theorem bareSize_rename (name : Handle → Handle) (payload : Payload Code) :
    (payload.rename name).bareSize = payload.bareSize := by
  have cleared : (payload.rename name).mapWatchers (fun _ => []) =
      (payload.mapWatchers fun _ => []).rename name := mapWatchers_rename rfl
  unfold bareSize
  rw [cleared, size_rename]

/-- A renamed payload forgets the renamed entries. -/
theorem without_rename {gone renamed : Handle → Bool}
    (same : ∀ handle, renamed (name handle) = gone handle) :
    (payload.rename name).without renamed = (payload.without gone).rename name := by
  unfold without
  rw [target?_rename, Option.any_map, show (fun handle => renamed (name handle)) = gone from funext same]
  split
  · rfl
  · refine mapWatchers_rename ?_
    rw [List.filter_map]
    exact congrArg _ (List.filter_congr fun handle _ => congrArg _ (same handle))

/-! ### What a payload mentions -/

/-- The handles in a payload: those that it owns, those that are registered with it, the target of
a weak reference, and the ancestors of a class. -/
def mentions (payload : Payload Code) : List Handle :=
  payload.visits ++ payload.watchers ++ payload.target?.toList ++
    match payload with
    | .type data => data.ancestors
    | _ => []

/-- Only the names of what is mentioned matter. -/
theorem rename_congr (same : ∀ handle ∈ payload.mentions, name handle = other handle) :
    payload.rename name = payload.rename other := by
  have owns (handle : Handle) (member : handle ∈ payload.owns) : name handle = other handle :=
    same handle (by simp [mentions, show handle ∈ payload.visits from member])
  have watched : payload.watchers.map name = payload.watchers.map other :=
    List.map_congr_left fun handle member => same handle (by simp [mentions, member])
  cases payload with
  | str text => rfl
  | list items => exact congrArg list (map_rename_congr owns)
  | tuple items => exact congrArg tuple (map_rename_congr owns)
  | function data =>
    simp only [rename]
    rw [Attributes.rename_congr owns]
  | type data =>
    rw [owns_type] at owns
    have bases : data.bases.map name = data.bases.map other :=
      List.map_congr_left fun handle member =>
        owns handle (Multiset.mem_add.mpr (Or.inl (Multiset.mem_coe.mpr member)))
    have ancestors : data.ancestors.map name = data.ancestors.map other :=
      List.map_congr_left fun handle member => same handle (by simp [mentions, member])
    simp only [rename]
    rw [bases, ancestors,
      Attributes.rename_congr fun handle member => owns handle (Multiset.mem_add.mpr (Or.inr member))]
  | object data =>
    rw [owns_object] at owns
    have type : name data.type = other data.type :=
      owns data.type (Multiset.mem_add.mpr (Or.inl (Multiset.mem_singleton_self _)))
    have watchers : data.watchers.map name = data.watchers.map other := watched
    simp only [rename]
    rw [type, watchers,
      Attributes.rename_congr fun handle member => owns handle (Multiset.mem_add.mpr (Or.inr member))]
  | weakref data =>
    have target : data.target.map name = data.target.map other := by
      cases aimed : data.target with
      | none => rfl
      | some handle => exact congrArg some (same handle (by simp [mentions, target?, aimed]))
    simp only [rename]
    rw [target, option_map_rename_congr fun handle member => owns handle (by rwa [owns_weakref])]
  | method data =>
    rw [owns_method] at owns
    have function : name data.function = other data.function :=
      owns data.function (Multiset.mem_add.mpr (Or.inl (Multiset.mem_singleton_self _)))
    have parts (handle : Handle) (member : handle ∈ owned data.receiver.toList + owned data.owner.toList) :
        name handle = other handle := by
      rw [← owned_append] at member
      exact owns handle (Multiset.mem_add.mpr (Or.inr member))
    have watchers : data.watchers.map name = data.watchers.map other := watched
    simp only [rename]
    rw [function, watchers,
      option_map_rename_congr fun handle member => parts handle (Multiset.mem_add.mpr (Or.inl member)),
      option_map_rename_congr fun handle member => parts handle (Multiset.mem_add.mpr (Or.inr member))]

end Payload

/-- An entry with other names for all handles in it. -/
def Entry.rename {Code : Type} (name : Handle → Handle) (entry : Entry Code) : Entry Code :=
  { entry with payload := entry.payload.rename name }

end ObjectHeap
