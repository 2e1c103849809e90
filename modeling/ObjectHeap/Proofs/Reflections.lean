/-
This file compares a part of a heap with what reflects it in another heap. The part is closed: what
stands in it mentions nothing beyond it. In the other heap its entries are there in renamed slots,
whatever else is there. Questions about the part have the same answers in both heaps.
-/

import ObjectHeap.Proofs.Creation
import ObjectHeap.Proofs.Forms
import ObjectHeap.Proofs.Renaming

namespace ObjectHeap

variable {Code : Type}

theorem Value.handle?_eq_some {value : Value} {handle : Handle} :
    value.handle? = some handle ↔ handle ∈ value.owns := by
  cases value <;> simp [handle?, eq_comm]

@[simp] theorem Value.rename_id : Value.rename id = id :=
  funext fun value => by cases value <;> rfl

@[simp] theorem Attributes.rename_id (attributes : Attributes) : attributes.rename id = attributes := by
  refine Attributes.ext_entries ((List.map_congr_left fun entry _ => ?_).trans (List.map_id _))
  rw [Value.rename_id]
  rfl

@[simp] theorem Payload.rename_id (payload : Payload Code) : payload.rename id = payload := by
  cases payload <;> simp [Payload.rename]

namespace Heap

variable {one two : Heap Code} {name : Equiv.Perm Handle} {within : Set Handle}

/-- A closed part of a heap is there in another heap, in renamed slots. -/
structure Reflects (one : Heap Code) (name : Equiv.Perm Handle) (within : Set Handle)
    (two : Heap Code) : Prop where
  payloads : ∀ handle ∈ within,
    two.payload? (name handle) = (one.payload? handle).map (Payload.rename name)
  closed : ∀ handle ∈ within, ∀ payload, one.payload? handle = some payload →
    ∀ other ∈ payload.mentions, other ∈ within

namespace Reflects

variable (reflects : one.Reflects name within two)

include reflects

/-! ### Kinds and names of types -/

theorem read {handle : Handle} (inside : handle ∈ within) :
    two.read (name handle) = (one.read handle).map (Payload.rename name) := by
  unfold Heap.read
  rw [reflects.payloads handle inside]
  cases one.payload? handle <;> rfl

theorem readValue {value : Value} (inside : ∀ handle ∈ value.owns, handle ∈ within) :
    two.readValue (value.rename name) =
      (one.readValue value).map (Option.map (Payload.rename name)) := by
  cases value with
  | ref handle =>
    show two.read (name handle) >>= _ = Except.map _ (one.read handle >>= _)
    rw [reflects.read (inside handle (Multiset.mem_singleton_self handle))]
    cases one.read handle <;> rfl
  | _ => rfl

theorem kind {value : Value} (inside : ∀ handle ∈ value.owns, handle ∈ within) :
    two.kind (value.rename name) = one.kind value := by
  cases value with
  | ref handle =>
    show two.read (name handle) >>= _ = one.read handle >>= _
    rw [reflects.read (inside handle (Multiset.mem_singleton_self handle))]
    cases one.read handle with
    | error fault => rfl
    | ok payload => exact congrArg Except.ok (payload.kind_rename name)
  | _ => rfl

theorem className {type : Handle} (inside : type ∈ within) :
    two.className (name type) = one.className type := by
  unfold Heap.className
  rw [reflects.read inside]
  cases one.read type with
  | error fault => rfl
  | ok payload => cases payload <;> rfl

theorem type? {value : Value} (inside : ∀ handle ∈ value.owns, handle ∈ within) :
    two.type? (value.rename name) = (one.type? value).map (Option.map name) := by
  unfold Heap.type?
  rw [reflects.readValue inside]
  cases one.readValue value with
  | error fault => rfl
  | ok found =>
    cases found with
    | none => rfl
    | some payload =>
      cases payload with
      | type data => exact congrArg Except.ok (value.handle?_rename name)
      | _ => rfl

theorem instanceType? {value : Value} (inside : ∀ handle ∈ value.owns, handle ∈ within) :
    two.instanceType? (value.rename name) = (one.instanceType? value).map (Option.map name) := by
  unfold Heap.instanceType?
  rw [reflects.readValue inside]
  cases one.readValue value with
  | error fault => rfl
  | ok found =>
    cases found with
    | none => rfl
    | some payload => cases payload <;> rfl

theorem method? {value : Value} (inside : ∀ handle ∈ value.owns, handle ∈ within) :
    two.method? (value.rename name) = (one.method? value).map (Option.map name) := by
  unfold Heap.method?
  rw [reflects.readValue inside]
  cases one.readValue value with
  | error fault => rfl
  | ok found =>
    cases found with
    | none => rfl
    | some payload =>
      cases payload with
      | method data => exact congrArg Except.ok (value.handle?_rename name)
      | _ => rfl

theorem items? {value : Value} (inside : ∀ handle ∈ value.owns, handle ∈ within) :
    two.items? (value.rename name) =
      (one.items? value).map (Option.map (List.map (Value.rename name))) := by
  unfold Heap.items?
  rw [reflects.readValue inside]
  cases one.readValue value with
  | error fault => rfl
  | ok found =>
    cases found with
    | none => rfl
    | some payload => cases payload <;> rfl

/-- The class of an instance is within the part that the instance is in. -/
theorem mem_of_instanceType? {value : Value} {type : Handle}
    (inside : ∀ handle ∈ value.owns, handle ∈ within)
    (asked : one.instanceType? value = .ok (some type)) : type ∈ within := by
  obtain ⟨found, read, asked⟩ := Heap.bind_eq_ok.mp asked
  cases value with
  | ref handle =>
    obtain ⟨payload, held, same⟩ := Heap.bind_eq_ok.mp read
    cases same
    cases payload with
    | object data =>
      cases asked
      exact reflects.closed handle (inside handle (Multiset.mem_singleton_self handle)) _
        (one.read_eq_ok.mp held) data.type (by simp [Payload.mentions, Payload.visits])
    | _ => cases asked
  | _ =>
    cases read
    cases asked

theorem typeName {value : Value} (inside : ∀ handle ∈ value.owns, handle ∈ within) :
    two.typeName (value.rename name) = one.typeName value := by
  unfold Heap.typeName
  rw [reflects.instanceType? inside]
  cases asked : one.instanceType? value with
  | error fault => rfl
  | ok found =>
    cases found with
    | some type => exact reflects.className (reflects.mem_of_instanceType? inside asked)
    | none =>
      show two.kind (value.rename name) >>= _ = one.kind value >>= _
      rw [reflects.kind inside]

/-! ### Classes and what they find -/

theorem derives {sub : Handle} (inside : sub ∈ within) (sup : Handle) :
    two.derives (name sub) (name sup) = one.derives sub sup := by
  unfold Heap.derives
  rw [reflects.read inside]
  by_cases same : sub = sup
  · rw [if_pos same, if_pos (congrArg name same)]
  · rw [if_neg same, if_neg (name.injective.ne same)]
    cases one.read sub with
    | error fault => rfl
    | ok payload =>
      cases payload with
      | type data =>
        refine congrArg Except.ok ?_
        rw [Bool.eq_iff_iff, List.contains_iff_mem, List.contains_iff_mem]
        exact List.mem_map_of_injective name.injective
      | _ => rfl

theorem findAlong (key : String) {types : List Handle} (inside : ∀ type ∈ types, type ∈ within) :
    two.findAlong key (types.map name) =
      (one.findAlong key types).map (Option.map (Value.rename name)) := by
  induction types with
  | nil => rfl
  | cons type rest inductionHypothesis =>
    have later := inductionHypothesis fun other member => inside other (List.mem_cons_of_mem _ member)
    rw [List.map_cons]
    unfold Heap.findAlong
    rw [reflects.read (inside type List.mem_cons_self)]
    cases one.read type with
    | error fault => rfl
    | ok payload =>
      cases payload with
      | type data =>
        simp only [Except.map, Payload.rename, Except.bind, bind, Attributes.find?_rename]
        cases data.members.find? key with
        | some value => rfl
        | none => exact later
      | _ => exact later

/-- The ancestors of a class are within the part that the class is in. -/
theorem mem_of_lineage {type : Handle} {data : Class} (inside : type ∈ within)
    (held : one.payload? type = some (.type data)) :
    ∀ other ∈ type :: data.ancestors, other ∈ within := by
  intro other member
  rcases List.mem_cons.mp member with rfl | above
  · exact inside
  · exact reflects.closed type inside _ held other (by simp [Payload.mentions, above])

theorem find {type : Handle} (inside : type ∈ within) (key : String) :
    two.find (name type) key = (one.find type key).map (Option.map (Value.rename name)) := by
  unfold Heap.find
  rw [reflects.read inside]
  cases read : one.read type with
  | error fault => rfl
  | ok payload =>
    cases payload with
    | type data =>
      exact reflects.findAlong key (reflects.mem_of_lineage inside (one.read_eq_ok.mp read))
    | _ => rfl

theorem mem_of_findAlong {key : String} {types : List Handle} {value : Value}
    (inside : ∀ type ∈ types, type ∈ within) (found : one.findAlong key types = .ok (some value)) :
    ∀ handle ∈ value.owns, handle ∈ within := by
  induction types with
  | nil => cases found
  | cons type rest inductionHypothesis =>
    have later := inductionHypothesis fun other member => inside other (List.mem_cons_of_mem _ member)
    obtain ⟨payload, read, found⟩ := Heap.bind_eq_ok.mp found
    cases payload with
    | type data =>
      dsimp only at found
      split at found
      · rename_i stored there
        cases found
        intro handle member
        refine reflects.closed type (inside type List.mem_cons_self) _ (one.read_eq_ok.mp read) handle ?_
        have visited : handle ∈ data.members.values.filterMap Value.handle? :=
          List.mem_filterMap.mpr ⟨_, Attributes.mem_values there, Value.handle?_eq_some.mpr member⟩
        simp [Payload.mentions, Payload.visits, visited]
      · exact later found
    | _ => exact later found

/-- What a class of the part finds is in the part. -/
theorem mem_of_find {type : Handle} {key : String} {value : Value} (inside : type ∈ within)
    (found : one.find type key = .ok (some value)) : ∀ handle ∈ value.owns, handle ∈ within := by
  obtain ⟨payload, read, along⟩ := Heap.bind_eq_ok.mp found
  cases payload with
  | type data =>
    exact reflects.mem_of_findAlong (reflects.mem_of_lineage inside (one.read_eq_ok.mp read)) along
  | _ => cases along

/-- A class of the part finds the corresponding function under a special name, or none. -/
theorem special? {value : Value} (inside : ∀ handle ∈ value.owns, handle ∈ within) (key : String) :
    two.special? (value.rename name) key = (one.special? value key).map (Option.map name) := by
  unfold Heap.special?
  rw [reflects.instanceType? inside]
  cases asked : one.instanceType? value with
  | error fault => rfl
  | ok found =>
    cases found with
    | none => rfl
    | some type =>
      have above := reflects.mem_of_instanceType? inside asked
      show two.findFunction (name type) key = Except.map _ (one.findFunction type key)
      unfold Heap.findFunction
      rw [reflects.find above]
      cases found : one.find type key with
      | error fault => rfl
      | ok member =>
        cases member with
        | none => rfl
        | some stored =>
          cases stored with
          | ref handle =>
            have there := reflects.mem_of_find above found handle (Multiset.mem_singleton_self handle)
            show two.read (name handle) >>= _ = Except.map _ (one.read handle >>= _)
            rw [reflects.read there]
            cases one.read handle with
            | error fault => rfl
            | ok payload => cases payload <;> rfl
          | _ => rfl

/-! ### Foundations of payloads -/

theorem lineage {handle : Handle} (inside : handle ∈ within) :
    two.lineage (name handle) = (one.lineage handle).map name := by
  unfold Heap.lineage
  rw [reflects.payloads handle inside]
  cases one.payload? handle with
  | none => rfl
  | some payload => cases payload <;> rfl

/-- The ancestors that classes pass on are the renamed ones. -/
theorem inherited {bases : List Handle} (inside : ∀ base ∈ bases, base ∈ within) :
    ((bases.map name).flatMap two.lineage).eraseDups =
      ((bases.flatMap one.lineage).eraseDups).map name := by
  rw [← eraseDups_map_of_injective name.injective, List.flatMap_map, List.map_flatMap]
  exact congrArg List.eraseDups (List.flatMap_congr fun base member =>
    reflects.lineage (inside base member))

/-- What a payload is made of is there in both heaps. -/
theorem founded {payload : Payload Code} (inside : ∀ handle ∈ payload.owns, handle ∈ within)
    (founded : payload.Founded one) : (payload.rename name).Founded two := by
  cases payload with
  | method data =>
    obtain ⟨⟨function, found⟩, grounded⟩ := founded
    have member : data.function ∈ within := inside data.function (by simp)
    refine ⟨⟨{ function with attributes := function.attributes.rename name }, ?_⟩, ?_, ?_⟩
    · show two.payload? (name data.function) = _
      rw [reflects.payloads data.function member, found]
      rfl
    · intro missing
      obtain ⟨owner, owned, nil⟩ := Option.map_eq_some_iff.mp missing
      cases owner with
      | nil => exact grounded.present owned
      | _ => cases nil
    · intro unbound
      exact (Option.isSome_map).trans (grounded.owned (Option.map_eq_none_iff.mp unbound))
  | type data =>
    obtain ⟨types, same⟩ := founded
    have bases (base : Handle) (member : base ∈ data.bases) : base ∈ within :=
      inside base (by simp [member])
    refine ⟨fun image member => ?_, ?_⟩
    · obtain ⟨base, there, rfl⟩ := List.mem_map.mp member
      obtain ⟨ancestor, found⟩ := types base there
      exact ⟨_, (reflects.payloads base (bases base there)).trans (congrArg (Option.map _) found)⟩
    · show data.ancestors.map name = ((data.bases.map name).flatMap two.lineage).eraseDups
      rw [same, reflects.inherited bases]
  | _ => trivial

end Reflects

end Heap

end ObjectHeap
