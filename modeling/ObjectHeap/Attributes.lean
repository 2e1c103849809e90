/-
This file defines attribute tables: names with a value each, in the order in which the names
were first stored. Storing under a name that is there keeps its place.
-/

import ObjectHeap.Value

namespace ObjectHeap

section

variable {κ α : Type} [DecidableEq κ] (entries : List (κ × α)) (name : κ) (value : α)

/-- Replacing the value of a name keeps all names. -/
theorem map_fst_replace :
    (entries.map fun entry => if entry.1 = name then (name, value) else entry).map Prod.fst =
      entries.map Prod.fst := by
  induction entries with
  | nil => rfl
  | cons entry rest inductionHypothesis =>
    by_cases same : entry.1 = name <;> simp [same, ← inductionHypothesis]

/-- Replacing the value of a name gives it the new value, if the name is there, and changes no
other name. -/
theorem lookup_replace (other : κ) :
    (entries.map fun entry => if entry.1 = name then (name, value) else entry).lookup other =
      if other = name then (entries.lookup name).map fun _ => value
      else entries.lookup other := by
  induction entries with
  | nil => simp
  | cons entry rest inductionHypothesis =>
    rw [List.map_cons, List.lookup_cons, List.lookup_cons, List.lookup_cons,
      inductionHypothesis]
    by_cases here : entry.1 = name
    · by_cases same : other = name
      · simp [here, same]
      · have unmatched : (other == name) = false := by simpa using same
        simp [here, same, unmatched]
    · have skipped : (name == entry.1) = false := by simpa using Ne.symm here
      by_cases same : other = name <;> simp [here, same, skipped]

/-- Replacing the value of a name that is there gives it the new value and changes no other
name. -/
theorem lookup_replace_of_mem (present : name ∈ entries.map Prod.fst) (other : κ) :
    (entries.map fun entry => if entry.1 = name then (name, value) else entry).lookup other =
      if other = name then some value else entries.lookup other := by
  rw [lookup_replace]
  by_cases same : other = name
  · rw [if_pos same, if_pos same]
    cases found : entries.lookup name with
    | some old => rfl
    | none =>
      rw [List.lookup_eq_none_iff] at found
      obtain ⟨entry, member, named⟩ := List.mem_map.mp present
      have unmatched := found entry member
      rw [named] at unmatched
      simp at unmatched
  · rw [if_neg same, if_neg same]

/-- A name that is not there can be stored at the end. -/
theorem lookup_concat_of_not_mem (absent : name ∉ entries.map Prod.fst) (other : κ) :
    (entries ++ [(name, value)]).lookup other =
      if other = name then some value else entries.lookup other := by
  have fresh : entries.lookup name = none := by
    rw [List.lookup_eq_none_iff]
    intro entry member
    by_cases same : name = entry.1
    · exact absurd (List.mem_map.mpr ⟨entry, member, same.symm⟩) absent
    · simpa using same
  rw [List.lookup_append]
  by_cases same : other = name
  · rw [if_pos same, same, fresh]
    simp
  · have unmatched : (other == name) = false := by simpa using same
    rw [if_neg same, List.lookup_cons, unmatched]
    simp

omit [DecidableEq κ] in
variable {name} in
/-- Names that are all different stay so when one more is stored at the end. -/
theorem nodup_concat {names : List κ} (distinct : names.Nodup) (absent : name ∉ names) :
    (names ++ [name]).Nodup := by
  rw [List.nodup_append]
  refine ⟨distinct, by simp, ?_⟩
  intro other member added memberAdded same
  rw [List.mem_singleton] at memberAdded
  rw [same, memberAdded] at member
  exact absent member

end

/-- A table of attributes. No name is there twice. -/
structure Attributes where
  entries : List (String × Value)
  distinct : (entries.map Prod.fst).Nodup
deriving DecidableEq

namespace Attributes

/-- The empty table. -/
def empty : Attributes :=
  { entries := [], distinct := List.nodup_nil }

/-- The value of a name. -/
def find? (attributes : Attributes) (name : String) : Option Value :=
  attributes.entries.lookup name

/-- How many names there are. -/
def size (attributes : Attributes) : Nat :=
  attributes.entries.length

/-- The values in order. -/
def values (attributes : Attributes) : List Value :=
  attributes.entries.map Prod.snd

/-- Stores a value under a name: in the place of the value that is there, or at the end. -/
def insert (attributes : Attributes) (name : String) (value : Value) : Attributes :=
  if present : name ∈ attributes.entries.map Prod.fst then
    { entries := attributes.entries.map fun entry =>
        if entry.1 = name then (name, value) else entry
      distinct := by rw [map_fst_replace]; exact attributes.distinct }
  else
    { entries := attributes.entries ++ [(name, value)]
      distinct := by
        rw [List.map_append]
        exact nodup_concat attributes.distinct present }

theorem entries_insert_of_mem {attributes : Attributes} {name : String} (value : Value)
    (present : name ∈ attributes.entries.map Prod.fst) :
    (attributes.insert name value).entries =
      attributes.entries.map fun entry => if entry.1 = name then (name, value) else entry := by
  unfold insert
  rw [dif_pos present]

theorem entries_insert_of_not_mem {attributes : Attributes} {name : String} (value : Value)
    (absent : name ∉ attributes.entries.map Prod.fst) :
    (attributes.insert name value).entries = attributes.entries ++ [(name, value)] := by
  unfold insert
  rw [dif_neg absent]

/-- A name that is stored has its new value, and every other one what it had. -/
theorem find?_insert (attributes : Attributes) (name other : String) (value : Value) :
    (attributes.insert name value).find? other =
      if other = name then some value else attributes.find? other := by
  unfold insert
  split
  · rename_i present
    show (attributes.entries.map fun entry =>
      if entry.1 = name then (name, value) else entry).lookup other = _
    rw [lookup_replace_of_mem attributes.entries name value present]
    rfl
  · rename_i absent
    show (attributes.entries ++ [(name, value)]).lookup other = _
    rw [lookup_concat_of_not_mem attributes.entries name value absent]
    rfl

/-- No name is lost when another one is stored. -/
theorem size_le_insert (attributes : Attributes) (name : String) (value : Value) :
    attributes.size ≤ (attributes.insert name value).size := by
  unfold size insert
  split
  · simp
  · simp

end Attributes

end ObjectHeap
