/-
This file proves that a configuration survives being written to a document and read back, whole
or in part. A part of a record is an excerpt: any of its fields as an object, in any order, or
its first fields as an array. Reading goes through the declared fields one by one, and at each
step what is left of the excerpt is an excerpt of the fields that are still to come; so a field
that was kept gives its own value and a field that was left out gives the standard one. The
limits are a record inside the record, and the two may be cut and spelled independently.
-/

import Mathlib.Data.List.Nodup
import ObjectHeap.Config

namespace ObjectHeap

namespace Document

/-! ### Words -/

@[simp]
theorem word?_ofWord (value : UInt64) : (ofWord value).word? = some value := by
  have fits : (value.toNat : Int) < wordBound := Int.ofNat_lt.mpr value.toNat_lt
  rw [ofWord, word?, if_pos ⟨Int.natCast_nonneg _, fits⟩, Int.toNat_natCast,
    UInt64.ofNat_toNat]

@[simp]
theorem optionalWord?_ofOptionalWord (value : Option UInt64) :
    (ofOptionalWord value).optionalWord? = some value := by
  cases value with
  | none => rfl
  | some value =>
    change (ofWord value).word?.map some = _
    rw [word?_ofWord, Option.map_some]

/-! ### Excerpts of a record -/

/-- `document` spells the fields of `record` whose names are in `kept`, and no others. -/
inductive Excerpt (record : List (String × Document)) : List String → Document → Prop where
  /-- An object has the fields that are kept, in any order. -/
  | named {kept : List String} {fields : List (String × Document)}
      (order : fields.Perm (record.filter fun field => field.1 ∈ kept)) :
      Excerpt record kept (.object fields)
  /-- An array has the first fields, and leaves out the others. -/
  | placed (count : Nat) :
      Excerpt record ((record.take count).map Prod.fst) (.array ((record.take count).map Prod.snd))

namespace Fields

/-- What is left to be read says of the fields in `record`, which are still to come, what those
named in `kept` hold. -/
inductive Tells (kept : List String) (record : List (String × Document)) : Fields → Prop where
  | named {fields : List (String × Document)}
      (found : ∀ name document, (name, document) ∈ record →
        fields.lookup name = if name ∈ kept then some document else none) :
      Tells kept record ⟨fields, []⟩
  | placed (count : Nat)
      (written : ∀ field ∈ record.take count, field.1 ∈ kept)
      (leftOut : ∀ field ∈ record.drop count, field.1 ∉ kept) :
      Tells kept record ⟨[], (record.take count).map Prod.snd⟩

/-- The next field gives its own value if it is kept and the fallback otherwise, and what is
left speaks of the fields after it. -/
theorem Tells.nextOr {α : Type} {kept : List String} {record : List (String × Document)}
    {fields : Fields} {name : String} {document : Document} {read : Document → Option α} {value : α}
    (fallback : α) (tells : Tells kept ((name, document) :: record) fields)
    (reads : read document = some value) :
    ∃ rest, fields.nextOr name read fallback = some (if name ∈ kept then value else fallback, rest) ∧
      Tells kept record rest := by
  cases tells with
  | @named named found =>
    refine ⟨⟨named, []⟩, ?_, .named fun name document member =>
      found name document (List.mem_cons_of_mem _ member)⟩
    have here := found name document List.mem_cons_self
    by_cases member : name ∈ kept <;>
      simp [Fields.nextOr, Fields.next, here, member, reads]
  | placed count written leftOut =>
    cases count with
    | zero =>
      have absent : name ∉ kept := leftOut (name, document) List.mem_cons_self
      exact ⟨⟨[], []⟩, by simp [Fields.nextOr, Fields.next, absent],
        .placed 0 (by simp) fun field member => leftOut field (List.mem_cons_of_mem _ member)⟩
    | succ count =>
      have present : name ∈ kept := written (name, document) List.mem_cons_self
      exact ⟨⟨[], (record.take count).map Prod.snd⟩,
        by simp [Fields.nextOr, Fields.next, present, reads],
        .placed count (fun field member => written field (List.mem_cons_of_mem _ member)) leftOut⟩

/-- Once all fields have been read nothing is left over. -/
theorem Tells.done? {kept : List String} {fields : Fields} (tells : Tells kept [] fields) :
    fields.done? = some () := by
  cases tells with
  | named => rfl
  | placed => simp [Fields.done?]

end Fields

/-- In a list of fields with distinct names, a name finds the field that bears it. -/
theorem lookup_eq_some_of_mem {fields : List (String × Document)} {name : String}
    {document : Document} (distinct : (fields.map Prod.fst).Nodup)
    (member : (name, document) ∈ fields) : fields.lookup name = some document := by
  induction fields with
  | nil => cases member
  | cons field rest inductionHypothesis =>
    obtain ⟨first, held⟩ := field
    rw [List.map_cons, List.nodup_cons] at distinct
    rcases List.mem_cons.mp member with same | later
    · cases same
      simp
    · have other : name ≠ first := by
        rintro rfl
        exact distinct.1 (List.mem_map.mpr ⟨(name, document), later, rfl⟩)
      rw [List.lookup_cons, beq_eq_false_iff_ne.mpr other]
      exact inductionHypothesis distinct.2 later

/-- An excerpt of a record is a record, and it speaks of all the fields. -/
theorem Excerpt.tells {record : List (String × Document)} {kept : List String}
    {document : Document} (distinct : (record.map Prod.fst).Nodup)
    (excerpt : Excerpt record kept document) :
    ∃ fields, document.fields? = some fields ∧ fields.Tells kept record := by
  cases excerpt with
  | @named _ fields order =>
    have distinctFields : (fields.map Prod.fst).Nodup :=
      (order.map Prod.fst).nodup_iff.mpr (distinct.sublist (List.filter_sublist.map Prod.fst))
    refine ⟨⟨fields, []⟩, rfl, .named fun name document member => ?_⟩
    by_cases isKept : name ∈ kept
    · rw [if_pos isKept]
      exact lookup_eq_some_of_mem distinctFields
        (order.mem_iff.mpr (List.mem_filter.mpr ⟨member, by simpa using isKept⟩))
    · rw [if_neg isKept, List.lookup_eq_none_iff]
      rintro ⟨other, held⟩ present
      rw [bne_iff_ne]
      rintro rfl
      exact isKept (by simpa using (List.mem_filter.mp (order.mem_iff.mp present)).2)
  | placed count =>
    refine ⟨⟨[], (record.take count).map Prod.snd⟩, rfl,
      .placed count (fun field => List.mem_map_of_mem) fun field later earlier => ?_⟩
    -- A field that is left out would share its name with a field that is kept.
    rw [← List.take_append_drop count record, List.map_append] at distinct
    exact (List.nodup_append.mp distinct).2.2 _ earlier _ (List.mem_map_of_mem later) rfl

/-- The whole record, in the order of its declaration, is an excerpt that keeps every field. -/
theorem Excerpt.whole (record : List (String × Document)) :
    Excerpt record (record.map Prod.fst) (.object record) := by
  refine .named ?_
  rw [List.filter_eq_self.mpr]
  exact fun field member => decide_eq_true (List.mem_map_of_mem member)

end Document

open Document (Excerpt)

/-! ### The limits -/

namespace Limits

/-- The fields the limits are written as. -/
def record (limits : Limits) : List (String × Document) :=
  [("max_allocations", .ofOptionalWord limits.maxAllocations),
   ("max_memory", .ofOptionalWord limits.maxMemory),
   ("gc_interval", .ofOptionalWord limits.gcInterval),
   ("max_recursion_depth", .ofOptionalWord limits.maxRecursionDepth)]

/-- The limits whose names are in `kept`. The others are off, but for the limit on nested
calls. -/
def only (limits : Limits) (kept : List String) : Limits :=
  { maxAllocations := if "max_allocations" ∈ kept then limits.maxAllocations else none
    maxMemory := if "max_memory" ∈ kept then limits.maxMemory else none
    gcInterval := if "gc_interval" ∈ kept then limits.gcInterval else none
    maxRecursionDepth :=
      if "max_recursion_depth" ∈ kept then limits.maxRecursionDepth else some 1000 }

/-- An excerpt of the limits reads as the limits it keeps. -/
theorem ofDocument?_excerpt {limits : Limits} {kept : List String} {document : Document}
    (excerpt : Excerpt limits.record kept document) :
    ofDocument? document = some (limits.only kept) := by
  obtain ⟨all, isRecord, tells⟩ := excerpt.tells (by simp [record])
  obtain ⟨fields, allocations, tells⟩ :=
    tells.nextOr standard.maxAllocations (Document.optionalWord?_ofOptionalWord _)
  obtain ⟨fields, memory, tells⟩ :=
    tells.nextOr standard.maxMemory (Document.optionalWord?_ofOptionalWord _)
  obtain ⟨fields, interval, tells⟩ :=
    tells.nextOr standard.gcInterval (Document.optionalWord?_ofOptionalWord _)
  obtain ⟨fields, depth, tells⟩ :=
    tells.nextOr standard.maxRecursionDepth (Document.optionalWord?_ofOptionalWord _)
  simp only [ofDocument?, isRecord, allocations, memory, interval, depth, tells.done?,
    Option.bind_eq_bind, Option.bind_some]
  rfl

theorem only_all (limits : Limits) : limits.only (limits.record.map Prod.fst) = limits := by
  simp [only, record]

end Limits

/-! ### The configuration -/

@[simp]
theorem MethodStyle.ofDocument?_name (style : MethodStyle) :
    ofDocument? (.text style.name) = some style := by
  cases style <;> rfl

namespace Config

/-- The fields a configuration is written as, with `limits` for the document of the limits. -/
def record (config : Config) (limits : Document) : List (String × Document) :=
  [("method_free_list_capacity", .ofWord config.methodPoolCapacity),
   ("method_repr", .text config.methodStyle.name),
   ("limits", limits)]

/-- The settings whose names are in `kept`, and of the limits, if they are kept, those whose
names are in `keptLimits`. The other settings are the standard ones. -/
def only (config : Config) (kept keptLimits : List String) : Config :=
  { methodPoolCapacity :=
      if "method_free_list_capacity" ∈ kept then config.methodPoolCapacity
      else standard.methodPoolCapacity
    methodStyle := if "method_repr" ∈ kept then config.methodStyle else standard.methodStyle
    limits := if "limits" ∈ kept then config.limits.only keptLimits else standard.limits }

/-- An excerpt of a configuration, with an excerpt of its limits in it, reads as what it
keeps. -/
theorem ofDocument?_excerpt {config : Config} {kept keptLimits : List String}
    {limits document : Document} (limitsExcerpt : Excerpt config.limits.record keptLimits limits)
    (excerpt : Excerpt (config.record limits) kept document) :
    ofDocument? document = some (config.only kept keptLimits) := by
  obtain ⟨all, isRecord, tells⟩ := excerpt.tells (by simp [record])
  obtain ⟨fields, capacity, tells⟩ :=
    tells.nextOr standard.methodPoolCapacity (Document.word?_ofWord _)
  obtain ⟨fields, style, tells⟩ :=
    tells.nextOr standard.methodStyle (MethodStyle.ofDocument?_name _)
  obtain ⟨fields, limitsRead, tells⟩ :=
    tells.nextOr standard.limits (Limits.ofDocument?_excerpt limitsExcerpt)
  simp only [ofDocument?, isRecord, capacity, style, limitsRead, tells.done?,
    Option.bind_eq_bind, Option.bind_some]
  rfl

/-- A configuration that is written and read back is the same, and so is what is kept of it when
any of its fields and any of the fields of its limits are left out of the document: in an object
the fields may stand in any order, and an array has the first of them. What is left out is as in
a heap nobody has configured. A limit that is off stays off because it is written, as `null`;
a limit on nested calls that is left out is 1000. -/
theorem survives_documents (config : Config) :
    ofDocument? config.toDocument = some config ∧
      ∀ (kept keptLimits : List String) (limits document : Document),
        Excerpt config.limits.record keptLimits limits →
        Excerpt (config.record limits) kept document →
        ofDocument? document = some (config.only kept keptLimits) := by
  refine ⟨?_, fun kept keptLimits limits document => ofDocument?_excerpt⟩
  calc ofDocument? config.toDocument
    _ = some (config.only ((config.record config.limits.toDocument).map Prod.fst)
          (config.limits.record.map Prod.fst)) :=
      ofDocument?_excerpt (.whole config.limits.record) (.whole _)
    _ = some config := by simp [only, record, Limits.only_all]

/-- Two documents that keep the style and some of the limits, with the fields not in the order
of their declaration. One has the limits as an array, which ends before the limit on nested
calls; in the other that limit is written, and off. -/
theorem survives_two_partial_documents :
    ofDocument? (.object
          [("limits", .array [.whole 500, .null]), ("method_repr", .text "qualified_name")]) =
        some { standard with
          methodStyle := .qualifiedName
          limits := { Limits.standard with maxAllocations := some 500 } } ∧
      ofDocument? (.object
          [("limits", .object [("max_recursion_depth", .null), ("max_allocations", .whole 500)]),
           ("method_repr", .text "qualified_name")]) =
        some { standard with
          methodStyle := .qualifiedName
          limits := { Limits.unlimited with maxAllocations := some 500 } } := by
  let config : Config :=
    { methodPoolCapacity := 4
      methodStyle := .qualifiedName
      limits := { Limits.unlimited with maxAllocations := some 500 } }
  constructor
  · exact (survives_documents config).2 ["method_repr", "limits"]
      ["max_allocations", "max_memory"] _ _ (.placed 2) (.named (.swap _ _ []))
  · exact (survives_documents config).2 ["method_repr", "limits"]
      ["max_allocations", "max_recursion_depth"] _ _ (.named (.swap _ _ [])) (.named (.swap _ _ []))

end Config

end ObjectHeap
