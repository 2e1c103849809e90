/-
This file defines the configuration of a heap, the single settings it can be built from, and
its form as a document. A document may leave out any field, and a field left out keeps its
standard value, so that the limit on nested calls stays on unless a document switches it off.
-/

import ObjectHeap.Document
import ObjectHeap.Limits

namespace ObjectHeap

/-- How a method is named when it is rendered. -/
inductive MethodStyle where
  /-- By its owner class and the plain name of its function. -/
  | classQualified
  /-- By the qualified name of its function alone. -/
  | qualifiedName
deriving DecidableEq, Repr

/-- The configuration of a heap. -/
structure Config where
  /-- How many slots of freed methods are kept apart for new methods. -/
  methodPoolCapacity : UInt64
  methodStyle : MethodStyle
  limits : Limits
deriving DecidableEq, Repr

namespace Config

/-- The number of method slots that are kept apart unless another is set. -/
def standardMethodPoolCapacity : UInt64 := 100

/-- The configuration of a heap nobody has configured. -/
def standard : Config :=
  { methodPoolCapacity := standardMethodPoolCapacity
    methodStyle := .classQualified
    limits := Limits.standard }

/-! ### Building a configuration setting by setting -/

/-- One setting of a configuration. -/
inductive Setting where
  | maxAllocations (limit : UInt64)
  | maxMemory (limit : UInt64)
  | gcInterval (interval : UInt64)
  | maxRecursionDepth (limit : Option UInt64)
  | methodPoolCapacity (capacity : UInt64)
  | methodStyle (style : MethodStyle)
deriving DecidableEq, Repr

/-- Changes one setting. -/
def set (config : Config) : Setting → Config
  | .maxAllocations limit =>
    { config with limits := { config.limits with maxAllocations := some limit } }
  | .maxMemory limit =>
    { config with limits := { config.limits with maxMemory := some limit } }
  | .gcInterval interval =>
    { config with limits := { config.limits with gcInterval := some interval } }
  | .maxRecursionDepth limit =>
    { config with limits := { config.limits with maxRecursionDepth := limit } }
  | .methodPoolCapacity capacity => { config with methodPoolCapacity := capacity }
  | .methodStyle style => { config with methodStyle := style }

/-- The standard configuration under `limits`, with the settings made in order. -/
def build (limits : Limits) (settings : List Setting) : Config :=
  settings.foldl set { standard with limits }

end Config

/-! ### The form as a document -/

namespace MethodStyle

/-- The name of a style. -/
def name : MethodStyle → String
  | .classQualified => "class_qualified"
  | .qualifiedName => "qualified_name"

/-- The style of a name. -/
def ofName? : String → Option MethodStyle
  | "class_qualified" => some .classQualified
  | "qualified_name" => some .qualifiedName
  | _ => none

/-- Reads a style. -/
def ofDocument? (document : Document) : Option MethodStyle :=
  document.alternative? >>= ofName?

end MethodStyle

namespace Limits

/-- Writes all four limits; a limit that is off is written as `null`. -/
def toDocument (limits : Limits) : Document :=
  .object
    [("max_allocations", .ofOptionalWord limits.maxAllocations),
     ("max_memory", .ofOptionalWord limits.maxMemory),
     ("gc_interval", .ofOptionalWord limits.gcInterval),
     ("max_recursion_depth", .ofOptionalWord limits.maxRecursionDepth)]

/-- Reads limits. A limit left out is the standard one, and `null` switches a limit off. -/
def ofDocument? (document : Document) : Option Limits := do
  let fields ← document.fields?
  let (maxAllocations, fields) ←
    fields.nextOr "max_allocations" Document.optionalWord? standard.maxAllocations
  let (maxMemory, fields) ←
    fields.nextOr "max_memory" Document.optionalWord? standard.maxMemory
  let (gcInterval, fields) ←
    fields.nextOr "gc_interval" Document.optionalWord? standard.gcInterval
  let (maxRecursionDepth, fields) ←
    fields.nextOr "max_recursion_depth" Document.optionalWord? standard.maxRecursionDepth
  fields.done?
  return { maxAllocations, maxMemory, gcInterval, maxRecursionDepth }

end Limits

namespace Config

/-- Writes all fields. -/
def toDocument (config : Config) : Document :=
  .object
    [("method_free_list_capacity", .ofWord config.methodPoolCapacity),
     ("method_repr", .text config.methodStyle.name),
     ("limits", config.limits.toDocument)]

/-- Reads a configuration. A field left out is the standard one. -/
def ofDocument? (document : Document) : Option Config := do
  let fields ← document.fields?
  let (methodPoolCapacity, fields) ←
    fields.nextOr "method_free_list_capacity" Document.word? standard.methodPoolCapacity
  let (methodStyle, fields) ←
    fields.nextOr "method_repr" MethodStyle.ofDocument? standard.methodStyle
  let (limits, fields) ← fields.nextOr "limits" Limits.ofDocument? standard.limits
  fields.done?
  return { methodPoolCapacity, methodStyle, limits }

end Config

end ObjectHeap
