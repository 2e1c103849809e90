/-
This file defines when a heap is sound. The count of every entry is the number of references to
it: those that entries hold, those that wait for their release, and those that are owned outside
the heap. Weak references and the registers of their targets agree in both directions. Every
slot that is not in use has one home: the free slots, the method pool, or the limbo of an entry
that is being taken apart. Methods and classes are what they were made as: a method has a function
and is owned if it is not bound, and the ancestors of a class are those of its bases. The small
changes that operations are made of keep each of the four.
-/

import Mathlib.Algebra.Order.BigOperators.Group.Finset
import ObjectHeap.Heap.Lemmas
import ObjectHeap.Collect
import ObjectHeap.Proofs.Ownership

namespace ObjectHeap

/-- The owner of a method is not nil, and a method without a receiver has an owner. -/
structure Method.Grounded (method : Method) : Prop where
  present : method.owner ≠ some .nil
  owned : method.receiver = none → method.owner.isSome

/-- A method that was made after another one has the same owner, and is bound if that one is. -/
theorem Method.Grounded.remade {method made : Method} (grounded : method.Grounded)
    (same : made.owner = method.owner) (bound : made.receiver = none → method.receiver = none) :
    made.Grounded where
  present := same ▸ grounded.present
  owned missing := same ▸ grounded.owned (bound missing)

namespace Heap

variable {Code : Type}

/-! ### What soundness speaks of -/

/-- The counted references to the entry of a slot; there are none to an empty slot. -/
def tally (heap : Heap Code) (handle : Handle) : Nat :=
  ((heap.occupant? handle).map Entry.count).getD 0

/-- The weak references registered against the entry of a slot. -/
def watchers (heap : Heap Code) (handle : Handle) : List Handle :=
  ((heap.payload? handle).map Payload.watchers).getD []

/-- The target of the weak reference in a slot. -/
def target? (heap : Heap Code) (handle : Handle) : Option Handle :=
  (heap.payload? handle).bind Payload.target?

/-- How many entries a slot has held so far. -/
def births (heap : Heap Code) (handle : Handle) : Nat :=
  ((heap.slots[handle]?).map fun slot => slot.generation + 1).getD 0

/-- A heap without its slots: the books that are kept beside them. -/
def books (heap : Heap Code) : Heap Code :=
  { heap with slots := #[] }

/-- All references to an entry are counted, and a live entry has at least one. -/
structure Balanced (heap : Heap Code) (outside : Multiset Handle) : Prop where
  exact : ∀ handle, heap.tally handle =
    heap.edges.count handle + heap.pending.count handle + outside.count handle
  positive : ∀ handle, heap.isLive handle → 0 < heap.tally handle

/-- A weak reference has a target exactly when it is registered there, and then once. -/
structure Watched (heap : Heap Code) : Prop where
  registered : ∀ weakref target,
    heap.target? weakref = some target ↔ weakref ∈ heap.watchers target
  once : ∀ target, (heap.watchers target).Nodup

/-- The slots that are not in use are in one place each. -/
structure Housed (heap : Heap Code) (limbo : List Handle) : Prop where
  vacant : ∀ handle, handle ∈ heap.free ++ heap.pool.slots ++ limbo ↔
    0 < heap.births handle ∧ heap.occupant? handle = none
  apart : (heap.free ++ heap.pool.slots ++ limbo).Nodup

/-- A class with its ancestors, in the order of lookup; nothing else has any. -/
def lineage (heap : Heap Code) (handle : Handle) : List Handle :=
  match heap.payload? handle with
  | some (.type data) => handle :: data.ancestors
  | _ => []

/-- Methods and classes are what they were made as, as far as the entries are there that they were
made of. -/
structure Formed (heap : Heap Code) : Prop where
  /-- Methods are made of functions. -/
  wraps : ∀ method data payload, heap.payload? method = some (.method data) →
    heap.payload? data.function = some payload → payload.kind = .function
  /-- The owner of a method is not nil, and is not missing unless the method is bound. -/
  grounded : ∀ method data, heap.payload? method = some (.method data) → data.Grounded
  /-- The bases of a class are classes. -/
  derives : ∀ type data base payload, heap.payload? type = some (.type data) → base ∈ data.bases →
    heap.payload? base = some payload → payload.kind = .type
  /-- The ancestors of a class are its bases with their ancestors, each only where it comes first. -/
  inherits : ∀ type data, heap.payload? type = some (.type data) →
    (∀ base ∈ data.bases, heap.isLive base) →
    data.ancestors = (data.bases.flatMap heap.lineage).eraseDups
  /-- No class is its own ancestor. -/
  apart : ∀ type data, heap.payload? type = some (.type data) → type ∉ data.ancestors

/-- A heap whose entries are counted, whose weak references are registered, whose slots are
accounted for, and whose methods and classes are what they were made as. -/
structure Sound (heap : Heap Code) (outside : Multiset Handle) (limbo : List Handle) : Prop where
  balanced : heap.Balanced outside
  watched : heap.Watched
  housed : heap.Housed limbo
  formed : heap.Formed

/-! ### Reading through the entry -/

section

variable (heap : Heap Code)

theorem visits_eq (handle : Handle) :
    heap.visits handle = ((heap.occupant? handle).map fun entry => entry.payload.visits).getD [] := by
  unfold visits payload?
  rw [Option.map_map]
  rfl

theorem watchers_eq (handle : Handle) :
    heap.watchers handle =
      ((heap.occupant? handle).map fun entry => entry.payload.watchers).getD [] := by
  unfold watchers payload?
  rw [Option.map_map]
  rfl

theorem target?_eq (handle : Handle) :
    heap.target? handle = (heap.occupant? handle).bind fun entry => entry.payload.target? := by
  unfold target? payload?
  rw [Option.bind_map]
  rfl

theorem isLive_iff (handle : Handle) :
    heap.isLive handle ↔ ∃ entry, heap.occupant? handle = some entry := by
  rw [isLive_eq, Option.isSome_iff_exists]

theorem payload?_eq_some {handle : Handle} {payload : Payload Code} :
    heap.payload? handle = some payload ↔
      ∃ entry, heap.occupant? handle = some entry ∧ entry.payload = payload := by
  rw [payload?_eq, Option.map_eq_some_iff]

/-- A slot that exists has held an entry. -/
theorem births_pos_iff (handle : Handle) : 0 < heap.births handle ↔ handle < heap.slots.size := by
  unfold births
  by_cases inside : handle < heap.slots.size
  · simp [inside]
  · simp [inside]

theorem births_pos_of_occupant? {handle : Handle} {entry : Entry Code}
    (occupied : heap.occupant? handle = some entry) : 0 < heap.births handle :=
  (heap.births_pos_iff handle).mpr (heap.lt_size_of_occupant? occupied)

end

theorem tally_of_occupant? {heap : Heap Code} {handle : Handle} {entry : Entry Code}
    (occupied : heap.occupant? handle = some entry) : heap.tally handle = entry.count := by
  unfold tally
  rw [occupied]
  rfl

theorem tally_of_empty {heap : Heap Code} {handle : Handle}
    (empty : heap.occupant? handle = none) : heap.tally handle = 0 := by
  unfold tally
  rw [empty]
  rfl

theorem visits_of_occupant? {heap : Heap Code} {handle : Handle} {entry : Entry Code}
    (occupied : heap.occupant? handle = some entry) :
    heap.visits handle = entry.payload.visits := by
  rw [visits_eq, occupied]
  rfl

theorem visits_of_empty {heap : Heap Code} {handle : Handle}
    (empty : heap.occupant? handle = none) : heap.visits handle = [] := by
  rw [visits_eq, empty]
  rfl

/-! ### The references between entries -/

/-- A measure of references that adds up over the slots of a list. -/
theorem measure_slots (measure : List Handle → Nat) (nothing : measure [] = 0)
    (append : ∀ left right, measure (left ++ right) = measure left + measure right)
    (slots : List (Slot Code)) :
    measure ((slots.filterMap fun slot => slot.entry.map Entry.payload).flatMap Payload.visits) =
      ∑ place ∈ Finset.range slots.length,
        measure ((((slots[place]?).bind Slot.entry).map fun entry =>
          entry.payload.visits).getD []) := by
  induction slots with
  | nil => exact nothing
  | cons slot rest inductionHypothesis =>
    rw [List.length_cons, Finset.sum_range_succ']
    simp only [List.getElem?_cons_succ, List.getElem?_cons_zero]
    rw [← inductionHypothesis]
    cases held : slot.entry with
    | none => simp [held, nothing]
    | some entry => simp [held, append, Nat.add_comm]

/-- A measure of references that adds up over the slots of a heap. -/
theorem measure_edges (measure : List Handle → Nat) (nothing : measure [] = 0)
    (append : ∀ left right, measure (left ++ right) = measure left + measure right)
    (heap : Heap Code) :
    measure heap.edges = ∑ place ∈ Finset.range heap.slots.size, measure (heap.visits place) := by
  unfold edges payloads
  rw [measure_slots measure nothing append, Array.length_toList]
  refine Finset.sum_congr rfl fun place _ => ?_
  rw [visits_eq]
  unfold occupant?
  rw [Array.getElem?_toList]
  rfl

/-- The references between entries, slot by slot. -/
theorem count_edges (heap : Heap Code) (handle : Handle) :
    heap.edges.count handle =
      ∑ place ∈ Finset.range heap.slots.size, (heap.visits place).count handle :=
  measure_edges (List.count handle) rfl (fun _ _ => List.count_append) heap

/-- The number of references between entries, slot by slot. -/
theorem length_edges (heap : Heap Code) :
    heap.edges.length = ∑ place ∈ Finset.range heap.slots.size, (heap.visits place).length :=
  measure_edges List.length rfl (fun _ _ => List.length_append) heap

/-- Slots beyond the last one hold nothing. -/
theorem count_edges_of_le (heap : Heap Code) (bound : Nat) (large : heap.slots.size ≤ bound)
    (handle : Handle) :
    heap.edges.count handle =
      ∑ place ∈ Finset.range bound, (heap.visits place).count handle := by
  rw [count_edges]
  refine Finset.sum_subset (Finset.range_mono large) fun place _ outside => ?_
  have beyond : ¬ place < heap.slots.size := fun inside => outside (Finset.mem_range.mpr inside)
  have empty : heap.occupant? place = none := by
    cases occupied : heap.occupant? place with
    | none => rfl
    | some entry => exact absurd (heap.lt_size_of_occupant? occupied) beyond
  rw [visits_of_empty empty]
  rfl

/-- A change of one slot exchanges the references that its entry holds. -/
theorem count_edges_of_others {before after : Heap Code} (place : Handle)
    (others : ∀ other, other ≠ place → after.visits other = before.visits other)
    (handle : Handle) :
    after.edges.count handle + (before.visits place).count handle =
      before.edges.count handle + (after.visits place).count handle := by
  let bound := max (max before.slots.size after.slots.size) (place + 1)
  have inside : place ∈ Finset.range bound :=
    Finset.mem_range.mpr (lt_of_lt_of_le (Nat.lt_succ_self place) (le_max_right _ _))
  have ofBefore := Finset.add_sum_erase (Finset.range bound)
    (fun other => (before.visits other).count handle) inside
  have ofAfter := Finset.add_sum_erase (Finset.range bound)
    (fun other => (after.visits other).count handle) inside
  have same := Finset.sum_congr (rfl : (Finset.range bound).erase place = _)
    fun other member => congrArg (List.count handle) (others other (Finset.ne_of_mem_erase member))
  rw [before.count_edges_of_le bound ((le_max_left _ _).trans (le_max_left _ _)) handle,
    after.count_edges_of_le bound ((le_max_right _ _).trans (le_max_left _ _)) handle,
    ← ofBefore, ← ofAfter, same]
  omega

/-- Only entries hold references. -/
theorem mem_edges_iff (heap : Heap Code) (handle : Handle) :
    handle ∈ heap.edges ↔ ∃ place, handle ∈ heap.visits place := by
  rw [← List.count_pos_iff, count_edges, Finset.sum_pos_iff]
  constructor
  · rintro ⟨place, _, held⟩
    exact ⟨place, List.count_pos_iff.mp held⟩
  · rintro ⟨place, held⟩
    refine ⟨place, Finset.mem_range.mpr ?_, List.count_pos_iff.mpr held⟩
    cases occupied : heap.occupant? place with
    | none => rw [visits_of_empty occupied] at held; cases held
    | some entry => exact heap.lt_size_of_occupant? occupied

theorem edges_congr {before after : Heap Code} (same : ∀ handle, after.visits handle = before.visits handle)
    (handle : Handle) : after.edges.count handle = before.edges.count handle := by
  have exchanged := count_edges_of_others handle (fun other _ => same other) handle
  rw [same handle] at exchanged
  omega

end Heap

end ObjectHeap
