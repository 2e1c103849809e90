/-
This file establishes what each change of a heap does to the entries of its slots. A change
of one slot leaves the entries of all other slots alone, and the changes of the free slots
leave all entries alone. The number of slots grows only when an entry is placed in a new slot.
-/

import ObjectHeap.Heap

namespace ObjectHeap.Heap

variable {Code : Type} (heap : Heap Code)

/-! ### Reading through the entry -/

theorem isLive_eq (handle : Handle) : heap.isLive handle = (heap.occupant? handle).isSome := rfl

theorem payload?_eq (handle : Handle) :
    heap.payload? handle = (heap.occupant? handle).map Entry.payload := rfl

theorem occupant?_eq_none {handle : Handle} :
    heap.occupant? handle = none ↔ heap.payload? handle = none := by
  rw [payload?_eq, Option.map_eq_none_iff]

/-- Only an entry can be read. -/
theorem read_eq_ok {handle : Handle} {payload : Payload Code} :
    heap.read handle = .ok payload ↔ heap.payload? handle = some payload := by
  unfold read
  cases heap.payload? handle <;> simp

/-- A question in two parts is answered when both parts are. -/
theorem bind_eq_ok {Cause α β : Type} {question : Except Cause α} {next : α → Except Cause β}
    {answer : β} : question >>= next = .ok answer ↔
      ∃ found, question = .ok found ∧ next found = .ok answer := by
  cases question with
  | error fault => simp [bind, Except.bind]
  | ok found => simp [bind, Except.bind]

/-- A slot in use is a slot of the heap. -/
theorem lt_size_of_occupant? {handle : Handle} {entry : Entry Code}
    (occupied : heap.occupant? handle = some entry) : handle < heap.slots.size := by
  unfold occupant? at occupied
  cases found : heap.slots[handle]? with
  | none => simp [found] at occupied
  | some slot => exact (Array.getElem?_eq_some_iff.mp found).1

theorem occupant?_new (config : Config) (handle : Handle) :
    (new config : Heap Code).occupant? handle = none := by
  simp [new, occupant?]

/-! ### Changing one slot -/

/-- Changing what is in a slot changes no other slot. -/
theorem occupant?_setEntry (handle other : Handle) (entry : Option (Entry Code)) :
    (heap.setEntry handle entry).occupant? other =
      if other = handle then (if handle < heap.slots.size then entry else none)
      else heap.occupant? other := by
  unfold setEntry occupant?
  rw [Array.getElem?_modify]
  by_cases same : handle = other
  · subst same
    by_cases inside : handle < heap.slots.size <;> simp [inside]
  · rw [if_neg same, if_neg (Ne.symm same)]

/-- Changing the entry of a slot changes no other slot, and puts no entry where there is none. -/
theorem occupant?_mapEntry (handle other : Handle) (change : Entry Code → Entry Code) :
    (heap.mapEntry handle change).occupant? other =
      if other = handle then (heap.occupant? other).map change else heap.occupant? other := by
  unfold mapEntry occupant?
  rw [Array.getElem?_modify]
  by_cases same : handle = other
  · subst same
    rw [if_pos rfl, if_pos rfl]
    cases heap.slots[handle]? <;> rfl
  · rw [if_neg same, if_neg (Ne.symm same)]

/-- Changing a payload keeps the number of references. -/
theorem occupant?_mapPayload (handle other : Handle) (change : Payload Code → Payload Code) :
    (heap.mapPayload handle change).occupant? other =
      if other = handle then
        (heap.occupant? other).map fun entry => { entry with payload := change entry.payload }
      else heap.occupant? other :=
  heap.occupant?_mapEntry handle other _

/-- Taking a reference keeps the payload. -/
theorem occupant?_increment (handle other : Handle) :
    (heap.increment handle).occupant? other =
      if other = handle then
        (heap.occupant? other).map fun entry => { entry with count := entry.count + 1 }
      else heap.occupant? other :=
  heap.occupant?_mapEntry handle other _

/-! ### Free slots -/

theorem slots_takeFree : heap.takeFree.2.slots = heap.slots := by
  unfold takeFree
  split <;> rfl

theorem slots_takeFreeForMethod : heap.takeFreeForMethod.2.slots = heap.slots := by
  unfold takeFreeForMethod
  split
  · rfl
  · exact heap.slots_takeFree

theorem slots_recycle (handle : Handle) (isMethod : Bool) :
    (heap.recycle handle isMethod).slots = heap.slots := by
  unfold recycle
  split <;> rfl

theorem tracker_recycle (handle : Handle) (isMethod : Bool) :
    (heap.recycle handle isMethod).tracker = heap.tracker := by
  unfold recycle
  split <;> rfl

theorem occupant?_recycle (handle other : Handle) (isMethod : Bool) :
    (heap.recycle handle isMethod).occupant? other = heap.occupant? other := by
  unfold occupant?
  rw [slots_recycle]

theorem isLive_recycle (handle other : Handle) (isMethod : Bool) :
    (heap.recycle handle isMethod).isLive other = heap.isLive other :=
  congrArg Option.isSome (heap.occupant?_recycle handle other isMethod)

/-! ### Placing an entry -/

/-- A payload that is placed in a new slot stands at the end, with one reference. -/
theorem occupant?_place_none (payload : Payload Code) (other : Handle) :
    (heap.place payload none).2.occupant? other =
      if other = heap.slots.size then some { count := 1, payload } else heap.occupant? other := by
  unfold place occupant?
  rw [Array.getElem?_push]
  by_cases same : other = heap.slots.size
  · rw [if_pos same, if_pos same]
    rfl
  · rw [if_neg same, if_neg same]

/-- A payload that is placed in a free slot stands there, with one reference. -/
theorem occupant?_place_some (payload : Payload Code) {handle : Handle}
    (inside : handle < heap.slots.size) (other : Handle) :
    (heap.place payload (some handle)).2.occupant? other =
      if other = handle then some { count := 1, payload } else heap.occupant? other := by
  unfold place occupant?
  rw [Array.getElem?_modify]
  by_cases same : handle = other
  · subst same
    rw [if_pos rfl, if_pos rfl, Array.getElem?_eq_getElem inside]
    rfl
  · rw [if_neg same, if_neg (Ne.symm same)]

/-! ### Weak references -/

theorem occupant?_register (target weakref other : Handle) :
    (heap.register target weakref).occupant? other =
      if other = target then
        (heap.occupant? other).map fun entry =>
          { entry with payload := entry.payload.mapWatchers (· ++ [weakref]) }
      else heap.occupant? other :=
  heap.occupant?_mapPayload target other _

end ObjectHeap.Heap
