/-
This file says what stays of a heap whatever happens to it. Nothing touches the limits, the depth of
calls or the flag of the loop that works releases off, but for those who set it back, and no slot that
has its place gets lost. While releases are worked off, nothing is torn down beside the loop.
-/

import ObjectHeap.Proofs.Course

namespace ObjectHeap

variable {Code : Type}

namespace Heap

/-- How many entries of a slot were torn down so far. -/
def departures (heap : Heap Code) (slot : Handle) : Nat :=
  heap.births slot - if heap.isLive slot then 1 else 0

/-- The limits, the depth of calls and the flag of the loop are the same at the end. -/
structure Keeps (before after : Heap Code) : Prop where
  limits : after.tracker.limits = before.tracker.limits
  callDepth : after.callDepth = before.callDepth
  releasing : after.releasing = before.releasing

/-- Slots without a home stay so, and no others lose theirs. -/
structure Preserves (before after : Heap Code) : Prop extends before.Keeps after where
  housed : ∀ {limbo}, before.Housed limbo → after.Housed limbo

/-- While releases are worked off, nothing is torn down. -/
structure Restores (before after : Heap Code) : Prop extends before.Preserves after where
  standing : before.releasing = true → ∀ {limbo}, before.Housed limbo →
    ∀ slot, after.departures slot = before.departures slot

variable {before between after : Heap Code}

theorem Keeps.refl (heap : Heap Code) : heap.Keeps heap := ⟨rfl, rfl, rfl⟩

theorem Keeps.trans (first : before.Keeps between) (second : between.Keeps after) :
    before.Keeps after where
  limits := second.limits.trans first.limits
  callDepth := second.callDepth.trans first.callDepth
  releasing := second.releasing.trans first.releasing

theorem Preserves.refl (heap : Heap Code) : heap.Preserves heap := ⟨.refl heap, id⟩

theorem Preserves.trans (first : before.Preserves between) (second : between.Preserves after) :
    before.Preserves after where
  toKeeps := first.toKeeps.trans second.toKeeps
  housed := second.housed ∘ first.housed

theorem Restores.refl (heap : Heap Code) : heap.Restores heap := ⟨.refl heap, fun _ _ _ _ => rfl⟩

theorem Restores.trans (first : before.Restores between) (second : between.Restores after) :
    before.Restores after where
  toPreserves := first.toPreserves.trans second.toPreserves
  standing busy _ housed slot :=
    (second.standing (first.releasing.trans busy) (first.housed housed) slot).trans
      (first.standing busy housed slot)

/-- There is no loop in which something could be torn down. -/
theorem Preserves.restores (preserves : before.Preserves after) (idle : before.releasing = false) :
    before.Restores after :=
  ⟨preserves, fun busy => nomatch idle.symm.trans busy⟩

theorem departures_congr {slot : Handle} (births : after.births slot = before.births slot)
    (lives : after.isLive slot = before.isLive slot) :
    after.departures slot = before.departures slot := by
  unfold departures
  rw [births, lives]

/-- Entries change in place. -/
theorem Restores.of_steady (steady : before.Steady after)
    (lives : ∀ handle, after.isLive handle = before.isLive handle) : before.Restores after where
  limits := (congrArg (fun books => books.tracker.limits) steady.books :)
  callDepth := (congrArg Heap.callDepth steady.books :)
  releasing := (congrArg Heap.releasing steady.books :)
  housed := steady.housed lives
  standing _ _ _ slot := departures_congr (steady.births slot) (lives slot)

theorem Restores.mapEntry (heap : Heap Code) (handle : Handle) (change : Entry Code → Entry Code) :
    heap.Restores (heap.mapEntry handle change) :=
  .of_steady (.mapEntry heap handle change) fun other => heap.isLive_mapEntry handle other change

theorem Restores.mapPayload (heap : Heap Code) (handle : Handle)
    (change : Payload Code → Payload Code) : heap.Restores (heap.mapPayload handle change) :=
  .mapEntry heap handle _

theorem Restores.clear (heap : Heap Code) (target weakref : Handle) :
    heap.Restores (heap.clear target weakref).2 := by
  unfold Heap.clear
  split
  · split
    · exact .mapPayload heap weakref fun _ => deadWeakref
    · exact .refl heap
  · exact .refl heap

theorem Housed.of_slots {limbo : List Handle} (housed : before.Housed limbo)
    (slots : after.slots = before.slots) (free : after.free = before.free)
    (pool : after.pool = before.pool) : after.Housed limbo := by
  constructor
  · intro handle
    rw [free, pool, births_congr slots, occupant?_congr slots]
    exact housed.vacant handle
  · rw [free, pool]
    exact housed.apart

/-- Books change that tell neither of slots nor of limits. -/
theorem Restores.of_slots (slots : after.slots = before.slots) (free : after.free = before.free)
    (pool : after.pool = before.pool) (keeps : before.Keeps after) : before.Restores after where
  toKeeps := keeps
  housed housed := housed.of_slots slots free pool
  standing _ _ _ slot := departures_congr (births_congr slots slot) (by
    rw [isLive_eq, isLive_eq, occupant?_congr slots])

theorem Restores.tracker (heap : Heap Code) {tracker : Tracker}
    (limits : tracker.limits = heap.tracker.limits) : heap.Restores { heap with tracker } :=
  .of_slots rfl rfl rfl ⟨limits, rfl, rfl⟩

theorem Restores.pending (heap : Heap Code) (pending : List Handle) :
    heap.Restores { heap with pending } :=
  .of_slots rfl rfl rfl ⟨rfl, rfl, rfl⟩

/-- What is placed in a free slot takes nobody's place. -/
theorem Restores.of_admits {payload : Payload Code} {place : Handle} (keeps : before.Keeps after)
    (admits : ∀ {limbo}, before.Housed limbo → before.Admits payload place after) :
    before.Restores after where
  toKeeps := keeps
  housed {limbo} housed := (admits housed).housed limbo housed
  standing _ _ housed slot := by
    have admits := admits housed
    by_cases same : slot = place
    · subst same
      have empty : before.isLive slot = false := by rw [isLive_eq, admits.empty]; rfl
      have here : after.isLive slot = true := by rw [isLive_eq, admits.here]; rfl
      unfold departures
      rw [admits.born, empty, here]
      rfl
    · refine departures_congr (admits.steady slot same) ?_
      rw [isLive_eq, isLive_eq, admits.others slot same]

theorem keeps_place (heap : Heap Code) (payload : Payload Code) (slot : Option Handle) :
    heap.Keeps (heap.place payload slot).2 := by
  cases slot <;> exact ⟨rfl, rfl, rfl⟩

theorem keeps_takeFree (heap : Heap Code) : heap.Keeps heap.takeFree.2 := by
  unfold takeFree
  split <;> exact ⟨rfl, rfl, rfl⟩

theorem keeps_takeFreeForMethod (heap : Heap Code) : heap.Keeps heap.takeFreeForMethod.2 := by
  unfold takeFreeForMethod
  split
  · exact ⟨rfl, rfl, rfl⟩
  · exact heap.keeps_takeFree

theorem Restores.housing (heap : Heap Code) (payload : Payload Code) :
    heap.Restores (heap.housing payload) :=
  .of_admits (heap.keeps_takeFree.trans (keeps_place _ _ _)) (heap.admits_takeFree payload)

theorem Restores.housingMethod (heap : Heap Code) (data : Method) :
    heap.Restores (heap.housingMethod (.method data)) :=
  .of_admits (heap.keeps_takeFreeForMethod.trans (keeps_place _ _ _)) (heap.admits_takeFreeForMethod rfl)

theorem keeps_recycle (heap : Heap Code) (handle : Handle) (isMethod : Bool) :
    heap.Keeps (heap.recycle handle isMethod) := by
  unfold recycle
  split <;> exact ⟨rfl, rfl, rfl⟩

/-- An entry that is taken out of its slot leaves the slot without a home. -/
theorem Housed.setEntry {limbo : List Handle} {handle : Handle} {entry : Entry Code}
    (housed : before.Housed limbo) (held : before.occupant? handle = some entry) :
    (before.setEntry handle none).Housed (handle :: limbo) := by
  refine housed.vacate held (fun other => before.births_setEntry handle other none) rfl rfl
    fun other => ?_
  rw [occupant?_setEntry, ite_self]
  by_cases same : other = handle <;> simp [same]

/-- An entry that is freed by the collector gives its slot back at once. -/
theorem Preserves.sweepOne (heap : Heap Code) (isGarbage : Handle → Bool) (handle : Handle) :
    heap.Preserves (heap.sweepOne isGarbage handle).2 := by
  cases found : heap.payload? handle with
  | none =>
    unfold Heap.sweepOne
    rw [found]
    exact .refl heap
  | some payload =>
    obtain ⟨entry, held, _⟩ := heap.payload?_eq_some.mp found
    let credited := heap.tracker.credit (UInt64.ofNat payload.size)
    have emptied : (heap.setEntry handle none).Restores (heap.emptied handle credited) :=
      .tracker (heap.setEntry handle none) rfl
    have withdrawn :
        (heap.emptied handle credited).Restores (heap.withdrawn handle payload credited) := by
      unfold Heap.withdrawn
      split
      · exact .mapPayload _ _ _
      · exact .refl _
    have restores := emptied.trans withdrawn
    have vacated : heap.Keeps (heap.setEntry handle none) := ⟨rfl, rfl, rfl⟩
    rw [heap.sweepOne_eq isGarbage found]
    exact
      { toKeeps := (vacated.trans restores.toKeeps).trans (keeps_recycle _ _ _)
        housed := fun housed => (restores.housed (housed.setEntry held)).recycle payload.isMethod }

theorem Preserves.sweep (heap : Heap Code) (isGarbage : Handle → Bool)
    (survivors garbage : List Handle) : heap.Preserves (heap.sweep isGarbage survivors garbage).2 := by
  induction garbage generalizing heap survivors with
  | nil => exact .refl heap
  | cons handle rest inductionHypothesis =>
    exact (Preserves.sweepOne heap isGarbage handle).trans (inductionHypothesis _ _)

end Heap

/-- Worlds whose heaps are restored follow on one another. -/
def Course.restores : Course Code Unit where
  leads before after := before.heap.Restores after.heap
  still world := .refl world.heap
  onward first second := first.trans second
  retain {world handle} _ := .mapEntry world.heap handle _

theorem Course.mild_restores : (Course.restores : Course Code Unit).Mild where
  counts world handle _ := .mapEntry world.heap handle _
  registers world handle _ := .mapPayload world.heap handle _
  clears world target weakref := .clear world.heap target weakref

namespace Heap

theorem Restores.clearWatchers (heap : Heap Code) (target : Handle) (skipped : Handle → Bool)
    (weakrefs : List Handle) : heap.Restores (heap.clearWatchers target skipped weakrefs).2 :=
  Course.mild_restores.clearWatchers () heap target skipped weakrefs

theorem Preserves.removeGarbage (heap : Heap Code) (garbage : List Handle) :
    heap.Preserves (heap.removeGarbage garbage).2 := by
  let isGarbage := fun handle => garbage.contains handle
  have cleared : heap.Restores (heap.clearGarbage isGarbage garbage).2 :=
    Course.mild_restores.clearGarbage () heap isGarbage garbage
  exact (cleared.toPreserves.trans (.sweep _ isGarbage [] garbage)).trans
    (Restores.pending _ _).toPreserves

end Heap

end ObjectHeap
