/-
This file establishes what is left of a heap when its garbage is removed. No slot of the garbage
is in use any more. Every other entry keeps its payload, except that weak references to garbage
are dead and weak references that were garbage are registered nowhere. What garbage held of
survivors waits for its release, and the callbacks that are due own what they take along. All
other references are counted as before.
-/

import Mathlib.Data.List.Nodup
import ObjectHeap.Proofs.Mark

namespace ObjectHeap

variable {Code : Type}

namespace Heap

variable {heap before after : Heap Code} {isGarbage : Handle → Bool} {outside : Multiset Handle}
  {limbo : List Handle}

theorem callbackOf_mapWatchers (payload : Payload Code) (change : List Handle → List Handle) :
    callbackOf (payload.mapWatchers change) = callbackOf payload := by
  cases payload <;> rfl

theorem callback?_mapPayload_mapWatchers (heap : Heap Code) (place : Handle)
    (change : List Handle → List Handle) (weakref : Handle) :
    (heap.mapPayload place (Payload.mapWatchers change)).callback? weakref =
      heap.callback? weakref := by
  unfold callback?
  rw [payload?_mapPayload]
  split
  · cases heap.payload? weakref with
    | none => rfl
    | some payload => exact callbackOf_mapWatchers payload change
  · rfl

theorem target?_mapPayload_mapWatchers (heap : Heap Code) (place : Handle)
    (change : List Handle → List Handle) (weakref : Handle) :
    (heap.mapPayload place (Payload.mapWatchers change)).target? weakref =
      heap.target? weakref := by
  unfold target?
  rw [payload?_mapPayload]
  split
  · cases heap.payload? weakref with
    | none => rfl
    | some payload => exact target?_mapWatchers payload change
  · rfl

/-! ### Clearing the registers of garbage -/

/-- What clearing the registers of some garbage comes to. -/
structure ClearsGarbage (before : Heap Code) (isGarbage : Handle → Bool) (garbage : List Handle)
    (callbacks : List (Handle × Value)) (after : Heap Code) : Prop where
  due : callbacks = garbage.flatMap fun place => before.due isGarbage (before.watchers place)
  payloads : ∀ other, after.payload? other =
    if other ∈ garbage then (before.payload? other).map (Payload.mapWatchers fun _ => [])
    else if isGarbage other = false ∧ ∃ place ∈ garbage, other ∈ before.watchers place then
      some deadWeakref
    else before.payload? other
  steady : before.Steady after
  balanced : ∀ outside, before.Balanced outside → after.Balanced (outside + debts callbacks)

theorem clearGarbage_cons (heap : Heap Code) (isGarbage : Handle → Bool) (handle : Handle)
    (rest : List Handle) :
    let cleared := (heap.mapPayload handle (Payload.mapWatchers fun _ => [])).clearWatchers handle
      isGarbage (heap.watchers handle)
    heap.clearGarbage isGarbage (handle :: rest) =
      (cleared.1 ++ (cleared.2.clearGarbage isGarbage rest).1,
        (cleared.2.clearGarbage isGarbage rest).2) := rfl

namespace ClearsRegister

variable {handle weakref : Handle} {callbacks : List (Handle × Value)} {cleared : Heap Code}
  (clears : (heap.mapPayload handle (Payload.mapWatchers fun _ => [])).ClearsRegister isGarbage
    (heap.watchers handle) callbacks cleared)

include clears

theorem payload?_cleared (other : Handle) : cleared.payload? other =
    if other ∈ heap.watchers handle ∧ isGarbage other = false then some deadWeakref
    else if other = handle then (heap.payload? other).map (Payload.mapWatchers fun _ => [])
    else heap.payload? other := by
  rw [clears.payloads, payload?_mapPayload]

/-- Garbage keeps its register until its own turn. -/
theorem watchers_cleared {place : Handle} (other : place ≠ handle) (garbage : isGarbage place = true) :
    cleared.watchers place = heap.watchers place := by
  refine watchers_congr ?_
  rw [clears.payload?_cleared, if_neg, if_neg other]
  rw [garbage]
  exact fun both => nomatch both.2

theorem target?_cleared (unregistered : weakref ∉ heap.watchers handle) :
    cleared.target? weakref = heap.target? weakref := by
  rw [← target?_mapPayload_mapWatchers heap handle (fun _ => []) weakref]
  refine target?_congr ?_
  rw [clears.payloads, if_neg fun both => unregistered both.1]

theorem callback?_cleared (unregistered : weakref ∉ heap.watchers handle) :
    cleared.callback? weakref = heap.callback? weakref := by
  rw [← callback?_mapPayload_mapWatchers heap handle (fun _ => []) weakref]
  refine callback?_congr ?_
  rw [clears.payloads, if_neg fun both => unregistered both.1]

/-- The registers of some more garbage are cleared after that of one entry. -/
theorem clearsGarbage {rest : List Handle} {others : List (Handle × Value)}
    (apart : handle ∉ rest) (garbage : ∀ place ∈ handle :: rest, isGarbage place = true)
    (elsewhere : ∀ place ∈ rest, ∀ weakref ∈ heap.watchers place, weakref ∉ heap.watchers handle)
    (clearsRest : cleared.ClearsGarbage isGarbage rest others after) :
    heap.ClearsGarbage isGarbage (handle :: rest) (callbacks ++ others) after := by
  have watchersRest (place : Handle) (member : place ∈ rest) :
      cleared.watchers place = heap.watchers place :=
    clears.watchers_cleared (fun same => apart (same ▸ member))
      (garbage place (List.mem_cons_of_mem handle member))
  refine ⟨?_, fun other => ?_,
    ((Steady.mapPayload heap handle _).trans clears.steady).trans clearsRest.steady,
    fun outside balanced => ?_⟩
  · rw [List.flatMap_cons, clears.due, clearsRest.due]
    refine congrArg₂ (· ++ ·) (List.filterMap_congr fun weakref _ => ?_) ?_
    · rw [callback?_mapPayload_mapWatchers]
    · refine List.flatMap_congr fun place member => ?_
      rw [watchersRest place member]
      refine List.filterMap_congr fun weakref registered => ?_
      rw [clears.callback?_cleared (elsewhere place member weakref registered)]
  · have registeredRest : (∃ place ∈ rest, other ∈ cleared.watchers place) ↔
        ∃ place ∈ rest, other ∈ heap.watchers place :=
      exists_congr fun place => and_congr_right fun member => by rw [watchersRest place member]
    rw [clearsRest.payloads, clears.payload?_cleared]
    simp only [registeredRest]
    by_cases inRest : other ∈ rest
    · have different : other ≠ handle := fun same => apart (same ▸ inRest)
      simp [inRest, different, garbage other (List.mem_cons_of_mem handle inRest)]
    · by_cases same : other = handle
      · subst same
        simp [inRest, garbage other List.mem_cons_self]
      · by_cases mine : isGarbage other
        · simp [inRest, same, mine]
        · by_cases here : other ∈ heap.watchers handle <;> simp [inRest, same, mine, here]
  · rw [debts_append, ← add_assoc]
    exact clearsRest.balanced _ (clears.balanced _ (balanced.mapWatchers handle _))

end ClearsRegister

theorem clearsGarbage_clearGarbage (heap : Heap Code) (isGarbage : Handle → Bool)
    (garbage : List Handle) (distinct : garbage.Nodup)
    (skipped : ∀ place ∈ garbage, isGarbage place = true)
    (listed : ∀ place ∈ garbage, (heap.watchers place).Nodup ∧
      ∀ weakref ∈ heap.watchers place, heap.target? weakref = some place) :
    heap.ClearsGarbage isGarbage garbage (heap.clearGarbage isGarbage garbage).1
      (heap.clearGarbage isGarbage garbage).2 := by
  induction garbage generalizing heap with
  | nil => exact ⟨rfl, fun other => by simp [clearGarbage], .refl heap, fun _ balanced => by
      simpa [clearGarbage] using balanced⟩
  | cons handle rest inductionHypothesis =>
    obtain ⟨absent, distinctRest⟩ := List.nodup_cons.mp distinct
    obtain ⟨once, aimed⟩ := listed handle List.mem_cons_self
    have clears := clearsRegister_clearWatchers
      (heap.mapPayload handle (Payload.mapWatchers fun _ => [])) handle isGarbage _ once
      fun weakref member =>
        (target?_mapPayload_mapWatchers heap handle _ weakref).trans (aimed weakref member)
    -- A weak reference has one target, so no two registers share one.
    have elsewhere (place : Handle) (member : place ∈ rest) (weakref : Handle)
        (registered : weakref ∈ heap.watchers place) : weakref ∉ heap.watchers handle := by
      intro here
      have there := (listed place (List.mem_cons_of_mem handle member)).2 weakref registered
      rw [aimed weakref here, Option.some_inj] at there
      exact absent (there ▸ member)
    rw [clearGarbage_cons]
    refine clears.clearsGarbage absent skipped elsewhere (inductionHypothesis _ distinctRest
      (fun place member => skipped place (List.mem_cons_of_mem handle member)) fun place member => ?_)
    have other : place ≠ handle := fun same => absent (same ▸ member)
    obtain ⟨onceThere, aimedThere⟩ := listed place (List.mem_cons_of_mem handle member)
    rw [clears.watchers_cleared other (skipped place (List.mem_cons_of_mem handle member))]
    refine ⟨onceThere, fun weakref registered => ?_⟩
    rw [clears.target?_cleared (elsewhere place member weakref registered)]
    exact aimedThere weakref registered

/-! ### Freeing garbage -/

theorem mapWatchers_mapWatchers (payload : Payload Code) (first second : List Handle → List Handle) :
    (payload.mapWatchers first).mapWatchers second =
      payload.mapWatchers fun watchers => second (first watchers) := by
  cases payload <;> rfl

theorem mapWatchers_id (payload : Payload Code) :
    payload.mapWatchers (fun watchers => watchers) = payload := by
  cases payload <;> rfl

/-- The slots among some garbage that hold weak references to a target. -/
def aimedAt (heap : Heap Code) (garbage : List Handle) (target : Handle) : List Handle :=
  garbage.filter fun place => heap.target? place = some target

/-- What freeing some garbage comes to: the slots are empty and at home, registers forget what was
in them, and what they held of survivors is left. -/
structure Sweeps (before : Heap Code) (isGarbage : Handle → Bool) (garbage : List Handle)
    (left : Multiset Handle) (after : Heap Code) : Prop where
  payloads : ∀ other, after.payload? other =
    if other ∈ garbage then none
    else (before.payload? other).map
      (Payload.mapWatchers (·.diff (before.aimedAt garbage other)))
  tally : ∀ other, after.tally other = if other ∈ garbage then 0 else before.tally other
  births : ∀ other, after.births other = before.births other
  housed : ∀ limbo, before.Housed limbo → after.Housed limbo
  pending : after.pending = before.pending
  releasing : after.releasing = before.releasing
  unraisable : after.unraisable = before.unraisable
  left : left = ((garbage.flatMap before.visits).filter fun child => !isGarbage child : List Handle)

namespace Sweeps

variable {middle : Heap Code} {garbage others : List Handle} {left leftLater : Multiset Handle}

/-- Only garbage is freed. -/
theorem isLive (sweeps : before.Sweeps isGarbage garbage left after) {other : Handle}
    (kept : other ∉ garbage) : after.isLive other = before.isLive other :=
  isLive_of_map ((sweeps.payloads other).trans (if_neg kept))

theorem nothing (heap : Heap Code) (isGarbage : Handle → Bool) :
    heap.Sweeps isGarbage [] 0 heap where
  payloads other := by
    rw [if_neg List.not_mem_nil]
    cases heap.payload? other with
    | none => rfl
    | some payload => exact congrArg some (mapWatchers_id payload).symm
  tally other := (if_neg List.not_mem_nil).symm
  births _ := rfl
  housed _ housed := housed
  pending := rfl
  releasing := rfl
  unraisable := rfl
  left := rfl

theorem visits (sweeps : before.Sweeps isGarbage garbage left after) {place : Handle}
    (kept : place ∉ garbage) : after.visits place = before.visits place := by
  unfold Heap.visits
  rw [sweeps.payloads, if_neg kept, Option.map_map]
  congr 1
  cases before.payload? place with
  | none => rfl
  | some payload => exact congrArg some (Payload.visits_mapWatchers payload _)

theorem target? (sweeps : before.Sweeps isGarbage garbage left after) {place : Handle}
    (kept : place ∉ garbage) : after.target? place = before.target? place := by
  unfold Heap.target?
  rw [sweeps.payloads, if_neg kept]
  cases before.payload? place with
  | none => rfl
  | some payload => exact target?_mapWatchers payload _

theorem trans (first : before.Sweeps isGarbage garbage left middle)
    (second : middle.Sweeps isGarbage others leftLater after) (apart : garbage.Disjoint others) :
    before.Sweeps isGarbage (garbage ++ others) (left + leftLater) after where
  payloads other := by
    have aimed : middle.aimedAt others other = before.aimedAt others other :=
      List.filter_congr fun place member => by
        rw [first.target? fun early => apart early member]
    rw [second.payloads, first.payloads, aimed]
    unfold aimedAt
    rw [List.filter_append]
    by_cases early : other ∈ garbage
    · simp [early]
    · by_cases late : other ∈ others
      · simp [late]
      · rw [if_neg late, if_neg early, if_neg (by simp [early, late]), Option.map_map]
        cases before.payload? other with
        | none => rfl
        | some payload =>
          simp only [Option.map_some, Function.comp_apply, mapWatchers_mapWatchers, List.diff_append]
  tally other := by
    rw [second.tally, first.tally]
    by_cases early : other ∈ garbage <;> by_cases late : other ∈ others <;> simp [early, late]
  births other := (second.births other).trans (first.births other)
  housed limbo housed := second.housed limbo (first.housed limbo housed)
  pending := second.pending.trans first.pending
  releasing := second.releasing.trans first.releasing
  unraisable := second.unraisable.trans first.unraisable
  left := by
    have same : others.flatMap middle.visits = others.flatMap before.visits :=
      List.flatMap_congr fun place member => first.visits fun early => apart early member
    rw [first.left, second.left, same, List.flatMap_append, List.filter_append, Multiset.coe_add]

end Sweeps

theorem tally_mapPayload (heap : Heap Code) (place other : Handle)
    (change : Payload Code → Payload Code) :
    (heap.mapPayload place change).tally other = heap.tally other := by
  unfold tally
  rw [occupant?_mapPayload]
  split
  · rw [Option.map_map]
    rfl
  · rfl

/-- A heap without an entry that is freed. If the entry was a weak reference, it is registered
nowhere any more. -/
def withdrawn (heap : Heap Code) (place : Handle) (payload : Payload Code) (tracker : Tracker) :
    Heap Code :=
  match payload.target? with
  | some target => (heap.emptied place tracker).unregister target place
  | none => heap.emptied place tracker

section

variable (heap) {place : Handle} {payload : Payload Code} (tracker : Tracker)

theorem steady_withdrawn (place : Handle) (payload : Payload Code) :
    (heap.emptied place tracker).Steady (heap.withdrawn place payload tracker) := by
  unfold withdrawn
  split
  · exact .mapPayload _ _ _
  · exact .refl _

theorem births_withdrawn (place : Handle) (payload : Payload Code) (other : Handle) :
    (heap.withdrawn place payload tracker).births other = heap.births other :=
  ((heap.steady_withdrawn tracker place payload).births other).trans
    (heap.births_emptied place other tracker)

theorem tally_withdrawn (place : Handle) (payload : Payload Code) (other : Handle) :
    (heap.withdrawn place payload tracker).tally other =
      if other = place then 0 else heap.tally other := by
  have unchanged : (heap.withdrawn place payload tracker).tally other =
      (heap.emptied place tracker).tally other := by
    unfold withdrawn
    split
    · exact tally_mapPayload _ _ _ _
    · rfl
  rw [unchanged]
  unfold tally
  rw [occupant?_emptied]
  split <;> rfl

/-- The register of what a weak reference is to forgets it. -/
theorem payload?_withdrawn (held : heap.payload? place = some payload) (other : Handle) :
    (heap.withdrawn place payload tracker).payload? other =
      if other = place then none
      else (heap.payload? other).map (Payload.mapWatchers (·.diff (heap.aimedAt [place] other))) := by
  have aim : heap.target? place = some other ↔ payload.target? = some other := by
    unfold target?
    rw [held, Option.bind_some]
  unfold aimedAt
  rw [List.filter_singleton]
  by_cases here : payload.target? = some other
  · have mine : decide (heap.target? place = some other) = true := decide_eq_true (aim.mpr here)
    unfold withdrawn
    rw [here, mine]
    dsimp only
    rw [payload?_unregister, if_pos rfl, payload?_emptied]
    by_cases self : other = place
    · rw [if_pos self, if_pos self]
      rfl
    · rw [if_neg self, if_neg self]
      simp only [cond_true, List.diff_cons, List.diff_nil]
  · have notMine : decide (heap.target? place = some other) = false :=
      decide_eq_false fun aimed => here (aim.mp aimed)
    have unchanged : (heap.withdrawn place payload tracker).payload? other =
        (heap.emptied place tracker).payload? other := by
      unfold withdrawn
      split
      · rename_i target aimed
        rw [payload?_unregister, if_neg]
        rintro rfl
        exact here aimed
      · rfl
    rw [unchanged, payload?_emptied, notMine]
    by_cases self : other = place
    · rw [if_pos self, if_pos self]
    · rw [if_neg self, if_neg self]
      cases heap.payload? other with
      | none => rfl
      | some other => exact congrArg some (mapWatchers_id other).symm

end

/-- Freeing one entry of the garbage empties its slot, takes it off the register of its target, and
makes the slot free again. -/
theorem sweepOne_eq (heap : Heap Code) (isGarbage : Handle → Bool) {place : Handle}
    {payload : Payload Code} (held : heap.payload? place = some payload) :
    heap.sweepOne isGarbage place =
      ((payload.leavings []).filter fun child => !isGarbage child,
        (heap.withdrawn place payload (heap.tracker.credit (UInt64.ofNat payload.size))).recycle
          place payload.isMethod) := by
  unfold sweepOne
  rw [held]
  rfl

/-- One entry of the garbage is freed. -/
theorem sweeps_sweepOne (heap : Heap Code) (isGarbage : Handle → Bool) {place : Handle}
    {payload : Payload Code} (held : heap.payload? place = some payload) :
    heap.Sweeps isGarbage [place] ((heap.sweepOne isGarbage place).1 : List Handle)
      (heap.sweepOne isGarbage place).2 := by
  obtain ⟨entry, occupied, same⟩ := heap.payload?_eq_some.mp held
  rw [heap.sweepOne_eq isGarbage held]
  generalize heap.tracker.credit (UInt64.ofNat payload.size) = tracker
  have steady := heap.steady_withdrawn tracker place payload
  have payloads := heap.payload?_withdrawn tracker held
  have births := heap.births_withdrawn tracker place payload
  have tally := heap.tally_withdrawn tracker place payload
  generalize heap.withdrawn place payload tracker = forgotten at steady payloads births tally ⊢
  have occupants (other : Handle) := forgotten.occupant?_recycle place other payload.isMethod
  constructor
  · intro other
    rw [payload?_congr (occupants other), payloads other]
    simp only [List.mem_singleton]
  · intro other
    rw [tally_congr (occupants other), tally other]
    simp only [List.mem_singleton]
  · intro other
    rw [births_congr (forgotten.slots_recycle place payload.isMethod), births]
  · intro limbo housed
    refine (housed.vacate occupied births (congrArg Heap.free steady.books :)
      (congrArg Heap.pool steady.books :) fun other => ?_).recycle payload.isMethod
    rw [occupant?_eq_none, occupant?_eq_none, payloads]
    by_cases self : other = place <;> simp [self]
  · unfold Heap.recycle
    split <;> exact (congrArg Heap.pending steady.books :)
  · unfold Heap.recycle
    split <;> exact (congrArg Heap.releasing steady.books :)
  · unfold Heap.recycle
    split <;> exact (congrArg Heap.unraisable steady.books :)
  · refine Multiset.coe_eq_coe.mpr (List.Perm.filter _ (Multiset.coe_eq_coe.mp ?_))
    rw [Payload.leavings_eq, List.flatMap_singleton, visits_of_occupant? occupied, same]
    exact add_zero _

/-- All garbage is freed. -/
theorem sweeps_sweep (heap : Heap Code) (isGarbage : Handle → Bool) (garbage survivors : List Handle)
    (distinct : garbage.Nodup) (live : ∀ place ∈ garbage, heap.isLive place) :
    ∃ left, heap.Sweeps isGarbage garbage left (heap.sweep isGarbage survivors garbage).2 ∧
      ((heap.sweep isGarbage survivors garbage).1 : Multiset Handle) =
        left + (survivors : Multiset Handle) := by
  induction garbage generalizing heap survivors with
  | nil => exact ⟨0, .nothing heap isGarbage, (zero_add _).symm⟩
  | cons place rest inductionHypothesis =>
    obtain ⟨absent, distinctRest⟩ := List.nodup_cons.mp distinct
    obtain ⟨payload, held⟩ := exists_payload?_of_isLive (live place List.mem_cons_self)
    have one := sweeps_sweepOne heap isGarbage held
    have apart : [place].Disjoint rest := by
      rw [List.singleton_disjoint]
      exact absent
    obtain ⟨left, others, total⟩ := inductionHypothesis (heap.sweepOne isGarbage place).2
      ((heap.sweepOne isGarbage place).1 ++ survivors) distinctRest fun other member => by
        have kept : other ∉ [place] := fun same => apart same member
        exact (one.isLive kept).trans (live other (List.mem_cons_of_mem place member))
    refine ⟨_, one.trans others apart, ?_⟩
    show (((heap.sweepOne isGarbage place).2.sweep isGarbage
      ((heap.sweepOne isGarbage place).1 ++ survivors) rest).1 : Multiset Handle) = _
    rw [total, ← Multiset.coe_add]
    abel

end Heap

end ObjectHeap
