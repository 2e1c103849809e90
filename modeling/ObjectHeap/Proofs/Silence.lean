/-
This file follows a heap in which no weak reference has a callback. No code of the host runs when
something is freed there, so that what a release and a collection come to can be said outright: an
entry that is left is what it was, except that it may have forgotten others, and the tracker has
got back what the entries weighed that were freed. The order in which a collection frees its
garbage is of no account for that.
-/

import Mathlib.Algebra.BigOperators.Finprod
import ObjectHeap.Proofs.Accounting
import ObjectHeap.Proofs.Freeing

namespace ObjectHeap

variable {Code Host : Type}

/-! ### What the tracker gets back -/

namespace Tracker

theorem ext_of_memory {first second : Tracker} (limits : first.limits = second.limits)
    (allocations : first.allocations = second.allocations)
    (memory : first.memory.toNat = second.memory.toNat) : first = second := by
  cases first
  cases second
  cases limits
  cases allocations
  cases UInt64.toNat_inj.mp memory
  rfl

/-- What is given back first is of no account, also where there is not so much. -/
theorem credit_right_comm (tracker : Tracker) (first second : UInt64) :
    (tracker.credit first).credit second = (tracker.credit second).credit first := by
  refine ext_of_memory rfl rfl ?_
  rw [toNat_memory_credit, toNat_memory_credit, toNat_memory_credit, toNat_memory_credit]
  omega

/-- Gives the bytes of several entries back, one entry after the other. -/
def creditAll (tracker : Tracker) (sizes : List Nat) : Tracker :=
  sizes.foldl (fun tracker size => tracker.credit (UInt64.ofNat size)) tracker

theorem creditAll_perm {sizes others : List Nat} (same : sizes.Perm others) (tracker : Tracker) :
    tracker.creditAll sizes = tracker.creditAll others :=
  same.foldl_eq' (fun _ _ _ _ tracker => tracker.credit_right_comm _ _) tracker

end Tracker

namespace Heap

/-- What a heap counts beside references. -/
structure Meters where
  tracker : Tracker
  nextCounter : Nat
  sinceCollection : UInt64

def meters (heap : Heap Code) : Meters :=
  { tracker := heap.tracker
    nextCounter := heap.nextCounter
    sinceCollection := heap.sinceCollection }

variable {before middle after heap : Heap Code} {outside : Multiset Handle} {limbo : List Handle}
  {place : Handle} {payload : Payload Code}

theorem meters_of_books (same : after.books = before.books) : after.meters = before.meters :=
  (congrArg meters same :)

theorem meters_recycle (heap : Heap Code) (place : Handle) (isMethod : Bool) :
    (heap.recycle place isMethod).meters = heap.meters := by
  unfold recycle
  split <;> rfl

/-! ### References between entries -/

theorem support_count_visits_subset (heap : Heap Code) (handle : Handle) :
    (Function.support fun place => (heap.visits place).count handle) ⊆
      Finset.range heap.slots.size := by
  intro place counted
  rw [Finset.mem_coe, Finset.mem_range]
  cases found : heap.occupant? place with
  | none =>
    rw [Function.mem_support, visits_of_empty found] at counted
    exact absurd rfl counted
  | some entry => exact heap.lt_size_of_occupant? found

/-- The references between entries, added up over all numbers that a slot can have. -/
theorem count_edges_eq_finsum (heap : Heap Code) (handle : Handle) :
    heap.edges.count handle = ∑ᶠ place, (heap.visits place).count handle := by
  rw [count_edges]
  exact (finsum_eq_finsetSum_of_support_subset _ (heap.support_count_visits_subset handle)).symm

theorem edges_le (fewer : ∀ place handle,
    (after.visits place).count handle ≤ (before.visits place).count handle) :
    (after.edges : Multiset Handle) ≤ before.edges := by
  refine Multiset.le_iff_count.mpr fun handle => ?_
  rw [Multiset.coe_count, Multiset.coe_count, count_edges_eq_finsum, count_edges_eq_finsum]
  exact finsum_le_finsum'
    ((Finset.finite_toSet _).subset (after.support_count_visits_subset handle))
    ((Finset.finite_toSet _).subset (before.support_count_visits_subset handle))
    fun place => fewer place handle

/-- A change of one slot exchanges the references that its entry holds. -/
theorem edges_of_others (place : Handle)
    (others : ∀ other, other ≠ place → after.visits other = before.visits other) :
    (after.edges : Multiset Handle) + before.visits place =
      (before.edges : Multiset Handle) + after.visits place := by
  refine Multiset.ext.mpr fun handle => ?_
  rw [Multiset.count_add, Multiset.count_add, Multiset.coe_count, Multiset.coe_count,
    Multiset.coe_count, Multiset.coe_count]
  exact count_edges_of_others place others handle

/-! ### Heaps without callbacks -/

/-- No weak reference has a callback. -/
def Silent (heap : Heap Code) : Prop :=
  ∀ weakref, heap.callback? weakref = none

theorem Silent.callbackOf (silent : heap.Silent) (held : heap.payload? place = some payload) :
    callbackOf payload = none := by
  have quiet := silent place
  unfold callback? at quiet
  rwa [held] at quiet

/-- Whatever is left is what it was, except that it may have forgotten others. -/
def Forgets (before after : Heap Code) : Prop :=
  ∀ handle payload, after.payload? handle = some payload →
    ∃ former gone, before.payload? handle = some former ∧ payload = former.without gone

namespace Forgets

theorem of_payloads (same : ∀ handle, after.payload? handle = before.payload? handle) :
    before.Forgets after := fun handle payload held =>
  ⟨payload, fun _ => false, (same handle).symm.trans held, payload.without_nothing.symm⟩

theorem refl (heap : Heap Code) : heap.Forgets heap := .of_payloads fun _ => rfl

/-- Some entries are gone, and all others have forgotten them. -/
theorem of_gone {gone : Handle → Prop} [DecidablePred gone]
    (payloads : ∀ handle, after.payload? handle = if gone handle then none
      else (before.payload? handle).map (Payload.without fun other => decide (gone other))) :
    before.Forgets after := by
  intro handle payload held
  rw [payloads] at held
  split at held
  · cases held
  · obtain ⟨former, found, rfl⟩ := Option.map_eq_some_iff.mp held
    exact ⟨former, _, found, rfl⟩

theorem trans (first : before.Forgets middle) (second : middle.Forgets after) :
    before.Forgets after := by
  intro handle payload held
  obtain ⟨between, goneLater, found, rfl⟩ := second handle payload held
  obtain ⟨former, gone, there, rfl⟩ := first handle between found
  exact ⟨former, _, there, former.without_without gone goneLater⟩

variable (forgets : before.Forgets after)

include forgets

/-- What is left was there. -/
theorem isLive {handle : Handle} (live : after.isLive handle) : before.isLive handle := by
  obtain ⟨payload, held⟩ := exists_payload?_of_isLive live
  obtain ⟨former, _, found, _⟩ := forgets handle payload held
  rw [isLive_eq_payload?, found]
  rfl

theorem continues {handle : Handle} {former later : Payload Code}
    (found : before.payload? handle = some former) (held : after.payload? handle = some later) :
    former.Continues later := by
  obtain ⟨other, gone, there, rfl⟩ := forgets handle later held
  rw [found] at there
  cases there
  exact former.continues_without gone

/-- What a method or a class is to be made of is there as long as its references are. -/
theorem founded {payload : Payload Code} (founded : payload.Founded before)
    (lives : ∀ handle ∈ payload.owns, after.isLive handle) : payload.Founded after :=
  founded.of_continues lives fun _ _ _ _ found held => forgets.continues found held

variable (quiet : before.Silent)

include quiet

theorem silent : after.Silent := by
  intro weakref
  cases held : after.payload? weakref with
  | none =>
    unfold callback?
    rw [held]
    rfl
  | some payload =>
    obtain ⟨former, gone, found, rfl⟩ := forgets weakref payload held
    unfold callback?
    rw [held]
    exact Payload.callbackOf_without (quiet.callbackOf found) gone

/-- What is left refers to what it referred to. -/
theorem visits_eq {handle : Handle} (live : after.isLive handle) :
    after.visits handle = before.visits handle := by
  obtain ⟨payload, held⟩ := exists_payload?_of_isLive live
  obtain ⟨former, gone, found, rfl⟩ := forgets handle payload held
  unfold visits
  rw [held, found]
  exact Payload.visits_without fun _ _ _ => quiet.callbackOf found

theorem edges_le : (after.edges : Multiset Handle) ≤ before.edges := by
  refine Heap.edges_le fun place handle => ?_
  cases live : after.isLive place with
  | true => rw [forgets.visits_eq quiet live]
  | false =>
    have empty : after.occupant? place = none := by
      rwa [isLive_eq, Option.isSome_eq_false_iff, Option.isNone_iff_eq_none] at live
    rw [visits_of_empty empty]
    exact Nat.zero_le _

end Forgets

/-! ### Giving up one reference -/

theorem meters_bury (heap : Heap Code) (place : Handle) (payload : Payload Code) :
    (heap.bury place payload).meters = heap.meters := by
  unfold bury
  rw [meters_recycle]
  cases payload.target? <;> rfl

namespace Lessens

variable (lessens : before.Lessens place after)

include lessens

theorem forgets : before.Forgets after := by
  cases lessens with
  | counted held more =>
    exact .of_payloads fun other => before.payload?_mapEntry_count place other (· - 1)
  | freed held last frees => exact .of_gone frees.payload?_bury

/-- One reference less is left, in the entries and on the stack together. -/
theorem length_eq (silent : before.Silent) :
    after.pending.length + after.edges.length = before.pending.length + before.edges.length := by
  cases lessens with
  | counted held more =>
    have same (other : Handle) := before.payload?_mapEntry_count place other (· - 1)
    have forgets := Forgets.of_payloads same
    have back := Forgets.of_payloads fun other => (same other).symm
    have edges := Multiset.card_le_card (forgets.edges_le silent)
    have others := Multiset.card_le_card (back.edges_le (forgets.silent silent))
    rw [Multiset.coe_card, Multiset.coe_card] at edges others
    have still := le_antisymm edges others
    exact congrArg (before.pending.length + ·) still
  | @freed entry cleared held last frees =>
    let after := cleared.bury place entry.payload
    have forgets : before.Forgets after := .of_gone frees.payload?_bury
    have gone : after.payload? place = none := by rw [frees.payload?_bury, if_pos rfl]
    have others (other : Handle) (different : other ≠ place) :
        after.visits other = before.visits other := by
      cases found : before.payload? other with
      | none =>
        unfold Heap.visits
        rw [frees.payload?_bury, if_neg different, found]
        rfl
      | some payload =>
        refine forgets.visits_eq silent ?_
        rw [isLive_eq_payload?, frees.payload?_bury, if_neg different, found]
        rfl
    have edges : (after.edges : Multiset Handle) + entry.payload.owns = before.edges := by
      have exchanged := edges_of_others place others
      rw [visits_of_occupant? held, show after.visits place = [] by unfold Heap.visits; rw [gone]; rfl,
        Multiset.coe_nil, add_zero] at exchanged
      exact exchanged
    have waiting := congrArg Multiset.card (entry.payload.leavings_eq cleared.pending)
    have unchanged : cleared.pending = before.pending := (congrArg Heap.pending frees.books :)
    have fewer := congrArg Multiset.card edges
    rw [Multiset.card_add, Multiset.coe_card, Multiset.coe_card] at waiting fewer
    rw [pending_bury, ← unchanged]
    show (entry.payload.leavings cleared.pending).length + after.edges.length = _
    omega

end Lessens

end Heap

/-! ### Collections -/

namespace Heap

variable {before after heap : Heap Code} {outside : Multiset Handle} {place : Handle}
  {payload : Payload Code} {isGarbage : Handle → Bool}

/-- An entry of the garbage, whose register is cleared by then, gives back what it weighs without
one. -/
theorem meters_sweepOne (held : heap.payload? place = some payload)
    (cleared : payload.watchers = []) :
    (heap.sweepOne isGarbage place).2.meters =
      { heap.meters with
        tracker := heap.tracker.credit (UInt64.ofNat (heap.bareSize place)) } := by
  have weight : heap.bareSize place = payload.size := by
    unfold bareSize
    rw [held]
    exact payload.bareSize_of_unwatched cleared
  rw [sweepOne_eq heap isGarbage held, weight]
  refine (meters_recycle _ _ _).trans ?_
  unfold withdrawn
  cases payload.target? <;> rfl

theorem meters_sweep (isGarbage : Handle → Bool) (garbage survivors : List Handle)
    (distinct : garbage.Nodup) (live : ∀ place ∈ garbage, heap.isLive place)
    (cleared : ∀ place ∈ garbage, heap.watchers place = []) :
    (heap.sweep isGarbage survivors garbage).2.meters =
      { heap.meters with tracker := heap.tracker.creditAll (garbage.map heap.bareSize) } := by
  -- What is still to be freed has the same weight after one entry was freed, and still no register.
  induction garbage generalizing heap survivors with
  | nil => rfl
  | cons place rest inductionHypothesis =>
    obtain ⟨absent, distinctRest⟩ := List.nodup_cons.mp distinct
    obtain ⟨payload, held⟩ := exists_payload?_of_isLive (live place List.mem_cons_self)
    have one := sweeps_sweepOne heap isGarbage held
    have kept (other : Handle) (member : other ∈ rest) :
        (heap.sweepOne isGarbage place).2.payload? other =
          (heap.payload? other).map
            (Payload.mapWatchers (·.diff (heap.aimedAt [place] other))) := by
      have different : other ∉ [place] := by
        rw [List.mem_singleton]
        rintro rfl
        exact absent member
      rw [one.payloads, if_neg different]
    have weights : rest.map (heap.sweepOne isGarbage place).2.bareSize = rest.map heap.bareSize := by
      refine List.map_congr_left fun other member => ?_
      unfold bareSize
      rw [kept other member]
      cases heap.payload? other with
      | none => rfl
      | some payload => exact payload.bareSize_mapWatchers _
    have first : (heap.sweepOne isGarbage place).2.meters = _ := meters_sweepOne held
      ((watchers_of_payload? held).symm.trans (cleared place List.mem_cons_self))
    show ((heap.sweepOne isGarbage place).2.sweep isGarbage
      ((heap.sweepOne isGarbage place).1 ++ survivors) rest).2.meters = _
    rw [inductionHypothesis _ distinctRest, weights, first]
    · exact congrArg (fun tracker : Tracker => { heap.meters with
        tracker := tracker.creditAll (rest.map heap.bareSize) }) (congrArg Meters.tracker first)
    · intro other member
      exact (isLive_of_map (kept other member)).trans (live other (List.mem_cons_of_mem place member))
    · intro other member
      have empty := cleared other (List.mem_cons_of_mem place member)
      unfold watchers at empty ⊢
      rw [kept other member]
      cases found : heap.payload? other with
      | none => rfl
      | some payload =>
        rw [found] at empty
        rw [Option.map_some, Option.map_some, Option.getD_some]
        rw [watchers_mapWatchers payload (·.diff (heap.aimedAt [place] other)) (List.nil_diff _),
          show payload.watchers = [] from empty, List.nil_diff]

/-- The tracker gets back what the garbage weighs without its registers. -/
theorem meters_removeGarbage {limbo : List Handle} (sound : heap.Sound outside limbo)
    (settled : heap.pending = []) :
    (heap.removeGarbage heap.garbage).2.meters =
      { heap.meters with tracker := heap.tracker.creditAll (heap.garbage.map heap.bareSize) } := by
  have clears := clearsGarbage_garbage sound
  let middle := (heap.clearGarbage heap.isGarbage heap.garbage).2
  have books : middle.meters = heap.meters := meters_of_books clears.steady.books
  have register (place : Handle) (member : place ∈ heap.garbage) :
      middle.payload? place = (heap.payload? place).map (Payload.mapWatchers fun _ => []) := by
    rw [clears.payloads, if_pos member]
  have weights : heap.garbage.map middle.bareSize = heap.garbage.map heap.bareSize := by
    refine List.map_congr_left fun place member => ?_
    unfold bareSize
    rw [register place member]
    cases heap.payload? place with
    | none => rfl
    | some payload => exact payload.bareSize_mapWatchers _
  show (middle.sweep heap.isGarbage [] heap.garbage).2.meters = _
  rw [meters_sweep heap.isGarbage heap.garbage [] heap.nodup_garbage, weights, books,
    show middle.tracker = heap.tracker from congrArg Meters.tracker books]
  · intro place member
    rw [clears.isLive sound.watched]
    exact ((mem_garbage sound.balanced settled).mp member).1
  · intro place member
    unfold watchers
    rw [register place member]
    cases heap.payload? place with
    | none => rfl
    | some payload => exact watchers_mapWatchers payload _ rfl

/-- A collection without callbacks has come to its end: what it removed is all that nothing outside
leads to, everything else has forgotten that, and the tracker has got back what it weighed. -/
structure Collects (before : Heap Code) (outside : Multiset Handle) (removed : List Handle)
    (after : Heap Code) : Prop where
  distinct : removed.Nodup
  unreached : ∀ handle, handle ∈ removed ↔
    before.isLive handle ∧ ¬ before.Sustained outside handle
  payloads : ∀ handle, after.payload? handle =
    if handle ∈ removed then none
    else (before.payload? handle).map (Payload.without fun other => decide (other ∈ removed))
  births : ∀ handle, after.births handle = before.births handle
  sound : after.Sound outside []
  settled : after.pending = []
  idle : after.releasing = false
  meters : after.meters =
    { tracker := before.tracker.creditAll (removed.map before.bareSize)
      nextCounter := before.nextCounter
      sinceCollection := 0 }

theorem Collects.forgets {removed : List Handle} (collects : before.Collects outside removed after) :
    before.Forgets after := .of_gone collects.payloads

end Heap

/-- A collection comes to its end. -/
theorem Engine.exists_collects (engine : Engine Code Host) {before : World Code Host}
    {outside : Multiset Handle} (sound : before.heap.Sound outside [])
    (idle : before.heap.releasing = false) (settled : before.heap.pending = [])
    (silent : before.heap.Silent) (enough : before.heap.edges.length ≤ engine.rounds) :
    ∃ removed after, engine.collect before = .ok (removed.length, { before with heap := after }) ∧
      before.heap.Collects outside removed after := by
  have soundFirst : before.collecting.heap.Sound outside [] := sound.of_slots rfl rfl rfl rfl
  have quiet : before.collecting.heap.dueCallbacks = [] := by
    refine List.flatMap_eq_nil_iff.mpr fun place _ => List.filterMap_eq_nil_iff.mpr fun weakref _ => ?_
    rw [show before.collecting.heap.callback? weakref = none from silent weakref]
    exact ite_self _
  have removed : before.collecting.heap.Removes outside [] before.collected.heap :=
    (Heap.removes_removeGarbage soundFirst settled).2
  obtain ⟨after, empty, idleAfter, same, soundAfter, books, ended⟩ :=
    engine.collect_eq_of_sound sound idle settled enough
  have entries : { before with heap := after.heap } = after := by
    rw [show before.host = after.host from same.host.symm]
  rw [quiet] at ended soundAfter
  have payloads := removed.payloads
  rw [Heap.isGarbage_eq] at payloads
  refine ⟨before.collecting.heap.garbage, after.heap, ?_, Heap.nodup_garbage _,
    fun handle => Heap.mem_garbage soundFirst.balanced settled,
    fun handle => (same.payloads handle).trans (payloads handle),
    fun handle => (same.births handle).trans (removed.births handle), ?_, empty, idleAfter, ?_⟩
  · rw [entries]
    exact ended
  · exact soundAfter.congr (add_zero outside)
  · exact (congrArg Heap.meters books :).trans (Heap.meters_removeGarbage soundFirst settled)

end ObjectHeap
