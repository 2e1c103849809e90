/-
This file accounts for the slots of a heap. Between two operations of its host every slot is in
exactly one place: it is in use, it is free, or it is kept for methods. While code of the host runs
in the course of an operation, at most one slot is in none of them, the one whose entry is being
taken apart. The history of a run tells what the slots that are kept for methods come from and
where they go, and how many entries all slots have held together.
-/

import Mathlib
import ObjectHeap.Proofs.History

namespace ObjectHeap

variable {Code Host : Type}

namespace Heap

/-- In how many places a slot is: in use, free, or kept for methods. -/
def places (heap : Heap Code) (slot : Handle) : Nat :=
  (if heap.isLive slot then 1 else 0) + heap.free.count slot + heap.pool.slots.count slot

variable {heap : Heap Code}

/-- Every slot is in one place, counting those in limbo. -/
theorem Housed.places {limbo : List Handle} (housed : heap.Housed limbo) (slot : Handle) :
    heap.places slot + limbo.count slot = if slot < heap.slots.size then 1 else 0 := by
  have listed : heap.free.count slot + heap.pool.slots.count slot + limbo.count slot =
      if slot ∈ heap.free ++ heap.pool.slots ++ limbo then 1 else 0 := by
    rw [← housed.apart.count, List.count_append, List.count_append]
  have vacant := housed.vacant slot
  rw [births_pos_iff] at vacant
  unfold Heap.places
  rw [add_assoc, add_assoc, ← add_assoc (heap.free.count slot), listed]
  cases occupied : heap.occupant? slot with
  | none =>
    rw [isLive_eq, occupied]
    simp only [vacant, occupied, and_true, Option.isSome_none, Bool.false_eq_true, if_false, zero_add]
  | some entry =>
    have inside := heap.lt_size_of_occupant? occupied
    rw [isLive_eq, occupied]
    simp only [vacant, occupied, reduceCtorEq, and_false, Option.isSome_some, if_true, if_false,
      inside]

/-- A measure that adds up over the slots. -/
theorem sum_slots (heap : Heap Code) (measure : Slot Code → Nat) :
    (heap.slots.toList.map measure).sum =
      ∑ place ∈ Finset.range heap.slots.size, ((heap.slots[place]?).map measure).getD 0 := by
  rw [← Array.length_toList, Finset.sum_range, ← Fin.sum_univ_fun_getElem]
  refine Finset.sum_congr rfl fun place _ => ?_
  rw [← Array.getElem?_toList, List.getElem?_eq_getElem place.isLt]
  rfl

/-- The slots hold as many payloads as there are slots in use. -/
theorem length_payloads (heap : Heap Code) :
    heap.payloads.length =
      ∑ place ∈ Finset.range heap.slots.size, if heap.isLive place then 1 else 0 := by
  have counted (slots : List (Slot Code)) :
      (slots.filterMap fun slot => slot.entry.map Entry.payload).length =
        (slots.map fun slot => if slot.entry.isSome then 1 else 0).sum := by
    induction slots with
    | nil => rfl
    | cons slot rest inductionHypothesis =>
      cases held : slot.entry <;> simp [held, inductionHypothesis, Nat.add_comm]
  unfold payloads
  rw [counted, heap.sum_slots]
  refine Finset.sum_congr rfl fun place _ => ?_
  unfold isLive occupant?
  cases heap.slots[place]? with
  | none => rfl
  | some slot => rfl

/-- A list of slots has each of them as often as it is counted there. -/
theorem sum_count {slots : List Handle} {bound : Nat} (inside : ∀ slot ∈ slots, slot < bound) :
    ∑ slot ∈ Finset.range bound, slots.count slot = slots.length := by
  have counted := Multiset.sum_count_eq_card (m := slots) fun slot member =>
    Finset.mem_range.mpr (inside slot (Multiset.mem_coe.mp member))
  simpa only [Multiset.coe_count, Multiset.coe_card] using counted

/-- The numbers of a heap whose slots are all in place add up. -/
theorem stats_of_places
    (places : ∀ slot, heap.places slot = if slot < heap.slots.size then 1 else 0) :
    heap.stats.liveObjects + heap.stats.freeSlots + heap.stats.pooledSlots =
      heap.stats.totalSlots := by
  have inside {slot : Handle} (listed : 0 < heap.places slot) : slot < heap.slots.size := by
    by_contra outside
    rw [places, if_neg outside] at listed
    exact Nat.lt_irrefl 0 listed
  have free : ∑ slot ∈ Finset.range heap.slots.size, heap.free.count slot = heap.free.length :=
    sum_count fun slot member => inside (by
      have counted := List.count_pos_iff.mpr member
      unfold Heap.places
      omega)
  have pooled : ∑ slot ∈ Finset.range heap.slots.size, heap.pool.slots.count slot =
      heap.pool.slots.length :=
    sum_count fun slot member => inside (by
      have counted := List.count_pos_iff.mpr member
      unfold Heap.places
      omega)
  show (heap.payloads.map Payload.kind).length + heap.free.length + heap.pool.slots.length =
    heap.slots.size
  calc (heap.payloads.map Payload.kind).length + heap.free.length + heap.pool.slots.length
      = ∑ slot ∈ Finset.range heap.slots.size, heap.places slot := by
        unfold Heap.places
        rw [Finset.sum_add_distrib, Finset.sum_add_distrib, free, pooled, List.length_map,
          length_payloads]
    _ = ∑ slot ∈ Finset.range heap.slots.size, 1 :=
        Finset.sum_congr rfl fun slot member => by rw [places, if_pos (Finset.mem_range.mp member)]
    _ = heap.slots.size := by simp

/-- The generations of the slots tell how many entries they have held. -/
theorem sum_generations (heap : Heap Code) :
    (heap.slots.toList.map fun slot => slot.generation + 1).sum =
      ∑ slot ∈ Finset.range heap.slots.size, heap.births slot :=
  heap.sum_slots fun slot => slot.generation + 1

end Heap

/-- Payloads that are placed are placed in one slot each. -/
theorem Event.sum_fills {events : List (Event Code)} {bound : Nat}
    (inside : ∀ slot, 0 < events.countP (Event.fills slot) → slot < bound) :
    ∑ slot ∈ Finset.range bound, events.countP (Event.fills slot) =
      events.countP Event.isPlaced := by
  induction events with
  | nil => exact Finset.sum_const_zero
  | cons event rest inductionHypothesis =>
    have later := inductionHypothesis fun slot placed => inside slot (by
      rw [List.countP_cons]
      omega)
    simp only [List.countP_cons, Finset.sum_add_distrib, later]
    refine congrArg _ ?_
    cases event with
    | placed slot payload pooled =>
      have member : slot ∈ Finset.range bound := Finset.mem_range.mpr (inside slot (by
        rw [List.countP_cons_of_pos (by simp [Event.fills])]
        omega))
      simp [Event.fills, Event.isPlaced, Finset.mem_range.mp member]
    | vacated slot payload => simp [Event.fills, Event.isPlaced]
    | noted moment => simp [Event.fills, Event.isPlaced]

/-- All entries that the slots have held are allocations of the tracker. -/
theorem History.generations {config : Config} {events : List (Event Code)} {heap : Heap Code}
    (history : History (Heap.new config) events heap) :
    heap.tracker.allocations =
      UInt64.ofNat (heap.slots.toList.map fun slot => slot.generation + 1).sum := by
  have births (slot : Handle) : heap.births slot = events.countP (Event.fills slot) := by
    rw [history.births, Heap.births_new, zero_add]
  rw [history.allocations, heap.sum_generations, Finset.sum_congr rfl fun slot _ => births slot,
    Event.sum_fills fun slot placed => ?_]
  rw [← births, heap.births_pos_iff] at placed
  exact placed

namespace Reached

variable {held : Host → Multiset Handle} {bodies : Code → Arguments → Program Code Host}
  {config : Config} {hand : Multiset Handle} {world : World Code (Recorded Code Host)}

/-- At a moment of a run, at most one slot is in no place. Its entry was taken out and is still
being taken apart. -/
theorem exists_limbo (respectful : RespectfulBodies held bodies)
    (reached : Reached held bodies config hand world) {moment : Moment Code}
    {older : List (Event Code)} (noted : moment ∈ world.host.moments)
    (history : History (Heap.new config) older moment.heap) :
    ∃ limbo : Option Handle, (moment.heap.releasing = false → limbo = none) ∧
      (∀ slot ∈ limbo, ∃ payload, Event.last? slot older = some (.vacated slot payload)) ∧
      ∀ slot, moment.heap.places slot + limbo.toList.count slot =
        if slot < moment.heap.slots.size then 1 else 0 := by
  have chronicle : Chronicle world.host.moments world.heap := (reached.holds respectful).fits
  obtain ⟨limbo, housed, narrow, idle⟩ := (chronicle.orderly moment noted).housed
  have single : limbo.head?.toList = limbo := by
    match limbo, narrow with
    | [], _ => rfl
    | [slot], _ => rfl
  refine ⟨limbo.head?, fun settled => ?_, fun slot member => ?_, fun slot => ?_⟩
  · rw [idle settled]
    rfl
  · have listed : slot ∈ moment.heap.free ++ moment.heap.pool.slots ++ limbo := by
      rw [← single]
      exact List.mem_append_right _ (Option.mem_toList.mpr member)
    obtain ⟨born, empty⟩ := (housed.vacant slot).mp listed
    refine (history.last? slot).2 ?_ born
    rw [Heap.isLive_eq, empty]
    rfl
  · rw [single]
    exact housed.places slot

/-- Between two operations of a host that respects ownership, every slot is in exactly one place,
and no more slots are kept for methods than there is room. All of those were left by methods, and
only methods have taken any of them. The generations of the slots add up to the allocations that
the tracker has counted. At any moment of the run before, a slot that was in no place held the
entry that was being taken apart. -/
theorem slots_are_in_place (respectful : RespectfulBodies held bodies)
    (reached : Reached held bodies config hand world) :
    (∀ slot, world.heap.places slot = if slot < world.heap.slots.size then 1 else 0) ∧
    world.heap.stats.liveObjects + world.heap.stats.freeSlots + world.heap.stats.pooledSlots =
      world.heap.stats.totalSlots ∧
    world.heap.stats.pooledSlots ≤ config.methodPoolCapacity.toNat ∧
    world.heap.stats.allocations =
      UInt64.ofNat (world.heap.slots.toList.map fun slot => slot.generation + 1).sum ∧
    ∃ events, History (Heap.new config) events world.heap ∧
      events.filterMap Event.moment? = world.host.moments ∧
      (∀ slot ∈ world.heap.pool.slots, ∃ payload,
        Event.last? slot events = some (.vacated slot payload) ∧ payload.isMethod) ∧
      (∀ slot payload, .placed slot payload true ∈ events → payload.isMethod) ∧
      ∀ newer moment older, events = newer ++ .noted moment :: older →
        ∃ limbo : Option Handle, (moment.heap.releasing = false → limbo = none) ∧
          (∀ slot ∈ limbo, ∃ payload, Event.last? slot older = some (.vacated slot payload)) ∧
          ∀ slot, moment.heap.places slot + limbo.toList.count slot =
            if slot < moment.heap.slots.size then 1 else 0 := by
  have places (slot : Handle) : world.heap.places slot = if slot < world.heap.slots.size then 1 else 0 :=
    (reached.holds respectful).sound.housed.places slot
  obtain ⟨events, history, moments⟩ := reached.exists_history respectful
  refine ⟨places, Heap.stats_of_places places, ?_, history.generations, events, history, moments,
    fun slot member => history.pooled member, fun slot payload => history.isMethod_of_pooled,
    fun newer moment older split => ?_⟩
  · exact world.heap.pool.bounded.trans_eq history.capacity
  · refine reached.exists_limbo respectful ?_ (history.of_noted split)
    rw [← moments, split, List.filterMap_append]
    exact List.mem_append_right _ List.mem_cons_self

/-- The slot of a method that was dropped is kept for methods. -/
theorem slots_of_dropped_method : ∃ world : World Unit (Recorded Unit Unit),
    Reached (fun _ => 0) idleBodies Config.standard {0} world ∧ world.heap.pool.slots = [1] ∧
    (∀ slot, world.heap.places slot = if slot < world.heap.slots.size then 1 else 0) ∧
    ∃ events, History (Heap.new Config.standard) events world.heap ∧
      ∃ payload, Event.last? 1 events = some (.vacated 1 payload) ∧ payload.isMethod := by
  have function : Reached (fun _ : Unit => 0) idleBodies Config.standard {0} _ :=
    .perform (.newFunction "f" none none ()) 4 (.ok (.ref 0)) (.start () rfl)
      (fun _ member => member) rfl
  have method : Reached (fun _ : Unit => 0) idleBodies Config.standard ({0} + {1}) _ :=
    .perform (.newMethod (.ref 0) (.int 1) .nil) 4 (.ok (.ref 1)) function
      (Multiset.subset_of_le (by decide)) rfl
  obtain ⟨world, dropped, kept⟩ := exists_perform (.drop (.ref 1)) 4 ()
    (fun world => world.heap.pool.slots) (method.congr (add_comm {0} {1}))
    (fun _ member => absurd member (Multiset.notMem_zero _)) (by cbv)
  obtain ⟨places, _, _, _, events, history, _, pooled, _⟩ :=
    slots_are_in_place respectful_idleBodies dropped
  exact ⟨world, dropped.congr (add_zero {0}), kept, places, events, history,
    pooled 1 (kept ▸ List.mem_singleton_self 1)⟩

end Reached

end ObjectHeap
