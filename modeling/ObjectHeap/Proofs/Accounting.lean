/-
This file compares the memory that the tracker has on its books with what was charged for the live
entries. An entry is charged for when it is placed, and when it is freed it gives back what it
weighs by then. Entries never get lighter than they were, but they do get heavier: lists and tables
of attributes grow, and weak references are registered. Hence the books show too little as soon as
an entry is freed that has grown, and they stay wrong until the heap is empty again.
-/

import ObjectHeap.Proofs.Slots

namespace ObjectHeap

variable {Code Host : Type}

/-! ### Weights -/

namespace Payload

theorem bareSize_le_size (payload : Payload Code) : payload.bareSize ≤ payload.size := by
  cases payload with
  | object data => exact Nat.add_le_add_left (Nat.zero_mul _ ▸ Nat.zero_le _) _
  | method data => exact Nat.add_le_add_left (Nat.zero_mul _ ▸ Nat.zero_le _) _
  | _ => exact le_rfl

theorem bareSize_of_unwatched {payload : Payload Code} (unwatched : payload.watchers = []) :
    payload.bareSize = payload.size := by
  cases payload with
  | object data => exact congrArg (fun watchers => (object { data with watchers }).size) unwatched.symm
  | method data => exact congrArg (fun watchers => (method { data with watchers }).size) unwatched.symm
  | _ => rfl

theorem size_pos (payload : Payload Code) : 0 < payload.size := by
  cases payload <;> simp only [size] <;> omega

end Payload

/-! ### Charges -/

namespace Event

/-- What was charged for the last entry of a slot. -/
def charge (slot : Handle) : List (Event Code) → Nat
  | [] => 0
  | placed other payload _ :: rest => if other = slot then payload.size else charge slot rest
  | _ :: rest => charge slot rest

/-- What was charged for those entries that are still there. -/
def outstanding : List (Event Code) → Nat
  | [] => 0
  | placed _ payload _ :: rest => outstanding rest + payload.size
  | vacated slot _ :: rest => outstanding rest - charge slot rest
  | noted _ :: rest => outstanding rest

/-- No number is too large for a machine word: neither what is charged for the entries that are
there, nor what an entry weighs when it is freed. -/
def Fits : List (Event Code) → Prop
  | [] => True
  | placed _ payload _ :: rest => outstanding rest + payload.size < UInt64.size ∧ Fits rest
  | vacated _ payload :: rest => payload.size < UInt64.size ∧ Fits rest
  | noted _ :: rest => Fits rest

/-- Since nothing was there, every entry that was freed weighed what had been charged for it. -/
inductive Exact : List (Event Code) → Prop
  | empty {events : List (Event Code)} (nothing : outstanding events = 0) : Exact events
  | placed {events : List (Event Code)} {slot : Handle} {payload : Payload Code} {pooled : Bool}
    (exact : Exact events) : Exact (.placed slot payload pooled :: events)
  | vacated {events : List (Event Code)} {slot : Handle} {payload : Payload Code}
    (exact : Exact events) (same : payload.size = charge slot events) :
    Exact (.vacated slot payload :: events)
  | noted {events : List (Event Code)} {moment : Moment Code} (exact : Exact events) :
    Exact (.noted moment :: events)

variable {events : List (Event Code)} {slot : Handle} {payload : Payload Code} {pooled : Bool}
  {moment : Moment Code}

/-- Where nothing is freed, it is enough that what is there in the end fits. -/
theorem fits_of_outstanding (light : outstanding events < UInt64.size)
    (kept : ∀ slot payload, .vacated slot payload ∉ events) : Fits events := by
  induction events with
  | nil => trivial
  | cons event rest inductionHypothesis =>
    have later (slot payload) (member : .vacated slot payload ∈ rest) : False :=
      kept slot payload (List.mem_cons_of_mem _ member)
    cases event with
    | placed slot payload pooled =>
      exact ⟨light, inductionHypothesis ((Nat.le_add_right _ _).trans_lt light) later⟩
    | vacated slot payload => exact absurd List.mem_cons_self (kept slot payload)
    | noted moment => exact inductionHypothesis light later

theorem exact_placed : Exact (.placed slot payload pooled :: events) ↔ Exact events := by
  constructor
  · intro exact
    cases exact with
    | empty nothing => exact .empty (Nat.eq_zero_of_add_eq_zero_right nothing)
    | placed exact => exact exact
  · exact .placed

theorem exact_noted : Exact (.noted moment :: events) ↔ Exact events := by
  constructor
  · intro exact
    cases exact with
    | empty nothing => exact .empty nothing
    | noted exact => exact exact
  · exact .noted

theorem exact_vacated : Exact (.vacated slot payload :: events) ↔
    outstanding events - charge slot events = 0 ∨
      Exact events ∧ payload.size = charge slot events := by
  constructor
  · intro exact
    cases exact with
    | empty nothing => exact Or.inl nothing
    | vacated exact same => exact Or.inr ⟨exact, same⟩
  · rintro (nothing | ⟨exact, same⟩)
    · exact .empty nothing
    · exact exact.vacated same

end Event

namespace Heap

/-- What was charged for the entry of a slot; nothing if there is none. -/
def charge (heap : Heap Code) (events : List (Event Code)) (slot : Handle) : Nat :=
  if heap.isLive slot then Event.charge slot events else 0

/-- Every slot still holds the first entry that it held. -/
def KeepsAll (heap : Heap Code) : Prop :=
  ∀ slot, 0 < heap.births slot → heap.births slot = 1 ∧ heap.isLive slot

theorem sum_liveHandles (heap : Heap Code) (events : List (Event Code)) :
    (heap.liveHandles.map fun slot => Event.charge slot events).sum =
      ∑ slot ∈ Finset.range heap.slots.size, heap.charge events slot := by
  unfold liveHandles
  induction heap.slots.size with
  | zero => rfl
  | succ bound inductionHypothesis =>
    rw [Finset.sum_range_succ, ← inductionHypothesis, List.range_succ, List.filter_append,
      List.map_append, List.sum_append]
    unfold charge
    cases live : heap.isLive bound <;> simp [live]

/-- Slots beyond the last one are charged nothing. -/
theorem sum_charge (heap : Heap Code) (events : List (Event Code)) {bound : Nat}
    (large : heap.slots.size ≤ bound) :
    ∑ slot ∈ Finset.range heap.slots.size, heap.charge events slot =
      ∑ slot ∈ Finset.range bound, heap.charge events slot := by
  refine Finset.sum_subset (Finset.range_mono large) fun slot _ outside => ?_
  unfold charge
  rw [if_neg]
  intro live
  obtain ⟨entry, occupied⟩ := (heap.isLive_iff slot).mp live
  exact outside (Finset.mem_range.mpr (heap.lt_size_of_occupant? occupied))

variable {before after : Heap Code}

theorem size_mono (older : ∀ slot, before.births slot ≤ after.births slot) :
    before.slots.size ≤ after.slots.size := by
  by_contra less
  have born := (before.births_pos_iff after.slots.size).mpr (Nat.lt_of_not_le less)
  exact Nat.lt_irrefl _ ((after.births_pos_iff _).mp (born.trans_le (older _)))

/-- When the charge of one slot changes, the sum changes by as much. -/
theorem sum_charge_of_others {events later : List (Event Code)} (slot : Handle)
    (older : ∀ slot, before.births slot ≤ after.births slot)
    (others : ∀ other, other ≠ slot → after.charge later other = before.charge events other) :
    ∑ other ∈ Finset.range after.slots.size, after.charge later other + before.charge events slot =
      ∑ other ∈ Finset.range before.slots.size, before.charge events other +
        after.charge later slot := by
  let bound := max after.slots.size (slot + 1)
  have inside : slot ∈ Finset.range bound :=
    Finset.mem_range.mpr (lt_of_lt_of_le (Nat.lt_succ_self slot) (le_max_right _ _))
  have ofBefore := Finset.add_sum_erase (Finset.range bound) (before.charge events) inside
  have ofAfter := Finset.add_sum_erase (Finset.range bound) (after.charge later) inside
  have same : ∑ other ∈ (Finset.range bound).erase slot, after.charge later other =
      ∑ other ∈ (Finset.range bound).erase slot, before.charge events other :=
    Finset.sum_congr rfl fun other member => others other (Finset.ne_of_mem_erase member)
  rw [before.sum_charge events ((size_mono older).trans (le_max_left _ _)),
    after.sum_charge later (le_max_left _ _), ← ofBefore, ← ofAfter, same]
  omega

end Heap

namespace History

variable {start heap : Heap Code} {config : Config} {events : List (Event Code)} {slot : Handle}

/-- An entry never weighs less than what was charged for it. -/
theorem charge_le (history : History (Heap.new config) events heap) (live : heap.isLive slot) :
    Event.charge slot events ≤ heap.bareSize slot := by
  -- A charge is made when an entry is placed, and from then on the entry only grows.
  induction history with
  | start =>
    rw [Heap.isLive_new] at live
    cases live
  | unmoved _ unmoved inductionHypothesis =>
    rw [unmoved.lives] at live
    exact (inductionHypothesis live).trans (unmoved.sizes slot)
  | noted _ _ inductionHypothesis => exact inductionHypothesis live
  | @placed _ before after payload other _ places inductionHypothesis =>
    by_cases same : other = slot
    · subst same
      unfold Event.charge Heap.bareSize
      rw [if_pos rfl, places.here]
      exact (payload.bareSize_of_unwatched places.unwatched).ge
    · have here := places.others slot (Ne.symm same)
      unfold Event.charge
      rw [if_neg same, Heap.bareSize_congr here]
      rw [Heap.isLive_congr here] at live
      exact inductionHypothesis live
  | @vacated _ before after payload other _ vacates inductionHypothesis =>
    have different : slot ≠ other := by
      rintro rfl
      rw [vacates.empty] at live
      cases live
    rw [vacates.others slot different] at live
    exact (inductionHypothesis live).trans (vacates.sizes slot different)
  | recycled _ _ _ inductionHypothesis =>
    rw [Heap.isLive_recycle] at live
    rw [Heap.bareSize_congr (Heap.payload?_congr (Heap.occupant?_recycle _ _ _ _))]
    exact inductionHypothesis live

/-- Something was charged for every entry. -/
theorem charge_pos (history : History (Heap.new config) events heap) (live : heap.isLive slot) :
    0 < Event.charge slot events := by
  obtain ⟨payload, pooled, last⟩ := (history.last? slot).1 live
  clear history live
  induction events with
  | nil => cases last
  | cons event rest inductionHypothesis =>
    cases event with
    | placed other content kept =>
      unfold Event.charge
      split
      · exact content.size_pos
      · rename_i different
        rw [Event.last?_cons_of_ne (by simpa [Event.slot?] using different)] at last
        exact inductionHypothesis last
    | vacated other content =>
      by_cases same : other = slot
      · subst same
        rw [Event.last?_cons_self rfl] at last
        cases last
      · rw [Event.last?_cons_of_ne (by simpa [Event.slot?] using same)] at last
        exact inductionHypothesis last
    | noted moment =>
      rw [Event.last?_cons_of_ne (by simp [Event.slot?])] at last
      exact inductionHypothesis last

/-- What is outstanding is what was charged for the live entries. -/
theorem sum_charge (history : History (Heap.new config) events heap) :
    ∑ slot ∈ Finset.range heap.slots.size, heap.charge events slot = Event.outstanding events := by
  induction history with
  | start => rfl
  | @unmoved events before after _ unmoved inductionHypothesis =>
    have same (other : Handle) : after.charge events other = before.charge events other := by
      unfold Heap.charge
      rw [unmoved.lives]
    have sums := Heap.sum_charge_of_others 0 (fun other => (unmoved.births other).ge)
      fun other _ => same other
    rw [same 0] at sums
    omega
  | noted _ _ inductionHypothesis => exact inductionHypothesis
  | @placed events before after payload slot _ places inductionHypothesis =>
    let later : List (Event Code) :=
      .placed slot payload (decide (slot ∈ before.pool.slots)) :: events
    have older (other : Handle) : before.births other ≤ after.births other := by
      by_cases same : other = slot
      · rw [same, places.born]
        exact Nat.le_succ _
      · exact (places.steady other same).ge
    have others (other : Handle) (different : other ≠ slot) :
        after.charge later other = before.charge events other := by
      unfold Heap.charge
      rw [Heap.isLive_congr (places.others other different)]
      show (if before.isLive other then if slot = other then _ else _ else 0) = _
      rw [if_neg (Ne.symm different)]
    have nothing : before.charge events slot = 0 := by
      unfold Heap.charge
      rw [Heap.isLive_eq_payload?, places.empty]
      rfl
    have charged : after.charge later slot = payload.size := by
      unfold Heap.charge
      rw [if_pos (Heap.isLive_of_payload? places.here)]
      exact if_pos rfl
    have sums := Heap.sum_charge_of_others slot older others
    rw [nothing, charged, inductionHypothesis] at sums
    exact sums
  | @vacated events before after payload slot _ vacates inductionHypothesis =>
    have others (other : Handle) (different : other ≠ slot) :
        after.charge (.vacated slot payload :: events) other = before.charge events other := by
      unfold Heap.charge
      rw [vacates.others other different]
      rfl
    have charged : before.charge events slot = Event.charge slot events := if_pos vacates.isLive
    have nothing : after.charge (.vacated slot payload :: events) slot = 0 := by
      unfold Heap.charge
      rw [vacates.empty]
      rfl
    have sums := Heap.sum_charge_of_others slot (fun other => (vacates.births other).ge) others
    rw [nothing, charged, inductionHypothesis] at sums
    exact Nat.eq_sub_of_add_eq sums
  | @recycled events before payload slot _ _ _ inductionHypothesis =>
    rw [← inductionHypothesis, Heap.slots_recycle]
    refine Finset.sum_congr rfl fun other _ => ?_
    unfold Heap.charge
    rw [Heap.isLive_recycle]

/-- What was charged for an entry is a part of what is outstanding. -/
theorem charge_le_outstanding (history : History (Heap.new config) events heap)
    (live : heap.isLive slot) : Event.charge slot events ≤ Event.outstanding events := by
  obtain ⟨entry, occupied⟩ := (heap.isLive_iff slot).mp live
  have charged : heap.charge events slot = Event.charge slot events := if_pos live
  rw [← history.sum_charge, ← charged]
  exact Finset.single_le_sum_of_canonicallyOrdered
    (Finset.mem_range.mpr (heap.lt_size_of_occupant? occupied))

/-- What is outstanding is at most what the entries weigh that are there. -/
theorem outstanding_le (history : History (Heap.new config) events heap) :
    Event.outstanding events ≤ ∑ slot ∈ Finset.range heap.slots.size, heap.bareSize slot := by
  rw [← history.sum_charge]
  refine Finset.sum_le_sum fun slot _ => ?_
  unfold Heap.charge
  split
  · rename_i live
    exact history.charge_le live
  · exact Nat.zero_le _

/-- Nothing was freed if every slot still holds the first entry that it held. -/
theorem not_vacated (history : History (Heap.new config) events heap) (kept : heap.KeepsAll)
    (payload : Payload Code) : .vacated slot payload ∉ events := by
  induction history with
  | start => exact List.not_mem_nil
  | unmoved _ unmoved inductionHypothesis =>
    refine inductionHypothesis fun other born => ?_
    rw [← unmoved.births, ← unmoved.lives]
    exact kept other (by rwa [unmoved.births])
  | noted _ _ inductionHypothesis =>
    exact List.not_mem_cons_of_ne_of_not_mem nofun (inductionHypothesis kept)
  | @placed _ before _ _ place _ places inductionHypothesis =>
    refine List.not_mem_cons_of_ne_of_not_mem nofun (inductionHypothesis fun other born => ?_)
    by_cases same : other = place
    · -- The slot would hold its second entry by now.
      subst same
      have first := (kept other (places.born ▸ Nat.succ_pos _)).1
      rw [places.born] at first
      omega
    · rw [← places.steady other same, ← Heap.isLive_congr (places.others other same)]
      exact kept other (by rwa [places.steady other same])
  | @vacated _ _ _ _ place _ vacates _ =>
    obtain ⟨_, live⟩ := kept place vacates.stray.born
    rw [vacates.empty] at live
    cases live
  | recycled _ _ _ inductionHypothesis =>
    refine inductionHypothesis fun other born => ?_
    have still := kept other
    rw [Heap.births_congr (Heap.slots_recycle _ _ _), Heap.isLive_recycle] at still
    exact still born

/-- No number is too large as long as nothing is freed and the entries are not too heavy. -/
theorem fits (history : History (Heap.new config) events heap) (kept : heap.KeepsAll)
    (light : ∑ slot ∈ Finset.range heap.slots.size, heap.bareSize slot < UInt64.size) :
    Event.Fits events :=
  Event.fits_of_outstanding (history.outstanding_le.trans_lt light)
    fun _ payload => history.not_vacated kept payload

theorem limits (history : History start events heap) :
    heap.tracker.limits = start.tracker.limits := by
  induction history with
  | start => rfl
  | unmoved _ unmoved inductionHypothesis => rw [unmoved.tracker, inductionHypothesis]
  | noted _ _ inductionHypothesis => exact inductionHypothesis
  | placed _ places inductionHypothesis =>
    obtain ⟨_, _, recorded⟩ := Tracker.charge_eq_ok.mp places.charged
    rw [recorded]
    exact inductionHypothesis
  | vacated _ vacates inductionHypothesis =>
    rw [vacates.tracker]
    exact inductionHypothesis
  | recycled _ _ _ inductionHypothesis => rw [Heap.tracker_recycle, inductionHypothesis]

/-- The books never show more than the limit. -/
theorem memory_le_limit (history : History (Heap.new config) events heap) {limit : UInt64}
    (limited : config.limits.maxMemory = some limit) : heap.tracker.memory ≤ limit := by
  induction history with
  | start => exact UInt64.le_iff_toNat_le.mpr (Nat.zero_le _)
  | unmoved _ unmoved inductionHypothesis => rwa [unmoved.tracker]
  | noted _ _ inductionHypothesis => exact inductionHypothesis
  | placed history places inductionHypothesis =>
    obtain ⟨_, accepted, recorded⟩ := Tracker.charge_eq_ok.mp places.charged
    rw [recorded]
    exact Tracker.memory_record_le (history.limits.symm ▸ limited) accepted
  | vacated _ vacates inductionHypothesis =>
    rw [vacates.tracker, UInt64.le_iff_toNat_le, Tracker.toNat_memory_credit]
    exact (Nat.sub_le _ _).trans (UInt64.le_iff_toNat_le.mp inductionHypothesis)
  | recycled _ _ _ inductionHypothesis => rwa [Heap.tracker_recycle]

/-- The books never show more than what was charged for the live entries, and they show all of it
as long as every entry that is freed gives back what was charged for it. -/
theorem memory (history : History (Heap.new config) events heap) (fits : Event.Fits events) :
    heap.tracker.memory.toNat ≤ Event.outstanding events ∧
      (heap.tracker.memory.toNat = Event.outstanding events ↔ Event.Exact events) := by
  induction history with
  | start => exact ⟨le_rfl, iff_of_true rfl (.empty rfl)⟩
  | unmoved _ unmoved inductionHypothesis =>
    rw [unmoved.tracker]
    exact inductionHypothesis fits
  | noted _ _ inductionHypothesis =>
    rw [Event.exact_noted]
    exact inductionHypothesis fits
  | @placed events before after payload slot _ places inductionHypothesis =>
    obtain ⟨room, fitsBefore⟩ := fits
    obtain ⟨within, exact⟩ := inductionHypothesis fitsBefore
    obtain ⟨_, _, recorded⟩ := Tracker.charge_eq_ok.mp places.charged
    have added : after.tracker.memory.toNat = before.tracker.memory.toNat + payload.size := by
      have small : payload.size < UInt64.size := by omega
      rw [recorded, Tracker.record, UInt64.toNat_add, UInt64.toNat_ofNat_of_lt' small]
      exact Nat.mod_eq_of_lt ((Nat.add_le_add_right within _).trans_lt room)
    rw [Event.exact_placed, ← exact, added]
    show _ ≤ Event.outstanding events + payload.size ∧
      (_ = Event.outstanding events + payload.size ↔ _)
    exact ⟨by omega, by omega⟩
  | @vacated events before after payload slot history vacates inductionHypothesis =>
    obtain ⟨small, fitsBefore⟩ := fits
    obtain ⟨within, exact⟩ := inductionHypothesis fitsBefore
    have live := vacates.isLive
    have part := history.charge_le_outstanding live
    -- An entry only grows, so it gives back what was charged for it, or more.
    have heavier : Event.charge slot events ≤ payload.size := by
      have bare := history.charge_le live
      unfold Heap.bareSize at bare
      rw [vacates.held] at bare
      exact bare.trans payload.bareSize_le_size
    rw [Event.exact_vacated, ← exact, vacates.tracker, Tracker.toNat_memory_credit,
      UInt64.toNat_ofNat_of_lt' small]
    show _ ≤ Event.outstanding events - Event.charge slot events ∧
      (_ = Event.outstanding events - Event.charge slot events ↔ _)
    exact ⟨by omega, by omega⟩
  | recycled _ _ _ inductionHypothesis =>
    rw [Heap.tracker_recycle]
    exact inductionHypothesis fits

end History

namespace Reached

variable {held : Host → Multiset Handle} {bodies : Code → Arguments → Program Code Host}
  {config : Config} {hand : Multiset Handle} {world : World Code (Recorded Code Host)}

/-- Between two operations of a host that respects ownership, the tracker never shows more memory
than the limit, nor more than was charged for the live entries. It shows exactly that if every
entry that was freed since the heap was last empty weighed what had been charged for it, and
otherwise it shows less. -/
theorem memory_is_charged_iff (respectful : RespectfulBodies held bodies)
    (reached : Reached held bodies config hand world) :
    (∀ limit, config.limits.maxMemory = some limit → world.heap.stats.memory ≤ limit) ∧
    ∃ events, History (Heap.new config) events world.heap ∧
      events.filterMap Event.moment? = world.host.moments ∧
      (Event.Fits events →
        world.heap.stats.memory.toNat ≤
          (world.heap.liveHandles.map fun slot => Event.charge slot events).sum ∧
        (world.heap.stats.memory.toNat =
          (world.heap.liveHandles.map fun slot => Event.charge slot events).sum ↔
            Event.Exact events)) := by
  obtain ⟨events, history, moments⟩ := reached.exists_history respectful
  refine ⟨fun limit limited => history.memory_le_limit limited, events, history, moments,
    fun fits => ?_⟩
  rw [Heap.sum_liveHandles, history.sum_charge]
  exact history.memory fits

/-- A string is all there is, and the tracker shows what was charged for it. -/
theorem memory_of_string : ∃ world : World Unit (Recorded Unit Unit),
    Reached (fun _ => 0) idleBodies Config.standard {0} world ∧ world.heap.stats.memory = 25 ∧
    ∃ events, History (Heap.new Config.standard) events world.heap ∧
      events.filterMap Event.moment? = world.host.moments ∧ Event.Fits events ∧
      world.heap.stats.memory.toNat ≤
        (world.heap.liveHandles.map fun slot => Event.charge slot events).sum ∧
      (world.heap.stats.memory.toNat =
        (world.heap.liveHandles.map fun slot => Event.charge slot events).sum ↔
          Event.Exact events) := by
  obtain ⟨world, reached, shown⟩ : ∃ world : World Unit (Recorded Unit Unit),
      Reached (fun _ => 0) idleBodies Config.standard {0} world ∧
        (world.heap.stats.memory, world.heap.slots.size, world.heap.births 0, world.heap.isLive 0,
          world.heap.bareSize 0) = (25, 1, 1, true, 25) :=
    exists_perform (.newString "s") 4 (.ok (.ref 0))
      (fun world => (world.heap.stats.memory, world.heap.slots.size, world.heap.births 0,
        world.heap.isLive 0, world.heap.bareSize 0))
      (.start () rfl) (fun _ member => member) (by cbv)
  simp only [Prod.mk.injEq] at shown
  obtain ⟨memory, single, first, live, weight⟩ := shown
  obtain ⟨_, events, history, moments, charged⟩ :=
    memory_is_charged_iff respectful_idleBodies reached
  have kept : world.heap.KeepsAll := fun slot born => by
    have inside := (world.heap.births_pos_iff slot).mp born
    rw [single] at inside
    obtain rfl := Nat.lt_one_iff.mp inside
    exact ⟨first, live⟩
  have fits : Event.Fits events := history.fits kept (by
    rw [single, Finset.sum_range_one, weight]
    decide)
  exact ⟨world, reached, memory, events, history, moments, fits, charged fits⟩

/-- A string is left when a list was dropped that had grown twice, and the tracker shows nothing,
whatever was charged for the string. -/
theorem memory_of_string_after_list : ∃ world : World Unit (Recorded Unit Unit),
    Reached (fun _ => 0) idleBodies Config.standard {0} world ∧
    world.heap.stats.memory = 0 ∧ world.heap.liveHandles = [0] ∧
    ∀ events, History (Heap.new Config.standard) events world.heap →
      world.heap.stats.memory.toNat ≠
        (world.heap.liveHandles.map fun slot => Event.charge slot events).sum := by
  have string : Reached (fun _ : Unit => 0) idleBodies Config.standard {0} _ :=
    .perform (.newString "") 4 (.ok (.ref 0)) (.start () rfl) (fun _ member => member) rfl
  have list : Reached (fun _ : Unit => 0) idleBodies Config.standard ({0} + {1}) _ :=
    .perform (.newList []) 4 (.ok (.ref 1)) string
      (fun _ member => absurd member (Multiset.notMem_zero _)) rfl
  have grown : Reached (fun _ : Unit => 0) idleBodies Config.standard ({0} + {1} + 0) _ :=
    .perform (.append (.ref 1) (.int 1)) 4 (.ok ()) (list.congr (zero_add _).symm)
      (Multiset.subset_of_le (by decide)) rfl
  have grownTwice : Reached (fun _ : Unit => 0) idleBodies Config.standard ({0} + {1} + 0 + 0) _ :=
    .perform (.append (.ref 1) (.int 2)) 4 (.ok ()) (grown.congr (zero_add _).symm)
      (Multiset.subset_of_le (by decide)) rfl
  obtain ⟨world, dropped, shown⟩ : ∃ world : World Unit (Recorded Unit Unit),
      Reached (fun _ => 0) idleBodies Config.standard ({0} + 0) world ∧
        (world.heap.stats.memory, world.heap.liveHandles) = (0, [0]) :=
    exists_perform (.drop (.ref 1)) 4 ()
      (fun world => (world.heap.stats.memory, world.heap.liveHandles))
      (grownTwice.congr (by decide)) (fun _ member => absurd member (Multiset.notMem_zero _)) (by cbv)
  obtain ⟨memory, live⟩ := Prod.mk.inj shown
  refine ⟨world, dropped.congr (add_zero {0}), memory, live, fun events history => ?_⟩
  have alive : world.heap.isLive 0 := by
    have member : 0 ∈ world.heap.liveHandles := live ▸ List.mem_singleton_self 0
    exact (List.mem_filter.mp member).2
  have charged := history.charge_pos alive
  rw [memory, live]
  exact ne_of_lt (charged.trans_eq (Nat.add_zero _).symm)

end Reached

end ObjectHeap
