/-
This file keeps the history of a heap: which payloads were placed in which slots, and which were
taken out of them again, with the moments of the run in between. Every run has a history. A slot
that was vacated is free again only after the callbacks that are due were called, and what they do
stands in between; but since the slot is in none of its homes meanwhile, none of it concerns the
slot. Hence the last thing that happened to an empty slot is always that it was vacated.
-/

import ObjectHeap.Proofs.Runs

namespace ObjectHeap

variable {Code Host : Type}

/-! ### Events -/

/-- Something that happens to a slot, or a moment of the run. -/
inductive Event (Code : Type) where
  /-- A payload is placed in a slot. The pool kept the slot for methods, or it did not. -/
  | placed (slot : Handle) (payload : Payload Code) (pooled : Bool)
  /-- A payload is taken out of its slot, as it is by then. -/
  | vacated (slot : Handle) (payload : Payload Code)
  | noted (moment : Moment Code)

namespace Event

/-- The slot to which an event happens. -/
def slot? : Event Code → Option Handle
  | placed slot _ _ | vacated slot _ => some slot
  | noted _ => none

def moment? : Event Code → Option (Moment Code)
  | noted moment => some moment
  | _ => none

/-- Whether an event places a payload in a slot. -/
def fills (slot : Handle) : Event Code → Bool
  | placed other _ _ => other == slot
  | _ => false

/-- Whether an event places a payload. -/
def isPlaced : Event Code → Bool
  | placed .. => true
  | _ => false

/-- The last event in a slot, where the latest events come first. -/
def last? (slot : Handle) (events : List (Event Code)) : Option (Event Code) :=
  events.find? fun event => event.slot? == some slot

theorem last?_cons_self {slot : Handle} {event : Event Code} {events : List (Event Code)}
    (here : event.slot? = some slot) : last? slot (event :: events) = some event :=
  List.find?_cons_of_pos (by simp [here])

theorem last?_cons_of_ne {slot : Handle} {event : Event Code} {events : List (Event Code)}
    (elsewhere : event.slot? ≠ some slot) : last? slot (event :: events) = last? slot events :=
  List.find?_cons_of_neg (by simpa using elsewhere)

theorem last?_append_of_none {slot : Handle} {recent events : List (Event Code)}
    (elsewhere : last? slot recent = none) : last? slot (recent ++ events) = last? slot events := by
  unfold last? at elsewhere ⊢
  rw [List.find?_append, elsewhere, Option.none_or]

end Event

/-! ### Changes that move no entry -/

theorem Payload.bareSize_mapWatchers (payload : Payload Code) (change : List Handle → List Handle) :
    (payload.mapWatchers change).bareSize = payload.bareSize := by
  cases payload <;> rfl

namespace Heap

variable {before after heap : Heap Code} {slot other : Handle} {payload : Payload Code}

theorem Unmoved.mapPayload (heap : Heap Code) (handle : Handle) {change : Payload Code → Payload Code}
    (heavier : ∀ payload, heap.payload? handle = some payload →
      payload.bareSize ≤ (change payload).bareSize) :
    heap.Unmoved (heap.mapPayload handle change) := by
  refine .of_steady (.mapPayload heap handle change)
    (fun other => heap.isLive_mapPayload handle other change) fun other => ?_
  · unfold bareSize
    rw [payload?_mapPayload]
    split
    · rename_i same
      rw [same]
      cases held : heap.payload? handle with
      | none => exact le_rfl
      | some payload => exact heavier payload held
    · exact le_rfl

/-- Registers may change as they like. -/
theorem Unmoved.mapWatchers (heap : Heap Code) (handle : Handle) (change : List Handle → List Handle) :
    heap.Unmoved (heap.mapPayload handle (Payload.mapWatchers change)) :=
  .mapPayload heap handle fun payload _ => (payload.bareSize_mapWatchers change).ge

theorem Unmoved.increment (heap : Heap Code) (handle : Handle) :
    heap.Unmoved (heap.increment handle) :=
  (Quiet.of_payloads (.increment heap handle) fun other =>
    heap.payload?_increment handle other).toUnmoved

theorem Unmoved.clear (heap : Heap Code) (target weakref : Handle) :
    heap.Unmoved (heap.clear target weakref).2 := by
  unfold Heap.clear
  split
  · rename_i data held
    split
    · show heap.Unmoved (heap.mapPayload weakref fun _ => deadWeakref)
      refine .mapPayload heap weakref fun payload reached => ?_
      rw [held] at reached
      cases reached
      exact le_rfl
    · exact .refl heap
  · exact .refl heap

theorem Unmoved.clearAll (heap : Heap Code) (target : Handle) (skipped : Handle → Bool)
    (weakrefs : List Handle) : heap.Unmoved (heap.clearAll target skipped weakrefs).2 := by
  induction weakrefs generalizing heap with
  | nil => exact .refl heap
  | cons weakref rest inductionHypothesis =>
    cases skip : skipped weakref with
    | true =>
      rw [Heap.clearAll, if_pos skip]
      exact inductionHypothesis heap
    | false =>
      rw [clearAll_cons heap target skip]
      exact (Unmoved.clear heap target weakref).trans (inductionHypothesis _)

theorem Unmoved.clearWatchers (heap : Heap Code) (target : Handle) (skipped : Handle → Bool)
    (weakrefs : List Handle) : heap.Unmoved (heap.clearWatchers target skipped weakrefs).2 := by
  have increments (callbacks : List (Handle × Value)) (heap : Heap Code) :
      heap.Unmoved (callbacks.foldl (fun heap pair => heap.increment pair.1) heap) := by
    induction callbacks generalizing heap with
    | nil => exact .refl heap
    | cons pair rest inductionHypothesis =>
      exact (Unmoved.increment heap pair.1).trans (inductionHypothesis _)
  exact (Unmoved.clearAll heap target skipped weakrefs).trans (increments _ _)

theorem Unmoved.clearGarbage (heap : Heap Code) (isGarbage : Handle → Bool) (garbage : List Handle) :
    heap.Unmoved (heap.clearGarbage isGarbage garbage).2 := by
  induction garbage generalizing heap with
  | nil => exact .refl heap
  | cons handle rest inductionHypothesis =>
    rw [clearGarbage_cons]
    exact ((Unmoved.mapWatchers heap handle _).trans (.clearWatchers _ handle isGarbage _)).trans
      (inductionHypothesis _)

/-! ### Slots without a home -/

/-- The entry of a slot is gone, but the slot is not free again. -/
structure Stray (heap : Heap Code) (slot : Handle) : Prop where
  born : 0 < heap.births slot
  empty : heap.isLive slot = false
  unlisted : slot ∉ heap.free ++ heap.pool.slots

theorem Unmoved.stray (unmoved : before.Unmoved after) (stray : before.Stray slot) :
    after.Stray slot where
  born := by
    rw [unmoved.births]
    exact stray.born
  empty := (unmoved.lives slot).trans stray.empty
  unlisted := by
    rw [unmoved.free, unmoved.pool]
    exact stray.unlisted

/-- An entry is taken out of its slot, and its weight is given back. -/
structure Vacates (before : Heap Code) (slot : Handle) (payload : Payload Code)
    (after : Heap Code) : Prop where
  held : before.payload? slot = some payload
  unlisted : slot ∉ before.free ++ before.pool.slots
  empty : after.isLive slot = false
  others : ∀ other, other ≠ slot → after.isLive other = before.isLive other
  births : ∀ handle, after.births handle = before.births handle
  free : after.free = before.free
  pool : after.pool = before.pool
  tracker : after.tracker = before.tracker.credit (UInt64.ofNat payload.size)
  sizes : ∀ other, other ≠ slot → before.bareSize other ≤ after.bareSize other

theorem Vacates.isLive (vacates : before.Vacates slot payload after) : before.isLive slot :=
  isLive_of_payload? vacates.held

theorem Vacates.stray (vacates : before.Vacates slot payload after) : after.Stray slot where
  born := by
    obtain ⟨entry, occupied⟩ := (before.isLive_iff slot).mp vacates.isLive
    rw [vacates.births]
    exact before.births_pos_of_occupant? occupied
  empty := vacates.empty
  unlisted := by
    rw [vacates.free, vacates.pool]
    exact vacates.unlisted

theorem Vacates.emptied (held : heap.payload? slot = some payload)
    (unlisted : slot ∉ heap.free ++ heap.pool.slots) :
    heap.Vacates slot payload
      (heap.emptied slot (heap.tracker.credit (UInt64.ofNat payload.size))) := by
  have payloads (other : Handle) :=
    heap.payload?_emptied slot other (heap.tracker.credit (UInt64.ofNat payload.size))
  refine ⟨held, unlisted, ?_, fun other different => ?_,
    fun other => heap.births_emptied slot other _, rfl, rfl, rfl, fun other different => ?_⟩
  · rw [isLive_eq_payload?, payloads, if_pos rfl]
    rfl
  · exact isLive_congr ((payloads other).trans (if_neg different))
  · exact (bareSize_congr ((payloads other).trans (if_neg different))).ge

/-- A slot whose entry is freed strays until it is free again. -/
theorem Frees.vacates {callbacks : List (Handle × Value)}
    (frees : before.Frees slot payload callbacks after) : before.Vacates slot payload after := by
  have aimed {weakref : Handle} (member : weakref ∈ before.watchers slot) :
      ∃ data, before.payload? weakref = some (.weakref data) := by
    obtain ⟨data, held, _⟩ := target?_eq_some.mp ((frees.watched.registered _ _).mpr member)
    exact ⟨data, held⟩
  have unwatched := frees.watched.not_mem_watchers_self slot
  refine ⟨frees.held, frees.unlisted, ?_, fun other different => ?_, frees.births,
    (congrArg Heap.free frees.books :), (congrArg Heap.pool frees.books :),
    (congrArg Heap.tracker frees.books :), fun other different => ?_⟩
  · rw [isLive_eq_payload?, frees.payloads, if_neg unwatched, if_pos rfl]
    rfl
  · rw [isLive_eq_payload?, isLive_eq_payload?, frees.payloads]
    split
    · rename_i member
      obtain ⟨data, held⟩ := aimed member
      rw [held]
      rfl
    · rfl
  · unfold bareSize
    rw [frees.payloads]
    split
    · rename_i member
      obtain ⟨data, held⟩ := aimed member
      rw [held]
      exact le_rfl
    · exact le_rfl

section

variable {isMethod : Bool}

/-- The slot of a new entry is new or had a home. -/
theorem Home.known (home : before.Home slot isMethod after) :
    slot = before.slots.size ∨ slot ∈ before.free ++ before.pool.slots := by
  cases home with
  | new last => exact Or.inl last
  | free taken =>
    refine Or.inr (List.mem_append_left _ ?_)
    rw [taken]
    exact List.mem_cons_self
  | pooled _ taken =>
    refine Or.inr (List.mem_append_right _ ?_)
    rw [MethodPool.slots_of_take? taken]
    exact List.mem_cons_self

/-- The homes lose no more than the slot that is taken. -/
theorem Home.subset (home : before.Home slot isMethod after) :
    after.free ⊆ before.free ∧ after.pool.slots ⊆ before.pool.slots := by
  cases home with
  | new _ free pool => exact ⟨free ▸ List.Subset.refl _, pool ▸ List.Subset.refl _⟩
  | free taken pool =>
    exact ⟨taken ▸ List.subset_cons_self _ _, pool ▸ List.Subset.refl _⟩
  | pooled free taken =>
    exact ⟨free ▸ List.Subset.refl _, MethodPool.slots_of_take? taken ▸ List.subset_cons_self _ _⟩

theorem Home.capacity (home : before.Home slot isMethod after) :
    after.pool.capacity = before.pool.capacity := by
  cases home with
  | new _ _ pool => rw [pool]
  | free _ pool => rw [pool]
  | pooled _ taken => exact MethodPool.capacity_of_take? taken

end

theorem Places.slot_ne (places : before.Places payload slot after) (stray : before.Stray other) :
    other ≠ slot := by
  rintro rfl
  rcases places.home.known with last | listed
  · have born := stray.born
    rw [births_pos_iff, last] at born
    exact Nat.lt_irrefl _ born
  · exact stray.unlisted listed

theorem Places.stray (places : before.Places payload slot after) (stray : before.Stray other) :
    after.Stray other where
  born := by
    rw [places.steady other (places.slot_ne stray)]
    exact stray.born
  empty := (isLive_congr (places.others other (places.slot_ne stray))).trans stray.empty
  unlisted member := by
    obtain ⟨free, pool⟩ := places.home.subset
    exact stray.unlisted ((List.mem_append.mp member).elim
      (fun inFree => List.mem_append_left _ (free inFree))
      fun inPool => List.mem_append_right _ (pool inPool))

theorem mem_recycle {isMethod : Bool}
    (member : other ∈ (heap.recycle slot isMethod).free ++ (heap.recycle slot isMethod).pool.slots) :
    other = slot ∨ other ∈ heap.free ++ heap.pool.slots := by
  unfold recycle at member
  split at member
  · rename_i pool kept
    have pooled : pool.slots = slot :: heap.pool.slots := by
      split at kept
      · exact MethodPool.slots_of_keep? kept
      · cases kept
    rw [List.mem_append, pooled, List.mem_cons] at member
    rw [List.mem_append]
    tauto
  · simpa only [List.cons_append, List.mem_cons] using member

end Heap

/-! ### Histories -/

/-- How a heap came out of a first one, the latest events first. Beside the events, slots that were
vacated become free again, and entries change in place. -/
inductive History (start : Heap Code) : List (Event Code) → Heap Code → Prop
  | start : History start [] start
  | unmoved {events : List (Event Code)} {before after : Heap Code}
    (history : History start events before) (unmoved : before.Unmoved after) :
    History start events after
  | noted {events : List (Event Code)} {heap : Heap Code}
    (latest : Option ((operation : Operation Code) × operation.Answer))
    (history : History start events heap) : History start (.noted { heap, latest } :: events) heap
  | placed {events : List (Event Code)} {before after : Heap Code} {payload : Payload Code}
    {slot : Handle} (history : History start events before)
    (places : before.Places payload slot after) :
    History start (.placed slot payload (decide (slot ∈ before.pool.slots)) :: events) after
  | vacated {events : List (Event Code)} {before after : Heap Code} {payload : Payload Code}
    {slot : Handle} (history : History start events before)
    (vacates : before.Vacates slot payload after) :
    History start (.vacated slot payload :: events) after
  | recycled {events : List (Event Code)} {before : Heap Code} {payload : Payload Code}
    {slot : Handle} (history : History start events before)
    (left : Event.last? slot events = some (.vacated slot payload))
    (unlisted : slot ∉ before.free ++ before.pool.slots) :
    History start events (before.recycle slot payload.isMethod)

/-- What a part of a run adds to the history and to the record of the host. -/
structure Adds (events : List (Event Code)) (before after : World Code (Recorded Code Host)) :
    Prop where
  history : ∀ {start past}, History start past before.heap → History start (events ++ past) after.heap
  moments : after.host.moments = events.filterMap Event.moment? ++ before.host.moments

/-- While releases are worked off, nothing happens to a slot that strays. -/
def Spares (events : List (Event Code)) (before after : World Code (Recorded Code Host)) : Prop :=
  before.heap.releasing = true → after.heap.releasing = true ∧
    ∀ slot, before.heap.Stray slot → after.heap.Stray slot ∧ Event.last? slot events = none

variable {before between after : World Code (Recorded Code Host)} {events later : List (Event Code)}

theorem Adds.trans (first : Adds events before between) (second : Adds later between after) :
    Adds (later ++ events) before after where
  history past := by
    rw [List.append_assoc]
    exact second.history (first.history past)
  moments := by
    rw [second.moments, first.moments, List.filterMap_append, List.append_assoc]

theorem Spares.trans (first : Spares events before between) (second : Spares later between after) :
    Spares (later ++ events) before after := by
  intro busy
  obtain ⟨still, spared⟩ := first busy
  obtain ⟨last, sparedLater⟩ := second still
  refine ⟨last, fun slot stray => ?_⟩
  obtain ⟨here, untouched⟩ := spared slot stray
  obtain ⟨there, untouchedLater⟩ := sparedLater slot here
  exact ⟨there, (Event.last?_append_of_none untouchedLater).trans untouched⟩

theorem Adds.of_unmoved {heap : Heap Code} (unmoved : before.heap.Unmoved heap) :
    Adds [] before { before with heap } where
  history past := past.unmoved unmoved
  moments := rfl

theorem Spares.of_unmoved {heap : Heap Code} (unmoved : before.heap.Unmoved heap)
    (releasing : heap.releasing = before.heap.releasing) : Spares [] before { before with heap } :=
  fun busy => ⟨releasing.trans busy, fun _ stray => ⟨unmoved.stray stray, rfl⟩⟩

/-- A history of one event, while one payload is placed. -/
theorem Adds.of_places {payload : Payload Code} {slot : Handle} {heap : Heap Code}
    (places : before.heap.Places payload slot heap) :
    Adds [.placed slot payload (decide (slot ∈ before.heap.pool.slots))] before
      { before with heap } where
  history past := past.placed places
  moments := rfl

theorem Spares.of_places {payload : Payload Code} {slot : Handle} {heap : Heap Code}
    (places : before.heap.Places payload slot heap) {pooled : Bool} :
    Spares [.placed slot payload pooled] before { before with heap } := by
  refine fun busy => ⟨places.releasing.trans busy, fun other stray => ⟨places.stray stray, ?_⟩⟩
  refine (Event.last?_cons_of_ne fun same => ?_).trans rfl
  exact places.slot_ne stray (Option.some_inj.mp same).symm

/-- The host turns to itself, or notes the heap. -/
theorem Adds.of_turns {bodies : Code → Arguments → Program Code Host} {host : Recorded Code Host}
    (turns : (recordedConduct bodies).turns before host) :
    ∃ events, Adds events before { before with host } ∧ Spares events before { before with host } := by
  rcases turns with same | ⟨latest, added⟩
  · exact ⟨[], ⟨fun past => past, same⟩, .of_unmoved (.refl _) rfl⟩
  · exact ⟨[.noted { heap := before.heap, latest }], ⟨fun past => past.noted latest, added⟩,
      fun busy => ⟨busy, fun _ stray => ⟨stray, rfl⟩⟩⟩

/-- Freeing one entry of the garbage vacates its slot and makes it free again. -/
theorem Adds.of_sweepOne {slot : Handle} {payload : Payload Code} (isGarbage : Handle → Bool)
    (held : before.heap.payload? slot = some payload)
    (unlisted : slot ∉ before.heap.free ++ before.heap.pool.slots) :
    Adds [.vacated slot payload] before
      { before with heap := (before.heap.sweepOne isGarbage slot).2 } where
  history past := by
    let tracker := before.heap.tracker.credit (UInt64.ofNat payload.size)
    have vacates : before.heap.Vacates slot payload (before.heap.emptied slot tracker) :=
      .emptied held unlisted
    have unmoved : (before.heap.emptied slot tracker).Unmoved
        (before.heap.withdrawn slot payload tracker) := by
      unfold Heap.withdrawn
      split
      · exact .mapWatchers _ _ _
      · exact .refl _
    show History _ _ (before.heap.sweepOne isGarbage slot).2
    rw [before.heap.sweepOne_eq isGarbage held]
    exact ((past.vacated vacates).unmoved unmoved).recycled (Event.last?_cons_self rfl)
      (unmoved.stray vacates.stray).unlisted
  moments := rfl

/-- Freeing the garbage in order. -/
theorem exists_adds_sweep (isGarbage : Handle → Bool) (garbage survivors : List Handle)
    (distinct : garbage.Nodup) (live : ∀ slot ∈ garbage, before.heap.isLive slot)
    (unlisted : ∀ slot ∈ garbage, slot ∉ before.heap.free ++ before.heap.pool.slots) :
    ∃ events, Adds events before
      { before with heap := (before.heap.sweep isGarbage survivors garbage).2 } := by
  induction garbage generalizing before survivors with
  | nil => exact ⟨[], fun past => past, rfl⟩
  | cons slot rest inductionHypothesis =>
    obtain ⟨absent, distinctRest⟩ := List.nodup_cons.mp distinct
    obtain ⟨payload, held⟩ := Heap.exists_payload?_of_isLive (live slot List.mem_cons_self)
    have one := Adds.of_sweepOne isGarbage held (unlisted slot List.mem_cons_self)
    have sweeps := Heap.sweeps_sweepOne before.heap isGarbage held
    have liveRest (other : Handle) (member : other ∈ rest) :
        (before.heap.sweepOne isGarbage slot).2.isLive other := by
      have kept : other ∉ [slot] := fun same => absent (List.mem_singleton.mp same ▸ member)
      exact (sweeps.isLive kept).trans (live other (List.mem_cons_of_mem slot member))
    -- The slot that was freed joins the free ones, and it is none of the rest.
    have unlistedRest (other : Handle) (member : other ∈ rest) :
        other ∉ (before.heap.sweepOne isGarbage slot).2.free ++
          (before.heap.sweepOne isGarbage slot).2.pool.slots := by
      intro listed
      rw [before.heap.sweepOne_eq isGarbage held] at listed
      rcases Heap.mem_recycle listed with rfl | listed
      · exact absent member
      · refine unlisted other (List.mem_cons_of_mem slot member) ?_
        unfold Heap.withdrawn at listed
        split at listed <;> exact listed
    obtain ⟨events, adds⟩ := @inductionHypothesis
      { before with heap := (before.heap.sweepOne isGarbage slot).2 }
      ((before.heap.sweepOne isGarbage slot).1 ++ survivors) distinctRest liveRest unlistedRest
    exact ⟨_, one.trans adds⟩

/-- Entries that are freed together are freed one after the other. -/
theorem Heap.Purges.exists_adds {removed : List Handle} {callbacks : List (Handle × Value)}
    {heap : Heap Code} (purges : before.heap.Purges removed callbacks heap) :
    ∃ events, Adds events before { before with heap } := by
  let isGarbage := fun handle => removed.contains handle
  let cleared := (before.heap.clearGarbage isGarbage removed).2
  have unmoved : before.heap.Unmoved cleared := .clearGarbage _ _ _
  obtain ⟨events, adds⟩ : ∃ events, Adds events { before with heap := cleared }
      { before with heap := (cleared.sweep isGarbage [] removed).2 } :=
    exists_adds_sweep isGarbage removed [] purges.distinct
      (fun slot member => (unmoved.lives slot).trans (purges.lives slot member))
      fun slot member => by
        show slot ∉ cleared.free ++ cleared.pool.slots
        rw [unmoved.free, unmoved.pool]
        exact purges.unlisted slot member
  have swept := (Adds.of_unmoved unmoved).trans adds
  rw [List.append_nil] at swept
  have last : heap = { (cleared.sweep isGarbage [] removed).2 with
      pending := (cleared.sweep isGarbage [] removed).1 ++
        (cleared.sweep isGarbage [] removed).2.pending } :=
    (congrArg Prod.snd purges.purged).symm
  have same : (cleared.sweep isGarbage [] removed).2.Unmoved heap :=
    last ▸ .of_slots rfl rfl rfl rfl
  exact ⟨[] ++ events, swept.trans (.of_unmoved same)⟩

/-- What is left of an entry is cleared away, and its slot is free again. -/
theorem History.bury {slot : Handle} {payload : Payload Code} {start heap : Heap Code}
    (history : History start events heap) (stray : heap.Stray slot)
    (left : Event.last? slot events = some (.vacated slot payload)) :
    History start events (heap.bury slot payload) := by
  unfold Heap.bury
  cases payload.target? with
  | none =>
    have unmoved : heap.Unmoved { heap with pending := payload.leavings heap.pending } :=
      .of_slots rfl rfl rfl rfl
    exact (history.unmoved unmoved).recycled left (unmoved.stray stray).unlisted
  | some target =>
    have unmoved : heap.Unmoved { heap.unregister target slot with
        pending := payload.leavings (heap.unregister target slot).pending } :=
      (Heap.Unmoved.mapWatchers heap target (·.erase slot)).trans
        (.of_slots rfl rfl rfl rfl)
    exact (history.unmoved unmoved).recycled left (unmoved.stray stray).unlisted

/-- Every part of a run adds to the history. While releases are worked off, it does so without
touching a slot that strays, unless it is the loop that works them off. -/
theorem Story.exists_adds {bodies : Code → Arguments → Program Code Host} {phase : Phase}
    (story : Story (recordedConduct bodies) phase before after) :
    ∃ events, Adds events before after ∧ (phase ≠ .releasing → Spares events before after) := by
  -- A slot that strays is being freed further out, so only the loop that frees it may touch it.
  induction story with
  | still | settled | clean | released | called =>
    exact ⟨[], ⟨fun past => past, rfl⟩, fun _ => .of_unmoved (.refl _) rfl⟩
  | andThen _ _ first second =>
    obtain ⟨events, adds, spares⟩ := first
    obtain ⟨later, addsLater, sparesLater⟩ := second
    exact ⟨_, adds.trans addsLater, fun loop => (spares loop).trans (sparesLater loop)⟩
  | quiet quiet =>
    exact ⟨[], .of_unmoved quiet.toUnmoved, fun _ => .of_unmoved quiet.toUnmoved quiet.releasing⟩
  | host turns =>
    obtain ⟨events, adds, spares⟩ := Adds.of_turns turns
    exact ⟨events, adds, fun _ => spares⟩
  | relieve world =>
    have unmoved : world.heap.Unmoved { world.heap with unraisable := [] } :=
      .of_slots rfl rfl rfl rfl
    exact ⟨[], .of_unmoved unmoved, fun _ => .of_unmoved unmoved rfl⟩
  | place places => exact ⟨_, .of_places places, fun _ => .of_places places⟩
  | @enroll world weakref target =>
    have unmoved := Heap.Unmoved.mapWatchers world.heap target (· ++ [weakref])
    exact ⟨[], .of_unmoved unmoved, fun _ => .of_unmoved unmoved rfl⟩
  | settle _ told | sweep _ told =>
    obtain ⟨events, adds, spares⟩ := told
    exact ⟨events, adds, fun _ => spares nofun⟩
  | collect idle purges _ _ settles called =>
    obtain ⟨events, adds⟩ := purges.exists_adds
    obtain ⟨later, addsLater, _⟩ := settles
    obtain ⟨last, addsLast, _⟩ := called
    exact ⟨_, (adds.trans addsLater).trans addsLast, fun _ busy => nomatch idle.symm.trans busy⟩
  | wait quiet _ rest | anew quiet _ rest =>
    obtain ⟨events, adds, spares⟩ := rest
    exact ⟨_, (Adds.of_unmoved quiet.toUnmoved).trans adds, fun loop =>
      (Spares.of_unmoved quiet.toUnmoved quiet.releasing).trans (spares loop)⟩
  | @drain before between after idle _ _ loop rest =>
    obtain ⟨events, adds, _⟩ := loop
    obtain ⟨later, addsLater, _⟩ := rest
    have begins : before.heap.Unmoved { before.heap with releasing := true } :=
      .of_slots rfl rfl rfl rfl
    have ends : between.heap.Unmoved { between.heap with releasing := false } :=
      .of_slots rfl rfl rfl rfl
    exact ⟨_, (((Adds.of_unmoved begins).trans adds).trans (.of_unmoved ends)).trans addsLater,
      fun _ busy => nomatch idle.symm.trans busy⟩
  | spare quiet _ rest =>
    obtain ⟨events, adds, _⟩ := rest
    exact ⟨_, (Adds.of_unmoved quiet.toUnmoved).trans adds, fun loop => absurd rfl loop⟩
  | @free before between after place payload callbacks heap frees _ _ called rest =>
    obtain ⟨events, adds, spares⟩ := called
    obtain ⟨later, addsLater, _⟩ := rest
    have vacates := frees.vacates
    have busy : heap.releasing = true := (congrArg Heap.releasing frees.books :).trans frees.busy
    obtain ⟨_, spared⟩ := spares nofun busy
    obtain ⟨stray, untouched⟩ := spared place vacates.stray
    have buried : Adds (events ++ [.vacated place payload]) before
        { between with heap := between.heap.bury place payload } :=
      { history := fun past => by
          rw [List.append_assoc]
          refine (adds.history (past.vacated vacates)).bury stray ?_
          exact (Event.last?_append_of_none untouched).trans (Event.last?_cons_self rfl)
        moments := by
          rw [List.filterMap_append]
          exact adds.moments.trans (by simp [Event.moment?]) }
    exact ⟨_, buried.trans addsLater, fun loop => absurd rfl loop⟩
  | @call before between left after weakref callback others outcome _ _ _ _ _ course givesUp rest =>
    obtain ⟨events, adds, spares⟩ := course
    obtain ⟨later, addsLater, sparesLater⟩ := givesUp
    obtain ⟨last, addsLast, sparesLast⟩ := rest
    have noted : left.heap.Unmoved (left.heap.noting outcome) := by
      cases outcome with
      | ok answer => exact .refl _
      | error error => exact .of_slots rfl rfl rfl rfl
    have releasing : (left.heap.noting outcome).releasing = left.heap.releasing := by
      cases outcome <;> rfl
    exact ⟨_, ((adds.trans addsLater).trans (.of_unmoved noted)).trans addsLast, fun _ =>
      (((spares nofun).trans (sparesLater nofun)).trans (.of_unmoved noted releasing)).trans
        (sparesLast nofun)⟩

/-- A run has a history, whose notes are the record of the run. -/
theorem Reached.exists_history {held : Host → Multiset Handle}
    {bodies : Code → Arguments → Program Code Host} {config : Config} {hand : Multiset Handle}
    {world : World Code (Recorded Code Host)} (respectful : RespectfulBodies held bodies)
    (reached : Reached held bodies config hand world) :
    ∃ events, History (Heap.new config) events world.heap ∧
      events.filterMap Event.moment? = world.host.moments := by
  obtain ⟨host, nothing, story⟩ := reached.told respectful
  obtain ⟨events, adds, _⟩ := story.exists_adds
  refine ⟨events, ?_, ?_⟩
  · have history := adds.history .start
    rwa [List.append_nil] at history
  · rw [adds.moments, nothing, List.append_nil]

/-! ### What a history tells -/

namespace Heap

variable (config : Config) (slot : Handle)

theorem births_new : (new config : Heap Code).births slot = 0 := by
  simp [births, new]

theorem isLive_new : (new config : Heap Code).isLive slot = false := by
  rw [isLive_eq, occupant?_new]
  rfl

end Heap

namespace History

variable {start heap : Heap Code} {config : Config} {slot : Handle}

/-- What was noted is what the events before had come to. -/
theorem of_noted (history : History start events heap) {newer older : List (Event Code)}
    {moment : Moment Code} (split : events = newer ++ .noted moment :: older) :
    History start older moment.heap := by
  induction history generalizing newer with
  | start => simp at split
  | unmoved _ _ inductionHypothesis => exact inductionHypothesis split
  | recycled _ _ _ inductionHypothesis => exact inductionHypothesis split
  | noted latest history inductionHypothesis =>
    cases newer with
    | nil =>
      cases split
      exact history
    | cons event rest => exact inductionHypothesis (List.cons.inj split).2
  | placed _ _ inductionHypothesis =>
    cases newer with
    | nil => cases split
    | cons event rest => exact inductionHypothesis (List.cons.inj split).2
  | vacated _ _ inductionHypothesis =>
    cases newer with
    | nil => cases split
    | cons event rest => exact inductionHypothesis (List.cons.inj split).2

/-- A slot has held as many entries as were placed in it. -/
theorem births (history : History start events heap) (slot : Handle) :
    heap.births slot = start.births slot + events.countP (Event.fills slot) := by
  induction history with
  | start => rfl
  | unmoved _ unmoved inductionHypothesis => rw [unmoved.births, inductionHypothesis]
  | noted _ _ inductionHypothesis => exact inductionHypothesis
  | @placed _ _ _ payload other _ places inductionHypothesis =>
    rw [List.countP_cons]
    by_cases same : slot = other
    · subst same
      rw [places.born, inductionHypothesis]
      simp [Event.fills, Nat.add_assoc]
    · rw [places.steady slot same, inductionHypothesis]
      simp [Event.fills, Ne.symm same]
  | vacated _ vacates inductionHypothesis =>
    rw [vacates.births, inductionHypothesis]
    exact congrArg _ (List.countP_cons_of_neg (by simp [Event.fills])).symm
  | recycled _ _ _ inductionHypothesis =>
    rw [Heap.births_congr (Heap.slots_recycle _ _ _), inductionHypothesis]

/-- The last thing that happened to a slot is that its entry was placed, or was taken out. -/
theorem last? (history : History (Heap.new config) events heap) (slot : Handle) :
    (heap.isLive slot → ∃ payload pooled,
      Event.last? slot events = some (.placed slot payload pooled)) ∧
    (heap.isLive slot = false → 0 < heap.births slot →
      ∃ payload, Event.last? slot events = some (.vacated slot payload)) := by
  -- Only what happens to the slot itself can change the last event of it.
  induction history with
  | start =>
    rw [Heap.isLive_new, Heap.births_new]
    exact ⟨nofun, fun _ born => absurd born (Nat.lt_irrefl 0)⟩
  | unmoved _ unmoved inductionHypothesis =>
    rwa [unmoved.lives, unmoved.births]
  | noted _ _ inductionHypothesis => exact inductionHypothesis
  | @placed _ _ _ payload other _ places inductionHypothesis =>
    by_cases same : slot = other
    · subst same
      refine ⟨fun _ => ⟨payload, _, Event.last?_cons_self rfl⟩, fun empty => ?_⟩
      rw [Heap.isLive_of_payload? places.here] at empty
      cases empty
    · rw [Heap.isLive_congr (places.others slot same), places.steady slot same,
        Event.last?_cons_of_ne (by simpa [Event.slot?] using Ne.symm same)]
      exact inductionHypothesis
  | @vacated _ _ _ payload other _ vacates inductionHypothesis =>
    by_cases same : slot = other
    · subst same
      refine ⟨fun live => ?_, fun _ _ => ⟨payload, Event.last?_cons_self rfl⟩⟩
      rw [vacates.empty] at live
      cases live
    · rw [vacates.others slot same, vacates.births,
        Event.last?_cons_of_ne (by simpa [Event.slot?] using Ne.symm same)]
      exact inductionHypothesis
  | recycled _ _ _ inductionHypothesis =>
    rwa [Heap.births_congr (Heap.slots_recycle _ _ _), Heap.isLive_recycle]

/-- The pool has the slots that methods have left. -/
theorem pooled (history : History (Heap.new config) events heap) (member : slot ∈ heap.pool.slots) :
    ∃ payload, Event.last? slot events = some (.vacated slot payload) ∧ payload.isMethod := by
  induction history with
  | start => cases member
  | unmoved _ unmoved inductionHypothesis =>
    rw [unmoved.pool] at member
    exact inductionHypothesis member
  | noted _ _ inductionHypothesis => exact inductionHypothesis member
  | @placed _ _ _ payload other _ places inductionHypothesis =>
    have different : other ≠ slot := by
      rintro rfl
      exact places.unlisted (List.mem_append_right _ member)
    rw [Event.last?_cons_of_ne (by simpa [Event.slot?] using different)]
    exact inductionHypothesis (places.home.subset.2 member)
  | @vacated _ _ _ payload other _ vacates inductionHypothesis =>
    rw [vacates.pool] at member
    have different : other ≠ slot := by
      rintro rfl
      exact vacates.unlisted (List.mem_append_right _ member)
    rw [Event.last?_cons_of_ne (by simpa [Event.slot?] using different)]
    exact inductionHypothesis member
  | @recycled _ before payload other _ left unlisted inductionHypothesis =>
    have inPool : slot ∈ before.pool.slots ∨ slot = other ∧ payload.isMethod = true := by
      unfold Heap.recycle at member
      split at member
      · rename_i pool kept
        split at kept
        · rename_i isMethod
          rw [MethodPool.slots_of_keep? kept, List.mem_cons] at member
          exact member.elim (fun same => Or.inr ⟨same, isMethod⟩) Or.inl
        · cases kept
      · exact Or.inl member
    rcases inPool with member | ⟨rfl, isMethod⟩
    · exact inductionHypothesis member
    · exact ⟨payload, left, isMethod⟩

/-- Only methods are placed in slots that the pool kept. -/
theorem isMethod_of_pooled (history : History start events heap) {payload : Payload Code}
    (member : .placed slot payload true ∈ events) : payload.isMethod := by
  induction history with
  | start => cases member
  | unmoved _ _ inductionHypothesis => exact inductionHypothesis member
  | noted _ _ inductionHypothesis =>
    exact inductionHypothesis ((List.mem_cons.mp member).resolve_left nofun)
  | @placed _ before after content other _ places inductionHypothesis =>
    rcases List.mem_cons.mp member with same | member
    · injection same with sameSlot samePayload kept
      subst sameSlot samePayload
      have inPool : slot ∈ before.pool.slots := of_decide_eq_true kept.symm
      have unlisted (pool : after.pool = before.pool) : False :=
        places.unlisted (List.mem_append_right _ (pool ▸ inPool))
      have home := places.home
      generalize payload.isMethod = isMethod at home ⊢
      cases home with
      | new _ _ pool => exact (unlisted pool).elim
      | free _ pool => exact (unlisted pool).elim
      | pooled => rfl
    · exact inductionHypothesis member
  | vacated _ _ inductionHypothesis =>
    exact inductionHypothesis ((List.mem_cons.mp member).resolve_left nofun)
  | recycled _ _ _ inductionHypothesis => exact inductionHypothesis member

theorem capacity (history : History start events heap) :
    heap.pool.capacity = start.pool.capacity := by
  induction history with
  | start => rfl
  | unmoved _ unmoved inductionHypothesis => rw [unmoved.pool, inductionHypothesis]
  | noted _ _ inductionHypothesis => exact inductionHypothesis
  | placed _ places inductionHypothesis => exact places.home.capacity.trans inductionHypothesis
  | vacated _ vacates inductionHypothesis => rw [vacates.pool, inductionHypothesis]
  | recycled _ _ _ inductionHypothesis =>
    rw [← inductionHypothesis]
    unfold Heap.recycle
    split
    · rename_i pool kept
      split at kept
      · exact MethodPool.capacity_of_keep? kept
      · cases kept
    · rfl

/-- The tracker counts the payloads that were placed. -/
theorem allocations (history : History (Heap.new config) events heap) :
    heap.tracker.allocations = UInt64.ofNat (events.countP Event.isPlaced) := by
  induction history with
  | start => rfl
  | unmoved _ unmoved inductionHypothesis => rw [unmoved.tracker, inductionHypothesis]
  | noted _ _ inductionHypothesis => exact inductionHypothesis
  | placed _ places inductionHypothesis =>
    obtain ⟨_, _, recorded⟩ := Tracker.charge_eq_ok.mp places.charged
    rw [recorded, Tracker.record, inductionHypothesis, List.countP_cons_of_pos rfl,
      UInt64.ofNat_add]
    rfl
  | vacated _ vacates inductionHypothesis =>
    rw [vacates.tracker]
    exact inductionHypothesis
  | recycled _ _ _ inductionHypothesis => rw [Heap.tracker_recycle, inductionHypothesis]

end History

end ObjectHeap
