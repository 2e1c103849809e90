/-
This file says how runs go. A run is told as a story: small changes in which no entry comes or
goes, entries that are placed, weak references that are enrolled, releases that are worked off,
collections, and whatever a host does with its own state. Where entries are freed the story is
strict. The weak references to a freed entry die with it; the callbacks that are due are called
one after the other, each once and with its own weak reference, which is live and dead as a
reference when its turn comes; and only then is the slot free again. What a callback does is a
story of its own.
-/

import ObjectHeap.Proofs.Registers
import ObjectHeap.World.Lemmas

namespace ObjectHeap

variable {Code Host : Type}

/-- What becomes of a payload when some entries are gone: it is dead if it was a weak reference to
one of them, and forgets those that are registered with it. -/
def Payload.without (gone : Handle → Bool) (payload : Payload Code) : Payload Code :=
  if payload.target?.any gone then Heap.deadWeakref
  else payload.mapWatchers (·.filter fun weakref => !gone weakref)

theorem Payload.continues_without (gone : Handle → Bool) (payload : Payload Code) :
    payload.Continues (payload.without gone) := by
  unfold without
  split
  · rename_i aimed
    cases payload with
    | weakref data => exact Or.inr rfl
    | _ => cases aimed
  · exact (payload.alike_mapWatchers _).continues

/-- The weight of a payload apart from the weak references that are registered with it. -/
def Payload.bareSize (payload : Payload Code) : Nat :=
  (payload.mapWatchers fun _ => []).size

/-- What a method is bound to. -/
def Payload.receiver? : Payload Code → Option Value
  | .method data => data.receiver
  | _ => none

theorem Payload.Continues.receiver? {payload later : Payload Code} (continues : payload.Continues later) :
    later.receiver? = payload.receiver? := by
  cases later with
  | method data =>
    obtain ⟨previous, rfl, _, sameReceiver, _⟩ := continues.to_method
    exact sameReceiver
  | _ => cases payload <;> first | rfl | exact continues.elim

namespace Heap

/-- What the method in a slot is bound to. -/
def receiver? (heap : Heap Code) (handle : Handle) : Option Value :=
  (heap.payload? handle).bind Payload.receiver?

/-- A method is bound to nil. -/
def Hollow (heap : Heap Code) : Prop :=
  ∃ method, heap.receiver? method = some .nil

/-- The weight of the entry of a slot apart from the weak references that are registered with it;
an empty slot weighs nothing. -/
def bareSize (heap : Heap Code) (handle : Handle) : Nat :=
  ((heap.payload? handle).map Payload.bareSize).getD 0

/-! ### What happens to a heap -/

/-- No entry comes or goes, and none gets lighter. Neither the homes of empty slots nor the books of
the tracker change. -/
structure Unmoved (before after : Heap Code) : Prop where
  births : ∀ handle, after.births handle = before.births handle
  lives : ∀ handle, after.isLive handle = before.isLive handle
  free : after.free = before.free
  pool : after.pool = before.pool
  tracker : after.tracker = before.tracker
  sizes : ∀ handle, before.bareSize handle ≤ after.bareSize handle

/-- A change that leaves weak references and the receivers of methods alone as well, and starts or
ends no release. -/
structure Quiet (before after : Heap Code) : Prop extends before.Unmoved after where
  targets : ∀ handle, after.target? handle = before.target? handle
  callbacks : ∀ handle, after.callback? handle = before.callback? handle
  registers : ∀ handle, after.watchers handle = before.watchers handle
  receivers : ∀ handle, after.receiver? handle = before.receiver? handle
  releasing : after.releasing = before.releasing
  unraisable : after.unraisable = before.unraisable

/-- Where the slot of a new entry comes from: it is new itself, it was the last one to be freed, or
it was the last one that a method left to the methods. -/
inductive Home (before : Heap Code) (slot : Handle) : (isMethod : Bool) → (after : Heap Code) → Prop
  | new {isMethod : Bool} {after : Heap Code} (last : slot = before.slots.size)
    (free : after.free = before.free) (pool : after.pool = before.pool) :
    Home before slot isMethod after
  | free {isMethod : Bool} {after : Heap Code} (taken : before.free = slot :: after.free)
    (pool : after.pool = before.pool) : Home before slot isMethod after
  | pooled {after : Heap Code} (free : after.free = before.free)
    (taken : before.pool.take? = some (slot, after.pool)) : Home before slot true after

/-- A payload that was charged is put into a slot that is not in use. -/
structure Places (before : Heap Code) (payload : Payload Code) (slot : Handle)
    (after : Heap Code) : Prop where
  empty : before.payload? slot = none
  here : after.payload? slot = some payload
  others : ∀ other, other ≠ slot → after.payload? other = before.payload? other
  born : after.births slot = before.births slot + 1
  steady : ∀ other, other ≠ slot → after.births other = before.births other
  unwatched : payload.watchers = []
  charged : before.tracker.charge (UInt64.ofNat payload.size) = .ok after.tracker
  home : before.Home slot payload.isMethod after
  unlisted : slot ∉ after.free ++ after.pool.slots
  releasing : after.releasing = before.releasing
  unraisable : after.unraisable = before.unraisable

/-- An entry is taken out of its slot, while other releases wait. Its weight at that time is given
back, and the weak references to it die. The callbacks that are due are those of its register, in
order. -/
structure Frees (before : Heap Code) (place : Handle) (payload : Payload Code)
    (callbacks : List (Handle × Value)) (after : Heap Code) : Prop where
  held : before.payload? place = some payload
  unlisted : place ∉ before.free ++ before.pool.slots
  busy : before.releasing = true
  /-- The register of an entry lists the live weak references to it, each once. -/
  watched : before.Watched
  due : callbacks = before.due (fun _ => false) (before.watchers place)
  payloads : ∀ other, after.payload? other =
    if other ∈ before.watchers place then some deadWeakref
    else if other = place then none else before.payload? other
  births : ∀ handle, after.births handle = before.births handle
  books : after.books =
    { before.books with tracker := before.tracker.credit (UInt64.ofNat payload.size) }

/-- What became of an entry is cleared away: if it was a weak reference, it leaves the register of
its target; what it owned waits for its release; and its slot is free again. -/
def bury (heap : Heap Code) (place : Handle) (payload : Payload Code) : Heap Code :=
  let heap :=
    match payload.target? with
    | some target => heap.unregister target place
    | none => heap
  { heap with pending := payload.leavings heap.pending }.recycle place payload.isMethod

theorem bury_of_aimless (heap : Heap Code) (place : Handle) {payload : Payload Code}
    (aimless : payload.target? = none) : heap.bury place payload =
      { heap with pending := payload.leavings heap.pending }.recycle place payload.isMethod := by
  unfold bury
  rw [aimless]

theorem bury_of_aimed (heap : Heap Code) (place : Handle) {payload : Payload Code} {target : Handle}
    (aimed : payload.target? = some target) : heap.bury place payload =
      { heap.unregister target place with pending := payload.leavings heap.pending }.recycle place
        payload.isMethod := by
  unfold bury
  rw [aimed]
  rfl

/-- Some entries are freed together. Weak references to them die, and the callbacks that are due are
those of their registers, entry by entry and in order, except for the weak references that are
freed themselves. -/
structure Purges (before : Heap Code) (removed : List Handle) (callbacks : List (Handle × Value))
    (after : Heap Code) : Prop where
  purged : before.removeGarbage removed = (callbacks, after)
  distinct : removed.Nodup
  lives : ∀ handle ∈ removed, before.isLive handle
  unlisted : ∀ handle ∈ removed, handle ∉ before.free ++ before.pool.slots
  watched : before.Watched
  due : callbacks = removed.flatMap fun place =>
    before.due (fun weakref => decide (weakref ∈ removed)) (before.watchers place)
  payloads : ∀ other, after.payload? other =
    if other ∈ removed then none
    else (before.payload? other).map (Payload.without fun place => decide (place ∈ removed))
  births : ∀ handle, after.births handle = before.births handle
  releasing : after.releasing = before.releasing
  unraisable : after.unraisable = before.unraisable

/-- There is a weak reference that refers to nothing. -/
def Cleared (heap : Heap Code) (weakref : Handle) : Prop :=
  ∃ data, heap.payload? weakref = some (.weakref data) ∧ data.target = none

/-- The heap on which the outcome of a callback was noted: an error that no caller can receive. -/
def noting (heap : Heap Code) : Except Error Value → Heap Code
  | .ok _ => heap
  | .error error => { heap with unraisable := heap.unraisable ++ [error] }

end Heap

/-! ### Stories -/

/-- What a part of a run is about. -/
inductive Phase where
  /-- An operation is at work, or code of the host. -/
  | operating
  /-- Values are given up. -/
  | settling
  /-- Cycles are collected. -/
  | collecting
  /-- The loop that works off releases is running. -/
  | releasing
  /-- Callbacks are called, each with its weak reference. -/
  | calling (callbacks : List (Handle × Value))

/-- What a story is not told of in more detail. -/
structure Conduct (Code Host : Type) where
  /-- What it is to call a callback. -/
  calls : Value → Arguments → World Code Host → Except Error Value → World Code Host → Prop
  /-- What a host may do to its own state. -/
  turns : World Code Host → Host → Prop
  /-- What must have come to pass before a method is bound to nil. -/
  hollows : Host → Prop := fun _ => True
  lasts : ∀ {world host}, turns world host → hollows world.host → hollows host := by
    exact fun _ _ => trivial

/-- How a run, or a part of it, leads from one world to another one. -/
inductive Story (conduct : Conduct Code Host) : Phase → World Code Host → World Code Host → Prop
  | still (world : World Code Host) : Story conduct .operating world world
  | andThen {before between after : World Code Host} (first : Story conduct .operating before between)
    (second : Story conduct .operating between after) : Story conduct .operating before after
  | quiet {world : World Code Host} {heap : Heap Code} (quiet : world.heap.Quiet heap) :
    Story conduct .operating world { world with heap }
  /-- The host changes its own state. -/
  | host {world : World Code Host} {host : Host} (turns : conduct.turns world host) :
    Story conduct .operating world { world with host }
  /-- The host takes the errors that no caller could receive. -/
  | relieve (world : World Code Host) :
    Story conduct .operating world { world with heap := { world.heap with unraisable := [] } }
  /-- An entry is placed. A method may be bound to nil if there has been reason to, or if there is
  one already. -/
  | place {world : World Code Host} {payload : Payload Code} {slot : Handle} {heap : Heap Code}
    (places : world.heap.Places payload slot heap)
    (bound : payload.receiver? = some .nil → conduct.hollows world.host ∨ world.heap.Hollow) :
    Story conduct .operating world { world with heap }
  /-- A weak reference joins the register of its target. -/
  | enroll {world : World Code Host} {weakref target : Handle}
    (aimed : world.heap.target? weakref = some target)
    (fresh : ∀ other, weakref ∉ world.heap.watchers other) :
    Story conduct .operating world { world with heap := world.heap.register target weakref }
  | settle {before after : World Code Host} (settles : Story conduct .settling before after) :
    Story conduct .operating before after
  | sweep {before after : World Code Host} (collects : Story conduct .collecting before after) :
    Story conduct .operating before after
  /-- Nothing is collected. -/
  | clean (world : World Code Host) : Story conduct .collecting world world
  /-- The collector begins to count anew. -/
  | anew {before after : World Code Host} {heap : Heap Code} (quiet : before.heap.Quiet heap)
    (rest : Story conduct .collecting { before with heap } after) :
    Story conduct .collecting before after
  /-- Entries are freed together, unless releases are being worked off. What they held of others is
  given up, and the callbacks that are due are called at the end. -/
  | collect {before between after : World Code Host} {removed : List Handle}
    {callbacks : List (Handle × Value)} {heap : Heap Code} (idle : before.heap.releasing = false)
    (purges : before.heap.Purges removed callbacks heap)
    (settles : Story conduct .settling { before with heap } between)
    (called : Story conduct (.calling callbacks) between after) :
    Story conduct .collecting before after
  | settled (world : World Code Host) : Story conduct .settling world world
  /-- A value joins those that wait for their release. -/
  | wait {before after : World Code Host} {heap : Heap Code} (quiet : before.heap.Quiet heap)
    (rest : Story conduct .settling { before with heap } after) : Story conduct .settling before after
  /-- Releases are worked off, unless that is already going on. -/
  | drain {before between after : World Code Host} (idle : before.heap.releasing = false)
    (loop : Story conduct .releasing { before with heap := { before.heap with releasing := true } }
      between)
    (rest : Story conduct .settling { between with heap := { between.heap with releasing := false } }
      after) : Story conduct .settling before after
  | released (world : World Code Host) : Story conduct .releasing world world
  /-- A reference is given up that was not the last one. -/
  | spare {before after : World Code Host} {heap : Heap Code} (quiet : before.heap.Quiet heap)
    (rest : Story conduct .releasing { before with heap } after) : Story conduct .releasing before after
  /-- An entry is freed, the callbacks that are due are called, and then its slot is free again. -/
  | free {before between after : World Code Host} {place : Handle} {payload : Payload Code}
    {callbacks : List (Handle × Value)} {heap : Heap Code}
    (frees : before.heap.Frees place payload callbacks heap)
    (called : Story conduct (.calling callbacks) { before with heap } between)
    (rest : Story conduct .releasing { between with heap := between.heap.bury place payload } after) :
    Story conduct .releasing before after
  | called (world : World Code Host) : Story conduct (.calling []) world world
  /-- A callback is called with its weak reference, which is live and refers to nothing any more.
  The call is followed by what it sets off; then the callback and what it answered are given up,
  or its error is noted. -/
  | call {before between left after : World Code Host} {weakref : Handle} {callback : Value}
    {others : List (Handle × Value)} {outcome : Except Error Value}
    (cleared : before.heap.Cleared weakref)
    (called : conduct.calls callback (Arguments.ofList [.ref weakref]) before outcome between)
    (course : Story conduct .operating before between) (givesUp : Story conduct .settling between left)
    (rest : Story conduct (.calling others) { left with heap := left.heap.noting outcome } after) :
    Story conduct (.calling ((weakref, callback) :: others)) before after

/-! ### Changes that are quiet -/

namespace Heap

variable {before middle after : Heap Code}

/-- A weak reference that is held stays cleared. -/
theorem Carries.cleared {calm : Prop} {frame : Multiset Handle} {weakref : Handle}
    (carries : before.Carries calm frame after) (member : weakref ∈ frame)
    (live : after.isLive weakref) (cleared : before.Cleared weakref) : after.Cleared weakref := by
  obtain ⟨data, held, dead⟩ := cleared
  obtain ⟨later, reached⟩ := exists_payload?_of_isLive live
  have continues := carries.evolves.continues weakref _ later held reached
    (carries.kept weakref member)
  cases later with
  | weakref data => exact ⟨data, reached, continues.elim (fun same => same.trans dead) id⟩
  | _ => exact continues.elim

/-- A method that is held stays bound to what it is bound to. -/
theorem Carries.receiver? {calm : Prop} {frame : Multiset Handle} {method : Handle} {receiver : Value}
    (carries : before.Carries calm frame after) (member : method ∈ frame) (live : after.isLive method)
    (bound : before.receiver? method = some receiver) : after.receiver? method = some receiver := by
  obtain ⟨payload, held, same⟩ := Option.bind_eq_some_iff.mp bound
  obtain ⟨later, reached⟩ := exists_payload?_of_isLive live
  have continues := carries.evolves.continues method payload later held reached
    (carries.kept method member)
  exact Option.bind_eq_some_iff.mpr ⟨later, reached, continues.receiver?.trans same⟩

theorem bareSize_congr {handle : Handle} (same : after.payload? handle = before.payload? handle) :
    after.bareSize handle = before.bareSize handle := by
  unfold bareSize
  rw [same]

theorem receiver?_congr {handle : Handle} (same : after.payload? handle = before.payload? handle) :
    after.receiver? handle = before.receiver? handle := by
  unfold receiver?
  rw [same]

theorem Unmoved.refl (heap : Heap Code) : heap.Unmoved heap :=
  ⟨fun _ => rfl, fun _ => rfl, rfl, rfl, rfl, fun _ => le_rfl⟩

theorem Unmoved.trans (first : before.Unmoved middle) (second : middle.Unmoved after) :
    before.Unmoved after where
  births handle := (second.births handle).trans (first.births handle)
  lives handle := (second.lives handle).trans (first.lives handle)
  free := second.free.trans first.free
  pool := second.pool.trans first.pool
  tracker := second.tracker.trans first.tracker
  sizes handle := (first.sizes handle).trans (second.sizes handle)

/-- A change of entries that leaves the books alone moves no entry as long as none comes or goes, and
none gets lighter. -/
theorem Unmoved.of_steady (steady : before.Steady after)
    (lives : ∀ handle, after.isLive handle = before.isLive handle)
    (sizes : ∀ handle, before.bareSize handle ≤ after.bareSize handle) : before.Unmoved after where
  births := steady.births
  lives := lives
  free := (congrArg Heap.free steady.books :)
  pool := (congrArg Heap.pool steady.books :)
  tracker := (congrArg Heap.tracker steady.books :)
  sizes := sizes

/-- Slots, their homes and the tracker are all that counts. -/
theorem Unmoved.of_slots (slots : after.slots = before.slots) (free : after.free = before.free)
    (pool : after.pool = before.pool) (tracker : after.tracker = before.tracker) :
    before.Unmoved after :=
  have payloads (handle : Handle) : after.payload? handle = before.payload? handle :=
    payload?_congr (occupant?_congr slots handle)
  { births := births_congr slots
    lives := fun handle => isLive_congr (payloads handle)
    free, pool, tracker
    sizes := fun handle => (bareSize_congr (payloads handle)).ge }

/-- A change of entries that leaves the books alone is quiet as long as it changes no register and
no weak reference, binds no method and makes nothing lighter. -/
theorem Quiet.of_steady (steady : before.Steady after)
    (lives : ∀ handle, after.isLive handle = before.isLive handle)
    (targets : ∀ handle, after.target? handle = before.target? handle)
    (callbacks : ∀ handle, after.callback? handle = before.callback? handle)
    (registers : ∀ handle, after.watchers handle = before.watchers handle)
    (receivers : ∀ handle, after.receiver? handle = before.receiver? handle)
    (sizes : ∀ handle, before.bareSize handle ≤ after.bareSize handle) : before.Quiet after where
  toUnmoved := .of_steady steady lives sizes
  targets := targets
  callbacks := callbacks
  registers := registers
  receivers := receivers
  releasing := (congrArg Heap.releasing steady.books :)
  unraisable := (congrArg Heap.unraisable steady.books :)

/-- A change of counts is quiet. -/
theorem Quiet.of_payloads (steady : before.Steady after)
    (payloads : ∀ handle, after.payload? handle = before.payload? handle) : before.Quiet after :=
  .of_steady steady (fun handle => isLive_congr (payloads handle))
    (fun handle => target?_congr (payloads handle)) (fun handle => callback?_congr (payloads handle))
    (fun handle => watchers_congr (payloads handle)) (fun handle => receiver?_congr (payloads handle))
    fun handle => (bareSize_congr (payloads handle)).ge

/-- A change of the books is quiet as long as it leaves alone what is kept about slots, charges and
releases. -/
theorem Quiet.of_slots (slots : after.slots = before.slots) (free : after.free = before.free)
    (pool : after.pool = before.pool) (tracker : after.tracker = before.tracker)
    (releasing : after.releasing = before.releasing)
    (unraisable : after.unraisable = before.unraisable) : before.Quiet after :=
  have payloads (handle : Handle) : after.payload? handle = before.payload? handle :=
    payload?_congr (occupant?_congr slots handle)
  { toUnmoved := .of_slots slots free pool tracker
    releasing, unraisable
    targets := fun handle => target?_congr (payloads handle)
    callbacks := fun handle => callback?_congr (payloads handle)
    registers := fun handle => watchers_congr (payloads handle)
    receivers := fun handle => receiver?_congr (payloads handle) }

end Heap

/-- What is given up in two parts is given up. -/
theorem Story.settles {conduct : Conduct Code Host} {before between after : World Code Host}
    (first : Story conduct .settling before between) (second : Story conduct .settling between after) :
    Story conduct .settling before after := by
  generalize phased : Phase.settling = phase at first
  induction first with
  | settled => exact second
  | wait quiet rest inductionHypothesis => exact .wait quiet (inductionHypothesis second phased)
  | drain idle loop rest _ inductionHypothesis =>
    exact .drain idle loop (inductionHypothesis second phased)
  | _ => cases phased

/-- What no turn of the host undoes stays so. -/
theorem Story.stays {conduct : Conduct Code Host} {phase : Phase} {before after : World Code Host}
    (story : Story conduct phase before after) {fact : Host → Prop}
    (kept : ∀ world host, conduct.turns world host → fact world.host → fact host)
    (now : fact before.host) : fact after.host := by
  induction story with
  | host turns => exact kept _ _ turns now
  | andThen _ _ first second => exact second (first now)
  | settle _ inductionHypothesis | sweep _ inductionHypothesis | anew _ _ inductionHypothesis
  | wait _ _ inductionHypothesis | spare _ _ inductionHypothesis => exact inductionHypothesis now
  | collect _ _ _ _ settles called => exact called (settles now)
  | drain _ _ _ loop rest => exact rest (loop now)
  | free _ _ _ called rest => exact rest (called now)
  | call _ _ _ _ _ course givesUp rest => exact rest (givesUp (course now))
  | _ => exact now

theorem Story.hollows {conduct : Conduct Code Host} {phase : Phase} {before after : World Code Host}
    (story : Story conduct phase before after) (reason : conduct.hollows before.host) :
    conduct.hollows after.host :=
  story.stays (fun _ _ => conduct.lasts) reason

end ObjectHeap
