/-
This file tells which changes of a heap have nothing to do with what the heap keeps aside. Operations
make only such changes, beside putting references on the stack of those that wait for their release.
If a discipline allows both, then little is left to show for an engine: how the stack is worked off, how
cycles are collected, and how code of the host is run.
-/

import ObjectHeap.Proofs.Discipline
import ObjectHeap.Proofs.Freeing

namespace ObjectHeap

variable {Code Host α β : Type}

namespace Heap

/-- What a heap keeps aside. -/
def aside (heap : Heap Code) : Aside :=
  { waiting := heap.pending
    counted := heap.sinceCollection
    depth := heap.callDepth
    depthLimit := heap.tracker.limits.maxRecursionDepth }

/-- A change that leaves alone what the heap keeps aside, whatever that is, and whether releases are
being worked off. -/
structure Indifferent (change : Heap Code → α × Heap Code) : Prop where
  releasing : ∀ heap, (change heap).2.releasing = heap.releasing
  beside : ∀ heap aside, change (heap.beside aside) = ((change heap).1, (change heap).2.beside aside)

namespace Indifferent

/-- What is kept aside is the same afterwards. -/
theorem keeps {change : Heap Code → α × Heap Code} (indifferent : Indifferent change)
    (heap : Heap Code) : (change heap).2.beside heap.aside = (change heap).2 :=
  (congrArg Prod.snd (indifferent.beside heap heap.aside)).symm

theorem aside_eq {change : Heap Code → α × Heap Code} (indifferent : Indifferent change)
    (heap : Heap Code) : (change heap).2.aside = heap.aside :=
  (congrArg Heap.aside (indifferent.keeps heap)).symm

theorem unit {change : Heap Code → Heap Code}
    (releasing : ∀ heap, (change heap).releasing = heap.releasing)
    (beside : ∀ heap aside, change (heap.beside aside) = (change heap).beside aside) :
    Indifferent fun heap => ((), change heap) :=
  ⟨releasing, fun heap aside => congrArg (Prod.mk ()) (beside heap aside)⟩

theorem answer (answer : α) : Indifferent fun heap : Heap Code => (answer, heap) :=
  ⟨fun _ => rfl, fun _ _ => rfl⟩

/-- One change after another one. -/
theorem andThen {change : Heap Code → α × Heap Code} {next : α → Heap Code → β × Heap Code}
    (first : Indifferent change) (second : ∀ answer, Indifferent (next answer)) :
    Indifferent fun heap => next (change heap).1 (change heap).2 where
  releasing heap := ((second _).releasing _).trans (first.releasing heap)
  beside heap aside := by
    rw [first.beside]
    exact (second _).beside _ aside

/-- What is changed may depend on whatever can be seen of the heap. -/
theorem ask (question : Heap Code → α) {next : α → Heap Code → β × Heap Code}
    (same : ∀ heap aside, question (heap.beside aside) = question heap)
    (rest : ∀ answer, Indifferent (next answer)) :
    Indifferent fun heap => next (question heap) heap where
  releasing heap := (rest _).releasing heap
  beside heap aside := by
    rw [same]
    exact (rest _).beside heap aside

theorem recycle (handle : Handle) (isMethod : Bool) :
    Indifferent fun heap : Heap Code => ((), heap.recycle handle isMethod) := by
  refine .unit (fun heap => heap.releasing_recycle handle isMethod) fun heap aside => ?_
  have same : (heap.beside aside).pool = heap.pool := rfl
  unfold Heap.recycle
  rw [same]
  cases if isMethod then heap.pool.keep? handle else none <;> rfl

theorem clear (target weakref : Handle) :
    Indifferent fun heap : Heap Code => heap.clear target weakref where
  releasing heap := (congrArg Heap.releasing (Steady.clear heap target weakref).books :)
  beside heap aside := by
    have same : (heap.beside aside).payload? weakref = heap.payload? weakref := rfl
    unfold Heap.clear
    rw [same]
    cases heap.payload? weakref with
    | none => rfl
    | some payload =>
      cases payload with
      | weakref data => by_cases aimed : data.target = some target <;> simp only [aimed] <;> rfl
      | _ => rfl

theorem clearAll (target : Handle) (skipped : Handle → Bool) (weakrefs : List Handle) :
    Indifferent fun heap : Heap Code => heap.clearAll target skipped weakrefs := by
  induction weakrefs with
  | nil => exact .answer []
  | cons weakref rest inductionHypothesis =>
    cases skip : skipped weakref with
    | true =>
      unfold Heap.clearAll
      rw [skip]
      exact inductionHypothesis
    | false =>
      have same := funext fun heap : Heap Code => heap.clearAll_cons target skip rest
      rw [same]
      exact .andThen (clear target weakref) fun callback => .andThen inductionHypothesis fun callbacks =>
        .answer ((callback.map fun callback => (weakref, callback)).toList ++ callbacks)

theorem clearWatchers (target : Handle) (skipped : Handle → Bool) (weakrefs : List Handle) :
    Indifferent fun heap : Heap Code => heap.clearWatchers target skipped weakrefs := by
  have increments (callbacks : List (Handle × Value)) : Indifferent fun heap : Heap Code =>
      ((), callbacks.foldl (fun heap pair => heap.increment pair.1) heap) := by
    induction callbacks with
    | nil => exact .answer ()
    | cons pair rest inductionHypothesis =>
      have increments : Indifferent fun heap : Heap Code => ((), heap.increment pair.1) :=
        .unit (fun _ => rfl) fun _ _ => rfl
      exact increments.andThen fun _ => inductionHypothesis
  exact .andThen (clearAll target skipped weakrefs) fun callbacks =>
    .andThen (increments callbacks) fun _ => .answer callbacks

theorem takeFree : Indifferent (Heap.takeFree : Heap Code → _) where
  releasing heap := by
    unfold Heap.takeFree
    split <;> rfl
  beside heap aside := by
    have same : (heap.beside aside).free = heap.free := rfl
    unfold Heap.takeFree
    rw [same]
    cases heap.free <;> rfl

theorem takeFreeForMethod : Indifferent (Heap.takeFreeForMethod : Heap Code → _) where
  releasing heap := by
    unfold Heap.takeFreeForMethod
    split
    · rfl
    · exact takeFree.releasing heap
  beside heap aside := by
    have same : (heap.beside aside).pool = heap.pool := rfl
    unfold Heap.takeFreeForMethod
    rw [same]
    cases heap.pool.take? with
    | none => exact takeFree.beside heap aside
    | some taken => rfl

theorem place (payload : Payload Code) (slot : Option Handle) :
    Indifferent fun heap : Heap Code => heap.place payload slot := by
  cases slot <;> exact ⟨fun _ => rfl, fun _ _ => rfl⟩

/-! ### Cycles -/

theorem clearGarbage (isGarbage : Handle → Bool) (garbage : List Handle) :
    Indifferent fun heap : Heap Code => heap.clearGarbage isGarbage garbage := by
  induction garbage with
  | nil => exact .answer []
  | cons handle rest inductionHypothesis =>
    have forgets : Indifferent fun heap : Heap Code =>
        ((), heap.mapPayload handle (Payload.mapWatchers fun _ => [])) :=
      .unit (fun _ => rfl) fun _ _ => rfl
    have clears (watchers : List Handle) : Indifferent fun heap : Heap Code =>
        let due := heap.clearWatchers handle isGarbage watchers
        let others := due.2.clearGarbage isGarbage rest
        (due.1 ++ others.1, others.2) :=
      .andThen (clearWatchers handle isGarbage watchers) fun due =>
        .andThen inductionHypothesis fun others => .answer (due ++ others)
    exact .ask (fun heap => ((heap.payload? handle).map Payload.watchers).getD []) (fun _ _ => rfl)
      fun watchers => forgets.andThen fun _ => clears watchers

theorem sweepOne (isGarbage : Handle → Bool) (handle : Handle) :
    Indifferent fun heap : Heap Code => heap.sweepOne isGarbage handle := by
  have frees (payload : Payload Code) : Indifferent fun heap =>
      ((payload.leavings []).filter fun child => !isGarbage child,
        (heap.withdrawn handle payload (heap.tracker.credit (UInt64.ofNat payload.size))).recycle handle
          payload.isMethod) := by
    have withdraws : Indifferent fun heap =>
        ((), heap.withdrawn handle payload (heap.tracker.credit (UInt64.ofNat payload.size))) := by
      unfold Heap.withdrawn
      cases payload.target? <;> exact .unit (fun _ => rfl) fun _ _ => rfl
    exact withdraws.andThen fun _ => (recycle handle payload.isMethod).andThen fun _ => .answer _
  constructor
  · intro heap
    cases found : heap.payload? handle with
    | none =>
      unfold Heap.sweepOne
      rw [found]
    | some payload =>
      rw [heap.sweepOne_eq isGarbage found]
      exact (frees payload).releasing heap
  · intro heap aside
    have same : (heap.beside aside).payload? handle = heap.payload? handle := rfl
    cases found : heap.payload? handle with
    | none =>
      unfold Heap.sweepOne
      rw [same, found]
    | some payload =>
      rw [heap.sweepOne_eq isGarbage found, sweepOne_eq _ isGarbage (same.trans found)]
      exact (frees payload).beside heap aside

theorem sweep (isGarbage : Handle → Bool) (survivors garbage : List Handle) :
    Indifferent fun heap : Heap Code => heap.sweep isGarbage survivors garbage := by
  induction garbage generalizing survivors with
  | nil => exact .answer survivors
  | cons handle rest inductionHypothesis =>
    exact .andThen (sweepOne isGarbage handle) fun held => inductionHypothesis (held ++ survivors)

end Indifferent

end Heap

namespace Payload

theorem foldl_leave (values : List Value) (stack : List Handle) :
    values.foldl leave stack = (values.filterMap Value.handle?).reverse ++ stack := by
  induction values generalizing stack with
  | nil => rfl
  | cons value rest inductionHypothesis =>
    rw [List.foldl_cons, inductionHypothesis]
    cases value with
    | ref handle =>
      show _ = (handle :: rest.filterMap Value.handle?).reverse ++ stack
      rw [List.reverse_cons, List.append_assoc]
      rfl
    | _ => rfl

theorem leave?_eq_append (stack : List Handle) (value : Option Value) :
    leave? stack value = (value.bind Value.handle?).toList.reverse ++ stack := by
  cases value with
  | none => rfl
  | some value => cases value <;> rfl

/-- What a payload leaves behind goes on top of a stack, the last of it first. -/
theorem leavings_eq_append (payload : Payload Code) (stack : List Handle) :
    payload.leavings stack = payload.visits.reverse ++ stack := by
  cases payload with
  | str text => rfl
  | list items => exact foldl_leave items stack
  | tuple items => exact foldl_leave items stack
  | function data => exact foldl_leave data.attributes.values stack
  | type data =>
    rw [leavings, foldl_leave, List.foldl_flip_cons_eq_append, visits, List.reverse_append,
      List.append_assoc, List.map_id']
  | object data =>
    rw [leavings, foldl_leave, visits, List.reverse_cons, List.append_assoc]
    rfl
  | weakref data => exact leave?_eq_append stack data.callback
  | method data =>
    rw [leavings, leave?_eq_append, leave?_eq_append, visits, List.reverse_cons, List.reverse_append]
    simp only [List.append_assoc, List.singleton_append]

end Payload

/-! ### Disciplines that allow it -/

/-- A discipline that allows changes that have nothing to do with what the heap keeps aside, and to
put references on the stack of those that wait. -/
structure Discipline.Pliant (discipline : Discipline Code Host) : Prop where
  change : ∀ {α : Type} {change : Heap Code → α × Heap Code}, Heap.Indifferent change →
    (changeHeap change : Action Code Host α).Obeys discipline
  push : ∀ handles, (modifyHeap fun heap => { heap with pending := handles ++ heap.pending } :
    Action Code Host Unit).Obeys discipline

namespace Discipline.Pliant

variable {discipline : Discipline Code Host} (pliant : discipline.Pliant)

include pliant

theorem modify {change : Heap Code → Heap Code}
    (releasing : ∀ heap, (change heap).releasing = heap.releasing)
    (beside : ∀ heap aside, change (heap.beside aside) = (change heap).beside aside) :
    (modifyHeap change : Action Code Host Unit).Obeys discipline :=
  pliant.change (.unit releasing beside)

theorem enqueue (value : Value) : (enqueue value : Action Code Host Unit).Obeys discipline := by
  cases value with
  | ref handle => exact pliant.push [handle]
  | _ => exact .pure ()

theorem leave (payload : Payload Code) :
    (modifyHeap fun heap => { heap with pending := payload.leavings heap.pending } :
      Action Code Host Unit).Obeys discipline := by
  simp only [payload.leavings_eq_append]
  exact pliant.push _

theorem unraisable (error : Error) :
    (reportUnraisable error : Action Code Host Unit).Obeys discipline :=
  pliant.modify (fun _ => rfl) fun _ _ => rfl

theorem decrement (handle : Handle) :
    (decrement handle : Action Code Host (Option (Payload Code))).Obeys discipline := by
  refine .currentHeap (fun _ _ => rfl) fun heap => ?_
  split
  · exact discipline.stop _
  · split
    · exact .bind (pliant.modify (fun _ => rfl) fun _ _ => rfl) fun _ => .pure _
    · exact .bind (pliant.modify (fun _ => rfl) fun _ _ => rfl) fun _ => .pure _

/-- Garbage is removed, and what it held of survivors waits for its release. -/
theorem removeGarbage (garbage : List Handle) :
    (changeHeap (·.removeGarbage garbage) : Action Code Host (List (Handle × Value))).Obeys discipline := by
  let isGarbage := fun handle => garbage.contains handle
  have removes : (do
      let callbacks ← changeHeap (·.clearGarbage isGarbage garbage)
      let survivors ← changeHeap (·.sweep isGarbage [] garbage)
      modifyHeap fun heap => { heap with pending := survivors ++ heap.pending }
      return callbacks : Action Code Host (List (Handle × Value))).Obeys discipline :=
    .bind (pliant.change (.clearGarbage isGarbage garbage)) fun callbacks =>
      .bind (pliant.change (.sweep isGarbage [] garbage)) fun survivors =>
        .bind (pliant.push survivors) fun _ => .pure callbacks
  exact removes

variable {engine : Engine Code Host}

section

variable (calls : ∀ callback arguments, (engine.callBack callback arguments).Obeys discipline)

include calls

/-- Taking a payload apart puts what it owned on top of what waits. -/
theorem tearDown (handle : Handle) (payload : Payload Code) :
    (engine.tearDown handle payload).Obeys discipline := by
  refine .bind (pliant.modify (fun _ => rfl) fun _ _ => rfl) fun _ =>
    .bind (pliant.change (.clearWatchers _ _ _)) fun callbacks =>
    .bind (Engine.obeys_runCallbacks calls pliant.enqueue pliant.unraisable callbacks) fun _ => ?_
  have buries : (do
      modifyHeap fun heap => { heap with pending := payload.leavings heap.pending }
      modifyHeap (·.recycle handle payload.isMethod) : Action Code Host Unit).Obeys discipline :=
    .bind (pliant.leave payload) fun _ => pliant.change (.recycle handle payload.isMethod)
  cases payload.target? with
  | some target => exact .bind (pliant.modify (fun _ => rfl) fun _ _ => rfl) fun _ => buries
  | none => exact buries

theorem releaseNext (handle : Handle) : (engine.releaseNext handle).Obeys discipline :=
  .bind (pliant.decrement handle) fun last => by
    cases last with
    | none => exact .pure ()
    | some payload => exact pliant.tearDown calls handle payload

end

section

variable (drains : engine.drain.Obeys discipline)

include drains

theorem release (value : Value) : (engine.release value).Obeys discipline := by
  cases value with
  | ref handle => exact .bind (pliant.enqueue _) fun _ => drains
  | _ => exact .pure ()

theorem release? (value : Option Value) : (engine.release? value).Obeys discipline := by
  cases value with
  | none => exact .pure ()
  | some value => exact pliant.release drains value

/-- A payload is changed in place, and what was there is given up. -/
theorem exchange (handle : Handle) (change : Payload Code → Payload Code) (replaced : Option Value) :
    (do
      modifyHeap (·.mapPayload handle change)
      engine.release? replaced : Attempt Code Host Unit).Obeys discipline :=
  .bind (.modifyHeap (pliant.modify (fun _ => rfl) fun _ _ => rfl)) fun _ =>
    .ofAction (pliant.release? drains replaced)

theorem setAttribute (value : Value) (name : String) (content : Value) :
    (engine.setAttribute value name content).Obeys discipline := by
  have refused (refusal : Refusal) : (do
      engine.release content
      Attempt.refuse refusal : Attempt Code Host Unit).Obeys discipline :=
    .act (pliant.release drains content) fun _ => .refuse refusal
  unfold Engine.setAttribute
  split
  · refine .ask (fun _ _ => rfl) fun payload => ?_
    split
    · exact pliant.exchange drains _ _ _
    · exact pliant.exchange drains _ _ _
    · split
      · exact refused _
      · exact pliant.exchange drains _ _ _
    · exact refused _
    · exact .ask (fun _ _ => rfl) fun _ => refused _
  · exact .ask (fun _ _ => rfl) fun _ => refused _

theorem append (list item : Value) : (engine.append list item).Obeys discipline := by
  have refused : (do
      let type ← ask fun heap => heap.typeName list
      engine.release item
      Attempt.refuse (.noAttribute type "append") : Attempt Code Host Unit).Obeys discipline :=
    .ask (fun _ _ => rfl) fun _ => .act (pliant.release drains item) fun _ => .refuse _
  unfold Engine.append
  cases list with
  | ref handle =>
    refine .ask (fun _ _ => rfl) fun payload => ?_
    cases payload with
    | list items =>
      have appends : (modifyHeap (·.mapPayload handle fun _ => .list (items ++ [item])) :
          Attempt Code Host Unit).Obeys discipline :=
        .modifyHeap (pliant.modify (fun _ => rfl) fun _ _ => rfl)
      exact appends
    | _ => exact refused
  | _ => exact refused

end

/-! ### Allocations -/

/-- Whether a payload is charged for does not depend on what the heap keeps aside. -/
theorem charge {payload : Payload Code} (counts : (engine.countAllocation payload).Obeys discipline)
    (drains : engine.drain.Obeys discipline) : (engine.charge payload).Obeys discipline := by
  let refusal? := fun heap : Heap Code =>
    heap.tracker.allocationRefusal? <|> heap.tracker.memoryRefusal? (UInt64.ofNat payload.size)
  let settle (refusal : Option LimitExceeded) : Action Code Host (Option LimitExceeded) :=
    refusal.elim
      (do
        modifyHeap fun heap => { heap with tracker := heap.tracker.record (UInt64.ofNat payload.size) }
        return none)
      fun exceeded => do
        modifyHeap fun heap => { heap with pending := payload.leavings heap.pending }
        engine.drain
        return some exceeded
  have settles (refusal : Option LimitExceeded) : (settle refusal).Obeys discipline := by
    cases refusal with
    | some exceeded => exact .bind (pliant.leave payload) fun _ => .bind drains fun _ => .pure _
    | none => exact .bind (pliant.modify (fun _ => rfl) fun _ _ => rfl) fun _ => .pure none
  have same : engine.charge payload =
      engine.countAllocation payload >>= fun _ => currentHeap >>= fun heap => settle (refusal? heap) := by
    refine congrArg (engine.countAllocation payload >>= ·) (funext fun _ => funext fun world => ?_)
    refine (Action.bind_of_ok (currentHeap_apply world)).trans
      (Eq.trans ?_ (Action.bind_of_ok (currentHeap_apply world)).symm)
    unfold Tracker.charge
    dsimp only [refusal?]
    cases world.heap.tracker.allocationRefusal? <|>
      world.heap.tracker.memoryRefusal? (UInt64.ofNat payload.size) <;> rfl
  rw [same]
  exact .bind counts fun _ => .currentHeap (fun _ _ => rfl) fun heap => settles _

theorem allocate {payload : Payload Code} (charges : (engine.charge payload).Obeys discipline) :
    (engine.allocate payload).Obeys discipline := by
  refine .act charges fun refusal => ?_
  cases refusal with
  | some exceeded => exact .refuse _
  | none =>
    exact .act (pliant.change .takeFree) fun slot =>
      .act (pliant.change (.place payload slot)) fun handle => .pure _

theorem allocateMethod (charges : ∀ payload, (engine.charge payload).Obeys discipline)
    (function : Handle) (receiver owner : Option Value) :
    (engine.allocateMethod function receiver owner).Obeys discipline := by
  refine .act (Action.Obeys.retain function) fun _ => .act (charges _) fun refusal => ?_
  cases refusal with
  | some exceeded => exact .ask (fun _ _ => rfl) fun _ => .refuse _
  | none =>
    exact .act (pliant.change .takeFreeForMethod) fun slot =>
      .act (pliant.change (.place _ slot)) fun handle => .pure _

/-- What is left to show for an engine. -/
theorem obeys (drains : engine.drain.Obeys discipline)
    (counts : ∀ payload, (engine.countAllocation payload).Obeys discipline)
    (invoke : ∀ function arguments, (engine.invoke function arguments).Obeys discipline)
    (collect : engine.collect.Obeys discipline) : engine.Obeys discipline where
  release := pliant.release drains
  allocate payload _ := pliant.allocate (pliant.charge (counts payload) drains)
  allocateMethod := pliant.allocateMethod fun payload => pliant.charge (counts payload) drains
  newFunction _ _ _ _ :=
    .currentHeap (fun _ _ => rfl) fun _ =>
      .bind (.modifyHeap (pliant.modify (fun _ => rfl) fun _ _ => rfl)) fun _ =>
        pliant.allocate (pliant.charge (counts _) drains)
  register _ _ := pliant.modify (fun _ => rfl) fun _ _ => rfl
  append := pliant.append drains
  setAttribute := pliant.setAttribute drains
  invoke := invoke
  collect := collect
  relieve := pliant.change ⟨fun _ => rfl, fun _ _ => rfl⟩

end Discipline.Pliant

/-! ### Worlds that are moved -/

/-- An action that leads from what holds `first` to what holds `last`, and does in a world that is
moved what it does in the world itself. -/
structure Action.Commutes (first last : World Code Host → Prop)
    (moved : World Code Host → World Code Host) (action : Action Code Host α) : Prop where
  leads : ∀ {before after : World Code Host} {answer : α}, first before →
    action before = .ok (answer, after) → last after
  same : ∀ {before : World Code Host}, first before →
    action (moved before) = (action before).map fun ended => (ended.1, moved ended.2)

namespace Action.Commutes

variable {first middle last : World Code Host → Prop} {moved : World Code Host → World Code Host}
  {action : Action Code Host α} {next : α → Action Code Host β}

theorem pure (answer : α) : (Pure.pure answer : Action Code Host α).Commutes first first moved where
  leads held ended := by
    cases ended
    exact held
  same _ := rfl

theorem stop (fault : Fault) : (ObjectHeap.stop fault : Action Code Host α).Commutes first last moved where
  leads _ ended := nomatch ended
  same _ := rfl

theorem bind (begins : action.Commutes first middle moved)
    (rest : ∀ answer, (next answer).Commutes middle last moved) :
    (action >>= next).Commutes first last moved where
  leads held ended := by
    obtain ⟨answer, between, ran, going⟩ := Action.bind_eq_ok.mp ended
    exact (rest answer).leads (begins.leads held ran) going
  same {before} held := by
    show (action (moved before) >>= fun pair => next pair.1 pair.2) =
      (action before >>= fun pair => next pair.1 pair.2).map _
    rw [begins.same held]
    cases ran : action before with
    | error fault => rfl
    | ok pair => exact (rest pair.1).same (begins.leads held ran)

theorem currentHeap {next : Heap Code → Action Code Host β}
    (same : ∀ world, first world → next (moved world).heap = next world.heap)
    (rest : ∀ world, first world → (next world.heap).Commutes first last moved) :
    (ObjectHeap.currentHeap >>= next).Commutes first last moved where
  leads {before _ _} held ended := (rest before held).leads held ended
  same {before} held := by
    show next (moved before).heap (moved before) = (next before.heap before).map _
    rw [same before held]
    exact (rest before held).same held

theorem changeHeap {change : Heap Code → α × Heap Code}
    (leads : ∀ world, first world → last { world with heap := (change world.heap).2 })
    (answers : ∀ world, first world → (change (moved world).heap).1 = (change world.heap).1)
    (same : ∀ world, first world → { moved world with heap := (change (moved world).heap).2 } =
      moved { world with heap := (change world.heap).2 }) :
    (ObjectHeap.changeHeap change : Action Code Host α).Commutes first last moved where
  leads {before _ _} held ended := by
    cases ended
    exact leads before held
  same {before} held := by
    rw [changeHeap_apply, changeHeap_apply, answers before held, same before held]
    rfl

theorem modifyHeap {change : Heap Code → Heap Code}
    (leads : ∀ world, first world → last { world with heap := change world.heap })
    (same : ∀ world, first world → { moved world with heap := change (moved world).heap } =
      moved { world with heap := change world.heap }) :
    (ObjectHeap.modifyHeap change : Action Code Host Unit).Commutes first last moved := by
  have changes : (ObjectHeap.changeHeap fun heap => ((), change heap) :
      Action Code Host Unit).Commutes first last moved :=
    .changeHeap leads (fun _ _ => rfl) same
  exact changes

/-- A program looks at the world, and goes on in a world that its host has changed. -/
theorem consult {engine : Engine Code Host} {change : Host → Heap Code → Host}
    {next : Host → Heap Code → Program Code Host}
    (leads : ∀ world, first world → middle { world with host := change world.host world.heap })
    (same : ∀ world, first world →
      next (moved world).host (moved world).heap = next world.host world.heap)
    (moves : ∀ world, first world →
      { moved world with host := change (moved world).host (moved world).heap } =
        moved { world with host := change world.host world.heap })
    (rest : ∀ world, first world →
      ((next world.host world.heap).act engine).Commutes middle last moved) :
    ((Program.consult change next).act engine).Commutes first last moved where
  leads {before _ _} held ended := (rest before held).leads (leads before held) ended
  same {before} held := by
    show (next (moved before).host (moved before).heap).act engine
      { moved before with host := change (moved before).host (moved before).heap } = _
    rw [same before held, moves before held]
    exact (rest before held).same (leads before held)

end Action.Commutes

section

variable {ι : Type} {holds : ι → World Code Host → Prop}
  {moved : ι → World Code Host → World Code Host}
  (shows : ∀ place world, holds place world →
    ∃ aside, (moved place world).heap = world.heap.beside aside)
  (changes : ∀ {α : Type} {change : Heap Code → α × Heap Code}, Heap.Indifferent change → ∀ place,
    (changeHeap change : Action Code Host α).Commutes (holds place) (holds place) (moved place))

/-- The discipline of actions that do the same wherever a world is moved, as long as only what the
heap keeps aside differs there. -/
def Discipline.commuting : Discipline Code Host where
  allows action := ∀ place, action.Commutes (holds place) (holds place) (moved place)
  pure answer _ := .pure answer
  stop fault _ := .stop fault
  bind begins rest place := .bind (begins place) fun answer => rest answer place
  look same rest place := by
    refine .currentHeap (fun world held => ?_) fun world _ => rest world.heap place
    obtain ⟨aside, shown⟩ := shows place world held
    rw [shown, same]
  retain handle place := by
    refine .currentHeap (fun world held => ?_) fun world _ => ?_
    · obtain ⟨aside, shown⟩ := shows place world held
      rw [shown]
      rfl
    · have increments : Heap.Indifferent fun heap : Heap Code => ((), heap.increment handle) :=
        .unit (fun _ => rfl) fun _ _ => rfl
      split
      · exact changes increments place
      · exact .stop _

theorem Discipline.pliant_commuting
    (push : ∀ handles place, (modifyHeap fun heap => { heap with pending := handles ++ heap.pending } :
      Action Code Host Unit).Commutes (holds place) (holds place) (moved place)) :
    (Discipline.commuting shows changes).Pliant where
  change indifferent := changes indifferent
  push := push

end

end ObjectHeap
