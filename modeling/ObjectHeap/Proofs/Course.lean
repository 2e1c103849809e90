/-
This file turns relations between worlds into disciplines. A course is a relation that leads from a
world to what may become of it; an action keeps to a course if it leads along it wherever it ends. A
few facts about single changes are enough for all operations. If a course minds none of the changes
that come and go with releases, then it is enough that callbacks and the code of the host keep to it.
-/

import ObjectHeap.Proofs.Discipline
import ObjectHeap.Proofs.Registers

namespace ObjectHeap

variable {Code Host α β : Type}

/-- What may become of a world. -/
structure Course (Code Host : Type) where
  leads : World Code Host → World Code Host → Prop
  still : ∀ world, leads world world
  onward : ∀ {before between after}, leads before between → leads between after → leads before after
  retain : ∀ {world : World Code Host} {handle}, world.heap.isLive handle →
    leads world { world with heap := world.heap.increment handle }

namespace Course

variable (course : Course Code Host)

/-- The discipline of actions that lead along a course. -/
def discipline : Discipline Code Host where
  allows action := ∀ ⦃before answer after⦄, action before = .ok (answer, after) →
    course.leads before after
  pure _ before _ _ ended := by
    cases ended
    exact course.still before
  stop _ _ _ _ ended := nomatch ended
  bind begins rest _ _ _ ended := by
    obtain ⟨answer, _, first, second⟩ := Action.bind_eq_ok.mp ended
    exact course.onward (begins first) (rest answer second)
  look _ rest before _ _ ended := rest before.heap ended
  retain handle before _ _ ended := by
    rw [retain_apply] at ended
    split at ended
    · rename_i live
      cases ended
      exact course.retain live
    · cases ended

variable {course}

theorem leads_of_obeys {action : Action Code Host α} {before after : World Code Host} {answer : α}
    (obeys : action.Obeys course.discipline) (ended : action before = .ok (answer, after)) :
    course.leads before after :=
  obeys ended

theorem currentHeap {next : Heap Code → Action Code Host β}
    (rest : ∀ heap, (next heap).Obeys course.discipline) :
    (ObjectHeap.currentHeap >>= next).Obeys course.discipline :=
  fun before _ _ ended => rest before.heap ended

theorem attempt_currentHeap {next : Heap Code → Attempt Code Host β}
    (rest : ∀ heap, (next heap).Obeys course.discipline) :
    (ObjectHeap.currentHeap >>= next).Obeys course.discipline :=
  .ofCurrentHeap (currentHeap rest)

theorem modifyHeap {change : Heap Code → Heap Code}
    (leads : ∀ world : World Code Host, course.leads world { world with heap := change world.heap }) :
    (ObjectHeap.modifyHeap change : Action Code Host Unit).Obeys course.discipline :=
  fun before _ _ ended => by
    cases ended
    exact leads before

theorem changeHeap {change : Heap Code → α × Heap Code}
    (leads : ∀ world : World Code Host, course.leads world { world with heap := (change world.heap).2 }) :
    (ObjectHeap.changeHeap change : Action Code Host α).Obeys course.discipline :=
  fun before _ _ ended => by
    rw [changeHeap_apply] at ended
    cases ended
    exact leads before

/-- What is looked up for a change is there when the change is made. -/
theorem fetchToChange {handle : Handle} {next : Payload Code → Attempt Code Host β}
    (rest : ∀ (before : World Code Host) payload, before.heap.payload? handle = some payload →
      ∀ outcome after, (next payload).run before = .ok (outcome, after) → course.leads before after) :
    (ObjectHeap.fetchToChange handle >>= next).Obeys course.discipline := by
  intro before outcome after ended
  obtain ⟨payload, found, going⟩ := Attempt.ask_bind_eq_ok.mp ended
  refine rest before payload ?_ outcome after going
  split at found
  · rename_i there
    cases found
    exact there
  · cases found

end Course

/-! ### What is enough for all operations -/

namespace Heap

/-- A heap in which a payload is put into a free slot, or into a new one. -/
def housing (heap : Heap Code) (payload : Payload Code) : Heap Code :=
  (heap.takeFree.2.place payload heap.takeFree.1).2

/-- A heap in which the payload of a method is put into a slot, if possible one that a method has
left. -/
def housingMethod (heap : Heap Code) (payload : Payload Code) : Heap Code :=
  (heap.takeFreeForMethod.2.place payload heap.takeFreeForMethod.1).2

end Heap

/-- A payload after one more item or attribute was stored in it. -/
inductive Payload.Stores : Payload Code → Payload Code → Prop
  | item (items : List Value) (item : Value) : Stores (.list items) (.list (items ++ [item]))
  | object (data : Instance) (name : String) (content : Value) :
    Stores (.object data) (.object { data with attributes := data.attributes.insert name content })
  | type (data : Class) (name : String) (content : Value) :
    Stores (.type data) (.type { data with members := data.members.insert name content })
  | function (data : Function Code) (name : String) (content : Value) :
    Stores (.function data)
      (.function { data with attributes := data.attributes.insert name content })

/-- What is left to show for an engine to keep to a course in all operations. -/
structure Engine.Follows (engine : Engine Code Host) (course : Course Code Host) : Prop where
  release : ∀ value, (engine.release value).Obeys course.discipline
  charge : ∀ payload, (engine.charge payload).Obeys course.discipline
  housing : ∀ (world : World Code Host) (payload : Payload Code), payload.kind ≠ .function →
    course.leads world { world with heap := world.heap.housing payload }
  housingMethod : ∀ (world : World Code Host) (data : Method),
    course.leads world { world with heap := world.heap.housingMethod (.method data) }
  newFunction : ∀ name qualifiedName doc code,
    (engine.newFunction name qualifiedName doc code).Obeys course.discipline
  register : ∀ (world : World Code Host) target weakref,
    course.leads world { world with heap := world.heap.register target weakref }
  stores : ∀ (world : World Code Host) {handle payload later},
    world.heap.payload? handle = some payload → payload.Stores later →
      course.leads world { world with heap := world.heap.mapPayload handle fun _ => later }
  invoke : ∀ function arguments, (engine.invoke function arguments).Obeys course.discipline
  collect : engine.collect.Obeys course.discipline
  relieve : ∀ world : World Code Host,
    course.leads world { world with heap := { world.heap with unraisable := [] } }

namespace Engine

variable {engine : Engine Code Host} {course : Course Code Host}

/-- A payload is put into a slot once it was charged. -/
theorem obeys_allocate {payload : Payload Code}
    (charges : (engine.charge payload).Obeys course.discipline)
    (houses : ∀ world : World Code Host,
      course.leads world { world with heap := world.heap.housing payload }) :
    (engine.allocate payload).Obeys course.discipline := by
  refine .act charges fun refusal => ?_
  cases refusal with
  | some exceeded => exact .refuse _
  | none =>
    intro before _ _ ended
    cases ended
    exact houses before

namespace Follows

variable (follows : engine.Follows course)

include follows

theorem allocateMethod (function : Handle) (receiver owner : Option Value) :
    (engine.allocateMethod function receiver owner).Obeys course.discipline := by
  refine .act (Action.Obeys.retain function) fun _ => .act (follows.charge _) fun refusal => ?_
  cases refusal with
  | some exceeded => exact .ask (fun _ _ => rfl) fun _ => .refuse _
  | none =>
    intro before _ _ ended
    cases ended
    exact follows.housingMethod before _

/-- A value is stored, and what was there is given up. -/
theorem exchange {handle : Handle} {payload later : Payload Code} (stores : payload.Stores later)
    (replaced : Option Value) {before after : World Code Host} {outcome : Except Error Unit}
    (found : before.heap.payload? handle = some payload)
    (ended : (do
      modifyHeap (·.mapPayload handle fun _ => later)
      engine.release? replaced : Attempt Code Host Unit).run before = .ok (outcome, after)) :
    course.leads before after := by
  obtain ⟨_, between, stored, going⟩ := Attempt.act_bind_eq_ok.mp ended
  have gives : (engine.release? replaced).Obeys course.discipline := by
    cases replaced with
    | none => exact .pure ()
    | some value => exact follows.release value
  obtain ⟨_, _, released, last⟩ := Action.bind_eq_ok.mp going
  cases stored
  cases last
  exact course.onward (follows.stores before found stores) (gives released)

theorem refused (value : Value) (refusal : Refusal) :
    (do
      engine.release value
      Attempt.refuse refusal : Attempt Code Host Unit).Obeys course.discipline :=
  .act (follows.release value) fun _ => .refuse refusal

theorem setAttribute (value : Value) (name : String) (content : Value) :
    (engine.setAttribute value name content).Obeys course.discipline := by
  unfold Engine.setAttribute
  split
  · refine Course.fetchToChange fun before payload found outcome after ended => ?_
    split at ended
    · exact follows.exchange (.object _ name content) _ found ended
    · exact follows.exchange (.type _ name content) _ found ended
    · split at ended
      · exact follows.refused _ _ ended
      · exact follows.exchange (.function _ name content) _ found ended
    · exact follows.refused _ _ ended
    · obtain ⟨_, _, going⟩ := Attempt.ask_bind_eq_ok.mp ended
      exact follows.refused _ _ going
  · exact .ask (fun _ _ => rfl) fun _ => follows.refused _ _

theorem append (list item : Value) : (engine.append list item).Obeys course.discipline := by
  have refused : (do
      let type ← ask fun heap => heap.typeName list
      engine.release item
      Attempt.refuse (.noAttribute type "append") : Attempt Code Host Unit).Obeys course.discipline :=
    .ask (fun _ _ => rfl) fun _ => follows.refused _ _
  unfold Engine.append
  cases list with
  | ref handle =>
    refine Course.fetchToChange fun before payload found outcome after ended => ?_
    cases payload with
    | list items =>
      cases ended
      exact follows.stores before found (.item items item)
    | _ => exact refused ended
  | _ => exact refused

/-- Every operation leads along the course. -/
theorem obeys : engine.Obeys course.discipline where
  release := follows.release
  allocate payload other := obeys_allocate (follows.charge payload) fun world =>
    follows.housing world payload other
  allocateMethod := follows.allocateMethod
  newFunction := follows.newFunction
  register target weakref := Course.modifyHeap fun world => follows.register world target weakref
  append := follows.append
  setAttribute := follows.setAttribute
  invoke := follows.invoke
  collect := follows.collect
  relieve := Course.changeHeap follows.relieve

end Follows

end Engine

/-! ### Courses that mind no release -/

/-- A course that leads along changes of counts and registers, and weak references that die. -/
structure Course.Mild (course : Course Code Host) : Prop where
  counts : ∀ (world : World Code Host) handle (change : Nat → Nat), course.leads world
    { world with
      heap := world.heap.mapEntry handle fun entry => { entry with count := change entry.count } }
  registers : ∀ (world : World Code Host) handle change,
    course.leads world { world with heap := world.heap.mapPayload handle (Payload.mapWatchers change) }
  clears : ∀ (world : World Code Host) target weakref,
    course.leads world { world with heap := (world.heap.clear target weakref).2 }

/-- A course that leads along whatever comes with a release or a collection, also changes of books,
and entries that go. -/
structure Course.Lenient (course : Course Code Host) : Prop extends course.Mild where
  books : ∀ (world : World Code Host) (heap : Heap Code), heap.slots = world.heap.slots →
    heap.nextCounter = world.heap.nextCounter → course.leads world { world with heap }
  vacates : ∀ (world : World Code Host) handle,
    course.leads world { world with heap := world.heap.setEntry handle none }

namespace Course.Mild

variable {course : Course Code Host} (mild : course.Mild)

include mild

theorem clearAll (host : Host) (heap : Heap Code) (target : Handle) (skipped : Handle → Bool)
    (weakrefs : List Handle) :
    course.leads { heap, host } { heap := (heap.clearAll target skipped weakrefs).2, host } := by
  induction weakrefs generalizing heap with
  | nil => exact course.still _
  | cons weakref rest inductionHypothesis =>
    unfold Heap.clearAll
    split
    · exact inductionHypothesis heap
    · have cleared := mild.clears { heap, host } target weakref
      have others := course.onward cleared (inductionHypothesis (heap.clear target weakref).2)
      dsimp only
      split <;> exact others

theorem clearWatchers (host : Host) (heap : Heap Code) (target : Handle) (skipped : Handle → Bool)
    (weakrefs : List Handle) :
    course.leads { heap, host } { heap := (heap.clearWatchers target skipped weakrefs).2, host } := by
  have increments (callbacks : List (Handle × Value)) (heap : Heap Code) : course.leads { heap, host }
      { heap := callbacks.foldl (fun heap pair => heap.increment pair.1) heap, host } := by
    induction callbacks generalizing heap with
    | nil => exact course.still _
    | cons pair rest inductionHypothesis =>
      exact course.onward (mild.counts { heap, host } pair.1 (· + 1))
        (inductionHypothesis (heap.increment pair.1))
  exact course.onward (mild.clearAll host heap target skipped weakrefs) (increments _ _)

theorem clearGarbage (host : Host) (heap : Heap Code) (isGarbage : Handle → Bool)
    (garbage : List Handle) :
    course.leads { heap, host } { heap := (heap.clearGarbage isGarbage garbage).2, host } := by
  induction garbage generalizing heap with
  | nil => exact course.still _
  | cons handle rest inductionHypothesis =>
    exact course.onward (mild.registers { heap, host } handle fun _ => [])
      (course.onward (mild.clearWatchers host _ handle isGarbage _) (inductionHypothesis _))

end Course.Mild

namespace Course.Lenient

variable {course : Course Code Host} (lenient : course.Lenient) {world : World Code Host}

include lenient

theorem recycle (host : Host) (heap : Heap Code) (handle : Handle) (isMethod : Bool) :
    course.leads { heap, host } { heap := heap.recycle handle isMethod, host } := by
  refine lenient.books { heap, host } _ (heap.slots_recycle handle isMethod) ?_
  unfold Heap.recycle
  split <;> rfl

theorem unregister? (host : Host) (heap : Heap Code) (payload : Payload Code) (handle : Handle) :
    course.leads { heap, host }
      { heap := match payload.target? with
          | some target => heap.unregister target handle
          | none => heap
        host } := by
  cases payload.target? with
  | some target => exact lenient.registers { heap, host } target (·.erase handle)
  | none => exact course.still _

theorem enqueue (value : Value) :
    (ObjectHeap.enqueue value : Action Code Host Unit).Obeys course.discipline := by
  cases value with
  | ref handle =>
    unfold ObjectHeap.enqueue
    exact Course.modifyHeap fun world => lenient.books world _ rfl rfl
  | _ => exact .pure ()

theorem dequeue : (ObjectHeap.dequeue : Action Code Host (Option Handle)).Obeys course.discipline := by
  refine Course.changeHeap fun world => ?_
  cases pending : world.heap.pending with
  | nil => exact course.still world
  | cons handle rest => exact lenient.books world _ rfl rfl

theorem decrement (handle : Handle) :
    (ObjectHeap.decrement handle : Action Code Host (Option (Payload Code))).Obeys
      course.discipline := by
  refine Course.currentHeap fun heap => ?_
  cases heap.occupant? handle with
  | none => exact course.discipline.stop _
  | some entry =>
    dsimp only
    split
    · exact .bind (Course.modifyHeap fun world => lenient.counts world handle (· - 1)) fun _ => .pure _
    · exact .bind (Course.modifyHeap fun world => lenient.vacates world handle) fun _ => .pure _

theorem unraisable (error : Error) :
    (reportUnraisable error : Action Code Host Unit).Obeys course.discipline :=
  Course.modifyHeap fun world => lenient.books world _ rfl rfl

variable {engine : Engine Code Host}
  (calls : ∀ callback arguments, (engine.callBack callback arguments).Obeys course.discipline)

include calls

theorem tearDown (handle : Handle) (payload : Payload Code) :
    (engine.tearDown handle payload).Obeys course.discipline := by
  refine .bind (Course.modifyHeap fun world => lenient.books world _ rfl rfl) fun _ =>
    .bind (Course.changeHeap fun world => lenient.toMild.clearWatchers _ _ _ _ _) fun callbacks =>
      .bind (Engine.obeys_runCallbacks calls lenient.enqueue lenient.unraisable callbacks) fun _ => ?_
  have buries : (do
      ObjectHeap.modifyHeap fun heap => { heap with pending := payload.leavings heap.pending }
      ObjectHeap.modifyHeap (·.recycle handle payload.isMethod) : Action Code Host Unit).Obeys
        course.discipline :=
    .bind (Course.modifyHeap fun world => lenient.books world _ rfl rfl) fun _ =>
      Course.modifyHeap fun world => lenient.recycle _ _ _ _
  cases payload.target? with
  | some target =>
    exact .bind (Course.modifyHeap fun world => lenient.registers world target (·.erase handle))
      fun _ => buries
  | none => exact buries

theorem releaseAll (rounds : Nat) : (engine.releaseAll rounds).Obeys course.discipline := by
  induction rounds with
  | zero =>
    refine .bind lenient.dequeue fun next => ?_
    cases next with
    | none => exact .pure ()
    | some handle => exact course.discipline.stop _
  | succ rounds inductionHypothesis =>
    refine .bind lenient.dequeue fun next => ?_
    cases next with
    | none => exact .pure ()
    | some handle =>
      refine .bind (.bind (lenient.decrement handle) fun last => ?_) fun _ => inductionHypothesis
      cases last with
      | none => exact .pure ()
      | some payload => exact lenient.tearDown calls handle payload

theorem drain : engine.drain.Obeys course.discipline := by
  refine Course.currentHeap fun heap => ?_
  split
  · exact .pure ()
  · exact .bind (Course.modifyHeap fun world => lenient.books world _ rfl rfl) fun _ =>
      .bind (lenient.releaseAll calls _) fun _ =>
        Course.modifyHeap fun world => lenient.books world _ rfl rfl

theorem release (value : Value) : (engine.release value).Obeys course.discipline := by
  cases value with
  | ref handle => exact .bind (lenient.enqueue _) fun _ => lenient.drain calls
  | _ => exact .pure ()

omit calls in
theorem sweep (host : Host) (heap : Heap Code) (isGarbage : Handle → Bool)
    (survivors garbage : List Handle) :
    course.leads { heap, host } { heap := (heap.sweep isGarbage survivors garbage).2, host } := by
  induction garbage generalizing heap survivors with
  | nil => exact course.still _
  | cons handle rest inductionHypothesis =>
    refine course.onward ?_ (inductionHypothesis (heap.sweepOne isGarbage handle).2 _)
    unfold Heap.sweepOne
    cases heap.payload? handle with
    | none => exact course.still _
    | some payload =>
      let emptied := heap.setEntry handle none
      let credited : Heap Code :=
        { emptied with tracker := emptied.tracker.credit (UInt64.ofNat payload.size) }
      have books : course.leads { heap := emptied, host } { heap := credited, host } :=
        lenient.books _ _ rfl rfl
      exact course.onward (lenient.vacates { heap, host } handle) (course.onward books
        (course.onward (lenient.unregister? host credited payload handle)
          (lenient.recycle host _ handle payload.isMethod)))

theorem collect : engine.collect.Obeys course.discipline := by
  refine Course.currentHeap fun heap => ?_
  split
  · exact .pure 0
  refine .bind (Course.modifyHeap fun world => lenient.books world _ rfl rfl) fun _ =>
    Course.currentHeap fun heap => ?_
  dsimp only
  split
  · exact .pure 0
  refine .bind (Course.changeHeap fun world => ?_) fun callbacks => .bind (lenient.drain calls) fun _ =>
    .bind (Engine.obeys_runCallbacks calls (lenient.release calls) lenient.unraisable callbacks)
      fun _ => .pure _
  exact course.onward (lenient.toMild.clearGarbage world.host world.heap _ _)
    (course.onward (lenient.sweep world.host _ _ [] _) (lenient.books _ _ rfl rfl))

theorem charge (payload : Payload Code) : (engine.charge payload).Obeys course.discipline := by
  have counts : (engine.countAllocation payload).Obeys course.discipline := by
    unfold Engine.countAllocation
    split
    · refine .bind (Course.modifyHeap fun world => lenient.books world _ rfl rfl) fun _ =>
        Course.currentHeap fun heap => ?_
      split
      · exact .bind (lenient.collect calls) fun _ => .pure ()
      · exact .pure ()
    · exact .pure ()
  refine .bind counts fun _ => Course.currentHeap fun heap => ?_
  cases heap.tracker.charge (UInt64.ofNat payload.size) with
  | ok tracker =>
    exact .bind (Course.modifyHeap fun world => lenient.books world _ rfl rfl) fun _ => .pure _
  | error exceeded =>
    exact .bind (Course.modifyHeap fun world => lenient.books world _ rfl rfl) fun _ =>
      .bind (lenient.drain calls) fun _ => .pure _

theorem invoke (runs : ∀ code arguments, (engine.run code arguments).Obeys course.discipline)
    (function : Handle) (arguments : Arguments) :
    (engine.invoke function arguments).Obeys course.discipline := by
  have releases : (engine.releaseArguments arguments).Obeys course.discipline :=
    .forM (lenient.release calls) _
  refine .ask (fun _ _ => rfl) fun payload => ?_
  split
  · refine Course.attempt_currentHeap fun heap => ?_
    split
    · exact .act releases fun _ => .refuse _
    · exact .bind (.modifyHeap (Course.modifyHeap fun world => lenient.books world _ rfl rfl)) fun _ =>
        .ensuring (runs _ _) (Course.modifyHeap fun world => lenient.books world _ rfl rfl)
  · exact .act releases fun _ => .fail _

end Course.Lenient

end ObjectHeap
