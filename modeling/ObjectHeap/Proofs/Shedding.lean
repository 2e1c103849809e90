/-
This file says what a heap loses while no callback is due. Whatever is given up or collected, some
entries are gone afterwards, all others have forgotten them, and nothing else has changed but the
memory on the books. Unless there is more to give up than an engine has rounds, the heap is at rest
again.
-/

import ObjectHeap.Proofs.Parallels

namespace ObjectHeap

variable {Code Host α β : Type}

theorem Value.card_owns_le_one (value : Value) : value.owns.card ≤ 1 := by
  cases value <;> simp

/-- A payload that neither watches nor aims at what is gone forgets nothing. -/
theorem Payload.without_of_spared {payload : Payload Code} {gone : Handle → Bool}
    (watchers : ∀ weakref ∈ payload.watchers, gone weakref = false)
    (target : ∀ handle, payload.target? = some handle → gone handle = false) :
    payload.without gone = payload := by
  unfold without
  rw [if_neg ?_]
  · refine (Heap.mapWatchers_congr payload ?_).trans (Heap.mapWatchers_id payload)
    refine List.filter_eq_self.mpr fun weakref member => ?_
    rw [watchers weakref member]
    rfl
  · cases aimed : payload.target? with
    | none => exact Bool.false_ne_true
    | some handle =>
      rw [Option.any_some, target handle aimed]
      exact Bool.false_ne_true

namespace Heap

variable {before middle after heap : Heap Code} {outside others : Multiset Handle}
  {limbo : List Handle} {place : Handle}

/-! ### Heaps that shed entries -/

/-- These entries are gone, and all others have forgotten them. -/
def Loses (before : Heap Code) (gone : Handle → Bool) (after : Heap Code) : Prop :=
  ∀ handle, after.payload? handle =
    if gone handle then none else (before.payload? handle).map (Payload.without gone)

namespace Loses

variable {gone goneLater : Handle → Bool}

theorem nothing (same : ∀ handle, after.payload? handle = before.payload? handle) :
    before.Loses (fun _ => false) after := fun handle => by
  rw [same, if_neg Bool.false_ne_true]
  cases before.payload? handle with
  | none => rfl
  | some payload => exact congrArg some payload.without_nothing.symm

theorem trans (first : before.Loses gone middle) (second : middle.Loses goneLater after) :
    before.Loses (fun handle => gone handle || goneLater handle) after := fun handle => by
  rw [second, first]
  by_cases lost : goneLater handle
  · rw [if_pos lost, if_pos (by simp [lost])]
  by_cases missing : gone handle
  · rw [if_neg lost, if_pos missing, if_pos (by simp [missing])]
    rfl
  rw [if_neg lost, if_neg missing, if_neg (by simp [lost, missing]), Option.map_map]
  exact congrArg (Option.map · _) (funext fun payload => payload.without_without gone goneLater)

theorem forgets (loses : before.Loses gone after) : before.Forgets after := by
  refine @Heap.Forgets.of_gone Code before after (fun handle => gone handle = true) _ fun handle => ?_
  simpa using loses handle

end Loses

/-- Some entries are gone, and all others have forgotten them. -/
structure Sheds (before after : Heap Code) : Prop where
  payloads : ∃ gone : Handle → Bool, ∀ handle, after.payload? handle =
    if gone handle then none else (before.payload? handle).map (Payload.without gone)
  births : ∀ handle, after.births handle = before.births handle
  counter : after.nextCounter = before.nextCounter
  limits : after.tracker.limits = before.tracker.limits
  allocations : after.tracker.allocations = before.tracker.allocations

namespace Sheds

/-- Nothing is gone. -/
theorem of_payloads (same : ∀ handle, after.payload? handle = before.payload? handle)
    (births : ∀ handle, after.births handle = before.births handle)
    (counter : after.nextCounter = before.nextCounter) (tracker : after.tracker = before.tracker) :
    before.Sheds after where
  payloads := ⟨_, Loses.nothing same⟩
  births := births
  counter := counter
  limits := congrArg Tracker.limits tracker
  allocations := congrArg Tracker.allocations tracker

theorem refl (heap : Heap Code) : heap.Sheds heap :=
  .of_payloads (fun _ => rfl) (fun _ => rfl) rfl rfl

theorem trans (first : before.Sheds middle) (second : middle.Sheds after) : before.Sheds after where
  payloads := by
    obtain ⟨gone, early⟩ := first.payloads
    obtain ⟨goneLater, late⟩ := second.payloads
    exact ⟨_, Loses.trans early late⟩
  births handle := (second.births handle).trans (first.births handle)
  counter := second.counter.trans first.counter
  limits := second.limits.trans first.limits
  allocations := second.allocations.trans first.allocations

theorem forgets (sheds : before.Sheds after) : before.Forgets after := by
  obtain ⟨_, loses⟩ := sheds.payloads
  exact Loses.forgets loses

end Sheds

/-- What is freed when one reference is given up is shed. -/
theorem Lessens.sheds (lessens : before.Lessens place after) : before.Sheds after := by
  cases lessens with
  | counted held more =>
    exact .of_payloads (fun other => before.payload?_mapEntry_count place other (· - 1))
      (fun other => before.births_mapEntry place other _) rfl rfl
  | @freed entry cleared held last frees =>
    have meters := (cleared.meters_bury place entry.payload).trans (congrArg Heap.meters frees.books :)
    exact
      { payloads := ⟨fun other => decide (other = place), fun other => by
          rw [frees.payload?_bury other]
          simp only [decide_eq_true_eq]⟩
        births := fun other => (cleared.births_bury place entry.payload other).trans
          (frees.births other)
        counter := (congrArg Meters.nextCounter meters :)
        limits := (congrArg (fun meters => meters.tracker.limits) meters :)
        allocations := (congrArg (fun meters => meters.tracker.allocations) meters :) }

/-- The tracker forgets no limit and no allocation when it gets something back. -/
theorem creditAll_limits (tracker : Tracker) (sizes : List Nat) :
    (tracker.creditAll sizes).limits = tracker.limits ∧
      (tracker.creditAll sizes).allocations = tracker.allocations := by
  unfold Tracker.creditAll
  induction sizes generalizing tracker with
  | nil => exact ⟨rfl, rfl⟩
  | cons size rest inductionHypothesis => exact inductionHypothesis (tracker.credit _)

/-- What some of the entries weighed is given back when they are shed. -/
theorem Sheds.of_removed {removed : List Handle} {sizes : List Nat}
    (payloads : ∀ handle, after.payload? handle =
      if handle ∈ removed then none
      else (before.payload? handle).map (Payload.without fun other => decide (other ∈ removed)))
    (births : ∀ handle, after.births handle = before.births handle)
    (counter : after.nextCounter = before.nextCounter)
    (tracker : after.tracker = before.tracker.creditAll sizes) : before.Sheds after where
  payloads := ⟨fun handle => decide (handle ∈ removed), fun handle => by
    rw [payloads]
    simp only [decide_eq_true_eq]⟩
  births := births
  counter := counter
  limits := by rw [tracker, (creditAll_limits _ _).1]
  allocations := by rw [tracker, (creditAll_limits _ _).2]

theorem Collects.sheds {removed : List Handle} (collects : before.Collects outside removed after) :
    before.Sheds after :=
  .of_removed collects.payloads collects.births (congrArg Meters.nextCounter collects.meters :)
    (congrArg Meters.tracker collects.meters :)

/-- Garbage that is removed is shed. -/
theorem sheds_removeGarbage (sound : heap.Sound outside limbo) (settled : heap.pending = []) :
    heap.Sheds (heap.removeGarbage heap.garbage).2 := by
  have removes := (removes_removeGarbage sound settled).2
  have payloads := removes.payloads
  rw [isGarbage_eq] at payloads
  have meters := meters_removeGarbage sound settled
  exact .of_removed payloads removes.births (congrArg Meters.nextCounter meters :)
    (congrArg Meters.tracker meters :)

/-- Where no callback is there, none is due. -/
theorem Silent.dueCallbacks (silent : heap.Silent) : heap.dueCallbacks = [] := by
  refine List.flatMap_eq_nil_iff.mpr fun place _ => List.filterMap_eq_nil_iff.mpr fun weakref _ => ?_
  rw [silent weakref]
  exact ite_self _

/-! ### Heaps at rest -/

/-- A sound heap without callbacks, while no release is in progress and nothing waits. -/
structure AtRest (heap : Heap Code) (outside : Multiset Handle) : Prop where
  sound : heap.Sound outside []
  silent : heap.Silent
  idle : heap.releasing = false
  settled : heap.pending = []

namespace AtRest

theorem congr (rest : heap.AtRest outside) (same : outside = others) : heap.AtRest others :=
  same ▸ rest

/-- Books that are kept beside the slots are of no account. -/
theorem of_slots (rest : before.AtRest outside) (slots : after.slots = before.slots)
    (free : after.free = before.free) (pool : after.pool = before.pool)
    (pending : after.pending = before.pending) (releasing : after.releasing = before.releasing) :
    after.AtRest outside where
  sound := rest.sound.of_slots slots free pool (by rw [pending])
  silent := fun weakref => (callback?_congr (payload?_congr (occupant?_congr slots weakref))).trans
    (rest.silent weakref)
  idle := releasing.trans rest.idle
  settled := pending.trans rest.settled

/-- One more reference is taken to what is there. -/
theorem increment (rest : heap.AtRest outside) (live : heap.isLive place) :
    (heap.increment place).AtRest (outside + {place}) where
  sound := rest.sound.increment live
  silent weakref := (callback?_congr (heap.payload?_increment place weakref)).trans
    (rest.silent weakref)
  idle := rest.idle
  settled := rest.settled

/-- A payload that was owned is placed in an empty slot. -/
theorem admits {payload : Payload Code} (rest : before.AtRest (outside + payload.owns))
    (admits : before.Admits payload place after) (founded : payload.Founded before)
    (unwatched : payload.watchers = []) (aimless : payload.target? = none)
    (quiet : callbackOf payload = none) : after.AtRest (outside + {place}) where
  sound := admits.sound rest.sound founded unwatched aimless
  silent := admits.silent rest.silent quiet
  idle := admits.releasing.trans rest.idle
  settled := admits.pending.trans rest.settled

/-- A payload grows. -/
theorem exchange {payload grown : Payload Code} {mine : Multiset Handle}
    (rest : heap.AtRest (outside + mine)) (held : heap.payload? place = some payload)
    (grows : payload.Grows grown) (traded : grown.owns + others = payload.owns + mine) :
    (heap.mapPayload place fun _ => grown).AtRest (outside + others) where
  sound := rest.sound.exchange (fun _ => rest.settled) held grows traded
  silent weakref := by
    unfold callback?
    rw [payload?_grown held]
    split
    · exact grows.callback.trans (rest.silent.callbackOf held)
    · exact rest.silent weakref
  idle := rest.idle
  settled := rest.settled

end AtRest

end Heap

/-! ### Actions that shed entries -/

/-- An action sheds entries and leaves the heap in order, or it has more to give up than there are
rounds. -/
inductive Action.Clears (rounds work : Nat) (order : Heap Code → Prop) (before : World Code Host)
    (action : Action Code Host α) : Prop
  | sheds {answer : α} {after : Heap Code}
    (ended : action before = .ok (answer, { before with heap := after }))
    (sheds : before.heap.Sheds after) (ordered : order after) :
    Action.Clears rounds work order before action
  | exhausts (stopped : action before = .error .exhausted) (more : rounds < work) :
    Action.Clears rounds work order before action

namespace Action.Clears

variable {rounds work : Nat} {order : Heap Code → Prop} {before : World Code Host}
  {action : Action Code Host α}

/-- Where there are enough rounds, the action comes to its end. -/
theorem exists_ok (clears : action.Clears rounds work order before) (enough : work ≤ rounds) :
    ∃ answer after, action before = .ok (answer, { before with heap := after }) ∧
      before.heap.Sheds after ∧ order after := by
  cases clears with
  | sheds ended sheds ordered => exact ⟨_, _, ended, sheds, ordered⟩
  | exhausts _ more => omega

/-- What has come to its end had rounds enough. -/
theorem of_ok (clears : action.Clears rounds work order before) {answer : α}
    {after : World Code Host} (ended : action before = .ok (answer, after)) :
    after.host = before.host ∧ before.heap.Sheds after.heap ∧ order after.heap := by
  cases clears with
  | sheds done sheds ordered =>
    cases done.symm.trans ended
    exact ⟨rfl, sheds, ordered⟩
  | exhausts stopped _ => cases stopped.symm.trans ended

/-- An action that goes on after a part that ended. -/
theorem after {first : Action Code Host α} {next : α → Action Code Host β} {order : Heap Code → Prop}
    {answer : α} {between : Heap Code}
    (ended : first before = .ok (answer, { before with heap := between }))
    (began : before.heap.Sheds between)
    (rest : (next answer).Clears rounds work order { before with heap := between }) :
    (first >>= next).Clears rounds work order before := by
  cases rest with
  | sheds done sheds ordered =>
    exact .sheds ((Action.bind_of_ok ended).trans done) (began.trans sheds) ordered
  | exhausts stopped more => exact .exhausts ((Action.bind_of_ok ended).trans stopped) more

/-- An action whose answer is of no account. -/
theorem discard (clears : action.Clears rounds work order before) (answer : β) :
    (action >>= fun _ => pure answer).Clears rounds work order before := by
  cases clears with
  | sheds ended sheds ordered => exact .sheds (Action.bind_of_ok ended) sheds ordered
  | exhausts stopped more => exact .exhausts (Action.bind_eq_error.mpr (.inl stopped)) more

end Action.Clears

namespace Engine

variable (engine : Engine Code Host) {before : World Code Host} {outside : Multiset Handle}

/-- The loop gives up what waits. -/
theorem clears_releaseAll (rounds : Nat) (sound : before.heap.Sound outside [])
    (silent : before.heap.Silent) (busy : before.heap.releasing = true) :
    (engine.releaseAll rounds).Clears rounds (before.heap.pending.length + before.heap.edges.length)
      (fun after => after.Sound outside [] ∧ after.Silent ∧ after.pending = []) before := by
  induction rounds generalizing before with
  | zero =>
    cases pending : before.heap.pending with
    | nil =>
      exact .sheds (engine.releaseAll_of_settled 0 pending) (.refl _) ⟨sound, silent, pending⟩
    | cons place waiting =>
      refine .exhausts ?_ (by rw [List.length_cons]; omega)
      exact Action.bind_of_ok (dequeue_of_cons pending)
  | succ rounds inductionHypothesis =>
    cases pending : before.heap.pending with
    | nil =>
      exact .sheds (engine.releaseAll_of_settled (rounds + 1) pending) (.refl _)
        ⟨sound, silent, pending⟩
    | cons place waiting =>
      let taken : World Code Host := { before with heap := { before.heap with pending := waiting } }
      have owned : taken.heap.Sound (outside + {place}) [] := sound.of_slots rfl rfl rfl (by
        rw [pending, ← Multiset.cons_coe, ← Multiset.singleton_add]
        abel)
      have quiet : taken.heap.Silent := silent
      obtain ⟨later, released, lessens, done⟩ := engine.exists_lessens owned busy
        fun _ _ _ weakref _ => quiet weakref
      have shed : before.heap.Sheds later :=
        (Heap.Sheds.of_payloads (fun _ => rfl) (fun _ => rfl) rfl rfl :
          before.heap.Sheds taken.heap).trans lessens.sheds
      -- What an entry referred to waits now, so a round takes one off the work and adds nothing.
      have work : later.pending.length + later.edges.length =
        waiting.length + before.heap.edges.length := lessens.length_eq quiet
      have going : engine.releaseAll (rounds + 1) before =
          engine.releaseAll rounds { before with heap := later } :=
        (Action.bind_of_ok (dequeue_of_cons pending)).trans (Action.bind_of_ok released)
      have remaining : ({ before with heap := later } : World Code Host).heap.Sound outside [] := done
      cases inductionHypothesis remaining (lessens.forgets.silent quiet) (lessens.releasing.trans busy) with
      | sheds ended sheds ordered => exact .sheds (going.trans ended) (shed.trans sheds) ordered
      | exhausts stopped more =>
        refine .exhausts (going.trans stopped) ?_
        rw [List.length_cons]
        have more : rounds < later.pending.length + later.edges.length := more
        omega

/-- What waits is given up. -/
theorem clears_drain (sound : before.heap.Sound outside []) (silent : before.heap.Silent)
    (idle : before.heap.releasing = false) :
    engine.drain.Clears engine.rounds (before.heap.pending.length + before.heap.edges.length)
      (fun after => after.AtRest outside) before := by
  let started : World Code Host := { before with heap := { before.heap with releasing := true } }
  have begun : started.heap.Sound outside [] := sound.of_slots rfl rfl rfl rfl
  have quiet : started.heap.Silent := silent
  cases engine.clears_releaseAll engine.rounds begun quiet rfl with
  | @sheds answer after ended sheds ordered =>
    obtain ⟨done, silentAfter, empty⟩ := ordered
    let rested : Heap Code := { after with releasing := false }
    have drained : engine.drain before = .ok ((), { before with heap := rested }) :=
      engine.drain_of_releaseAll idle ended
    have shed : before.heap.Sheds rested :=
      ⟨sheds.payloads, sheds.births, sheds.counter, sheds.limits, sheds.allocations⟩
    exact .sheds drained shed ⟨done.of_slots rfl rfl rfl rfl, silentAfter, rfl, empty⟩
  | exhausts stopped more =>
    refine .exhausts (Action.bind_eq_error.mpr (.inr ⟨before.heap, before, rfl, ?_⟩)) more
    rw [if_neg (by rw [idle]; exact Bool.false_ne_true)]
    exact Action.bind_eq_error.mpr (.inr ⟨(), started, rfl, Action.bind_eq_error.mpr (.inl stopped)⟩)

/-- A value is given up. -/
theorem clears_release {value : Value} (rest : before.heap.AtRest (outside + value.owns)) :
    (engine.release value).Clears engine.rounds (before.heap.edges.length + value.owns.card)
      (fun after => after.AtRest outside) before := by
  have nothing (owns : value.owns = 0) (still : engine.release value = pure ()) :
      (engine.release value).Clears engine.rounds (before.heap.edges.length + value.owns.card)
        (fun after => after.AtRest outside) before := by
    rw [still]
    exact .sheds rfl (.refl _) (rest.congr (by rw [owns, add_zero]))
  cases value with
  | ref place =>
    let waits : World Code Host := { before with heap := { before.heap with pending := [place] } }
    have same : engine.release (.ref place) before = engine.drain waits := by
      rw [engine.release_ref, rest.settled]
    have sound : waits.heap.Sound outside [] := rest.sound.of_slots rfl rfl rfl (by
      rw [rest.settled]
      show ({place} : Multiset Handle) + outside = 0 + (outside + {place})
      abel)
    cases engine.clears_drain sound rest.silent rest.idle with
    | sheds ended sheds ordered =>
      exact .sheds (same.trans ended)
        ⟨sheds.payloads, sheds.births, sheds.counter, sheds.limits, sheds.allocations⟩ ordered
    | exhausts stopped more => exact .exhausts (same.trans stopped) ((add_comm _ _).trans_gt more)
  | nil => exact nothing rfl rfl
  | bool value => exact nothing rfl rfl
  | int value => exact nothing rfl rfl

/-- Cycles are collected. -/
theorem clears_collect (rest : before.heap.AtRest outside) :
    engine.collect.Clears engine.rounds before.heap.edges.length
      (fun after => after.AtRest outside) before := by
  by_cases enough : before.heap.edges.length ≤ engine.rounds
  · obtain ⟨removed, after, ended, collects⟩ :=
      engine.exists_collects rest.sound rest.idle rest.settled rest.silent enough
    exact .sheds ended collects.sheds
      ⟨collects.sound, collects.forgets.silent rest.silent, collects.idle, collects.settled⟩
  -- Even so there may be little to give up.
  have began : before.heap.Sheds before.collecting.heap :=
    .of_payloads (fun _ => rfl) (fun _ => rfl) rfl rfl
  by_cases clean : before.collecting.heap.garbage = []
  · exact .sheds (collect_of_clean rest.idle clean) began (rest.of_slots rfl rfl rfl rfl rfl)
  have sound : before.collecting.heap.Sound outside [] := rest.sound.of_slots rfl rfl rfl rfl
  have silent : before.collecting.heap.Silent := rest.silent
  have quiet : before.collecting.heap.dueCallbacks = [] := silent.dueCallbacks
  obtain ⟨due, removes⟩ := Heap.removes_removeGarbage sound rest.settled
  have removed : before.collecting.heap.Removes outside [] before.collected.heap := removes
  have shed : before.heap.Sheds before.collected.heap :=
    began.trans (Heap.sheds_removeGarbage sound rest.settled)
  have going := engine.collect_of_garbage rest.idle clean
  rw [due, quiet] at going
  have left : before.collected.heap.Sound outside [] := removed.sound.congr (by
    rw [quiet]
    exact add_zero outside)
  cases engine.clears_drain left
      (shed.forgets.silent rest.silent) (removed.releasing.trans rest.idle) with
  | sheds ended sheds ordered =>
    exact .sheds (going.trans (Action.bind_of_ok ended)) (shed.trans sheds) ordered
  | exhausts stopped more =>
    exact .exhausts (going.trans (Action.bind_eq_error.mpr (.inl stopped))) (by omega)

/-! ### Charges -/

/-- A container is counted, and cycles are collected when that is due. -/
theorem clears_countAllocation (payload : Payload Code) (rest : before.heap.AtRest outside) :
    (engine.countAllocation payload).Clears engine.rounds before.heap.edges.length
      (fun after => after.AtRest outside) before := by
  unfold countAllocation
  by_cases container : payload.isContainer
  · let counted : World Code Host :=
      { before with heap :=
        { before.heap with sinceCollection := before.heap.sinceCollection + 1 } }
    have began : before.heap.Sheds counted.heap :=
      .of_payloads (fun _ => rfl) (fun _ => rfl) rfl rfl
    have still : counted.heap.AtRest outside := rest.of_slots rfl rfl rfl rfl rfl
    rw [if_pos container]
    have noted : (modifyHeap fun heap => { heap with sinceCollection := heap.sinceCollection + 1 } :
        Action Code Host Unit) before = .ok ((), counted) := rfl
    refine .after noted began (.after rfl (.refl _) ?_)
    split
    · exact (engine.clears_collect still).discard ()
    · exact .sheds rfl (.refl _) still
  · rw [if_neg container]
    exact .sheds rfl (.refl _) rest

/-- A payload that is refused gives up what it owned. -/
theorem clears_refusal (payload : Payload Code)
    (rest : before.heap.AtRest (outside + payload.owns)) :
    engine.drain.Clears engine.rounds (before.heap.edges.length + payload.owns.card)
      (fun after => after.AtRest outside)
      { before with heap :=
        { before.heap with pending := payload.leavings before.heap.pending } } := by
  let left : World Code Host :=
    { before with heap := { before.heap with pending := payload.leavings before.heap.pending } }
  have owned : (left.heap.pending : Multiset Handle) = payload.owns := by
    rw [payload.leavings_eq, rest.settled]
    exact add_zero _
  have sound : left.heap.Sound outside [] := rest.sound.of_slots rfl rfl rfl (by
    rw [owned, rest.settled]
    show _ = 0 + (outside + payload.owns)
    abel)
  have waiting : left.heap.pending.length = payload.owns.card := congrArg Multiset.card owned
  cases engine.clears_drain sound rest.silent rest.idle with
  | sheds ended sheds ordered => exact .sheds ended sheds ordered
  | exhausts stopped more => exact .exhausts stopped (by rwa [waiting, add_comm] at more)

end Engine

end ObjectHeap
