/-
This file shows that whatever happens in the course of an operation, the heap is at the end as ready
for the next one as it was before: the stack of releases is worked off unless that is going on
outside, in which case nothing is torn down in between, and the depth of calls is what it was. It is
said of every operation that code of the host asks for, however deep it is nested, and of every body
that runs, since hosts are watched. Within the loop that works releases off less holds than between
operations; there are two courses, one for either.
-/

import ObjectHeap.Proofs.Backlog
import ObjectHeap.Proofs.Oversight
import ObjectHeap.Proofs.Restoration

namespace ObjectHeap

variable {Code Host α : Type}

/-! ### Order -/

section

variable (limits : Limits)

/-- Slots have their homes, and the depth of calls is the number of bodies that run, which is within
the limit. -/
structure Sight.InOrder (sight : Sight Code) : Prop where
  agreed : sight.heap.tracker.limits = limits
  housed : ∃ limbo, sight.heap.Housed limbo
  depth : sight.heap.callDepth = sight.running
  bounded : ∀ limit, limits.maxRecursionDepth = some limit → sight.running ≤ limit.toNat

/-- Beside, nothing waits for its release unless releases are being worked off. -/
structure Sight.InStep (sight : Sight Code) : Prop extends sight.InOrder limits where
  clean : sight.heap.releasing = false → sight.heap.pending = []

/-- An operation or a body that began and ended in step, and left the heap ready for the next one. -/
structure Span.InStep (span : Span Code) : Prop where
  begun : span.begun.InStep limits
  ended : span.ended.InStep limits
  restores : span.begun.heap.Restores span.ended.heap

variable {limits}

/-- What is in order stays so as long as no slot loses its home. -/
theorem Sight.InOrder.preserves {before after : Sight Code} (inOrder : before.InOrder limits)
    (preserves : before.heap.Preserves after.heap) (running : after.running = before.running) :
    after.InOrder limits where
  agreed := preserves.limits.trans inOrder.agreed
  housed := inOrder.housed.imp fun _ housed => preserves.housed housed
  depth := by rw [preserves.callDepth, running, inOrder.depth]
  bounded := running ▸ inOrder.bounded

/-- A call is refused exactly if as many bodies run as may run. -/
theorem Sight.InOrder.atDepthLimit_iff {sight : Sight Code} (inOrder : sight.InOrder limits) :
    sight.heap.AtDepthLimit ↔
      ∃ limit, limits.maxRecursionDepth = some limit ∧ sight.running = limit.toNat := by
  unfold Heap.AtDepthLimit
  rw [inOrder.agreed, inOrder.depth]
  refine exists_congr fun limit => and_congr_right fun limited => ?_
  have bounded := inOrder.bounded limit limited
  have small : sight.running < 2 ^ 64 := bounded.trans_lt limit.toNat_lt
  rw [UInt64.le_iff_toNat_le, UInt64.toNat_ofNat_of_lt' small]
  exact ⟨fun reached => Nat.le_antisymm bounded reached, fun same => same.ge⟩

end

namespace World

variable (limits : Limits)

/-- A world in order. All that was kept of the run was in step. -/
structure InOrder (world : World Code (Watched Code Host)) : Prop where
  now : Sight.InOrder limits { heap := world.heap, running := world.host.running }
  spans : ∀ span ∈ world.host.spans, span.InStep limits
  room : world.host.room = none

/-- A world in step. -/
structure InStep (world : World Code (Watched Code Host)) : Prop extends world.InOrder limits where
  clean : world.heap.releasing = false → world.heap.pending = []

variable {limits} {world : World Code (Watched Code Host)} {heap : Heap Code}

theorem InOrder.sight_eq (inOrder : world.InOrder limits) :
    world.host.sight world.heap = { heap := world.heap, running := world.host.running } := by
  unfold Watched.sight Watched.shown
  rw [inOrder.room]

theorem InStep.sight (inStep : world.InStep limits) : (world.host.sight world.heap).InStep limits := by
  rw [inStep.sight_eq]
  exact ⟨inStep.now, inStep.clean⟩

theorem InOrder.change (inOrder : world.InOrder limits) (preserves : world.heap.Preserves heap) :
    InOrder limits { world with heap } :=
  ⟨inOrder.now.preserves preserves rfl, inOrder.spans, inOrder.room⟩

theorem InStep.change (inStep : world.InStep limits) (restores : world.heap.Restores heap)
    (pending : heap.pending = world.heap.pending) : InStep limits { world with heap } where
  toInOrder := inStep.toInOrder.change restores.toPreserves
  clean idle := pending.trans (inStep.clean (restores.releasing.symm.trans idle))

end World

/-! ### Two courses -/

namespace Course

variable (limits : Limits)

/-- The course within the loop that works releases off. References wait there, and slots may be
vacated. -/
def working : Course Code (Watched Code Host) where
  leads before after := before.heap.releasing = true → before.InOrder limits → after.InOrder limits ∧
    before.heap.Preserves after.heap ∧ after.host.running = before.host.running
  still world _ inOrder := ⟨inOrder, .refl _, rfl⟩
  onward first second busy inOrder := by
    obtain ⟨between, preserves, running⟩ := first busy inOrder
    obtain ⟨after, preservesLater, runningLater⟩ := second (preserves.releasing.trans busy) between
    exact ⟨after, preserves.trans preservesLater, runningLater.trans running⟩
  retain {world handle} _ _ inOrder :=
    have restores := Heap.Restores.mapEntry world.heap handle _
    ⟨inOrder.change restores.toPreserves, restores.toPreserves, rfl⟩

/-- The course of operations, and of the code of the host. -/
def restoring : Course Code (Watched Code Host) where
  leads before after := before.InStep limits → after.InStep limits ∧
    before.heap.Restores after.heap ∧ after.host.running = before.host.running
  still world inStep := ⟨inStep, .refl _, rfl⟩
  onward first second inStep := by
    obtain ⟨between, restores, running⟩ := first inStep
    obtain ⟨after, restoresLater, runningLater⟩ := second between
    exact ⟨after, restores.trans restoresLater, runningLater.trans running⟩
  retain {world handle} _ inStep :=
    have restores := Heap.Restores.mapEntry world.heap handle _
    ⟨inStep.change restores rfl, restores, rfl⟩

variable {limits} {before after world : World Code (Watched Code Host)} {heap : Heap Code}

end Course

/-! ### Releases -/

/-- An action works within the loop, and at last the slot of an entry comes home. -/
def Action.Returns (limits : Limits) (handle : Handle) (isMethod : Bool)
    (action : Action Code (Watched Code Host) Unit) : Prop :=
  ∀ ⦃before after⦄, action before = .ok ((), after) →
    ∃ between, (Course.working limits).leads before between ∧
      after = { between with heap := between.heap.recycle handle isMethod }

namespace Action.Returns

variable {limits : Limits} {handle : Handle} {isMethod : Bool}

theorem recycle : Action.Returns limits handle isMethod
    (modifyHeap (·.recycle handle isMethod) : Action Code (Watched Code Host) Unit) := by
  intro before after ended
  cases ended
  exact ⟨before, (Course.working limits).still before, rfl⟩

theorem bind {first : Action Code (Watched Code Host) α}
    {next : α → Action Code (Watched Code Host) Unit}
    (begins : first.Obeys (Course.working limits).discipline)
    (rest : ∀ answer, (next answer).Returns limits handle isMethod) :
    (first >>= next).Returns limits handle isMethod := by
  intro before after ended
  obtain ⟨answer, _, begun, going⟩ := Action.bind_eq_ok.mp ended
  obtain ⟨between, leads, same⟩ := rest answer going
  exact ⟨between, (Course.working limits).onward (begins begun) leads, same⟩

end Action.Returns

namespace Course

variable (limits : Limits)

end Course

namespace Engine

variable {engine : Engine Code (Watched Code Host)} {limits : Limits}
  {before after : World Code (Watched Code Host)} {handle : Handle}
  (calls : ∀ callback arguments,
    (engine.callBack callback arguments).Obeys (Course.restoring limits).discipline)

include calls

end Engine

/-! ### Calls -/

namespace World

/-- A world in which one more body runs. -/
def entered (world : World Code (Watched Code Host)) : World Code (Watched Code Host) :=
  { world with host := world.host.starting }

variable {limits : Limits} {world : World Code (Watched Code Host)}

/-- A call that is not refused may start. -/
theorem InStep.enter (inStep : world.InStep limits) (room : ¬ world.heap.AtDepthLimit) :
    InStep limits (World.entered
      { world with heap := { world.heap with callDepth := world.heap.callDepth + 1 } }) where
  now :=
    { agreed := inStep.now.agreed
      housed := inStep.now.housed.imp fun _ housed => housed.of_slots rfl rfl rfl
      depth := congrArg (· + 1) inStep.now.depth
      bounded := fun limit limited => Nat.lt_of_le_of_ne (inStep.now.bounded limit limited) fun full =>
        room (inStep.now.atDepthLimit_iff.mpr ⟨limit, limited, full⟩) }
  spans := inStep.spans
  room := inStep.room
  clean := inStep.clean

/-- A call comes to its end. -/
theorem InStep.leave (inStep : world.entered.InStep limits) :
    InStep limits { world with heap := { world.heap with callDepth := world.heap.callDepth - 1 } } where
  now :=
    { agreed := inStep.now.agreed
      housed := inStep.now.housed.imp fun _ housed => housed.of_slots rfl rfl rfl
      depth := Nat.sub_eq_of_eq_add inStep.now.depth
      bounded := fun limit limited => (Nat.le_succ _).trans (inStep.now.bounded limit limited) }
  spans := inStep.spans
  room := inStep.room
  clean := inStep.clean

end World

/-- What is expected of the body of a function: as long as it runs, it counts. -/
def Attempt.Counts (limits : Limits) (body : Attempt Code (Watched Code Host) Value) : Prop :=
  ∀ ⦃before outcome after⦄, body.run before = .ok (outcome, after) →
    (Course.restoring limits).leads before.entered after.entered

namespace Engine

variable {engine : Engine Code (Watched Code Host)} {limits : Limits}
  (runs : ∀ code arguments, (engine.run code arguments).Counts limits)
  (calls : ∀ callback arguments,
    (engine.callBack callback arguments).Obeys (Course.restoring limits).discipline)

include runs calls

end Engine

/-! ### Runs -/

namespace Watched

variable {limits : Limits} {before after : World Code (Watched Code Host)}

end Watched

namespace Program

variable {limits : Limits} {engine : Engine Code (Watched Code Host)}
  {before after : World Code (Watched Code Host)} {outcome : Except Error Value}
  (obeys : engine.Obeys (Course.restoring limits).discipline)

include obeys

end Program

/-- As long as the heap sees to the limit, the watch lets every body run. -/
theorem Attempt.Counts.guarded {limits : Limits} {engine : Engine Code (Watched Code Host)} {code : Code}
    {arguments : Arguments} (counts : (engine.run code arguments).Counts limits) :
    (engine.guarded.run code arguments).Counts limits := by
  intro before outcome after ended inStep
  obtain ⟨heap, host, running, spans, room⟩ := before
  have free : room = none := inStep.room
  cases free
  exact counts ended inStep

namespace World

end World

namespace Engine

end Engine

end ObjectHeap
