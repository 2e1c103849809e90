/-
This file shows that code which runs in a release cannot tell what waits for the release to go on.
What such code gives up goes on top of the stack, nothing is taken off the stack meanwhile, and no
collection runs, however many allocations were counted. So an action does the same on top of any
backlog, and leaves the backlog alone. The rules follow the shape of actions, and lead up to engines:
whatever code cannot tell by itself, it cannot find out through calls either.
-/

import ObjectHeap.Proofs.Calm
import ObjectHeap.Proofs.Indifference

namespace ObjectHeap

variable {Code Host α β : Type}

/-! ### Heaps on top of a backlog -/

/-- What a release has left to do when it calls code of the host, and how many allocations were
counted before, as far as they do not concern the code. -/
structure Backlog where
  waiting : List Handle
  counted : UInt64

namespace Heap

/-- A heap with more references beneath those that wait in it, and with a higher count. -/
def atop (heap : Heap Code) (backlog : Backlog) : Heap Code :=
  { heap with
    pending := heap.pending ++ backlog.waiting
    sinceCollection := heap.sinceCollection + backlog.counted }

/-- Changes that have nothing to do with what the heap keeps aside are made on top of a backlog as they
are made alone. -/
theorem Indifferent.atop {change : Heap Code → α × Heap Code} (indifferent : Indifferent change)
    (heap : Heap Code) (backlog : Backlog) :
    change (heap.atop backlog) = ((change heap).1, (change heap).2.atop backlog) :=
  (indifferent.beside heap (heap.atop backlog).aside).trans
    (congrArg (fun last => ((change heap).1, last.atop backlog)) (indifferent.keeps heap))

end Heap

def World.atop (world : World Code Host) (backlog : Backlog) : World Code Host :=
  { world with heap := world.heap.atop backlog }

/-- The world in which a release is in progress, or in which none is. -/
def World.setReleasing (world : World Code Host) (busy : Bool) : World Code Host :=
  { world with heap := { world.heap with releasing := busy } }

theorem World.setReleasing_self {world : World Code Host} {busy : Bool}
    (already : world.heap.releasing = busy) : world.setReleasing busy = world :=
  congrArg (fun busy => world.setReleasing busy) already.symm

/-- The world in which one reference waits. -/
def World.leaving (world : World Code Host) (handle : Handle) : World Code Host :=
  { world with heap := { world.heap with pending := [handle] } }

/-- The first one of the references that wait is on top of the others. -/
theorem World.atop_cons {world : World Code Host} {handle : Handle} {rest : List Handle}
    {counted : UInt64} (settled : world.heap.pending = []) :
    world.atop { waiting := handle :: rest, counted } =
      (world.leaving handle).atop { waiting := rest, counted } := by
  unfold World.atop Heap.atop
  rw [settled]
  rfl

/-! ### Actions that cannot tell -/

/-- While a release is in progress, an action keeps it in progress, and does the same on top of any
backlog. -/
def Action.Oblivious (action : Action Code Host α) : Prop :=
  ∀ backlog : Backlog, action.Commutes (fun world => world.heap.releasing = true)
    (fun world => world.heap.releasing = true) (·.atop backlog)

namespace Action.Oblivious

variable {action : Action Code Host α} (oblivious : action.Oblivious) {before after : World Code Host}
  {answer : α}

include oblivious

theorem busy (busy : before.heap.releasing = true) (ended : action before = .ok (answer, after)) :
    after.heap.releasing = true :=
  (oblivious { waiting := [], counted := 0 }).leads busy ended

theorem atop (backlog : Backlog) (busy : before.heap.releasing = true) :
    action (before.atop backlog) = (action before).map fun ended => (ended.1, ended.2.atop backlog) :=
  (oblivious backlog).same busy

end Action.Oblivious

theorem Action.Oblivious.change {change : Heap Code → α × Heap Code}
    (indifferent : Heap.Indifferent change) :
    (changeHeap change : Action Code Host α).Oblivious := by
  refine fun backlog => .changeHeap (fun world busy => (indifferent.releasing world.heap).trans busy)
    (fun world _ => ?_) fun world _ => ?_
  · exact (congrArg Prod.fst (indifferent.atop world.heap backlog) :)
  · exact congrArg (fun changed => ({ world with heap := changed.2 } : World Code Host))
      (indifferent.atop world.heap backlog)

/-- The discipline of actions that cannot tell what they work on top of. -/
def Discipline.oblivious : Discipline Code Host :=
  .commuting (fun backlog world _ => ⟨(world.atop backlog).heap.aside, rfl⟩) Action.Oblivious.change

theorem Discipline.pliant_oblivious : (Discipline.oblivious : Discipline Code Host).Pliant :=
  Discipline.pliant_commuting _ _ fun _ backlog => .modifyHeap (fun _ busy => busy)
    fun world _ => congrArg (fun pending => ({ world with heap :=
      { world.heap.atop backlog with pending } } : World Code Host)) (List.append_assoc _ _ _).symm

/-- What is looked at in the heap is the same on top of a backlog. -/
theorem Attempt.Obeys.lookAtop {next : Heap Code → Attempt Code Host β}
    (same : ∀ heap backlog, next (heap.atop backlog) = next heap)
    (rest : ∀ heap, (next heap).Obeys .oblivious) :
    (ObjectHeap.currentHeap >>= next).Obeys .oblivious :=
  .ofCurrentHeap fun backlog => .currentHeap
    (fun world _ => congrArg Attempt.run (same world.heap backlog)) fun world _ => rest world.heap backlog

/-- An engine whose code cannot tell what it works on top of. -/
structure Engine.Oblivious (engine : Engine Code Host) : Prop where
  run : ∀ code arguments, (engine.run code arguments).Obeys .oblivious
  callBack : ∀ callback arguments, (engine.callBack callback arguments).Obeys .oblivious

/-! ### Operations that cannot tell -/

namespace Engine

variable {engine : Engine Code Host}

theorem Oblivious.releaseNext (oblivious : engine.Oblivious) (handle : Handle) :
    (engine.releaseNext handle).Oblivious :=
  Discipline.pliant_oblivious.releaseNext oblivious.callBack handle

/-- While a release is in progress, another one joins it. -/
theorem oblivious_drain : engine.drain.Oblivious := fun backlog =>
  { leads := fun busy ended => by
      cases (engine.drain_of_busy busy).symm.trans ended
      exact busy
    same := fun {before} busy => by
      have still : (before.atop backlog).heap.releasing = true := busy
      rw [engine.drain_of_busy busy, engine.drain_of_busy still]
      rfl }

/-- While a release is in progress, no collection runs, whatever was counted. -/
theorem oblivious_countAllocation (payload : Payload Code) :
    (engine.countAllocation payload).Oblivious := fun backlog =>
  { leads := fun busy ended => by
      cases (engine.countAllocation_of_busy busy payload).symm.trans ended
      exact busy
    same := fun {before} busy => by
      have still : (before.atop backlog).heap.releasing = true := busy
      rw [engine.countAllocation_of_busy busy payload, engine.countAllocation_of_busy still payload]
      have counted : (before.heap.sinceCollection + backlog.counted) +
          (if payload.isContainer then 1 else 0) =
        (before.heap.sinceCollection + if payload.isContainer then 1 else 0) + backlog.counted :=
        add_right_comm _ _ _
      exact congrArg (fun count => Except.ok ((), ({ before with heap :=
        { before.heap.atop backlog with sinceCollection := count } } : World Code Host))) counted }

theorem oblivious_release (value : Value) : (engine.release value).Oblivious :=
  Discipline.pliant_oblivious.release oblivious_drain value

theorem oblivious_releaseList (values : List Value) : (engine.releaseList values).Obeys .oblivious :=
  .forM oblivious_release values

theorem Oblivious.invoke (oblivious : engine.Oblivious) (function : Handle) (arguments : Arguments) :
    (engine.invoke function arguments).Obeys .oblivious := by
  have refused (refusal : Refusal) :
      (engine.refuseArguments arguments refusal : Attempt Code Host Value).Obeys .oblivious :=
    .act (oblivious_releaseList _) fun _ => .refuse refusal
  have calls (change : Nat → Nat) :
      (modifyHeap fun heap => { heap with callDepth := change heap.callDepth } :
        Action Code Host Unit).Obeys .oblivious :=
    fun _ => Action.Commutes.modifyHeap (fun _ busy => busy) fun _ _ => rfl
  refine .ask (fun _ _ => rfl) fun payload => ?_
  split
  · refine .lookAtop (fun _ _ => rfl) fun heap => ?_
    split
    · exact refused _
    · exact .bind (.modifyHeap (calls (· + 1))) fun _ => .ensuring (oblivious.run _ _) (calls (· - 1))
  · exact .act (oblivious_releaseList _) fun _ => .fail _

/-- While a release is in progress, nothing is collected. -/
theorem oblivious_collect : engine.collect.Oblivious := fun backlog =>
  { leads := fun busy ended => by
      cases (engine.collect_of_busy busy).symm.trans ended
      exact busy
    same := fun {before} busy => by
      have still : (before.atop backlog).heap.releasing = true := busy
      rw [engine.collect_of_busy busy, engine.collect_of_busy still]
      rfl }

/-- Code that cannot tell finds nothing out by any operation. -/
theorem Oblivious.obeys (oblivious : engine.Oblivious) :
    engine.Obeys .oblivious :=
  Discipline.pliant_oblivious.obeys oblivious_drain oblivious_countAllocation oblivious.invoke
    oblivious_collect

/-- Code that cannot tell by itself cannot find out by calling code back either. -/
theorem oblivious_ofRounds {run : Engine Code Host → Code → Arguments → Attempt Code Host Value}
    (oblivious : ∀ engine, engine.Oblivious →
      ∀ code arguments, (run engine code arguments).Obeys .oblivious)
    (rounds : Nat) : (ofRounds run rounds).Oblivious := by
  induction rounds with
  | zero =>
    exact ⟨fun _ _ => .ofAction (Discipline.oblivious.stop _),
      fun _ _ => .ofAction (Discipline.oblivious.stop _)⟩
  | succ rounds inductionHypothesis =>
    exact ⟨fun code arguments => oblivious _ inductionHypothesis code arguments,
      fun callback arguments => inductionHypothesis.obeys.call callback arguments⟩

end Engine

/-! ### Runs with fewer rounds -/

/-- A run comes to the same as another one, unless it is out of rounds before. -/
def Approximates (run other : Except Fault α) : Prop :=
  run = .error .exhausted ∨ run = other

namespace Approximates

variable {run other last : Except Fault α} {next more : α → Except Fault β}

theorem refl (run : Except Fault α) : Approximates run run := Or.inr rfl

theorem trans (first : Approximates run other) (second : Approximates other last) :
    Approximates run last := by
  rcases first with out | rfl
  · exact Or.inl out
  · exact second

theorem bind (first : Approximates run other)
    (rest : ∀ answer, Approximates (next answer) (more answer)) :
    Approximates (run >>= next) (other >>= more) := by
  rcases first with rfl | rfl
  · exact Or.inl rfl
  · cases run with
    | error fault => exact .refl _
    | ok answer => exact rest answer

theorem map (first : Approximates run other) (change : α → β) :
    Approximates (run.map change) (other.map change) := by
  rcases first with rfl | rfl
  · exact Or.inl rfl
  · exact .refl _

end Approximates

namespace Engine

variable {engine : Engine Code Host} {world : World Code Host} {handle : Handle} {waiting : List Handle}

/-- A round of the loop. -/
theorem releaseAll_succ_of_cons (pending : world.heap.pending = handle :: waiting) (rounds : Nat) :
    engine.releaseAll (rounds + 1) world =
      engine.releaseNext handle { world with heap := { world.heap with pending := waiting } } >>=
        fun ended => engine.releaseAll rounds ended.2 :=
  (Action.bind_of_ok (dequeue_of_cons pending)).trans rfl

theorem releaseAll_zero_of_cons (pending : world.heap.pending = handle :: waiting) :
    engine.releaseAll 0 world = .error .exhausted :=
  (Action.bind_of_ok (dequeue_of_cons pending)).trans rfl

theorem releaseAll_more (rounds : Nat) (world : World Code Host) :
    Approximates (engine.releaseAll rounds world) (engine.releaseAll (rounds + 1) world) := by
  induction rounds generalizing world with
  | zero =>
    cases pending : world.heap.pending with
    | nil =>
      rw [engine.releaseAll_of_settled _ pending, engine.releaseAll_of_settled _ pending]
      exact .refl _
    | cons handle waiting => exact Or.inl (releaseAll_zero_of_cons pending)
  | succ rounds inductionHypothesis =>
    cases pending : world.heap.pending with
    | nil =>
      rw [engine.releaseAll_of_settled _ pending, engine.releaseAll_of_settled _ pending]
      exact .refl _
    | cons handle waiting =>
      rw [releaseAll_succ_of_cons pending, releaseAll_succ_of_cons pending]
      exact (Approximates.refl _).bind fun ended => inductionHypothesis ended.2

theorem releaseAll_of_le {rounds more : Nat} {before after : World Code Host} (le : rounds ≤ more)
    (ended : engine.releaseAll rounds before = .ok ((), after)) :
    engine.releaseAll more before = .ok ((), after) := by
  induction le with
  | refl => exact ended
  | @step more _ inductionHypothesis =>
    rcases engine.releaseAll_more more before with out | same
    · cases inductionHypothesis.symm.trans out
    · exact same.symm.trans inductionHypothesis

namespace Oblivious

theorem releaseAll (oblivious : engine.Oblivious) (rounds : Nat) {before after : World Code Host}
    (busy : before.heap.releasing = true) (ended : engine.releaseAll rounds before = .ok ((), after)) :
    after.heap.releasing = true ∧ after.heap.pending = [] := by
  induction rounds generalizing before with
  | zero =>
    cases pending : before.heap.pending with
    | nil =>
      cases (engine.releaseAll_of_settled _ pending).symm.trans ended
      exact ⟨busy, pending⟩
    | cons handle waiting => cases (releaseAll_zero_of_cons pending).symm.trans ended
  | succ rounds inductionHypothesis =>
    cases pending : before.heap.pending with
    | nil =>
      cases (engine.releaseAll_of_settled _ pending).symm.trans ended
      exact ⟨busy, pending⟩
    | cons handle waiting =>
      rw [releaseAll_succ_of_cons pending] at ended
      obtain ⟨⟨_, between⟩, released, going⟩ := Heap.bind_eq_ok.mp ended
      let popped : World Code Host := { before with heap := { before.heap with pending := waiting } }
      have started : popped.heap.releasing = true := busy
      exact inductionHypothesis ((oblivious.releaseNext handle).busy started released) going

/-- What is on top of a backlog is worked off before the backlog, as it would be alone. -/
theorem releaseAll_atop (oblivious : engine.Oblivious) (backlog : Backlog) (rounds : Nat)
    (busy : world.heap.releasing = true) :
    Approximates (engine.releaseAll rounds (world.atop backlog))
      (engine.releaseAll rounds world >>= fun ended =>
        engine.releaseAll rounds (ended.2.atop backlog)) := by
  induction rounds generalizing world with
  | zero =>
    cases pending : world.heap.pending with
    | nil =>
      rw [engine.releaseAll_of_settled _ pending]
      exact .refl _
    | cons handle waiting =>
      have stacked : (world.atop backlog).heap.pending = handle :: (waiting ++ backlog.waiting) :=
        congrArg (· ++ backlog.waiting) pending
      exact Or.inl (releaseAll_zero_of_cons stacked)
  | succ rounds inductionHypothesis =>
    cases pending : world.heap.pending with
    | nil =>
      rw [engine.releaseAll_of_settled _ pending]
      exact .refl _
    | cons handle waiting =>
      have stacked : (world.atop backlog).heap.pending = handle :: (waiting ++ backlog.waiting) :=
        congrArg (· ++ backlog.waiting) pending
      let popped : World Code Host := { world with heap := { world.heap with pending := waiting } }
      have started : popped.heap.releasing = true := busy
      rw [releaseAll_succ_of_cons pending, releaseAll_succ_of_cons stacked]
      show Approximates (engine.releaseNext handle (popped.atop backlog) >>= _)
        ((engine.releaseNext handle popped >>= _) >>= _)
      -- What a reference leads to is put on top, and the backlog is below it again.
      rw [(oblivious.releaseNext handle).atop backlog started]
      cases released : engine.releaseNext handle popped with
      | error fault => exact .refl _
      | ok ended =>
        have still := (oblivious.releaseNext handle).busy started released
        exact (inductionHypothesis still).trans
          ((Approximates.refl _).bind fun last => releaseAll_more rounds _)

/-- The rounds that what is on top of a backlog takes and those that the backlog takes are enough for
both of them. -/
theorem releaseAll_atop_of_ok (oblivious : engine.Oblivious) (backlog : Backlog) {rounds more : Nat}
    {middle last : World Code Host} (busy : world.heap.releasing = true)
    (first : engine.releaseAll rounds world = .ok ((), middle))
    (second : engine.releaseAll more (middle.atop backlog) = .ok ((), last)) :
    engine.releaseAll (rounds + more) (world.atop backlog) = .ok ((), last) := by
  induction rounds generalizing world with
  | zero =>
    cases pending : world.heap.pending with
    | nil =>
      cases (engine.releaseAll_of_settled _ pending).symm.trans first
      exact releaseAll_of_le (Nat.zero_add more).ge second
    | cons handle waiting => cases (releaseAll_zero_of_cons pending).symm.trans first
  | succ rounds inductionHypothesis =>
    cases pending : world.heap.pending with
    | nil =>
      cases (engine.releaseAll_of_settled _ pending).symm.trans first
      exact releaseAll_of_le (Nat.le_add_left more (rounds + 1)) second
    | cons handle waiting =>
      have stacked : (world.atop backlog).heap.pending = handle :: (waiting ++ backlog.waiting) :=
        congrArg (· ++ backlog.waiting) pending
      let popped : World Code Host := { world with heap := { world.heap with pending := waiting } }
      have started : popped.heap.releasing = true := busy
      rw [releaseAll_succ_of_cons pending] at first
      obtain ⟨⟨_, between⟩, released, going⟩ := Heap.bind_eq_ok.mp first
      rw [Nat.succ_add, releaseAll_succ_of_cons stacked]
      show engine.releaseNext handle (popped.atop backlog) >>= _ = _
      rw [(oblivious.releaseNext handle).atop backlog started, released]
      exact inductionHypothesis ((oblivious.releaseNext handle).busy started released) going

end Oblivious

/-- A release of its own works off what waits. -/
theorem drain_of_idle (idle : world.heap.releasing = false) :
    engine.drain world = (engine.releaseAll engine.rounds (world.setReleasing true)).map
      fun ended => ((), ended.2.setReleasing false) := by
  show (if world.heap.releasing then _ else _ : Action Code Host Unit) world = _
  rw [idle]
  show (engine.releaseAll engine.rounds (world.setReleasing true) >>= _) = _
  cases engine.releaseAll engine.rounds (world.setReleasing true) <;> rfl

/-- Between operations, a release works its own reference off. -/
theorem release_of_idle (idle : world.heap.releasing = false) (settled : world.heap.pending = []) :
    engine.release (.ref handle) world =
      (engine.releaseAll engine.rounds ((world.leaving handle).setReleasing true)).map
        fun ended => ((), ended.2.setReleasing false) := by
  rw [release_ref, settled]
  exact drain_of_idle idle

/-- A release that began between operations ends between operations. -/
theorem idle_of_releaseList {values : List Value} {last : World Code Host}
    (idle : world.heap.releasing = false) (ended : engine.releaseList values world = .ok ((), last)) :
    last.heap.releasing = false := by
  change values.forM engine.release world = _ at ended
  induction values generalizing world with
  | nil =>
    cases ended
    exact idle
  | cons value rest inductionHypothesis =>
    obtain ⟨_, between, released, going⟩ := Action.bind_eq_ok.mp ended
    refine inductionHypothesis ?_ going
    cases value with
    | ref handle =>
      let waiting : World Code Host :=
        { world with heap := { world.heap with pending := handle :: world.heap.pending } }
      have still : waiting.heap.releasing = false := idle
      rw [release_ref, drain_of_idle still] at released
      cases worked : engine.releaseAll engine.rounds (waiting.setReleasing true) with
      | error fault =>
        rw [worked] at released
        cases released
      | ok ended =>
        rw [worked] at released
        cases released
        rfl
    | _ =>
      cases released
      exact idle

/-- To work off a stack of references comes to the same as to give the references up one by one,
from the top. -/
theorem Oblivious.drain_atop (oblivious : engine.Oblivious) (handles : List Handle) (counted : UInt64)
    (idle : world.heap.releasing = false) (settled : world.heap.pending = []) :
    Approximates (engine.drain (world.atop { waiting := handles, counted }))
      ((engine.releaseList (handles.map .ref) world).map fun ended =>
        ((), ended.2.atop { waiting := [], counted })) := by
  have still (handles : List Handle) :
      (world.atop { waiting := handles, counted }).heap.releasing = false := idle
  rw [drain_of_idle (still handles)]
  -- The worlds differ from one reference to the next, so the induction is for all of them.
  induction handles generalizing world with
  | nil =>
    have done : ((world.atop { waiting := [], counted }).setReleasing true).heap.pending = [] := by
      show world.heap.pending ++ [] = []
      rw [settled]
      rfl
    rw [engine.releaseAll_of_settled _ done]
    exact Or.inr (congrArg (fun world => Except.ok ((), world)) (World.setReleasing_self (still [])))
  | cons handle rest inductionHypothesis =>
    have split := (oblivious.releaseAll_atop { waiting := rest, counted } engine.rounds
      (show ((world.leaving handle).setReleasing true).heap.releasing = true from rfl)).map
      fun ended => ((), ended.2.setReleasing false)
    rw [World.atop_cons settled]
    refine split.trans ?_
    show Approximates _ (Except.map _ (engine.release (.ref handle) world >>= fun ended =>
      engine.releaseList (rest.map .ref) ended.2))
    rw [release_of_idle idle settled]
    cases worked : engine.releaseAll engine.rounds ((world.leaving handle).setReleasing true) with
    | error fault => exact .refl _
    | ok ended =>
      obtain ⟨busy, done⟩ := oblivious.releaseAll engine.rounds rfl worked
      have later := @inductionHypothesis (ended.2.setReleasing false) rfl done fun _ => rfl
      have resumed : (ended.2.atop { waiting := rest, counted }).setReleasing true =
          ended.2.atop { waiting := rest, counted } := World.setReleasing_self busy
      show Approximates ((engine.releaseAll engine.rounds
        (ended.2.atop { waiting := rest, counted })).map _) _
      rw [← resumed]
      exact later

/-- If the references can be given up one by one, then the stack can be worked off in so many times as
many rounds. -/
theorem Oblivious.releaseAll_atop_of_releaseList (oblivious : engine.Oblivious) {handles : List Handle}
    (counted : UInt64) {rounds : Nat} {last : World Code Host}
    (idle : world.heap.releasing = false) (settled : world.heap.pending = [])
    (enough : engine.rounds * handles.length ≤ rounds)
    (released : engine.releaseList (handles.map .ref) world = .ok ((), last)) :
    engine.releaseAll rounds ((world.atop { waiting := handles, counted }).setReleasing true) =
      .ok ((), (last.atop { waiting := [], counted }).setReleasing true) := by
  induction handles generalizing world rounds with
  | nil =>
    obtain rfl : world = last := (Prod.mk.inj (Except.ok.inj released)).2
    refine engine.releaseAll_of_settled _ ?_
    show world.heap.pending ++ [] = []
    rw [settled]
    rfl
  | cons handle rest inductionHypothesis =>
    obtain ⟨_, between, first, others⟩ := Action.bind_eq_ok.mp
      (show (engine.release (.ref handle) >>= fun _ => engine.releaseList (rest.map .ref)) world =
        .ok ((), last) from released)
    rw [release_of_idle idle settled] at first
    cases worked : engine.releaseAll engine.rounds ((world.leaving handle).setReleasing true) with
    | error fault =>
      rw [worked] at first
      cases first
    | ok ended =>
      rw [worked] at first
      obtain ⟨busy, done⟩ := oblivious.releaseAll engine.rounds rfl worked
      obtain rfl : ended.2.setReleasing false = between := (Prod.mk.inj (Except.ok.inj first)).2
      -- The rounds of one reference are set apart, and the others make do with the rest.
      have left : engine.rounds + engine.rounds * rest.length ≤ rounds := by
        rwa [List.length_cons, Nat.mul_succ, Nat.add_comm] at enough
      have later := @inductionHypothesis (ended.2.setReleasing false) _ rfl done (Nat.le_refl _) others
      have resumed : (ended.2.atop { waiting := rest, counted }).setReleasing true =
          ended.2.atop { waiting := rest, counted } := World.setReleasing_self busy
      rw [World.atop_cons settled]
      refine releaseAll_of_le left (oblivious.releaseAll_atop_of_ok { waiting := rest, counted } rfl
        worked ?_)
      rw [← resumed]
      exact later

end Engine

/-! ### Hosts -/

namespace Program

/-- A program looks at the heap only as far as the heap can be looked at: which references wait and
how many allocations were counted is not public. -/
def Blind : Program Code Host → Prop
  | finish _ => True
  | perform _ next => ∀ answer, (next answer).Blind
  | consult change next => ∀ host heap, (next host heap).Blind ∧
      ∀ backlog, change host (heap.atop backlog) = change host heap ∧
        next host (heap.atop backlog) = next host heap

theorem Blind.oblivious_act {engine : Engine Code Host} (oblivious : engine.Oblivious)
    {program : Program Code Host} (blind : program.Blind) : (program.act engine).Oblivious := by
  induction program with
  | finish outcome => exact fun _ => .pure outcome
  | perform operation next inductionHypothesis =>
    exact fun backlog => .bind (operation.obeys_perform oblivious.obeys backlog) fun answer =>
      inductionHypothesis answer (blind answer) backlog
  | consult change next inductionHypothesis =>
    intro backlog
    have same (world : World Code Host) := (blind world.host world.heap).2 backlog
    exact .consult (fun _ busy => busy) (fun world _ => (same world).2)
      (fun world _ => congrArg (fun host => ({ world.atop backlog with host } : World Code Host))
        (same world).1)
      fun world _ => inductionHypothesis _ _ (blind world.host world.heap).1 backlog

theorem blind_dropping {next : Program Code Host} (blind : next.Blind) (values : List Value) :
    (dropping next values).Blind := by
  induction values with
  | nil => exact blind
  | cons value rest inductionHypothesis => exact fun _ => inductionHypothesis

end Program

/-- A host cannot tell what waits for a release to go on, since it can only ask for operations and look
at what is public. -/
theorem Engine.oblivious_ofPrograms {bodies : Code → Arguments → Program Code Host}
    (blind : ∀ code arguments, (bodies code arguments).Blind) (rounds : Nat) :
    (Engine.ofPrograms bodies rounds).Oblivious :=
  oblivious_ofRounds
    (fun _ oblivious code arguments => (blind code arguments).oblivious_act oblivious) rounds

end ObjectHeap
