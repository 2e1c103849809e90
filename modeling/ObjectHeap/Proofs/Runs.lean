/-
This file establishes what holds in every run of a host that respects ownership, with functions
whose bodies respect it as well. Between two operations of the host every count is exact. At every
moment of the run, callbacks included, weak references and their targets agree; and as heaps only
ever evolve, a weak reference never comes to refer to anything but what it was created for.
Whenever no release is in progress, a collection removes what nothing outside leads to.
-/

import ObjectHeap.Proofs.Host

namespace ObjectHeap

variable {Code Host : Type} {held : Host → Multiset Handle}

/-! ### Weak references -/

/-- Weak references and the registers of their targets agree. -/
structure Heap.Coherent (heap : Heap Code) : Prop where
  /-- A weak reference has a target exactly if it is registered there, and then once. -/
  registered : ∀ weakref data target, heap.payload? weakref = some (.weakref data) →
    (data.target = some target ↔ ∃ payload, heap.payload? target = some payload ∧
      payload.isReferable ∧ payload.watchers.count weakref = 1)
  /-- Only weak references to an entry are registered there. -/
  aiming : ∀ target payload weakref, heap.payload? target = some payload →
    weakref ∈ payload.watchers →
      ∃ data, heap.payload? weakref = some (.weakref data) ∧ data.target = some target

theorem Payload.isReferable_of_mem_watchers {payload : Payload Code} {weakref : Handle}
    (member : weakref ∈ payload.watchers) : payload.isReferable := by
  cases payload <;> first | rfl | cases member

theorem Heap.Watched.coherent {heap : Heap Code} (watched : heap.Watched) : heap.Coherent where
  registered weakref data target found := by
    have aimed : heap.target? weakref = data.target := Heap.target?_of_payload? found
    rw [← aimed, watched.registered]
    constructor
    · intro member
      cases reached : heap.payload? target with
      | none =>
        unfold Heap.watchers at member
        rw [reached] at member
        cases member
      | some payload =>
        have once := watched.once target
        rw [Heap.watchers_of_payload? reached] at member once
        exact ⟨payload, rfl, payload.isReferable_of_mem_watchers member,
          List.count_eq_one_of_mem once member⟩
    · rintro ⟨payload, reached, _, counted⟩
      rw [Heap.watchers_of_payload? reached]
      exact List.count_pos_iff.mp (by omega)
  aiming target payload weakref reached member := by
    refine Heap.target?_eq_some.mp ((watched.registered weakref target).mpr ?_)
    rwa [Heap.watchers_of_payload? reached]

/-- A call of a weak reference answers with its target. -/
theorem call_weakref {Other : Type} (engine : Engine Code Other) (host : Other) {heap : Heap Code}
    {weakref : Handle} {data : Weakref} (found : heap.payload? weakref = some (.weakref data)) :
    ∃ answer after, (engine.call (.ref weakref) (Arguments.ofList [])).run { heap, host } =
      .ok (.ok answer, after) ∧
      (answer = .nil ∨ ∃ target, answer = .ref target ∧ data.target = some target) := by
  have read : heap.read weakref = .ok (.weakref data) := heap.read_eq_ok.mpr found
  have fetched : (fetch weakref : Action Code Other (Payload Code)) { heap, host } =
      .ok (.weakref data, { heap, host }) := ask_eq_ok.mpr ⟨read, rfl⟩
  suffices referred : ∃ answer after,
      (referent weakref : Action Code Other Value) { heap, host } = .ok (answer, after) ∧
      (answer = .nil ∨ ∃ target, answer = .ref target ∧ data.target = some target) by
    obtain ⟨answer, after, ended, same⟩ := referred
    refine ⟨answer, after, Attempt.ask_bind_eq_ok.mpr ⟨_, read, ?_⟩, same⟩
    exact Action.bind_eq_ok.mpr ⟨answer, after, ended, rfl⟩
  obtain ⟨target, callback⟩ := data
  cases target with
  | none =>
    exact ⟨.nil, { heap, host }, Action.bind_eq_ok.mpr ⟨_, _, fetched, rfl⟩, Or.inl rfl⟩
  | some target =>
    cases live : heap.isLive target with
    | false =>
      refine ⟨.nil, { heap, host }, Action.bind_eq_ok.mpr ⟨_, _, fetched,
        Action.bind_eq_ok.mpr ⟨_, _, currentHeap_apply _, ?_⟩⟩, Or.inl rfl⟩
      dsimp only
      rw [live]
      rfl
    | true =>
      refine ⟨.ref target, { heap := heap.increment target, host }, Action.bind_eq_ok.mpr
        ⟨_, _, fetched, Action.bind_eq_ok.mpr ⟨_, _, currentHeap_apply _, ?_⟩⟩,
        Or.inr ⟨target, rfl, rfl⟩⟩
      dsimp only
      rw [live]
      exact Action.bind_eq_ok.mpr ⟨(), _, (retain_apply _ _).trans (if_pos live), rfl⟩

/-! ### What the moments of a run have in common -/

theorem Heap.payload?_new (config : Config) (handle : Handle) :
    (Heap.new config : Heap Code).payload? handle = none := by
  rw [payload?_eq, occupant?_new]
  rfl

/-- A new heap is empty, and nobody refers to it. -/
theorem Heap.sound_new (config : Config) : (Heap.new config : Heap Code).Sound 0 [] where
  balanced := by
    constructor
    · intro handle
      rw [tally_of_empty (occupant?_new config handle)]
      rfl
    · intro handle live
      rw [isLive_eq, occupant?_new] at live
      cases live
  watched := by
    constructor
    · intro weakref target
      unfold target? watchers
      rw [payload?_new, payload?_new]
      simp
    · intro target
      unfold watchers
      rw [payload?_new]
      exact List.nodup_nil
  housed := by
    constructor
    · intro handle
      have unborn : ¬ 0 < (Heap.new config : Heap Code).births handle := by
        rw [births_pos_iff]
        exact Nat.not_lt_zero handle
      exact iff_of_false (fun member => nomatch member) fun both => unborn both.1
    · exact List.nodup_nil
  formed := by
    have nothing {handle : Handle} {payload : Payload Code}
        (found : (Heap.new config : Heap Code).payload? handle = some payload) : False := by
      rw [payload?_new] at found
      cases found
    exact
      { wraps := fun _ _ _ found => (nothing found).elim
        grounded := fun _ _ found => (nothing found).elim
        derives := fun _ _ _ _ found => (nothing found).elim
        inherits := fun _ _ found => (nothing found).elim
        apart := fun _ _ found => (nothing found).elim }

/-- At a moment of a run the heap is sound, and what an operation has just created is what it was
asked for. -/
structure Moment.Orderly (moment : Moment Code) : Prop where
  sound : ∃ outside limbo, moment.heap.Sound outside limbo
  settled : moment.heap.releasing = false → moment.heap.pending = []
  /-- At most one slot has no home, and only while releases are worked off. -/
  housed : ∃ limbo, moment.heap.Housed limbo ∧ limbo.length ≤ 1 ∧
    (moment.heap.releasing = false → limbo = [])
  aims : ∀ operation answer, moment.latest = some ⟨operation, answer⟩ →
    operation.Aims answer moment.heap

/-- The moments of a run lead from one to the next, and on to the heap as it is. -/
structure Chronicle (moments : List (Moment Code)) (heap : Heap Code) : Prop where
  orderly : ∀ moment ∈ moments, moment.Orderly
  ordered : moments.Pairwise fun later earlier => earlier.heap.Evolves later.heap
  onward : ∀ moment ∈ moments, moment.heap.Evolves heap

theorem Chronicle.lasts {moments : List (Moment Code)} {before after : Heap Code}
    (chronicle : Chronicle moments before) (evolves : before.Evolves after) :
    Chronicle moments after where
  orderly := chronicle.orderly
  ordered := chronicle.ordered
  onward moment member := (chronicle.onward moment member).trans evolves

theorem Chronicle.nil (heap : Heap Code) : Chronicle [] heap where
  orderly _ member := nomatch member
  ordered := List.Pairwise.nil
  onward _ member := nomatch member

theorem Chronicle.cons {moments : List (Moment Code)} {moment : Moment Code}
    (chronicle : Chronicle moments moment.heap) (orderly : moment.Orderly) :
    Chronicle (moment :: moments) moment.heap where
  orderly other member := by
    rcases List.mem_cons.mp member with rfl | member
    · exact orderly
    · exact chronicle.orderly other member
  ordered := List.pairwise_cons.mpr ⟨chronicle.onward, chronicle.ordered⟩
  onward other member := by
    rcases List.mem_cons.mp member with rfl | member
    · exact .refl _
    · exact chronicle.onward other member

/-- The engine that runs the bodies of functions. -/
def bodiesEngine (bodies : Code → Arguments → Program Code Host) (rounds : Nat) :
    Engine Code (Recorded Code Host) :=
  Engine.ofRounds (fun engine code arguments => (bodies code arguments).body engine) rounds

/-- To call a callback is to call it with the engine that runs the bodies of functions. -/
def CallsBack (bodies : Code → Arguments → Program Code Host) (callback : Value)
    (arguments : Arguments) (before : World Code (Recorded Code Host))
    (outcome : Except Error Value) (after : World Code (Recorded Code Host)) : Prop :=
  ∃ rounds, ((bodiesEngine bodies rounds).call callback arguments).run before =
    .ok (outcome, after)

/-- Callbacks are called by the engine, and the host adds to the record only the heap as it is. -/
def recordedConduct (bodies : Code → Arguments → Program Code Host) :
    Conduct Code (Recorded Code Host) where
  calls := CallsBack bodies
  turns world host := host.moments = world.host.moments ∨
    ∃ latest, host.moments = { heap := world.heap, latest } :: world.host.moments

/-- The ledger of a host whose runs are recorded and told in some way. -/
def recordingLedger (held : Host → Multiset Handle) (conduct : Conduct Code (Recorded Code Host)) :
    Ledger Code (Recorded Code Host) where
  held recorded := held recorded.host
  fits recorded heap := Chronicle recorded.moments heap
  lasts chronicle evolves := chronicle.lasts evolves
  calm := False
  conduct

/-- The ledger of a host whose runs are recorded. -/
def recordedLedger (held : Host → Multiset Handle) (bodies : Code → Arguments → Program Code Host) :
    Ledger Code (Recorded Code Host) :=
  recordingLedger held (recordedConduct bodies)

/-- A run of the bodies of functions can be told in some way: callbacks are called by the engine, and
the host adds to the record only the heap as it is. -/
structure Conduct.Records (conduct : Conduct Code (Recorded Code Host))
    (bodies : Code → Arguments → Program Code Host) : Prop where
  calls : ∀ callback arguments before outcome after,
    CallsBack bodies callback arguments before outcome after →
      conduct.calls callback arguments before outcome after
  turns : ∀ world host, (recordedConduct bodies).turns world host → conduct.turns world host

variable {bodies : Code → Arguments → Program Code Host} {conduct : Conduct Code (Recorded Code Host)}
  {engine : Engine Code (Recorded Code Host)} {scene : Scene} {known : Set Memo}
  {before after : World Code (Recorded Code Host)} {mine rest hand : Multiset Handle}

theorem recordedConduct_records (bodies : Code → Arguments → Program Code Host) :
    (recordedConduct bodies).Records bodies :=
  ⟨fun _ _ _ _ _ called => called, fun _ _ turns => turns⟩

/-- Every memo is good for a ledger that does not ask when methods are bound to nil. -/
theorem Operation.threads_recorded (operation : Operation Code) (host : Recorded Code Host) :
    operation.Threads {memo | (recordedLedger held bodies).Trusts memo host} := by
  cases operation with
  | deepCopy value memo => exact fun _ _ => trivial
  | _ => trivial

/-- Noting the heap changes no more than the record. -/
theorem yields_note (records : conduct.Records bodies)
    (latest : Option ((operation : Operation Code) × operation.Answer))
    (holds : (recordingLedger held conduct).Holds scene before mine)
    (aims : ∀ operation answer, latest = some ⟨operation, answer⟩ →
      operation.Aims answer before.heap) :
    (note latest : Action Code (Recorded Code Host) Unit).Yields (recordingLedger held conduct) scene
      before fun _ => mine := by
  have tidy : scene.Tidy := holds.tidy fun calm => calm
  have orderly : Moment.Orderly { heap := before.heap, latest } := by
    refine ⟨⟨_, _, holds.sound⟩, fun idle => holds.settled ?_,
      ⟨scene.limbo, holds.sound.housed, tidy.narrow, fun idle => tidy.idle ?_⟩, aims⟩ <;>
    · rw [← holds.releasing]
      exact idle
  have chronicle : Chronicle before.host.moments before.heap := holds.fits
  exact .of_eq rfl
    ⟨⟨holds.sound, holds.releasing, chronicle.cons orderly⟩, holds.settled, holds.tidy⟩
    ⟨holds.carries_refl, .host (records.turns _ _ (Or.inr ⟨latest, rfl⟩))⟩

/-- What an operation borrows may be counted among what others hold. -/
theorem Operation.yields_noted_lent (operation : Operation Code) (records : conduct.Records bodies)
    (keeps : engine.Keeps (recordingLedger held conduct)) (lent : operation.borrows ⊆ scene.frame)
    (threads : operation.Threads {memo | (recordingLedger held conduct).Trusts memo before.host})
    (holds : (recordingLedger held conduct).Holds scene before operation.consumes) :
    (operation.noted engine).Yields (recordingLedger held conduct) scene before operation.gains := by
  intro answer after ended
  obtain ⟨found, between, performed, going⟩ := Action.bind_eq_ok.mp ended
  obtain ⟨done, carries⟩ := operation.yields_perform keeps (fun calm => calm) lent threads holds _ _
    performed
  have aims := operation.aims_perform keeps lent holds performed
  obtain ⟨_, noted, first, last⟩ := Action.bind_eq_ok.mp going
  cases last
  have recorded := yields_note records (some ⟨operation, answer⟩) done
    (fun _ _ same => by cases same; exact aims) _ _ first
  exact ⟨recorded.1, carries.trans recorded.2⟩

theorem Operation.yields_noted (operation : Operation Code) (records : conduct.Records bodies)
    (keeps : engine.Keeps (recordingLedger held conduct)) (lent : operation.borrows ⊆ rest)
    (threads : operation.Threads {memo | (recordingLedger held conduct).Trusts memo before.host})
    (holds : (recordingLedger held conduct).Holds scene before (operation.consumes + rest)) :
    (operation.noted engine).Yields (recordingLedger held conduct) scene before
      fun answer => rest + operation.gains answer := by
  intro answer after ended
  obtain ⟨done, carries⟩ := operation.yields_noted_lent records keeps
    (fun _ member => Multiset.mem_add.mpr (Or.inr (lent member))) threads
    (Ledger.Holds.framing_iff.mpr (holds.congr (add_comm _ _))) answer after ended
  exact ⟨Ledger.Holds.framing_iff.mp done,
    carries.mono fun _ member => Multiset.mem_add.mpr (Or.inl member)⟩

/-- The memos that come back from an operation are good if those are that are handed in. -/
theorem Operation.trusts_noted (operation : Operation Code) (records : conduct.Records bodies)
    (keeps : engine.Keeps (recordingLedger held conduct)) (lent : operation.borrows ⊆ rest)
    (threads : operation.Threads known)
    (trusted : known ⊆ {memo | (recordingLedger held conduct).Trusts memo before.host})
    (holds : (recordingLedger held conduct).Holds scene before (operation.consumes + rest))
    {answer : operation.Answer} (ended : operation.noted engine before = .ok (answer, after)) :
    known ∪ operation.memos answer ⊆ {memo | (recordingLedger held conduct).Trusts memo after.host} := by
  have threads := threads.mono trusted
  have framed := Ledger.Holds.framing_iff.mpr (holds.congr (add_comm _ _))
  have lent : operation.borrows ⊆ (scene.framing rest).frame :=
    fun _ member => Multiset.mem_add.mpr (Or.inr (lent member))
  rintro memo (member | member)
  · exact (trusted member).passes
      (operation.yields_noted_lent records keeps lent threads framed _ _ ended).2
  · obtain ⟨_, between, performed, going⟩ := Action.bind_eq_ok.mp ended
    obtain ⟨_, _, noted, last⟩ := Action.bind_eq_ok.mp going
    cases last
    have trusts := operation.trusts_perform keeps (fun calm => calm) lent threads framed performed member
    have done := (operation.yields_perform keeps (fun calm => calm) lent threads framed _ _ performed).1
    exact Ledger.Trusts.passes trusts (yields_note records _ done (fun _ _ same => by
      cases same
      exact operation.aims_perform keeps lent framed performed) _ _ noted).2

/-- What a host keeps or takes out changes hands, and nothing else. -/
theorem Ledger.Holds.consult {left : Multiset Handle} {host : Host}
    (holds : (recordingLedger held conduct).Holds scene before hand)
    (moved : held host + left = held before.host.host + hand) :
    (recordingLedger held conduct).Holds scene { before with host := { before.host with host } }
      left := by
  refine ⟨⟨holds.sound.congr ?_, holds.releasing, holds.fits⟩, holds.settled, holds.tidy⟩
  show scene.frame + hand + held before.host.host = scene.frame + left + held host
  rw [add_assoc, add_assoc, add_comm hand, add_comm left, moved]

/-- A program that respects ownership, and is handed good memos, leaves the world in order. -/
theorem Program.yields (program : Program Code Host) (records : conduct.Records bodies)
    (keeps : engine.Keeps (recordingLedger held conduct)) (respects : program.Respects held hand)
    (threads : program.Threads known)
    (trusted : known ⊆ {memo | (recordingLedger held conduct).Trusts memo before.host})
    (holds : (recordingLedger held conduct).Holds scene before hand) :
    (program.run engine).Yields (recordingLedger held conduct) scene before
      (outcomeOwns Value.owns 0) := by
  -- What the program knows and has in hand changes with every operation.
  induction program generalizing hand known before with
  | finish outcome => exact .pure (holds.congr respects)
  | perform operation next inductionHypothesis =>
    obtain ⟨rest, rfl, lent, going⟩ := respects
    obtain ⟨handed, onward⟩ := threads
    intro outcome after ended
    obtain ⟨answer, between, noted, ran⟩ := Action.bind_eq_ok.mp ended
    obtain ⟨done, early⟩ := operation.yields_noted records keeps lent (handed.mono trusted) holds _ _ noted
    obtain ⟨last, late⟩ := inductionHypothesis answer (going answer) (onward answer)
      (operation.trusts_noted records keeps lent handed trusted holds noted) done _ _ ran
    exact ⟨last, early.trans late⟩
  | consult change next inductionHypothesis =>
    obtain ⟨left, moved, going⟩ := respects before.host.host before.heap
    have turns : (recordingLedger held conduct).Passes scene.frame before
        { before with host := { before.host with host := change before.host.host before.heap } } :=
      ⟨holds.carries_refl, .host (records.turns _ _ (Or.inl rfl))⟩
    exact .bind_of_eq rfl holds.passes_refl (.bind_of_eq rfl turns
      (inductionHypothesis _ _ going (threads _ _) (fun _ member => (trusted member).passes turns)
        (holds.consult moved.symm)))

theorem Program.keeps_body (program : Program Code Host) (records : conduct.Records bodies)
    (keeps : engine.Keeps (recordingLedger held conduct)) (respects : program.Respects held hand)
    (threads : program.Threads known)
    (trusted : ∀ host, known ⊆ {memo | (recordingLedger held conduct).Trusts memo host}) :
    (program.body engine).Keeps (recordingLedger held conduct) hand Value.owns 0 :=
  fun _ _ holds =>
    Action.Yields.bind (yields_note records none holds fun _ _ absent => nomatch absent)
      fun _ _ holds _ => program.yields records keeps respects threads (trusted _) holds

/-! ### Whole runs -/

/-- The bodies of functions respect ownership: they begin with their arguments in hand. -/
def RespectfulBodies (held : Host → Multiset Handle) (bodies : Code → Arguments → Program Code Host) :
    Prop :=
  ∀ code arguments, (bodies code arguments).Respects held arguments.owns

/-- The engine that runs the bodies of functions keeps a ledger for which every memo is good that
they are known to hand in. -/
theorem RespectfulBodies.keeps_of_threads (respectful : RespectfulBodies held bodies)
    (records : conduct.Records bodies)
    (hollows : ∀ rounds scene before after value,
      (recordingLedger held conduct).Holds scene before value.owns →
      (bodiesEngine bodies rounds).CopiesAsNil value before after → conduct.hollows after.host)
    (threads : ∀ code arguments, (bodies code arguments).Threads known)
    (trusted : ∀ host, known ⊆ {memo | (recordingLedger held conduct).Trusts memo host}) (rounds : Nat) :
    (bodiesEngine bodies rounds).Keeps (recordingLedger held conduct) :=
  Engine.keeps_ofRounds (fun _ keeps code arguments => (bodies code arguments).keeps_body records keeps
      (respectful code arguments) (threads code arguments) trusted)
    (fun rounds _ _ _ _ _ called => records.calls _ _ _ _ _ ⟨rounds, called⟩) hollows (fun calm => calm) rounds

theorem RespectfulBodies.keeps (respectful : RespectfulBodies held bodies) (rounds : Nat) :
    (bodiesEngine bodies rounds).Keeps (recordedLedger held bodies) :=
  have threads (code : Code) (arguments : Arguments) : (bodies code arguments).Threads Set.univ :=
    Program.threads_of_forall _ Set.mem_univ
  respectful.keeps_of_threads (recordedConduct_records bodies) (fun _ _ _ _ _ _ _ => trivial) threads
    (fun _ _ _ _ _ => trivial) rounds

/-- Functions that give up their arguments and answer nil. -/
def idleBodies (_ : Unit) (arguments : Arguments) : Program Unit Unit :=
  .dropping (.finish (.ok .nil)) arguments.values

theorem respectful_idleBodies : RespectfulBodies (fun _ : Unit => 0) idleBodies :=
  fun _ arguments => by
    have finished : Program.Respects (fun _ : Unit => 0) 0
        (.finish (.ok .nil) : Program Unit Unit) := rfl
    have respects := Program.respects_dropping finished arguments.values
    rwa [add_zero] at respects

theorem eq_ok_of_toOption {ε α : Type} {outcome : Except ε α} {answer : α}
    (answered : outcome.toOption = some answer) : outcome = .ok answer := by
  cases outcome <;> cases answered
  rfl

/-- The states that a run on a new heap can reach between two operations of its host, with what
the host has in its hands. The host may ask for any operation as long as it respects ownership,
and may keep and take out what it likes. -/
inductive Reached (held : Host → Multiset Handle) (bodies : Code → Arguments → Program Code Host)
    (config : Config) : Multiset Handle → World Code (Recorded Code Host) → Prop
  | start (host : Host) (nothing : held host = 0) :
    Reached held bodies config 0 { heap := Heap.new config, host := { host, moments := [] } }
  | perform {rest : Multiset Handle} {before after : World Code (Recorded Code Host)}
    (operation : Operation Code) (rounds : Nat) (answer : operation.Answer)
    (reached : Reached held bodies config (operation.consumes + rest) before)
    (lent : operation.borrows ⊆ rest)
    (ended : operation.noted (bodiesEngine bodies rounds) before = .ok (answer, after)) :
    Reached held bodies config (rest + operation.gains answer) after
  | keep {hand left : Multiset Handle} {before : World Code (Recorded Code Host)} (host : Host)
    (reached : Reached held bodies config hand before)
    (moved : held before.host.host + hand = held host + left) :
    Reached held bodies config left { before with host := { before.host with host } }

/-- A host asks for operations one after the other, as long as it has in its hands what they take
over and borrow. The answer is what it has in its hands then, and the world. -/
def follow (engine : Engine Code (Recorded Code Host)) : List (Operation Code) → Multiset Handle →
    World Code (Recorded Code Host) → Option (Multiset Handle × World Code (Recorded Code Host))
  | [], hand, world => some (hand, world)
  | operation :: rest, hand, world =>
    if operation.consumes ≤ hand ∧ operation.borrows ≤ hand - operation.consumes then
      match operation.noted engine world with
      | .ok (answer, after) =>
        follow engine rest (hand - operation.consumes + operation.gains answer) after
      | .error _ => none
    else none

/-- The first of some operations is performed, and the others go on from there. -/
theorem follow_cons_eq_some {engine : Engine Code (Recorded Code Host)} {operation : Operation Code}
    {operations : List (Operation Code)} {left : Multiset Handle}
    {world after : World Code (Recorded Code Host)}
    (ended : follow engine (operation :: operations) hand world = some (left, after)) :
    operation.consumes ≤ hand ∧ operation.borrows ≤ hand - operation.consumes ∧
      ∃ answer between, operation.noted engine world = .ok (answer, between) ∧
        follow engine operations (hand - operation.consumes + operation.gains answer) between =
          some (left, after) := by
  unfold follow at ended
  split at ended
  · rename_i both
    split at ended
    · exact ⟨both.1, both.2, _, _, ‹_›, ended⟩
    · cases ended
  · cases ended

namespace Reached

variable {config : Config} {world : World Code (Recorded Code Host)}

theorem congr {other : Multiset Handle} (reached : Reached held bodies config hand world)
    (same : hand = other) : Reached held bodies config other world := same ▸ reached

/-- A run goes on with an operation whose answer can be computed, and so can what is seen of the
state that it leads to. -/
theorem exists_perform {View : Type} {rest : Multiset Handle} (operation : Operation Code)
    (rounds : Nat) (answer : operation.Answer) (view : World Code (Recorded Code Host) → View)
    {seen : View} (reached : Reached held bodies config (operation.consumes + rest) world)
    (lent : operation.borrows ⊆ rest)
    (ended : (operation.noted (bodiesEngine bodies rounds) world).map
      (fun result => (result.1, view result.2)) = .ok (answer, seen)) :
    ∃ after, Reached held bodies config (rest + operation.gains answer) after ∧ view after = seen := by
  cases ran : operation.noted (bodiesEngine bodies rounds) world with
  | error fault =>
    rw [ran] at ended
    cases ended
  | ok result =>
    rw [ran] at ended
    cases ended
    exact ⟨_, .perform operation rounds _ reached lent ran, rfl⟩

theorem of_follow {left : Multiset Handle} {operations : List (Operation Code)} {rounds : Nat}
    {world after : World Code (Recorded Code Host)} (reached : Reached held bodies config hand world)
    (ended : follow (bodiesEngine bodies rounds) operations hand world = some (left, after)) :
    Reached held bodies config left after := by
  induction operations generalizing hand world with
  | nil =>
    cases ended
    exact reached
  | cons operation rest inductionHypothesis =>
    obtain ⟨consumed, borrowed, answer, between, performed, going⟩ := follow_cons_eq_some ended
    exact inductionHypothesis (.perform operation rounds answer
      (reached.congr (add_tsub_cancel_of_le consumed).symm) (Multiset.subset_of_le borrowed) performed)
      going

/-- A run of operations can be computed, and so can what is seen of the state that it leads to. -/
theorem exists_follow {View : Type} (operations : List (Operation Code)) (rounds : Nat) (host : Host)
    (view : World Code (Recorded Code Host) → View) (seen : View) (nothing : held host = 0)
    (ended : (follow (bodiesEngine bodies rounds) operations 0
        { heap := Heap.new config, host := { host, moments := [] } }).map
      (fun result => (result.1, view result.2)) = some (hand, seen)) :
    ∃ world, Reached held bodies config hand world ∧ view world = seen := by
  obtain ⟨⟨_, world⟩, ran, same⟩ := Option.map_eq_some_iff.mp ended
  cases same
  exact ⟨world, of_follow (.start host nothing) ran, rfl⟩

/-- Between two operations no release is in progress, nothing is in limbo, and nobody but the host
owns anything. -/
def atRest : Scene := { busy := false, limbo := [], frame := 0 }

theorem holds (respectful : RespectfulBodies held bodies)
    (reached : Reached held bodies config hand world) :
    (recordedLedger held bodies).Holds atRest world hand := by
  induction reached with
  | start host nothing =>
    have owns : atRest.frame + 0 + held host = 0 := by rw [nothing]; rfl
    exact ⟨⟨(Heap.sound_new config).congr owns.symm, rfl, .nil _⟩, fun _ => rfl,
      fun _ => ⟨Nat.zero_le 1, fun _ => rfl⟩⟩
  | perform operation rounds answer reached lent ended inductionHypothesis =>
    exact (operation.yields_noted (recordedConduct_records bodies) (respectful.keeps rounds) lent
      (operation.threads_recorded _) inductionHypothesis _ _ ended).1
  | keep host reached moved inductionHypothesis => exact inductionHypothesis.consult moved.symm

/-- How a run came to where it is can be told from the new heap on. -/
theorem told (respectful : RespectfulBodies held bodies)
    (reached : Reached held bodies config hand world) :
    ∃ host : Recorded Code Host, host.moments = [] ∧
      Story (recordedConduct bodies) .operating { heap := Heap.new config, host } world := by
  induction reached with
  | start host nothing => exact ⟨_, rfl, .still _⟩
  | perform operation rounds answer reached lent ended inductionHypothesis =>
    obtain ⟨host, nothing, story⟩ := inductionHypothesis
    have passes := (operation.yields_noted (recordedConduct_records bodies) (respectful.keeps rounds)
      lent (operation.threads_recorded _) (reached.holds respectful) _ _ ended).2
    exact ⟨host, nothing, story.andThen passes.story⟩
  | keep host reached moved inductionHypothesis =>
    obtain ⟨start, nothing, story⟩ := inductionHypothesis
    exact ⟨start, nothing, story.andThen (.host (Or.inl rfl))⟩

theorem balanced (respectful : RespectfulBodies held bodies)
    (reached : Reached held bodies config hand world) :
    world.heap.Balanced (hand + held world.host.host) := by
  have counted := (reached.holds respectful).sound.balanced
  rwa [atRest, zero_add] at counted

/-- Between two operations of a host that respects ownership, every live entry has as many
references as are counted, at least one of them: those that live entries hold, and those that the
host owns. Whatever is referred to is live. -/
theorem counts_are_exact (respectful : RespectfulBodies held bodies)
    (reached : Reached held bodies config hand world) :
    world.heap.releasing = false ∧
    (∀ handle entry, world.heap.occupant? handle = some entry →
      1 ≤ entry.count ∧ entry.count =
        world.heap.edges.count handle + (hand + held world.host.host).count handle) ∧
    (∀ handle ∈ world.heap.edges, world.heap.isLive handle) ∧
    ∀ handle ∈ hand + held world.host.host, world.heap.isLive handle := by
  have holds := reached.holds respectful
  have balanced := reached.balanced respectful
  refine ⟨holds.releasing, fun handle entry occupied => ?_, fun handle member => ?_,
    fun handle member => balanced.isLive_of_mem (Or.inl member)⟩
  · have exact := balanced.exact handle
    have positive := balanced.positive handle (by rw [Heap.isLive_eq, occupied]; rfl)
    rw [Heap.tally_of_occupant? occupied] at exact positive
    rw [holds.settled rfl, List.count_nil] at exact
    exact ⟨positive, exact⟩
  · exact balanced.isLive_of_mem (Or.inr (Or.inr member))

/-- A list that contains itself is counted as often as it is held. -/
theorem counts_of_cycle : ∃ world : World Unit (Recorded Unit Unit),
    Reached (fun _ => 0) idleBodies Config.standard {0} world ∧ world.heap.releasing = false ∧
    (∀ handle entry, world.heap.occupant? handle = some entry →
      1 ≤ entry.count ∧ entry.count =
        world.heap.edges.count handle + (({0} : Multiset Handle) + 0).count handle) ∧
    (∀ handle ∈ world.heap.edges, world.heap.isLive handle) ∧
    ∀ handle ∈ ({0} : Multiset Handle) + 0, world.heap.isLive handle := by
  have made : Reached (fun _ : Unit => 0) idleBodies Config.standard {0} _ :=
    .perform (.newList []) 4 (.ok (.ref 0)) (.start () rfl) (fun _ member => member) rfl
  have shared : Reached (fun _ : Unit => 0) idleBodies Config.standard ({0} + {0}) _ :=
    .perform (.share (.ref 0)) 4 () made (fun _ member => member) rfl
  have closed : Reached (fun _ : Unit => 0) idleBodies Config.standard {0} _ :=
    .perform (.append (.ref 0) (.ref 0)) 4 (.ok ()) shared (fun _ member => member) rfl
  exact ⟨_, closed, counts_are_exact respectful_idleBodies closed⟩

/-- The heaps of a run: the one that it has come to, and those at its moments. -/
def heaps (world : World Code (Recorded Code Host)) : List (Heap Code) :=
  world.heap :: world.host.moments.map Moment.heap

theorem orderly (respectful : RespectfulBodies held bodies)
    (reached : Reached held bodies config hand world) {heap : Heap Code}
    (member : heap ∈ heaps world) :
    (∃ outside limbo, heap.Sound outside limbo) ∧
      (heap.releasing = false → heap.pending = []) := by
  have holds := reached.holds respectful
  rcases List.mem_cons.mp member with rfl | member
  · exact ⟨⟨_, _, holds.sound⟩, fun _ => holds.settled rfl⟩
  · obtain ⟨moment, noted, rfl⟩ := List.mem_map.mp member
    have chronicle : Chronicle world.host.moments world.heap := holds.fits
    have orderly := chronicle.orderly moment noted
    exact ⟨orderly.sound, orderly.settled⟩

/-- A collection, at any moment of a run in which no release is in progress, removes exactly what
no reference from outside leads to. -/
theorem collection_is_exact {Other : Type} (respectful : RespectfulBodies held bodies)
    (reached : Reached held bodies config hand world) {heap : Heap Code}
    (member : heap ∈ heaps world) (idle : heap.releasing = false) (engine : Engine Code Other)
    (host : Other) (enough : heap.edges.length ≤ engine.rounds) :
    ∃ outside, heap.Balanced outside ∧ (∀ other, heap.Balanced other → other = outside) ∧
      (heap = world.heap → outside = hand + held world.host.host) ∧
      ∃ removed callbacks after, heap.Collection outside removed callbacks after ∧
        engine.collect { heap, host } =
          (do
            engine.runCallbacks engine.release callbacks
            return removed.length : Action Code Other Nat) { heap := after, host } ∧
        (callbacks = [] → ∃ last, engine.collect { heap := after, host } = .ok (0, last)) := by
  obtain ⟨⟨outside, limbo, sound⟩, settled⟩ := reached.orderly respectful member
  have here : (World.mk heap host).heap.Sound outside limbo := sound
  refine ⟨outside, sound.balanced, fun _ balanced => sound.balanced.unique balanced, ?_,
    engine.collect_of_sound here idle (settled idle) enough⟩
  rintro rfl
  exact (reached.balanced respectful).unique sound.balanced

/-- A list that contains itself and is held by nothing else is collected. -/
theorem collection_of_cycle : ∃ world : World Unit (Recorded Unit Unit),
    Reached (fun _ => 0) idleBodies Config.standard 0 world ∧ world.heap.isLive 0 ∧
    ∃ removed callbacks after, world.heap.Collection 0 removed callbacks after ∧
      (Engine.collect (bodiesEngine idleBodies 4)) world =
        (do
          (bodiesEngine idleBodies 4).runCallbacks (bodiesEngine idleBodies 4).release callbacks
          return removed.length : Action Unit (Recorded Unit Unit) Nat) { world with heap := after } := by
  have made : Reached (fun _ : Unit => 0) idleBodies Config.standard {0} _ :=
    .perform (.newList []) 4 (.ok (.ref 0)) (.start () rfl) (fun _ member => member) rfl
  have shared : Reached (fun _ : Unit => 0) idleBodies Config.standard ({0} + {0}) _ :=
    .perform (.share (.ref 0)) 4 () made (fun _ member => member) rfl
  have closed : Reached (fun _ : Unit => 0) idleBodies Config.standard {0} _ :=
    .perform (.append (.ref 0) (.ref 0)) 4 (.ok ()) shared (fun _ member => member) rfl
  have dropped : Reached (fun _ : Unit => 0) idleBodies Config.standard (0 + 0) _ :=
    .perform (.drop (.ref 0)) 4 () closed
      (fun _ member => absurd member (Multiset.notMem_zero _)) rfl
  obtain ⟨outside, _, _, same, removed, callbacks, after, collection, collected, _⟩ :=
    collection_is_exact respectful_idleBodies dropped List.mem_cons_self rfl
      (bodiesEngine idleBodies 4) _ (by decide +kernel)
  cases (same rfl).trans (add_zero 0)
  exact ⟨_, dropped, rfl, removed, callbacks, after, collection, collected⟩

section

variable {newer older : List (Moment Code)} {earlier : Moment Code} {heap : Heap Code}
  (split : world.host.moments = newer ++ earlier :: older)
  (later : heap = world.heap ∨ heap ∈ newer.map Moment.heap)

include split later

theorem mem_heaps_of_later : heap ∈ heaps world := by
  rcases later with rfl | later
  · exact List.mem_cons_self
  · refine List.mem_cons_of_mem _ ?_
    rw [split, List.map_append]
    exact List.mem_append_left _ later

/-- A heap of a run evolves into every later one. -/
theorem evolves_of_later (respectful : RespectfulBodies held bodies)
    (reached : Reached held bodies config hand world) : earlier.heap.Evolves heap := by
  have chronicle : Chronicle world.host.moments world.heap := (reached.holds respectful).fits
  rw [split] at chronicle
  rcases later with rfl | later
  · exact chronicle.onward earlier (List.mem_append_right _ List.mem_cons_self)
  · obtain ⟨moment, newerMoment, rfl⟩ := List.mem_map.mp later
    exact (List.pairwise_append.mp chronicle.ordered).2.2 moment newerMoment earlier
      List.mem_cons_self

end

/-- At every moment of a run, weak references and the registers of their targets agree, and a weak
reference that was created for an entry leads to that very entry or to nothing, at any later
moment at which the weak reference is still there. -/
theorem weakrefs_are_coherent (respectful : RespectfulBodies held bodies)
    (reached : Reached held bodies config hand world) :
    (∀ heap ∈ heaps world, heap.Coherent) ∧
    ∀ newer earlier older, world.host.moments = newer ++ earlier :: older →
      ∀ target callback weakref, earlier.latest =
          some ⟨.newWeakref (.ref target) callback, .ok (.ref weakref)⟩ →
        ∀ heap, heap = world.heap ∨ heap ∈ newer.map Moment.heap →
          heap.isLive weakref → heap.births weakref = earlier.heap.births weakref →
          ∀ {Other : Type} (engine : Engine Code Other) (host : Other), ∃ answer after,
            (engine.call (.ref weakref) (Arguments.ofList [])).run { heap, host } =
              .ok (.ok answer, after) ∧
            (answer = .nil ∨ answer = .ref target ∧ heap.isLive target ∧
              heap.births target = earlier.heap.births target) := by
  have chronicle : Chronicle world.host.moments world.heap := (reached.holds respectful).fits
  have watched (heap : Heap Code) (member : heap ∈ heaps world) : heap.Watched := by
    obtain ⟨⟨outside, limbo, sound⟩, _⟩ := reached.orderly respectful member
    exact sound.watched
  refine ⟨fun heap member => (watched heap member).coherent, ?_⟩
  intro newer earlier older split target callback weakref created heap later live same Other engine
    host
  have noted : earlier ∈ world.host.moments := by
    rw [split]
    exact List.mem_append_right _ List.mem_cons_self
  have member : heap ∈ heaps world := mem_heaps_of_later split later
  have evolves : earlier.heap.Evolves heap := evolves_of_later split later respectful reached
  have aimed : earlier.heap.target? weakref = some target := by
    obtain ⟨handle, place, asked, answered, aimed⟩ :=
      (chronicle.orderly earlier noted).aims _ _ created
    cases asked
    cases answered
    exact aimed
  obtain ⟨data, held, targeted⟩ := Heap.target?_eq_some.mp aimed
  obtain ⟨payload, reachedPayload⟩ := Heap.exists_payload?_of_isLive live
  -- The weak reference is the one of the earlier moment, so its target is the same or was cleared.
  have continues := evolves.continues weakref _ payload held reachedPayload same
  cases payload with
  | weakref link =>
    obtain ⟨answer, after, called, answers⟩ := call_weakref engine host reachedPayload
    refine ⟨answer, after, called, ?_⟩
    rcases answers with gone | ⟨other, answered, still⟩
    · exact Or.inl gone
    · have kept : link.target = some target := by
        rcases continues with kept | cleared
        · exact kept.trans targeted
        · rw [still] at cleared
          cases cleared
      cases still.symm.trans kept
      have aims : heap.target? weakref = some target :=
        Heap.target?_eq_some.mpr ⟨link, reachedPayload, kept⟩
      obtain ⟨_, there, _, _⟩ :=
        ((watched heap member).coherent.registered weakref link target reachedPayload).mp kept
      exact Or.inr ⟨answered, Heap.isLive_of_payload? there,
        evolves.aims weakref target aimed aims same⟩
  | _ => exact continues.elim

/-- A weak reference to an instance leads to it or to nothing after another operation. -/
theorem weakref_to_instance : ∃ world : World Unit (Recorded Unit Unit),
    Reached (fun _ => 0) idleBodies Config.standard ({0} + {1} + {2} + {1}) world ∧
    world.heap.Coherent ∧ ∃ answer after,
      ((bodiesEngine idleBodies 4).call (.ref 2) (Arguments.ofList [])).run world =
        .ok (.ok answer, after) ∧
      (answer = .nil ∨ answer = .ref 1 ∧ world.heap.isLive 1 ∧ world.heap.births 1 = 1) := by
  have type : Reached (fun _ : Unit => 0) idleBodies Config.standard {0} _ :=
    .perform (.newClass "C" []) 4 (.ok (.ref 0)) (.start () rfl) (fun _ member => member) rfl
  have made : Reached (fun _ : Unit => 0) idleBodies Config.standard ({0} + {1}) _ :=
    .perform (.newInstance (.ref 0)) 4 (.ok (.ref 1)) type (fun _ member => member) rfl
  have watched : Reached (fun _ : Unit => 0) idleBodies Config.standard ({0} + {1} + {2}) _ :=
    .perform (.newWeakref (.ref 1) none) 4 (.ok (.ref 2)) made
      (fun _ member => Multiset.mem_add.mpr (Or.inr member)) rfl
  have shared : Reached (fun _ : Unit => 0) idleBodies Config.standard ({0} + {1} + {2} + {1}) _ :=
    .perform (.share (.ref 1)) 4 () watched (fun _ member =>
      Multiset.mem_add.mpr (Or.inl (Multiset.mem_add.mpr (Or.inr member)))) rfl
  have coherent := weakrefs_are_coherent respectful_idleBodies shared
  refine ⟨_, shared, coherent.1 _ List.mem_cons_self, ?_⟩
  exact coherent.2 [_] _ [_, _] rfl 1 none 2 rfl _ (Or.inl rfl)
    (by decide +kernel) (by decide +kernel) _ _

end Reached

end ObjectHeap
