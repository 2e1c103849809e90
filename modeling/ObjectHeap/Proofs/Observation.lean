/-
This file says what it is to look at values without touching them. To look into a list, a tuple or
a method is to take references to what is in it and to give them up afterwards. Between operations
this leaves the very heap that was there; while releases are worked off, what is given up waits, but
nothing that can be seen has changed. So what looking comes to depends only on what is in the slots,
as long as no class has a say in it. The rules follow the shape of the operations that look.
-/

import ObjectHeap.Proofs.Requests

namespace ObjectHeap

variable {Code Host : Type} {α β : Type}

namespace Heap

/-! ### References that are taken and given up -/

section

variable (heap : Heap Code)

/-- A heap with one more reference to each of some entries. -/
def holding (handles : List Handle) : Heap Code :=
  handles.foldl increment heap

/-- A heap with one more reference to each of some entries, all of which wait for their release. -/
def postponing (handles : List Handle) : Heap Code :=
  { heap.holding handles with pending := handles.reverse ++ heap.pending }

/-- Changes of entries that commute on each entry commute. -/
theorem mapEntry_comm (place other : Handle) {first second : Entry Code → Entry Code}
    (same : ∀ entry, second (first entry) = first (second entry)) :
    (heap.mapEntry place first).mapEntry other second =
      (heap.mapEntry other second).mapEntry place first := by
  unfold mapEntry
  simp only [Heap.mk.injEq, and_true]
  refine Array.ext (by simp) fun index _ _ => ?_
  simp only [Array.getElem_modify]
  split <;> split <;> simp [Function.comp_def, same]

/-- A reference that is taken and given up leaves no trace. -/
theorem mapEntry_increment (place : Handle) :
    ((heap.increment place).mapEntry place fun entry => { entry with count := entry.count - 1 }) =
      heap := by
  unfold increment mapEntry
  obtain ⟨slots⟩ := heap
  simp only [Heap.mk.injEq, and_true]
  refine Array.ext (by simp) fun index _ _ => ?_
  simp only [Array.getElem_modify]
  split <;> simp [Function.comp_def]

theorem holding_cons (place : Handle) (handles : List Handle) :
    heap.holding (place :: handles) = (heap.holding handles).increment place := by
  unfold holding
  induction handles generalizing heap with
  | nil => rfl
  | cons other rest inductionHypothesis =>
    rw [List.foldl_cons, List.foldl_cons, List.foldl_cons, ← inductionHypothesis, List.foldl_cons]
    exact congrArg (rest.foldl increment) (heap.mapEntry_comm place other fun _ => rfl)

theorem holding_append (handles others : List Handle) :
    heap.holding (handles ++ others) = (heap.holding handles).holding others :=
  List.foldl_append

theorem holding_comm (handles others : List Handle) :
    (heap.holding handles).holding others = (heap.holding others).holding handles := by
  induction handles with
  | nil => rfl
  | cons place rest inductionHypothesis =>
    rw [holding_cons, holding_cons, ← inductionHypothesis]
    exact holding_cons (heap.holding rest) place others

theorem books_holding (handles : List Handle) : (heap.holding handles).books = heap.books := by
  induction handles with
  | nil => rfl
  | cons place rest inductionHypothesis =>
    rw [holding_cons]
    exact inductionHypothesis

theorem holding_pending (waiting handles : List Handle) :
    { heap with pending := waiting }.holding handles =
      { heap.holding handles with pending := waiting } := by
  induction handles with
  | nil => rfl
  | cons place rest inductionHypothesis =>
    rw [holding_cons, holding_cons, inductionHypothesis]
    rfl

theorem postponing_append (handles others : List Handle) :
    heap.postponing (handles ++ others) = (heap.postponing handles).postponing others := by
  simp only [postponing, holding_append, holding_pending, List.reverse_append, List.append_assoc]

theorem payload?_holding (handles : List Handle) (handle : Handle) :
    (heap.holding handles).payload? handle = heap.payload? handle := by
  induction handles with
  | nil => rfl
  | cons place rest inductionHypothesis =>
    rw [holding_cons, payload?_increment, inductionHypothesis]

theorem isLive_holding (handles : List Handle) (handle : Handle) :
    (heap.holding handles).isLive handle = heap.isLive handle :=
  isLive_congr (heap.payload?_holding handles handle)

theorem births_holding (handles : List Handle) (handle : Handle) :
    (heap.holding handles).births handle = heap.births handle := by
  induction handles with
  | nil => rfl
  | cons place rest inductionHypothesis =>
    rw [holding_cons, births_increment, inductionHypothesis]

theorem tally_le_holding (handles : List Handle) (handle : Handle) :
    heap.tally handle ≤ (heap.holding handles).tally handle := by
  induction handles with
  | nil => exact le_rfl
  | cons place rest inductionHypothesis =>
    refine inductionHypothesis.trans ?_
    rw [holding_cons, tally, tally, occupant?_increment]
    split
    · cases (heap.holding rest).occupant? handle with
      | none => exact le_rfl
      | some entry => exact Nat.le_succ entry.count
    · exact le_rfl

end

/-! ### Heaps that look the same -/

/-- Another heap shows the same entries. All of them are counted there, and no reference waits
unless releases are being worked off. -/
structure Shows (heap shown : Heap Code) : Prop where
  payloads : ∀ handle, shown.payload? handle = heap.payload? handle
  births : ∀ handle, shown.births handle = heap.births handle
  style : shown.methodStyle = heap.methodStyle
  positive : ∀ handle, shown.isLive handle → 0 < shown.tally handle
  settled : shown.releasing = false → shown.pending = []

/-- A heap came out of another one by looking at it. -/
def Observed (before after : Heap Code) : Prop :=
  ∃ handles, (before.releasing = false → handles = []) ∧ after = before.postponing handles

variable {heap shown before middle after : Heap Code} {handles others : List Handle}

theorem Sound.shows {outside : Multiset Handle} {limbo : List Handle}
    (sound : heap.Sound outside limbo) (settled : heap.releasing = false → heap.pending = []) :
    heap.Shows heap where
  payloads _ := rfl
  births _ := rfl
  style := rfl
  positive := sound.balanced.positive
  settled := settled

namespace Shows

theorem holding (shows : heap.Shows shown) (handles : List Handle) :
    heap.Shows (shown.holding handles) where
  payloads handle := (shown.payload?_holding handles handle).trans (shows.payloads handle)
  births handle := (shown.births_holding handles handle).trans (shows.births handle)
  style := (congrArg Heap.methodStyle (shown.books_holding handles) :).trans shows.style
  positive handle live := by
    rw [isLive_holding] at live
    exact (shows.positive handle live).trans_le (shown.tally_le_holding handles handle)
  settled idle := by
    have books := shown.books_holding handles
    exact (congrArg Heap.pending books :).trans
      (shows.settled ((congrArg Heap.releasing books :).symm.trans idle))

theorem isLive (shows : heap.Shows shown) (handle : Handle) :
    shown.isLive handle = heap.isLive handle :=
  isLive_congr (shows.payloads handle)

theorem read (shows : heap.Shows shown) : shown.read = heap.read := by
  funext handle
  rw [Heap.read, Heap.read, shows.payloads]

theorem observed (shows : heap.Shows shown) (observed : shown.Observed after) :
    heap.Shows after := by
  obtain ⟨handles, idle, rfl⟩ := observed
  have held := shows.holding handles
  refine ⟨held.payloads, held.births, held.style, held.positive, fun still => ?_⟩
  have started : shown.releasing = false :=
    ((congrArg Heap.releasing (shown.books_holding handles) :).symm.trans still)
  rw [idle started]
  exact shows.settled started

end Shows

namespace Observed

theorem refl (heap : Heap Code) : heap.Observed heap :=
  ⟨[], fun _ => rfl, rfl⟩

theorem trans (first : before.Observed middle) (second : middle.Observed after) :
    before.Observed after := by
  obtain ⟨handles, idle, rfl⟩ := first
  obtain ⟨others, still, rfl⟩ := second
  have books := before.books_holding handles
  refine ⟨handles ++ others, fun started => ?_, (before.postponing_append handles others).symm⟩
  rw [idle started, still ((congrArg Heap.releasing books :).trans started), List.append_nil]

/-- Between operations, looking at a heap leaves it as it is. -/
theorem eq_of_idle (observed : before.Observed after) (idle : before.releasing = false) :
    after = before := by
  obtain ⟨handles, nothing, rfl⟩ := observed
  rw [nothing idle]
  rfl

end Observed

end Heap

/-! ### Taking and giving up references -/

section

variable (world : World Code Host)

/-- References to live entries are taken one by one. -/
theorem retainAll_apply {values : List Value}
    (live : ∀ handle ∈ owned values, world.heap.isLive handle) :
    (retainAll values : Action Code Host Unit) world =
      .ok ((), { world with heap := world.heap.holding (values.filterMap Value.handle?) }) := by
  show (values.forM retainValue : Action Code Host Unit) world = _
  induction values generalizing world with
  | nil => rfl
  | cons value rest inductionHypothesis =>
    rw [owned_cons] at live
    have later := fun handle member => live handle (Multiset.mem_add.mpr (Or.inr member))
    cases value with
    | ref handle =>
      have first := live handle (Multiset.mem_add.mpr (Or.inl (Multiset.mem_singleton_self handle)))
      refine Action.bind_eq_ok.mpr ⟨(), _, (retain_apply world handle).trans (if_pos first), ?_⟩
      exact inductionHypothesis { world with heap := world.heap.increment handle }
        fun other member => (world.heap.isLive_increment handle other).trans (later other member)
    | _ => exact Action.bind_eq_ok.mpr ⟨(), world, rfl, inductionHypothesis world later⟩

variable {world} {heap : Heap Code} (engine : Engine Code Host)

/-- Between operations, giving up a reference that is not the last one takes it off the count. -/
theorem Engine.release_of_held (shows : heap.Shows world.heap) (idle : world.heap.releasing = false)
    (enough : 0 < engine.rounds) {handle : Handle} (live : heap.isLive handle) :
    engine.release (.ref handle) { world with heap := world.heap.increment handle } =
      .ok ((), world) := by
  obtain ⟨rounds, same⟩ := Nat.exists_eq_succ_of_ne_zero enough.ne'
  have there := (shows.isLive handle).trans live
  obtain ⟨entry, occupied⟩ := (world.heap.isLive_iff handle).mp there
  have positive := shows.positive handle there
  rw [Heap.tally_of_occupant? occupied] at positive
  have settled := shows.settled idle
  let busy : Heap Code :=
    { world.heap.increment handle with pending := [], releasing := true }
  let freed : Heap Code := busy.mapEntry handle fun entry => { entry with count := entry.count - 1 }
  have held : busy.occupant? handle = some { entry with count := entry.count + 1 } := by
    refine (world.heap.occupant?_increment handle handle).trans ?_
    rw [if_pos rfl, occupied]
    rfl
  have undone : { freed with releasing := false } = world.heap :=
    calc { freed with releasing := false }
      _ = { (world.heap.increment handle).mapEntry handle
            (fun entry => { entry with count := entry.count - 1 }) with
            pending := [], releasing := false } := rfl
      _ = world.heap := by rw [Heap.mapEntry_increment, ← idle, ← settled]
  have worked : engine.releaseAll engine.rounds { world with heap := { busy with pending := [handle] } } =
      .ok ((), { world with heap := freed }) := by
    rw [same]
    exact engine.releaseAll_of_cons rfl (engine.releaseNext_of_more held (by simpa using positive))
      (engine.releaseAll_of_settled rounds rfl)
  let waiting : World Code Host :=
    { world with heap := { world.heap.increment handle with pending := [handle] } }
  have still : waiting.heap.releasing = false := idle
  rw [engine.release_ref, show (world.heap.increment handle).pending = [] from settled]
  exact (engine.drain_of_releaseAll still worked).trans (by rw [undone])

/-- While releases are worked off, what is given up joins those that wait. -/
theorem Engine.release_of_busy (busy : world.heap.releasing = true) (handle : Handle) :
    engine.release (.ref handle) world =
      .ok ((), { world with heap := { world.heap with pending := handle :: world.heap.pending } }) := by
  refine Action.bind_eq_ok.mpr ⟨(), _, rfl, Action.bind_eq_ok.mpr ⟨_, _, rfl, ?_⟩⟩
  exact congrFun (if_pos busy) _

theorem Engine.releaseList_of_idle (enough : 0 < engine.rounds) {values : List Value}
    (shows : heap.Shows world.heap) (idle : world.heap.releasing = false)
    (live : ∀ handle ∈ owned values, heap.isLive handle) :
    engine.releaseList values
        { world with heap := world.heap.holding (values.filterMap Value.handle?) } =
      .ok ((), world) := by
  show (values.forM engine.release : Action Code Host Unit) _ = _
  -- Every value was retained before, so none of these references is the last one.
  induction values with
  | nil => rfl
  | cons value rest inductionHypothesis =>
    rw [owned_cons] at live
    have later := inductionHypothesis fun handle member => live handle (Multiset.mem_add.mpr (Or.inr member))
    cases value with
    | ref handle =>
      let handles := rest.filterMap Value.handle?
      let holding : World Code Host := { world with heap := world.heap.holding handles }
      have still : holding.heap.releasing = false :=
        (congrArg Heap.releasing (world.heap.books_holding handles) :).trans idle
      have held : heap.Shows holding.heap := shows.holding handles
      refine Action.bind_eq_ok.mpr ⟨(), _, ?_, later⟩
      show engine.release (.ref handle)
        { world with heap := world.heap.holding (handle :: handles) } = _
      rw [Heap.holding_cons]
      exact engine.release_of_held held still enough
        (live handle (Multiset.mem_add.mpr (Or.inl (Multiset.mem_singleton_self handle))))
    | _ => exact Action.bind_eq_ok.mpr ⟨(), _, rfl, later⟩

theorem Engine.releaseList_of_busy (busy : world.heap.releasing = true) (values : List Value) :
    engine.releaseList values world = .ok ((), { world with heap := { world.heap with
      pending := (values.filterMap Value.handle?).reverse ++ world.heap.pending } }) := by
  show (values.forM engine.release : Action Code Host Unit) _ = _
  induction values generalizing world with
  | nil => rfl
  | cons value rest inductionHypothesis =>
    cases value with
    | ref handle =>
      let waiting : World Code Host :=
        { world with heap := { world.heap with pending := handle :: world.heap.pending } }
      have still : waiting.heap.releasing = true := busy
      have stacked : (rest.filterMap Value.handle?).reverse ++ handle :: world.heap.pending =
          (handle :: rest.filterMap Value.handle?).reverse ++ world.heap.pending := by
        rw [List.reverse_cons, List.append_assoc, List.singleton_append]
      refine Action.bind_eq_ok.mpr ⟨(), waiting, engine.release_of_busy busy handle, ?_⟩
      rw [inductionHypothesis still]
      show Except.ok ((), { world with heap := { world.heap with
        pending := (rest.filterMap Value.handle?).reverse ++ handle :: world.heap.pending } }) = _
      rw [stacked]
      rfl
    | _ => exact Action.bind_eq_ok.mpr ⟨(), _, rfl, inductionHypothesis busy⟩

/-- References that were taken are given up, and what can be seen has not changed. -/
theorem Engine.releaseList_of_held (enough : 0 < engine.rounds) {values : List Value}
    (shows : heap.Shows world.heap) (live : ∀ handle ∈ owned values, heap.isLive handle)
    {between : Heap Code} (observed :
      (world.heap.holding (values.filterMap Value.handle?)).Observed between) :
    ∃ after, engine.releaseList values { world with heap := between } =
      .ok ((), { world with heap := after }) ∧ world.heap.Observed after := by
  obtain ⟨handles, nothing, rfl⟩ := observed
  have books := world.heap.books_holding (values.filterMap Value.handle?)
  have releasing := (congrArg Heap.releasing books :)
  have pending : (world.heap.holding (values.filterMap Value.handle?)).pending =
    world.heap.pending := (congrArg Heap.pending books :)
  cases idle : world.heap.releasing with
  | false =>
    rw [nothing (releasing.trans idle)]
    exact ⟨world.heap, engine.releaseList_of_idle enough shows idle live, .refl _⟩
  | true =>
    have later := world.heap.holding (values.filterMap Value.handle?) |>.books_holding handles
    have busy : ((world.heap.holding (values.filterMap Value.handle?)).postponing handles).releasing =
        true := (congrArg Heap.releasing later :).trans (releasing.trans idle)
    refine ⟨world.heap.postponing (handles ++ values.filterMap Value.handle?), ?_, _,
      fun still => Bool.noConfusion (idle.symm.trans still), rfl⟩
    rw [engine.releaseList_of_busy busy]
    simp only [Heap.postponing, Heap.holding_append, Heap.holding_comm _ handles,
      List.reverse_append, List.append_assoc]
    rw [pending]

end

/-! ### Operations that only look -/

namespace Attempt

/-- An attempt ends like this, and all it does in its course is to look at the heap. -/
def Tells (attempt : Attempt Code Host α) (world : World Code Host) (outcome : Except Error α) : Prop :=
  ∃ after, attempt.run world = .ok (outcome, { world with heap := after }) ∧
    world.heap.Observed after

/-- The answer of an attempt that succeeds. -/
def answer? (attempt : Attempt Code Host α) (world : World Code Host) : Option α :=
  (attempt.run world).toOption.bind fun result => result.1.toOption

/-- Wherever a heap shows, an attempt ends like this if it begins with a reference to each of the
values that are held, and all that comes of it, once it has given these up, is to have looked. -/
def Looks (heap : Heap Code) (held : List Value) (attempt : Attempt Code Host α)
    (outcome : Except Error α) : Prop :=
  ∀ world : World Code Host, heap.Shows world.heap → ∃ after,
    attempt.run { world with heap := world.heap.holding (held.filterMap Value.handle?) } =
      .ok (outcome, { world with heap := after }) ∧ world.heap.Observed after

variable {attempt : Attempt Code Host α} {world : World Code Host} {outcome : Except Error α}

/-- What an attempt tells is one thing. -/
theorem Tells.unique {other : Except Error α} (tells : attempt.Tells world outcome)
    (alike : attempt.Tells world other) : other = outcome := by
  obtain ⟨_, ended, _⟩ := tells
  obtain ⟨_, also, _⟩ := alike
  cases ended.symm.trans also
  rfl

/-- The answer that an attempt computes is what it tells. -/
theorem Tells.eq_of_answer? {answer : α} (tells : attempt.Tells world outcome)
    (computed : attempt.answer? world = some answer) : outcome = .ok answer := by
  obtain ⟨_, ended, _⟩ := tells
  unfold answer? at computed
  rw [ended] at computed
  cases outcome <;> cases computed
  rfl

namespace Looks

variable {heap : Heap Code} {held : List Value} {last : Except Error β}
  {next : α → Attempt Code Host β}

theorem tells (looks : attempt.Looks heap [] outcome) (shows : heap.Shows world.heap) :
    attempt.Tells world outcome :=
  looks world shows

theorem pure (answer : α) :
    (Pure.pure answer : Attempt Code Host α).Looks heap [] (.ok answer) :=
  fun world _ => ⟨world.heap, rfl, .refl _⟩

theorem refuse (refusal : Refusal) :
    (Attempt.refuse refusal : Attempt Code Host α).Looks heap [] (.error refusal.error) :=
  fun world _ => ⟨world.heap, rfl, .refl _⟩

/-- What comes next sees what the first attempt saw, and does not come after an error. -/
theorem bind (answer : α → Except Error β) (first : attempt.Looks heap held outcome)
    (second : ∀ found, outcome = .ok found → (next found).Looks heap [] (answer found)) :
    (attempt >>= next).Looks heap held (outcome >>= answer) := by
  intro world shows
  obtain ⟨between, ended, observed⟩ := first world shows
  cases outcome with
  | error error =>
    refine ⟨between, ?_, observed⟩
    rw [run_bind]
    exact Action.bind_eq_ok.mpr ⟨.error error, _, ended, rfl⟩
  | ok found =>
    obtain ⟨after, rest, later⟩ :=
      second found rfl { world with heap := between } (shows.observed observed)
    exact ⟨after, (run_bind_of_ok ended).trans rest, observed.trans later⟩

theorem congr {other : Except Error α} (looks : attempt.Looks heap held outcome)
    (same : outcome = other) : attempt.Looks heap held other :=
  same ▸ looks

/-- After a success the next attempt decides. -/
theorem bind_ok {found : α} (first : attempt.Looks heap [] (.ok found))
    (second : (next found).Looks heap [] last) : (attempt >>= next).Looks heap [] last := by
  refine bind (fun _ => last) first fun other same => ?_
  cases same
  exact second

/-- A question that has one answer wherever the heap shows. -/
theorem ask {question : Heap Code → Except Fault α} (answer : α)
    (answered : ∀ shown, heap.Shows shown → question shown = .ok answer)
    (rest : (next answer).Looks heap held last) :
    (ObjectHeap.ask question >>= next).Looks heap held last := by
  intro world shows
  obtain ⟨after, ended, observed⟩ := rest world shows
  exact ⟨after, (run_ask_bind answer (answered _ (shows.holding _))).trans ended, observed⟩

theorem retainAll {values : List Value} {next : Unit → Attempt Code Host β}
    (live : ∀ handle ∈ owned values, heap.isLive handle)
    (rest : (next ()).Looks heap (held ++ values) last) :
    (ObjectHeap.retainAll values >>= next).Looks heap held last := by
  intro world shows
  obtain ⟨after, ended, observed⟩ := rest world shows
  rw [List.filterMap_append, Heap.holding_append] at ended
  refine ⟨after, (run_act_bind (retainAll_apply _ fun handle member => ?_)).trans ended, observed⟩
  exact ((shows.holding _).isLive handle).trans (live handle member)

/-- The references that were taken are given up in any case. -/
theorem ensuring {engine : Engine Code Host} (enough : 0 < engine.rounds)
    (live : ∀ handle ∈ owned held, heap.isLive handle) (looks : attempt.Looks heap [] outcome) :
    (attempt.ensuring (engine.releaseList held)).Looks heap held outcome := by
  intro world shows
  obtain ⟨between, ended, looked⟩ :=
    looks { world with heap := world.heap.holding (held.filterMap Value.handle?) } (shows.holding _)
  obtain ⟨after, gaveUp, observed⟩ := engine.releaseList_of_held enough shows live looked
  exact ⟨after, ensuring_eq_ok.mpr ⟨_, ended, gaveUp⟩, observed⟩

end Looks

end Attempt

end ObjectHeap
