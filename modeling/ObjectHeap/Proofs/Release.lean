/-
This file establishes that releases keep every ledger, and that they go by their story. Taking a
reference and giving it up are the two small changes; the last reference to an entry gives up the
entry with all it owned, once the callbacks that are due were called. The loop is followed step by
step: while it runs, what is given up only joins the references that wait, and when it ends none is
left.
-/

import ObjectHeap.Proofs.TearDown

namespace ObjectHeap

variable {Code Host : Type} {ledger : Ledger Code Host} {scene : Scene}
  {before : World Code Host} {mine rest : Multiset Handle} {α : Type}

/-! ### Small changes -/

/-- The frame is a part of what is owned outside the heap. -/
theorem Scene.frame_subset (scene : Scene) (more held : Multiset Handle) :
    scene.frame ⊆ scene.frame + more + held := fun _ member =>
  Multiset.mem_add.mpr (Or.inl (Multiset.mem_add.mpr (Or.inl member)))

namespace Heap.Sound

variable {heap : Heap Code} {outside : Multiset Handle} {limbo : List Handle} {handle : Handle}

/-- A reference that is taken is owned outside. -/
theorem increment (sound : heap.Sound outside limbo) (live : heap.isLive handle) :
    (heap.increment handle).Sound (outside + {handle}) limbo :=
  sound.of_payloads (.increment heap handle) (heap.payload?_increment handle)
    (sound.balanced.increment live)

/-- A reference that is not the last one is one reference less outside. -/
theorem decrement {entry : Entry Code} (sound : heap.Sound (outside + {handle}) limbo)
    (held : heap.occupant? handle = some entry) (more : 1 < entry.count) :
    (heap.mapEntry handle fun entry => { entry with count := entry.count - 1 }).Sound
      outside limbo := by
  refine sound.of_payloads (.mapEntry heap handle _)
    (fun other => heap.payload?_mapEntry_count handle other (· - 1)) ?_
  refine sound.balanced.recount (entry.count - 1) held ?_ (fun other different => ?_) rfl
    (by omega) ?_
  · rw [occupant?_mapEntry, if_pos rfl, held]
    rfl
  · rw [occupant?_mapEntry, if_neg different]
  · obtain ⟨less, counted⟩ : ∃ less, entry.count = less + 1 := ⟨entry.count - 1, by omega⟩
    rw [counted, Nat.add_sub_cancel, Multiset.replicate_succ, ← Multiset.singleton_add]
    abel

/-- A reference that waited is owned once it was taken off the stack. -/
theorem dequeue {waiting : List Handle} (sound : heap.Sound outside limbo)
    (pending : heap.pending = handle :: waiting) :
    ({ heap with pending := waiting } : Heap Code).Sound (outside + {handle}) limbo :=
  sound.of_slots rfl rfl rfl (by
    rw [pending, ← Multiset.cons_coe, ← Multiset.singleton_add]
    abel)

end Heap.Sound

/-- A change of the books that leaves alone what is kept about slots, charges and releases. -/
structure Heap.Bookkeeping (change : Heap Code → Heap Code) : Prop where
  slots : ∀ heap, (change heap).slots = heap.slots
  free : ∀ heap, (change heap).free = heap.free
  pool : ∀ heap, (change heap).pool = heap.pool
  tracker : ∀ heap, (change heap).tracker = heap.tracker
  pending : ∀ heap, (change heap).pending = heap.pending
  releasing : ∀ heap, (change heap).releasing = heap.releasing
  unraisable : ∀ heap, (change heap).unraisable = heap.unraisable

theorem Heap.Bookkeeping.quiet {change : Heap Code → Heap Code} (books : Heap.Bookkeeping change)
    (heap : Heap Code) : heap.Quiet (change heap) :=
  .of_slots (books.slots heap) (books.free heap) (books.pool heap) (books.tracker heap)
    (books.releasing heap) (books.unraisable heap)

namespace Ledger

/-- As long as the slots and their homes stay, references may move between those that wait and
those that are owned. -/
theorem Stands.of_books (stands : ledger.Stands scene before mine) (heap : Heap Code)
    (rest : Multiset Handle) (slots : heap.slots = before.heap.slots)
    (free : heap.free = before.heap.free) (pool : heap.pool = before.heap.pool)
    (same : (heap.pending : Multiset Handle) + rest = (before.heap.pending : Multiset Handle) + mine) :
    ledger.Stands { scene with busy := heap.releasing } { before with heap } rest ∧
      before.heap.Carries ledger.calm scene.frame heap := by
  have carries : before.heap.Carries ledger.calm scene.frame heap :=
    .of_slots slots stands.sound.balanced (scene.frame_subset _ _)
  refine ⟨⟨stands.sound.of_slots slots free pool ?_, rfl,
    ledger.lasts stands.fits carries.evolves⟩, carries⟩
  calc (heap.pending : Multiset Handle) + (scene.frame + rest + ledger.held before.host)
      = (heap.pending : Multiset Handle) + rest + (scene.frame + ledger.held before.host) := by abel
    _ = (before.heap.pending : Multiset Handle) + mine +
        (scene.frame + ledger.held before.host) := by rw [same]
    _ = (before.heap.pending : Multiset Handle) +
        (scene.frame + mine + ledger.held before.host) := by abel

theorem Stands.of_slots (stands : ledger.Stands scene before mine) (heap : Heap Code)
    (rest : Multiset Handle) (slots : heap.slots = before.heap.slots)
    (free : heap.free = before.heap.free) (pool : heap.pool = before.heap.pool)
    (releasing : heap.releasing = scene.busy)
    (same : (heap.pending : Multiset Handle) + rest = (before.heap.pending : Multiset Handle) + mine) :
    ledger.Stands scene { before with heap } rest ∧
      before.heap.Carries ledger.calm scene.frame heap := by
  have moved := stands.of_books heap rest slots free pool same
  rwa [releasing] at moved

end Ledger

namespace Action

/-- Bookkeeping keeps every ledger. -/
theorem Keeps.bookkeeping {change : Heap Code → Heap Code} (books : Heap.Bookkeeping change) :
    Keeps ledger mine (modifyHeap change : Action Code Host Unit) fun _ => mine := by
  intro scene before holds
  obtain ⟨stands, carries⟩ := holds.of_slots (change before.heap) mine (books.slots before.heap)
    (books.free before.heap) (books.pool before.heap)
    ((books.releasing before.heap).trans holds.releasing)
    (congrArg (fun pending : List Handle => (pending : Multiset Handle) + mine)
      (books.pending before.heap))
  exact .of_eq (modifyHeap_apply before change)
    ⟨stands, fun idle => (books.pending before.heap).trans (holds.settled idle), holds.tidy⟩
    (.of_quiet carries (books.quiet before.heap))

/-- A reference that is taken is owned. -/
theorem Keeps.retain (handle : Handle) :
    Keeps ledger 0 (retain handle : Action Code Host Unit) fun _ => {handle} := by
  intro scene before holds answer after ended
  rw [retain_apply] at ended
  split at ended
  · rename_i live
    cases ended
    have carries : before.heap.Carries ledger.calm scene.frame (before.heap.increment handle) :=
      .of_payloads (fun other => before.heap.births_increment handle other)
        (fun other => before.heap.payload?_increment handle other) holds.sound.balanced
        (scene.frame_subset _ _)
    exact ⟨⟨⟨(holds.sound.increment live).congr (by abel), holds.releasing,
      ledger.lasts holds.fits carries.evolves⟩, holds.settled, holds.tidy⟩,
      .of_quiet carries (.of_payloads (.increment before.heap handle)
        (before.heap.payload?_increment handle))⟩
  · cases ended

theorem Keeps.retainValue (value : Value) :
    Keeps ledger 0 (retainValue value : Action Code Host Unit) fun _ => value.owns := by
  cases value with
  | ref handle => exact .retain handle
  | _ => exact .pure () rfl

theorem Keeps.retainAll (values : List Value) :
    Keeps ledger 0 (retainAll values : Action Code Host Unit) fun _ => owned values := by
  show Keeps ledger 0 (values.forM ObjectHeap.retainValue) _
  induction values with
  | nil => exact .pure () rfl
  | cons value others inductionHypothesis =>
    have rest := inductionHypothesis.gain value.owns
    rw [owned_cons]
    exact (Keeps.retainValue value).bind fun _ => rest

end Action

/-! ### Callbacks -/

/-- A way to give values up in a scene. -/
def GivesUp (ledger : Ledger Code Host) (scene : Scene) (release : Value → Action Code Host Unit) :
    Prop :=
  ∀ value before rest answer after, ledger.Holds scene before (rest + value.owns) →
    release value before = .ok (answer, after) →
    ledger.Holds scene after rest ∧ before.heap.Carries ledger.calm scene.frame after.heap ∧
      Story ledger.conduct .settling before after

/-- A reference that is to be given up waits on the stack. -/
theorem Ledger.Holds.enqueue {handle : Handle}
    (holds : ledger.Holds scene before (rest + (Value.ref handle).owns)) :
    ledger.Stands scene
        { before with heap := { before.heap with pending := handle :: before.heap.pending } } rest ∧
      before.heap.Carries ledger.calm scene.frame
        { before.heap with pending := handle :: before.heap.pending } ∧
      before.heap.Quiet { before.heap with pending := handle :: before.heap.pending } := by
  obtain ⟨stands, carries⟩ := holds.of_slots
    { before.heap with pending := handle :: before.heap.pending } rest rfl rfl rfl holds.releasing
    (by rw [← Multiset.cons_coe, ← Multiset.singleton_add, Value.owns_ref]; abel)
  exact ⟨stands, carries, .of_slots rfl rfl rfl rfl rfl rfl⟩

/-- While releases are worked off, what is given up waits. -/
theorem givesUp_enqueue (busy : scene.busy = true) :
    GivesUp ledger scene (enqueue : Value → Action Code Host Unit) := by
  intro value before rest answer after holds ended
  cases value with
  | ref handle =>
    cases ended
    obtain ⟨stands, carries, quiet⟩ := holds.enqueue
    exact ⟨⟨stands, (fun idle => nomatch busy.symm.trans idle), holds.tidy⟩, carries,
      .wait quiet (.settled _)⟩
  | _ =>
    cases ended
    exact ⟨holds.congr (add_zero rest), holds.carries_refl, .settled _⟩

/-- What a callback came to is noted. -/
theorem Ledger.Holds.noting (holds : ledger.Holds scene before mine) (outcome : Except Error Value) :
    ledger.Holds scene { before with heap := before.heap.noting outcome } mine ∧
      before.heap.Carries ledger.calm scene.frame (before.heap.noting outcome) := by
  cases outcome with
  | ok answer => exact ⟨holds, holds.carries_refl⟩
  | error error =>
    obtain ⟨stands, carries⟩ := holds.of_slots
      { before.heap with unraisable := before.heap.unraisable ++ [error] } mine rfl rfl rfl
      holds.releasing rfl
    exact ⟨⟨stands, holds.settled, holds.tidy⟩, carries⟩

namespace Engine

variable {engine : Engine Code Host}

/-- After a callback was called, the callback and what it answered are given up, and its error is
noted. -/
theorem settles_outcome {release : Value → Action Code Host Unit}
    (givesUp : GivesUp ledger scene release) (callback : Value) (outcome : Except Error Value)
    {next : Action Code Host Unit} {after : World Code Host} {answer : Unit}
    (holds : ledger.Holds scene before (rest + outcomeOwns Value.owns 0 outcome + callback.owns))
    (ended : (do
      release callback
      match outcome with
      | .ok answer => release answer
      | .error error => reportUnraisable error
      next) before = .ok (answer, after)) :
    ∃ left : World Code Host,
      ledger.Holds scene { left with heap := left.heap.noting outcome } rest ∧
      before.heap.Carries ledger.calm scene.frame (left.heap.noting outcome) ∧
      Story ledger.conduct .settling before left ∧
      next { left with heap := left.heap.noting outcome } = .ok (answer, after) := by
  obtain ⟨_, between, released, ended⟩ := Action.bind_eq_ok.mp ended
  obtain ⟨holds, carries, settles⟩ := givesUp callback before _ _ _ holds released
  cases outcome with
  | ok value =>
    obtain ⟨_, last, closed, ended⟩ := Action.bind_eq_ok.mp ended
    obtain ⟨holds, later, further⟩ := givesUp value between rest _ _ holds closed
    exact ⟨last, holds, carries.trans later, settles.settles further, ended⟩
  | error error =>
    obtain ⟨_, last, closed, ended⟩ := Action.bind_eq_ok.mp ended
    cases closed
    obtain ⟨done, later⟩ := (holds.congr (add_zero rest)).noting (.error error)
    exact ⟨between, done, carries.trans later, settles, ended⟩

/-- Callbacks take along what they owe. Each of them is called in its turn, and finds its weak
reference cleared, since whoever calls the callbacks holds it. -/
theorem Keeps.calls_runCallbacks (keeps : engine.Keeps ledger)
    {release : Value → Action Code Host Unit}
    (givesUp : ∀ more, GivesUp ledger (scene.framing more) release)
    (callbacks : List (Handle × Value)) {after : World Code Host} {answer : Unit}
    (holds : ledger.Holds scene before (rest + Heap.debts callbacks))
    (cleared : ∀ pair ∈ callbacks, before.heap.Cleared pair.1)
    (ended : engine.runCallbacks release callbacks before = .ok (answer, after)) :
    ledger.Holds scene after rest ∧ before.heap.Carries ledger.calm scene.frame after.heap ∧
      Story ledger.conduct (.calling callbacks) before after := by
  induction callbacks generalizing before with
  | nil =>
    cases ended
    exact ⟨holds.congr (add_zero rest), holds.carries_refl, .called _⟩
  | cons pair others inductionHypothesis =>
    obtain ⟨weakref, callback⟩ := pair
    obtain ⟨outcome, between, called, ended⟩ := Action.bind_eq_ok.mp ended
    have argument : (Arguments.ofList [Value.ref weakref]).owns = {weakref} := by simp
    obtain ⟨afterCall, course⟩ := keeps.callBack callback (Arguments.ofList [.ref weakref])
      (scene.framing (Heap.debts others + rest + callback.owns)) before
      (Ledger.Holds.framing_iff.mpr (holds.congr (by rw [argument, Heap.debts_cons]; abel)))
      outcome between called
    have framed : ledger.Holds (scene.framing (Heap.debts others)) between
        (rest + outcomeOwns Value.owns 0 outcome + callback.owns) :=
      Ledger.Holds.framing_iff.mpr ((Ledger.Holds.framing_iff.mp afterCall).congr
        (by cases outcome <;> simp only [outcomeOwns] <;> abel))
    obtain ⟨left, afterNote, carries, settles, going⟩ :=
      settles_outcome (givesUp (Heap.debts others)) callback outcome framed ended
    -- What the later callbacks owe is part of the frame while an earlier one runs.
    have kept : before.heap.Carries ledger.calm (scene.framing (Heap.debts others)).frame
        (left.heap.noting outcome) := by
      refine (course.toCarries.mono fun handle member => ?_).trans carries
      simp only [Scene.framing, Multiset.mem_add] at member ⊢
      tauto
    have held (pair : Handle × Value) (member : pair ∈ others) :
        pair.1 ∈ (scene.framing (Heap.debts others)).frame :=
      Multiset.mem_add.mpr (Or.inr (Heap.mem_debts.mpr ⟨pair, member, Or.inl rfl⟩))
    obtain ⟨done, further, rest⟩ := inductionHypothesis
      ((Ledger.Holds.framing_iff.mp afterNote).congr (add_comm _ _))
      (fun pair member => kept.cleared (held pair member)
        (afterNote.isLive (Multiset.mem_add.mpr (Or.inl (held pair member))))
        (cleared pair (List.mem_cons_of_mem _ member))) going
    refine ⟨done, (kept.mono fun handle member => Multiset.mem_add.mpr (Or.inl member)).trans
      further, ?_⟩
    exact .call (cleared _ List.mem_cons_self) (keeps.calls _ _ _ _ _ called) course.story settles rest

/-- In a calm run no callback is due. -/
theorem Keeps.silent (keeps : engine.Keeps ledger) {release : Value → Action Code Host Unit}
    {callbacks : List (Handle × Value)} {after : World Code Host} {answer : Unit}
    (ended : engine.runCallbacks release callbacks before = .ok (answer, after))
    (calm : ledger.calm) : callbacks = [] := by
  cases callbacks with
  | nil => rfl
  | cons pair others =>
    obtain ⟨outcome, between, called, _⟩ := Action.bind_eq_ok.mp ended
    exact absurd called (keeps.calm calm pair.2 _ before outcome between)

end Engine

/-! ### Giving up one reference -/

/-- A reference that is not the last one is taken off the count. -/
theorem decrement_of_more {handle : Handle} {entry : Entry Code}
    (held : before.heap.occupant? handle = some entry) (more : 1 < entry.count) :
    (decrement handle : Action Code Host _) before =
      .ok (none, { before with
        heap := before.heap.mapEntry handle fun entry => { entry with count := entry.count - 1 } }) := by
  refine Action.bind_eq_ok.mpr ⟨before.heap, before, rfl, ?_⟩
  rw [held]
  dsimp only
  rw [if_pos more]
  rfl

/-- The last reference takes the payload out of its slot. -/
theorem decrement_of_last {handle : Handle} {entry : Entry Code}
    (held : before.heap.occupant? handle = some entry) (last : entry.count ≤ 1) :
    (decrement handle : Action Code Host _) before =
      .ok (some entry.payload, { before with heap := before.heap.setEntry handle none }) := by
  refine Action.bind_eq_ok.mpr ⟨before.heap, before, rfl, ?_⟩
  rw [held]
  dsimp only
  rw [if_neg (Nat.not_lt.mpr last)]
  rfl

/-- A reference that is not the last one is one reference less outside. -/
theorem Ledger.Stands.decrement {handle : Handle} {entry : Entry Code}
    (stands : ledger.Stands scene before (rest + {handle}))
    (held : before.heap.occupant? handle = some entry) (more : 1 < entry.count) :
    ledger.Stands scene { before with
      heap := before.heap.mapEntry handle fun entry => { entry with count := entry.count - 1 } } rest ∧
      before.heap.Carries ledger.calm scene.frame
        (before.heap.mapEntry handle fun entry => { entry with count := entry.count - 1 }) ∧
      before.heap.Quiet
        (before.heap.mapEntry handle fun entry => { entry with count := entry.count - 1 }) := by
  have payloads (other : Handle) := before.heap.payload?_mapEntry_count handle other (· - 1)
  have carries : before.heap.Carries ledger.calm scene.frame
      (before.heap.mapEntry handle fun entry => { entry with count := entry.count - 1 }) :=
    .of_payloads (fun other => before.heap.births_mapEntry handle other _) payloads
      stands.sound.balanced (scene.frame_subset _ _)
  have owned : before.heap.Sound (scene.frame + rest + ledger.held before.host + {handle})
      scene.limbo := stands.sound.congr (by abel)
  exact ⟨⟨owned.decrement held more, stands.releasing, ledger.lasts stands.fits carries.evolves⟩,
    carries, .of_payloads (.mapEntry before.heap handle _) payloads⟩

/-- A reference that waited is owned once it was taken off the stack. -/
theorem Ledger.Stands.dequeue {handle : Handle} {waiting : List Handle}
    (stands : ledger.Stands scene before mine) (pending : before.heap.pending = handle :: waiting) :
    ledger.Stands scene { before with heap := { before.heap with pending := waiting } }
        (mine + {handle}) ∧
      before.heap.Carries ledger.calm scene.frame { before.heap with pending := waiting } ∧
      before.heap.Quiet { before.heap with pending := waiting } := by
  obtain ⟨taken, carries⟩ := stands.of_slots { before.heap with pending := waiting }
    (mine + {handle}) rfl rfl rfl stands.releasing (by
      rw [pending, ← Multiset.cons_coe, ← Multiset.singleton_add]
      dsimp only
      abel)
  exact ⟨taken, carries, .of_slots rfl rfl rfl rfl rfl rfl⟩

/-! ### The loop -/

namespace Engine

variable {engine : Engine Code Host}

/-- The scene in which the entry of a slot is taken apart. -/
def emptying (scene : Scene) (handle : Handle) : Scene :=
  { scene with limbo := handle :: scene.limbo }

/-- The last part of taking an entry apart. -/
theorem bury_eq (place : Handle) (payload : Payload Code) (world : World Code Host) :
    (do
      match payload.target? with
      | some target => modifyHeap (·.unregister target place)
      | none => pure ()
      modifyHeap fun heap => { heap with pending := payload.leavings heap.pending }
      modifyHeap (·.recycle place payload.isMethod) : Action Code Host Unit) world =
      .ok ((), { world with heap := world.heap.bury place payload }) := by
  unfold Heap.bury
  cases payload.target? <;> rfl

/-- What a dead payload owned joins the references that wait, and its slot is free again. -/
theorem yields_bury {handle : Handle} (payload : Payload Code) (busy : scene.busy = true)
    (clear : ¬ ledger.calm → scene.limbo = [])
    (holds : ledger.Holds (emptying scene handle) before (rest + payload.owns)) :
    let heap := { before.heap with pending := payload.leavings before.heap.pending }.recycle handle
      payload.isMethod
    ledger.Holds scene { before with heap } rest ∧
      before.heap.Carries ledger.calm scene.frame heap := by
  obtain ⟨stands, carries⟩ := holds.of_slots
    { before.heap with pending := payload.leavings before.heap.pending } rest rfl rfl rfl
    holds.releasing (by rw [Payload.leavings_eq]; abel)
  have recycled : Heap.Carries ledger.calm scene.frame
      { before.heap with pending := payload.leavings before.heap.pending } _ :=
    .of_slots (Heap.slots_recycle _ handle payload.isMethod) stands.sound.balanced
      (scene.frame_subset _ _)
  refine ⟨⟨⟨stands.sound.recycle payload.isMethod, ?_, ledger.lasts stands.fits recycled.evolves⟩,
    (fun idle => nomatch busy.symm.trans idle), fun wild => ⟨?_, fun _ => clear wild⟩⟩,
    carries.trans recycled⟩
  · show (Heap.recycle _ handle payload.isMethod).releasing = _
    unfold Heap.recycle
    split <;> exact holds.releasing
  · rw [clear wild]
    exact Nat.zero_le 1

section

variable {handle : Handle} {entry : Entry Code} (busy : scene.busy = true)
  (clear : ¬ ledger.calm → scene.limbo = [])

include busy clear in
theorem tidy_emptying (wild : ¬ ledger.calm) : (emptying scene handle).Tidy :=
  ⟨by rw [emptying, clear wild]; exact le_rfl, fun idle => nomatch busy.symm.trans idle⟩

variable (stands : ledger.Stands scene before (rest + {handle}))
  (held : before.heap.occupant? handle = some entry) (last : entry.count ≤ 1)

include stands in
theorem sound_of_last : before.heap.Sound
    (scene.frame + rest + ledger.held before.host + {handle}) scene.limbo := by
  convert stands.sound using 1
  abel

include busy clear stands held last

/-- Once its register was cleared, what an entry owned is left, and so are the callbacks. -/
theorem holds_clearDead {tracker : Tracker} {heap : Heap Code} {callbacks : List (Handle × Value)}
    (aimless : entry.payload.target? = none)
    (clears : (before.heap.emptied handle tracker).ClearsRegister (fun _ => false)
      entry.payload.watchers callbacks heap) (silent : ledger.calm → callbacks = []) :
    ledger.Holds (emptying scene handle) { before with heap }
        (rest + entry.payload.owns + Heap.debts callbacks) ∧
      before.heap.Carries ledger.calm scene.frame heap := by
  have sound := sound_of_last stands
  have carries := Heap.Carries.clearDead sound held last tracker clears silent
    (scene.frame_subset rest (ledger.held before.host))
  refine ⟨⟨⟨?_, (congrArg Heap.releasing clears.steady.books :).trans stands.releasing,
    ledger.lasts stands.fits carries.evolves⟩, (fun idle => nomatch busy.symm.trans idle),
    tidy_emptying busy clear⟩, carries⟩
  refine (sound.clearDead clears held last aimless).congr ?_
  dsimp only [emptying]
  abel

/-- Once it was taken off the register of its target, what a weak reference owned is left. -/
theorem holds_forgetDead (tracker : Tracker) {target : Handle}
    (aimed : entry.payload.target? = some target) :
    ledger.Holds (emptying scene handle)
        { before with heap := (before.heap.emptied handle tracker).unregister target handle }
        (rest + entry.payload.owns) ∧
      before.heap.Carries ledger.calm scene.frame
        ((before.heap.emptied handle tracker).unregister target handle) := by
  have sound := sound_of_last stands
  have sub := scene.frame_subset rest (ledger.held before.host)
  have carries : before.heap.Carries ledger.calm scene.frame
      ((before.heap.emptied handle tracker).unregister target handle) :=
    .trans (.emptied sound.balanced held last tracker sub)
      (.mapWatchers (sound.balanced.emptied held last tracker)
        (fun other member => Multiset.mem_add.mpr (Or.inl (sub member))) target (·.erase handle))
  refine ⟨⟨⟨?_, stands.releasing, ledger.lasts stands.fits carries.evolves⟩,
    (fun idle => nomatch busy.symm.trans idle), tidy_emptying busy clear⟩, carries⟩
  refine (sound.forgetDead held last tracker aimed).congr ?_
  dsimp only [emptying]
  abel

end

/-- The last reference to an entry is given up with all that the entry owned. -/
theorem Keeps.frees_tearDown (keeps : engine.Keeps ledger) {handle : Handle} {entry : Entry Code}
    (busy : scene.busy = true) (clear : ¬ ledger.calm → scene.limbo = [])
    (stands : ledger.Stands scene before (rest + {handle}))
    (held : before.heap.occupant? handle = some entry) (last : entry.count ≤ 1)
    {after : World Code Host} {answer : Unit}
    (ended : engine.tearDown handle entry.payload
      { before with heap := before.heap.setEntry handle none } = .ok (answer, after)) :
    ledger.Holds scene after rest ∧ before.heap.Carries ledger.calm scene.frame after.heap ∧
      ∃ callbacks heap between, before.heap.Frees handle entry.payload callbacks heap ∧
        Story ledger.conduct (.calling callbacks) { before with heap } between ∧
        after = { between with heap := between.heap.bury handle entry.payload } := by
  have sound := sound_of_last stands
  unfold tearDown at ended
  obtain ⟨_, world, credited, ended⟩ := Action.bind_eq_ok.mp ended
  cases credited
  let tracker := before.heap.tracker.credit (UInt64.ofNat entry.payload.size)
  obtain ⟨callbacks, world, cleared, ended⟩ := Action.bind_eq_ok.mp ended
  rw [changeHeap_apply] at cleared
  obtain ⟨_, between, called, closing⟩ := Action.bind_eq_ok.mp ended
  cases (bury_eq handle entry.payload between).symm.trans closing
  cases aimed : entry.payload.target? with
  | none =>
    have clears := sound.watched.clearsRegister_emptied held tracker aimed
    cases cleared
    obtain ⟨dead, carries⟩ := holds_clearDead busy clear stands held last aimed clears
      fun calm => keeps.silent called calm
    have frees := Heap.Frees.of_clearsRegister sound held (stands.releasing.trans busy) clears
    have waits (more : Multiset Handle) :
        GivesUp ledger ((emptying scene handle).framing more) enqueue := givesUp_enqueue busy
    obtain ⟨holds, later, story⟩ := keeps.calls_runCallbacks waits _ dead
      (fun pair member => frees.cleared member) called
    obtain ⟨done, last⟩ := yields_bury entry.payload busy clear holds
    rw [← Heap.bury_of_aimless _ _ aimed] at done last
    exact ⟨done, (carries.trans later).trans last, _, _, _, frees, story, rfl⟩
  | some target =>
    have unregistered := Heap.watchers_of_aimed aimed
    rw [unregistered] at cleared
    cases cleared
    cases called
    have frees : before.heap.Frees handle entry.payload [] (before.heap.emptied handle tracker) :=
      .of_unwatched sound (stands.releasing.trans busy) held unregistered
    obtain ⟨forgotten, carries⟩ := holds_forgetDead busy clear stands held last tracker aimed
    obtain ⟨done, last⟩ := yields_bury entry.payload busy clear forgotten
    have buried := (before.heap.emptied handle tracker).bury_of_aimed handle aimed
    exact ⟨buried ▸ done, buried ▸ carries.trans last, _, _, _, frees, .called _, rfl⟩

/-- One reference is given up. -/
theorem Keeps.tells_releaseNext (keeps : engine.Keeps ledger) {handle : Handle}
    (busy : scene.busy = true) (clear : ¬ ledger.calm → scene.limbo = [])
    (stands : ledger.Stands scene before (rest + {handle})) {after : World Code Host} {answer : Unit}
    (ended : engine.releaseNext handle before = .ok (answer, after)) :
    ledger.Holds scene after rest ∧ before.heap.Carries ledger.calm scene.frame after.heap ∧
      ∀ last, Story ledger.conduct .releasing after last → Story ledger.conduct .releasing before last := by
  obtain ⟨entry, held⟩ := (before.heap.isLive_iff handle).mp
    (stands.isLive (Multiset.mem_add.mpr (Or.inr (by simp))))
  obtain ⟨found, between, first, going⟩ := Action.bind_eq_ok.mp ended
  by_cases more : 1 < entry.count
  · rw [decrement_of_more held more] at first
    cases first
    cases going
    obtain ⟨less, carries, quiet⟩ := stands.decrement held more
    refine ⟨⟨less, (fun idle => nomatch busy.symm.trans idle), fun wild =>
      ⟨by rw [clear wild]; exact Nat.zero_le 1, fun _ => clear wild⟩⟩, carries, fun last story => ?_⟩
    exact .spare quiet story
  · rw [decrement_of_last held (Nat.not_lt.mp more)] at first
    cases first
    obtain ⟨done, carries, callbacks, heap, between, frees, called, rfl⟩ :=
      keeps.frees_tearDown busy clear stands held (Nat.not_lt.mp more) going
    exact ⟨done, carries, fun last story => .free frees called story⟩

/-- A reference that is not the last one is given up by taking it off the count. -/
theorem releaseNext_of_more (engine : Engine Code Host) {handle : Handle} {entry : Entry Code}
    (held : before.heap.occupant? handle = some entry) (more : 1 < entry.count) :
    engine.releaseNext handle before = .ok ((), { before with
      heap := before.heap.mapEntry handle fun entry => { entry with count := entry.count - 1 } }) :=
  Action.bind_eq_ok.mpr ⟨none, _, decrement_of_more held more, rfl⟩

/-- Taking the next reference off the stack makes it one of those that are owned. -/
theorem dequeue_of_cons {handle : Handle} {waiting : List Handle}
    (pending : before.heap.pending = handle :: waiting) :
    (dequeue : Action Code Host _) before =
      .ok (some handle, { before with heap := { before.heap with pending := waiting } }) := by
  unfold dequeue
  rw [changeHeap_apply, pending]

theorem dequeue_of_nil (pending : before.heap.pending = []) :
    (dequeue : Action Code Host _) before = .ok (none, before) := by
  unfold dequeue
  rw [changeHeap_apply, pending]

/-- Where nothing waits, the loop has nothing to do. -/
theorem releaseAll_of_settled (engine : Engine Code Host) (rounds : Nat)
    (settled : before.heap.pending = []) : engine.releaseAll rounds before = .ok ((), before) := by
  cases rounds <;> exact Action.bind_eq_ok.mpr ⟨none, before, dequeue_of_nil settled, rfl⟩

/-- A round of the loop gives up the reference that is on top of the stack. -/
theorem releaseAll_of_cons (engine : Engine Code Host) {rounds : Nat} {handle : Handle}
    {waiting : List Handle} {later last : World Code Host}
    (pending : before.heap.pending = handle :: waiting)
    (released : engine.releaseNext handle
      { before with heap := { before.heap with pending := waiting } } = .ok ((), later))
    (ended : engine.releaseAll rounds later = .ok ((), last)) :
    engine.releaseAll (rounds + 1) before = .ok ((), last) :=
  Action.bind_eq_ok.mpr ⟨some handle, _, dequeue_of_cons pending,
    Action.bind_eq_ok.mpr ⟨(), later, released, ended⟩⟩

/-- Releases that are worked off in the loop leave a heap in which none is in progress. -/
theorem drain_of_releaseAll (engine : Engine Code Host) {later : World Code Host}
    (idle : before.heap.releasing = false)
    (worked : engine.releaseAll engine.rounds
      { before with heap := { before.heap with releasing := true } } = .ok ((), later)) :
    engine.drain before = .ok ((), { later with heap := { later.heap with releasing := false } }) := by
  refine Action.bind_eq_ok.mpr ⟨before.heap, before, rfl, ?_⟩
  rw [if_neg (by rw [idle]; exact Bool.false_ne_true)]
  exact Action.bind_eq_ok.mpr ⟨(), _, rfl, Action.bind_eq_ok.mpr ⟨(), later, worked, rfl⟩⟩

/-- A reference that is given up is put on the stack, and the stack is worked off. -/
theorem release_ref (engine : Engine Code Host) (handle : Handle) (world : World Code Host) :
    engine.release (.ref handle) world = engine.drain
      { world with heap := { world.heap with pending := handle :: world.heap.pending } } :=
  rfl

/-- When the loop ends, no reference waits any more. -/
theorem Keeps.tells_releaseAll (keeps : engine.Keeps ledger) (busy : scene.busy = true)
    (clear : ¬ ledger.calm → scene.limbo = []) (rounds : Nat) {after : World Code Host}
    {answer : Unit} (stands : ledger.Stands scene before mine)
    (ended : engine.releaseAll rounds before = .ok (answer, after)) :
    after.heap.pending = [] ∧ ledger.Stands scene after mine ∧
      before.heap.Carries ledger.calm scene.frame after.heap ∧
      Story ledger.conduct .releasing before after := by
  -- At most one reference is worked off in a round, so the induction follows the loop.
  induction rounds generalizing before with
  | zero =>
    obtain ⟨found, between, first, going⟩ := Action.bind_eq_ok.mp ended
    cases pending : before.heap.pending with
    | nil =>
      rw [dequeue_of_nil pending] at first
      cases first
      cases going
      exact ⟨pending, stands, stands.carries_refl, .released _⟩
    | cons handle waiting =>
      rw [dequeue_of_cons pending] at first
      cases first
      cases going
  | succ rounds inductionHypothesis =>
    obtain ⟨found, between, first, going⟩ := Action.bind_eq_ok.mp ended
    cases pending : before.heap.pending with
    | nil =>
      rw [dequeue_of_nil pending] at first
      cases first
      cases going
      exact ⟨pending, stands, stands.carries_refl, .released _⟩
    | cons handle waiting =>
      rw [dequeue_of_cons pending] at first
      cases first
      obtain ⟨taken, carries, quiet⟩ := stands.dequeue pending
      obtain ⟨_, later, released, rest⟩ := Action.bind_eq_ok.mp going
      obtain ⟨holds, further, tells⟩ := keeps.tells_releaseNext busy clear taken released
      obtain ⟨empty, done, last, story⟩ := inductionHypothesis holds.toStands rest
      exact ⟨empty, done, (carries.trans further).trans last, .spare quiet (tells after story)⟩

/-- After the releases are worked off no reference waits, unless they were being worked off
already. -/
theorem Keeps.settles_drain (keeps : engine.Keeps ledger) (stands : ledger.Stands scene before mine)
    (tidy : ¬ ledger.calm → scene.Tidy) {after : World Code Host} {answer : Unit}
    (ended : engine.drain before = .ok (answer, after)) :
    ledger.Holds scene after mine ∧ before.heap.Carries ledger.calm scene.frame after.heap ∧
      Story ledger.conduct .settling before after := by
  obtain ⟨heap, between, first, going⟩ := Action.bind_eq_ok.mp ended
  cases first
  cases busy : scene.busy with
  | true =>
    rw [if_pos (stands.releasing.trans busy)] at going
    cases going
    exact ⟨⟨stands, (fun idle => nomatch busy.symm.trans idle), tidy⟩, stands.carries_refl, .settled _⟩
  | false =>
    have idle : before.heap.releasing = false := stands.releasing.trans busy
    rw [if_neg (by rw [idle]; exact Bool.false_ne_true)] at going
    obtain ⟨_, started, begun, going⟩ := Action.bind_eq_ok.mp going
    cases begun
    obtain ⟨_, finished, worked, closing⟩ := Action.bind_eq_ok.mp going
    cases closing
    obtain ⟨working, early⟩ := stands.of_books { before.heap with releasing := true } mine
      rfl rfl rfl rfl
    have clear : ¬ ledger.calm → ({ scene with busy := true } : Scene).limbo = [] :=
      fun wild => (tidy wild).idle busy
    obtain ⟨empty, worked, middle, story⟩ := keeps.tells_releaseAll rfl clear _ working worked
    obtain ⟨done, late⟩ := worked.of_books { finished.heap with releasing := false } mine
      rfl rfl rfl rfl
    have same : { scene with busy := false } = scene := by rw [← busy]
    have settled : ledger.Stands { scene with busy := false } _ mine := done
    rw [same] at settled
    exact ⟨⟨settled, fun _ => empty, tidy⟩, (early.trans middle).trans late,
      .drain idle story (.settled _)⟩

theorem Keeps.yields_drain (keeps : engine.Keeps ledger) (stands : ledger.Stands scene before mine)
    (tidy : ¬ ledger.calm → scene.Tidy) :
    engine.drain.Yields ledger scene before fun _ => mine := by
  intro answer after ended
  obtain ⟨holds, carries, story⟩ := keeps.settles_drain stands tidy ended
  exact ⟨holds, carries, .settle story⟩

/-! ### Giving up values -/

/-- A value is given up. -/
theorem Keeps.givesUp_release (keeps : engine.Keeps ledger) :
    GivesUp ledger scene engine.release := by
  intro value before rest answer after holds ended
  cases value with
  | ref handle =>
    obtain ⟨_, between, first, going⟩ := Action.bind_eq_ok.mp ended
    cases first
    obtain ⟨stands, carries, quiet⟩ := holds.enqueue
    obtain ⟨done, later, story⟩ := keeps.settles_drain stands holds.tidy going
    exact ⟨done, carries.trans later, .wait quiet story⟩
  | _ =>
    cases ended
    exact ⟨holds.congr (add_zero rest), holds.carries_refl, .settled _⟩

theorem Keeps.release (keeps : engine.Keeps ledger) (value : Value) :
    (engine.release value).Keeps ledger value.owns fun _ => 0 := by
  intro scene before holds answer after ended
  obtain ⟨done, carries, story⟩ :=
    keeps.givesUp_release value before 0 _ _ (holds.congr (zero_add _).symm) ended
  exact ⟨done, carries, .settle story⟩

theorem Keeps.release? (keeps : engine.Keeps ledger) (value : Option Value) :
    (engine.release? value).Keeps ledger (owned value.toList) fun _ => 0 := by
  cases value with
  | none => exact .pure () rfl
  | some value => exact (keeps.release value).congr (by simp)

theorem Keeps.releaseList (keeps : engine.Keeps ledger) (values : List Value) :
    (engine.releaseList values).Keeps ledger (owned values) fun _ => 0 := by
  induction values with
  | nil => exact .pure () rfl
  | cons value others inductionHypothesis =>
    have first := (keeps.release value).spend (owned others)
    exact (first.bind fun _ => inductionHypothesis).congr (by rw [owned_cons, add_comm])

theorem Keeps.releaseArguments (keeps : engine.Keeps ledger) (arguments : Arguments) :
    (engine.releaseArguments arguments).Keeps ledger arguments.owns fun _ => 0 :=
  keeps.releaseList arguments.values

/-! ### Why releases stop -/

/-- A run stops when its rounds are used up, or where a callback stops. -/
def Stops (engine : Engine Code Host) (fault : Fault) : Prop :=
  fault = .exhausted ∨ ∃ callback arguments before,
    (engine.callBack callback arguments).run before = .error fault

variable {fault : Fault}

theorem enqueue_ne_error (value : Value) :
    (enqueue value : Action Code Host Unit) before ≠ .error fault := by
  cases value <;> exact fun stopped => nomatch stopped

theorem runCallbacks_stops {callbacks : List (Handle × Value)}
    (stopped : engine.runCallbacks enqueue callbacks before = .error fault) : engine.Stops fault := by
  induction callbacks generalizing before with
  | nil => cases stopped
  | cons pair others inductionHypothesis =>
    rcases Action.bind_eq_error.mp stopped with called | ⟨outcome, between, _, stopped⟩
    · exact Or.inr ⟨_, _, _, called⟩
    rcases Action.bind_eq_error.mp stopped with released | ⟨_, middle, _, stopped⟩
    · exact absurd released (enqueue_ne_error _)
    cases outcome with
    | ok answer =>
      rcases Action.bind_eq_error.mp stopped with closed | ⟨_, last, _, stopped⟩
      · exact absurd closed (enqueue_ne_error _)
      · exact inductionHypothesis stopped
    | error error =>
      rcases Action.bind_eq_error.mp stopped with noted | ⟨_, last, _, stopped⟩
      · cases noted
      · exact inductionHypothesis stopped

theorem tearDown_stops {handle : Handle} {payload : Payload Code}
    (stopped : engine.tearDown handle payload before = .error fault) : engine.Stops fault := by
  rcases Action.bind_eq_error.mp stopped with credited | ⟨_, world, _, stopped⟩
  · cases credited
  rcases Action.bind_eq_error.mp stopped with cleared | ⟨callbacks, world, _, stopped⟩
  · cases cleared
  rcases Action.bind_eq_error.mp stopped with called | ⟨_, between, _, stopped⟩
  · exact runCallbacks_stops called
  · cases (bury_eq handle payload between).symm.trans stopped

theorem releaseNext_stops {handle : Handle} (live : before.heap.isLive handle)
    (stopped : engine.releaseNext handle before = .error fault) : engine.Stops fault := by
  obtain ⟨entry, held⟩ := (before.heap.isLive_iff handle).mp live
  by_cases more : 1 < entry.count
  · cases (Action.bind_of_ok (decrement_of_more held more)).symm.trans stopped
  · exact tearDown_stops
      ((Action.bind_of_ok (decrement_of_last held (Nat.not_lt.mp more))).symm.trans stopped)

/-- A reference that waits is counted, so that its entry is still there when it is given up. -/
theorem Keeps.releaseAll_stops (keeps : engine.Keeps ledger) (busy : scene.busy = true)
    (clear : ¬ ledger.calm → scene.limbo = []) (rounds : Nat)
    (stands : ledger.Stands scene before mine)
    (stopped : engine.releaseAll rounds before = .error fault) : engine.Stops fault := by
  induction rounds generalizing before with
  | zero =>
    cases pending : before.heap.pending with
    | nil => cases (Action.bind_of_ok (dequeue_of_nil pending)).symm.trans stopped
    | cons handle waiting =>
      cases (Action.bind_of_ok (dequeue_of_cons pending)).symm.trans stopped
      exact Or.inl rfl
  | succ rounds inductionHypothesis =>
    cases pending : before.heap.pending with
    | nil => cases (Action.bind_of_ok (dequeue_of_nil pending)).symm.trans stopped
    | cons handle waiting =>
      obtain ⟨taken, _⟩ := stands.dequeue pending
      rcases Action.bind_eq_error.mp
        ((Action.bind_of_ok (dequeue_of_cons pending)).symm.trans stopped) with
        released | ⟨_, later, released, stopped⟩
      · exact releaseNext_stops (taken.isLive (Multiset.mem_add.mpr (Or.inr (by simp)))) released
      · obtain ⟨holds, _, _⟩ := keeps.tells_releaseNext busy clear taken released
        exact inductionHypothesis holds.toStands stopped

theorem Keeps.drain_stops (keeps : engine.Keeps ledger) (stands : ledger.Stands scene before mine)
    (tidy : ¬ ledger.calm → scene.Tidy) (stopped : engine.drain before = .error fault) :
    engine.Stops fault := by
  have stopped := (Action.bind_of_ok (currentHeap_apply before)).symm.trans stopped
  cases busy : scene.busy with
  | true =>
    rw [if_pos (stands.releasing.trans busy)] at stopped
    cases stopped
  | false =>
    have idle : before.heap.releasing = false := stands.releasing.trans busy
    rw [if_neg (by rw [idle]; exact Bool.false_ne_true)] at stopped
    obtain ⟨working, _⟩ := stands.of_books { before.heap with releasing := true } mine rfl rfl rfl rfl
    have clear : ¬ ledger.calm → ({ scene with busy := true } : Scene).limbo = [] :=
      fun wild => (tidy wild).idle busy
    rcases Action.bind_eq_error.mp ((Action.bind_of_ok (modifyHeap_apply before _)).symm.trans stopped)
      with released | ⟨_, _, _, stopped⟩
    · exact keeps.releaseAll_stops rfl clear _ working released
    · cases stopped

/-- Giving up what is owned stops only where a callback stops, or for want of rounds. -/
theorem Keeps.release_stops (keeps : engine.Keeps ledger) {value : Value}
    (holds : ledger.Holds scene before (rest + value.owns))
    (stopped : engine.release value before = .error fault) : engine.Stops fault := by
  cases value with
  | ref handle =>
    obtain ⟨stands, _⟩ := holds.enqueue
    rcases Action.bind_eq_error.mp stopped with waited | ⟨_, _, waited, stopped⟩
    · cases waited
    · cases waited
      exact keeps.drain_stops stands holds.tidy stopped
  | _ => cases stopped

theorem Keeps.releaseList_stops (keeps : engine.Keeps ledger) {values : List Value}
    (holds : ledger.Holds scene before (rest + owned values))
    (stopped : engine.releaseList values before = .error fault) : engine.Stops fault := by
  induction values generalizing before with
  | nil => cases stopped
  | cons value others inductionHypothesis =>
    rw [owned_cons, add_comm value.owns, ← add_assoc] at holds
    rcases Action.bind_eq_error.mp stopped with released | ⟨_, between, released, stopped⟩
    · exact keeps.release_stops holds released
    · exact inductionHypothesis ((keeps.release value).spend _ scene before holds _ _ released).1 stopped

end Engine

end ObjectHeap
