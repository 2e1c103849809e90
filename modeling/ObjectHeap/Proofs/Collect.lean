/-
This file establishes that a collection keeps every ledger, and that it is exact. What it frees is
what nothing outside leads to, and what it gives up for the garbage frees no survivor, since
every survivor has a reference that is not given up. When it calls nothing back, everything that
is left is held from outside, and the next collection finds nothing.
-/

import ObjectHeap.Proofs.Removal

namespace ObjectHeap

variable {Code Host : Type} {ledger : Ledger Code Host} {scene : Scene}
  {before : World Code Host} {mine : Multiset Handle} {engine : Engine Code Host}

/-- The world in which a collection begins to look for garbage. -/
def World.collecting (world : World Code Host) : World Code Host :=
  { world with heap := { world.heap with sinceCollection := 0 } }

/-- The world in which the garbage was removed. -/
def World.collected (world : World Code Host) : World Code Host :=
  { world with heap := (world.collecting.heap.removeGarbage world.collecting.heap.garbage).2 }

namespace Engine

/-- Nothing is collected while releases are worked off. -/
theorem collect_of_busy (busy : before.heap.releasing = true) :
    engine.collect before = .ok (0, before) := by
  refine Action.bind_eq_ok.mpr ⟨before.heap, before, rfl, ?_⟩
  rw [if_pos busy]
  rfl

/-- Nothing happens when there is no garbage. -/
theorem collect_of_clean (idle : before.heap.releasing = false)
    (clean : before.collecting.heap.garbage = []) :
    engine.collect before = .ok (0, before.collecting) := by
  refine Action.bind_eq_ok.mpr ⟨before.heap, before, rfl, ?_⟩
  rw [if_neg (by rw [idle]; exact Bool.false_ne_true)]
  refine Action.bind_eq_ok.mpr ⟨(), before.collecting, rfl,
    Action.bind_eq_ok.mpr ⟨before.collecting.heap, before.collecting, rfl, ?_⟩⟩
  rw [clean]
  rfl

/-- Garbage is removed, what it held is given up, and callbacks run at the end. -/
theorem collect_of_garbage (idle : before.heap.releasing = false)
    (dirty : before.collecting.heap.garbage ≠ []) :
    engine.collect before =
      (do
        engine.drain
        engine.runCallbacks engine.release
          (before.collecting.heap.removeGarbage before.collecting.heap.garbage).1
        return before.collecting.heap.garbage.length : Action Code Host Nat) before.collected := by
  show (currentHeap >>= _ : Action Code Host Nat) before = _
  show (if before.heap.releasing then _ else _ : Action Code Host Nat) before = _
  rw [if_neg (by rw [idle]; exact Bool.false_ne_true)]
  show (if before.collecting.heap.garbage.isEmpty then _ else _ : Action Code Host Nat)
    before.collecting = _
  rw [if_neg (by simpa using dirty)]
  rfl

/-- A collection goes by its story. -/
theorem Keeps.tells_collect (keeps : engine.Keeps ledger) (holds : ledger.Holds scene before 0)
    {after : World Code Host} {answer : Nat} (ended : engine.collect before = .ok (answer, after)) :
    ledger.Holds scene after 0 ∧ before.heap.Carries ledger.calm scene.frame after.heap ∧
      Story ledger.conduct .collecting before after := by
  cases busy : scene.busy with
  | true =>
    rw [collect_of_busy (holds.releasing.trans busy)] at ended
    cases ended
    exact ⟨holds, holds.carries_refl, .clean _⟩
  | false =>
    have idle := holds.releasing.trans busy
    have settled : before.collecting.heap.pending = [] := holds.settled busy
    obtain ⟨stands, early⟩ := holds.of_slots before.collecting.heap 0 rfl rfl rfl holds.releasing rfl
    have began : before.heap.Quiet before.collecting.heap := .of_slots rfl rfl rfl rfl rfl rfl
    by_cases dirty : before.collecting.heap.garbage = []
    · rw [collect_of_clean idle dirty] at ended
      cases ended
      exact ⟨⟨stands, fun _ => settled, holds.tidy⟩, early, .anew began (.clean _)⟩
    · rw [collect_of_garbage idle dirty] at ended
      have stood : ledger.Stands scene before.collecting 0 := stands
      obtain ⟨due, removes⟩ := Heap.removes_removeGarbage stood.sound settled
      have purges := Heap.purges_removeGarbage stood.sound settled
      let callbacks := (before.collecting.heap.removeGarbage before.collecting.heap.garbage).1
      obtain ⟨_, drained, worked, ended⟩ := Action.bind_eq_ok.mp ended
      obtain ⟨_, _, ran, ended⟩ := Action.bind_eq_ok.mp ended
      cases ended
      have carries : before.collecting.heap.Carries ledger.calm scene.frame before.collected.heap :=
        removes.carries stood.sound settled (scene.frame_subset _ _)
          fun calm => due.symm.trans (keeps.silent ran calm)
      -- Whoever calls the callbacks holds their weak references while releases are worked off.
      have removed : ledger.Stands (scene.framing (Heap.debts callbacks)) before.collected 0 := by
        refine ⟨removes.sound.congr ?_, removes.releasing.trans stood.releasing,
          ledger.lasts stood.fits carries.evolves⟩
        show scene.frame + 0 + ledger.held before.host +
          Heap.debts before.collecting.heap.dueCallbacks =
          scene.frame + Heap.debts callbacks + 0 + ledger.held before.host
        rw [← due]
        abel
      obtain ⟨done, middle, settles⟩ := keeps.settles_drain removed
        (fun wild => Scene.tidy_framing.mpr (holds.tidy wild)) worked
      have cleared (pair : Handle × Value) (member : pair ∈ callbacks) :
          drained.heap.Cleared pair.1 := by
        have held : pair.1 ∈ (scene.framing (Heap.debts callbacks)).frame :=
          Multiset.mem_add.mpr (Or.inr (Heap.mem_debts.mpr ⟨pair, member, Or.inl rfl⟩))
        exact middle.cleared held (done.isLive (Multiset.mem_add.mpr (Or.inl held)))
          (purges.cleared member)
      obtain ⟨last, late, calling⟩ := keeps.calls_runCallbacks (fun _ => keeps.givesUp_release)
        callbacks ((Ledger.Holds.framing_iff.mp done).congr (add_comm _ _)) cleared ran
      have passed := middle.mono fun handle member => Multiset.mem_add.mpr (Or.inl member)
      exact ⟨last, ((early.trans carries).trans passed).trans late,
        .anew began (.collect idle purges settles calling)⟩

/-- A collection keeps every ledger. -/
theorem Keeps.collect (keeps : engine.Keeps ledger) :
    engine.collect.Keeps ledger 0 fun _ => 0 := by
  intro scene before holds answer after ended
  obtain ⟨done, carries, story⟩ := keeps.tells_collect holds ended
  exact ⟨done, carries, .sweep story⟩

/-! ### Giving up what was not the last reference -/

/-- A ledger of a host that owns nothing and counts on nothing. -/
def blankLedger : Ledger Code Host where
  held _ := 0
  fits _ _ := True
  lasts _ _ := trivial
  calm := True

/-- Two worlds with the same entries in their slots, but for the counts. -/
structure SameEntries (before after : World Code Host) : Prop where
  host : after.host = before.host
  payloads : ∀ handle, after.heap.payload? handle = before.heap.payload? handle
  births : ∀ handle, after.heap.births handle = before.heap.births handle

theorem SameEntries.trans {middle after : World Code Host} (first : SameEntries before middle)
    (second : SameEntries middle after) : SameEntries before after where
  host := second.host.trans first.host
  payloads handle := (second.payloads handle).trans (first.payloads handle)
  births handle := (second.births handle).trans (first.births handle)

/-- What is sustained depends on the payloads alone. -/
theorem SameEntries.sustained {after : World Code Host} (same : SameEntries before after)
    {outside : Multiset Handle} {handle : Handle} :
    after.heap.Sustained outside handle ↔ before.heap.Sustained outside handle := by
  have refers : after.heap.Refers = before.heap.Refers := by
    funext source target
    unfold Heap.Refers Heap.visits
    rw [same.payloads]
  unfold Heap.Sustained Heap.Leads
  rw [refers]

/-- An entry that others sustain has a reference beside those that wait. -/
theorem count_pos_of_sustained {heap : Heap Code} {outside : Multiset Handle}
    {handle : Handle} (sustained : heap.Sustained outside handle) :
    0 < heap.edges.count handle + outside.count handle := by
  obtain ⟨root, member, leads⟩ := sustained
  cases leads with
  | refl =>
    have counted := Multiset.count_pos.mpr member
    omega
  | tail _ refers =>
    have counted := List.count_pos_iff.mpr ((heap.mem_edges_iff handle).mpr ⟨_, refers⟩)
    omega

/-- Where nothing waits, the books say so. -/
theorem books_of_settled {heap : Heap Code} (settled : heap.pending = []) :
    heap.books = { heap.books with pending := [] } := by
  rw [← settled]
  rfl

/-- References to entries that others sustain are given up one by one, and nothing is freed. -/
theorem releaseAll_of_sustained (scene : Scene) (rounds : Nat)
    (stands : blankLedger.Stands scene before 0)
    (spared : ∀ handle ∈ before.heap.pending, before.heap.Sustained scene.frame handle)
    (enough : before.heap.pending.length ≤ rounds) :
    ∃ after, engine.releaseAll rounds before = .ok ((), after) ∧ after.heap.pending = [] ∧
      SameEntries before after ∧ blankLedger.Stands scene after 0 ∧
      after.heap.books = { before.heap.books with pending := [] } := by
  induction rounds generalizing before with
  | zero =>
    have pending : before.heap.pending = [] := List.length_eq_zero_iff.mp (by omega)
    exact ⟨before, engine.releaseAll_of_settled 0 pending, pending,
      ⟨rfl, fun _ => rfl, fun _ => rfl⟩, stands, books_of_settled pending⟩
  | succ rounds inductionHypothesis =>
    cases pending : before.heap.pending with
    | nil =>
      exact ⟨before, engine.releaseAll_of_settled (rounds + 1) pending, pending,
        ⟨rfl, fun _ => rfl, fun _ => rfl⟩, stands, books_of_settled pending⟩
    | cons handle waiting =>
      rw [pending, List.length_cons] at enough
      obtain ⟨taken, _⟩ := stands.dequeue pending
      obtain ⟨entry, held⟩ := (before.heap.isLive_iff handle).mp
        (stands.sound.balanced.isLive_of_mem (Or.inr (Or.inl (by rw [pending]; exact List.mem_cons_self))))
      -- One count is for the reference that waits, and another for whoever sustains the entry.
      have more : 1 < entry.count := by
        have counted := stands.sound.balanced.exact handle
        have others := count_pos_of_sustained (spared handle (by rw [pending]; exact List.mem_cons_self))
        rw [Heap.tally_of_occupant? held, pending, List.count_cons_self] at counted
        have own : (scene.frame + 0 + (blankLedger : Ledger Code Host).held before.host).count handle =
            scene.frame.count handle := by
          rw [add_zero]
          exact congrArg _ (add_zero _)
        rw [own] at counted
        omega
      obtain ⟨less, _⟩ := taken.decrement held more
      have same : SameEntries before { before with
          heap := ({ before.heap with pending := waiting } : Heap Code).mapEntry handle fun entry =>
            { entry with count := entry.count - 1 } } :=
        ⟨rfl, fun other => Heap.payload?_mapEntry_count _ handle other (· - 1),
          fun other => Heap.births_mapEntry _ _ _ _⟩
      obtain ⟨after, ended, empty, later, done, books⟩ := inductionHypothesis less
        (fun other member => same.sustained.mpr (spared other
          (by rw [pending]; exact List.mem_cons_of_mem handle member)))
        (Nat.le_of_succ_le_succ enough)
      exact ⟨after, engine.releaseAll_of_cons pending (engine.releaseNext_of_more held more) ended,
        empty, same.trans later, done, books⟩

/-- Where nothing waits, there is nothing to work off. -/
theorem drain_of_settled (settled : before.heap.pending = []) (idle : before.heap.releasing = false) :
    engine.drain before = .ok ((), before) := by
  have drained := engine.drain_of_releaseAll idle (engine.releaseAll_of_settled engine.rounds settled)
  have same : { before.heap with releasing := false } = before.heap := by rw [← idle]
  exact drained.trans (by rw [same])

/-- When nothing that waits is a last reference, working the releases off frees nothing. -/
theorem drain_of_sustained (engine : Engine Code Host) {outside : Multiset Handle}
    {limbo : List Handle} (sound : before.heap.Sound outside limbo)
    (idle : before.heap.releasing = false)
    (spared : ∀ handle ∈ before.heap.pending, before.heap.Sustained outside handle)
    (enough : before.heap.pending.length ≤ engine.rounds) :
    ∃ after, engine.drain before = .ok ((), after) ∧ after.heap.pending = [] ∧
      after.heap.releasing = false ∧ SameEntries before after ∧ after.heap.Sound outside limbo ∧
      after.heap.books = { before.heap.books with pending := [] } := by
  let scene : Scene := { busy := true, limbo, frame := outside }
  let started : World Code Host := { before with heap := { before.heap with releasing := true } }
  have stands : (blankLedger : Ledger Code Host).Stands scene started 0 :=
    ⟨sound.of_slots rfl rfl rfl (by simp [scene, started, blankLedger]), rfl, trivial⟩
  obtain ⟨after, ended, empty, same, done, books⟩ :=
    releaseAll_of_sustained scene engine.rounds stands spared enough
  refine ⟨{ after with heap := { after.heap with releasing := false } },
    engine.drain_of_releaseAll idle ended, empty, rfl,
    ⟨same.host, same.payloads, same.births⟩, ?_, ?_⟩
  · exact done.sound.of_slots rfl rfl rfl (by simp [scene, blankLedger])
  · show { after.heap.books with releasing := false } = _
    rw [books, ← idle]
    rfl

end Engine

/-! ### Collections -/

/-- What a collection has done to a heap by the time it calls back: what it removed is all that
nothing outside leads to, and nothing else has happened to any entry. -/
structure Heap.Collection (before : Heap Code) (outside : Multiset Handle) (removed : List Handle)
    (callbacks : List (Handle × Value)) (after : Heap Code) : Prop where
  /-- No entry is removed twice. -/
  distinct : removed.Nodup
  unreached : ∀ handle, handle ∈ removed ↔
    before.isLive handle ∧ ¬ before.Sustained outside handle
  /-- Survivors keep their payloads, except that weak references to removed entries are dead and
  removed weak references are registered nowhere. -/
  payloads : ∀ handle, after.payload? handle =
    if handle ∈ removed then none
    else (before.payload? handle).map (Payload.without fun other => decide (other ∈ removed))
  births : ∀ handle, after.births handle = before.births handle
  /-- The callbacks are those of the survivors that referred to removed entries weakly. -/
  due : callbacks = removed.flatMap fun place =>
    before.due (fun weakref => decide (weakref ∈ removed)) (before.watchers place)
  /-- References from outside are those that were there and those that callbacks take along. -/
  counted : after.Balanced (outside + Heap.debts callbacks)
  settled : after.pending = []
  idle : after.releasing = false

namespace Engine

/-- In a sound heap what the garbage held of survivors is given up without any effect on another
entry, and then the callbacks that are due are called. -/
theorem collect_eq_of_sound {outside : Multiset Handle} {limbo : List Handle}
    (sound : before.heap.Sound outside limbo) (idle : before.heap.releasing = false)
    (settled : before.heap.pending = [])
    (enough : before.heap.edges.length ≤ engine.rounds) :
    ∃ after, after.heap.pending = [] ∧ after.heap.releasing = false ∧
      SameEntries before.collected after ∧
      after.heap.Sound (outside + Heap.debts before.collecting.heap.dueCallbacks) limbo ∧
      after.heap.books = { before.collected.heap.books with pending := [] } ∧
      engine.collect before =
        (do
          engine.runCallbacks engine.release before.collecting.heap.dueCallbacks
          return before.collecting.heap.garbage.length : Action Code Host Nat) after := by
  have soundFirst : before.collecting.heap.Sound outside limbo :=
    sound.of_slots rfl rfl rfl rfl
  have settledFirst : before.collecting.heap.pending = [] := settled
  obtain ⟨due, removes⟩ := Heap.removes_removeGarbage soundFirst settledFirst
  have removed : before.collecting.heap.Removes outside limbo before.collected.heap := removes
  obtain ⟨after, drained, empty, idleAfter, same, soundAfter, books⟩ :=
    engine.drain_of_sustained removed.sound (removed.releasing.trans idle)
      (fun handle member => removed.sustained soundFirst settledFirst (removed.waiting handle member))
      (removed.fewer.trans enough)
  refine ⟨after, empty, idleAfter, same, soundAfter, books, ?_⟩
  by_cases dirty : before.collecting.heap.garbage = []
  · have unchanged : before.collected = before.collecting := by
      unfold World.collected
      rw [dirty]
      rfl
    rw [unchanged, drain_of_settled settledFirst idle] at drained
    cases drained
    rw [collect_of_clean idle dirty, Heap.dueCallbacks, dirty]
    rfl
  · rw [collect_of_garbage idle dirty, due]
    exact Action.bind_of_ok drained

/-- A collection of a sound heap comes to the callbacks that are due, and if there are none, the
next collection finds nothing. -/
theorem collect_of_sound {outside : Multiset Handle} {limbo : List Handle}
    (sound : before.heap.Sound outside limbo) (idle : before.heap.releasing = false)
    (settled : before.heap.pending = [])
    (enough : before.heap.edges.length ≤ engine.rounds) :
    ∃ removed callbacks after, before.heap.Collection outside removed callbacks after ∧
      engine.collect before =
        (do
          engine.runCallbacks engine.release callbacks
          return removed.length : Action Code Host Nat) { before with heap := after } ∧
      (callbacks = [] →
        ∃ last, engine.collect { before with heap := after } = .ok (0, last)) := by
  have soundFirst : before.collecting.heap.Sound outside limbo :=
    sound.of_slots rfl rfl rfl rfl
  have settledFirst : before.collecting.heap.pending = [] := settled
  have removed : before.collecting.heap.Removes outside limbo before.collected.heap :=
    (Heap.removes_removeGarbage soundFirst settledFirst).2
  obtain ⟨after, empty, idleAfter, same, soundAfter, _, ended⟩ :=
    engine.collect_eq_of_sound sound idle settled enough
  have sameHost : after.host = before.host := same.host
  have entries : { before with heap := after.heap } = after := by rw [← sameHost]
  have collection : before.heap.Collection outside before.collecting.heap.garbage
      before.collecting.heap.dueCallbacks after.heap := by
    have payloads := removed.payloads
    rw [Heap.isGarbage_eq] at payloads
    refine ⟨Heap.nodup_garbage _, fun handle => Heap.mem_garbage soundFirst.balanced settledFirst,
      fun handle => (same.payloads handle).trans (payloads handle),
      fun handle => (same.births handle).trans (removed.births handle), ?_, soundAfter.balanced,
      empty, idleAfter⟩
    rw [← Heap.isGarbage_eq]
    rfl
  refine ⟨_, _, after.heap, collection, ?_, fun silent => ?_⟩
  · rw [entries]
    exact ended
  · rw [entries]
    refine ⟨after.collecting, collect_of_clean idleAfter (List.eq_nil_iff_forall_not_mem.mpr ?_)⟩
    intro handle member
    have soundLast : after.collecting.heap.Sound
        (outside + Heap.debts before.collecting.heap.dueCallbacks) limbo :=
      soundAfter.of_slots rfl rfl rfl rfl
    -- Garbage of the second collection would have been left by the first, and so it is sustained.
    obtain ⟨live, unreached⟩ := (Heap.mem_garbage soundLast.balanced empty).mp member
    have lastEntries : SameEntries before.collected after.collecting :=
      ⟨same.host, same.payloads, same.births⟩
    rw [Heap.isLive_eq_payload?, lastEntries.payloads, removed.payloads] at live
    split at live
    · cases live
    · rename_i kept
      rw [Option.isSome_map, ← Heap.isLive_eq_payload?] at live
      exact unreached (lastEntries.sustained.mpr (removed.sustained soundFirst settledFirst
        ((Heap.sustained_iff soundFirst settledFirst).mpr ⟨live, kept⟩)))

end Engine

end ObjectHeap
