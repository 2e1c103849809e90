/-
This file establishes when the callbacks of weak references are called. Whoever frees an entry hands
out the callbacks of the weak references to it, each once and in the order of the register, but for
weak references that are freed with it. They are all called, one after the other, and each finds
its weak reference live and cleared, whatever the ones before have done. Nothing else is called in
the course of a release or of a collection.
-/

import Mathlib
import ObjectHeap.Proofs.Runs

namespace ObjectHeap

variable {Code Host : Type}

namespace Heap

/-! ### Callbacks that are due -/

/-- The callbacks that are due when some entries are freed: those of the weak references to them,
each once and in the order of the registers, unless the weak reference is freed itself. -/
structure Due (heap : Heap Code) (gone : List Handle) (callbacks : List (Handle × Value)) : Prop where
  exact : ∀ weakref callback, (weakref, callback) ∈ callbacks ↔ weakref ∉ gone ∧
    ∃ place ∈ gone, heap.payload? weakref =
      some (.weakref { target := some place, callback := some callback })
  ordered : (callbacks.map Prod.fst).Sublist (gone.flatMap heap.watchers)
  once : (callbacks.map Prod.fst).Nodup

variable {heap after : Heap Code} {gone : List Handle} {callbacks : List (Handle × Value)}

theorem mem_due {skipped : Handle → Bool} {weakrefs : List Handle} {weakref : Handle}
    {callback : Value} : (weakref, callback) ∈ heap.due skipped weakrefs ↔
      weakref ∈ weakrefs ∧ skipped weakref = false ∧ heap.callback? weakref = some callback := by
  unfold due
  rw [List.mem_filterMap]
  constructor
  · rintro ⟨other, member, found⟩
    cases skip : skipped other with
    | true =>
      rw [if_pos skip] at found
      cases found
    | false =>
      rw [if_neg (Bool.eq_false_iff.mp skip)] at found
      obtain ⟨_, called, same⟩ := Option.map_eq_some_iff.mp found
      cases same
      exact ⟨member, skip, called⟩
  · rintro ⟨member, kept, called⟩
    exact ⟨weakref, member, by rw [if_neg (Bool.eq_false_iff.mp kept), called]; rfl⟩

theorem sublist_due (heap : Heap Code) (skipped : Handle → Bool) (weakrefs : List Handle) :
    ((heap.due skipped weakrefs).map Prod.fst).Sublist weakrefs := by
  induction weakrefs with
  | nil => exact .slnil
  | cons weakref rest inductionHypothesis =>
    unfold due at inductionHypothesis ⊢
    rw [List.filterMap_cons]
    split
    · exact inductionHypothesis.cons weakref
    · rename_i pair found
      split at found
      · cases found
      · obtain ⟨callback, _, rfl⟩ := Option.map_eq_some_iff.mp found
        exact inductionHypothesis.cons_cons weakref

/-- A registered weak reference that has a callback. -/
theorem Watched.payload?_iff (watched : heap.Watched) {weakref place : Handle} {callback : Value} :
    heap.payload? weakref = some (.weakref { target := some place, callback := some callback }) ↔
      weakref ∈ heap.watchers place ∧ heap.callback? weakref = some callback := by
  rw [← watched.registered, target?_eq_some]
  unfold callback?
  constructor
  · intro held
    rw [held]
    exact ⟨⟨_, rfl, rfl⟩, rfl⟩
  · rintro ⟨⟨⟨target, called⟩, held, rfl⟩, same⟩
    rw [held] at same ⊢
    cases same
    rfl

/-- What the registers of some entries hand out is due when they are freed. -/
theorem Watched.callbacks_due (watched : heap.Watched) (distinct : gone.Nodup) {skipped : Handle → Bool}
    (skips : ∀ place ∈ gone, ∀ weakref ∈ heap.watchers place,
      skipped weakref = true ↔ weakref ∈ gone) :
    heap.Due gone (gone.flatMap fun place => heap.due skipped (heap.watchers place)) := by
  have ordered (places : List Handle) :
      ((places.flatMap fun place => heap.due skipped (heap.watchers place)).map Prod.fst).Sublist
        (places.flatMap heap.watchers) := by
    induction places with
    | nil => exact .slnil
    | cons place rest inductionHypothesis =>
      rw [List.flatMap_cons, List.flatMap_cons, List.map_append]
      exact (heap.sublist_due skipped _).append inductionHypothesis
  -- A weak reference has one target, so no two registers share one, nor does one list it twice.
  have disjoint : (gone.flatMap heap.watchers).Nodup := by
    refine List.nodup_flatMap.mpr ⟨fun place _ => watched.once place, ?_⟩
    refine distinct.imp fun {one other} different weakref here there => different ?_
    exact Option.some_inj.mp (((watched.registered weakref one).mpr here).symm.trans
      ((watched.registered weakref other).mpr there))
  refine ⟨fun weakref callback => ?_, ordered gone, (ordered gone).nodup disjoint⟩
  simp only [List.mem_flatMap, mem_due, watched.payload?_iff]
  constructor
  · rintro ⟨place, member, registered, kept, called⟩
    refine ⟨fun inside => ?_, place, member, registered, called⟩
    rw [(skips place member weakref registered).mpr inside] at kept
    cases kept
  · rintro ⟨outside, place, member, registered, called⟩
    refine ⟨place, member, registered, ?_, called⟩
    exact Bool.eq_false_iff.mpr fun skip =>
      outside ((skips place member weakref registered).mp skip)

theorem Frees.callbacks_due {place : Handle} {payload : Payload Code}
    (frees : heap.Frees place payload callbacks after) : heap.Due [place] callbacks := by
  have due : callbacks = [place].flatMap fun place => heap.due (fun _ => false) (heap.watchers place) := by
    rw [List.flatMap_singleton]
    exact frees.due
  rw [due]
  refine frees.watched.callbacks_due (List.nodup_singleton place) fun other here weakref member => ?_
  refine iff_of_false Bool.false_ne_true fun same => ?_
  rw [List.mem_singleton.mp here, List.mem_singleton.mp same] at member
  exact frees.watched.not_mem_watchers_self place member

theorem Purges.callbacks_due (purges : heap.Purges gone callbacks after) : heap.Due gone callbacks := by
  rw [purges.due]
  exact purges.watched.callbacks_due purges.distinct fun _ _ _ _ => decide_eq_true_iff

end Heap

namespace Reached

variable {held : Host → Multiset Handle} {bodies : Code → Arguments → Program Code Host}
  {config : Config} {hand : Multiset Handle} {world : World Code (Recorded Code Host)}

/-- A run of a host that respects ownership goes by its story from the new heap on: whenever entries
are freed in it, the callbacks that are due are called. A release that the host asks for between two
operations, or a collection, calls nothing else on its way. -/
theorem callbacks_are_called (respectful : RespectfulBodies held bodies)
    (reached : Reached held bodies config hand world) :
    (∃ host : Recorded Code Host, host.moments = [] ∧
      Story (recordedConduct bodies) .operating { heap := Heap.new config, host } world) ∧
    (∀ value rest rounds after, hand = value.owns + rest →
      (bodiesEngine bodies rounds).release value world = .ok ((), after) →
        Story (recordedConduct bodies) .settling world after) ∧
    (∀ rounds count after, (bodiesEngine bodies rounds).collect world = .ok (count, after) →
      Story (recordedConduct bodies) .collecting world after) ∧
    (∀ (before after : Heap Code) place payload callbacks,
      before.Frees place payload callbacks after → before.Due [place] callbacks) ∧
    ∀ (before after : Heap Code) removed callbacks,
      before.Purges removed callbacks after → before.Due removed callbacks := by
  have holds := reached.holds respectful
  refine ⟨reached.told respectful, fun value rest rounds after handed released => ?_,
    fun rounds count after collected => ?_, fun _ _ _ _ _ frees => frees.callbacks_due,
    fun _ _ _ _ purges => purges.callbacks_due⟩
  · exact ((respectful.keeps rounds).givesUp_release value world rest () after
      (holds.congr (handed.trans (add_comm _ _))) released).2.2
  · have framed : (recordedLedger held bodies).Holds (atRest.framing hand) world 0 :=
      Ledger.Holds.framing_iff.mpr (holds.congr (add_zero hand).symm)
    exact ((respectful.keeps rounds).tells_collect framed collected).2.2

/-- When the last reference to an instance is dropped, the weak reference to it is called back. -/
theorem callback_of_instance : ∃ world : World Unit (Recorded Unit Unit),
    Reached (fun _ => 0) idleBodies Config.standard ({0} + {3} + 0) world ∧
    world.heap.liveHandles = [0, 3] ∧
    world.host.moments.countP (fun moment => moment.latest.isNone) = 1 ∧
    ∃ host : Recorded Unit Unit, host.moments = [] ∧
      Story (recordedConduct idleBodies) .operating { heap := Heap.new Config.standard, host } world := by
  have type : Reached (fun _ : Unit => 0) idleBodies Config.standard {0} _ :=
    .perform (.newClass "C" []) 8 (.ok (.ref 0)) (.start () rfl) (fun _ member => member) rfl
  have made : Reached (fun _ : Unit => 0) idleBodies Config.standard ({0} + {1}) _ :=
    .perform (.newInstance (.ref 0)) 8 (.ok (.ref 1)) type (fun _ member => member) rfl
  have function : Reached (fun _ : Unit => 0) idleBodies Config.standard ({0} + {1} + {2}) _ :=
    .perform (.newFunction "f" none none ()) 8 (.ok (.ref 2)) made
      (fun _ member => absurd member (Multiset.notMem_zero _)) rfl
  have watched : Reached (fun _ : Unit => 0) idleBodies Config.standard ({0} + {1} + {3}) _ :=
    .perform (.newWeakref (.ref 1) (some (.ref 2))) 8 (.ok (.ref 3))
      (function.congr (add_comm _ {2})) (Multiset.subset_of_le (by decide)) rfl
  obtain ⟨world, dropped, seen⟩ : ∃ world : World Unit (Recorded Unit Unit),
      Reached (fun _ => 0) idleBodies Config.standard ({0} + {3} + 0) world ∧
        (world.heap.liveHandles,
          world.host.moments.countP fun moment => moment.latest.isNone) = ([0, 3], 1) :=
    exists_perform (.drop (.ref 1)) 8 ()
      (fun world => (world.heap.liveHandles,
        world.host.moments.countP fun moment => moment.latest.isNone))
      (watched.congr (by decide)) (fun _ member => absurd member (Multiset.notMem_zero _)) (by cbv)
  obtain ⟨live, called⟩ := Prod.mk.inj seen
  exact ⟨world, dropped, live, called, (callbacks_are_called respectful_idleBodies dropped).1⟩

end Reached

end ObjectHeap
