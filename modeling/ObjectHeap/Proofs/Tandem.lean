/-
This file runs two actions side by side, each on one of two heaps that mirror each other. The rules
follow the shape of actions: questions have the same answers in both heaps, changes are made in
both, and what releases and collections do to one heap they do to the other one as well. Both
actions come to their ends, so that nothing is left to a run that stops.
-/

import ObjectHeap.Proofs.Forms
import ObjectHeap.Proofs.Mirrors

namespace ObjectHeap

variable {Code Host α β : Type}

/-! ### Two actions side by side -/

/-- Two actions come to their ends, each in a world of its own, and leave the hosts alone. -/
def Action.Tandem (one two : World Code Host) (first second : Action Code Host α)
    (post : α → Heap Code → α → Heap Code → Prop) : Prop :=
  ∃ answer later other last, first one = .ok (answer, { one with heap := later }) ∧
    second two = .ok (other, { two with heap := last }) ∧ post answer later other last

namespace Action.Tandem

variable {one two : World Code Host} {first second : Action Code Host α}
  {next nextImage : α → Action Code Host β} {mid : α → Heap Code → α → Heap Code → Prop}
  {post : β → Heap Code → β → Heap Code → Prop}

theorem pure {answer other : β} (holds : post answer one.heap other two.heap) :
    Tandem one two (Pure.pure answer) (Pure.pure other) post :=
  ⟨answer, one.heap, other, two.heap, rfl, rfl, holds⟩

/-- What goes on after two parts whose outcomes are known. -/
theorem bind_of_ok {answer other : α} {later last : Heap Code}
    (ended : first one = .ok (answer, { one with heap := later }))
    (endedImage : second two = .ok (other, { two with heap := last }))
    (rest : Tandem { one with heap := later } { two with heap := last } (next answer)
      (nextImage other) post) :
    Tandem one two (first >>= next) (second >>= nextImage) post := by
  obtain ⟨final, finalHeap, finalOther, finalLast, done, doneImage, reached⟩ := rest
  exact ⟨final, finalHeap, finalOther, finalLast, Action.bind_eq_ok.mpr ⟨_, _, ended, done⟩,
    Action.bind_eq_ok.mpr ⟨_, _, endedImage, doneImage⟩, reached⟩

theorem bind (start : Tandem one two first second mid)
    (rest : ∀ answer later other last, mid answer later other last →
      Tandem { one with heap := later } { two with heap := last } (next answer) (nextImage other)
        post) :
    Tandem one two (first >>= next) (second >>= nextImage) post := by
  obtain ⟨answer, later, other, last, ended, endedImage, holds⟩ := start
  exact bind_of_ok ended endedImage (rest answer later other last holds)

theorem imp {weaker : α → Heap Code → α → Heap Code → Prop}
    (tandem : Tandem one two first second mid)
    (implies : ∀ answer later other last, mid answer later other last →
      weaker answer later other last) : Tandem one two first second weaker := by
  obtain ⟨answer, later, other, last, ended, endedImage, holds⟩ := tandem
  exact ⟨answer, later, other, last, ended, endedImage, implies _ _ _ _ holds⟩

end Action.Tandem

/-! ### Two attempts side by side -/

namespace Attempt

/-- Two attempts have succeeded, or they have failed with the same error. -/
inductive Ends (post : α → Heap Code → α → Heap Code → Prop) (lost : Heap Code → Heap Code → Prop) :
    Except Error α → Heap Code → Except Error α → Heap Code → Prop
  | ok {answer other : α} {later last : Heap Code} (holds : post answer later other last) :
    Ends post lost (.ok answer) later (.ok other) last
  | error {error : Error} {later last : Heap Code} (holds : lost later last) :
    Ends post lost (.error error) later (.error error) last

/-- Two attempts come to their ends, and both succeed unless they fail alike. -/
def Tandem (one two : World Code Host) (first second : Attempt Code Host α)
    (post : α → Heap Code → α → Heap Code → Prop) (lost : Heap Code → Heap Code → Prop) : Prop :=
  Action.Tandem one two first.run second.run (Ends post lost)

namespace Tandem

variable {one two : World Code Host} {first second : Attempt Code Host α}
  {action actionImage : Action Code Host α} {next nextImage : α → Attempt Code Host β}
  {mid : α → Heap Code → α → Heap Code → Prop} {post : β → Heap Code → β → Heap Code → Prop}
  {lost : Heap Code → Heap Code → Prop} {answer other : α} {later last : Heap Code}

theorem pure {answer other : β} (holds : post answer one.heap other two.heap) :
    Tandem one two (Pure.pure answer) (Pure.pure other) post lost :=
  Action.Tandem.pure (.ok holds)

theorem refuse {refusal : Refusal} (holds : lost one.heap two.heap) :
    Tandem one two (Attempt.refuse refusal) (Attempt.refuse refusal) post lost :=
  Action.Tandem.pure (.error holds)

theorem bind (start : Tandem one two first second mid lost)
    (rest : ∀ answer later other last, mid answer later other last →
      Tandem { one with heap := later } { two with heap := last } (next answer) (nextImage other)
        post lost) :
    Tandem one two (first >>= next) (second >>= nextImage) post lost :=
  Action.Tandem.bind start fun _ later _ last ends => by
    cases ends with
    | ok holds => exact rest _ later _ last holds
    | error holds => exact Action.Tandem.pure (.error holds)

theorem imp {weaker : α → Heap Code → α → Heap Code → Prop} {left : Heap Code → Heap Code → Prop}
    (tandem : Tandem one two first second mid lost)
    (implies : ∀ answer later other last, mid answer later other last →
      weaker answer later other last)
    (loses : ∀ later last, lost later last → left later last) :
    Tandem one two first second weaker left :=
  Action.Tandem.imp tandem fun _ _ _ _ ends => by
    cases ends with
    | ok holds => exact .ok (implies _ _ _ _ holds)
    | error holds => exact .error (loses _ _ holds)

/-- An action in the course of an attempt does not fail. -/
theorem act (start : Action.Tandem one two action actionImage mid)
    (rest : ∀ answer later other last, mid answer later other last →
      Tandem { one with heap := later } { two with heap := last } (next answer) (nextImage other)
        post lost) :
    Tandem one two (ofAction action >>= next) (ofAction actionImage >>= nextImage) post lost := by
  unfold Tandem
  rw [run_ofAction_bind, run_ofAction_bind]
  exact start.bind rest

theorem act_of_ok (ended : action one = .ok (answer, { one with heap := later }))
    (endedImage : actionImage two = .ok (other, { two with heap := last }))
    (rest : Tandem { one with heap := later } { two with heap := last } (next answer)
      (nextImage other) post lost) :
    Tandem one two (ofAction action >>= next) (ofAction actionImage >>= nextImage) post lost := by
  unfold Tandem
  rw [run_ofAction_bind, run_ofAction_bind]
  exact .bind_of_ok ended endedImage rest

theorem ofAction {weaker : α → Heap Code → α → Heap Code → Prop}
    (tandem : Action.Tandem one two action actionImage weaker) :
    Tandem one two (Attempt.ofAction action) (Attempt.ofAction actionImage) weaker lost :=
  Action.Tandem.bind tandem fun _ _ _ _ holds => .pure (.ok holds)

/-- A question that has an answer in each heap. -/
theorem ask {question questionImage : Heap Code → Except Fault α}
    (asked : question one.heap = .ok answer) (askedImage : questionImage two.heap = .ok other)
    (rest : Tandem one two (next answer) (nextImage other) post lost) :
    Tandem one two (ObjectHeap.ask question >>= next) (ObjectHeap.ask questionImage >>= nextImage)
      post lost :=
  act_of_ok (ask_eq_ok.mpr ⟨asked, rfl⟩) (ask_eq_ok.mpr ⟨askedImage, rfl⟩) rest

end Tandem

end Attempt

/-! ### Heaps at rest -/

namespace Heap

/-- Two heaps that mirror each other while no release is in progress and nothing waits. -/
structure Rests (one : Heap Code) (name : Equiv.Perm Handle) (outside : Multiset Handle)
    (two : Heap Code) : Prop extends Couples one name outside two where
  idle : one.releasing = false
  settled : one.pending = []

variable {one two later last : Heap Code} {name : Equiv.Perm Handle}
  {outside others : Multiset Handle} {place : Handle}

theorem Rests.idleImage (rests : one.Rests name outside two) : two.releasing = false :=
  rests.releasing.trans rests.idle

theorem Rests.settledImage (rests : one.Rests name outside two) : two.pending = [] := by
  rw [rests.pending, rests.settled, List.map_nil]

theorem Rests.congr (rests : one.Rests name outside two) (same : outside = others) :
    one.Rests name others two := same ▸ rests

/-- References may move between those that wait and those that are owned, in both heaps. -/
theorem Couples.move (couples : one.Couples name outside two) (waiting : List Handle)
    (same : (waiting : Multiset Handle) + others = (one.pending : Multiset Handle) + outside) :
    Couples { one with pending := waiting } name others
      { two with pending := waiting.map name } where
  payloads := couples.payloads
  pending := rfl
  releasing := couples.releasing
  meters := couples.meters
  sound := couples.sound.of_slots rfl rfl rfl same
  image := couples.image.of_slots rfl rfl rfl (by
    rw [couples.pending, ← Multiset.map_coe, ← Multiset.map_coe, ← Multiset.map_add,
      ← Multiset.map_add, same])
  silent := couples.silent

/-- Releases may begin to be worked off in both heaps, or cease to be. -/
theorem Couples.setReleasing (couples : one.Couples name outside two) (busy : Bool) :
    Couples { one with releasing := busy } name outside { two with releasing := busy } where
  payloads := couples.payloads
  pending := couples.pending
  releasing := rfl
  meters := couples.meters
  sound := couples.sound.of_slots rfl rfl rfl rfl
  image := couples.image.of_slots rfl rfl rfl rfl
  silent := couples.silent

end Heap

namespace Engine

variable (engine : Engine Code Host) {one two : World Code Host} {name : Equiv.Perm Handle}
  {outside : Multiset Handle} {place : Handle}

open Heap (Forgets)

/-! ### Releases -/

/-- One reference is given up in both heaps. -/
theorem tandem_releaseNext (couples : one.heap.Couples name (outside + {place}) two.heap)
    (busy : one.heap.releasing = true) :
    Action.Tandem one two (engine.releaseNext place) (engine.releaseNext (name place))
      fun _ later _ last => later.Couples name outside last ∧ later.releasing = true ∧
        one.heap.Forgets later ∧
        later.pending.length + later.edges.length =
          one.heap.pending.length + one.heap.edges.length := by
  obtain ⟨later, ended, first, sound⟩ := engine.exists_lessens couples.sound busy
    fun _ _ _ weakref _ => couples.silent weakref
  have owned : two.heap.Sound (outside.map name + {name place}) [] :=
    couples.image.congr (by rw [Multiset.map_add, Multiset.map_singleton])
  obtain ⟨last, endedImage, second, image⟩ := engine.exists_lessens owned
    (couples.releasing.trans busy) fun _ _ _ weakref _ => couples.toMirrors.silent couples.silent weakref
  exact ⟨(), later, (), last, ended, endedImage,
    ⟨couples.lessens first second, sound, image, first.forgets.silent couples.silent⟩,
    first.releasing.trans busy, first.forgets, first.length_eq couples.silent⟩

/-- Where nothing waits in one heap, nothing waits in the other one. -/
theorem tandem_dequeue_nil {next : Option Handle → Action Code Host Unit}
    (couples : one.heap.Couples name outside two.heap) (empty : one.heap.pending = [])
    (nothing : next none = pure ()) :
    Action.Tandem one two (dequeue >>= next) (dequeue >>= next)
      fun _ later _ last => later.Couples name outside last ∧ later.pending = [] ∧
        one.heap.Forgets later := by
  have emptyImage : two.heap.pending = [] := by rw [couples.pending, empty, List.map_nil]
  refine .bind_of_ok (dequeue_of_nil empty) (dequeue_of_nil emptyImage) ?_
  rw [nothing]
  exact .pure ⟨couples, empty, .refl _⟩

/-- The loop ends in both heaps when nothing waits any more. -/
theorem tandem_releaseAll (rounds : Nat) (couples : one.heap.Couples name outside two.heap)
    (busy : one.heap.releasing = true)
    (enough : one.heap.pending.length + one.heap.edges.length ≤ rounds) :
    Action.Tandem one two (engine.releaseAll rounds) (engine.releaseAll rounds)
      fun _ later _ last => later.Couples name outside last ∧ later.pending = [] ∧
        one.heap.Forgets later := by
  induction rounds generalizing one two with
  | zero => exact tandem_dequeue_nil couples (List.length_eq_zero_iff.mp (by omega)) rfl
  | succ rounds inductionHypothesis =>
    cases pending : one.heap.pending with
    | nil => exact tandem_dequeue_nil couples pending rfl
    | cons place waiting =>
      have pendingImage : two.heap.pending = name place :: waiting.map name := by
        rw [couples.pending, pending, List.map_cons]
      have owned : Heap.Couples { one.heap with pending := waiting } name (outside + {place})
          { two.heap with pending := waiting.map name } :=
        couples.move waiting (by
          rw [pending, ← Multiset.cons_coe, ← Multiset.singleton_add]
          abel)
      refine .bind_of_ok (dequeue_of_cons pending) (dequeue_of_cons pendingImage)
        (.bind (engine.tandem_releaseNext owned busy) ?_)
      rintro _ later _ last ⟨further, still, forgets, fewer⟩
      rw [pending, List.length_cons] at enough
      -- An entry that is freed puts its edges on the list, and so the work gets less by one.
      have fewer : later.pending.length + later.edges.length =
        waiting.length + one.heap.edges.length := fewer
      exact (inductionHypothesis further still (by
        show later.pending.length + later.edges.length ≤ rounds
        omega)).imp fun _ _ _ _ done => ⟨done.1, done.2.1, forgets.trans done.2.2⟩

/-- What waits is given up in both heaps. -/
theorem tandem_drain (couples : one.heap.Couples name outside two.heap)
    (idle : one.heap.releasing = false)
    (enough : one.heap.pending.length + one.heap.edges.length ≤ engine.rounds) :
    Action.Tandem one two engine.drain engine.drain
      fun _ later _ last => later.Rests name outside last ∧ one.heap.Forgets later := by
  let started : World Code Host := { one with heap := { one.heap with releasing := true } }
  let startedImage : World Code Host := { two with heap := { two.heap with releasing := true } }
  have begun : started.heap.Couples name outside startedImage.heap := couples.setReleasing true
  obtain ⟨_, later, _, last, ended, endedImage, done, empty, forgets⟩ :=
    engine.tandem_releaseAll engine.rounds begun rfl enough
  have drained := engine.drain_of_releaseAll idle ended
  have drainedImage := engine.drain_of_releaseAll (couples.releasing.trans idle) endedImage
  exact ⟨(), _, (), _, drained, drainedImage, ⟨done.setReleasing false, rfl, empty⟩, forgets⟩

/-- A value is given up in both heaps. -/
theorem tandem_release {value : Value}
    (rests : one.heap.Rests name (outside + value.owns) two.heap)
    (enough : one.heap.edges.length + value.owns.card ≤ engine.rounds) :
    Action.Tandem one two (engine.release value) (engine.release (value.rename name))
      fun _ later _ last => later.Rests name outside last ∧ one.heap.Forgets later := by
  have nothing (owns : value.owns = 0) : one.heap.Rests name outside two.heap ∧
      one.heap.Forgets one.heap := ⟨rests.congr (by rw [owns, add_zero]), .refl _⟩
  cases value with
  | ref place =>
    have waits : Heap.Couples { one.heap with pending := [place] } name outside
        { two.heap with pending := [name place] } :=
      rests.move [place] (by
        rw [rests.settled]
        show ({place} : Multiset Handle) + outside = 0 + (outside + {place})
        abel)
    have enqueued : (enqueue (.ref place) : Action Code Host Unit) one =
        .ok ((), { one with heap := { one.heap with pending := [place] } }) := by
      rw [← rests.settled]
      rfl
    have enqueuedImage : (enqueue (.ref (name place)) : Action Code Host Unit) two =
        .ok ((), { two with heap := { two.heap with pending := [name place] } }) := by
      rw [← rests.settledImage]
      rfl
    refine .bind_of_ok enqueued enqueuedImage (engine.tandem_drain waits rests.idle ?_)
    show 1 + one.heap.edges.length ≤ engine.rounds
    rw [add_comm]
    exact enough
  | nil => exact .pure (nothing rfl)
  | bool value => exact .pure (nothing rfl)
  | int value => exact .pure (nothing rfl)

/-! ### Collections -/

/-- Cycles are collected in both heaps, and as many entries are freed. -/
theorem tandem_collect (rests : one.heap.Rests name outside two.heap)
    (enough : one.heap.edges.length ≤ engine.rounds) :
    Action.Tandem one two engine.collect engine.collect
      fun count later other last => count = other ∧ later.Rests name outside last ∧
        one.heap.Forgets later := by
  obtain ⟨removed, later, ended, first⟩ :=
    engine.exists_collects rests.sound rests.idle rests.settled rests.silent enough
  obtain ⟨removedImage, last, endedImage, second⟩ :=
    engine.exists_collects rests.image rests.idleImage rests.settledImage
      (rests.toMirrors.silent rests.silent) (rests.length_edges.trans_le enough)
  have same := (rests.removed_perm first second).length_eq
  rw [List.length_map] at same
  exact ⟨_, later, _, last, ended, endedImage, same.symm,
    ⟨⟨rests.collects first second, first.sound, second.sound, first.forgets.silent rests.silent⟩,
      first.idle, first.settled⟩, first.forgets⟩

end Engine

end ObjectHeap
