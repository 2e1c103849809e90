/-
This file says what a memo stands for when a host goes on with it from one deep copy to the next,
with anything else in between. A memo owns the copies, and not what they were made of. So an entry
of a memo was recorded while some entry of the heap was copied, but by the time at which it is found
its slot may hold another one, which is then answered with the copy of its predecessor. That does
not happen as long as the host keeps what it has copied.
-/

import Mathlib
import ObjectHeap.Proofs.Runs

namespace ObjectHeap

variable {Code Host : Type} {held : Host → Multiset Handle}
  {bodies : Code → Arguments → Program Code Host} {config : Config} {kept : Multiset Handle}

/-- A host at work with a memo: what it has in its hands beside what the memo owns, the memo, and
the world. -/
structure Session (Code Host : Type) where
  hand : Multiset Handle
  memo : Memo
  world : World Code (Recorded Code Host)

/-- How a host goes on with one memo, in between two operations: it may ask for any operation, for
deep copies with the memo, and may keep and take out what it likes. All the while it has a reference
to each of `kept` in its hands. -/
inductive Shares (held : Host → Multiset Handle) (bodies : Code → Arguments → Program Code Host)
    (kept : Multiset Handle) (start : Session Code Host) : Session Code Host → Prop
  | still (keeps : kept ⊆ start.hand) : Shares held bodies kept start start
  | perform {rest : Multiset Handle} {memo : Memo} {before after : World Code (Recorded Code Host)}
    (operation : Operation Code) (rounds : Nat) (answer : operation.Answer)
    (shares : Shares held bodies kept start ⟨operation.consumes + rest, memo, before⟩)
    (lent : operation.borrows ⊆ rest) (keeps : kept ⊆ rest)
    (ended : operation.noted (bodiesEngine bodies rounds) before = .ok (answer, after)) :
    Shares held bodies kept start ⟨rest + operation.gains answer, memo, after⟩
  | copy {rest : Multiset Handle} {memo later : Memo} {before after : World Code (Recorded Code Host)}
    (value : Value) (rounds : Nat) (outcome : Except Error Value)
    (shares : Shares held bodies kept start ⟨rest, memo, before⟩)
    (lent : value.owns ⊆ rest) (keeps : kept ⊆ rest)
    (ended : (Operation.deepCopy value memo).noted (bodiesEngine bodies rounds) before =
      .ok ((outcome, later), after)) :
    Shares held bodies kept start ⟨rest + outcomeOwns Value.owns 0 outcome, later, after⟩
  | keep {hand left : Multiset Handle} {memo : Memo} {before : World Code (Recorded Code Host)}
    (host : Host) (shares : Shares held bodies kept start ⟨hand, memo, before⟩)
    (moved : held before.host.host + hand = held host + left) (keeps : kept ⊆ left) :
    Shares held bodies kept start ⟨left, memo, { before with host := { before.host with host } }⟩

/-- A copy that is recorded is answered with one more reference to it, whatever is in the slot. -/
theorem Engine.deepCopy_of_recorded {Other : Type} (engine : Engine Code Other) {memo : Memo}
    {slot : Handle} {copy : Value} {world : World Code Other} (found : memo.find? slot = some copy)
    (live : ∀ handle ∈ copy.owns, world.heap.isLive handle) :
    ∃ after, engine.deepCopy (.ref slot) memo world = .ok ((.ok copy, memo), after) ∧
      ∀ handle, after.heap.payload? handle = world.heap.payload? handle := by
  obtain ⟨after, retained⟩ : ∃ after,
      (retainValue copy : Action Code Other Unit) world = .ok ((), after) := by
    cases copy with
    | ref handle =>
      have here := live handle (Multiset.mem_singleton_self handle)
      exact ⟨_, (retain_apply _ handle).trans (if_pos here)⟩
    | _ => exact ⟨world, rfl⟩
  have ran := Copying.recorded?_of_some found retained
  exact ⟨after, Action.bind_eq_ok.mpr ⟨_, after, ran, rfl⟩, payload?_of_retainValue retained⟩

namespace Reached

/-- What a host has in its hands throughout an operation stays in its slot. -/
theorem perform_passes {hand rest : Multiset Handle} {before after : World Code (Recorded Code Host)}
    (reached : Reached held bodies config hand before) (respectful : RespectfulBodies held bodies)
    (operation : Operation Code) (rounds : Nat) {answer : operation.Answer}
    (same : hand = operation.consumes + rest) (lent : operation.borrows ⊆ rest)
    (ended : operation.noted (bodiesEngine bodies rounds) before = .ok (answer, after)) :
    (recordedLedger held bodies).Passes rest before after := by
  have holds := ((reached.congr same).holds respectful).congr (add_comm _ _)
  have passes := (operation.yields_noted_lent (recordedConduct_records bodies) (respectful.keeps rounds)
    (fun _ member => Multiset.mem_add.mpr (Or.inr (lent member))) (operation.threads_recorded _)
    (Ledger.Holds.framing_iff.mpr holds) answer after ended).2
  exact passes.mono fun _ member => Multiset.mem_add.mpr (Or.inr member)

/-- What a deep copy adds to a memo was recorded in its course. -/
theorem extends_deepCopy {rest : Multiset Handle} {memo later : Memo} {value : Value}
    {before after : World Code (Recorded Code Host)} {rounds : Nat} {outcome : Except Error Value}
    (reached : Reached held bodies config (rest + memo.owns) before)
    (respectful : RespectfulBodies held bodies) (lent : value.owns ⊆ rest)
    (ended : (Operation.deepCopy value memo).noted (bodiesEngine bodies rounds) before =
      .ok ((outcome, later), after)) :
    (bodiesEngine bodies rounds).Extends (recordedLedger held bodies) ∅ memo later before after := by
  obtain ⟨_, between, copied, noted⟩ := Action.bind_eq_ok.mp ended
  obtain ⟨_, _, wrote, last⟩ := Action.bind_eq_ok.mp noted
  cases last
  have gives := (respectful.keeps rounds).copyWithin (fun calm => calm) (maxDataDepth + 1) value
    (atRest.framing rest) memo before (fun _ member => Multiset.mem_add.mpr (Or.inr (lent member)))
    (Ledger.Holds.framing_iff.mpr (reached.holds respectful)) fun _ _ => trivial
  have done := gives.notes _ _ copied
  exact done.grows.trans (.refl _ _ _ _ _ _) done.passes.unframed
    (yields_note (recordedConduct_records bodies) _ done.holds (fun _ _ same => by cases same; trivial)
      _ _ wrote).2.unframed

end Reached

/-- A host goes on with one memo: it asks for operations one after the other, as long as it has in
its hands what they take over and borrow, and makes deep copies with the memo as it is then. -/
def Session.follow (engine : Engine Code (Recorded Code Host)) :
    List (Operation Code) → Session Code Host → Option (Session Code Host)
  | [], session => some session
  | .deepCopy value _ :: rest, ⟨hand, memo, world⟩ =>
    if value.owns ≤ hand then
      match (Operation.deepCopy value memo).noted engine world with
      | .ok ((outcome, memo), world) =>
        Session.follow engine rest ⟨hand + outcomeOwns Value.owns 0 outcome, memo, world⟩
      | .error _ => none
    else none
  | operation :: rest, ⟨hand, memo, world⟩ =>
    if operation.consumes ≤ hand ∧ operation.borrows ≤ hand - operation.consumes then
      match operation.noted engine world with
      | .ok (answer, world) =>
        Session.follow engine rest ⟨hand - operation.consumes + operation.gains answer, memo, world⟩
      | .error _ => none
    else none

namespace Shares

variable {start finish : Session Code Host}

/-- A host that goes on with a memo does what hosts do. -/
theorem reached (shares : Shares held bodies kept start finish)
    (begun : Reached held bodies config (start.hand + start.memo.owns) start.world) :
    Reached held bodies config (finish.hand + finish.memo.owns) finish.world := by
  induction shares with
  | still => exact begun
  | @perform rest memo before after operation rounds answer _ lent _ ended inductionHypothesis =>
    have lent : operation.borrows ⊆ rest + memo.owns := fun _ member =>
      Multiset.mem_add.mpr (Or.inl (lent member))
    exact (Reached.perform operation rounds answer (inductionHypothesis.congr (add_assoc _ _ _)) lent
      ended).congr (add_right_comm _ _ _)
  | @copy rest memo later before after value rounds outcome _ lent _ ended inductionHypothesis =>
    exact (Reached.perform (.deepCopy value memo) rounds (outcome, later)
      (inductionHypothesis.congr (add_comm _ _)) lent ended).congr (add_assoc _ _ _).symm
  | @keep hand left memo before host _ moved _ inductionHypothesis =>
    refine .keep host inductionHypothesis ?_
    rw [← add_assoc, moved, add_assoc]

theorem of_follow {operations : List (Operation Code)} {rounds : Nat} {session : Session Code Host}
    (shares : Shares held bodies 0 start session)
    (ended : session.follow (bodiesEngine bodies rounds) operations = some finish) :
    Shares held bodies 0 start finish := by
  fun_induction Session.follow (bodiesEngine bodies rounds) operations session with
  | case1 session =>
    cases ended
    exact shares
  | case2 value _ rest hand memo world lent outcome later after ran inductionHypothesis =>
    exact inductionHypothesis (.copy value rounds outcome shares (Multiset.subset_of_le lent)
      (Multiset.zero_subset _) ran) ended
  | case5 operation rest hand memo world plain both answer after ran inductionHypothesis =>
    rw [← add_tsub_cancel_of_le both.1] at shares
    exact inductionHypothesis (.perform operation rounds answer shares
      (Multiset.subset_of_le both.2) (Multiset.zero_subset _) ran) ended
  | _ => cases ended

/-- A host has in its hands what it keeps. -/
theorem keeps (shares : Shares held bodies kept start finish) : kept ⊆ finish.hand := by
  cases shares with
  | still keeps => exact keeps
  | perform _ _ _ _ _ keeps _ => exact fun _ member => Multiset.mem_add.mpr (Or.inl (keeps member))
  | copy _ _ _ _ _ keeps _ => exact fun _ member => Multiset.mem_add.mpr (Or.inl (keeps member))
  | keep _ _ _ keeps => exact keeps

/-- What a host keeps stays in its slot as it goes on with a memo. -/
theorem passes (respectful : RespectfulBodies held bodies)
    (shares : Shares held bodies kept start finish)
    (begun : Reached held bodies config (start.hand + start.memo.owns) start.world) :
    (recordedLedger held bodies).Passes kept start.world finish.world := by
  have stays {session : Session Code Host} (shares : Shares held bodies kept start session) :
      session.world.heap.Carries False kept session.world.heap :=
    .refl _ _ _ ((shares.reached begun).balanced respectful) fun _ member => Multiset.mem_add.mpr
      (Or.inl (Multiset.mem_add.mpr (Or.inl (shares.keeps member))))
  induction shares with
  | still keeps => exact ⟨stays (.still keeps), .still _⟩
  | perform operation rounds answer shares lent keeps ended inductionHypothesis =>
    refine inductionHypothesis.trans (((shares.reached begun).perform_passes respectful operation
      rounds (add_assoc _ _ _) (fun _ member => ?_) ended).mono fun _ member => ?_)
    · exact Multiset.mem_add.mpr (Or.inl (lent member))
    · exact Multiset.mem_add.mpr (Or.inl (keeps member))
  | copy value rounds outcome shares lent keeps ended inductionHypothesis =>
    exact inductionHypothesis.trans (((shares.reached begun).perform_passes respectful
      (.deepCopy value _) rounds (add_comm _ _) lent ended).mono keeps)
  | keep host shares moved keeps inductionHypothesis =>
    have carries := stays (.keep host shares moved keeps)
    exact inductionHypothesis.trans ⟨carries, .host (Or.inl rfl)⟩

/-- What a memo has come to record was recorded while some entry was copied. -/
theorem exists_sources (respectful : RespectfulBodies held bodies)
    (shares : Shares held bodies kept start finish)
    (begun : Reached held bodies config (start.hand + start.memo.owns) start.world) {slot : Handle}
    {copy : Value} (fresh : start.memo.find? slot = none)
    (found : finish.memo.find? slot = some copy) :
    ∃ rounds first last, (bodiesEngine bodies rounds).Sources (recordedLedger held bodies) slot copy
      start.world first last finish.world := by
  -- A source stays one while the sharing goes on, since slots only get older.
  induction shares with
  | still =>
    rw [fresh] at found
    cases found
  | perform operation rounds answer shares lent _ ended inductionHypothesis =>
    obtain ⟨earlier, first, last, sources⟩ := inductionHypothesis found
    have passes := (shares.reached begun).perform_passes respectful operation rounds
      (add_assoc _ _ _) (fun _ member => Multiset.mem_add.mpr (Or.inl (lent member))) ended
    exact ⟨earlier, first, last, { sources with ended := sources.ended.trans passes.unframed }⟩
  | copy value rounds outcome shares lent _ ended inductionHypothesis =>
    have reached := shares.reached begun
    have passes := reached.perform_passes respectful (.deepCopy value _) rounds (add_comm _ _) lent ended
    rcases reached.extends_deepCopy respectful lent ended slot copy found with
      known | exempt | ⟨first, last, sources⟩
    · obtain ⟨earlier, first, last, sources⟩ := inductionHypothesis known
      exact ⟨earlier, first, last, { sources with ended := sources.ended.trans passes.unframed }⟩
    · cases exempt
    · exact ⟨rounds, first, last,
        { sources with begun := (shares.passes respectful begun).unframed.trans sources.begun }⟩
  | keep host shares moved keeps inductionHypothesis =>
    obtain ⟨earlier, first, last, sources⟩ := inductionHypothesis found
    have rests := (((Shares.keep host shares moved keeps).reached begun).holds respectful).carries_refl
    exact ⟨earlier, first, last, { sources with
      ended := sources.ended.trans ⟨rests, .host (Or.inl rfl)⟩ }⟩

end Shares

namespace Reached

variable {start finish : Session Code Host}

/-- When a deep copy finds a slot in the memo that a host has gone on with, it answers the recorded
copy and no more happens. That copy was recorded while an entry in that slot was copied, which was
there until its copy was finished. If the host has kept it from the beginning it is the same entry
still; but if the slot was free at any time since, then what is there now is another entry. -/
theorem recorded_copies_stand (respectful : RespectfulBodies held bodies)
    (reached : Reached held bodies config (start.hand + start.memo.owns) start.world)
    (shares : Shares held bodies kept start finish) {slot : Handle} {copy : Value}
    (fresh : start.memo.find? slot = none) (found : finish.memo.find? slot = some copy)
    (owned : slot ∈ finish.hand) :
    (∀ rounds, ∃ after, (bodiesEngine bodies rounds).deepCopy (.ref slot) finish.memo finish.world =
        .ok ((.ok copy, finish.memo), after) ∧
      ∀ handle, after.heap.payload? handle = finish.world.heap.payload? handle) ∧
    ∃ rounds first last,
      (bodiesEngine bodies rounds).Sources (recordedLedger held bodies) slot copy start.world first last
        finish.world ∧
      (slot ∈ kept → finish.world.heap.births slot = first.heap.births slot) ∧
      (finish.world.heap.births slot = first.heap.births slot →
        ∃ payload later, first.heap.payload? slot = some payload ∧
          finish.world.heap.payload? slot = some later ∧ payload.Continues later) ∧
      ∀ between : Heap Code, first.heap.Evolves between → between.Evolves finish.world.heap →
        ¬ between.isLive slot → first.heap.births slot < finish.world.heap.births slot := by
  have balanced := (shares.reached reached).balanced respectful
  have live : finish.world.heap.isLive slot := balanced.isLive_of_mem
    (Or.inl (Multiset.mem_add.mpr (Or.inl (Multiset.mem_add.mpr (Or.inl owned)))))
  have copied (handle : Handle) (member : handle ∈ copy.owns) : finish.world.heap.isLive handle :=
    balanced.isLive_of_mem (Or.inl (Multiset.mem_add.mpr (Or.inl (Multiset.mem_add.mpr
      (Or.inr (Memo.owns_subset_of_find? found member))))))
  obtain ⟨rounds, first, last, sources⟩ := shares.exists_sources respectful reached fresh found
  have evolves := (sources.onward.trans sources.ended).evolves
  refine ⟨fun _ => Engine.deepCopy_of_recorded _ found copied, rounds, first, last, sources, ?_, ?_, ?_⟩
  · intro member
    have same := (shares.passes respectful reached).kept slot member
    have early := sources.begun.evolves.older slot
    have late := evolves.older slot
    omega
  · intro same
    obtain ⟨payload, there⟩ := Heap.exists_payload?_of_isLive sources.here
    obtain ⟨later, placed⟩ := Heap.exists_payload?_of_isLive live
    exact ⟨payload, later, there, placed, evolves.continues slot payload later there placed same⟩
  · intro between early late freed
    exact lt_of_le_of_ne (evolves.older slot) fun same => freed (early.present late live same.symm).1

/-- A list that is kept is answered with its own copy the second time. -/
theorem recorded_copy_of_kept_list : ∃ start finish : Session Unit Unit,
    Reached (fun _ => 0) idleBodies Config.standard (start.hand + start.memo.owns) start.world ∧
    Shares (fun _ => 0) idleBodies {0} start finish ∧ start.memo.find? 0 = none ∧
    finish.memo.find? 0 = some (.ref 1) ∧ 0 ∈ finish.hand ∧
    (∃ after, (bodiesEngine idleBodies 4).deepCopy (.ref 0) finish.memo finish.world =
      .ok ((.ok (.ref 1), finish.memo), after)) ∧
    ∃ rounds first last,
      (bodiesEngine idleBodies rounds).Sources (recordedLedger (fun _ => 0) idleBodies) 0 (.ref 1)
        start.world first last finish.world ∧
      finish.world.heap.births 0 = first.heap.births 0 := by
  obtain ⟨start, finish, begun, shares, fresh, found, owned⟩ : ∃ start finish : Session Unit Unit,
      Reached (fun _ => 0) idleBodies Config.standard (start.hand + start.memo.owns) start.world ∧
      Shares (fun _ => 0) idleBodies {0} start finish ∧ start.memo.find? 0 = none ∧
      finish.memo.find? 0 = some (.ref 1) ∧ 0 ∈ finish.hand :=
    ⟨⟨{0}, Memo.empty, _⟩, ⟨{0} + {1}, _, _⟩,
      .perform (.newList [.int 1]) 4 (.ok (.ref 0)) (.start () rfl) (fun _ member => member) rfl,
      .copy (.ref 0) 4 (.ok (.ref 1)) (.still fun _ member => member) (fun _ member => member)
        (fun _ member => member) rfl,
      rfl, rfl, by decide⟩
  obtain ⟨answers, rounds, first, last, sources, same, _⟩ :=
    recorded_copies_stand respectful_idleBodies begun shares fresh found owned
  obtain ⟨after, answered, _⟩ := answers 4
  exact ⟨start, finish, begun, shares, fresh, found, owned, ⟨after, answered⟩, rounds, first, last,
    sources, same (by decide)⟩

/-- A list is copied and dropped, and the next list that is created comes to the same slot. Its deep
copy with the same memo answers the copy of the first list. -/
theorem recorded_copy_of_dropped_list : ∃ start middle finish : Session Unit Unit,
    Reached (fun _ => 0) idleBodies Config.standard (start.hand + start.memo.owns) start.world ∧
    start.memo = Memo.empty ∧ Shares (fun _ => 0) idleBodies 0 start middle ∧
    Shares (fun _ => 0) idleBodies 0 middle finish ∧ 0 ∈ finish.hand ∧
    (finish.world.heap.items? (.ref 0)).toOption = some (some [.int 2]) ∧
    (finish.world.heap.items? (.ref 1)).toOption = some (some [.int 1]) ∧
    (∃ after, (bodiesEngine idleBodies 8).deepCopy (.ref 0) finish.memo finish.world =
      .ok ((.ok (.ref 1), finish.memo), after)) ∧
    ∃ rounds first last,
      (bodiesEngine idleBodies rounds).Sources (recordedLedger (fun _ => 0) idleBodies) 0 (.ref 1)
        start.world first last finish.world ∧
      first.heap.births 0 < finish.world.heap.births 0 := by
  let start : Session Unit Unit :=
    ⟨0, Memo.empty, { heap := Heap.new Config.standard, host := { host := (), moments := [] } }⟩
  have ran : ((start.follow (bodiesEngine idleBodies 8)
      [.newList [.int 1], .deepCopy (.ref 0) Memo.empty]).bind fun middle =>
        (middle.follow (bodiesEngine idleBodies 8) [.drop (.ref 0), .newList [.int 2]]).map fun finish =>
          ([middle.memo.find? 0, finish.memo.find? 0],
            [middle.world.heap.births 0, finish.world.heap.births 0, finish.hand.count 0],
            [(finish.world.heap.items? (.ref 0)).toOption,
              (finish.world.heap.items? (.ref 1)).toOption])) =
      some ([some (.ref 1), some (.ref 1)], [1, 2, 1],
        [some (some [.int 2]), some (some [.int 1])]) := by
    decide +kernel
  obtain ⟨middle, began, ran⟩ := Option.bind_eq_some_iff.mp ran
  obtain ⟨finish, went, seen⟩ := Option.map_eq_some_iff.mp ran
  simp only [Prod.mk.injEq, List.cons.injEq, and_true] at seen
  obtain ⟨⟨recorded, found⟩, ⟨early, late, counted⟩, other, copied⟩ := seen
  have begun : Reached (fun _ => 0) idleBodies Config.standard (start.hand + start.memo.owns)
    start.world := .start () rfl
  have shares : Shares (fun _ => 0) idleBodies 0 start middle :=
    .of_follow (.still (Multiset.zero_subset _)) began
  have goes : Shares (fun _ => 0) idleBodies 0 middle finish :=
    .of_follow (.still (Multiset.zero_subset _)) went
  have reached := goes.reached (shares.reached begun)
  have live (handle : Handle) (member : handle ∈ (Value.ref 1).owns) :
      finish.world.heap.isLive handle :=
    (reached.balanced respectful_idleBodies).isLive_of_mem (Or.inl (Multiset.mem_add.mpr
      (Or.inl (Multiset.mem_add.mpr (Or.inr (Memo.owns_subset_of_find? found member))))))
  obtain ⟨after, answered, _⟩ := (bodiesEngine idleBodies 8).deepCopy_of_recorded found live
  obtain ⟨rounds, first, last, sources⟩ :=
    shares.exists_sources respectful_idleBodies begun rfl recorded
  have onward := (goes.passes respectful_idleBodies (shares.reached begun)).unframed
  have older := (sources.onward.trans sources.ended).evolves.older 0
  exact ⟨start, middle, finish, begun, rfl, shares, goes, Multiset.count_pos.mp (by omega), other, copied,
    ⟨after, answered⟩, rounds, first, last, { sources with ended := sources.ended.trans onward },
    by omega⟩

end Reached

end ObjectHeap
