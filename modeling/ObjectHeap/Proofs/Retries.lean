/-
This file follows a memo from a deep copy that failed to a later one that uses it again, in heaps
without callbacks and as long as no class has a say in the copies. The copies that the first attempt
recorded are complete, but for the lists and instances on the way on which it stopped: these lack
contents, and the second attempt answers them as they are. So what it answers is complete exactly if
it was asked for nothing of that kind.
-/

import ObjectHeap.Proofs.Separation

namespace ObjectHeap

variable {Code Host : Type}

namespace Heap

variable {source before after heap : Heap Code} {original place : Handle} {copied : Value}

/-! ### Complete copies -/

/-- A copy is the original itself if that is no container. Otherwise it has the shell of the
original, and as many contents. -/
def Completes (source : Heap Code) (original : Handle) (heap : Heap Code) (copied : Value) : Prop :=
  (copied = .ref original ∧ ∃ payload, source.payload? original = some payload ∧ payload.shell = none) ∨
    ∃ place, copied = .ref place ∧ source.Finished original heap place

/-- A copy is as complete as it is, whether the original is looked at before or after others forgot
something. -/
theorem Remains.finished_iff (remains : before.Remains after original) :
    after.Finished original heap place ↔ before.Finished original heap place := by
  obtain ⟨_, payload, later, held, reached, alike⟩ := remains
  constructor
  · rintro ⟨_, copy, there, copied, found, shell, length⟩
    cases reached.symm.trans there
    exact ⟨payload, copy, held, alike.shell ▸ copied, found, shell.trans alike.shell,
      length.trans (congrArg _ alike.contents)⟩
  · rintro ⟨_, copy, there, copied, found, shell, length⟩
    cases held.symm.trans there
    exact ⟨later, copy, reached, alike.shell.symm ▸ copied, found, shell.trans alike.shell.symm,
      length.trans (congrArg _ alike.contents).symm⟩

/-- What is half made is not finished. -/
theorem HalfMade.not_finished (half : source.HalfMade original heap place) :
    ¬ source.Finished original heap place := by
  obtain ⟨payload, later, found, held, _, fewer⟩ := half
  rintro ⟨_, _, same, _, reached, _, length⟩
  cases found.symm.trans same
  cases held.symm.trans reached
  exact fewer.ne length

/-- A value reaches nothing else as long as all that it sustains remains. -/
theorem Reaches.of_remains {value : Value} {handle : Handle}
    (remains : ∀ other, before.Sustained value.owns other → before.Remains after other)
    (reaches : after.Reaches value handle) : before.Reaches value handle := by
  refine reaches.induction (fun root same => same ▸ .root root) fun source target _ reached contains => ?_
  obtain ⟨payload, there, member⟩ := contains
  obtain ⟨_, earlier, _, held, same, alike⟩ := remains source reached.sustained
  cases there.symm.trans same
  exact reached.step ⟨earlier, held, alike.contents ▸ member⟩

end Heap

/-! ### What a memo answers again -/

/-- What is recorded after a copy that failed was recorded before, or it is half made if it stands for
a list or an instance on the way, and finished otherwise. -/
theorem Outset.Halted.answers {outset : Outset Code} {rest mine : Multiset Handle} {memo kept : Memo}
    {start after : Heap Code} {value copied : Value} {way : List Handle} {handle : Handle}
    (halted : outset.Halted rest memo start value way mine kept after)
    (found : kept.find? handle = some copied) :
    memo.find? handle = some copied ∨ ∃ place, copied = .ref place ∧
      (handle ∈ outset.heap.fillsOf way → outset.heap.HalfMade handle after place) ∧
      (handle ∉ outset.heap.fillsOf way → outset.heap.Finished handle after place) := by
  rcases halted.made handle copied found with known | ⟨place, rfl, _, finished⟩
  · exact Or.inl known
  · refine Or.inr ⟨place, rfl, fun member => ?_, finished⟩
    obtain ⟨other, same, half⟩ := halted.halves handle member _ found
    cases same
    exact half

/-- A copy that is answered was recorded before, or nothing was and it is finished, or it is shared. -/
theorem Outset.Copied.answers {outset : Outset Code} {rest : Multiset Handle} {memo later : Memo}
    {start after : Heap Code} {copied : Value} {handle : Handle}
    (copy : outset.Copied rest memo start (.ref handle) copied later after) :
    memo.find? handle = some copied ∨
      (memo.find? handle = none ∧
        ∃ place, copied = .ref place ∧ outset.heap.Finished handle after place) ∨
      copied = .ref handle ∧ ∀ payload, outset.heap.payload? handle = some payload → payload.shell = none := by
  rcases copy.settled with ⟨_, same, found⟩ | ⟨same, shared⟩
  · cases same
    cases known : memo.find? handle with
    | some recorded =>
      cases (copy.kept handle recorded known).symm.trans found
      exact Or.inl rfl
    | none =>
      rcases copy.made handle copied found with early | ⟨place, rfl, _, finished⟩
      · rw [known] at early
        cases early
      · exact Or.inr (Or.inl ⟨rfl, place, rfl, finished (Set.notMem_empty handle)⟩)
  · exact Or.inr (Or.inr ⟨same, fun payload => shared handle payload rfl⟩)

/-- A copy is answered with the memo that is left after a copy that failed. Unless it was recorded
before both, it is complete exactly if it was not recorded for a list or an instance on the way. -/
theorem Outset.Halted.completes_iff {first second : Outset Code} {rest mine hers : Multiset Handle}
    {memo kept last : Memo} {start startLater after finish : Heap Code} {value copied : Value}
    {way : List Handle} {handle : Handle}
    (halted : first.Halted rest memo start value way mine kept after)
    (copy : second.Copied hers kept startLater (.ref handle) copied last finish)
    (here : first.heap.Remains second.heap handle)
    (images : ∀ place ∈ kept.owns, after.Remains finish place) :
    memo.find? handle = some copied ∨ (first.heap.Completes handle finish copied ↔
      ¬ (handle ∈ first.heap.fillsOf way ∧ (kept.find? handle).isSome)) := by
  obtain ⟨_, payload, later, found, foundLater, alike⟩ := id here
  rcases copy.answers with recorded | ⟨unrecorded, place, rfl, finished⟩ | ⟨rfl, shared⟩
  · rcases halted.answers recorded with known | ⟨place, rfl, half, finished⟩
    · exact Or.inl known
    · have image := images place
        (Memo.owns_subset_of_find? recorded (Multiset.mem_singleton_self place))
      refine Or.inr ?_
      rw [recorded, Option.isSome_some, and_iff_left rfl]
      refine ⟨?_, fun apart => Or.inr ⟨place, rfl, (finished apart).remains image⟩⟩
      rintro (⟨_, same, held, shared⟩ | ⟨_, same, complete⟩) inside
      · obtain ⟨_, other, shell, filled, shelled, _⟩ := inside
        cases held.symm.trans filled
        cases shared.symm.trans shelled
      · cases same
        exact ((half inside).remains image).not_finished complete
  · refine Or.inr (iff_of_true (Or.inr ⟨place, rfl, here.finished_iff.mp finished⟩) fun both => ?_)
    rw [unrecorded] at both
    cases both.2
  · have shell : payload.shell = none := alike.shell.symm.trans (shared later foundLater)
    refine Or.inr (iff_of_true (Or.inl ⟨rfl, payload, found, shell⟩) fun both => ?_)
    obtain ⟨⟨_, other, kind, filled, shelled, _⟩, _⟩ := both
    cases found.symm.trans filled
    cases shell.symm.trans shelled

/-! ### Runs -/

namespace Reached

variable {held : Host → Multiset Handle} {hand again : Multiset Handle}
  {bodies : Code → Arguments → Program Code Host} {config other : Config}
  {state : World Code (Recorded Code Host)}

/-- A deep copy fails at any moment of a run, and leaves a memo behind. At any later moment of a run a
deep copy with that memo is asked for something that the first one was asked for, or that this refers
to. Both it and the copies in the memo are as they were. Then a copy that is answered, unless it was
recorded before the first attempt, is complete exactly if it was not recorded for a list or an instance
on the way on which the first attempt stopped. -/
theorem retried_copies_are_complete_iff {One Another : Type} (respectful : RespectfulBodies held bodies)
    (reached : Reached held bodies config hand state) {heap : Heap Code} (member : heap ∈ heaps state)
    {mine : Multiset Handle} {memo : Memo} (balanced : heap.Balanced (mine + memo.owns))
    (silent : heap.Silent) {value : Value} (lent : value.owns ⊆ mine)
    (plain : ∀ handle, heap.Reaches value handle → ∀ function,
      heap.special? (.ref handle) "__deepcopy__" ≠ .ok (some function))
    (engine : Engine Code One) {host : One} {error : Error} {kept : Memo} {after : World Code One}
    (failed : engine.deepCopy value memo { heap, host } = .ok ((.error error, kept), after)) :
    ∃ way, heap.Way value way ∧
      ∀ {later : World Code (Recorded Code Host)} {heapLater : Heap Code} {hers : Multiset Handle}
        {handle : Handle} (engineLater : Engine Code Another) {hostLater : Another} {copied : Value}
        {last : Memo} {finish : World Code Another},
        Reached held bodies other again later → heapLater ∈ heaps later →
        heapLater.Balanced (hers + kept.owns) → heapLater.Silent → handle ∈ hers →
        heap.Sustained value.owns handle →
        (∀ part, heap.Reaches (.ref handle) part → ∀ function,
          heap.special? (.ref part) "__deepcopy__" ≠ .ok (some function)) →
        (∀ part, after.heap.Sustained ({handle} + kept.owns) part →
          after.heap.Remains heapLater part) →
        engineLater.deepCopy (.ref handle) kept { heap := heapLater, host := hostLater } =
          .ok ((.ok copied, last), finish) →
        memo.find? handle = some copied ∨
          (heap.Completes handle finish.heap copied ↔
            ¬ (handle ∈ heap.fillsOf way ∧ (kept.find? handle).isSome)) := by
  obtain ⟨limbo, calm⟩ := reached.heap_calm respectful member balanced silent
  obtain ⟨way, halted⟩ := engine.closes_deepCopy calm lent plain host _ _ _ failed
  refine ⟨way, halted.leads, ?_⟩
  intro later heapLater hers handle engineLater hostLater copied last finish reachedLater memberLater
    balancedLater silentLater inHand sustained plainLater unchanged answered
  -- What the second copy is asked for sustains no more than what the first one was asked for.
  have within {part : Handle} (inside : heap.Sustained {handle} part) : heap.Sustained value.owns part :=
    inside.induction (fun root same => Multiset.mem_singleton.mp same ▸ sustained)
      fun source target _ there refers => there.step refers
  have remains (part : Handle) (inside : heap.Sustained {handle} part) : heap.Remains heapLater part := by
    have early : after.heap.Sustained {handle} part :=
      inside.of_remains fun other there => halted.remains other (within there)
    exact (halted.remains part (within inside)).trans
      (unchanged part (early.mono (Multiset.subset_of_le (Multiset.le_add_right _ _))))
  obtain ⟨limboLater, calmLater⟩ :=
    reachedLater.heap_calm respectful memberLater balancedLater silentLater
  have lentLater : (Value.ref handle).owns ⊆ hers := fun _ same => Multiset.mem_singleton.mp same ▸ inHand
  have copy := engineLater.closes_deepCopy calmLater lentLater (fun part reaches function special => by
      have before := reaches.of_remains remains
      rw [Heap.special?_of_remains remains calm.sound.formed calm.sound.balanced before.sustained] at special
      exact plainLater part before function special) hostLater _ _ _ answered
  refine halted.completes_iff copy (remains handle (.of_mem (Multiset.mem_singleton_self handle)))
    fun place inMemo => ?_
  have recorded : heapLater.Sustained (hers + kept.owns) place :=
    .of_mem (Multiset.mem_add.mpr (Or.inr inMemo))
  exact (unchanged place (.of_mem (Multiset.mem_add.mpr (Or.inr inMemo)))).trans
    ((calmLater.underway lentLater).remains_of_weathers copy.weathers
      (fun _ => by rw [add_zero]; exact id) recorded)

/-- A list of two lists cannot be copied where two more entries are allowed. The copy of the first one
is complete nevertheless, and is answered again. -/
theorem retried_copy_of_first_item : ∃ state : World Unit (Recorded Unit Unit),
    Reached (fun _ => 0) idleBodies (Config.standard.set (.maxAllocations 5)) ({2} + {0}) state ∧
    ∃ error kept after last finish,
      (bodiesEngine idleBodies 4).deepCopy (.ref 2) Memo.empty state = .ok ((.error error, kept), after) ∧
      (bodiesEngine idleBodies 4).deepCopy (.ref 0) kept after = .ok ((.ok (.ref 4), last), finish) ∧
      state.heap.Completes 0 finish.heap (.ref 4) ∧
      ∃ way, state.heap.Way (.ref 2) way ∧ 0 ∉ state.heap.fillsOf way := by
  let shape (heap : Heap Unit) (handle : Handle) : Option (Option Shell × List Value) :=
    (heap.payload? handle).map fun payload => (payload.shell, payload.contents)
  obtain ⟨state, reached, seen⟩ : ∃ state : World Unit (Recorded Unit Unit),
      Reached (fun _ => 0) idleBodies (Config.standard.set (.maxAllocations 5)) ({2} + {0}) state ∧
        (((bodiesEngine idleBodies 4).deepCopy (.ref 2) Memo.empty state).toOption.bind fun first =>
          ((bodiesEngine idleBodies 4).deepCopy (.ref 0) first.1.2 first.2).toOption.map fun second =>
            ([state.heap.hasNoCallback, state.heap.isSilent ["__deepcopy__"], !first.1.1.isOk,
              first.2.heap.hasNoCallback, (first.1.2.find? 0).isSome,
              shape state.heap 2 = some (some .list, [.ref 0, .ref 1]),
              shape state.heap 0 = some (some .list, []), shape second.2.heap 4 = some (some .list, [])],
              second.1.1.toOption)) =
        some ([true, true, true, true, true, true, true, true], some (.ref 4)) :=
    exists_follow [.newList [], .newList [], .share (.ref 0), .newList [.ref 0, .ref 1]] 4 () _ _ rfl
      (by decide +kernel)
  obtain ⟨⟨⟨outcome, kept⟩, after⟩, first, seen⟩ := Option.bind_eq_some_iff.mp seen
  obtain ⟨⟨⟨again, last⟩, finish⟩, second, seen⟩ := Option.map_eq_some_iff.mp seen
  simp only [Prod.mk.injEq, List.cons.injEq, and_true, decide_eq_true_eq] at seen
  obtain ⟨⟨silent, plain, refused, quiet, recorded, outer, inner, image⟩, answered⟩ := seen
  cases outcome with
  | ok copied => cases refused
  | error error =>
    cases eq_ok_of_toOption answered
    have failed := eq_ok_of_toOption first
    have answers := eq_ok_of_toOption second
    obtain ⟨list, held, shaped⟩ := Option.map_eq_some_iff.mp outer
    obtain ⟨item, found, empty⟩ := Option.map_eq_some_iff.mp inner
    obtain ⟨copy, made, copied⟩ := Option.map_eq_some_iff.mp image
    obtain ⟨_, contents⟩ := Prod.mk.inj shaped
    obtain ⟨shell, nothing⟩ := Prod.mk.inj empty
    obtain ⟨shellCopied, nothingCopied⟩ := Prod.mk.inj copied
    have performed : (Operation.deepCopy (.ref 2) Memo.empty).noted (bodiesEngine idleBodies 4) state =
        .ok ((.error error, kept), _) := (Action.bind_of_ok failed).trans rfl
    have later : Reached (fun _ => 0) idleBodies (Config.standard.set (.maxAllocations 5))
        ({2} + {0} + (0 + kept.owns)) _ :=
      .perform (.deepCopy (.ref 2) Memo.empty) 4 (.error error, kept) (reached.congr (zero_add _).symm)
        (Multiset.subset_of_le (by decide)) performed
    have balanced : after.heap.Balanced ({2} + {0} + kept.owns) := by
      have counted := later.balanced respectful_idleBodies
      rwa [zero_add, add_zero] at counted
    have early : state.heap.Balanced ({2} + {0} + Memo.empty.owns) :=
      reached.balanced respectful_idleBodies
    obtain ⟨way, leads, retry⟩ := retried_copies_are_complete_iff respectful_idleBodies reached
      List.mem_cons_self early
      (Heap.silent_of_hasNoCallback silent) (Multiset.subset_of_le (by decide))
      (Heap.plain_of_isSilent plain _) (bodiesEngine idleBodies 4) failed
    have complete : state.heap.Completes 0 finish.heap (.ref 4) :=
      Or.inr ⟨4, rfl, item, copy, found, Option.isSome_of_eq_some shell, made,
        shellCopied.trans shell.symm, by rw [nothing, nothingCopied]⟩
    refine ⟨state, reached, error, kept, after, last, finish, failed, answers, complete, way, leads,
      fun inside => ?_⟩
    rcases retry (bodiesEngine idleBodies 4) later List.mem_cons_self balanced
      (Heap.silent_of_hasNoCallback quiet) (by decide)
      ((Heap.Sustained.of_mem (by decide)).of_contents held (by rw [contents]; exact List.mem_cons_self))
      (Heap.plain_of_isSilent plain _) (fun part sustained => .refl (balanced.isLive_of_sustained
        (sustained.mono (Multiset.subset_of_le (add_le_add_left (by decide) kept.owns)))))
      answers with early | iff
    · cases early
    · exact iff.mp complete ⟨inside, recorded⟩

/-- A list of a list cannot be copied where one more entry is allowed. The empty list that was to be its
copy is answered when it is copied again with the same memo. -/
theorem retried_copy_of_failed_list : ∃ state : World Unit (Recorded Unit Unit),
    Reached (fun _ => 0) idleBodies (Config.standard.set (.maxAllocations 3)) {1} state ∧
    ∃ error kept after copied last finish,
      (bodiesEngine idleBodies 4).deepCopy (.ref 1) Memo.empty state = .ok ((.error error, kept), after) ∧
      (bodiesEngine idleBodies 4).deepCopy (.ref 1) kept after = .ok ((.ok copied, last), finish) ∧
      (state.heap.items? (.ref 1)).toOption = some (some [.ref 0]) ∧
      (finish.heap.items? copied).toOption = some (some []) := by
  obtain ⟨state, reached, seen⟩ : ∃ state : World Unit (Recorded Unit Unit),
      Reached (fun _ => 0) idleBodies (Config.standard.set (.maxAllocations 3)) {1} state ∧
        (((bodiesEngine idleBodies 4).deepCopy (.ref 1) Memo.empty state).toOption.bind fun first =>
          ((bodiesEngine idleBodies 4).deepCopy (.ref 1) first.1.2 first.2).toOption.map fun second =>
            ([!first.1.1.isOk, (state.heap.items? (.ref 1)).toOption = some (some [.ref 0]),
              (second.2.heap.items? (.ref 2)).toOption = some (some [])], second.1.1.toOption)) =
        some ([true, true, true], some (.ref 2)) :=
    exists_follow [.newList [], .newList [.ref 0]] 4 () _ _ rfl (by decide +kernel)
  obtain ⟨⟨⟨outcome, kept⟩, after⟩, first, seen⟩ := Option.bind_eq_some_iff.mp seen
  obtain ⟨⟨⟨again, last⟩, finish⟩, second, seen⟩ := Option.map_eq_some_iff.mp seen
  simp only [Prod.mk.injEq, List.cons.injEq, and_true, decide_eq_true_eq] at seen
  obtain ⟨⟨refused, whole, empty⟩, answered⟩ := seen
  cases outcome with
  | ok copied => cases refused
  | error error =>
    cases eq_ok_of_toOption answered
    exact ⟨state, reached, error, kept, after, .ref 2, last, finish, eq_ok_of_toOption first,
      eq_ok_of_toOption second, whole, empty⟩

end Reached

end ObjectHeap
