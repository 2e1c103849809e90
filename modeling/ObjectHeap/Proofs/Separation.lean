/-
This file separates deep copies from their originals, in a heap without callbacks and as long as no
class has a say in the copy. A copy with a fresh memo reaches no container that was there before, and
no reference that was held before leads to a container of the copy. So what is changed in the copy is
not seen from outside. And whether a copy succeeds or not, whatever was held from outside stays as it
was, except that weak references and registers forget entries that nobody held and that are gone.
-/

import ObjectHeap.Proofs.FailedCopies
import ObjectHeap.Proofs.Forms
import ObjectHeap.Proofs.Outcomes

namespace ObjectHeap

variable {Code Host : Type} {heap : Heap Code} {outside : Multiset Handle}

/-! ### The beginning of a copy -/

/-- What is there remains in the same heap. -/
theorem Heap.Remains.refl {handle : Handle} (live : heap.isLive handle) : heap.Remains heap handle := by
  obtain ⟨payload, held⟩ := exists_payload?_of_isLive live
  exact ⟨rfl, payload, payload, held, held, .refl payload⟩

/-- The outset of a copy of a value with a memo. -/
def Heap.outset (heap : Heap Code) (value : Value) (memo : Memo) (limbo : List Handle) : Outset Code :=
  { heap, top := value, old := memo.owns, limbo }

section

variable {mine : Multiset Handle} {memo : Memo} {limbo : List Handle} {value : Value}

/-- At the outset of a copy that others hold, nothing has come to be since. -/
theorem Heap.Calm.underway (calm : heap.Calm (mine + memo.owns) limbo) (lent : value.owns ⊆ mine) :
    (heap.outset value memo limbo).Underway mine 0 memo heap where
  based := lent
  calm := calm.congr (by rw [add_zero])
  older _ := le_rfl
  remains handle sustained := .refl (calm.sound.balanced.isLive_of_sustained
    (sustained.mono fun _ member => Multiset.mem_add.mpr (Or.inl (lent member))))
  closed _ _ _ born := absurd born (lt_irrefl _)
  recorded _ member := Or.inr (Or.inl member)

/-- A deep copy of what others hold comes to an end well or on a way. -/
theorem Engine.closes_deepCopy (engine : Engine Code Host) (calm : heap.Calm (mine + memo.owns) limbo)
    (lent : value.owns ⊆ mine)
    (plain : ∀ handle, heap.Reaches value handle → ∀ function,
      heap.special? (.ref handle) "__deepcopy__" ≠ .ok (some function)) (host : Host) :
    (engine.copyWithin (maxDataDepth + 1) value).Closes memo { heap, host }
      (fun copied later after =>
        (heap.outset value memo limbo).Copied mine memo heap value copied later after.heap)
      fun later after => ∃ way,
        (heap.outset value memo limbo).Halted mine memo heap value way 0 later after.heap := by
  have copies : (heap.outset value memo limbo).Copies (engine.copyWithin (maxDataDepth + 1)) :=
    Outset.copies_copyWithin engine calm.sound.formed calm.sound.balanced plain _
  exact copies mine memo { heap, host } value (calm.underway lent) lent
    fun handle same => ⟨handle, same, .refl⟩

end

/-! ### What a copy reaches -/

/-- A container that a copy reaches came to be since, if nothing was recorded before. -/
theorem Outset.Copied.born {outset : Outset Code} {rest : Multiset Handle} {memo later : Memo}
    {start after : Heap Code} {value copied : Value} {handle : Handle}
    (copy : outset.Copied rest memo start value copied later after) (fresh : outset.old = 0)
    (reached : handle ∈ after.containers copied) : outset.heap.births handle < after.births handle := by
  obtain ⟨⟨root, rfl, leads⟩, held⟩ := reached
  -- What is shared is no container, and nothing is in it.
  have created {target : Handle} (apart : outset.Apart after target) {payload : Payload Code}
      (there : after.payload? target = some payload) (container : payload.shell.isSome) :
      outset.heap.births target < after.births target := by
    rcases apart with born | known | ⟨sustained, original, found, shared⟩
    · exact born
    · rw [fresh] at known
      exact absurd known (Multiset.notMem_zero _)
    · obtain ⟨_, _, _, here, same, alike⟩ := copy.remains target sustained
      cases found.symm.trans here
      cases there.symm.trans same
      rw [alike.shell, shared] at container
      cases container
  have apart : outset.Apart after handle := by
    induction leads with
    | refl => exact copy.apart root (Multiset.mem_singleton_self root)
    | tail _ contains inductionHypothesis =>
      obtain ⟨payload, there, member⟩ := contains
      refine copy.closed _ payload there ?_ _ (mem_owned.mpr member)
      have container : payload.shell.isSome := Option.isSome_iff_ne_none.mpr fun shared => by
        rw [Payload.contents_of_shell_none shared] at member
        cases member
      exact created (inductionHypothesis ⟨payload, there, container⟩) there container
  obtain ⟨payload, there, container⟩ := held
  exact created apart there container

/-! ### Heaps that can be checked -/

/-- Whether no weak reference in any slot has a callback. -/
def Heap.hasNoCallback (heap : Heap Code) : Bool :=
  (List.range heap.slots.size).all fun handle => (heap.callback? handle).isNone

theorem Heap.silent_of_hasNoCallback (checked : heap.hasNoCallback) : heap.Silent := by
  intro weakref
  cases held : heap.payload? weakref with
  | none => exact congrArg (Option.bind · callbackOf) held
  | some payload =>
    obtain ⟨entry, occupied, _⟩ := heap.payload?_eq_some.mp held
    exact Option.isNone_iff_eq_none.mp (List.all_eq_true.mp checked weakref
      (List.mem_range.mpr (heap.lt_size_of_occupant? occupied)))

/-- If no class has a function under the name, no class has a say in the copy of any value. -/
theorem Heap.plain_of_isSilent (checked : heap.isSilent ["__deepcopy__"]) (value : Value) :
    ∀ handle, heap.Reaches value handle → ∀ function,
      heap.special? (.ref handle) "__deepcopy__" ≠ .ok (some function) := fun handle _ function =>
  heap.lacks_of_isSilent checked (.ref handle) _ .refl _ (List.mem_singleton_self _) function

/-! ### Runs -/

namespace Reached

variable {held : Host → Multiset Handle} {hand : Multiset Handle}
  {bodies : Code → Arguments → Program Code Host} {config : Config}
  {state : World Code (Recorded Code Host)}

/-- A heap without callbacks is calm at any moment of a run. -/
theorem heap_calm (respectful : RespectfulBodies held bodies)
    (reached : Reached held bodies config hand state) (member : heap ∈ heaps state)
    (balanced : heap.Balanced outside) (silent : heap.Silent) : ∃ limbo, heap.Calm outside limbo := by
  cases idle : heap.releasing with
  | false => exact ⟨[], (reached.heap_atRest respectful member idle silent balanced).calm⟩
  | true =>
    obtain ⟨⟨_, limbo, sound⟩, _⟩ := reached.orderly respectful member
    cases sound.balanced.unique balanced
    exact ⟨limbo, sound, silent, fun still => Bool.noConfusion (idle.symm.trans still)⟩

/-- A deep copy with a fresh memo, successful or not, at any moment of a run. Whatever was held from
outside stays where it was, and as it was but for what it has forgotten. A container that is reached
from the copy came to be since, no reference from outside leads to it, and when it changes nothing
changes that was held from outside. -/
theorem copies_are_separate {Other : Type} (respectful : RespectfulBodies held bodies)
    (reached : Reached held bodies config hand state) (member : heap ∈ heaps state)
    (balanced : heap.Balanced outside) (silent : heap.Silent) {value : Value}
    (lent : value.owns ⊆ outside)
    (plain : ∀ handle, heap.Reaches value handle → ∀ function,
      heap.special? (.ref handle) "__deepcopy__" ≠ .ok (some function))
    (engine : Engine Code Other) {host : Other} {outcome : Except Error Value} {memo : Memo}
    {after : World Code Other}
    (ended : engine.deepCopy value Memo.empty { heap, host } = .ok ((outcome, memo), after)) :
    heap.Weathers outside after.heap ∧
      ∀ copied, outcome = .ok copied → ∀ handle ∈ after.heap.containers copied,
        heap.births handle < after.heap.births handle ∧ ¬ after.heap.Sustained outside handle ∧
          ∀ other, heap.Sustained outside other → ∀ change,
            (after.heap.mapPayload handle change).payload? other = after.heap.payload? other := by
  obtain ⟨limbo, calm⟩ := reached.heap_calm respectful member balanced silent
  have fresh : heap.Calm (outside + Memo.empty.owns) limbo :=
    calm.congr (by rw [Memo.owns_empty, add_zero])
  have comes := engine.closes_deepCopy fresh lent plain host outcome memo after ended
  have unframed : outside ⊆ outside + Memo.empty.owns := fun _ => by
    rw [Memo.owns_empty, add_zero]
    exact id
  cases outcome with
  | error error =>
    obtain ⟨_, halted⟩ := comes
    exact ⟨halted.weathers.mono unframed, nofun⟩
  | ok copied =>
    have weathers := comes.weathers.mono unframed
    refine ⟨weathers, ?_⟩
    rintro _ ⟨⟩ handle inside
    have born : heap.births handle < after.heap.births handle := comes.born Memo.owns_empty inside
    have apart : ¬ heap.Sustained outside handle := fun sustained => by
      obtain ⟨_, _, _, stays⟩ := weathers.stays
      exact born.ne' (stays handle sustained).2.1
    refine ⟨born, fun sustained => apart (weathers.sustained_iff.mp sustained),
      fun other sustained change => ?_⟩
    rw [Heap.payload?_mapPayload, if_neg]
    rintro rfl
    exact apart sustained

/-- The copy of a list that contains itself is another list, and nothing else leads there. -/
theorem separate_copy_of_cycle : ∃ state : World Unit (Recorded Unit Unit),
    Reached (fun _ => 0) idleBodies Config.standard {0} state ∧ ∃ memo after,
      (bodiesEngine idleBodies 4).deepCopy (.ref 0) Memo.empty state = .ok ((.ok (.ref 1), memo), after) ∧
      state.heap.Weathers {0} after.heap ∧ 1 ∈ after.heap.containers (.ref 1) ∧
      state.heap.births 1 < after.heap.births 1 ∧ ¬ after.heap.Sustained {0} 1 := by
  obtain ⟨state, reached, seen⟩ : ∃ state : World Unit (Recorded Unit Unit),
      Reached (fun _ => 0) idleBodies Config.standard {0} state ∧
        ([state.heap.hasNoCallback, state.heap.isSilent ["__deepcopy__"]],
          ((bodiesEngine idleBodies 4).deepCopy (.ref 0) Memo.empty state).toOption.map fun result =>
            (result.1.1.toOption, ((result.2.heap.payload? 1).bind Payload.shell).isSome)) =
        ([true, true], some (some (.ref 1), true)) :=
    exists_follow [.newList [], .share (.ref 0), .append (.ref 0) (.ref 0)] 4 () _ _ rfl (by decide +kernel)
  simp only [Prod.mk.injEq, List.cons.injEq, and_true] at seen
  obtain ⟨⟨silent, plain⟩, seen⟩ := seen
  obtain ⟨⟨⟨outcome, memo⟩, after⟩, ended, seen⟩ := Option.map_eq_some_iff.mp seen
  obtain ⟨answered, shelled⟩ := Prod.mk.inj seen
  obtain ⟨shell, found⟩ := Option.isSome_iff_exists.mp shelled
  obtain ⟨payload, held, same⟩ := Option.bind_eq_some_iff.mp found
  cases outcome with
  | error error => cases answered
  | ok copied =>
    cases answered
    obtain ⟨weathers, separate⟩ := copies_are_separate respectful_idleBodies reached List.mem_cons_self
      (reached.balanced respectful_idleBodies)
      (Heap.silent_of_hasNoCallback silent) (Multiset.subset_of_le (by decide))
      (Heap.plain_of_isSilent plain _)
      (bodiesEngine idleBodies 4) (eq_ok_of_toOption ended)
    have inside : 1 ∈ after.heap.containers (.ref 1) :=
      ⟨⟨1, rfl, .refl⟩, payload, held, Option.isSome_of_eq_some same⟩
    obtain ⟨born, unreached, _⟩ := separate _ rfl 1 inside
    exact ⟨state, reached, memo, after, eq_ok_of_toOption ended, weathers, inside, born, unreached⟩

/-- A list is copied, and cycles are collected on that occasion. A weak reference that was held from
outside forgets an instance that nobody held any more. -/
theorem copy_that_collects : ∃ state : World Unit (Recorded Unit Unit),
    Reached (fun _ => 0) idleBodies (Config.standard.set (.gcInterval 5)) ({0} + {2} + {3}) state ∧
    state.heap.Silent ∧ (∀ handle, state.heap.Reaches (.ref 3) handle → ∀ function,
      state.heap.special? (.ref handle) "__deepcopy__" ≠ .ok (some function)) ∧
    ∃ copied memo after,
      (bodiesEngine idleBodies 4).deepCopy (.ref 3) Memo.empty state = .ok ((.ok copied, memo), after) ∧
      state.heap.Sustained ({0} + {2} + {3}) 2 ∧ after.heap.payload? 2 ≠ state.heap.payload? 2 := by
  obtain ⟨state, reached, seen⟩ : ∃ state : World Unit (Recorded Unit Unit),
      Reached (fun _ => 0) idleBodies (Config.standard.set (.gcInterval 5)) ({0} + {2} + {3}) state ∧
        ([state.heap.hasNoCallback, state.heap.isSilent ["__deepcopy__"]], state.heap.target? 2,
          ((bodiesEngine idleBodies 4).deepCopy (.ref 3) Memo.empty state).toOption.map fun result =>
            (result.1.1.isOk, result.2.heap.target? 2)) =
        ([true, true], some 1, some (true, none)) :=
    exists_follow [.newClass "C" [], .newInstance (.ref 0), .share (.ref 1),
      .setAttribute (.ref 1) "self" (.ref 1), .newWeakref (.ref 1) none, .newList [], .drop (.ref 1)]
      4 () _ _ rfl (by decide +kernel)
  simp only [Prod.mk.injEq, List.cons.injEq, and_true] at seen
  obtain ⟨⟨silent, plain⟩, aimed, seen⟩ := seen
  obtain ⟨⟨⟨outcome, memo⟩, after⟩, ended, seen⟩ := Option.map_eq_some_iff.mp seen
  obtain ⟨answered, forgotten⟩ := Prod.mk.inj seen
  cases outcome with
  | error error => cases answered
  | ok copied =>
    refine ⟨state, reached, Heap.silent_of_hasNoCallback silent, Heap.plain_of_isSilent plain _, copied, memo,
      after, eq_ok_of_toOption ended, .of_mem (by decide), fun same => ?_⟩
    have still : after.heap.target? 2 = state.heap.target? 2 := Heap.target?_congr same
    rw [aimed, forgotten] at still
    cases still

end Reached

end ObjectHeap
