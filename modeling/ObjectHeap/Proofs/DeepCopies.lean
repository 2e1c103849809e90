/-
This file says what a deep copy with a memo of its own comes to, as long as no code of the host
runs. What is copied stays as it was, and the copy leads back to it by a renaming. Hence the copy
corresponds to the value exactly if no method was copied twice. That can only happen to an exposed
method, one on a cycle that can be entered past its lists and instances; and it does happen when
an exposed method is itself what is copied.
-/

import Mathlib
import ObjectHeap.Proofs.Reproduction
import ObjectHeap.Proofs.Runs

namespace ObjectHeap

variable {Code Host : Type} {source : Heap Code} {top copied value copy : Value}
  {values copies : List Value} {way : List Handle} {scene : Scene} {world : World Code Host}
  {memo : Memo} {made : Handle → Option Handle}

/-! ### Copies lead back -/

/-- What an entry is a copy of. What is shared is its own original. -/
def originalOf (made : Handle → Option Handle) (handle : Handle) : Handle :=
  (made handle).getD handle

theorem originalOf_of_some {handle original : Handle} (known : made handle = some original) :
    originalOf made handle = original := by
  rw [originalOf, known]
  rfl

theorem originalOf_of_none {handle : Handle} (unmade : made handle = none) :
    originalOf made handle = handle := by
  rw [originalOf, unmade]
  rfl

theorem Twins.rename (twins : Twins source made value copy) :
    value = copy.rename (originalOf made) := by
  cases twins with
  | small small => cases value <;> first | rfl | cases small
  | shared _ _ unmade => exact congrArg Value.ref (originalOf_of_none unmade).symm
  | copied known => exact congrArg Value.ref (originalOf_of_some known).symm

theorem map_rename_of_twins (twins : List.Forall₂ (Twins source made) values copies) :
    values = copies.map (Value.rename (originalOf made)) := by
  induction twins with
  | nil => rfl
  | cons first _ inductionHypothesis => rw [List.map_cons, ← first.rename, ← inductionHypothesis]

theorem exists_twin_of_mem (twins : List.Forall₂ (Twins source made) values copies)
    (member : copy ∈ copies) : ∃ value ∈ values, Twins source made value copy := by
  induction twins with
  | nil => cases member
  | cons first _ inductionHypothesis =>
    rcases List.mem_cons.mp member with rfl | member
    · exact ⟨_, List.mem_cons_self, first⟩
    · obtain ⟨value, inside, twin⟩ := inductionHypothesis member
      exact ⟨value, List.mem_cons_of_mem _ inside, twin⟩

/-- What an entry that a copy leads to goes back to: a container that it mirrors, or itself. -/
inductive Traced (source after : Heap Code) (made : Handle → Option Handle) (handle : Handle) :
    Prop
  | copied {original : Handle} {payload mirrored : Payload Code}
    (known : made handle = some original) (found : source.payload? original = some payload)
    (placed : after.payload? handle = some mirrored)
    (mirrors : Mirrors source made payload mirrored)
  | shared {payload later : Payload Code} (unmade : made handle = none)
    (found : source.payload? handle = some payload) (placed : after.payload? handle = some later)
    (shared : payload.shell = none) (alike : payload.Alike later)

theorem Heap.Reaches.sustained_among {heap : Heap Code} {handle : Handle}
    (reaches : heap.Reaches value handle) (frame rest : Multiset Handle) :
    heap.Sustained (frame + value.owns + rest) handle :=
  reaches.sustained.mono fun _ member => by simp [member]

namespace Stage

variable (stage : Stage source top way scene ∅ copied.owns ⟨world, memo, made⟩)

include stage

/-- An entry whose original is sustained can be traced. -/
theorem traced_of_twin {handle : Handle} (reaches : world.heap.Reaches copied handle)
    (twin : Twins source made value (.ref handle))
    (within : ∀ original, value = .ref original → source.Sustained top.owns original) :
    Traced source world.heap made handle := by
  cases twin with
  | small small => cases small
  | copied known =>
    obtain ⟨payload, mirrored, found, placed, mirrors⟩ :=
      stage.draft.finished handle _ known (reaches.sustained_among _ _) (Set.notMem_empty handle)
    exact .copied known found placed mirrors
  | shared found shared unmade =>
    obtain ⟨_, payload, later, same, placed, alike⟩ := stage.draft.remains handle (within _ rfl)
    cases found.symm.trans same
    exact .shared unmade found placed shared alike

/-- Whatever a copy leads to can be traced. -/
theorem traced (twins : Twins source made top copied) {handle : Handle}
    (reaches : world.heap.Reaches copied handle) : Traced source world.heap made handle := by
  refine reaches.induction (fun root same => ?_) fun before after reached traced contains => ?_
  · subst same
    refine stage.traced_of_twin (.root root) twins fun original same => .of_mem ?_
    rw [same]
    exact Multiset.mem_singleton_self original
  · obtain ⟨payload, placed, member⟩ := contains
    cases traced with
    | copied known found mirrored mirrors =>
      cases placed.symm.trans mirrored
      obtain ⟨value, inside, twin⟩ := exists_twin_of_mem mirrors.contents member
      refine stage.traced_of_twin (reached.step ⟨payload, placed, member⟩) twin
        fun original same => ?_
      have within := stage.draft.within before _ known (reached.sustained_among _ _)
      exact within.of_contents found (mem_owned.mpr (same ▸ inside))
    | shared _ _ later shared alike =>
      cases placed.symm.trans later
      rw [Payload.contents_of_shell_none (alike.shell.trans shared)] at member
      cases member

/-- A copy leads back to the value. -/
theorem renames (twins : Twins source made top copied) :
    world.heap.Renames source (originalOf made) copied top where
  root := twins.rename
  live handle reaches := by
    cases stage.traced twins reaches with
    | copied _ _ placed _ | shared _ _ placed _ _ => exact Heap.isLive_of_payload? placed
  copied handle payload reaches placed kept := by
    cases stage.traced twins reaches with
    | copied known found mirrored mirrors =>
      cases placed.symm.trans mirrored
      refine ⟨_, ?_, mirrors.shell.symm, map_rename_of_twins mirrors.contents⟩
      rw [originalOf_of_some known]
      exact found
    | shared _ _ later shared alike =>
      cases placed.symm.trans later
      rw [alike.shell, shared] at kept
      cases kept
  shared handle payload reaches placed absent := by
    cases stage.traced twins reaches with
    | copied _ _ mirrored mirrors =>
      cases placed.symm.trans mirrored
      have kept := mirrors.copied
      rw [← mirrors.shell, absent] at kept
      cases kept
    | shared unmade found _ shared _ => exact ⟨originalOf_of_none unmade, _, found, shared⟩

/-- Two containers that are copies of the same one are the same, unless it is an exposed method. -/
theorem eq_or_exposed (twins : Twins source made top copied) {one other : Handle}
    (first : one ∈ world.heap.containers copied) (second : other ∈ world.heap.containers copied)
    (same : originalOf made one = originalOf made other) :
    one = other ∨ source.Exposed top (originalOf made one) := by
  have recorded {handle : Handle} (member : handle ∈ world.heap.containers copied) :
      memo.find? (originalOf made handle) = some (.ref handle) ∨
        source.Exposed top (originalOf made handle) := by
    obtain ⟨reached, payload, placed, kept⟩ := member
    cases stage.traced twins reached with
    | copied known _ _ _ =>
      rw [originalOf_of_some known]
      exact stage.draft.recorded handle _ known (reached.sustained_among _ _)
    | shared _ _ later shared alike =>
      cases placed.symm.trans later
      rw [alike.shell, shared] at kept
      cases kept
  rcases recorded first with here | exposed
  · rcases recorded second with there | exposed
    · rw [same, there] at here
      cases here
      exact Or.inl rfl
    · exact Or.inr (same ▸ exposed)
  · exact Or.inr exposed

end Stage

/-! ### Copies with a memo of their own -/

section

variable {heap : Heap Code} {outside : Multiset Handle} {limbo : List Handle} {host : Host}

/-- A copy begins with nothing made and nothing recorded. -/
theorem Stage.start (sound : heap.Sound outside limbo)
    (settled : heap.releasing = false → heap.pending = []) (lent : top.owns ⊆ outside) :
    Stage heap top [] { busy := heap.releasing, limbo, frame := outside } ∅ 0
      ⟨{ heap, host }, Memo.empty, fun _ => none⟩ where
  based := lent
  holds := ⟨⟨sound.congr (by simp [Engine.blankLedger, Memo.owns, Memo.values, Memo.empty]), rfl,
    trivial⟩, settled, fun wild => absurd trivial wild⟩
  draft :=
    { based := fun _ member => by simp [lent member]
      held := fun _ member => absurd member (Multiset.notMem_zero _)
      passed := fun _ member => nomatch member.1
      remains := (Heap.Carries.refl True _ heap sound.balanced lent).remains trivial
      apart := fun _ _ => rfl
      within := fun _ _ known => nomatch known
      finished := fun _ _ known => nomatch known
      recorded := fun _ _ known => nomatch known
      found := fun _ _ known => nomatch known }

variable (engine : Engine Code Host) (sound : heap.Sound outside limbo)
  (settled : heap.releasing = false → heap.pending = []) (lent : top.owns ⊆ outside)
  (ended : engine.silenced.deepCopy top Memo.empty { heap, host } =
    .ok ((.ok copied, memo), world))

include sound settled lent ended

theorem Engine.reproduced_deepCopy :
    Reproduced heap top [] { busy := heap.releasing, limbo, frame := outside } ∅
      ⟨{ heap, host }, Memo.empty, fun _ => none⟩ top copied memo world :=
  engine.reproduces_copyWithin heap top _ _ _ _ _ _ _ _ _ (.start sound settled lent) lent
    (fun _ same => .root same) ended

/-- Nothing in reach of a copy of a method refers to it. -/
theorem Engine.unreferred_deepCopy {handle : Handle} {data : Method} (same : top = .ref handle)
    (found : heap.payload? handle = some (.method data)) :
    Unreferred { busy := heap.releasing, limbo, frame := outside } copied memo world := by
  subst same
  obtain ⟨_, _, _, looked, rest⟩ := Copying.bind_eq_ok ended
  obtain ⟨rfl, rfl, taken⟩ := Copying.recorded?_eq_ok looked
  cases taken
  obtain ⟨_, fetched, going⟩ := Copying.ask_bind_eq_ok rest
  cases (heap.read_eq_ok.mpr found).symm.trans fetched
  obtain ⟨_, _, _, copiedMethod, rest⟩ := Copying.bind_eq_ok going
  obtain ⟨_, _, _, recorded, last⟩ := Copying.bind_eq_ok rest
  cases last
  exact ((engine.reproduces_copyWithin heap _ _).method engine.keeps_silenced
    (.start sound settled lent) (lent (Multiset.mem_singleton_self handle)) (.root rfl) found found
    (.refl _) rfl copiedMethod recorded).2

/-- A deep copy leaves what is copied as it was and leads back to it. It corresponds to the value
exactly if no exposed method has two copies in it. -/
theorem Engine.deepCopy_of_sound :
    (∀ handle, heap.Reaches top handle → heap.Remains world.heap handle) ∧
    ∃ original, world.heap.Renames heap original copied top ∧
      (heap.Corresponds world.heap top copied ↔
        ∀ one ∈ world.heap.containers copied, ∀ other ∈ world.heap.containers copied,
          original one = original other → heap.Exposed top (original one) → one = other) := by
  obtain ⟨made, stage, twins, _⟩ := engine.reproduced_deepCopy sound settled lent ended
  refine ⟨fun handle reaches => stage.draft.remains handle reaches.sustained, originalOf made,
    stage.renames twins, (Heap.corresponds_iff_injOn (stage.renames twins)).trans
      ⟨fun injective one first other second same _ => injective first second same,
        fun once one first other second same => ?_⟩⟩
  rcases stage.eq_or_exposed twins first second same with here | exposed
  · exact here
  · exact once one first other second same exposed

/-- A copy of an exposed method does not correspond to it: what is on the cycle of the method has
copies, but none of them refers to the copy. -/
theorem Engine.not_corresponds_deepCopy {handle : Handle} (same : top = .ref handle)
    (exposed : heap.Exposed top handle) : ¬ heap.Corresponds world.heap top copied := by
  rintro ⟨image, there, _⟩
  obtain ⟨last, reached, contains⟩ := exposed.cycle
  obtain ⟨data, found, _⟩ := exposed
  have unreferred := engine.unreferred_deepCopy sound settled lent ended same found
  subst same
  exact unreferred (image handle) there.root (image last)
    ((there.reaches reached).sustained_among _ _) (there.contains reached contains).refers

end

/-- A deep copy with a memo of its own comes to the same when no code of the host ever comes back:
it runs none, neither a special method of a class nor a callback of a weak reference. -/
def Engine.CopiesAlone (engine : Engine Code Host) (value : Value) (world : World Code Host) :
    Prop :=
  engine.silenced.deepCopy value Memo.empty world = engine.deepCopy value Memo.empty world

namespace Reached

variable {held : Host → Multiset Handle} {hand : Multiset Handle}
  {bodies : Code → Arguments → Program Code Host} {config : Config}
  {state : World Code (Recorded Code Host)}

/-- A deep copy, at any moment of a run, of a value that is held outside. It leaves what is copied
as it was, and leads back to it. It corresponds to the value exactly if no exposed method has two
copies in it, which an exposed method that is itself copied always has. -/
theorem copies_correspond_iff {Other : Type} (respectful : RespectfulBodies held bodies)
    (reached : Reached held bodies config hand state) {heap : Heap Code}
    (member : heap ∈ heaps state) {outside : Multiset Handle} (balanced : heap.Balanced outside)
    {value copied : Value} (lent : value.owns ⊆ outside) (engine : Engine Code Other)
    {host : Other} {memo : Memo} {after : World Code Other}
    (alone : engine.CopiesAlone value { heap, host })
    (ended : engine.deepCopy value Memo.empty { heap, host } = .ok ((.ok copied, memo), after)) :
    (∀ handle, heap.Reaches value handle → heap.Remains after.heap handle) ∧
    (∃ original, after.heap.Renames heap original copied value ∧
      (heap.Corresponds after.heap value copied ↔
        ∀ one ∈ after.heap.containers copied, ∀ other ∈ after.heap.containers copied,
          original one = original other → heap.Exposed value (original one) → one = other)) ∧
    ∀ method, value = .ref method → heap.Exposed value method →
      ¬ heap.Corresponds after.heap value copied := by
  obtain ⟨⟨all, limbo, sound⟩, settled⟩ := reached.orderly respectful member
  cases sound.balanced.unique balanced
  have silent := alone.trans ended
  obtain ⟨remains, correspond⟩ := engine.deepCopy_of_sound sound settled lent silent
  exact ⟨remains, correspond, fun _ same exposed =>
    engine.not_corresponds_deepCopy sound settled lent silent same exposed⟩

/-- A list that contains itself corresponds to its copy. -/
theorem copy_of_cycle : ∃ state : World Unit (Recorded Unit Unit),
    Reached (fun _ => 0) idleBodies Config.standard {0} state ∧
    (bodiesEngine idleBodies 4).CopiesAlone (.ref 0) state ∧ ∃ copied memo after,
      (bodiesEngine idleBodies 4).deepCopy (.ref 0) Memo.empty state =
        .ok ((.ok copied, memo), after) ∧
      state.heap.Corresponds after.heap (.ref 0) copied := by
  have made : Reached (fun _ : Unit => 0) idleBodies Config.standard {0} _ :=
    .perform (.newList []) 4 (.ok (.ref 0)) (.start () rfl) (fun _ member => member) rfl
  have shared : Reached (fun _ : Unit => 0) idleBodies Config.standard ({0} + {0}) _ :=
    .perform (.share (.ref 0)) 4 () made (fun _ member => member) rfl
  have closed : Reached (fun _ : Unit => 0) idleBodies Config.standard {0} _ :=
    .perform (.append (.ref 0) (.ref 0)) 4 (.ok ()) shared (fun _ member => member) rfl
  have copies {state after : World Unit (Recorded Unit Unit)} {memo : Memo}
      (reached : Reached (fun _ => 0) idleBodies Config.standard {0} state)
      (found : state.heap.payload? 0 = some (.list [.ref 0]))
      (ended : (bodiesEngine idleBodies 4).deepCopy (.ref 0) Memo.empty state =
        .ok ((.ok (.ref 1), memo), after))
      (alone : (bodiesEngine idleBodies 4).silenced.deepCopy (.ref 0) Memo.empty state =
        .ok ((.ok (.ref 1), memo), after)) :
      (bodiesEngine idleBodies 4).CopiesAlone (.ref 0) state ∧ ∃ copied memo after,
        (bodiesEngine idleBodies 4).deepCopy (.ref 0) Memo.empty state =
          .ok ((.ok copied, memo), after) ∧
        state.heap.Corresponds after.heap (.ref 0) copied := by
    obtain ⟨_, ⟨original, _, exact⟩, _⟩ := copies_correspond_iff respectful_idleBodies reached
      List.mem_cons_self (reached.balanced respectful_idleBodies)
      (Multiset.subset_of_le (Multiset.le_add_right (Value.ref 0).owns 0))
      (bodiesEngine idleBodies 4) (alone.trans ended.symm) ended
    refine ⟨alone.trans ended.symm, _, _, _, ended, exact.mpr fun one _ other _ _ exposed => ?_⟩
    obtain ⟨data, method, way, comes, _⟩ := exposed
    -- The list leads to nothing but itself, which is no method.
    have here : original one = 0 := by
      refine comes.reaches.induction (fun root same => (Value.ref.inj same).symm)
        fun source target _ same contains => ?_
      obtain ⟨payload, placed, member⟩ := contains
      rw [same, found] at placed
      cases placed
      simpa [Payload.contents] using member
    rw [here, found] at method
    cases method
  exact ⟨_, closed, copies closed rfl rfl rfl⟩

/-- A method of an instance that keeps the method does not correspond to its copy. -/
theorem copy_of_kept_method : ∃ state : World Unit (Recorded Unit Unit),
    Reached (fun _ => 0) idleBodies Config.standard ({0} + {1} + {2} + {3}) state ∧
    (bodiesEngine idleBodies 4).CopiesAlone (.ref 3) state ∧ ∃ copied memo after,
      (bodiesEngine idleBodies 4).deepCopy (.ref 3) Memo.empty state =
        .ok ((.ok copied, memo), after) ∧
      ¬ state.heap.Corresponds after.heap (.ref 3) copied := by
  have type : Reached (fun _ : Unit => 0) idleBodies Config.standard {0} _ :=
    .perform (.newClass "C" []) 4 (.ok (.ref 0)) (.start () rfl) (fun _ member => member) rfl
  have made : Reached (fun _ : Unit => 0) idleBodies Config.standard ({0} + {1}) _ :=
    .perform (.newInstance (.ref 0)) 4 (.ok (.ref 1)) type (fun _ member => member) rfl
  have coded : Reached (fun _ : Unit => 0) idleBodies Config.standard ({0} + {1} + {2}) _ :=
    .perform (.newFunction "f" none none ()) 4 (.ok (.ref 2)) made
      (fun _ member => absurd member (Multiset.notMem_zero _)) rfl
  have bound : Reached (fun _ : Unit => 0) idleBodies Config.standard ({0} + {1} + {2} + {3}) _ :=
    .perform (.newMethod (.ref 2) (.ref 1) (.ref 0)) 4 (.ok (.ref 3)) coded
      (Multiset.subset_of_le (by decide)) rfl
  have shared : Reached (fun _ : Unit => 0) idleBodies Config.standard
      ({0} + {1} + {2} + {3} + {3}) _ :=
    .perform (.share (.ref 3)) 4 () bound (Multiset.subset_of_le (by decide)) rfl
  have kept : Reached (fun _ : Unit => 0) idleBodies Config.standard ({0} + {1} + {2} + {3}) _ :=
    .perform (.setAttribute (.ref 1) "f" (.ref 3)) 4 (.ok ()) (shared.congr (add_comm _ _))
      (Multiset.subset_of_le (by decide)) rfl
  have copies {state : World Unit (Recorded Unit Unit)} {data : Method} {object : Instance}
      (reached : Reached (fun _ => 0) idleBodies Config.standard ({0} + {1} + {2} + {3}) state)
      (method : state.heap.payload? 3 = some (.method data))
      (receiver : data.receiver = some (.ref 1))
      (found : state.heap.payload? 1 = some (.object object))
      (attributes : object.attributes.values = [.ref 3])
      (alone : (bodiesEngine idleBodies 4).CopiesAlone (.ref 3) state)
      (answered : ((bodiesEngine idleBodies 4).deepCopy (.ref 3) Memo.empty state).map
        (fun result => result.1.1) = .ok (.ok (.ref 6))) :
      ∃ copied memo after,
        (bodiesEngine idleBodies 4).deepCopy (.ref 3) Memo.empty state =
          .ok ((.ok copied, memo), after) ∧
        ¬ state.heap.Corresponds after.heap (.ref 3) copied := by
    cases ended : (bodiesEngine idleBodies 4).deepCopy (.ref 3) Memo.empty state with
    | error fault =>
      rw [ended] at answered
      cases answered
    | ok result =>
      obtain ⟨⟨outcome, memo⟩, after⟩ := result
      rw [ended] at answered
      cases answered
      have holds := reached.holds respectful_idleBodies
      have member : Value.ref 3 ∈ (Payload.object object : Payload Unit).contents := by
        rw [Payload.contents, attributes]
        exact List.mem_singleton_self _
      refine ⟨_, _, _, rfl, (bodiesEngine idleBodies 4).not_corresponds_deepCopy holds.sound
        (fun _ => holds.settled rfl) (fun _ member => ?_) (alone.trans ended) rfl
        ⟨data, method, [], .root rfl, _, receiver, 1, rfl, .single ⟨?_, _, found, member⟩⟩⟩
      · refine Multiset.mem_add.mpr (Or.inl (Multiset.mem_add.mpr (Or.inr ?_)))
        exact Multiset.mem_add.mpr (Or.inr member)
      · rintro ⟨inside, _⟩
        cases List.mem_singleton.mp inside
  exact ⟨_, kept, by unfold Engine.CopiesAlone; cbv,
    copies kept rfl rfl rfl rfl (by unfold Engine.CopiesAlone; cbv) (by cbv)⟩

end Reached

end ObjectHeap
