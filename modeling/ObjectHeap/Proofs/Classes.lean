/-
This file establishes what a run can say about its classes. At every moment, also while callbacks
run and while slots that were classes are used again, the ancestors of a class are the classes
that its bases lead to, each once and never the class itself. Whether a class counts as a subtype
of another one is decided on the list of its ancestors, and the answer is a partial order on the
classes that are there.
-/

import ObjectHeap.Proofs.Ancestry
import ObjectHeap.Proofs.Runs

namespace ObjectHeap

variable {Code Host Other : Type} {heap : Heap Code} {outside : Multiset Handle}
  {type sub middle sup : Handle}

namespace Heap

theorem type?_of_isType (found : heap.IsType type) : heap.type? (.ref type) = .ok (some type) := by
  obtain ⟨data, there⟩ := found
  refine Heap.bind_eq_ok.mpr ⟨some (.type data), ?_, rfl⟩
  exact Heap.bind_eq_ok.mpr ⟨_, heap.read_eq_ok.mpr there, rfl⟩

/-- A class derives from another one exactly if a chain of bases leads there. -/
theorem Formed.derives_eq (formed : heap.Formed) (balanced : heap.Balanced outside)
    (found : heap.IsType sub) : ∃ answer, heap.derives sub sup = .ok answer ∧
      (answer = true ↔ Relation.ReflTransGen heap.Derives sub sup) := by
  obtain ⟨data, there⟩ := found
  unfold Heap.derives
  by_cases same : sub = sup
  · rw [if_pos same]
    exact ⟨true, rfl, iff_of_true rfl (same ▸ .refl)⟩
  · rw [if_neg same]
    refine ⟨data.ancestors.contains sup,
      Heap.bind_eq_ok.mpr ⟨_, heap.read_eq_ok.mpr there, rfl⟩, ?_⟩
    rw [Relation.reflTransGen_iff_eq_or_transGen, or_iff_right (Ne.symm same), List.contains_iff_mem]
    exact formed.mem_ancestors_iff balanced there

end Heap

/-- One class counts as a subtype of another one when that is asked. -/
def World.Subtypes (world : World Code Host) (sub sup : Handle) : Prop :=
  (isSubtype (.ref sub) (.ref sup)).run world = .ok (.ok true, world)

/-- Only classes that are there count as subtypes, and of classes that are there. -/
theorem World.Subtypes.isType {world : World Code Host} (subtypes : world.Subtypes sub sup) :
    world.heap.IsType sub ∧ world.heap.IsType sup := by
  obtain ⟨_, first, answered⟩ := Attempt.ask_bind_eq_ok.mp subtypes
  split at answered
  · cases answered
  · obtain ⟨_, second, answered⟩ := Attempt.ask_bind_eq_ok.mp answered
    split at answered
    · cases answered
    · obtain ⟨same, isSub⟩ := Heap.type?_eq_some first
      obtain ⟨same', isSup⟩ := Heap.type?_eq_some second
      cases same
      cases same'
      exact ⟨isSub, isSup⟩

/-- Whether one class that is there counts as a subtype of another one has an answer. -/
theorem isSubtype_run {world : World Code Host} (formed : world.heap.Formed)
    (balanced : world.heap.Balanced outside) (isSub : world.heap.IsType sub)
    (isSup : world.heap.IsType sup) :
    ∃ answer, (isSubtype (.ref sub) (.ref sup)).run world = .ok (.ok answer, world) ∧
      (answer = true ↔ Relation.ReflTransGen world.heap.Derives sub sup) := by
  obtain ⟨answer, derived, decides⟩ := formed.derives_eq balanced isSub
  refine ⟨answer, Attempt.ask_bind_eq_ok.mpr ⟨_, Heap.type?_of_isType isSub,
    Attempt.ask_bind_eq_ok.mpr ⟨_, Heap.type?_of_isType isSup, ?_⟩⟩, decides⟩
  show ((Attempt.ofAction (ask fun heap => heap.derives sub sup)).run world) = _
  exact Action.bind_eq_ok.mpr ⟨answer, world, ask_eq_ok.mpr ⟨derived, rfl⟩, rfl⟩

theorem World.subtypes_iff {world : World Code Host} (formed : world.heap.Formed)
    (balanced : world.heap.Balanced outside) :
    world.Subtypes sub sup ↔ world.heap.IsType sub ∧ world.heap.IsType sup ∧
      Relation.ReflTransGen world.heap.Derives sub sup := by
  constructor
  · intro subtypes
    obtain ⟨isSub, isSup⟩ := subtypes.isType
    obtain ⟨answer, ran, decides⟩ := isSubtype_run formed balanced isSub isSup
    cases ran.symm.trans subtypes
    exact ⟨isSub, isSup, decides.mp rfl⟩
  · rintro ⟨isSub, isSup, leads⟩
    obtain ⟨answer, ran, decides⟩ := isSubtype_run formed balanced isSub isSup
    rwa [decides.mpr leads] at ran

namespace Reached

variable {bodies : Code → Arguments → Program Code Host} {held : Host → Multiset Handle}
  {config : Config} {hand : Multiset Handle} {world : World Code (Recorded Code Host)}

/-- At every moment of a run, the ancestors of a class are the classes that its bases lead to: each
is there, none is listed twice, and the class is not among them. That one class counts as a subtype
of another one is always answered, by whether its bases lead there, and it is a partial order. -/
theorem ancestry_is_sound (respectful : RespectfulBodies held bodies)
    (reached : Reached held bodies config hand world) (member : heap ∈ heaps world) (host : Other) :
    (∀ type data, heap.payload? type = some (.type data) →
      data.ancestors.Nodup ∧ type ∉ data.ancestors ∧ (∀ other ∈ data.ancestors, heap.IsType other) ∧
        ∀ other, other ∈ data.ancestors ↔ Relation.TransGen heap.Derives type other) ∧
    (∀ sub sup, heap.IsType sub → heap.IsType sup → ∃ answer,
      (isSubtype (.ref sub) (.ref sup)).run { heap, host } = .ok (.ok answer, { heap, host }) ∧
        (answer = true ↔ Relation.ReflTransGen heap.Derives sub sup)) ∧
    (∀ type, heap.IsType type → World.Subtypes { heap, host } type type) ∧
    (∀ sub middle sup, World.Subtypes { heap, host } sub middle →
      World.Subtypes { heap, host } middle sup → World.Subtypes { heap, host } sub sup) ∧
    ∀ sub sup, World.Subtypes { heap, host } sub sup → World.Subtypes { heap, host } sup sub →
      sub = sup := by
  obtain ⟨⟨outside, _, sound⟩, _⟩ := reached.orderly respectful member
  have formed : (World.mk heap host).heap.Formed := sound.formed
  have balanced : (World.mk heap host).heap.Balanced outside := sound.balanced
  refine ⟨fun type data there => ?_, fun sub sup isSub isSup =>
    isSubtype_run formed balanced isSub isSup, fun type isType => ?_,
    fun sub middle sup first second => ?_, fun sub sup there back => ?_⟩
  · exact ⟨formed.nodup_ancestors balanced there, formed.apart type data there,
      fun _ listed => formed.isType_of_mem_ancestors balanced there listed,
      fun _ => formed.mem_ancestors_iff balanced there⟩
  · exact (World.subtypes_iff formed balanced).mpr ⟨isType, isType, .refl⟩
  · obtain ⟨isSub, _, leads⟩ := (World.subtypes_iff formed balanced).mp first
    obtain ⟨_, isSup, further⟩ := (World.subtypes_iff formed balanced).mp second
    exact (World.subtypes_iff formed balanced).mpr ⟨isSub, isSup, leads.trans further⟩
  · obtain ⟨_, _, leads⟩ := (World.subtypes_iff formed balanced).mp there
    obtain ⟨_, _, returns⟩ := (World.subtypes_iff formed balanced).mp back
    rcases Relation.reflTransGen_iff_eq_or_transGen.mp leads with same | further
    · exact same.symm
    · exact (formed.not_leads_self balanced (further.trans_left returns)).elim

/-- Two classes with a base in common have a class derived from both, in which the base comes once.
The base stands in a slot that another class has left. -/
theorem ancestry_of_diamond : ∃ world : World Unit (Recorded Unit Unit),
    Reached (fun _ => 0) idleBodies Config.standard ({0} + {1} + {2} + {3}) world ∧
    world.heap.births 0 = 2 ∧ ∃ data, world.heap.payload? 3 = some (.type data) ∧
      data.ancestors = [1, 0, 2] ∧ Relation.TransGen world.heap.Derives 3 0 ∧
      ¬ Relation.TransGen world.heap.Derives 0 3 ∧ world.Subtypes 3 3 := by
  obtain ⟨world, reached, seen⟩ : ∃ world : World Unit (Recorded Unit Unit),
      Reached (fun _ => 0) idleBodies Config.standard ({0} + {1} + {2} + {3}) world ∧
      (world.heap.births 0, world.heap.lineage 3) = (2, [3, 1, 0, 2]) :=
    exists_follow [.newClass "X" [], .drop (.ref 0), .newClass "A" [], .newClass "B" [.ref 0],
      .newClass "C" [.ref 0], .newClass "D" [.ref 1, .ref 2]] 8 () _ _ rfl (by decide +kernel)
  obtain ⟨births, lineage⟩ := Prod.mk.inj seen
  obtain ⟨data, there, _⟩ := Heap.mem_lineage.mp (lineage ▸ List.mem_cons_self : 3 ∈ world.heap.lineage 3)
  have ancestors : data.ancestors = [1, 0, 2] := by
    rw [Heap.lineage, there] at lineage
    exact (List.cons.inj lineage).2
  obtain ⟨sound, _, reflexive, _⟩ := ancestry_is_sound respectful_idleBodies reached
    List.mem_cons_self world.host
  obtain ⟨_, apart, _, leads⟩ := sound 3 data there
  have above : Relation.TransGen world.heap.Derives 3 0 :=
    (leads 0).mp (ancestors ▸ by decide)
  exact ⟨world, reached, births, data, there, ancestors, above,
    fun back => apart ((leads 3).mpr (above.trans back)), reflexive 3 ⟨data, there⟩⟩

end Reached

end ObjectHeap
