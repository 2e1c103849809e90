/-
This file establishes that garbage is what nothing outside leads to. What the counts leave over
when the references between entries are subtracted is the references from outside. Marking
follows every reference of every entry it marks, so that it ends with all that is sustained and
with nothing else. Every step takes one slot off the list of those to look at, and adds the
references of a slot only when that slot is marked, so that the steps are enough.
-/

import ObjectHeap.Proofs.Release

namespace ObjectHeap.Heap

variable {Code : Type} {heap : Heap Code} {outside : Multiset Handle}

/-! ### Roots -/

/-- Subtracting references one by one. -/
theorem getD_foldl_modify (targets : List Handle) (counts : Array Nat) (handle : Handle) :
    ((targets.foldl (fun counts target => counts.modify target (· - 1)) counts)[handle]?).getD 0 =
      (counts[handle]?).getD 0 - targets.count handle := by
  induction targets generalizing counts with
  | nil => rfl
  | cons target rest inductionHypothesis =>
    rw [List.foldl_cons, inductionHypothesis, Array.getElem?_modify, List.count_cons]
    by_cases same : target = handle
    · subst same
      rw [if_pos rfl, beq_self_eq_true, if_pos rfl]
      cases counts[target]? with
      | none => simp
      | some count => simp only [Option.map_some, Option.getD_some]; omega
    · rw [if_neg same, if_neg (by simpa using same), Nat.add_zero]

/-- What is left over of a count. -/
theorem getD_outsideCounts (heap : Heap Code) (handle : Handle) :
    (heap.outsideCounts[handle]?).getD 0 = heap.tally handle - heap.edges.count handle := by
  unfold outsideCounts
  dsimp only
  rw [getD_foldl_modify, Array.getElem?_map]
  congr 1
  unfold tally occupant?
  cases heap.slots[handle]? <;> rfl

theorem mem_liveHandles {handle : Handle} : handle ∈ heap.liveHandles ↔ heap.isLive handle := by
  unfold liveHandles
  rw [List.mem_filter, List.mem_range]
  constructor
  · exact fun both => both.2
  · intro live
    obtain ⟨entry, occupied⟩ := (heap.isLive_iff handle).mp live
    exact ⟨heap.lt_size_of_occupant? occupied, live⟩

theorem nodup_liveHandles (heap : Heap Code) : heap.liveHandles.Nodup :=
  List.nodup_range.filter _

/-- When no reference waits, the roots are the entries that are owned outside. -/
theorem mem_roots (balanced : heap.Balanced outside) (settled : heap.pending = [])
    {handle : Handle} : handle ∈ heap.roots ↔ handle ∈ outside := by
  have exact := balanced.exact handle
  rw [settled, List.count_nil] at exact
  unfold roots
  dsimp only
  rw [List.mem_filter, mem_liveHandles, decide_eq_true_eq, getD_outsideCounts,
    ← Multiset.count_pos]
  constructor
  · rintro ⟨_, positive⟩
    omega
  · intro positive
    exact ⟨balanced.isLive_of_mem (Or.inl (Multiset.count_pos.mp positive)), by omega⟩

theorem length_roots_le (heap : Heap Code) : heap.roots.length ≤ heap.slots.size := by
  unfold roots liveHandles
  dsimp only
  refine (List.length_filter_le _ _).trans ((List.length_filter_le _ _).trans ?_)
  rw [List.length_range]

/-! ### Marking -/

/-- Whether a slot is marked. -/
def Marked (marked : Array Bool) (handle : Handle) : Prop :=
  marked[handle]? = some true

/-- The references that marking may still follow. -/
def unmarkedEdges (heap : Heap Code) (marked : Array Bool) : Nat :=
  ∑ place ∈ Finset.range heap.slots.size,
    if marked[place]? = some true then 0 else (heap.visits place).length

theorem marked_set {marked : Array Bool} {place other : Handle} (inside : place < marked.size) :
    Marked (marked.setIfInBounds place true) other ↔ other = place ∨ Marked marked other := by
  unfold Marked
  rw [Array.getElem?_setIfInBounds]
  by_cases same : place = other
  · subst same
    simp [inside]
  · simp [same, Ne.symm same]

/-- Marking a slot takes its references off those that may still be followed. -/
theorem unmarkedEdges_set {marked : Array Bool} {place : Handle} (inside : place < marked.size)
    (within : place < heap.slots.size) (fresh : ¬ Marked marked place) :
    heap.unmarkedEdges (marked.setIfInBounds place true) + (heap.visits place).length =
      heap.unmarkedEdges marked := by
  have member : place ∈ Finset.range heap.slots.size := Finset.mem_range.mpr within
  unfold unmarkedEdges
  rw [← Finset.add_sum_erase _ _ member, ← Finset.add_sum_erase _ _ member]
  have others : ∀ other ∈ (Finset.range heap.slots.size).erase place,
      (if (marked.setIfInBounds place true)[other]? = some true then 0
        else (heap.visits other).length) =
      if marked[other]? = some true then 0 else (heap.visits other).length := by
    intro other memberOther
    have different := Finset.ne_of_mem_erase memberOther
    rw [Array.getElem?_setIfInBounds, if_neg (Ne.symm different)]
  have now : (marked.setIfInBounds place true)[place]? = some true :=
    (marked_set inside).mpr (Or.inl rfl)
  have before : ¬ marked[place]? = some true := fresh
  rw [Finset.sum_congr rfl others, if_pos now, if_neg before, Nat.zero_add]
  exact Nat.add_comm _ _

/-- What marking comes to: everything that was marked stays marked, everything on the list is
marked, and what is marked in addition can be reached from the list. If every reference of what
was marked led to a marked slot or was on the list, then every reference of what is marked in the
end leads to a marked slot. -/
structure Marks (heap : Heap Code) (before : Array Bool) (work : List Handle)
    (after : Array Bool) : Prop where
  kept : ∀ handle, Marked before handle → Marked after handle
  worked : ∀ handle ∈ work, handle < heap.slots.size → Marked after handle
  reached : ∀ handle, Marked after handle →
    Marked before handle ∨ ∃ root ∈ work, heap.Leads root handle
  closed : (∀ source target, Marked before source → heap.Refers source target →
      target < heap.slots.size → Marked before target ∨ target ∈ work) →
    ∀ source target, Marked after source → heap.Refers source target →
      target < heap.slots.size → Marked after target

namespace Marks

variable {marked after : Array Bool} {handle : Handle} {rest : List Handle}

theorem nothing (heap : Heap Code) (marked : Array Bool) : heap.Marks marked [] marked :=
  ⟨fun _ => id, nofun, fun _ => Or.inl, fun closed source target here refers within =>
    (closed source target here refers within).resolve_right nofun⟩

/-- What is marked already is skipped. -/
theorem skip (marks : heap.Marks marked rest after)
    (passed : handle < heap.slots.size → Marked marked handle) :
    heap.Marks marked (handle :: rest) after := by
  refine ⟨marks.kept, fun other member within => ?_, fun other now => ?_,
    fun before => marks.closed ?_⟩
  · rcases List.mem_cons.mp member with rfl | inRest
    · exact marks.kept _ (passed within)
    · exact marks.worked other inRest within
  · refine (marks.reached other now).imp_right ?_
    rintro ⟨root, inRest, leads⟩
    exact ⟨root, List.mem_cons_of_mem handle inRest, leads⟩
  · intro source target here refers within
    rcases before source target here refers within with there | member
    · exact Or.inl there
    · rcases List.mem_cons.mp member with rfl | inRest
      · exact Or.inl (passed within)
      · exact Or.inr inRest

/-- A slot is marked, and what it refers to joins the list. -/
theorem take (inside : handle < marked.size)
    (marks : heap.Marks (marked.setIfInBounds handle true) (heap.visits handle ++ rest) after) :
    heap.Marks marked (handle :: rest) after := by
  have here : Marked (marked.setIfInBounds handle true) handle :=
    (marked_set inside).mpr (Or.inl rfl)
  refine ⟨fun other now => marks.kept other ((marked_set inside).mpr (Or.inr now)),
    fun other member within => ?_, fun other now => ?_, fun before => marks.closed ?_⟩
  · rcases List.mem_cons.mp member with rfl | inRest
    · exact marks.kept _ here
    · exact marks.worked other (List.mem_append_right _ inRest) within
  · rcases marks.reached other now with first | ⟨root, member, leads⟩
    · rcases (marked_set inside).mp first with rfl | early
      · exact Or.inr ⟨other, List.mem_cons_self, .refl⟩
      · exact Or.inl early
    · rcases List.mem_append.mp member with child | inRest
      · exact Or.inr ⟨handle, List.mem_cons_self, .head child leads⟩
      · exact Or.inr ⟨root, List.mem_cons_of_mem handle inRest, leads⟩
  · intro source target now refers within
    rcases (marked_set inside).mp now with rfl | early
    · exact Or.inr (List.mem_append_left rest refers)
    · rcases before source target early refers within with there | member
      · exact Or.inl ((marked_set inside).mpr (Or.inr there))
      · rcases List.mem_cons.mp member with rfl | inRest
        · exact Or.inl here
        · exact Or.inr (List.mem_append_right _ inRest)

end Marks

/-- Marking ends with an empty list: every step takes an entry off it, and puts on only references of
a slot that was not marked before. -/
theorem marks_mark (steps : Nat) (marked : Array Bool) (work : List Handle)
    (size : marked.size = heap.slots.size)
    (enough : work.length + heap.unmarkedEdges marked ≤ steps) :
    heap.Marks marked work (heap.mark steps marked work) := by
  induction steps generalizing marked work with
  | zero =>
    have empty : work = [] := List.length_eq_zero_iff.mp (by omega)
    subst empty
    exact .nothing heap marked
  | succ steps inductionHypothesis =>
    cases work with
    | nil => exact .nothing heap marked
    | cons handle rest =>
      rw [List.length_cons] at enough
      by_cases skip : (marked[handle]?).getD true
      · rw [mark, if_pos skip]
        refine (inductionHypothesis marked rest size (by omega)).skip fun within => ?_
        unfold Marked
        rw [← size] at within
        rw [Array.getElem?_eq_getElem within, Option.getD_some] at skip
        rw [Array.getElem?_eq_getElem within, skip]
      · have inside : handle < marked.size := by
          by_contra outside
          rw [Array.getElem?_eq_none (Nat.not_lt.mp outside)] at skip
          exact skip rfl
        have fresh : ¬ Marked marked handle := by
          intro now
          rw [Marked] at now
          rw [now] at skip
          exact skip rfl
        -- The edges of this slot move over to the list, and its own place in the list is given up.
        have fewer := unmarkedEdges_set inside (size ▸ inside) fresh
        rw [mark, if_neg skip]
        exact (inductionHypothesis (marked.setIfInBounds handle true) (heap.visits handle ++ rest)
          ((Array.size_setIfInBounds).trans size) (by rw [List.length_append]; omega)).take inside

/-! ### Garbage -/

/-- A slot is marked in the end exactly when it is sustained. -/
theorem marked_reachable (balanced : heap.Balanced outside) (settled : heap.pending = [])
    (handle : Handle) : Marked heap.reachable handle ↔ heap.Sustained outside handle := by
  have unmarked (other : Handle) : ¬ Marked (Array.replicate heap.slots.size false) other := by
    unfold Marked
    rw [Array.getElem?_replicate]
    split <;> simp
  -- At first nothing is marked, so there are rounds enough for every root and every edge.
  have allEdges : heap.unmarkedEdges (Array.replicate heap.slots.size false) = heap.edges.length := by
    rw [length_edges]
    exact Finset.sum_congr rfl fun place _ => if_neg (unmarked place)
  have marks : heap.Marks _ heap.roots heap.reachable := marks_mark _ _ _ Array.size_replicate
    (by rw [allEdges]; exact Nat.add_le_add_right heap.length_roots_le _)
  have within {target : Handle} (live : heap.isLive target) : target < heap.slots.size := by
    obtain ⟨entry, occupied⟩ := (heap.isLive_iff target).mp live
    exact heap.lt_size_of_occupant? occupied
  constructor
  · intro now
    obtain ⟨root, member, leads⟩ := (marks.reached handle now).resolve_left (unmarked handle)
    exact ⟨root, (mem_roots balanced settled).mp member, leads⟩
  · intro sustained
    refine sustained.induction (fun root member => ?_) fun source target reached now refers => ?_
    · exact marks.worked root ((mem_roots balanced settled).mpr member)
        (within (balanced.isLive_of_mem (Or.inl member)))
    · exact marks.closed (fun source _ here => absurd here (unmarked source)) source target now refers
        (within (balanced.isLive_of_sustained (reached.step refers)))

theorem size_mark (heap : Heap Code) (steps : Nat) (marked : Array Bool) (work : List Handle) :
    (heap.mark steps marked work).size = marked.size := by
  induction steps generalizing marked work with
  | zero => cases work <;> rfl
  | succ steps inductionHypothesis =>
    cases work with
    | nil => rfl
    | cons handle rest =>
      rw [mark]
      split
      · exact inductionHypothesis marked rest
      · exact (inductionHypothesis _ _).trans Array.size_setIfInBounds

/-- Garbage is the live entries that nothing outside leads to. -/
theorem mem_garbage (balanced : heap.Balanced outside) (settled : heap.pending = [])
    {handle : Handle} :
    handle ∈ heap.garbage ↔ heap.isLive handle ∧ ¬ heap.Sustained outside handle := by
  unfold garbage
  dsimp only
  rw [List.mem_filter, mem_liveHandles, ← marked_reachable balanced settled]
  refine and_congr_right fun live => ?_
  obtain ⟨entry, occupied⟩ := (heap.isLive_iff handle).mp live
  have inside : handle < heap.reachable.size := by
    unfold reachable
    rw [size_mark, Array.size_replicate]
    exact heap.lt_size_of_occupant? occupied
  unfold Marked
  rw [Array.getElem?_eq_getElem inside]
  simp

theorem nodup_garbage (heap : Heap Code) : heap.garbage.Nodup :=
  heap.nodup_liveHandles.filter _

end ObjectHeap.Heap
