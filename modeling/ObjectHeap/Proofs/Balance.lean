/-
This file establishes what every small change of a heap does to the balance of its counts. A
reference that is taken or given up is one more or one less outside the heap. An entry that is
placed takes its references in from outside, and an entry that is taken out leaves them
there. A change of a payload exchanges the references that it owns.
-/

import ObjectHeap.Proofs.Sound

namespace ObjectHeap.Heap

variable {Code : Type} {before after : Heap Code} {outside moved : Multiset Handle}
  {place : Handle}

/-! ### One slot -/

theorem tally_congr {handle : Handle}
    (same : after.occupant? handle = before.occupant? handle) :
    after.tally handle = before.tally handle := by
  unfold tally
  rw [same]

theorem visits_congr {handle : Handle}
    (same : after.occupant? handle = before.occupant? handle) :
    after.visits handle = before.visits handle := by
  rw [visits_eq, visits_eq, same]

theorem count_owns (payload : Payload Code) (handle : Handle) :
    payload.owns.count handle = payload.visits.count handle :=
  Multiset.coe_count handle payload.visits

theorem count_pending_eq
    (same : (after.pending : Multiset Handle) + moved = (before.pending : Multiset Handle) + outside)
    (handle : Handle) :
    after.pending.count handle + moved.count handle =
      before.pending.count handle + outside.count handle := by
  have counted := congrArg (Multiset.count handle) same
  rwa [Multiset.count_add, Multiset.count_add, Multiset.coe_count, Multiset.coe_count] at counted

namespace Balanced

/-- References may move between those that wait and those outside. -/
theorem of_pending (balanced : before.Balanced outside)
    (occupants : ∀ handle, after.occupant? handle = before.occupant? handle)
    (same : (after.pending : Multiset Handle) + moved =
      (before.pending : Multiset Handle) + outside) :
    after.Balanced moved where
  exact handle := by
    have counted := balanced.exact handle
    have waiting := count_pending_eq same handle
    rw [tally_congr (occupants handle), edges_congr fun other => visits_congr (occupants other)]
    omega
  positive handle live := by
    rw [isLive_eq, occupants handle] at live
    rw [tally_congr (occupants handle)]
    exact balanced.positive handle live

/-- What is not in the slots and does not wait has no part in the balance. -/
theorem congr (balanced : before.Balanced outside)
    (occupants : ∀ handle, after.occupant? handle = before.occupant? handle)
    (pending : after.pending = before.pending) : after.Balanced outside :=
  balanced.of_pending occupants (by rw [pending])

/-- A count changes together with the references outside. -/
theorem recount (balanced : before.Balanced outside) {entry : Entry Code} (count : Nat)
    (held : before.occupant? place = some entry)
    (here : after.occupant? place = some { entry with count })
    (others : ∀ other, other ≠ place → after.occupant? other = before.occupant? other)
    (pending : after.pending = before.pending) (positive : 0 < count)
    (counted : Multiset.replicate count place + outside =
      Multiset.replicate entry.count place + moved) :
    after.Balanced moved := by
  have visits (other : Handle) : after.visits other = before.visits other := by
    by_cases same : other = place
    · rw [same, visits_of_occupant? held, visits_of_occupant? here]
    · exact visits_congr (others other same)
  constructor
  · intro handle
    have exact := balanced.exact handle
    have moves := congrArg (Multiset.count handle) counted
    rw [Multiset.count_add, Multiset.count_add, Multiset.count_replicate,
      Multiset.count_replicate] at moves
    rw [edges_congr visits, pending]
    by_cases same : handle = place
    · rw [same] at exact moves ⊢
      rw [tally_of_occupant? held] at exact
      rw [tally_of_occupant? here]
      simp only [if_true] at moves ⊢
      omega
    · rw [tally_congr (others handle same)]
      rw [if_neg (Ne.symm same), if_neg (Ne.symm same)] at moves
      omega
  · intro handle live
    by_cases same : handle = place
    · rw [same, tally_of_occupant? here]
      exact positive
    · rw [isLive_eq, others handle same] at live
      rw [tally_congr (others handle same)]
      exact balanced.positive handle live

/-- An entry that comes to an empty slot takes its references in, and owes the first reference
to it. -/
theorem fill (balanced : before.Balanced (outside + moved)) {payload : Payload Code}
    (owns : payload.owns = moved) (empty : before.occupant? place = none)
    (here : after.occupant? place = some { count := 1, payload })
    (others : ∀ other, other ≠ place → after.occupant? other = before.occupant? other)
    (pending : after.pending = before.pending) :
    after.Balanced (outside + {place}) := by
  constructor
  · intro handle
    have exact := balanced.exact handle
    have exchanged := count_edges_of_others place (fun other different =>
      visits_congr (others other different)) handle
    have taken := count_owns payload handle
    rw [visits_of_empty empty, visits_of_occupant? here, List.count_nil] at exchanged
    dsimp only at exchanged
    rw [Multiset.count_add, ← owns] at exact
    rw [Multiset.count_add, Multiset.count_singleton, pending]
    by_cases same : handle = place
    · rw [same] at exact exchanged taken ⊢
      rw [tally_of_empty empty] at exact
      rw [tally_of_occupant? here, if_pos rfl]
      dsimp only
      omega
    · rw [tally_congr (others handle same), if_neg same]
      omega
  · intro handle live
    by_cases same : handle = place
    · rw [same, tally_of_occupant? here]
      exact Nat.one_pos
    · rw [isLive_eq, others handle same] at live
      rw [tally_congr (others handle same)]
      exact balanced.positive handle live

/-- When the last reference to an entry is given up, what the entry owned is left outside. -/
theorem vacate (balanced : before.Balanced (outside + {place})) {entry : Entry Code}
    (held : before.occupant? place = some entry) (last : entry.count ≤ 1)
    (empty : after.occupant? place = none)
    (others : ∀ other, other ≠ place → after.occupant? other = before.occupant? other)
    (pending : after.pending = before.pending) :
    after.Balanced (outside + entry.payload.owns) := by
  constructor
  · intro handle
    have exact := balanced.exact handle
    have exchanged := count_edges_of_others place (fun other different =>
      visits_congr (others other different)) handle
    have left := count_owns entry.payload handle
    rw [visits_of_empty empty, visits_of_occupant? held, List.count_nil] at exchanged
    rw [Multiset.count_add, Multiset.count_singleton] at exact
    rw [Multiset.count_add, pending]
    by_cases same : handle = place
    · rw [same] at exact exchanged left ⊢
      rw [tally_of_occupant? held, if_pos rfl] at exact
      rw [tally_of_empty empty]
      omega
    · rw [tally_congr (others handle same)]
      rw [if_neg same] at exact
      omega
  · intro handle live
    by_cases same : handle = place
    · rw [same, isLive_eq, empty] at live
      cases live
    · rw [isLive_eq, others handle same] at live
      rw [tally_congr (others handle same)]
      exact balanced.positive handle live

/-- A change of a payload exchanges what it owns. -/
theorem exchange (balanced : before.Balanced outside) {entry : Entry Code}
    (payload : Payload Code) (held : before.occupant? place = some entry)
    (here : after.occupant? place = some { entry with payload })
    (others : ∀ other, other ≠ place → after.occupant? other = before.occupant? other)
    (pending : after.pending = before.pending)
    (traded : payload.owns + moved = entry.payload.owns + outside) :
    after.Balanced moved := by
  have tally (handle : Handle) : after.tally handle = before.tally handle := by
    by_cases same : handle = place
    · rw [same, tally_of_occupant? held, tally_of_occupant? here]
    · exact tally_congr (others handle same)
  constructor
  · intro handle
    have exact := balanced.exact handle
    have exchanged := count_edges_of_others place (fun other different =>
      visits_congr (others other different)) handle
    have counted := congrArg (Multiset.count handle) traded
    rw [Multiset.count_add, Multiset.count_add, count_owns, count_owns] at counted
    rw [visits_of_occupant? held, visits_of_occupant? here] at exchanged
    dsimp only at exchanged
    rw [tally handle, pending]
    omega
  · intro handle live
    rw [tally handle]
    refine balanced.positive handle ?_
    by_cases same : handle = place
    · rw [same, isLive_eq, held]
      rfl
    · rwa [isLive_eq, others handle same] at live

/-- What is owned outside, waits, or is held by an entry is live. -/
theorem isLive_of_mem (balanced : before.Balanced outside) {handle : Handle}
    (referred : handle ∈ outside ∨ handle ∈ before.pending ∨ handle ∈ before.edges) :
    before.isLive handle := by
  have exact := balanced.exact handle
  cases occupied : before.occupant? handle with
  | some entry =>
    rw [isLive_eq, occupied]
    rfl
  | none =>
    rw [tally_of_empty occupied] at exact
    rcases referred with member | member | member
    · have counted := Multiset.count_pos.mpr member
      omega
    · have counted := List.count_pos_iff.mpr member
      omega
    · have counted := List.count_pos_iff.mpr member
      omega

/-- The balance of a heap says what is owned outside. -/
theorem unique (balanced : before.Balanced outside) (other : before.Balanced moved) :
    moved = outside := by
  refine Multiset.ext.mpr fun handle => ?_
  have one := balanced.exact handle
  have two := other.exact handle
  omega

end Balanced

end ObjectHeap.Heap
