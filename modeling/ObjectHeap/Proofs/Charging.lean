/-
This file shows how far the books of a tracker can be trusted. Whatever is charged and given back,
and in whatever order, the books never show more than the limits. They also show exactly what was
charged, but only as long as the sum of the memory fits in a word: a size so large that the sum wraps
around is compared by what is left of the sum, and is accepted if that is within the limit.
-/

import Mathlib
import ObjectHeap.Tracker

namespace ObjectHeap.Tracker

/-- What is entered in the books. -/
inductive Posting where
  | charge (size : UInt64)
  | credit (size : UInt64)
deriving DecidableEq, Repr

/-- The books after a posting. A charge that is refused leaves no trace. -/
def post (tracker : Tracker) : Posting → Tracker
  | .charge size =>
    match tracker.charge size with
    | .ok after => after
    | .error _ => tracker
  | .credit size => tracker.credit size

/-- The books after postings in order. -/
def postAll (tracker : Tracker) (postings : List Posting) : Tracker :=
  postings.foldl post tracker

variable {tracker after : Tracker} {size limit : UInt64}

/-! ### One charge -/

/-- A charge is refused for the number of allocations just in case one more would pass the limit. -/
theorem allocationRefusal?_eq_none : tracker.allocationRefusal? = none ↔
    ∀ limit ∈ tracker.limits.maxAllocations, tracker.allocations.toNat + 1 ≤ limit.toNat := by
  unfold allocationRefusal?
  cases tracker.limits.maxAllocations with
  | none => exact iff_of_true rfl nofun
  | some limit =>
    simp only [ite_eq_right_iff, reduceCtorEq, imp_false, UInt64.not_le, UInt64.lt_iff_toNat_lt,
      Option.mem_def, Option.some.injEq, forall_eq']
    exact Iff.rfl

/-- A charge is refused for its size just in case what is left of the sum passes the limit. -/
theorem memoryRefusal?_eq_none : tracker.memoryRefusal? size = none ↔
    ∀ limit ∈ tracker.limits.maxMemory,
      (tracker.memory.toNat + size.toNat) % 2 ^ 64 ≤ limit.toNat := by
  unfold memoryRefusal?
  cases tracker.limits.maxMemory with
  | none => exact iff_of_true rfl nofun
  | some limit =>
    simp only [ite_eq_right_iff, reduceCtorEq, imp_false, UInt64.not_lt, UInt64.le_iff_toNat_le,
      UInt64.toNat_add, Option.mem_def, Option.some.injEq, forall_eq']

/-- A sum of words is exact just in case it fits in a word. -/
theorem toNat_add_eq_iff (one other : UInt64) :
    (one + other).toNat = one.toNat + other.toNat ↔ one.toNat + other.toNat < 2 ^ 64 := by
  rw [UInt64.toNat_add]
  exact ⟨fun exact => exact ▸ Nat.mod_lt _ (by decide), Nat.mod_eq_of_lt⟩

theorem charge_accepted_iff : (∃ after, tracker.charge size = .ok after) ↔
    (∀ limit ∈ tracker.limits.maxAllocations, tracker.allocations.toNat + 1 ≤ limit.toNat) ∧
      ∀ limit ∈ tracker.limits.maxMemory,
        (tracker.memory.toNat + size.toNat) % 2 ^ 64 ≤ limit.toNat := by
  rw [← allocationRefusal?_eq_none, ← memoryRefusal?_eq_none]
  simp only [charge_eq_ok]
  exact ⟨fun ⟨_, counted, fits, _⟩ => ⟨counted, fits⟩, fun ⟨counted, fits⟩ => ⟨_, counted, fits, rfl⟩⟩

/-- A charge is refused only if the exact count or the exact sum would pass its limit. -/
theorem exceeds_of_refused {exceeded : LimitExceeded} (refused : tracker.charge size = .error exceeded) :
    (∃ limit ∈ tracker.limits.maxAllocations, limit.toNat < tracker.allocations.toNat + 1) ∨
      ∃ limit ∈ tracker.limits.maxMemory, limit.toNat < tracker.memory.toNat + size.toNat := by
  by_contra within
  push Not at within
  obtain ⟨counted, fits⟩ := within
  obtain ⟨after, accepted⟩ := charge_accepted_iff.mpr
    ⟨counted, fun limit limited => (Nat.mod_le _ _).trans (fits limit limited)⟩
  cases refused.symm.trans accepted

/-! ### All postings -/

theorem post_of_accepted (accepted : tracker.charge size = .ok after) :
    tracker.post (.charge size) = after := by
  simp only [post, accepted]

theorem post_of_refused {exceeded : LimitExceeded} (refused : tracker.charge size = .error exceeded) :
    tracker.post (.charge size) = tracker := by
  simp only [post, refused]

/-- The books show no more than the limits. -/
structure Within (tracker : Tracker) : Prop where
  allocations : ∀ limit ∈ tracker.limits.maxAllocations, tracker.allocations ≤ limit
  memory : ∀ limit ∈ tracker.limits.maxMemory, tracker.memory ≤ limit

theorem within_new (limits : Limits) : (new limits).Within where
  allocations _ _ := UInt64.le_iff_toNat_le.mpr (Nat.zero_le _)
  memory _ _ := UInt64.le_iff_toNat_le.mpr (Nat.zero_le _)

/-- Whatever the books show before, an accepted charge is within the limits. -/
theorem within_charge (accepted : tracker.charge size = .ok after) : after.Within := by
  obtain ⟨counted, fits, rfl⟩ := charge_eq_ok.mp accepted
  refine ⟨fun limit limited => ?_, fun limit limited => memory_record_le limited fits⟩
  -- One less than the limit has a successor, so the count does not wrap around.
  have room := allocationRefusal?_eq_none.mp counted limit limited
  have small : tracker.allocations.toNat + 1 < 2 ^ 64 := room.trans_lt limit.toNat_lt
  exact UInt64.le_iff_toNat_le.mpr (((toNat_add_eq_iff tracker.allocations 1).mpr small).trans_le room)

theorem within_credit (within : tracker.Within) (size : UInt64) : (tracker.credit size).Within where
  allocations := within.allocations
  memory limit limited := by
    rw [UInt64.le_iff_toNat_le, toNat_memory_credit]
    exact (Nat.sub_le _ _).trans (UInt64.le_iff_toNat_le.mp (within.memory limit limited))

theorem within_post (within : tracker.Within) (posting : Posting) : (tracker.post posting).Within := by
  cases posting with
  | credit size => exact within_credit within size
  | charge size =>
    cases charged : tracker.charge size with
    | ok after =>
      rw [post_of_accepted charged]
      exact within_charge charged
    | error exceeded =>
      rw [post_of_refused charged]
      exact within

/-- A posting leaves the limits, and counts at most once. -/
theorem limits_post (tracker : Tracker) (posting : Posting) :
    (tracker.post posting).limits = tracker.limits ∧
      (tracker.post posting).allocations.toNat ≤ tracker.allocations.toNat + 1 := by
  cases posting with
  | credit size => exact ⟨rfl, Nat.le_succ _⟩
  | charge size =>
    cases charged : tracker.charge size with
    | ok after =>
      rw [post_of_accepted charged]
      obtain ⟨_, _, rfl⟩ := charge_eq_ok.mp charged
      exact ⟨rfl, (UInt64.toNat_add _ _).trans_le (Nat.mod_le _ _)⟩
    | error exceeded =>
      rw [post_of_refused charged]
      exact ⟨rfl, Nat.le_succ _⟩

theorem within_postAll (within : tracker.Within) (postings : List Posting) :
    (tracker.postAll postings).Within ∧ (tracker.postAll postings).limits = tracker.limits ∧
      (tracker.postAll postings).allocations.toNat ≤ tracker.allocations.toNat + postings.length := by
  induction postings generalizing tracker with
  | nil => exact ⟨within, rfl, le_rfl⟩
  | cons posting rest inductionHypothesis =>
    obtain ⟨same, once⟩ := tracker.limits_post posting
    obtain ⟨kept, limits, counted⟩ := inductionHypothesis (within_post within posting)
    refine ⟨kept, limits.trans same, counted.trans ?_⟩
    rw [List.length_cons]
    omega

/-- After any postings, the books show no more than the limits. The next charge is accepted just in
case one more allocation is within its limit and what is left of the sum of the memory is within the
other. If it is accepted, the count and the memory are exact as long as they fit in a word; if it is
refused, nothing changes, and the exact count or the exact sum would pass its limit. What is given
back is taken off the memory, as far as there is so much. -/
theorem books_are_exact_iff (limits : Limits) (postings : List Posting) (size : UInt64) :
    let tracker := (new limits).postAll postings
    (∀ limit ∈ limits.maxAllocations, tracker.allocations ≤ limit) ∧
    (∀ limit ∈ limits.maxMemory, tracker.memory ≤ limit) ∧
    tracker.allocations.toNat ≤ postings.length ∧
    ((∃ after, tracker.charge size = .ok after) ↔
      (∀ limit ∈ limits.maxAllocations, tracker.allocations.toNat + 1 ≤ limit.toNat) ∧
        ∀ limit ∈ limits.maxMemory,
          (tracker.memory.toNat + size.toNat) % 2 ^ 64 ≤ limit.toNat) ∧
    (∀ after, tracker.charge size = .ok after → after = tracker.post (.charge size) ∧
      after.limits = limits ∧
      (after.allocations.toNat = tracker.allocations.toNat + 1 ↔
        tracker.allocations.toNat + 1 < 2 ^ 64) ∧
      (after.memory.toNat = tracker.memory.toNat + size.toNat ↔
        tracker.memory.toNat + size.toNat < 2 ^ 64)) ∧
    (∀ exceeded, tracker.charge size = .error exceeded → tracker.post (.charge size) = tracker ∧
      ((∃ limit ∈ limits.maxAllocations, limit.toNat < tracker.allocations.toNat + 1) ∨
        ∃ limit ∈ limits.maxMemory, limit.toNat < tracker.memory.toNat + size.toNat)) ∧
    tracker.post (.credit size) = { tracker with memory := (tracker.credit size).memory } ∧
      (tracker.credit size).memory.toNat =
        tracker.memory.toNat - min size.toNat tracker.memory.toNat := by
  intro tracker
  obtain ⟨within, same, counted⟩ := within_postAll (within_new limits) postings
  have same : tracker.limits = limits := same
  have accepted : (∃ after, tracker.charge size = .ok after) ↔ _ := charge_accepted_iff
  have refused {exceeded : LimitExceeded} (said : tracker.charge size = .error exceeded) :=
    exceeds_of_refused said
  rw [same] at accepted refused
  refine ⟨same ▸ within.allocations, same ▸ within.memory, counted.trans_eq (Nat.zero_add _), accepted,
    fun after charged => ?_, fun exceeded charged => ⟨post_of_refused charged, refused charged⟩, rfl, ?_⟩
  · have entered := post_of_accepted charged
    obtain ⟨_, _, rfl⟩ := charge_eq_ok.mp charged
    exact ⟨entered.symm, same, toNat_add_eq_iff _ 1, toNat_add_eq_iff _ _⟩
  · rw [toNat_memory_credit]
    omega

/-- A charge whose sum wraps around is accepted far beyond the limit. -/
theorem books_past_limit :
    let tracker := (new { Limits.unlimited with maxMemory := some 100 }).postAll [.charge 60]
    tracker.memory = 60 ∧ tracker.charge (2 ^ 64 - 50) =
      .ok { tracker with allocations := 2, memory := 10 } := by
  decide +kernel

end ObjectHeap.Tracker
