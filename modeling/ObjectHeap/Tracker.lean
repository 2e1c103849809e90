/-
This file defines the tracker, which counts allocations and adds up the memory of the live
entries, and refuses what would pass a limit. All its numbers are machine words.
-/

import ObjectHeap.Limits

namespace ObjectHeap

/-- The limit that was passed, with the number that passed it. -/
inductive LimitExceeded where
  /-- One more allocation would make `count`. -/
  | allocations (limit count : UInt64)
  /-- The allocation would bring the memory to `used` bytes. -/
  | memory (limit used : UInt64)
  /-- The call would be the `depth`-th of the nest. -/
  | recursion (limit depth : UInt64)
deriving DecidableEq, Repr

/-- What is said about a passed limit. The nesting of calls is reported without numbers. -/
def LimitExceeded.message : LimitExceeded → String
  | .allocations limit count => s!"allocation limit exceeded: {count} > {limit}"
  | .memory limit used => s!"memory limit exceeded: {used} bytes > {limit} bytes"
  | .recursion _ _ => "maximum recursion depth exceeded"

/-- The books kept against a set of limits. -/
structure Tracker where
  limits : Limits
  /-- How many allocations were accepted. -/
  allocations : UInt64
  /-- The bytes charged for allocations, less the bytes given back. -/
  memory : UInt64
deriving DecidableEq, Repr

namespace Tracker

/-- Opens the books: nothing is allocated yet. -/
def new (limits : Limits) : Tracker :=
  { limits, allocations := 0, memory := 0 }

/-- Records an accepted allocation of `size` bytes. -/
def record (tracker : Tracker) (size : UInt64) : Tracker :=
  { tracker with allocations := tracker.allocations + 1, memory := tracker.memory + size }

/-- The limit on the number of allocations, if one more would pass it. -/
def allocationRefusal? (tracker : Tracker) : Option LimitExceeded :=
  match tracker.limits.maxAllocations with
  | some limit =>
    if limit ≤ tracker.allocations then some (.allocations limit (tracker.allocations + 1))
    else none
  | none => none

/-- The limit on memory, if `size` more bytes would pass it. -/
def memoryRefusal? (tracker : Tracker) (size : UInt64) : Option LimitExceeded :=
  match tracker.limits.maxMemory with
  | some limit =>
    let used := tracker.memory + size
    if limit < used then some (.memory limit used) else none
  | none => none

/-- Asks for an allocation of `size` bytes. The number of allocations is looked at before the
memory, and a refused allocation leaves the books as they were. -/
def charge (tracker : Tracker) (size : UInt64) : Except LimitExceeded Tracker :=
  match tracker.allocationRefusal? <|> tracker.memoryRefusal? size with
  | some refusal => .error refusal
  | none => .ok (tracker.record size)

/-- Gives `size` bytes back, as far as there are so many. -/
def credit (tracker : Tracker) (size : UInt64) : Tracker :=
  { tracker with memory := if size ≤ tracker.memory then tracker.memory - size else 0 }

/-- The limit on nested calls, if `depth` calls are running and one more would pass it. -/
def recursionRefusal? (tracker : Tracker) (depth : UInt64) : Option LimitExceeded :=
  match tracker.limits.maxRecursionDepth with
  | some limit => if limit ≤ depth then some (.recursion limit (depth + 1)) else none
  | none => none

/-- Whether the cycle collector is due after so many allocations of containers. An interval
of zero never makes it due. -/
def collectionDue (tracker : Tracker) (allocations : UInt64) : Bool :=
  match tracker.limits.gcInterval with
  | some interval => decide (0 < interval) && decide (interval ≤ allocations)
  | none => false

/-- An allocation is accepted when no limit refuses it, and it is then recorded. -/
theorem charge_eq_ok {tracker after : Tracker} {size : UInt64} :
    tracker.charge size = .ok after ↔
      tracker.allocationRefusal? = none ∧ tracker.memoryRefusal? size = none ∧
        after = tracker.record size := by
  unfold charge
  cases tracker.allocationRefusal? with
  | some refusal => simp
  | none =>
    cases tracker.memoryRefusal? size with
    | some refusal => simp
    | none => simp [eq_comm]

/-- An allocation that memory suffices for stays within the limit. -/
theorem memory_record_le {tracker : Tracker} {size limit : UInt64}
    (limited : tracker.limits.maxMemory = some limit)
    (accepted : tracker.memoryRefusal? size = none) : (tracker.record size).memory ≤ limit := by
  unfold memoryRefusal? at accepted
  simp only [limited] at accepted
  split at accepted
  · cases accepted
  · rename_i within
    exact UInt64.not_lt.mp within

/-- What is given back is taken off the memory, as far as there is so much. -/
theorem toNat_memory_credit (tracker : Tracker) (size : UInt64) :
    (tracker.credit size).memory.toNat = tracker.memory.toNat - size.toNat := by
  unfold credit
  dsimp only
  split
  · rename_i enough
    exact UInt64.toNat_sub_of_le _ _ enough
  · rename_i less
    have more := UInt64.lt_iff_toNat_lt.mp (UInt64.not_le.mp less)
    rw [Nat.sub_eq_zero_of_le (Nat.le_of_lt more)]
    rfl

end Tracker

end ObjectHeap
