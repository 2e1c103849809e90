/-
This file defines the method pool. Methods come and go with nearly every attribute that is
read, so the slots of freed methods are kept apart, up to a capacity, for the next methods.
-/

import ObjectHeap.Value

namespace ObjectHeap

/-- The slots of freed methods, the one freed last at the head. -/
structure MethodPool where
  capacity : Nat
  slots : List Handle
  bounded : slots.length ≤ capacity
deriving DecidableEq

namespace MethodPool

/-- A pool that holds nothing yet. -/
def new (capacity : Nat) : MethodPool :=
  { capacity, slots := [], bounded := Nat.zero_le _ }

/-- How many slots the pool holds. -/
def size (pool : MethodPool) : Nat :=
  pool.slots.length

/-- Takes the slot that was freed last. -/
def take? (pool : MethodPool) : Option (Handle × MethodPool) :=
  match held : pool.slots with
  | [] => none
  | handle :: rest =>
    some (handle,
      { pool with
        slots := rest
        bounded := by
          have bounded := pool.bounded
          rw [held, List.length_cons] at bounded
          exact Nat.le_of_succ_le bounded })

/-- Keeps a freed slot, unless the pool is full. -/
def keep? (pool : MethodPool) (handle : Handle) : Option MethodPool :=
  if room : pool.slots.length < pool.capacity then
    some { pool with slots := handle :: pool.slots, bounded := room }
  else
    none

/-- The slot that is taken was at the head. -/
theorem slots_of_take? {pool rest : MethodPool} {handle : Handle}
    (taken : pool.take? = some (handle, rest)) : pool.slots = handle :: rest.slots := by
  unfold take? at taken
  split at taken
  · cases taken
  · rename_i held
    cases taken
    exact held

/-- How much a pool can hold does not change with what it holds. -/
theorem capacity_of_take? {pool rest : MethodPool} {handle : Handle}
    (taken : pool.take? = some (handle, rest)) : rest.capacity = pool.capacity := by
  unfold take? at taken
  split at taken
  · cases taken
  · cases taken
    rfl

/-- A slot that is kept goes to the head. -/
theorem slots_of_keep? {pool after : MethodPool} {handle : Handle}
    (kept : pool.keep? handle = some after) : after.slots = handle :: pool.slots := by
  unfold keep? at kept
  split at kept
  · cases kept
    rfl
  · cases kept

theorem capacity_of_keep? {pool after : MethodPool} {handle : Handle}
    (kept : pool.keep? handle = some after) : after.capacity = pool.capacity := by
  unfold keep? at kept
  split at kept
  · cases kept
    rfl
  · cases kept

end MethodPool

end ObjectHeap
