/-
This file shows how far the numbers that a heap shows for its entries tell the entries of a run apart.
Every entry has a slot, and a generation that no other entry of the slot has. The number is made of
both, but the highest bits of the generation do not fit in: what is left of them is shared by entries
whose generations are 2 ^ 28 apart. Hence the numbers of a run are all different just in case no slot
was used more often than that, and a run can go on until one was.
-/

import ObjectHeap.Proofs.Slots

namespace ObjectHeap

variable {Code Host : Type}

/-! ### Entries of a run -/

/-- An entry of a run: the slot that it was placed in, and how many entries the slot had held before. -/
structure Allocation where
  slot : Handle
  generation : Nat
deriving DecidableEq, Repr

namespace Allocation

/-- The number shown for an entry. -/
def publicId (allocation : Allocation) : UInt64 :=
  (((UInt32.ofNat allocation.generation).toUInt64 <<< 32) ||| UInt64.ofNat allocation.slot) * 16 +
    0x1000

variable {one other : Allocation}

/-- Of the generation, 28 bits take part in the number. -/
theorem toNat_publicId (small : one.slot < 2 ^ 32) : one.publicId.toNat =
    (one.generation % 2 ^ 28 * 2 ^ 36 + one.slot * 16 + 4096) % 2 ^ 64 := by
  have word : (UInt64.ofNat one.slot).toNat = one.slot :=
    UInt64.toNat_ofNat_of_lt' (small.trans (by decide))
  have shifted : ((UInt32.ofNat one.generation).toUInt64 <<< 32).toNat =
      (one.generation % 2 ^ 32) <<< 32 := by
    rw [UInt64.toNat_shiftLeft, UInt32.toNat_toUInt64, UInt32.toNat_ofNat']
    refine Nat.mod_eq_of_lt ?_
    rw [show (32 : UInt64).toNat % 64 = 32 from rfl, Nat.shiftLeft_eq]
    omega
  have packed : (((UInt32.ofNat one.generation).toUInt64 <<< 32) ||| UInt64.ofNat one.slot).toNat =
      one.generation % 2 ^ 32 * 2 ^ 32 + one.slot := by
    rw [UInt64.toNat_or, shifted, word, ← Nat.shiftLeft_add_eq_or_of_lt small, Nat.shiftLeft_eq]
  unfold publicId
  rw [UInt64.toNat_add, UInt64.toNat_mul, packed, show (16 : UInt64).toNat = 16 from rfl,
    show (0x1000 : UInt64).toNat = 4096 from rfl]
  omega

/-- Two entries share a number just in case they share a slot, and what takes part of the generation. -/
theorem publicId_eq_iff (small : one.slot < 2 ^ 32) (alsoSmall : other.slot < 2 ^ 32) :
    one.publicId = other.publicId ↔
      one.slot = other.slot ∧ one.generation ≡ other.generation [MOD 2 ^ 28] := by
  rw [← UInt64.toNat_inj, toNat_publicId small, toNat_publicId alsoSmall, Nat.ModEq]
  have words (slot place first second : Nat) (bound : slot < 2 ^ 32) (alsoBound : place < 2 ^ 32) :
      (first % 2 ^ 28 * 2 ^ 36 + slot * 16 + 4096) % 2 ^ 64 =
        (second % 2 ^ 28 * 2 ^ 36 + place * 16 + 4096) % 2 ^ 64 ↔
        slot = place ∧ first % 2 ^ 28 = second % 2 ^ 28 := by
    omega
  exact words one.slot other.slot one.generation other.generation small alsoSmall

end Allocation

/-- The entry that is in a slot shows the number of the last entry that was placed there. -/
theorem Heap.publicId_eq (heap : Heap Code) (slot : Handle) :
    heap.publicId slot = Allocation.publicId { slot, generation := heap.births slot - 1 } := by
  unfold Heap.publicId Heap.births
  cases heap.slots[slot]? <;> rfl

namespace Event

/-- The entries that were placed. -/
def allocations : List (Event Code) → List Allocation
  | [] => []
  | placed slot _ _ :: older => { slot, generation := older.countP (fills slot) } :: allocations older
  | vacated _ _ :: older | noted _ :: older => allocations older

/-- The generations of the entries of a slot are counted from zero on. -/
theorem mem_allocations {allocation : Allocation} {events : List (Event Code)} :
    allocation ∈ allocations events ↔
      allocation.generation < events.countP (fills allocation.slot) := by
  induction events with
  | nil => simp [allocations]
  | cons event older inductionHypothesis =>
    cases event with
    | placed slot payload pooled =>
      obtain ⟨other, generation⟩ := allocation
      rw [allocations, List.mem_cons, inductionHypothesis, List.countP_cons]
      by_cases same : slot = other
      · subst same
        simp only [Allocation.mk.injEq, true_and, fills, beq_self_eq_true, if_true]
        omega
      · simp [fills, same, Ne.symm same]
    | vacated slot payload => simpa [allocations, fills] using inductionHypothesis
    | noted moment => simpa [allocations, fills] using inductionHypothesis

/-- No two entries of a run have both slot and generation in common. -/
theorem nodup_allocations (events : List (Event Code)) : (allocations events).Nodup := by
  induction events with
  | nil => exact List.nodup_nil
  | cons event older inductionHypothesis =>
    cases event with
    | placed slot payload pooled =>
      refine List.nodup_cons.mpr ⟨fun member => ?_, inductionHypothesis⟩
      exact Nat.lt_irrefl _ (mem_allocations.mp member)
    | vacated slot payload => exact inductionHypothesis
    | noted moment => exact inductionHypothesis

theorem length_allocations (events : List (Event Code)) :
    (allocations events).length = events.countP isPlaced := by
  induction events with
  | nil => rfl
  | cons event older inductionHypothesis =>
    cases event with
    | placed slot payload pooled =>
      rw [allocations, List.length_cons, inductionHypothesis, List.countP_cons_of_pos rfl]
    | vacated slot payload => simpa [allocations, isPlaced] using inductionHypothesis
    | noted moment => simpa [allocations, isPlaced] using inductionHypothesis

/-- The numbers of the entries are all different just in case no slot has held more than 2 ^ 28. -/
theorem nodup_publicIds_iff {events : List (Event Code)}
    (small : ∀ allocation ∈ allocations events, allocation.slot < 2 ^ 32) :
    ((allocations events).map Allocation.publicId).Nodup ↔
      ∀ slot, events.countP (fills slot) ≤ 2 ^ 28 := by
  constructor
  · intro different slot
    by_contra often
    have often : 2 ^ 28 < events.countP (fills slot) := Nat.lt_of_not_le often
    -- The first entry of the slot, and the first one that shares its number.
    have first : { slot, generation := 0 } ∈ allocations events :=
      mem_allocations.mpr (Nat.zero_lt_of_lt often)
    have again : { slot, generation := 2 ^ 28 } ∈ allocations events := mem_allocations.mpr often
    have shared := (Allocation.publicId_eq_iff (small _ first) (small _ again)).mpr
      ⟨rfl, (Nat.mod_self (2 ^ 28)).symm⟩
    cases List.inj_on_of_nodup_map different first again shared
  · intro rarely
    refine (nodup_allocations events).map_on fun one member other alsoMember shared => ?_
    obtain ⟨slot, generation⟩ := one
    obtain ⟨otherSlot, otherGeneration⟩ := other
    obtain ⟨sameSlot, alike⟩ :=
      (Allocation.publicId_eq_iff (small _ member) (small _ alsoMember)).mp shared
    cases sameSlot
    have young : generation < 2 ^ 28 := (mem_allocations.mp member).trans_le (rarely slot)
    have alsoYoung : otherGeneration < 2 ^ 28 := (mem_allocations.mp alsoMember).trans_le (rarely slot)
    exact congrArg _ (alike.eq_of_lt_of_lt young alsoYoung)

end Event

namespace History

variable {config : Config} {events : List (Event Code)} {heap : Heap Code}

/-- A slot of the heap has held as many entries as were placed in it since the heap was new. -/
theorem births_eq_countP (history : History (Heap.new config) events heap) (slot : Handle) :
    heap.births slot = events.countP (Event.fills slot) := by
  rw [history.births, Heap.births_new, zero_add]

theorem slot_lt_of_mem_allocations (history : History (Heap.new config) events heap)
    {allocation : Allocation} (member : allocation ∈ Event.allocations events) :
    allocation.slot < heap.slots.size := by
  rw [← heap.births_pos_iff, history.births_eq_countP]
  exact Nat.zero_lt_of_lt (Event.mem_allocations.mp member)

/-- An entry that is there is the last one that was placed in its slot. -/
theorem exists_allocation (history : History (Heap.new config) events heap) {slot : Handle}
    (live : heap.isLive slot) : ∃ allocation ∈ Event.allocations events, allocation.slot = slot ∧
      allocation.generation + 1 = heap.births slot ∧ heap.publicId slot = allocation.publicId := by
  obtain ⟨entry, occupied⟩ := (heap.isLive_iff slot).mp live
  have born := heap.births_pos_of_occupant? occupied
  refine ⟨{ slot, generation := heap.births slot - 1 }, Event.mem_allocations.mpr ?_, rfl, ?_,
    heap.publicId_eq slot⟩
  · rw [← history.births_eq_countP]
    exact Nat.sub_one_lt_of_lt born
  · exact Nat.sub_add_cancel born

end History

/-- What was placed before some of the events was placed in the course of all of them. -/
theorem Event.allocations_subset (newer : List (Event Code)) {older : List (Event Code)} :
    Event.allocations older ⊆ Event.allocations (newer ++ older) := by
  intro allocation member
  refine Event.mem_allocations.mpr ((Event.mem_allocations.mp member).trans_le ?_)
  rw [List.countP_append]
  exact Nat.le_add_left _ _

namespace Reached

variable {held : Host → Multiset Handle} {bodies : Code → Arguments → Program Code Host}
  {config : Config} {hand : Multiset Handle} {world : World Code (Recorded Code Host)}

/-- The entries that are there at any time of a run are among those that the history tells of. -/
theorem exists_allocation {events : List (Event Code)}
    (history : History (Heap.new config) events world.heap)
    (moments : events.filterMap Event.moment? = world.host.moments) {heap : Heap Code}
    (member : heap ∈ heaps world) {slot : Handle} (live : heap.isLive slot) :
    ∃ allocation ∈ Event.allocations events, allocation.slot = slot ∧
      allocation.generation + 1 = heap.births slot ∧ heap.publicId slot = allocation.publicId := by
  rcases List.mem_cons.mp member with rfl | member
  · exact history.exists_allocation live
  · obtain ⟨moment, noted, rfl⟩ := List.mem_map.mp member
    rw [← moments] at noted
    obtain ⟨event, among, isMoment⟩ := List.mem_filterMap.mp noted
    cases event <;> cases isMoment
    obtain ⟨newer, older, rfl⟩ := List.append_of_mem among
    obtain ⟨allocation, placed, told⟩ := (history.of_noted rfl).exists_allocation live
    exact ⟨allocation, Event.allocations_subset newer placed, told⟩

/-- Every entry of a run has a slot and a generation of its own, and as long as it is there, the
number that is shown for it is made of both. Two entries have the same number just in case they were in
the same slot and their generations differ by a multiple of 2 ^ 28. So all entries of the run have
different numbers just in case no slot has held more than 2 ^ 28 of them. -/
theorem public_ids_coincide_iff (respectful : RespectfulBodies held bodies)
    (reached : Reached held bodies config hand world) (small : world.heap.slots.size ≤ 2 ^ 32) :
    ∃ events, History (Heap.new config) events world.heap ∧
      events.filterMap Event.moment? = world.host.moments ∧
      (Event.allocations events).Nodup ∧
      world.heap.tracker.allocations = UInt64.ofNat (Event.allocations events).length ∧
      (∀ heap ∈ heaps world, ∀ slot, heap.isLive slot →
        ∃ allocation ∈ Event.allocations events, allocation.slot = slot ∧
          allocation.generation + 1 = heap.births slot ∧
          heap.publicId slot = allocation.publicId) ∧
      (∀ one ∈ Event.allocations events, ∀ other ∈ Event.allocations events,
        (one.publicId = other.publicId ↔
          one.slot = other.slot ∧ one.generation ≡ other.generation [MOD 2 ^ 28])) ∧
      (((Event.allocations events).map Allocation.publicId).Nodup ↔
        ∀ slot, world.heap.births slot ≤ 2 ^ 28) := by
  obtain ⟨events, history, moments⟩ := reached.exists_history respectful
  have inside (allocation) (member : allocation ∈ Event.allocations events) :
      allocation.slot < 2 ^ 32 := (history.slot_lt_of_mem_allocations member).trans_le small
  refine ⟨events, history, moments, Event.nodup_allocations events, ?_,
    fun heap member slot live => exists_allocation history moments member live,
    fun one member other alsoMember =>
      Allocation.publicId_eq_iff (inside one member) (inside other alsoMember), ?_⟩
  · rw [history.allocations, Event.length_allocations]
  · simp only [history.births_eq_countP]
    exact Event.nodup_publicIds_iff inside

/-- The second string in a slot has a number of its own. -/
theorem public_ids_of_two_strings : ∃ world : World Unit (Recorded Unit Unit),
    Reached (fun _ => 0) idleBodies Config.standard {0} world ∧ world.heap.slots.size ≤ 2 ^ 32 ∧
    world.heap.births 0 = 2 ∧ ∃ events, History (Heap.new Config.standard) events world.heap ∧
      { slot := 0, generation := 1 } ∈ Event.allocations events ∧
      ((Event.allocations events).map Allocation.publicId).Nodup := by
  obtain ⟨world, reached, seen⟩ : ∃ world : World Unit (Recorded Unit Unit),
      Reached (fun _ => 0) idleBodies Config.standard {0} world ∧
      (world.heap.slots.size, world.heap.births 0) = (1, 2) :=
    exists_follow [.newString "one", .drop (.ref 0), .newString "two"] 4 () _ _ rfl (by decide +kernel)
  obtain ⟨single, born⟩ := Prod.mk.inj seen
  have small : world.heap.slots.size ≤ 2 ^ 32 := single.trans_le (by decide)
  obtain ⟨events, history, _, _, _, _, _, different⟩ :=
    public_ids_coincide_iff respectful_idleBodies reached small
  refine ⟨world, reached, small, born, events, history, Event.mem_allocations.mpr ?_,
    different.mpr fun slot => ?_⟩
  · rw [← history.births_eq_countP, born]
    decide
  · rcases Nat.eq_zero_or_pos (world.heap.births slot) with unused | used
    · rw [unused]
      exact Nat.zero_le _
    · have inside := (world.heap.births_pos_iff slot).mp used
      rw [single, Nat.lt_one_iff] at inside
      rw [inside, born]
      decide

/-- A heap with one slot, which was used before, and nothing else. -/
def oneSlot (slot : Slot Unit) (free : List Handle) (allocations memory : UInt64) : Heap Unit :=
  { (Heap.new Config.standard : Heap Unit) with
    slots := #[slot], free, tracker := { limits := Limits.standard, allocations, memory } }

/-- A slot can be used again and again. The run has a moment at which it was used for the first time. -/
theorem exists_recycled (generation : Nat) : ∃ allocations memory moments,
    Reached (fun _ => 0) idleBodies Config.standard {0}
      { heap := oneSlot { generation, entry := some { count := 1, payload := .str "" } } [] allocations memory,
        host := { host := (), moments } } ∧
    ∃ moment ∈ moments, moment.heap.isLive 0 ∧ moment.heap.births 0 = 1 ∧ moment.heap.publicId 0 = 0x1000 := by
  induction generation with
  | zero =>
    refine ⟨_, _, _, .perform (.newString "") 4 (.ok (.ref 0)) (.start () rfl) (fun _ member => member) rfl,
      _, List.mem_cons_self, rfl, rfl, ?_⟩
    decide +kernel
  | succ generation inductionHypothesis =>
    obtain ⟨allocations, memory, moments, reached, moment, noted, first⟩ := inductionHypothesis
    have dropped : Reached (fun _ => 0) idleBodies Config.standard 0
        { heap := oneSlot { generation, entry := none } [0] allocations _,
          host := { host := (), moments := _ } } :=
      .perform (.drop (.ref 0)) 4 () reached (fun _ member => member) rfl
    exact ⟨_, _, _, .perform (.newString "") 4 (.ok (.ref 0)) dropped (fun _ member => member) rfl,
      moment, List.mem_cons_of_mem _ (List.mem_cons_of_mem _ noted), first⟩

/-- A string has the number of the first string that was in its slot. -/
theorem public_id_of_recycled_slot : ∃ world : World Unit (Recorded Unit Unit),
    Reached (fun _ => 0) idleBodies Config.standard {0} world ∧ ∃ moment ∈ world.host.moments,
      moment.heap.isLive 0 ∧ world.heap.isLive 0 ∧
      moment.heap.births 0 = 1 ∧ world.heap.births 0 = 2 ^ 28 + 1 ∧
      moment.heap.publicId 0 = world.heap.publicId 0 := by
  obtain ⟨allocations, memory, moments, reached, moment, noted, live, born, shown⟩ :=
    exists_recycled (2 ^ 28)
  have often : (oneSlot { generation := 2 ^ 28, entry := some { count := 1, payload := .str "" } } []
      allocations memory).births 0 = 2 ^ 28 + 1 := rfl
  refine ⟨_, reached, moment, noted, live, rfl, born, often, ?_⟩
  rw [shown, Heap.publicId_eq, often]
  decide +kernel

end Reached

end ObjectHeap
