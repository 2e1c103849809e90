/-
This file compares two heaps that hold the same things in different slots. One heap mirrors the
other one under a renaming of slots if every entry is the renamed entry. Since the counts of a sound
heap are determined by its references, and so is what a collection removes, it is enough to compare
payloads. Releases are worked off in the same order in both heaps, so that they free the same
entries and the tracker gets the same back each time; a collection goes through its garbage in the
order of the slots, but it removes the same entries, and their order is of no account.
-/

import ObjectHeap.Proofs.Reflections
import ObjectHeap.Proofs.Silence

namespace ObjectHeap

variable {Code Host : Type}

namespace Heap

/-- A heap holds what another one holds, in renamed slots. -/
structure Mirrors (one : Heap Code) (name : Equiv.Perm Handle) (two : Heap Code) : Prop where
  payloads : ∀ handle, two.payload? (name handle) = (one.payload? handle).map (Payload.rename name)
  /-- The same references wait, in the same order. -/
  pending : two.pending = one.pending.map name
  releasing : two.releasing = one.releasing
  meters : two.meters = one.meters

/-- Two sound heaps without callbacks, one of which mirrors the other one. -/
structure Couples (one : Heap Code) (name : Equiv.Perm Handle) (outside : Multiset Handle)
    (two : Heap Code) : Prop extends Mirrors one name two where
  sound : one.Sound outside []
  image : two.Sound (outside.map name) []
  silent : one.Silent

variable {one two later last : Heap Code} {name : Equiv.Perm Handle} {outside : Multiset Handle}
  {place handle : Handle}

/-- The payloads of the slots in use, slot by slot. -/
theorem payloads_eq_filterMap (heap : Heap Code) :
    heap.payloads = heap.liveHandles.filterMap heap.payload? := by
  let payloadOf (slot : Slot Code) : Option (Payload Code) := slot.entry.map Entry.payload
  have listed : heap.slots.toList.map some = (List.range heap.slots.size).map (heap.slots[·]?) :=
    List.ext_getElem (by simp) (by simp)
  have read (handle : Handle) : heap.slots[handle]?.bind payloadOf = heap.payload? handle := by
    unfold payload? occupant?
    cases heap.slots[handle]? <;> rfl
  have used (handle : Handle) : (if heap.isLive handle then heap.payload? handle else none) =
      heap.payload? handle := by
    rw [isLive_eq_payload?]
    cases heap.payload? handle <;> rfl
  calc heap.payloads
      = (heap.slots.toList.map some).filterMap (·.bind payloadOf) := by
        rw [List.filterMap_map]
        rfl
    _ = (List.range heap.slots.size).filterMap heap.payload? := by
        rw [listed, List.filterMap_map]
        exact congrArg (List.filterMap · _) (funext read)
    _ = heap.liveHandles.filterMap heap.payload? := by
        unfold liveHandles
        rw [List.filterMap_filter]
        exact congrArg (List.filterMap · _) (funext fun handle => (used handle).symm)

/-! ### What is the same in both heaps -/

namespace Mirrors

variable (mirrors : one.Mirrors name two)

include mirrors

theorem isLive (handle : Handle) : two.isLive (name handle) = one.isLive handle := by
  rw [isLive_eq_payload?, isLive_eq_payload?, mirrors.payloads, Option.isSome_map]

theorem visits (handle : Handle) : two.visits (name handle) = (one.visits handle).map name := by
  unfold Heap.visits
  rw [mirrors.payloads]
  cases one.payload? handle with
  | none => rfl
  | some payload => exact payload.visits_rename name

theorem bareSize (handle : Handle) : two.bareSize (name handle) = one.bareSize handle := by
  unfold Heap.bareSize
  rw [mirrors.payloads]
  cases one.payload? handle with
  | none => rfl
  | some payload => exact payload.bareSize_rename name

theorem silent (silent : one.Silent) : two.Silent := by
  intro weakref
  obtain ⟨source, rfl⟩ := name.surjective weakref
  unfold callback?
  rw [mirrors.payloads]
  cases found : one.payload? source with
  | none => rfl
  | some payload =>
    rw [Option.map_some, Option.bind_some, Payload.callbackOf_rename, silent.callbackOf found]
    rfl

/-- The references between entries are the renamed ones. -/
theorem edges : (two.edges : Multiset Handle) = (one.edges : Multiset Handle).map name := by
  refine Multiset.ext.mpr fun target => ?_
  obtain ⟨handle, rfl⟩ := name.surjective target
  rw [Multiset.count_map_eq_count' name _ name.injective, Multiset.coe_count, Multiset.coe_count,
    count_edges_eq_finsum, count_edges_eq_finsum, ← finsum_comp_equiv name]
  refine finsum_congr fun place => ?_
  rw [mirrors.visits, List.count_map_of_injective _ _ name.injective]

theorem length_edges : two.edges.length = one.edges.length := by
  have same := congrArg Multiset.card mirrors.edges
  rwa [Multiset.card_map, Multiset.coe_card, Multiset.coe_card] at same

theorem refers_iff {source target : Handle} :
    two.Refers (name source) (name target) ↔ one.Refers source target := by
  unfold Refers
  rw [mirrors.visits, List.mem_map_of_injective name.injective]

theorem sustained_iff :
    two.Sustained (outside.map name) (name handle) ↔ one.Sustained outside handle := by
  have leads_iff (source target : Handle) :
      two.Leads (name source) (name target) ↔ one.Leads source target := by
    constructor
    · -- Every slot that is passed on the way has a name.
      intro leads
      generalize there : name target = image at leads
      induction leads generalizing target with
      | refl => exact name.injective there ▸ .refl
      | @tail between _ _ refers inductionHypothesis =>
        obtain ⟨middle, rfl⟩ := name.surjective between
        subst there
        exact (inductionHypothesis middle rfl).tail (mirrors.refers_iff.mp refers)
    · exact fun leads => leads.lift name fun _ _ => mirrors.refers_iff.mpr
  constructor
  · rintro ⟨image, member, leads⟩
    obtain ⟨root, inside, rfl⟩ := Multiset.mem_map.mp member
    exact ⟨root, inside, (leads_iff root handle).mp leads⟩
  · rintro ⟨root, inside, leads⟩
    exact ⟨name root, Multiset.mem_map_of_mem name inside, (leads_iff root handle).mpr leads⟩

/-- When the same entries are gone from both heaps, the others still mirror each other. -/
theorem payloads_of_gone (gone goneImage : Handle → Prop) [DecidablePred gone]
    [DecidablePred goneImage] (same : ∀ handle, goneImage (name handle) ↔ gone handle)
    (first : ∀ handle, later.payload? handle = if gone handle then none
      else (one.payload? handle).map (Payload.without fun other => decide (gone other)))
    (second : ∀ handle, last.payload? handle = if goneImage handle then none
      else (two.payload? handle).map (Payload.without fun other => decide (goneImage other)))
    (handle : Handle) :
    last.payload? (name handle) = (later.payload? handle).map (Payload.rename name) := by
  rw [first, second, if_congr (same handle) rfl rfl]
  split
  · rfl
  · rw [mirrors.payloads, Option.map_map, Option.map_map]
    refine congrArg (Option.map · _) (funext fun payload => ?_)
    exact Payload.without_rename fun other => by rw [decide_eq_decide.mpr (same other)]

/-- The entries of each kind are as many. -/
theorem kinds_perm : (two.payloads.map Payload.kind).Perm (one.payloads.map Payload.kind) := by
  have slots : two.liveHandles.Perm (one.liveHandles.map name) := by
    refine (List.perm_ext_iff_of_nodup two.nodup_liveHandles
      (one.nodup_liveHandles.map name.injective)).mpr fun image => ?_
    obtain ⟨handle, rfl⟩ := name.surjective image
    rw [List.mem_map_of_injective name.injective, mem_liveHandles, mem_liveHandles, mirrors.isLive]
  have kinds : (one.liveHandles.map name).filterMap (fun handle => (two.payload? handle).map Payload.kind) =
      one.liveHandles.filterMap fun handle => (one.payload? handle).map Payload.kind := by
    rw [List.filterMap_map]
    refine List.filterMap_congr fun handle _ => ?_
    rw [Function.comp_apply, mirrors.payloads, Option.map_map]
    exact congrArg (Option.map · _) (funext fun payload => payload.kind_rename name)
  rw [payloads_eq_filterMap, payloads_eq_filterMap, List.map_filterMap, List.map_filterMap, ← kinds]
  exact slots.filterMap _

/-! ### What heaps answer -/

/-- The whole heap is reflected. -/
theorem reflects : one.Reflects name Set.univ two :=
  ⟨fun handle _ => mirrors.payloads handle, fun _ _ _ _ _ _ => trivial⟩

theorem typeName (value : Value) : two.typeName (value.rename name) = one.typeName value :=
  mirrors.reflects.typeName fun _ _ => trivial

theorem referable? (value : Value) :
    two.referable? (value.rename name) = (one.referable? value).map (Option.map name) := by
  unfold Heap.referable?
  rw [mirrors.reflects.readValue fun _ _ => trivial]
  cases one.readValue value with
  | error fault => rfl
  | ok found =>
    cases found with
    | none => rfl
    | some payload =>
      show Except.ok (if (payload.rename name).isReferable then _ else none) =
        Except.ok (Option.map name (if payload.isReferable then value.handle? else none))
      rw [Payload.isReferable_rename, value.handle?_rename]
      split <;> rfl

end Mirrors

namespace Couples

variable (couples : one.Couples name outside two)

include couples

/-- As many references are counted. -/
theorem tally (handle : Handle) : two.tally (name handle) = one.tally handle := by
  have edges := congrArg (Multiset.count (name handle)) couples.edges
  rw [Multiset.count_map_eq_count' name _ name.injective, Multiset.coe_count,
    Multiset.coe_count] at edges
  rw [couples.sound.balanced.exact, couples.image.balanced.exact, edges, couples.pending,
    List.count_map_of_injective _ _ name.injective,
    Multiset.count_map_eq_count' name _ name.injective]

/-- Every entry is the renamed entry, with the same count. -/
theorem occupants (handle : Handle) :
    two.occupant? (name handle) = (one.occupant? handle).map (Entry.rename name) := by
  have payloads := couples.payloads handle
  have tallies := couples.tally handle
  rw [payload?_eq, payload?_eq] at payloads
  cases found : one.occupant? handle with
  | none =>
    rw [found] at payloads
    exact Option.map_eq_none_iff.mp payloads
  | some entry =>
    rw [found] at payloads
    obtain ⟨other, held, same⟩ := Option.map_eq_some_iff.mp payloads
    rw [tally_of_occupant? found, tally_of_occupant? held] at tallies
    rw [held, Option.map_some]
    exact congrArg some (congrArg₂ Entry.mk tallies same)

/-! ### Releases -/

/-- When one reference is given up in both heaps, they still mirror each other. -/
theorem lessens (first : one.Lessens place later) (second : two.Lessens (name place) last) :
    later.Mirrors name last := by
  have tallies := couples.tally place
  have releasing := second.releasing.trans (couples.releasing.trans first.releasing.symm)
  cases first with
  | @counted entry held more =>
    cases second with
    | counted otherHeld otherMore =>
      refine ⟨fun handle => ?_, couples.pending, releasing, couples.meters⟩
      rw [one.payload?_mapEntry_count place handle (· - 1),
        two.payload?_mapEntry_count (name place) (name handle) (· - 1)]
      exact couples.payloads handle
    | freed otherHeld last frees =>
      rw [tally_of_occupant? held, tally_of_occupant? otherHeld] at tallies
      omega
  | @freed entry cleared held few frees =>
    cases second with
    | counted otherHeld otherMore =>
      rw [tally_of_occupant? held, tally_of_occupant? otherHeld] at tallies
      omega
    | @freed image clearedImage heldImage fewImage freesImage =>
      have same : image.payload = entry.payload.rename name := by
        have payloads := couples.occupants place
        rw [held, heldImage] at payloads
        exact congrArg Entry.payload (Option.some.inj payloads)
      have waits : cleared.pending = one.pending := (congrArg Heap.pending frees.books :)
      have waitsImage : clearedImage.pending = two.pending :=
        (congrArg Heap.pending freesImage.books :)
      have tracked : cleared.meters = { one.meters with
          tracker := one.tracker.credit (UInt64.ofNat entry.payload.size) } :=
        (congrArg Heap.meters frees.books :)
      have trackedImage : clearedImage.meters = { two.meters with
          tracker := two.tracker.credit (UInt64.ofNat image.payload.size) } :=
        (congrArg Heap.meters freesImage.books :)
      refine ⟨couples.payloads_of_gone (· = place) (· = name place)
        (fun handle => name.apply_eq_iff_eq) frees.payload?_bury freesImage.payload?_bury, ?_,
        releasing, ?_⟩
      · rw [pending_bury, pending_bury, waits, waitsImage, same, couples.pending,
          Payload.leavings_rename]
      · rw [meters_bury, meters_bury, tracked, trackedImage, couples.meters, same,
          Payload.size_rename, show two.tracker = one.tracker from congrArg Meters.tracker couples.meters]

/-! ### Collections -/

/-- A collection removes the same entries from both heaps. -/
theorem removed_perm {removed removedImage : List Handle}
    (first : one.Collects outside removed later)
    (second : two.Collects (outside.map name) removedImage last) :
    removedImage.Perm (removed.map name) := by
  refine (List.perm_ext_iff_of_nodup second.distinct
    (first.distinct.map name.injective)).mpr fun image => ?_
  obtain ⟨handle, rfl⟩ := name.surjective image
  rw [List.mem_map_of_injective name.injective, first.unreached, second.unreached, couples.isLive,
    couples.sustained_iff]

/-- When cycles are collected in both heaps, they still mirror each other. -/
theorem collects {removed removedImage : List Handle}
    (first : one.Collects outside removed later)
    (second : two.Collects (outside.map name) removedImage last) : later.Mirrors name last := by
  have same := couples.removed_perm first second
  have member (handle : Handle) : name handle ∈ removedImage ↔ handle ∈ removed :=
    same.mem_iff.trans (List.mem_map_of_injective name.injective)
  refine ⟨couples.payloads_of_gone (· ∈ removed) (· ∈ removedImage) member first.payloads
    second.payloads, ?_, second.idle.trans first.idle.symm, ?_⟩
  · rw [first.settled, second.settled]
    rfl
  · have weights : (removedImage.map two.bareSize).Perm (removed.map one.bareSize) := by
      refine (same.map two.bareSize).trans (List.Perm.of_eq ?_)
      rw [List.map_map]
      exact List.map_congr_left fun handle _ => couples.bareSize handle
    rw [first.meters, second.meters, Tracker.creditAll_perm weights,
      show two.tracker = one.tracker from congrArg Meters.tracker couples.meters,
      show two.nextCounter = one.nextCounter from congrArg Meters.nextCounter couples.meters]

end Couples

end Heap

end ObjectHeap
