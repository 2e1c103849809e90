/-
This file compares two heaps of which one may have lost more than the other one. What is sustained
from outside is in both heaps, in renamed slots and with renamed contents. What is not sustained any
more may still be in one heap and be gone from the other one, or be in neither. No heap has weak
references, so that it does not show in what is left which other entries are gone.
-/

import ObjectHeap.Proofs.Dispatch
import ObjectHeap.Proofs.Shedding

namespace ObjectHeap

variable {Code : Type}

namespace Heap

variable {heap before after one two later last : Heap Code} {name : Equiv.Perm Handle}
  {outside others mine : Multiset Handle} {limbo : List Handle} {place image handle : Handle}
  {payload : Payload Code}

/-! ### Heaps without weak references -/

/-- No entry refers weakly to another one. -/
def Aimless (heap : Heap Code) : Prop :=
  ∀ handle, heap.target? handle = none

namespace Aimless

theorem target? (aimless : heap.Aimless) (held : heap.payload? place = some payload) :
    payload.target? = none :=
  (target?_of_payload? held).symm.trans (aimless place)

/-- What is nowhere referred to weakly has nothing registered. -/
theorem watchers (aimless : heap.Aimless) (sound : heap.Sound outside limbo)
    (held : heap.payload? place = some payload) : payload.watchers = [] := by
  refine List.eq_nil_iff_forall_not_mem.mpr fun weakref member => ?_
  have aimed := (sound.watched.registered weakref place).mpr (by
    unfold Heap.watchers
    rw [held]
    exact member)
  rw [aimless] at aimed
  cases aimed

theorem of_payloads (aimless : before.Aimless)
    (same : ∀ handle, after.payload? handle = before.payload? handle) : after.Aimless := by
  intro handle
  unfold Heap.target?
  rw [same]
  exact aimless handle

theorem admits (aimless : before.Aimless) (admits : before.Admits payload place after)
    (untargeted : payload.target? = none) : after.Aimless := fun handle => by
  by_cases here : handle = place
  · rw [here, target?_of_payload? admits.payload?_here, untargeted]
  · unfold Heap.target?
    rw [admits.payload?_others here]
    exact aimless handle

theorem grown {grown : Payload Code} (aimless : heap.Aimless)
    (held : heap.payload? place = some payload) (grows : payload.Grows grown) :
    (heap.mapPayload place fun _ => grown).Aimless := fun handle => by
  unfold Heap.target?
  rw [payload?_grown held]
  split
  · exact grows.target.trans (aimless.target? held)
  · exact aimless handle

end Aimless

/-- What is left of a heap that sheds entries is what it was. -/
theorem Sheds.payload?_of_isLive (sheds : before.Sheds after) (aimless : before.Aimless)
    (sound : before.Sound outside limbo) (live : after.isLive handle) :
    after.payload? handle = before.payload? handle := by
  obtain ⟨gone, payloads⟩ := sheds.payloads
  rw [isLive_eq_payload?, payloads] at live
  rw [payloads]
  split at live
  · cases live
  · rename_i spared
    rw [if_neg spared]
    cases held : before.payload? handle with
    | none => rfl
    | some payload =>
      refine congrArg some (Payload.without_of_spared (fun weakref member => ?_) fun target aimed => ?_)
      · rw [aimless.watchers sound held] at member
        cases member
      · rw [aimless.target? held] at aimed
        cases aimed

theorem Sheds.aimless (sheds : before.Sheds after) (aimless : before.Aimless)
    (sound : before.Sound outside limbo) : after.Aimless := fun handle => by
  cases held : after.payload? handle with
  | none =>
    unfold Heap.target?
    rw [held]
    rfl
  | some payload =>
    have same := sheds.payload?_of_isLive aimless sound (isLive_of_payload? held)
    rw [target?_of_payload? held]
    exact aimless.target? (same.symm.trans held)

/-! ### Heaps that count alike -/

/-- Two heaps have counted alike so far, and accept and refuse the same. Neither of them has a limit on
memory, where it would show what is still there. -/
structure Alike (one two : Heap Code) : Prop where
  counter : two.nextCounter = one.nextCounter
  allocations : two.tracker.allocations = one.tracker.allocations
  limit : two.tracker.limits.maxAllocations = one.tracker.limits.maxAllocations
  unlimited : one.tracker.limits.maxMemory = none
  unlimitedImage : two.tracker.limits.maxMemory = none

namespace Alike

theorem sheds (alike : one.Alike two) (first : one.Sheds later) (second : two.Sheds last) :
    later.Alike last where
  counter := by rw [first.counter, second.counter, alike.counter]
  allocations := by rw [first.allocations, second.allocations, alike.allocations]
  limit := by rw [first.limits, second.limits, alike.limit]
  unlimited := by rw [first.limits, alike.unlimited]
  unlimitedImage := by rw [second.limits, alike.unlimitedImage]

/-- Both trackers record an allocation, or both refuse it for the same reason. -/
theorem charge (alike : one.Alike two) (size : UInt64) :
    (one.tracker.charge size = .ok (one.tracker.record size) ∧
      two.tracker.charge size = .ok (two.tracker.record size)) ∨
    ∃ exceeded, one.tracker.charge size = .error exceeded ∧
      two.tracker.charge size = .error exceeded := by
  have refusal : two.tracker.allocationRefusal? = one.tracker.allocationRefusal? := by
    unfold Tracker.allocationRefusal?
    rw [alike.limit, alike.allocations]
  have enough : one.tracker.memoryRefusal? size = none := by
    unfold Tracker.memoryRefusal?
    rw [alike.unlimited]
  have enoughImage : two.tracker.memoryRefusal? size = none := by
    unfold Tracker.memoryRefusal?
    rw [alike.unlimitedImage]
  unfold Tracker.charge
  rw [refusal, enough, enoughImage]
  cases one.tracker.allocationRefusal? with
  | none => exact Or.inl ⟨rfl, rfl⟩
  | some exceeded => exact Or.inr ⟨exceeded, rfl, rfl⟩

end Alike

/-! ### Heaps that echo each other -/

/-- Two heaps at rest have the same sustained entries, in renamed slots. -/
structure Echoes (one : Heap Code) (name : Equiv.Perm Handle) (outside : Multiset Handle)
    (two : Heap Code) : Prop extends one.Alike two where
  rest : one.AtRest outside
  image : two.AtRest (outside.map name)
  payloads : ∀ handle, one.Sustained outside handle →
    two.payload? (name handle) = (one.payload? handle).map (Payload.rename name)
  aimless : one.Aimless
  aimlessImage : two.Aimless

namespace Echoes

variable (echoes : one.Echoes name outside two)

include echoes

theorem congr (same : outside = others) : one.Echoes name others two := same ▸ echoes

theorem isLive (sustained : one.Sustained outside handle) : one.isLive handle :=
  echoes.rest.sound.balanced.isLive_of_sustained sustained

theorem areLive (sustained : ∀ handle ∈ mine, one.Sustained outside handle) :
    ∀ handle ∈ mine, one.isLive handle :=
  fun handle member => echoes.isLive (sustained handle member)

/-- What is sustained is in both heaps. -/
theorem exists_payload? (sustained : one.Sustained outside handle) : ∃ payload,
    one.payload? handle = some payload ∧ two.payload? (name handle) = some (payload.rename name) := by
  obtain ⟨payload, held⟩ := exists_payload?_of_isLive (echoes.isLive sustained)
  exact ⟨payload, held, (echoes.payloads handle sustained).trans (congrArg (Option.map _) held)⟩

theorem visits (sustained : one.Sustained outside handle) :
    two.visits (name handle) = (one.visits handle).map name := by
  unfold Heap.visits
  rw [echoes.payloads handle sustained]
  cases one.payload? handle with
  | none => rfl
  | some payload => exact payload.visits_rename name

/-- What is sustained in one heap is sustained in the other one. -/
theorem sustained_image (sustained : one.Sustained outside handle) :
    two.Sustained (outside.map name) (name handle) := by
  refine sustained.induction (fun root member => .of_mem (Multiset.mem_map_of_mem name member))
    fun source target before holds refers => holds.step ?_
  unfold Refers
  rw [echoes.visits before]
  exact List.mem_map_of_mem refers

/-- All that is sustained in the other heap is the image of something. -/
theorem covers (sustained : two.Sustained (outside.map name) image) :
    ∃ handle, one.Sustained outside handle ∧ name handle = image := by
  refine sustained.induction (fun root member => ?_) fun source target _ holds refers => ?_
  · obtain ⟨handle, inside, rfl⟩ := Multiset.mem_map.mp member
    exact ⟨handle, .of_mem inside, rfl⟩
  · obtain ⟨handle, before, rfl⟩ := holds
    unfold Refers at refers
    rw [echoes.visits before] at refers
    obtain ⟨next, member, rfl⟩ := List.mem_map.mp refers
    exact ⟨next, before.step member, rfl⟩

/-- The sustained entries correspond one to one. -/
theorem bijOn : Set.BijOn name {handle | one.Sustained outside handle}
    {handle | two.Sustained (outside.map name) handle} :=
  ⟨fun _ sustained => echoes.sustained_image sustained, name.injective.injOn,
    fun _ sustained => echoes.covers sustained⟩

/-- Everything that a sustained entry mentions is sustained. -/
theorem sustained_of_mentions (sustained : one.Sustained outside place)
    (held : one.payload? place = some payload) (member : handle ∈ payload.mentions) :
    one.Sustained outside handle := by
  have refers (source target : Handle) (derives : one.Derives source target) :
      one.Refers source target := by
    obtain ⟨data, found, base⟩ := derives
    exact refers_of_payload? found (List.mem_append_left _ base)
  unfold Payload.mentions at member
  rw [echoes.aimless.watchers echoes.rest.sound held, echoes.aimless.target? held, List.append_nil,
    Option.toList_none, List.append_nil, List.mem_append] at member
  rcases member with visited | inherited
  · exact sustained.of_owned held visited
  · cases payload with
    | type data =>
      obtain ⟨_, _, leads⟩ := echoes.rest.sound.leads_of_mem_lineage
        (mem_lineage.mpr ⟨data, held, Or.inr inherited⟩)
      obtain ⟨root, inside, before⟩ := sustained
      exact ⟨root, inside, before.trans (Relation.ReflTransGen.mono refers _ _ leads)⟩
    | _ => cases inherited

/-- What is sustained is reflected in the other heap. -/
theorem reflects : one.Reflects name {handle | one.Sustained outside handle} two where
  payloads := echoes.payloads
  closed _ sustained _ held _ member := echoes.sustained_of_mentions sustained held member

/-! ### Changes that keep the echo -/

/-- Both heaps shed entries, and less may be owned from outside then. -/
theorem sheds (first : one.Sheds later) (second : two.Sheds last) (rest : later.AtRest others)
    (image : last.AtRest (others.map name)) (fewer : others ⊆ outside) :
    later.Echoes name others last := by
  -- What is still sustained was sustained before, and its image is still there.
  have remains (handle : Handle) (sustained : later.Sustained others handle) :
      one.Sustained outside handle ∧ last.isLive (name handle) := by
    refine sustained.induction (fun root member => ⟨.of_mem (fewer member),
      image.sound.balanced.isLive_of_mem (Or.inl (Multiset.mem_map_of_mem name member))⟩) ?_
    rintro source target before ⟨holds, live⟩ refers
    have same := first.payload?_of_isLive echoes.aimless echoes.rest.sound
      (rest.sound.balanced.isLive_of_sustained before)
    have sameImage := second.payload?_of_isLive echoes.aimlessImage echoes.image.sound live
    have step : one.Refers source target := by
      unfold Refers Heap.visits at refers ⊢
      rwa [same] at refers
    have stepImage : last.Refers (name source) (name target) := by
      have visits := echoes.visits holds
      unfold Refers Heap.visits at *
      rw [sameImage, visits]
      exact List.mem_map_of_mem step
    exact ⟨holds.step step, image.sound.balanced.isLive_of_refers stepImage⟩
  exact {
    toAlike := echoes.toAlike.sheds first second
    rest, image
    payloads := fun handle sustained => by
      obtain ⟨before, live⟩ := remains handle sustained
      rw [second.payload?_of_isLive echoes.aimlessImage echoes.image.sound live,
        first.payload?_of_isLive echoes.aimless echoes.rest.sound
          (rest.sound.balanced.isLive_of_sustained sustained)]
      exact echoes.payloads handle before
    aimless := first.aimless echoes.aimless echoes.rest.sound
    aimlessImage := second.aimless echoes.aimlessImage echoes.image.sound }

/-- All entries stay as they are in both heaps, and what is owned then was sustained before. -/
theorem of_payloads (alike : later.Alike last) (rest : later.AtRest others)
    (image : last.AtRest (others.map name))
    (same : ∀ handle, later.payload? handle = one.payload? handle)
    (sameImage : ∀ handle, last.payload? handle = two.payload? handle)
    (roots : ∀ root ∈ others, one.Sustained outside root) : later.Echoes name others last where
  toAlike := alike
  rest := rest
  image := image
  payloads handle sustained := by
    rw [same, sameImage]
    refine echoes.payloads handle (sustained.of_unchanged roots fun source _ _ => ?_)
    unfold Heap.visits
    rw [same]
  aimless := echoes.aimless.of_payloads same
  aimlessImage := echoes.aimlessImage.of_payloads sameImage

/-- One more reference is taken to what is sustained. -/
theorem increment (sustained : one.Sustained outside place) :
    (one.increment place).Echoes name (outside + {place}) (two.increment (name place)) := by
  have liveImage := echoes.image.sound.balanced.isLive_of_sustained (echoes.sustained_image sustained)
  refine echoes.of_payloads ⟨echoes.counter, echoes.allocations, echoes.limit, echoes.unlimited,
    echoes.unlimitedImage⟩ (echoes.rest.increment (echoes.isLive sustained)) ?_
    (one.payload?_increment place) (two.payload?_increment (name place)) fun root member => ?_
  · rw [Multiset.map_add, Multiset.map_singleton]
    exact echoes.image.increment liveImage
  · rcases Multiset.mem_add.mp member with old | new
    · exact .of_mem old
    · exact Multiset.mem_singleton.mp new ▸ sustained

/-- What a payload is made of is sustained if the payload owns it, and so is all that the payload
mentions. -/
theorem sustained_of_founded (founded : payload.Founded one) (unwatched : payload.watchers = [])
    (aimless : payload.target? = none)
    (owned : ∀ handle ∈ payload.owns, one.Sustained outside handle)
    (member : handle ∈ payload.mentions) : one.Sustained outside handle := by
  unfold Payload.mentions at member
  rw [unwatched, aimless, List.append_nil, Option.toList_none, List.append_nil,
    List.mem_append] at member
  rcases member with visited | inherited
  · exact owned handle visited
  · cases payload with
    | type data =>
      obtain ⟨types, same⟩ := founded
      have inherited : handle ∈ data.ancestors := inherited
      rw [same, List.mem_eraseDups, List.mem_flatMap] at inherited
      obtain ⟨base, member, passed⟩ := inherited
      have sustained : one.Sustained outside base := owned base (by simp [member])
      obtain ⟨ancestor, there, rfl | further⟩ := mem_lineage.mp passed
      · exact sustained
      · exact echoes.sustained_of_mentions sustained there (by simp [Payload.mentions, further])
    | _ => cases inherited

/-- An empty slot is not sustained. -/
theorem ne_of_empty (empty : one.occupant? place = none) (sustained : one.Sustained outside handle) :
    handle ≠ place := by
  rintro rfl
  have live := echoes.isLive sustained
  rw [isLive_eq, empty] at live
  cases live

theorem image_ne_of_empty (empty : two.occupant? image = none)
    (sustained : one.Sustained outside handle) : name handle ≠ image := by
  rintro rfl
  have live := echoes.image.sound.balanced.isLive_of_sustained (echoes.sustained_image sustained)
  rw [isLive_eq, empty] at live
  cases live

/-- When empty slots are made to correspond, what is sustained keeps its name. -/
theorem reassign_of_sustained (empty : one.occupant? place = none)
    (emptyImage : two.occupant? image = none) (sustained : one.Sustained outside handle) :
    reassign name place image handle = name handle :=
  reassign_apply_of_ne name (echoes.ne_of_empty empty sustained)
    (echoes.image_ne_of_empty emptyImage sustained)

end Echoes

/-- A payload is placed in an empty slot of each heap, and the two slots correspond from then on. -/
theorem Echoes.admits (echoes : one.Echoes name (outside + payload.owns) two)
    (first : one.Admits payload place later) (second : two.Admits (payload.rename name) image last)
    (meters : later.meters = one.meters) (metersImage : last.meters = two.meters)
    (founded : payload.Founded one) (unwatched : payload.watchers = [])
    (aimless : payload.target? = none) (quiet : callbackOf payload = none) :
    later.Echoes (reassign name place image) (outside + {place}) last := by
  have owned (handle : Handle) (member : handle ∈ payload.owns) :
      one.Sustained (outside + payload.owns) handle :=
    .of_mem (Multiset.mem_add.mpr (Or.inr member))
  have kept (handle : Handle) (sustained : one.Sustained (outside + payload.owns) handle) :=
    echoes.reassign_of_sustained first.empty second.empty sustained
  have mapped : (outside + {place}).map (reassign name place image) = outside.map name + {image} := by
    rw [Multiset.map_add, Multiset.map_singleton, reassign_apply_self]
    exact congrArg (· + _) (Multiset.map_congr rfl fun handle member =>
      kept handle (.of_mem (Multiset.mem_add.mpr (Or.inl member))))
  -- What is sustained now is the new entry or was sustained before.
  have older (handle : Handle) (sustained : later.Sustained (outside + {place}) handle) :
      handle = place ∨ one.Sustained (outside + payload.owns) handle :=
    first.eq_or_sustained echoes.rest.sound.balanced (fun _ member => member)
      (fun _ member => Multiset.mem_add.mpr (Or.inr member))
      (fun root member => (Multiset.mem_add.mp member).symm.imp Multiset.mem_singleton.mp
        fun old => Multiset.mem_add.mpr (Or.inl old)) sustained
  have foundedImage := echoes.reflects.founded owned founded
  exact {
    counter := (congrArg Meters.nextCounter metersImage).trans
      (echoes.counter.trans (congrArg Meters.nextCounter meters).symm)
    allocations := by rw [first.tracker, second.tracker, echoes.allocations]
    limit := by rw [first.tracker, second.tracker, echoes.limit]
    unlimited := by rw [first.tracker, echoes.unlimited]
    unlimitedImage := by rw [second.tracker, echoes.unlimitedImage]
    rest := echoes.rest.admits first founded unwatched aimless quiet
    image := by
      rw [mapped]
      refine (echoes.image.congr ?_).admits second foundedImage
        (by rw [Payload.watchers_rename, unwatched]; rfl)
        (by rw [Payload.target?_rename, aimless]; rfl)
        (by rw [Payload.callbackOf_rename, quiet]; rfl)
      rw [Multiset.map_add, Payload.owns_rename]
    payloads := fun handle sustained => by
      rcases older handle sustained with rfl | before
      · rw [reassign_apply_self, first.payload?_here, second.payload?_here]
        refine congrArg some (Payload.rename_congr fun other member => (kept other ?_).symm)
        exact echoes.sustained_of_founded founded unwatched aimless owned member
      · rw [kept handle before, first.payload?_others (echoes.ne_of_empty first.empty before),
          second.payload?_others (echoes.image_ne_of_empty second.empty before),
          echoes.payloads handle before]
        cases held : one.payload? handle with
        | none => rfl
        | some found =>
          refine congrArg some (Payload.rename_congr fun other member => (kept other ?_).symm)
          exact echoes.sustained_of_mentions before held member
    aimless := echoes.aimless.admits first aimless
    aimlessImage := echoes.aimlessImage.admits second (by rw [Payload.target?_rename, aimless]; rfl) }

/-- A sustained payload grows in both heaps. -/
theorem Echoes.exchange {grown : Payload Code} (echoes : one.Echoes name (outside + mine) two)
    (sustained : one.Sustained (outside + mine) place) (held : one.payload? place = some payload)
    (grows : payload.Grows grown) (traded : grown.owns + others = payload.owns + mine) :
    (one.mapPayload place fun _ => grown).Echoes name (outside + others)
      (two.mapPayload (name place) fun _ => grown.rename name) := by
  have heldImage : two.payload? (name place) = some (payload.rename name) :=
    (echoes.payloads place sustained).trans (congrArg (Option.map _) held)
  have tradedImage : (grown.rename name).owns + others.map name =
      (payload.rename name).owns + mine.map name := by
    rw [Payload.owns_rename, Payload.owns_rename, ← Multiset.map_add, traded, Multiset.map_add]
  have among (handle : Handle) (member : handle ∈ grown.owns + others) :
      one.Sustained (outside + mine) handle := by
    rw [traded] at member
    rcases Multiset.mem_add.mp member with inside | handed
    · exact sustained.of_owned held inside
    · exact .of_mem (Multiset.mem_add.mpr (Or.inr handed))
  have older (handle : Handle)
      (after : (one.mapPayload place fun _ => grown).Sustained (outside + others) handle) :
      one.Sustained (outside + mine) handle := by
    refine .of_grown held (fun root member => ?_)
      (fun target member => among target (Multiset.mem_add.mpr (Or.inl member))) after
    rcases Multiset.mem_add.mp member with old | new
    · exact .of_mem (Multiset.mem_add.mpr (Or.inl old))
    · exact among root (Multiset.mem_add.mpr (Or.inr new))
  exact {
    counter := echoes.counter
    allocations := echoes.allocations
    limit := echoes.limit
    unlimited := echoes.unlimited
    unlimitedImage := echoes.unlimitedImage
    rest := echoes.rest.exchange held grows traded
    image := by
      rw [Multiset.map_add]
      exact (echoes.image.congr (Multiset.map_add _ _ _)).exchange heldImage (grows.rename name)
        tradedImage
    payloads := fun handle after => by
      rw [payload?_grown held, payload?_grown heldImage, if_congr name.apply_eq_iff_eq rfl rfl]
      split
      · rfl
      · exact echoes.payloads handle (older handle after)
    aimless := echoes.aimless.grown held grows
    aimlessImage := echoes.aimlessImage.grown heldImage (grows.rename name) }

end Heap

end ObjectHeap
