/-
This file lets an entry be born in two heaps that mirror each other. The two slots need not
correspond so far, since neither heap says which slot of the other one is free. The renaming is
changed so that they do: what was renamed to the slot in the second heap, which was empty, is
renamed to where the slot in the first heap, which was empty as well, used to lead. For everything
that was live nothing changes, and nothing else is mentioned in an entry.
-/

import ObjectHeap.Proofs.Tandem

namespace ObjectHeap

variable {Code Host : Type}

/-- A renaming that takes a slot to another image, and what had that image to the former one. -/
def reassign (name : Equiv.Perm Handle) (place image : Handle) : Equiv.Perm Handle :=
  name.trans (Equiv.swap (name place) image)

section

variable (name : Equiv.Perm Handle) {place image handle : Handle}

theorem reassign_apply_self : reassign name place image place = image := by
  rw [reassign, Equiv.trans_apply, Equiv.swap_apply_left]

theorem reassign_ne (different : handle ≠ place) : reassign name place image handle ≠ image :=
  fun there => different
    ((reassign name place image).injective (there.trans (reassign_apply_self name).symm))

theorem reassign_apply_of_ne (different : handle ≠ place) (unlike : name handle ≠ image) :
    reassign name place image handle = name handle := by
  rw [reassign, Equiv.trans_apply]
  exact Equiv.swap_apply_of_ne_of_ne (name.injective.ne different) unlike

end

namespace Heap

variable {one two later last : Heap Code} {name : Equiv.Perm Handle}
  {outside : Multiset Handle} {place image handle : Handle} {payload : Payload Code}

/-! ### What an entry mentions -/

/-- Everything that a live entry mentions is live. -/
theorem Sound.isLive_of_mentions {limbo : List Handle} (sound : one.Sound outside limbo)
    (held : one.payload? place = some payload) (member : handle ∈ payload.mentions) :
    one.isLive handle := by
  unfold Payload.mentions at member
  rw [List.mem_append, List.mem_append, List.mem_append, or_assoc, or_assoc] at member
  have registered := sound.watched.registered
  rcases member with visited | watching | aimed | inherited
  · exact sound.balanced.isLive_of_visits held visited
  · have aimed := (registered handle place).mpr (by rwa [watchers_of_payload? held])
    unfold Heap.target? at aimed
    obtain ⟨weakref, there, _⟩ := Option.bind_eq_some_iff.mp aimed
    rw [isLive_eq_payload?, there]
    rfl
  · have watching := (registered place handle).mp (by
      rw [target?_of_payload? held]
      exact Option.mem_toList.mp aimed)
    unfold Heap.watchers at watching
    cases there : one.payload? handle with
    | none =>
      rw [there] at watching
      cases watching
    | some target =>
      rw [isLive_eq_payload?, there]
      rfl
  · cases payload with
    | type data =>
      obtain ⟨_, there⟩ := sound.formed.isType_of_mem_ancestors sound.balanced held inherited
      rw [isLive_eq_payload?, there]
      rfl
    | _ => cases inherited

/-- What a new entry is made of is live, and so is everything else that it mentions, unless it is
registered or refers weakly already. -/
theorem Sound.isLive_of_founded {limbo : List Handle} (sound : one.Sound outside limbo)
    (founded : payload.Founded one) (lives : ∀ handle ∈ payload.owns, one.isLive handle)
    (unwatched : payload.watchers = []) (aimless : payload.target? = none)
    (member : handle ∈ payload.mentions) : one.isLive handle := by
  unfold Payload.mentions at member
  rw [unwatched, aimless, List.append_nil, Option.toList_none, List.append_nil,
    List.mem_append] at member
  rcases member with visited | inherited
  · exact lives handle visited
  · cases payload with
    | type data =>
      obtain ⟨types, same⟩ := founded
      have inherited : handle ∈ data.ancestors := inherited
      rw [same, List.mem_eraseDups, List.mem_flatMap] at inherited
      obtain ⟨base, _, passed⟩ := inherited
      obtain ⟨ancestor, there, rfl | further⟩ := mem_lineage.mp passed
      · rw [isLive_eq_payload?, there]
        rfl
      · obtain ⟨_, found⟩ := sound.formed.isType_of_mem_ancestors sound.balanced there further
        rw [isLive_eq_payload?, found]
        rfl
    | _ => cases inherited

/-! ### The two slots -/

namespace Mirrors

variable (mirrors : one.Mirrors name two) (empty : one.payload? place = none)
  (emptyImage : two.payload? image = none)

include mirrors empty emptyImage

/-- What is live keeps its name. -/
theorem reassign_of_isLive (live : one.isLive handle) : reassign name place image handle = name handle := by
  refine reassign_apply_of_ne name ?_ ?_
  · rintro rfl
    rw [isLive_eq_payload?, empty] at live
    cases live
  · intro same
    rw [← mirrors.isLive, same, isLive_eq_payload?, emptyImage] at live
    cases live

/-- With the slots reassigned the heaps mirror each other as before. -/
theorem payloads_reassign
    (mentioned : ∀ source payload, one.payload? source = some payload →
      ∀ handle ∈ payload.mentions, one.isLive handle) (handle : Handle) :
    two.payload? (reassign name place image handle) =
      (one.payload? handle).map (Payload.rename (reassign name place image)) := by
  cases held : one.payload? handle with
  | some payload =>
    have live : one.isLive handle := by
      rw [isLive_eq_payload?, held]
      rfl
    rw [mirrors.reassign_of_isLive empty emptyImage live, mirrors.payloads, held]
    exact congrArg some (Payload.rename_congr fun other member =>
      (mirrors.reassign_of_isLive empty emptyImage (mentioned handle payload held other member)).symm)
  | none =>
    by_cases same : handle = place
    · rw [same, reassign_apply_self, emptyImage]
      rfl
    · by_cases there : name handle = image
      · have taken : reassign name place image handle = name place := by
          rw [reassign, Equiv.trans_apply, there, Equiv.swap_apply_right]
        rw [taken, mirrors.payloads, empty]
        rfl
      · rw [reassign_apply_of_ne name same there, mirrors.payloads, held]
        rfl

/-- Once an entry is placed in each of the two slots, they correspond. -/
theorem admits (first : one.Admits payload place later)
    (second : two.Admits (payload.rename name) image last)
    (meters : later.meters = one.meters) (metersImage : last.meters = two.meters)
    (settled : one.pending = [])
    (mentioned : ∀ source payload, one.payload? source = some payload →
      ∀ handle ∈ payload.mentions, one.isLive handle)
    (fresh : ∀ handle ∈ payload.mentions, one.isLive handle) :
    later.Mirrors (reassign name place image) last where
  payloads handle := by
    by_cases same : handle = place
    · rw [same, reassign_apply_self, first.payload?_here, second.payload?_here]
      exact congrArg some (Payload.rename_congr fun other member =>
        (mirrors.reassign_of_isLive empty emptyImage (fresh other member)).symm)
    · rw [first.payload?_others same, second.payload?_others (reassign_ne name same)]
      exact mirrors.payloads_reassign empty emptyImage mentioned handle
  pending := by
    rw [first.pending, second.pending, mirrors.pending, settled]
    rfl
  releasing := by rw [first.releasing, second.releasing, mirrors.releasing]
  meters := by rw [meters, metersImage, mirrors.meters]

omit empty emptyImage in
/-- What a payload is made of is there in both heaps. -/
theorem founded (founded : payload.Founded one) : (payload.rename name).Founded two :=
  mirrors.reflects.founded (fun _ _ => trivial) founded

end Mirrors

/-! ### An entry that is born -/

/-- An entry was born in each of two heaps, and whoever asked for it owns it. Nothing else came. -/
structure Bears (one : Heap Code) (name : Equiv.Perm Handle) (outside : Multiset Handle)
    (place image : Handle) (later last : Heap Code) : Prop where
  rests : later.Rests (reassign name place image) (outside + {place}) last
  fresh : place ∉ outside
  older : ∀ handle, later.isLive handle → handle ≠ place →
    one.isLive handle ∧ reassign name place image handle = name handle

/-- An entry with one reference is in its slot. -/
theorem Admits.sound {limbo : List Handle} (admits : one.Admits payload place later)
    (sound : one.Sound (outside + payload.owns) limbo) (founded : payload.Founded one)
    (unwatched : payload.watchers = []) (aimless : payload.target? = none) :
    later.Sound (outside + {place}) limbo where
  balanced := admits.balanced sound.balanced
  watched := admits.watched sound.watched aimless unwatched
  housed := admits.housed limbo sound.housed
  formed := admits.formed sound.balanced sound.formed founded

theorem Admits.silent (admits : one.Admits payload place later) (silent : one.Silent)
    (quiet : callbackOf payload = none) : later.Silent := by
  intro weakref
  by_cases same : weakref = place
  · unfold callback?
    rw [same, admits.payload?_here]
    exact quiet
  · unfold callback?
    rw [admits.payload?_others same]
    exact silent weakref

/-- A sound heap stands in the books of a host that keeps nothing. -/
theorem Sound.holds_blank {frame mine : Multiset Handle} {limbo : List Handle}
    (sound : one.Sound (frame + mine) limbo) (settled : one.releasing = false → one.pending = []) :
    (Engine.blankLedger : Ledger Code Unit).Holds { busy := one.releasing, limbo, frame }
      { heap := one, host := () } mine :=
  ⟨⟨sound.congr (add_zero _).symm, rfl, trivial⟩, settled, fun calm => absurd trivial calm⟩

/-- A weak reference without a callback is in its slot, and registered with its target. -/
theorem Admits.sound_register {target : Handle} {found : Payload Code}
    (admits : one.Admits (.weakref { target := some target, callback := none }) place later)
    (sound : one.Sound outside []) (settled : one.releasing = false → one.pending = [])
    (held : one.payload? target = some found) (referable : found.isReferable) :
    (later.register target place).Sound (outside + {place}) [] := by
  have holds := (sound.congr (add_zero outside).symm).holds_blank settled
  exact (holds.enroll rfl admits held referable).1.sound.congr (add_zero _)

theorem payload?_register (heap : Heap Code) (target weakref other : Handle) :
    (heap.register target weakref).payload? other =
      if other = target then (heap.payload? other).map (Payload.mapWatchers (· ++ [weakref]))
      else heap.payload? other := by
  rw [payload?_eq, payload?_eq, occupant?_register]
  split
  · rw [Option.map_map, Option.map_map]
    rfl
  · rfl

/-- Weak references are registered in both heaps. -/
theorem Mirrors.register (mirrors : one.Mirrors name two) (target weakref : Handle) :
    (one.register target weakref).Mirrors name (two.register (name target) (name weakref)) where
  payloads handle := by
    rw [payload?_register, payload?_register, if_congr name.apply_eq_iff_eq rfl rfl]
    split
    · rw [mirrors.payloads, Option.map_map, Option.map_map]
      refine congrArg (Option.map · _) (funext fun payload => Payload.mapWatchers_rename ?_)
      rw [List.map_append]
      rfl
    · exact mirrors.payloads handle
  pending := mirrors.pending
  releasing := mirrors.releasing
  meters := mirrors.meters

namespace Rests

variable (rests : one.Rests name (outside + payload.owns) two)
  (first : one.Admits payload place later) (second : two.Admits (payload.rename name) image last)

include rests first second

/-- What mirrors each other after the births, whatever was registered meanwhile, is at rest. -/
theorem bears_of_mirrors {born bornImage : Heap Code}
    (mirrors : born.Mirrors (reassign name place image) bornImage)
    (sound : born.Sound (outside + {place}) [])
    (soundImage : bornImage.Sound (outside.map name + {image}) []) (silent : born.Silent)
    (idle : born.releasing = false) (settled : born.pending = [])
    (same : ∀ handle, born.isLive handle = later.isLive handle) :
    one.Bears name outside place image born bornImage := by
  have kept (handle : Handle) (live : one.isLive handle) :
      reassign name place image handle = name handle :=
    rests.reassign_of_isLive first.payload?_empty second.payload?_empty live
  have owned (handle : Handle) (member : handle ∈ outside) : one.isLive handle :=
    rests.sound.balanced.isLive_of_mem (Or.inl (Multiset.mem_add.mpr (Or.inl member)))
  refine ⟨⟨⟨mirrors, sound, soundImage.congr ?_, silent⟩, idle, settled⟩, fun member => ?_,
    fun handle live different => ?_⟩
  · rw [Multiset.map_add, Multiset.map_singleton, reassign_apply_self]
    exact congrArg (· + _) (Multiset.map_congr rfl fun handle member =>
      (kept handle (owned handle member)).symm)
  · have live := owned place member
    rw [isLive_eq_payload?, first.payload?_empty] at live
    cases live
  · rw [same, isLive_congr (first.payload?_others different)] at live
    exact ⟨live, kept handle live⟩

/-- An entry that neither refers weakly nor is registered anywhere only has to be placed. -/
theorem bears (meters : later.meters = one.meters) (metersImage : last.meters = two.meters)
    (founded : payload.Founded one) (unwatched : payload.watchers = [])
    (aimless : payload.target? = none) (quiet : callbackOf payload = none) :
    one.Bears name outside place image later last := by
  have imageSound : two.Sound (outside.map name + (payload.rename name).owns) [] :=
    rests.image.congr (by rw [Multiset.map_add, Payload.owns_rename])
  have mirrors := rests.admits first.payload?_empty second.payload?_empty first second meters
    metersImage rests.settled (fun _ _ held _ member => rests.sound.isLive_of_mentions held member)
    fun _ member => rests.sound.isLive_of_founded founded
      (fun _ owned => rests.sound.balanced.isLive_of_mem (Or.inl (Multiset.mem_add.mpr (Or.inr owned))))
      unwatched aimless member
  refine rests.bears_of_mirrors first second mirrors
    (first.sound rests.sound founded unwatched aimless)
    (second.sound imageSound (rests.founded founded) ?_ ?_) (first.silent rests.silent quiet)
    (first.releasing.trans rests.idle) (first.pending.trans rests.settled) fun _ => rfl
  · rw [Payload.watchers_rename, unwatched, List.map_nil]
  · rw [Payload.target?_rename, aimless, Option.map_none]

end Rests

/-- A weak reference is registered with its target as soon as it is placed. -/
theorem Rests.bears_weakref {target : Handle} {found : Payload Code}
    (rests : one.Rests name outside two)
    (first : one.Admits (.weakref { target := some target, callback := none }) place later)
    (second : two.Admits (.weakref { target := some (name target), callback := none }) image last)
    (meters : later.meters = one.meters) (metersImage : last.meters = two.meters)
    (held : one.payload? target = some found) (referable : found.isReferable) :
    one.Bears name outside place image (later.register target place)
      (last.register (name target) image) := by
  have live : one.isLive target := by
    rw [isLive_eq_payload?, held]
    rfl
  have mirrors := rests.admits first.payload?_empty second.payload?_empty first second meters
    metersImage rests.settled (fun _ _ held _ member => rests.sound.isLive_of_mentions held member)
    fun other member => List.mem_singleton.mp member ▸ live
  have registered := mirrors.register target place
  rw [reassign_apply_self,
    rests.reassign_of_isLive first.payload?_empty second.payload?_empty live] at registered
  have paid : one.Rests name
      (outside + (Payload.weakref { target := some target, callback := none } : Payload Code).owns) two :=
    rests.congr (add_zero outside).symm
  refine paid.bears_of_mirrors first second registered
    (first.sound_register rests.sound (fun _ => rests.settled) held referable)
    (second.sound_register rests.image (fun _ => rests.settledImage)
      ((rests.payloads target).trans (congrArg _ held)) ?_) ?_
    (first.releasing.trans rests.idle) (first.pending.trans rests.settled)
    fun _ => later.isLive_mapPayload target _ _
  · rw [Payload.isReferable_rename]
    exact referable
  · intro weakref
    exact (callback?_mapPayload_mapWatchers later target _ weakref).trans
      (first.silent rests.silent rfl weakref)

end Heap

end ObjectHeap
