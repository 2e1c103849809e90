/-
This file establishes what it means for the heap that an entry dies. Its slot is empty and in
limbo, the references that it owned are left outside, the weak references to it are cleared, and
if it was a weak reference itself, it leaves the register of its target. Everything that others
still lead to stays as it is, except that weak references without a callback may have been
cleared.
-/

import ObjectHeap.Proofs.Ledger

namespace ObjectHeap.Heap

variable {Code : Type} {before after : Heap Code} {outside frame : Multiset Handle}
  {limbo : List Handle} {calm : Prop} {place : Handle} {entry : Entry Code}

/-! ### Changes that carry the frame along -/

/-- Nothing is born, and what the frame sustains stays alike. -/
theorem Carries.of_steady (births : ∀ handle, after.births handle = before.births handle)
    (lives : ∀ handle, after.isLive handle → before.isLive handle)
    (continues : ∀ handle payload later, before.payload? handle = some payload →
      after.payload? handle = some later → payload.Continues later)
    (alike : calm → ∀ handle payload, before.Sustained frame handle →
      before.payload? handle = some payload →
      ∃ later, after.payload? handle = some later ∧ payload.Alike later)
    (balanced : before.Balanced outside) (sub : frame ⊆ outside) :
    before.Carries calm frame after where
  evolves := .of_steady births lives continues
  kept handle _ := births handle
  remains still handle sustained := by
    obtain ⟨payload, held⟩ :=
      exists_payload?_of_isLive (balanced.isLive_of_sustained (sustained.mono sub))
    obtain ⟨later, reached, same⟩ := alike still handle payload sustained held
    exact ⟨births handle, payload, later, held, reached, same⟩

/-- All payloads stay what they are. -/
theorem Carries.of_payloads (births : ∀ handle, after.births handle = before.births handle)
    (payloads : ∀ handle, after.payload? handle = before.payload? handle)
    (balanced : before.Balanced outside) (sub : frame ⊆ outside) :
    before.Carries calm frame after := by
  refine .of_steady births (fun handle live => ?_) (fun handle payload later held reached => ?_)
    (fun _ handle payload _ held => ?_) balanced sub
  · rwa [isLive_congr (payloads handle)] at live
  · rw [payloads, held] at reached
    cases reached
    exact .refl payload
  · exact ⟨payload, (payloads handle).trans held, .refl payload⟩

/-- Nothing but the books changes. -/
theorem Carries.of_slots (slots : after.slots = before.slots) (balanced : before.Balanced outside)
    (sub : frame ⊆ outside) : before.Carries calm frame after :=
  .of_payloads (births_congr slots) (fun handle => payload?_congr (occupant?_congr slots handle))
    balanced sub

theorem Sound.congr (sound : before.Sound outside limbo) {others : Multiset Handle}
    (same : outside = others) : before.Sound others limbo := same ▸ sound

/-- The slots and their homes are all that soundness looks at beside the references. -/
theorem Sound.of_slots (sound : before.Sound outside limbo) {others : Multiset Handle}
    (slots : after.slots = before.slots) (free : after.free = before.free)
    (pool : after.pool = before.pool)
    (same : (after.pending : Multiset Handle) + others =
      (before.pending : Multiset Handle) + outside) : after.Sound others limbo where
  balanced := sound.balanced.of_pending (occupant?_congr slots) same
  watched := sound.watched.congr
    (fun _ => target?_congr (payload?_congr (occupant?_congr slots _)))
    (fun _ => watchers_congr (payload?_congr (occupant?_congr slots _)))
  housed := by
    constructor
    · intro handle
      rw [free, pool, births_congr slots, occupant?_congr slots]
      exact sound.housed.vacant handle
    · rw [free, pool]
      exact sound.housed.apart
  formed := sound.formed.congr fun handle => payload?_congr (occupant?_congr slots handle)

/-- Where all payloads stay, soundness asks for nothing but exact counts. -/
theorem Sound.of_payloads (sound : before.Sound outside limbo) {others : Multiset Handle}
    (steady : before.Steady after)
    (payloads : ∀ handle, after.payload? handle = before.payload? handle)
    (balanced : after.Balanced others) : after.Sound others limbo where
  balanced := balanced
  watched := sound.watched.congr (fun _ => target?_congr (payloads _))
    (fun _ => watchers_congr (payloads _))
  housed := steady.housed (fun handle => isLive_congr (payloads handle)) sound.housed
  formed := sound.formed.congr payloads

/-! ### The last reference -/

/-- Nothing refers to an entry whose only reference is owned apart from all others. -/
theorem Balanced.unreferred (balanced : before.Balanced (outside + {place}))
    (held : before.occupant? place = some entry) (last : entry.count ≤ 1) :
    place ∉ before.edges ∧ place ∉ outside := by
  have exact := balanced.exact place
  rw [tally_of_occupant? held, Multiset.count_add, Multiset.count_singleton_self] at exact
  constructor
  · rw [← List.count_pos_iff]
    omega
  · rw [← Multiset.count_pos]
    omega

/-- What others sustain does not lead to such an entry. -/
theorem Balanced.ne_of_sustained (balanced : before.Balanced (outside + {place}))
    (held : before.occupant? place = some entry) (last : entry.count ≤ 1) (sub : frame ⊆ outside)
    {handle : Handle} (sustained : before.Sustained frame handle) : handle ≠ place := by
  obtain ⟨unreferred, unowned⟩ := balanced.unreferred held last
  rintro rfl
  obtain ⟨root, member, leads⟩ := sustained
  cases leads with
  | refl => exact unowned (sub member)
  | tail reached refers =>
    exact unreferred ((before.mem_edges_iff handle).mpr ⟨_, refers⟩)

/-- The slot of an entry is not free. -/
theorem Housed.unlisted (housed : before.Housed limbo) (held : before.occupant? place = some entry) :
    place ∉ before.free ++ before.pool.slots := by
  intro member
  have vacant := (housed.vacant place).mp (List.mem_append_left limbo member)
  exact nomatch held.symm.trans vacant.2

/-- A slot that was emptied is in limbo. -/
theorem Housed.vacate (housed : before.Housed limbo) (held : before.occupant? place = some entry)
    (births : ∀ handle, after.births handle = before.births handle)
    (free : after.free = before.free) (pool : after.pool = before.pool)
    (lives : ∀ handle, after.occupant? handle = none ↔
      handle = place ∨ before.occupant? handle = none) : after.Housed (place :: limbo) := by
  have absent : place ∉ before.free ++ before.pool.slots ++ limbo := by
    rw [housed.vacant, held]
    exact fun occupied => nomatch occupied.2
  have moved : (after.free ++ after.pool.slots ++ place :: limbo).Perm
      (place :: (before.free ++ before.pool.slots ++ limbo)) := by
    rw [free, pool]
    exact List.perm_middle
  constructor
  · intro handle
    rw [moved.mem_iff, List.mem_cons, housed.vacant, births, lives]
    constructor
    · rintro (rfl | ⟨born, empty⟩)
      · exact ⟨before.births_pos_of_occupant? held, Or.inl rfl⟩
      · exact ⟨born, Or.inr empty⟩
    · rintro ⟨born, rfl | empty⟩
      · exact Or.inl rfl
      · exact Or.inr ⟨born, empty⟩
  · rw [moved.nodup_iff]
    exact List.nodup_cons.mpr ⟨absent, housed.apart⟩

/-- A slot in limbo comes home. -/
theorem Housed.recycle (housed : before.Housed (place :: limbo)) (isMethod : Bool) :
    (before.recycle place isMethod).Housed limbo := by
  have moved : ((before.recycle place isMethod).free ++ (before.recycle place isMethod).pool.slots ++
      limbo).Perm (before.free ++ before.pool.slots ++ place :: limbo) := by
    refine List.Perm.trans ?_ List.perm_middle.symm
    unfold Heap.recycle
    cases kept : (if isMethod then before.pool.keep? place else none) with
    | none => exact List.Perm.refl _
    | some pool =>
      have slots : pool.slots = place :: before.pool.slots := by
        split at kept
        · exact MethodPool.slots_of_keep? kept
        · cases kept
      show (before.free ++ pool.slots ++ limbo).Perm _
      rw [slots, List.append_assoc, List.append_assoc, List.cons_append]
      exact List.perm_middle
  constructor
  · intro handle
    rw [moved.mem_iff, housed.vacant, births_congr (before.slots_recycle place isMethod),
      occupant?_recycle]
  · rw [moved.nodup_iff]
    exact housed.apart

theorem Sound.recycle (sound : before.Sound outside (place :: limbo)) (isMethod : Bool) :
    (before.recycle place isMethod).Sound outside limbo where
  balanced := sound.balanced.congr (fun handle => before.occupant?_recycle place handle isMethod)
    (by unfold Heap.recycle; split <;> rfl)
  watched := sound.watched.congr
    (fun _ => target?_congr (payload?_congr (before.occupant?_recycle place _ isMethod)))
    (fun _ => watchers_congr (payload?_congr (before.occupant?_recycle place _ isMethod)))
  housed := sound.housed.recycle isMethod
  formed := sound.formed.congr fun handle =>
    payload?_congr (before.occupant?_recycle place handle isMethod)

/-! ### An entry that dies -/

/-- The heap in which an entry was just taken out of its slot, and its memory given back. -/
def emptied (heap : Heap Code) (place : Handle) (tracker : Tracker) : Heap Code :=
  { heap.setEntry place none with tracker }

theorem occupant?_emptied (heap : Heap Code) (place other : Handle) (tracker : Tracker) :
    (heap.emptied place tracker).occupant? other =
      if other = place then none else heap.occupant? other :=
  (heap.occupant?_setEntry place other none).trans (by rw [ite_self])

theorem payload?_emptied (heap : Heap Code) (place other : Handle) (tracker : Tracker) :
    (heap.emptied place tracker).payload? other =
      if other = place then none else heap.payload? other :=
  heap.payload?_setEntry place other

theorem births_emptied (heap : Heap Code) (place other : Handle) (tracker : Tracker) :
    (heap.emptied place tracker).births other = heap.births other :=
  heap.births_setEntry place other none

theorem Balanced.emptied (balanced : before.Balanced (outside + {place}))
    (held : before.occupant? place = some entry) (last : entry.count ≤ 1) (tracker : Tracker) :
    (before.emptied place tracker).Balanced (outside + entry.payload.owns) := by
  refine balanced.vacate held last ?_ (fun other different => ?_) rfl
  · rw [occupant?_emptied, if_pos rfl]
  · rw [occupant?_emptied, if_neg different]

/-- The weak references to an entry are in its register. -/
theorem Watched.target?_of_mem (watched : before.Watched)
    (held : before.occupant? place = some entry) {weakref : Handle} :
    weakref ∈ entry.payload.watchers ↔ before.target? weakref = some place := by
  rw [watched.registered, watchers_eq, held]
  rfl

/-- A weak reference has no register. -/
theorem watchers_of_aimed {payload : Payload Code} {target : Handle}
    (aimed : payload.target? = some target) : payload.watchers = [] := by
  cases payload with
  | weakref data => rfl
  | _ => cases aimed

/-- What is left of a payload whose register was cleared is no target and has no register. -/
theorem watchers_of_target? {handle target : Handle} (aimed : before.target? handle = some target) :
    before.watchers handle = [] := by
  obtain ⟨data, found, _⟩ := target?_eq_some.mp aimed
  unfold watchers
  rw [found]
  rfl

/-- Nothing is a weak reference to itself. -/
theorem Watched.not_mem_watchers_self (watched : before.Watched) (place : Handle) :
    place ∉ before.watchers place := by
  intro member
  rw [watchers_of_target? ((watched.registered place place).mpr member)] at member
  cases member

/-- No entry is in its own register. -/
theorem Watched.not_mem_own (watched : before.Watched)
    (held : before.occupant? place = some entry) : place ∉ entry.payload.watchers := by
  rw [watched.target?_of_mem held, watched.registered]
  exact watched.not_mem_watchers_self place

theorem Watched.exists_weakref (watched : before.Watched)
    (held : before.occupant? place = some entry) {weakref : Handle}
    (member : weakref ∈ entry.payload.watchers) :
    ∃ data, before.payload? weakref = some (.weakref data) := by
  obtain ⟨data, found, _⟩ := target?_eq_some.mp ((watched.target?_of_mem held).mp member)
  exact ⟨data, found⟩

/-- The register of an entry that is no weak reference can be cleared once the slot is empty. -/
theorem Watched.clearsRegister_emptied (watched : before.Watched)
    (held : before.occupant? place = some entry) (tracker : Tracker)
    (aimless : entry.payload.target? = none) :
    (before.emptied place tracker).ClearsRegister (fun _ => false) entry.payload.watchers
      ((before.emptied place tracker).clearWatchers place (fun _ => false) entry.payload.watchers).1
      ((before.emptied place tracker).clearWatchers place (fun _ => false)
        entry.payload.watchers).2 := by
  refine clearsRegister_clearWatchers _ _ _ _ ?_ fun weakref member => ?_
  · have once := watched.once place
    rw [watchers_eq, held] at once
    exact once
  · rw [watched.target?_of_mem held] at member
    rw [← member]
    refine target?_congr ((payload?_emptied before place weakref tracker).trans (if_neg ?_))
    rintro rfl
    rw [target?_eq, held] at member
    exact nomatch aimless.symm.trans member

section

variable {tracker : Tracker} {callbacks : List (Handle × Value)}
  (clears : (before.emptied place tracker).ClearsRegister (fun _ => false)
    entry.payload.watchers callbacks after)

include clears

/-- The weak references to an entry that died are dead, and its slot is empty. -/
theorem payload?_clearDead (other : Handle) : after.payload? other =
    if other ∈ entry.payload.watchers then some deadWeakref
    else if other = place then none else before.payload? other := by
  rw [clears.payloads, payload?_emptied]
  simp

/-- The registers of others do not list weak references to an entry that dies. -/
theorem Watched.clearDead (watched : before.Watched) (held : before.occupant? place = some entry)
    (aimless : entry.payload.target? = none) : after.Watched := by
  have notOwn := watched.not_mem_own held
  have payloads := payload?_clearDead clears
  refine watched.forget (entry.payload.watchers.contains ·) (fun weakref => ?_) fun target => ?_
  · unfold target?
    rw [payloads]
    by_cases member : weakref ∈ entry.payload.watchers
    · simp [member, deadWeakref, Payload.target?]
    · by_cases same : weakref = place
      · rw [if_neg member, if_pos same, same, if_neg (by simpa using notOwn), before.payload?_eq,
          held]
        exact aimless.symm
      · simp [member, same]
  · have keptOf (absent : ∀ weakref ∈ before.watchers target, weakref ∉ entry.payload.watchers) :
        (before.watchers target).filter (fun weakref => !entry.payload.watchers.contains weakref) =
          before.watchers target :=
      List.filter_eq_self.mpr fun weakref member => by simpa using absent weakref member
    by_cases same : target = place
    · have own : before.watchers target = entry.payload.watchers := by
        rw [same, watchers_eq, held]
        rfl
      unfold watchers
      rw [payloads, if_neg (same ▸ notOwn), if_pos same]
      refine (List.filter_eq_nil_iff.mpr fun weakref member => ?_).symm
      have inOwn : weakref ∈ entry.payload.watchers := own ▸ member
      simpa using inOwn
    · rw [keptOf fun weakref member inOwn => same (watched.eq_of_mem member
        ((watched.registered _ _).mp ((watched.target?_of_mem held).mp inOwn)))]
      unfold watchers
      rw [payloads]
      by_cases member : target ∈ entry.payload.watchers
      · have unregistered := watchers_of_target? ((watched.target?_of_mem held).mp member)
        unfold watchers at unregistered
        rw [if_pos member, unregistered]
        rfl
      · rw [if_neg member, if_neg same]

/-- The slot of an entry that died is the only one that came to be empty. -/
theorem Housed.clearDead (housed : before.Housed limbo) (watched : before.Watched)
    (held : before.occupant? place = some entry) : after.Housed (place :: limbo) := by
  refine housed.vacate held (fun handle => ?_) (congrArg Heap.free clears.steady.books :)
    (congrArg Heap.pool clears.steady.books :) fun handle => ?_
  · rw [clears.steady.births, births_emptied]
  · rw [occupant?_eq_none, occupant?_eq_none, payload?_clearDead clears]
    by_cases member : handle ∈ entry.payload.watchers
    · obtain ⟨data, found⟩ := watched.exists_weakref held member
      have different : handle ≠ place := fun same => watched.not_mem_own held (same ▸ member)
      rw [if_pos member, found]
      simp [different]
    · rw [if_neg member]
      by_cases same : handle = place <;> simp [same]

theorem Formed.clearDead (formed : before.Formed) (watched : before.Watched)
    (held : before.occupant? place = some entry) : after.Formed := by
  refine formed.mono fun other later found => ?_
  rw [payload?_clearDead clears] at found
  split at found
  · rename_i member
    cases found
    obtain ⟨data, held⟩ := watched.exists_weakref held member
    exact ⟨_, held, Or.inr rfl⟩
  · split at found
    · cases found
    · exact ⟨later, found, .refl later⟩

/-- When an entry dies that is no weak reference, the callbacks that are due own references to
their weak references. -/
theorem Sound.clearDead (sound : before.Sound (outside + {place}) limbo)
    (held : before.occupant? place = some entry) (last : entry.count ≤ 1)
    (aimless : entry.payload.target? = none) :
    after.Sound (outside + entry.payload.owns + debts callbacks) (place :: limbo) where
  balanced := clears.balanced _ (sound.balanced.emptied held last tracker)
  watched := sound.watched.clearDead clears held aimless
  housed := sound.housed.clearDead clears sound.watched held
  formed := sound.formed.clearDead clears sound.watched held

end

section

variable (sound : before.Sound (outside + {place}) limbo)
  (held : before.occupant? place = some entry) (last : entry.count ≤ 1) (tracker : Tracker)

include sound held

/-- With its register cleared, an entry that is no weak reference was freed. -/
theorem Frees.of_clearsRegister (busy : before.releasing = true)
    {callbacks : List (Handle × Value)}
    (clears : (before.emptied place (before.tracker.credit (UInt64.ofNat entry.payload.size))).ClearsRegister
      (fun _ => false) entry.payload.watchers callbacks after) :
    before.Frees place entry.payload callbacks after := by
  have own : before.watchers place = entry.payload.watchers := by
    rw [watchers_eq, held]
    rfl
  have notOwn := sound.watched.not_mem_own held
  refine ⟨before.payload?_eq_some.mpr ⟨entry, held, rfl⟩, sound.housed.unlisted held, busy,
    sound.watched, ?_, fun other => ?_,
    fun handle => (clears.steady.births handle).trans (births_emptied _ _ _ _), clears.steady.books⟩
  · rw [clears.due, own]
    refine List.filterMap_congr fun weakref member => ?_
    have different : weakref ≠ place := fun same => notOwn (same ▸ member)
    rw [callback?_congr ((payload?_emptied before place weakref _).trans (if_neg different))]
  · rw [clears.payloads, payload?_emptied, own]
    simp

include last in
/-- An entry that dies takes nothing along that others lead to, and unless a callback is due, it
leaves everything else alike. -/
theorem Carries.clearDead {callbacks : List (Handle × Value)}
    (clears : (before.emptied place tracker).ClearsRegister (fun _ => false)
      entry.payload.watchers callbacks after)
    (silent : calm → callbacks = []) (sub : frame ⊆ outside) :
    before.Carries calm frame after := by
  have payloads := payload?_clearDead clears
  have weakrefOf {handle : Handle} (member : handle ∈ entry.payload.watchers) :=
    sound.watched.exists_weakref held member
  refine .of_steady (fun handle => ?_) (fun handle live => ?_)
    (fun handle payload later found reached => ?_) (fun still handle payload sustained found => ?_)
    sound.balanced fun handle member => Multiset.mem_add.mpr (Or.inl (sub member))
  · rw [clears.steady.births, births_emptied]
  · rw [isLive_eq_payload?, payloads] at live
    rw [isLive_eq_payload?]
    split at live
    · rename_i member
      obtain ⟨data, found⟩ := weakrefOf member
      rw [found]
      rfl
    · split at live
      · cases live
      · exact live
  · rw [payloads] at reached
    split at reached
    · rename_i member
      obtain ⟨data, same⟩ := weakrefOf member
      rw [found] at same
      cases same
      cases reached
      exact Or.inr rfl
    · split at reached
      · cases reached
      · rw [found] at reached
        cases reached
        exact .refl payload
  · have different := sound.balanced.ne_of_sustained held last sub sustained
    rw [payloads]
    by_cases member : handle ∈ entry.payload.watchers
    · rw [if_pos member]
      obtain ⟨data, same⟩ := weakrefOf member
      rw [found] at same
      cases same
      refine ⟨deadWeakref, rfl, ?_, Or.inr rfl⟩
      -- No callback is due, so a weak reference that is cleared had none, and stays alike.
      have nothingDue := clears.due.symm.trans (silent still)
      have absent := List.filterMap_eq_nil_iff.mp nothingDue handle member
      rw [if_neg Bool.false_ne_true, Option.map_eq_none_iff, callback?, payload?_emptied,
        if_neg different, found] at absent
      exact absent.symm
    · rw [if_neg member, if_neg different]
      exact ⟨payload, found, .refl payload⟩

end

/-- Without a register there is nothing to clear. -/
theorem Frees.of_unwatched (sound : before.Sound outside limbo) (busy : before.releasing = true)
    (held : before.occupant? place = some entry) (unwatched : entry.payload.watchers = []) :
    before.Frees place entry.payload []
      (before.emptied place (before.tracker.credit (UInt64.ofNat entry.payload.size))) := by
  have own : before.watchers place = [] := by
    rw [watchers_eq, held]
    exact unwatched
  refine ⟨before.payload?_eq_some.mpr ⟨entry, held, rfl⟩, sound.housed.unlisted held, busy,
    sound.watched, ?_, fun other => ?_, fun handle => births_emptied _ _ _ _, rfl⟩
  · rw [own]
    rfl
  · rw [payload?_emptied, own]
    simp

/-- Whatever callback is due, its weak reference was cleared. -/
theorem Frees.cleared {payload : Payload Code} {callbacks : List (Handle × Value)}
    (frees : before.Frees place payload callbacks after) {pair : Handle × Value}
    (member : pair ∈ callbacks) : after.Cleared pair.1 := by
  rw [frees.due, Heap.due, List.mem_filterMap] at member
  obtain ⟨weakref, registered, same⟩ := member
  obtain ⟨callback, _, rfl⟩ := Option.map_eq_some_iff.mp same
  exact ⟨_, (frees.payloads weakref).trans (if_pos registered), rfl⟩

/-! ### A weak reference that dies -/

@[simp] theorem target?_mapWatchers (payload : Payload Code)
    (change : List Handle → List Handle) :
    (payload.mapWatchers change).target? = payload.target? := by
  cases payload <;> rfl

theorem watchers_mapWatchers (payload : Payload Code) (change : List Handle → List Handle)
    (kept : change [] = []) : (payload.mapWatchers change).watchers = change payload.watchers := by
  cases payload <;> first | rfl | exact kept.symm

theorem payload?_unregister (heap : Heap Code) (target weakref other : Handle) :
    (heap.unregister target weakref).payload? other =
      if other = target then (heap.payload? other).map (Payload.mapWatchers (·.erase weakref))
      else heap.payload? other :=
  heap.payload?_mapPayload target other _

/-- A change of registers leaves all references where they are. -/
theorem Balanced.mapWatchers (balanced : before.Balanced outside) (target : Handle)
    (change : List Handle → List Handle) :
    (before.mapPayload target (Payload.mapWatchers change)).Balanced outside := by
  cases occupied : before.occupant? target with
  | none =>
    refine balanced.congr (fun handle => ?_) rfl
    rw [occupant?_mapPayload]
    split
    · rename_i same
      rw [same, occupied]
      rfl
    · rfl
  | some entry =>
    refine balanced.exchange (entry.payload.mapWatchers change) occupied ?_ (fun other different => ?_)
      rfl ?_
    · rw [occupant?_mapPayload, if_pos rfl, occupied]
      rfl
    · rw [occupant?_mapPayload, if_neg different]
    · unfold Payload.owns
      rw [Payload.visits_mapWatchers]

/-- A change of registers leaves every slot as occupied as it was. -/
theorem Housed.mapWatchers (housed : before.Housed limbo) (target : Handle)
    (change : List Handle → List Handle) :
    (before.mapPayload target (Payload.mapWatchers change)).Housed limbo :=
  (Steady.mapPayload before target _).housed (fun other => before.isLive_mapPayload target other _) housed

theorem Formed.mapWatchers (formed : before.Formed) (target : Handle)
    (change : List Handle → List Handle) :
    (before.mapPayload target (Payload.mapWatchers change)).Formed := by
  refine formed.mono fun handle later found => ?_
  rw [payload?_mapPayload] at found
  split at found
  · obtain ⟨payload, held, rfl⟩ := Option.map_eq_some_iff.mp found
    exact ⟨payload, held, (payload.alike_mapWatchers change).continues⟩
  · exact ⟨later, found, .refl later⟩

/-- A change of registers carries everything along. -/
theorem Carries.mapWatchers (balanced : before.Balanced outside) (sub : frame ⊆ outside)
    (target : Handle) (change : List Handle → List Handle) :
    before.Carries calm frame (before.mapPayload target (Payload.mapWatchers change)) := by
  have alike (handle : Handle) (payload later : Payload Code)
      (held : before.payload? handle = some payload)
      (reached : (before.mapPayload target (Payload.mapWatchers change)).payload? handle =
        some later) : payload.Alike later := by
    rw [payload?_mapPayload, held] at reached
    split at reached
    · cases reached
      exact Payload.alike_mapWatchers payload change
    · cases reached
      exact .refl payload
  refine .of_steady (fun handle => births_mapPayload before target handle _) (fun handle live => ?_)
    (fun handle payload later held reached => (alike handle payload later held reached).continues)
    (fun _ handle payload _ held => ?_) balanced sub
  · rwa [isLive_mapPayload] at live
  · have live : ((before.mapPayload target (Payload.mapWatchers change)).payload? handle).isSome := by
      rw [payload?_mapPayload, held]
      split <;> rfl
    obtain ⟨later, reached⟩ := Option.isSome_iff_exists.mp live
    exact ⟨later, reached, alike handle payload later held reached⟩

theorem Housed.emptied (housed : before.Housed limbo) (held : before.occupant? place = some entry)
    (tracker : Tracker) : (before.emptied place tracker).Housed (place :: limbo) := by
  refine housed.vacate held (fun handle => births_emptied _ _ _ _) rfl rfl fun handle => ?_
  rw [occupant?_emptied]
  by_cases same : handle = place <;> simp [same]

theorem Formed.emptied (formed : before.Formed) (place : Handle) (tracker : Tracker) :
    (before.emptied place tracker).Formed := by
  refine formed.mono fun other later found => ?_
  rw [payload?_emptied] at found
  split at found
  · cases found
  · exact ⟨later, found, .refl later⟩

/-- The register of its target is the only one that lists a weak reference. -/
theorem Watched.forgetDead (watched : before.Watched) (tracker : Tracker) {target : Handle}
    (aim : before.target? place = some target) :
    ((before.emptied place tracker).unregister target place).Watched := by
  have payloads (other : Handle) :
      ((before.emptied place tracker).unregister target place).payload? other =
        if other = target then
          (if other = place then none else before.payload? other).map
            (Payload.mapWatchers (·.erase place))
        else if other = place then none else before.payload? other := by
    rw [payload?_unregister, payload?_emptied]
  have unregistered := watchers_of_target? aim
  have member := (watched.registered _ _).mp aim
  refine watched.forget (fun weakref => decide (weakref = place)) (fun weakref => ?_) fun other => ?_
  · unfold target?
    rw [payloads]
    by_cases same : weakref = place
    · simp [same]
    · by_cases here : weakref = target
      · subst here
        cases found : before.payload? weakref <;> simp [same]
      · simp [same, here]
  · by_cases here : other = target
    · have different : target ≠ place := by
        rintro rfl
        rw [unregistered] at member
        cases member
      have filtered := (watched.once target).erase_eq_filter place
      rw [here]
      unfold watchers at filtered ⊢
      rw [payloads, if_pos rfl, if_neg different]
      cases found : before.payload? target with
      | none => rfl
      | some payload =>
        rw [found] at filtered
        show (payload.mapWatchers (·.erase place)).watchers = _
        rw [watchers_mapWatchers payload (·.erase place) rfl]
        refine Eq.trans filtered (List.filter_congr fun weakref _ => ?_)
        simp [bne, beq_eq_decide]
    -- A weak reference is in one register only, so the others do not list it.
    · have absent : ∀ weakref ∈ before.watchers other, !decide (weakref = place) := by
        intro weakref listed
        rw [Bool.not_eq_true', decide_eq_false_iff_not]
        rintro rfl
        exact here (watched.eq_of_mem listed member)
      rw [List.filter_eq_self.mpr absent]
      by_cases same : other = place
      · rw [same, unregistered]
        unfold watchers
        rw [payloads, if_neg (same ▸ here), if_pos rfl]
        rfl
      · exact watchers_congr (by rw [payloads, if_neg here, if_neg same])

/-- A weak reference that dies leaves the register of its target. -/
theorem Sound.forgetDead (sound : before.Sound (outside + {place}) limbo)
    (held : before.occupant? place = some entry) (last : entry.count ≤ 1) (tracker : Tracker)
    {target : Handle} (aimed : entry.payload.target? = some target) :
    ((before.emptied place tracker).unregister target place).Sound (outside + entry.payload.owns)
      (place :: limbo) where
  balanced := (sound.balanced.emptied held last tracker).mapWatchers target _
  watched := sound.watched.forgetDead tracker (by rw [target?_eq, held]; exact aimed)
  housed := (sound.housed.emptied held tracker).mapWatchers target _
  formed := (sound.formed.emptied place tracker).mapWatchers target _

theorem Carries.emptied (balanced : before.Balanced (outside + {place}))
    (held : before.occupant? place = some entry) (last : entry.count ≤ 1) (tracker : Tracker)
    (sub : frame ⊆ outside) : before.Carries calm frame (before.emptied place tracker) := by
  refine .of_steady (fun handle => before.births_emptied place handle tracker)
    (fun handle live => ?_) (fun handle payload later found reached => ?_)
    (fun _ handle payload sustained found => ?_) balanced fun handle member =>
      Multiset.mem_add.mpr (Or.inl (sub member))
  · rw [isLive_eq, occupant?_emptied] at live
    split at live
    · cases live
    · exact live
  · rw [payload?_emptied] at reached
    split at reached
    · cases reached
    · rw [found] at reached
      cases reached
      exact .refl payload
  · rw [payload?_emptied, if_neg (balanced.ne_of_sustained held last sub sustained)]
    exact ⟨payload, found, .refl payload⟩

end ObjectHeap.Heap
