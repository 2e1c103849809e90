/-
This file establishes that removing the garbage leaves a sound heap. Survivors refer to survivors
only, so that the references of the removed entries are exactly those that are no longer counted
as references between entries: some led to garbage, and the others wait for their release.
-/

import ObjectHeap.Proofs.Sweep

namespace ObjectHeap.Heap

variable {Code : Type} {heap before after : Heap Code} {outside frame : Multiset Handle}
  {limbo : List Handle} {calm : Prop}

/-- Whether an entry is garbage. -/
def isGarbage (heap : Heap Code) (handle : Handle) : Bool :=
  heap.garbage.contains handle

/-- The callbacks that are due when the garbage is removed. -/
def dueCallbacks (heap : Heap Code) : List (Handle × Value) :=
  heap.garbage.flatMap fun place => heap.due heap.isGarbage (heap.watchers place)

/-- What removing the garbage comes to. -/
structure Removes (before : Heap Code) (outside : Multiset Handle) (limbo : List Handle)
    (after : Heap Code) : Prop where
  payloads : ∀ other, after.payload? other =
    if other ∈ before.garbage then none
    else (before.payload? other).map (Payload.without before.isGarbage)
  births : ∀ other, after.births other = before.births other
  releasing : after.releasing = before.releasing
  unraisable : after.unraisable = before.unraisable
  sound : after.Sound (outside + debts before.dueCallbacks) limbo
  waiting : ∀ handle ∈ after.pending, before.Sustained outside handle
  fewer : after.pending.length ≤ before.edges.length

theorem isGarbage_iff {handle : Handle} : heap.isGarbage handle = true ↔ handle ∈ heap.garbage := by
  unfold isGarbage
  exact List.contains_iff_mem

theorem isGarbage_eq_false {handle : Handle} :
    heap.isGarbage handle = false ↔ handle ∉ heap.garbage := by
  rw [← isGarbage_iff, Bool.not_eq_true]

section

variable (sound : heap.Sound outside limbo) (settled : heap.pending = [])

include sound settled

/-- A live entry survives exactly when something outside leads to it. -/
theorem sustained_iff {handle : Handle} :
    heap.Sustained outside handle ↔ heap.isLive handle ∧ handle ∉ heap.garbage := by
  rw [mem_garbage sound.balanced settled]
  constructor
  · exact fun sustained =>
      ⟨sound.balanced.isLive_of_sustained sustained, fun both => both.2 sustained⟩
  · rintro ⟨live, kept⟩
    by_contra unreached
    exact kept ⟨live, unreached⟩

/-- A weak reference that has a target is live. -/
theorem sustained_of_registered {weakref target : Handle}
    (registered : weakref ∈ heap.watchers target) (kept : heap.isGarbage weakref = false) :
    heap.Sustained outside weakref :=
  (sustained_iff sound settled).mpr
    ⟨isLive_of_target? ((sound.watched.registered _ _).mpr registered), isGarbage_eq_false.mp kept⟩

/-- A callback that is due belongs to a survivor. -/
theorem mem_dueCallbacks {pair : Handle × Value} (member : pair ∈ heap.dueCallbacks) :
    heap.Sustained outside pair.1 ∧ heap.callback? pair.1 = some pair.2 := by
  unfold dueCallbacks due at member
  obtain ⟨place, _, chosen⟩ := List.mem_flatMap.mp member
  obtain ⟨weakref, registered, picked⟩ := List.mem_filterMap.mp chosen
  split at picked
  · cases picked
  · rename_i kept
    obtain ⟨callback, found, same⟩ := Option.map_eq_some_iff.mp picked
    rw [← same]
    exact ⟨sustained_of_registered sound settled registered (Bool.eq_false_iff.mpr kept), found⟩

omit sound settled in
/-- The callback of a weak reference is one of the references that it holds. -/
theorem refers_of_callback? {weakref target : Handle} {callback : Value}
    (found : heap.callback? weakref = some callback) (owned : target ∈ callback.owns) :
    heap.Refers weakref target := by
  unfold callback? at found
  obtain ⟨payload, held, called⟩ := Option.bind_eq_some_iff.mp found
  cases payload with
  | weakref data =>
    have same : data.callback = some callback := called
    unfold Refers Heap.visits
    rw [held]
    show target ∈ (data.callback.bind Value.handle?).toList
    rw [same]
    cases callback with
    | ref handle =>
      rw [Value.owns_ref, Multiset.mem_singleton] at owned
      rw [owned]
      exact List.mem_singleton_self handle
    | _ => cases owned
  | _ => cases called

/-- What due callbacks take along survives. -/
theorem sustained_of_mem_debts {handle : Handle} (member : handle ∈ debts heap.dueCallbacks) :
    heap.Sustained outside handle := by
  obtain ⟨pair, inDue, referred⟩ := mem_debts.mp member
  obtain ⟨sustained, found⟩ := mem_dueCallbacks sound settled inDue
  rcases referred with rfl | owned
  · exact sustained
  · exact sustained.step (refers_of_callback? found owned)

omit settled in
/-- The registers of garbage can be cleared. -/
theorem clearsGarbage_garbage :
    heap.ClearsGarbage heap.isGarbage heap.garbage
      (heap.clearGarbage heap.isGarbage heap.garbage).1
      (heap.clearGarbage heap.isGarbage heap.garbage).2 :=
  clearsGarbage_clearGarbage heap heap.isGarbage heap.garbage heap.nodup_garbage
    (fun _ member => isGarbage_iff.mpr member)
    fun place _ => ⟨sound.watched.once place, fun weakref member =>
      (sound.watched.registered weakref place).mpr member⟩

end

/-! ### The middle, where registers are cleared and garbage is still there -/

namespace ClearsGarbage

variable {callbacks : List (Handle × Value)}

/-- Clearing frees nothing. -/
theorem isLive (watched : before.Watched)
    (clears : before.ClearsGarbage before.isGarbage before.garbage callbacks after) (handle : Handle) :
    after.isLive handle = before.isLive handle := by
  rw [isLive_eq_payload?, isLive_eq_payload?, clears.payloads]
  split
  · rw [Option.isSome_map]
  · split
    · rename_i cleared
      obtain ⟨_, place, _, registered⟩ := cleared
      have live := isLive_of_target? ((watched.registered _ _).mpr registered)
      rw [isLive_eq_payload?] at live
      rw [live]
      rfl
    · rfl

/-- What a survivor refers to in the middle it referred to before. -/
theorem visits_subset
    (clears : before.ClearsGarbage before.isGarbage before.garbage callbacks after) (place : Handle) :
    after.visits place ⊆ before.visits place := by
  unfold Heap.visits
  rw [clears.payloads]
  split
  · cases before.payload? place with
    | none => exact List.Subset.refl _
    | some payload =>
      show (payload.mapWatchers fun _ => []).visits ⊆ payload.visits
      rw [Payload.visits_mapWatchers]
      exact List.Subset.refl _
  · split
    · exact List.nil_subset _
    · exact List.Subset.refl _

theorem target?_of_mem
    (clears : before.ClearsGarbage before.isGarbage before.garbage callbacks after) {place : Handle}
    (member : place ∈ before.garbage) : after.target? place = before.target? place := by
  unfold Heap.target?
  rw [clears.payloads, if_pos member]
  cases before.payload? place with
  | none => rfl
  | some payload => exact target?_mapWatchers payload _

/-- What garbage holds it still holds when its register is cleared. -/
theorem visits_of_mem
    (clears : before.ClearsGarbage before.isGarbage before.garbage callbacks after) {place : Handle}
    (member : place ∈ before.garbage) : after.visits place = before.visits place := by
  unfold Heap.visits
  rw [clears.payloads, if_pos member]
  cases before.payload? place with
  | none => rfl
  | some payload => exact Payload.visits_mapWatchers payload _

/-- What a survivor refers to survives. -/
theorem sustained_of_visits (sound : before.Sound outside limbo) (settled : before.pending = [])
    (clears : before.ClearsGarbage before.isGarbage before.garbage callbacks after)
    {place handle : Handle} (kept : place ∉ before.garbage) (held : handle ∈ after.visits place) :
    before.Sustained outside handle := by
  have refers : before.Refers place handle := clears.visits_subset place held
  have alive : before.isLive place := by
    rw [isLive_eq]
    cases occupied : before.occupant? place with
    | some entry => rfl
    | none =>
      rw [Refers, visits_of_empty occupied] at refers
      cases refers
  exact ((sustained_iff sound settled).mpr ⟨alive, kept⟩).step refers

/-- What garbage referred to and is no garbage survives. -/
theorem sustained_of_left (sound : before.Sound outside limbo) (settled : before.pending = [])
    (clears : before.ClearsGarbage before.isGarbage before.garbage callbacks after) {handle : Handle}
    (left : handle ∈ (before.garbage.flatMap after.visits).filter fun child => !before.isGarbage child) :
    before.Sustained outside handle := by
  rw [List.mem_filter, Bool.not_eq_true', isGarbage_eq_false] at left
  obtain ⟨place, _, held⟩ := List.mem_flatMap.mp left.1
  have refers : before.Refers place handle := clears.visits_subset place held
  exact (sustained_iff sound settled).mpr ⟨sound.balanced.isLive_of_refers refers, left.2⟩

end ClearsGarbage

/-- Changes of a register that agree on it come to the same. -/
theorem mapWatchers_congr (payload : Payload Code) {first second : List Handle → List Handle}
    (same : first payload.watchers = second payload.watchers) :
    payload.mapWatchers first = payload.mapWatchers second := by
  cases payload <;> simp_all [Payload.mapWatchers, Payload.watchers]

theorem watchers_of_payload? {handle : Handle} {payload : Payload Code}
    (held : heap.payload? handle = some payload) : heap.watchers handle = payload.watchers := by
  unfold watchers
  rw [held]
  rfl

theorem target?_of_payload? {handle : Handle} {payload : Payload Code}
    (held : heap.payload? handle = some payload) : heap.target? handle = payload.target? := by
  unfold target?
  rw [held]
  rfl

/-- Adding up over some slots of a heap. -/
theorem sum_ite_mem_eq (places : List Handle) (bound : Nat) (measure : Handle → Nat)
    (distinct : places.Nodup) (inside : ∀ place ∈ places, place < bound) :
    (∑ place ∈ Finset.range bound, if place ∈ places then measure place else 0) =
      (places.map measure).sum := by
  rw [← List.sum_toFinset measure distinct, ← Finset.sum_filter]
  refine Finset.sum_congr (Finset.ext fun place => ?_) fun _ _ => rfl
  rw [Finset.mem_filter, Finset.mem_range, List.mem_toFinset]
  exact ⟨fun both => both.2, fun member => ⟨inside place member, member⟩⟩

/-- The references between entries are those that some entries hold, and those of all others. -/
theorem count_edges_split {places : List Handle} (distinct : places.Nodup)
    (live : ∀ place ∈ places, before.isLive place)
    (freed : ∀ place ∈ places, after.visits place = [])
    (others : ∀ place, place ∉ places → after.visits place = before.visits place)
    (handle : Handle) :
    before.edges.count handle =
      after.edges.count handle + (places.flatMap before.visits).count handle := by
  let bound := max before.slots.size after.slots.size
  have inside (place : Handle) (member : place ∈ places) : place < bound := by
    obtain ⟨entry, occupied⟩ := (before.isLive_iff place).mp (live place member)
    exact (before.lt_size_of_occupant? occupied).trans_le (le_max_left _ _)
  rw [before.count_edges_of_le bound (le_max_left _ _), after.count_edges_of_le bound (le_max_right _ _),
    List.count_flatMap, ← sum_ite_mem_eq places bound _ distinct inside, ← Finset.sum_add_distrib]
  refine Finset.sum_congr rfl fun place _ => ?_
  by_cases member : place ∈ places
  · rw [if_pos member, freed place member]
    exact (Nat.zero_add _).symm
  · rw [if_neg member, others place member]
    rfl

/-! ### The end, where the garbage is gone -/

/-- The payload of a slot after its register was cleared and the garbage was swept. -/
theorem payload?_swept (watched : before.Watched) {callbacks : List (Handle × Value)}
    {middle : Heap Code} {left : Multiset Handle}
    (clears : before.ClearsGarbage before.isGarbage before.garbage callbacks middle)
    (sweeps : middle.Sweeps before.isGarbage before.garbage left after) (other : Handle) :
    after.payload? other =
      if other ∈ before.garbage then none
      else (before.payload? other).map (Payload.without before.isGarbage) := by
  rw [sweeps.payloads]
  by_cases gone : other ∈ before.garbage
  · rw [if_pos gone, if_pos gone]
  rw [if_neg gone, if_neg gone, clears.payloads, if_neg gone]
  cases held : before.payload? other with
  | none =>
    have unregistered : ¬ (before.isGarbage other = false ∧
        ∃ place ∈ before.garbage, other ∈ before.watchers place) := by
      rintro ⟨_, place, _, registered⟩
      exact watched.not_mem_of_empty held place registered
    rw [if_neg unregistered]
    rfl
  | some payload =>
    have aim := target?_of_payload? held
    by_cases cleared : ∃ place ∈ before.garbage, other ∈ before.watchers place
    · obtain ⟨place, member, registered⟩ := cleared
      have aimed := (watched.registered _ _).mpr registered
      rw [aim] at aimed
      rw [if_pos ⟨isGarbage_eq_false.mpr gone, place, member, registered⟩, Option.map_some,
        Option.map_some, Payload.without, aimed, Option.any_some, isGarbage_iff.mpr member, if_pos rfl]
      rfl
    · have kept : payload.target?.any before.isGarbage = false := by
        cases aimed : payload.target? with
        | none => rfl
        | some target =>
          rw [Option.any_some, isGarbage_eq_false]
          exact fun member => cleared ⟨target, member, (watched.registered _ _).mp (aim.trans aimed)⟩
      rw [if_neg fun both => cleared both.2, Option.map_some, Option.map_some, Payload.without, kept,
        if_neg Bool.false_ne_true]
      refine congrArg some (mapWatchers_congr payload ?_)
      have once := watched.once other
      rw [watchers_of_payload? held] at once
      rw [once.sdiff_eq_filter]
      refine List.filter_congr fun weakref member => ?_
      rw [← watchers_of_payload? held, ← watched.registered] at member
      rw [Bool.eq_iff_iff, decide_eq_true_eq, aimedAt, List.mem_filter, Bool.not_eq_true',
        isGarbage_eq_false, not_iff_not]
      refine ⟨fun both => both.1, fun inGarbage => ⟨inGarbage, ?_⟩⟩
      rw [decide_eq_true_eq, clears.target?_of_mem inGarbage, member]

/-- Weak references and registers agree again once the garbage is gone. -/
theorem Watched.swept (watched : before.Watched)
    (payloads : ∀ other, after.payload? other =
      if other ∈ before.garbage then none
      else (before.payload? other).map (Payload.without before.isGarbage)) : after.Watched := by
  refine watched.forget
    (fun weakref => before.isGarbage weakref || (before.target? weakref).any before.isGarbage)
    (fun weakref => ?_) fun target => ?_
  · unfold target?
    rw [payloads]
    by_cases gone : weakref ∈ before.garbage
    · rw [if_pos gone, isGarbage_iff.mpr gone, Bool.true_or, if_pos rfl]
      rfl
    · rw [if_neg gone, isGarbage_eq_false.mpr gone, Bool.false_or]
      cases before.payload? weakref with
      | none => rfl
      | some payload =>
        show (payload.without before.isGarbage).target? =
          if payload.target?.any before.isGarbage then none else payload.target?
        unfold Payload.without
        split
        · rfl
        · exact target?_mapWatchers payload _
  -- A register goes with its entry, and otherwise it loses the weak references that are garbage.
  · by_cases gone : target ∈ before.garbage
    · have none : after.watchers target = [] := by
        unfold watchers
        rw [payloads, if_pos gone]
        rfl
      rw [none]
      refine (List.filter_eq_nil_iff.mpr fun weakref member => ?_).symm
      rw [(watched.registered _ _).mpr member, Option.any_some, isGarbage_iff.mpr gone, Bool.or_true]
      exact Bool.false_ne_true
    · have kept : (before.watchers target).filter (fun weakref =>
            !(before.isGarbage weakref || (before.target? weakref).any before.isGarbage)) =
          (before.watchers target).filter fun weakref => !before.isGarbage weakref :=
        List.filter_congr fun weakref member => by
          rw [(watched.registered _ _).mpr member, Option.any_some, isGarbage_eq_false.mpr gone,
            Bool.or_false]
      rw [kept]
      unfold watchers
      rw [payloads, if_neg gone]
      cases before.payload? target with
      | none => rfl
      | some payload =>
        show (payload.without before.isGarbage).watchers =
          payload.watchers.filter fun weakref => !before.isGarbage weakref
        unfold Payload.without
        split
        · rename_i aimed
          cases payload with
          | weakref data => rfl
          | _ => cases aimed
        · exact watchers_mapWatchers payload _ rfl

/-- Some entries hold no more references than all of them. -/
theorem length_flatMap_visits_le {places : List Handle} (distinct : places.Nodup)
    (live : ∀ place ∈ places, heap.isLive place) :
    (places.flatMap heap.visits).length ≤ heap.edges.length := by
  have inside (place : Handle) (member : place ∈ places) : place < heap.slots.size := by
    obtain ⟨entry, occupied⟩ := (heap.isLive_iff place).mp (live place member)
    exact heap.lt_size_of_occupant? occupied
  rw [List.length_flatMap, ← sum_ite_mem_eq places heap.slots.size _ distinct inside, length_edges]
  refine Finset.sum_le_sum fun place _ => ?_
  split
  · exact le_rfl
  · exact Nat.zero_le _

/-- When garbage that no survivor refers to is freed, what it held of survivors is left over. -/
theorem Sweeps.balanced {isGarbage : Handle → Bool} {garbage : List Handle} {left : Multiset Handle}
    {swept : Heap Code} (sweeps : before.Sweeps isGarbage garbage left swept)
    (balanced : before.Balanced outside) (settled : before.pending = [])
    (distinct : garbage.Nodup) (live : ∀ place ∈ garbage, before.isLive place)
    (exact : ∀ handle, isGarbage handle = true ↔ handle ∈ garbage)
    (unowned : ∀ handle ∈ garbage, handle ∉ outside)
    (unreferred : ∀ handle ∈ garbage, ∀ place, place ∉ garbage → handle ∉ before.visits place)
    (slots : after.slots = swept.slots) (pending : (after.pending : Multiset Handle) = left) :
    after.Balanced outside := by
  have visits (place : Handle) : after.visits place = swept.visits place :=
    visits_congr (occupant?_congr slots place)
  have freed (place : Handle) (member : place ∈ garbage) : after.visits place = [] := by
    rw [visits]
    unfold Heap.visits
    rw [sweeps.payloads, if_pos member]
    rfl
  have others (place : Handle) (kept : place ∉ garbage) :
      after.visits place = before.visits place :=
    (visits place).trans (sweeps.visits kept)
  have tally (handle : Handle) : after.tally handle = if handle ∈ garbage then 0 else
      before.tally handle :=
    (tally_congr (occupant?_congr slots handle)).trans (sweeps.tally handle)
  constructor
  · intro handle
    have split := count_edges_split distinct live freed others handle
    have counted := balanced.exact handle
    have waiting : after.pending.count handle =
        ((garbage.flatMap before.visits).filter fun child => !isGarbage child).count handle := by
      rw [← Multiset.coe_count, ← Multiset.coe_count, pending, sweeps.left]
    rw [settled, List.count_nil] at counted
    -- Nothing is left that holds garbage. What garbage held of survivors waits to be given up.
    by_cases gone : handle ∈ garbage
    · have unheld : after.edges.count handle = 0 := by
        rw [List.count_eq_zero, mem_edges_iff]
        rintro ⟨place, held⟩
        by_cases inGarbage : place ∈ garbage
        · rw [freed place inGarbage] at held
          cases held
        · rw [others place inGarbage] at held
          exact unreferred handle gone place inGarbage held
      have skipped : after.pending.count handle = 0 := by
        rw [waiting, List.count_eq_zero, List.mem_filter, (exact handle).mpr gone]
        exact fun both => nomatch both.2
      rw [tally, if_pos gone, unheld, skipped, Multiset.count_eq_zero.mpr (unowned handle gone)]
    · have kept : (!isGarbage handle) = true := by
        rw [Bool.not_eq_true', ← Bool.not_eq_true, exact]
        exact gone
      rw [List.count_filter (p := fun child => !isGarbage child) kept] at waiting
      rw [tally, if_neg gone]
      omega
  · intro handle alive
    have lives : after.isLive handle = swept.isLive handle :=
      isLive_congr (payload?_congr (occupant?_congr slots handle))
    have kept : handle ∉ garbage := by
      intro gone
      rw [lives, isLive_eq_payload?, sweeps.payloads, if_pos gone] at alive
      cases alive
    rw [tally, if_neg kept]
    refine balanced.positive handle ?_
    rwa [lives, sweeps.isLive kept] at alive

/-- Removing the garbage leaves a sound heap. -/
theorem removes_removeGarbage (sound : heap.Sound outside limbo) (settled : heap.pending = []) :
    (heap.removeGarbage heap.garbage).1 = heap.dueCallbacks ∧
      heap.Removes outside limbo (heap.removeGarbage heap.garbage).2 := by
  have clears := clearsGarbage_garbage sound
  -- In the middle registers are cleared already, and the garbage is still there.
  let middle := (heap.clearGarbage heap.isGarbage heap.garbage).2
  have live (place : Handle) (member : place ∈ heap.garbage) : heap.isLive place :=
    ((mem_garbage sound.balanced settled).mp member).1
  have liveMiddle (place : Handle) (member : place ∈ heap.garbage) : middle.isLive place :=
    (clears.isLive sound.watched place).trans (live place member)
  obtain ⟨left, sweeps, total⟩ := sweeps_sweep middle heap.isGarbage heap.garbage []
    heap.nodup_garbage liveMiddle
  rw [Multiset.coe_nil, add_zero] at total
  let swept := middle.sweep heap.isGarbage [] heap.garbage
  have removed : heap.removeGarbage heap.garbage =
      ((heap.clearGarbage heap.isGarbage heap.garbage).1,
        { swept.2 with pending := swept.1 ++ swept.2.pending }) := rfl
  have settledMiddle : middle.pending = [] := clears.steady.pending.trans settled
  have pending : swept.1 ++ swept.2.pending = swept.1 := by
    rw [sweeps.pending, settledMiddle, List.append_nil]
  have payloads := payload?_swept sound.watched clears sweeps
  have survives {handle : Handle} (sustained : heap.Sustained outside handle) :
      handle ∉ heap.garbage := ((sustained_iff sound settled).mp sustained).2
  rw [removed]
  refine ⟨clears.due, payloads, fun other => ?_, ?_, ?_,
    ⟨?_, ?_, ?_, sound.formed.mono fun handle later found => ?_⟩, fun handle member => ?_, ?_⟩
  · exact (sweeps.births other).trans (clears.steady.births other)
  · exact sweeps.releasing.trans (congrArg Heap.releasing clears.steady.books :)
  · exact sweeps.unraisable.trans (congrArg Heap.unraisable clears.steady.books :)
  · have middleBalanced := clears.balanced outside sound.balanced
    rw [clears.due] at middleBalanced
    refine sweeps.balanced middleBalanced settledMiddle heap.nodup_garbage liveMiddle
      (fun _ => isGarbage_iff) (fun handle gone owned => ?_)
      (fun handle gone place kept held =>
        survives (clears.sustained_of_visits sound settled kept held) gone) rfl ?_
    · rcases Multiset.mem_add.mp owned with member | member
      · exact survives (.of_mem member) gone
      · exact survives (sustained_of_mem_debts sound settled member) gone
    · show ((swept.1 ++ swept.2.pending : List Handle) : Multiset Handle) = left
      rw [pending, total]
  · exact sound.watched.swept payloads
  · have housed := sweeps.housed limbo
      (clears.steady.housed (clears.isLive sound.watched) sound.housed)
    exact ⟨housed.vacant, housed.apart⟩
  · have survived := (payloads handle).symm.trans found
    split at survived
    · cases survived
    · obtain ⟨payload, held, rfl⟩ := Option.map_eq_some_iff.mp survived
      exact ⟨payload, held, payload.continues_without _⟩
  · have inLeft : handle ∈ left := by
      rw [← total]
      exact pending ▸ member
    rw [sweeps.left, Multiset.mem_coe] at inLeft
    exact clears.sustained_of_left sound settled inLeft
  · have sameVisits : heap.garbage.flatMap middle.visits = heap.garbage.flatMap heap.visits :=
      List.flatMap_congr fun place member => clears.visits_of_mem member
    show (swept.1 ++ swept.2.pending).length ≤ _
    rw [pending, ← Multiset.coe_card, total, sweeps.left, Multiset.coe_card, sameVisits]
    exact (List.length_filter_le _ _).trans (length_flatMap_visits_le heap.nodup_garbage live)

theorem isGarbage_eq (heap : Heap Code) :
    heap.isGarbage = fun other => decide (other ∈ heap.garbage) := by
  funext other
  rw [Bool.eq_iff_iff, isGarbage_iff, decide_eq_true_eq]

/-- Removing the garbage frees it, and the callbacks that are due are called for no garbage. -/
theorem purges_removeGarbage (sound : heap.Sound outside limbo) (settled : heap.pending = []) :
    heap.Purges heap.garbage (heap.removeGarbage heap.garbage).1
      (heap.removeGarbage heap.garbage).2 := by
  obtain ⟨due, removes⟩ := removes_removeGarbage sound settled
  have live (handle : Handle) (member : handle ∈ heap.garbage) : heap.isLive handle :=
    ((mem_garbage sound.balanced settled).mp member).1
  refine ⟨rfl, heap.nodup_garbage, live, fun handle member => ?_, sound.watched, ?_, ?_,
    removes.births, removes.releasing, removes.unraisable⟩
  · obtain ⟨entry, held⟩ := (heap.isLive_iff handle).mp (live handle member)
    exact sound.housed.unlisted held
  · rw [due, dueCallbacks, isGarbage_eq]
  · rw [← isGarbage_eq]
    exact removes.payloads

/-- Whatever callback is due after the removal of some entries, its weak reference was cleared. -/
theorem Purges.cleared {removed : List Handle} {callbacks : List (Handle × Value)}
    (purges : before.Purges removed callbacks after) {pair : Handle × Value}
    (member : pair ∈ callbacks) : after.Cleared pair.1 := by
  rw [purges.due] at member
  obtain ⟨place, gone, chosen⟩ := List.mem_flatMap.mp member
  obtain ⟨weakref, registered, same⟩ := List.mem_filterMap.mp chosen
  split at same
  · cases same
  · rename_i kept
    obtain ⟨callback, _, rfl⟩ := Option.map_eq_some_iff.mp same
    obtain ⟨data, held, aimed⟩ :=
      target?_eq_some.mp ((purges.watched.registered weakref place).mpr registered)
    refine ⟨{ target := none, callback := none }, ?_, rfl⟩
    rw [purges.payloads, if_neg (by simpa using kept), held]
    simp [Payload.without, Payload.target?, aimed, gone, deadWeakref]

/-- Removing the garbage carries the frame along. -/
theorem Removes.carries (removes : before.Removes outside limbo after)
    (sound : before.Sound outside limbo) (settled : before.pending = []) (sub : frame ⊆ outside)
    (silent : calm → before.dueCallbacks = []) : before.Carries calm frame after := by
  have without {handle : Handle} {later : Payload Code} (reached : after.payload? handle = some later) :
      ∃ payload, before.payload? handle = some payload ∧
        later = payload.without before.isGarbage := by
    rw [removes.payloads] at reached
    split at reached
    · cases reached
    · obtain ⟨payload, held, same⟩ := Option.map_eq_some_iff.mp reached
      exact ⟨payload, held, same.symm⟩
  refine .of_steady removes.births (fun handle live => ?_)
    (fun handle payload later held reached => ?_) (fun still handle payload sustained held => ?_)
    sound.balanced sub
  · rw [isLive_eq_payload?, Option.isSome_iff_exists] at live
    obtain ⟨later, reached⟩ := live
    obtain ⟨payload, held, _⟩ := without reached
    exact isLive_of_payload? held
  · obtain ⟨same, found, rfl⟩ := without reached
    rw [held] at found
    cases found
    exact payload.continues_without _
  · have kept := ((sustained_iff sound settled).mp (sustained.mono sub)).2
    refine ⟨payload.without before.isGarbage, ?_, ?_⟩
    · rw [removes.payloads, if_neg kept, held]
      rfl
    · unfold Payload.without
      split
      · rename_i aimed
        obtain ⟨target, aim, gone⟩ := (Option.any_eq_true _ _).mp aimed
        cases payload with
        | weakref data =>
          refine ⟨?_, Or.inr rfl⟩
          have registered : handle ∈ before.watchers target :=
            (sound.watched.registered _ _).mp ((target?_of_payload? held).trans aim)
          have nothingDue := List.flatMap_eq_nil_iff.mp (silent still) target (isGarbage_iff.mp gone)
          have absent := List.filterMap_eq_nil_iff.mp nothingDue handle registered
          rw [if_neg (Bool.eq_false_iff.mp (isGarbage_eq_false.mpr kept)), Option.map_eq_none_iff,
            callback?, held] at absent
          exact absent.symm
        | _ => cases aim
      · exact Payload.alike_mapWatchers payload _

/-- Survivors are still held once the garbage is gone, some of them by callbacks that are due. -/
theorem Removes.sustained (removes : before.Removes outside limbo after)
    (sound : before.Sound outside limbo) (settled : before.pending = []) {handle : Handle}
    (sustained : before.Sustained outside handle) :
    after.Sustained (outside + debts before.dueCallbacks) handle := by
  refine sustained.induction (fun root member => .of_mem (Multiset.mem_add.mpr (Or.inl member))) ?_
  intro source target reached inductionHypothesis refers
  have kept := ((sustained_iff sound settled).mp reached).2
  unfold Refers Heap.visits at refers
  cases held : before.payload? source with
  | none =>
    rw [held] at refers
    cases refers
  | some payload =>
    rw [held] at refers
    have later : after.payload? source = some (payload.without before.isGarbage) := by
      rw [removes.payloads, if_neg kept, held]
      rfl
    -- A weak reference whose target goes drops its callback, which is due then and held as such.
    by_cases aimed : payload.target?.any before.isGarbage
    · obtain ⟨place, aim, gone⟩ := (Option.any_eq_true _ _).mp aimed
      refine .of_mem (Multiset.mem_add.mpr (Or.inr (mem_debts.mpr ?_)))
      cases payload with
      | weakref data =>
        obtain ⟨callback, called, owned⟩ := Option.bind_eq_some_iff.mp (Option.mem_toList.mp refers)
        have registered : source ∈ before.watchers place :=
          (sound.watched.registered _ _).mp ((target?_of_payload? held).trans aim)
        refine ⟨(source, callback), List.mem_flatMap.mpr ⟨place, isGarbage_iff.mp gone,
          List.mem_filterMap.mpr ⟨source, registered, ?_⟩⟩, Or.inr ?_⟩
        · rw [if_neg (Bool.eq_false_iff.mp (isGarbage_eq_false.mpr kept)), callback?, held]
          exact congrArg (Option.map fun callback => (source, callback)) called
        · cases callback with
          | ref handle =>
            cases owned
            exact Multiset.mem_singleton_self _
          | _ => cases owned
      | _ => cases aim
    · refine inductionHypothesis.step ?_
      unfold Refers Heap.visits
      rw [later, Payload.without, if_neg aimed]
      show target ∈ (payload.mapWatchers _).visits
      rw [Payload.visits_mapWatchers]
      exact refers

end ObjectHeap.Heap
