/-
This file establishes that weak references and the registers of their targets keep agreeing. A
weak reference is forgotten on both sides, when it is cleared or when it dies, and it is
enrolled on both sides. Clearing the register of an entry clears every weak reference in it,
hands each callback out, and takes a reference to each weak reference whose callback is due.
-/

import ObjectHeap.Proofs.Evolution

namespace ObjectHeap.Heap

variable {Code : Type} (heap : Heap Code)

/-! ### Payloads and births after a change -/

theorem payload?_setEntry (handle other : Handle) :
    (heap.setEntry handle none).payload? other =
      if other = handle then none else heap.payload? other := by
  rw [payload?_eq, occupant?_setEntry, ite_self, payload?_eq]
  split <;> rfl

theorem payload?_mapPayload (handle other : Handle) (change : Payload Code → Payload Code) :
    (heap.mapPayload handle change).payload? other =
      if other = handle then (heap.payload? other).map change else heap.payload? other := by
  rw [payload?_eq, occupant?_mapPayload, payload?_eq]
  split
  · rw [Option.map_map, Option.map_map]
    rfl
  · rfl

/-- A change of counts keeps all payloads. -/
theorem payload?_mapEntry_count (handle other : Handle) (change : Nat → Nat) :
    (heap.mapEntry handle fun entry => { entry with count := change entry.count }).payload? other =
      heap.payload? other := by
  rw [payload?_eq, payload?_eq, occupant?_mapEntry]
  split
  · rw [Option.map_map]
    rfl
  · rfl

theorem payload?_increment (handle other : Handle) :
    (heap.increment handle).payload? other = heap.payload? other :=
  heap.payload?_mapEntry_count handle other (· + 1)

theorem isLive_eq_payload? (handle : Handle) :
    heap.isLive handle = (heap.payload? handle).isSome := by
  rw [payload?_eq, Option.isSome_map, isLive_eq]

theorem isLive_mapEntry (handle other : Handle) (change : Entry Code → Entry Code) :
    (heap.mapEntry handle change).isLive other = heap.isLive other := by
  rw [isLive_eq, isLive_eq, occupant?_mapEntry]
  split
  · exact Option.isSome_map
  · rfl

theorem isLive_increment (handle other : Handle) :
    (heap.increment handle).isLive other = heap.isLive other :=
  heap.isLive_mapEntry handle other _

theorem isLive_mapPayload (handle other : Handle) (change : Payload Code → Payload Code) :
    (heap.mapPayload handle change).isLive other = heap.isLive other :=
  heap.isLive_mapEntry handle other _

/-- A change of slots that keeps their generations keeps what they have held. -/
theorem births_modify (handle other : Handle) (change : Slot Code → Slot Code)
    (steady : ∀ slot, (change slot).generation = slot.generation) :
    { heap with slots := heap.slots.modify handle change }.births other = heap.births other := by
  unfold births
  rw [Array.getElem?_modify]
  by_cases same : handle = other
  · rw [if_pos same, Option.map_map]
    exact congrArg (fun number => (Option.map number heap.slots[other]?).getD 0)
      (funext fun slot => congrArg (· + 1) (steady slot))
  · rw [if_neg same]

@[simp] theorem births_setEntry (handle other : Handle) (entry : Option (Entry Code)) :
    (heap.setEntry handle entry).births other = heap.births other :=
  heap.births_modify handle other _ fun _ => rfl

@[simp] theorem births_mapEntry (handle other : Handle) (change : Entry Code → Entry Code) :
    (heap.mapEntry handle change).births other = heap.births other :=
  heap.births_modify handle other _ fun _ => rfl

@[simp] theorem births_mapPayload (handle other : Handle) (change : Payload Code → Payload Code) :
    (heap.mapPayload handle change).births other = heap.births other :=
  heap.births_mapEntry handle other _

@[simp] theorem births_increment (handle other : Handle) :
    (heap.increment handle).births other = heap.births other :=
  heap.births_mapEntry handle other _

variable {heap}

theorem births_congr {before after : Heap Code} (same : after.slots = before.slots)
    (handle : Handle) : after.births handle = before.births handle := by
  unfold births
  rw [same]

theorem occupant?_congr {before after : Heap Code} (same : after.slots = before.slots)
    (handle : Handle) : after.occupant? handle = before.occupant? handle := by
  unfold occupant?
  rw [same]

theorem payload?_congr {before after : Heap Code} {handle : Handle}
    (same : after.occupant? handle = before.occupant? handle) :
    after.payload? handle = before.payload? handle := by
  rw [payload?_eq, payload?_eq, same]

theorem isLive_congr {before after : Heap Code} {handle : Handle}
    (same : after.payload? handle = before.payload? handle) :
    after.isLive handle = before.isLive handle := by
  rw [isLive_eq_payload?, isLive_eq_payload?, same]

/-- An entry is as live as it was, whatever its payload has turned into. -/
theorem isLive_of_map {before after : Heap Code} {handle : Handle} {change : Payload Code → Payload Code}
    (turned : after.payload? handle = (before.payload? handle).map change) :
    after.isLive handle = before.isLive handle := by
  rw [isLive_eq_payload?, isLive_eq_payload?, turned, Option.isSome_map]

theorem target?_congr {before after : Heap Code} {handle : Handle}
    (same : after.payload? handle = before.payload? handle) :
    after.target? handle = before.target? handle := by
  unfold target?
  rw [same]

theorem watchers_congr {before after : Heap Code} {handle : Handle}
    (same : after.payload? handle = before.payload? handle) :
    after.watchers handle = before.watchers handle := by
  unfold watchers
  rw [same]

/-- Nothing comes to be in a slot, and what is there stays what it is. -/
theorem Evolves.of_steady {before after : Heap Code}
    (births : ∀ handle, after.births handle = before.births handle)
    (lives : ∀ handle, after.isLive handle → before.isLive handle)
    (continues : ∀ handle payload later, before.payload? handle = some payload →
      after.payload? handle = some later → payload.Continues later) :
    before.Evolves after where
  older handle := (births handle).ge
  reborn handle empty live := by
    have alive := lives handle live
    rw [isLive_eq, empty] at alive
    cases alive
  continues handle payload later held reached _ := continues handle payload later held reached
  aims _ target _ _ _ := births target
  consists _ _ target _ _ _ _ := births target

/-- A change of entries that makes no slot and leaves the books alone. -/
structure Steady (before after : Heap Code) : Prop where
  births : ∀ handle, after.births handle = before.births handle
  books : after.books = before.books

namespace Steady

variable {before middle after : Heap Code}

theorem refl (heap : Heap Code) : heap.Steady heap := ⟨fun _ => rfl, rfl⟩

theorem trans (first : before.Steady middle) (second : middle.Steady after) :
    before.Steady after where
  births handle := (second.births handle).trans (first.births handle)
  books := second.books.trans first.books

theorem mapEntry (heap : Heap Code) (handle : Handle) (change : Entry Code → Entry Code) :
    heap.Steady (heap.mapEntry handle change) :=
  ⟨fun other => heap.births_mapEntry handle other change, rfl⟩

theorem mapPayload (heap : Heap Code) (handle : Handle) (change : Payload Code → Payload Code) :
    heap.Steady (heap.mapPayload handle change) :=
  mapEntry heap handle _

theorem increment (heap : Heap Code) (handle : Handle) : heap.Steady (heap.increment handle) :=
  mapEntry heap handle _

theorem pending (steady : before.Steady after) : after.pending = before.pending :=
  (congrArg Heap.pending steady.books :)

/-- Empty slots stay where they are as long as they stay empty. -/
theorem housed (steady : before.Steady after) {limbo : List Handle}
    (lives : ∀ handle, after.isLive handle = before.isLive handle)
    (housed : before.Housed limbo) : after.Housed limbo := by
  have free : after.free = before.free := (congrArg Heap.free steady.books :)
  have pool : after.pool = before.pool := (congrArg Heap.pool steady.books :)
  constructor
  · intro handle
    have empty := lives handle
    rw [isLive_eq, isLive_eq, Bool.eq_iff_iff, Option.isSome_iff_ne_none,
      Option.isSome_iff_ne_none, not_iff_not] at empty
    rw [free, pool, steady.births, empty]
    exact housed.vacant handle
  · rw [free, pool]
    exact housed.apart

end Steady

/-! ### Agreement -/

namespace Watched

variable {before after : Heap Code}

/-- Weak references and registers are all that counts. -/
theorem congr (watched : before.Watched)
    (targets : ∀ weakref, after.target? weakref = before.target? weakref)
    (registers : ∀ target, after.watchers target = before.watchers target) : after.Watched where
  registered weakref target := by
    rw [targets, registers]
    exact watched.registered weakref target
  once target := by
    rw [registers]
    exact watched.once target

/-- Weak references may be forgotten, as long as that happens on both sides. -/
theorem forget (watched : before.Watched) (gone : Handle → Bool)
    (targets : ∀ weakref,
      after.target? weakref = if gone weakref then none else before.target? weakref)
    (registers : ∀ target,
      after.watchers target = (before.watchers target).filter fun weakref => !gone weakref) :
    after.Watched where
  registered weakref target := by
    rw [targets, registers, List.mem_filter, ← watched.registered]
    cases gone weakref <;> simp
  once target := by
    rw [registers]
    exact (watched.once target).filter _

/-- A new weak reference is enrolled with its target. -/
theorem enroll (watched : before.Watched) {weakref target : Handle}
    (fresh : ∀ other, weakref ∉ before.watchers other)
    (targets : ∀ other,
      after.target? other = if other = weakref then some target else before.target? other)
    (registers : ∀ other, after.watchers other =
      if other = target then before.watchers other ++ [weakref] else before.watchers other) :
    after.Watched where
  registered one other := by
    have agree := watched.registered one other
    have absent := fresh other
    rw [targets, registers]
    by_cases new : one = weakref
    · rw [if_pos new, Option.some_inj, new]
      by_cases here : other = target
      · simp [here]
      · simp [here, absent, Ne.symm here]
    · rw [if_neg new, agree]
      by_cases here : other = target <;> simp [here, new]
  once other := by
    rw [registers]
    split
    · exact nodup_concat (watched.once other) (fresh other)
    · exact watched.once other

/-- Nothing is registered twice over: a weak reference is in the register of its target only. -/
theorem eq_of_mem (watched : before.Watched) {weakref one other : Handle}
    (here : weakref ∈ before.watchers one) (there : weakref ∈ before.watchers other) :
    one = other := by
  rw [← watched.registered] at here there
  exact Option.some_inj.mp (here.symm.trans there)

/-- An empty slot is in no register. -/
theorem not_mem_of_empty (watched : before.Watched) {weakref : Handle}
    (empty : before.payload? weakref = none) (target : Handle) :
    weakref ∉ before.watchers target := by
  rw [← watched.registered]
  unfold target?
  rw [empty]
  exact nofun

end Watched

/-! ### Clearing a register -/

/-- What is left of a weak reference that was cleared. -/
def deadWeakref : Payload Code :=
  .weakref { target := none, callback := none }

/-- The callback of a weak reference that was not cleared yet. -/
def callbackOf : Payload Code → Option Value
  | .weakref data => data.callback
  | _ => none

/-- The callback of the weak reference in a slot. -/
def callback? (heap : Heap Code) (weakref : Handle) : Option Value :=
  (heap.payload? weakref).bind callbackOf

/-- The callbacks of some weak references, leaving out those that are skipped. -/
def due (heap : Heap Code) (skipped : Handle → Bool) (weakrefs : List Handle) :
    List (Handle × Value) :=
  weakrefs.filterMap fun weakref =>
    if skipped weakref then none else (heap.callback? weakref).map fun callback => (weakref, callback)

/-- The references that callbacks take along: one to each weak reference, and the callback. -/
def debts (callbacks : List (Handle × Value)) : Multiset Handle :=
  owned (callbacks.flatMap fun pair => [.ref pair.1, pair.2])

@[simp] theorem debts_nil : debts [] = 0 := rfl

@[simp] theorem debts_cons (pair : Handle × Value) (rest : List (Handle × Value)) :
    debts (pair :: rest) = {pair.1} + pair.2.owns + debts rest := by
  unfold debts
  rw [List.flatMap_cons, owned_append]
  simp

theorem debts_append (callbacks others : List (Handle × Value)) :
    debts (callbacks ++ others) = debts callbacks + debts others := by
  unfold debts
  rw [List.flatMap_append, owned_append]

theorem mem_debts {callbacks : List (Handle × Value)} {handle : Handle} :
    handle ∈ debts callbacks ↔ ∃ pair ∈ callbacks, handle = pair.1 ∨ handle ∈ pair.2.owns := by
  induction callbacks with
  | nil => simp
  | cons pair rest inductionHypothesis =>
    simp [debts_cons, inductionHypothesis, or_assoc]

theorem callback?_congr {before after : Heap Code} {weakref : Handle}
    (same : after.payload? weakref = before.payload? weakref) :
    after.callback? weakref = before.callback? weakref := by
  unfold callback?
  rw [same]

section

variable (heap : Heap Code) (target : Handle) (skipped : Handle → Bool)

/-- Clearing a weak reference to the target takes its callback out. -/
theorem clear_of_target {weakref : Handle} (aimed : heap.target? weakref = some target) :
    heap.clear target weakref =
      (heap.callback? weakref, heap.mapPayload weakref fun _ => deadWeakref) := by
  obtain ⟨data, held, targeted⟩ := target?_eq_some.mp aimed
  unfold clear callback?
  rw [held]
  dsimp only [Option.bind_some]
  rw [if_pos targeted]
  rfl

theorem payload?_clear {weakref : Handle} (aimed : heap.target? weakref = some target)
    (other : Handle) :
    (heap.clear target weakref).2.payload? other =
      if other = weakref then some deadWeakref else heap.payload? other := by
  obtain ⟨data, held, _⟩ := target?_eq_some.mp aimed
  rw [clear_of_target heap target aimed, payload?_mapPayload]
  split
  · rename_i same
    rw [same, held]
    rfl
  · rfl

end

/-- A weak reference that is not skipped is cleared before the others. -/
theorem clearAll_cons (heap : Heap Code) (target : Handle) {skipped : Handle → Bool}
    {weakref : Handle} (kept : skipped weakref = false) (rest : List Handle) :
    heap.clearAll target skipped (weakref :: rest) =
      (((heap.clear target weakref).1.map fun callback => (weakref, callback)).toList ++
          ((heap.clear target weakref).2.clearAll target skipped rest).1,
        ((heap.clear target weakref).2.clearAll target skipped rest).2) := by
  rw [clearAll, if_neg (Bool.eq_false_iff.mp kept)]
  dsimp only
  cases (heap.clear target weakref).1 <;> rfl

/-- Clearing weak references to one target leaves of each of them a dead one, and hands the
callbacks out. -/
theorem clearAll_spec (heap : Heap Code) (target : Handle) (skipped : Handle → Bool)
    (weakrefs : List Handle) (distinct : weakrefs.Nodup)
    (aimed : ∀ weakref ∈ weakrefs, heap.target? weakref = some target) :
    (heap.clearAll target skipped weakrefs).1 = heap.due skipped weakrefs ∧
      ∀ other, (heap.clearAll target skipped weakrefs).2.payload? other =
        if other ∈ weakrefs ∧ skipped other = false then some deadWeakref
        else heap.payload? other := by
  induction weakrefs generalizing heap with
  | nil => simp [clearAll, due]
  | cons weakref rest inductionHypothesis =>
    obtain ⟨absent, distinctRest⟩ := List.nodup_cons.mp distinct
    have here := aimed weakref List.mem_cons_self
    have aimedRest (other : Handle) (member : other ∈ rest) :=
      aimed other (List.mem_cons_of_mem weakref member)
    -- Clearing one weak reference leaves the others alone, since none is listed twice.
    cases skip : skipped weakref with
    | true =>
      obtain ⟨callbacks, payloads⟩ := inductionHypothesis heap distinctRest aimedRest
      rw [clearAll, if_pos skip]
      refine ⟨callbacks.trans (by simp [due, skip]), fun other => ?_⟩
      rw [payloads other]
      by_cases same : other = weakref
      · simp [same, skip, absent]
      · simp [same]
    | false =>
      have unchanged (other : Handle) (member : other ∈ rest) :
          (heap.clear target weakref).2.payload? other = heap.payload? other := by
        rw [payload?_clear heap target here, if_neg]
        rintro rfl
        exact absent member
      obtain ⟨callbacks, payloads⟩ := inductionHypothesis (heap.clear target weakref).2 distinctRest
        fun other member => (target?_congr (unchanged other member)).trans (aimedRest other member)
      have callbacksRest : (heap.clear target weakref).2.due skipped rest = heap.due skipped rest :=
        List.filterMap_congr fun other member => by
          rw [callback?_congr (unchanged other member)]
      rw [clearAll_cons heap target skip]
      refine ⟨?_, fun other => ?_⟩
      · rw [callbacks, callbacksRest, clear_of_target heap target here]
        cases found : heap.callback? weakref <;> simp [due, skip, found]
      · rw [payloads other, payload?_clear heap target here]
        by_cases same : other = weakref
        · simp [same, skip, absent]
        · simp [same]

/-- A reference is taken to a live entry. -/
theorem Balanced.increment {heap : Heap Code} {outside : Multiset Handle} {handle : Handle}
    (balanced : heap.Balanced outside) (live : heap.isLive handle) :
    (heap.increment handle).Balanced (outside + {handle}) := by
  obtain ⟨entry, occupied⟩ := (heap.isLive_iff handle).mp live
  refine balanced.recount (entry.count + 1) occupied ?_ ?_ rfl (Nat.succ_pos _) ?_
  · rw [occupant?_increment, if_pos rfl, occupied]
    rfl
  · intro other different
    rw [occupant?_increment, if_neg different]
  · rw [Multiset.replicate_succ, Multiset.cons_add, ← Multiset.singleton_add]
    abel

/-- A cleared weak reference leaves its callback outside. -/
theorem Balanced.clear {heap : Heap Code} {outside : Multiset Handle} {target weakref : Handle}
    (balanced : heap.Balanced outside) (aimed : heap.target? weakref = some target) :
    (heap.clear target weakref).2.Balanced
      (outside + owned (heap.clear target weakref).1.toList) := by
  obtain ⟨data, held, _⟩ := target?_eq_some.mp aimed
  obtain ⟨entry, occupied, same⟩ := heap.payload?_eq_some.mp held
  rw [clear_of_target heap target aimed]
  refine balanced.exchange deadWeakref occupied ?_ ?_ rfl ?_
  · rw [occupant?_mapPayload, if_pos rfl, occupied]
    rfl
  · intro other different
    rw [occupant?_mapPayload, if_neg different]
  · rw [same, Payload.owns_weakref, callback?, held, deadWeakref, Payload.owns_weakref]
    simp only [Option.toList_none, owned_nil, Option.bind_some, callbackOf]
    abel

theorem Steady.clear (heap : Heap Code) (target weakref : Handle) :
    heap.Steady (heap.clear target weakref).2 := by
  unfold Heap.clear
  split
  · split
    · exact Steady.mapPayload heap weakref fun _ => deadWeakref
    · exact .refl heap
  · exact .refl heap

theorem Steady.clearAll (heap : Heap Code) (target : Handle) (skipped : Handle → Bool)
    (weakrefs : List Handle) : heap.Steady (heap.clearAll target skipped weakrefs).2 := by
  induction weakrefs generalizing heap with
  | nil => exact .refl heap
  | cons weakref rest inductionHypothesis =>
    cases skip : skipped weakref with
    | true =>
      rw [Heap.clearAll, if_pos skip]
      exact inductionHypothesis heap
    | false =>
      rw [clearAll_cons heap target skip]
      exact (Steady.clear heap target weakref).trans (inductionHypothesis _)

/-- What is taken out of the weak references that are cleared is owned outside. -/
theorem Balanced.clearAll {heap : Heap Code} {outside : Multiset Handle} {target : Handle}
    {skipped : Handle → Bool} {weakrefs : List Handle} (balanced : heap.Balanced outside)
    (distinct : weakrefs.Nodup)
    (aimed : ∀ weakref ∈ weakrefs, heap.target? weakref = some target) :
    (heap.clearAll target skipped weakrefs).2.Balanced
      (outside + owned ((heap.clearAll target skipped weakrefs).1.map Prod.snd)) := by
  induction weakrefs generalizing heap outside with
  | nil => simpa [Heap.clearAll] using balanced
  | cons weakref rest inductionHypothesis =>
    obtain ⟨absent, distinctRest⟩ := List.nodup_cons.mp distinct
    cases skip : skipped weakref with
    | true =>
      rw [Heap.clearAll, if_pos skip]
      exact inductionHypothesis balanced distinctRest fun other member =>
        aimed other (List.mem_cons_of_mem weakref member)
    | false =>
      have here := aimed weakref List.mem_cons_self
      have aimedRest (other : Handle) (member : other ∈ rest) :
          (heap.clear target weakref).2.target? other = some target := by
        rw [← aimed other (List.mem_cons_of_mem weakref member)]
        refine target?_congr ?_
        rw [payload?_clear heap target here, if_neg]
        rintro rfl
        exact absent member
      have cleared := inductionHypothesis (balanced.clear here) distinctRest aimedRest
      rw [clearAll_cons heap target skip]
      dsimp only
      rw [List.map_append, owned_append, ← add_assoc]
      convert cleared using 4
      cases (heap.clear target weakref).1 <;> rfl

/-! ### Taking references to what was cleared -/

/-- Taking references to some entries, in order. -/
theorem foldl_increment_spec (heap : Heap Code) (callbacks : List (Handle × Value))
    (other : Handle) :
    (callbacks.foldl (fun heap pair => heap.increment pair.1) heap).payload? other =
      heap.payload? other := by
  induction callbacks generalizing heap with
  | nil => rfl
  | cons pair rest inductionHypothesis =>
    rw [List.foldl_cons, inductionHypothesis, payload?_increment]

theorem Steady.foldl_increment (heap : Heap Code) (callbacks : List (Handle × Value)) :
    heap.Steady (callbacks.foldl (fun heap pair => heap.increment pair.1) heap) := by
  induction callbacks generalizing heap with
  | nil => exact .refl heap
  | cons pair rest inductionHypothesis =>
    exact (Steady.increment heap pair.1).trans (inductionHypothesis _)

theorem Balanced.foldl_increment {heap : Heap Code} {outside : Multiset Handle}
    {callbacks : List (Handle × Value)} (balanced : heap.Balanced outside)
    (live : ∀ pair ∈ callbacks, heap.isLive pair.1) :
    (callbacks.foldl (fun heap pair => heap.increment pair.1) heap).Balanced
      (outside + (callbacks.map Prod.fst : List Handle)) := by
  induction callbacks generalizing heap outside with
  | nil => simpa using balanced
  | cons pair rest inductionHypothesis =>
    have taken := balanced.increment (live pair List.mem_cons_self)
    have more := inductionHypothesis taken fun other member =>
      (heap.isLive_increment _ _).trans (live other (List.mem_cons_of_mem pair member))
    rw [List.foldl_cons, List.map_cons, ← Multiset.cons_coe, ← Multiset.singleton_add, ← add_assoc]
    exact more

theorem debts_eq (callbacks : List (Handle × Value)) :
    debts callbacks =
      owned (callbacks.map Prod.snd) + ((callbacks.map Prod.fst : List Handle) : Multiset Handle) := by
  induction callbacks with
  | nil => rfl
  | cons pair rest inductionHypothesis =>
    rw [debts_cons, inductionHypothesis, List.map_cons, List.map_cons, owned_cons,
      ← Multiset.cons_coe, ← Multiset.singleton_add]
    abel

/-- What clearing the register of a target comes to: the callbacks that are due, dead weak
references, and the references that the callbacks take along. -/
structure ClearsRegister (before : Heap Code) (skipped : Handle → Bool) (weakrefs : List Handle)
    (callbacks : List (Handle × Value)) (after : Heap Code) : Prop where
  due : callbacks = before.due skipped weakrefs
  payloads : ∀ other, after.payload? other =
    if other ∈ weakrefs ∧ skipped other = false then some deadWeakref else before.payload? other
  steady : before.Steady after
  balanced : ∀ outside, before.Balanced outside → after.Balanced (outside + debts callbacks)

theorem clearsRegister_clearWatchers (heap : Heap Code) (target : Handle)
    (skipped : Handle → Bool) (weakrefs : List Handle) (distinct : weakrefs.Nodup)
    (aimed : ∀ weakref ∈ weakrefs, heap.target? weakref = some target) :
    heap.ClearsRegister skipped weakrefs (heap.clearWatchers target skipped weakrefs).1
      (heap.clearWatchers target skipped weakrefs).2 := by
  obtain ⟨callbacks, payloads⟩ := clearAll_spec heap target skipped weakrefs distinct aimed
  unfold clearWatchers
  dsimp only
  refine ⟨callbacks, fun other => ?_, (Steady.clearAll heap target skipped weakrefs).trans
    (.foldl_increment _ _), fun outside balanced => ?_⟩
  · rw [foldl_increment_spec, payloads]
  · rw [debts_eq, ← add_assoc]
    refine (balanced.clearAll distinct aimed).foldl_increment fun pair member => ?_
    rw [callbacks, due, List.mem_filterMap] at member
    obtain ⟨weakref, inRegister, chosen⟩ := member
    split at chosen
    · cases chosen
    · rename_i kept
      obtain ⟨callback, _, same⟩ := Option.map_eq_some_iff.mp chosen
      rw [← same, isLive_eq_payload?, payloads, if_pos ⟨inRegister, Bool.eq_false_iff.mpr kept⟩]
      rfl

end ObjectHeap.Heap
