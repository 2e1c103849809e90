/-
This file follows a heap without callbacks through what an operation does to it beside its own
business: references are taken and given up, allocations are counted, cycles are collected. Some
entries are gone afterwards and all others have forgotten them; while releases are worked off, not
even that. Whatever is sustained by references that others hold stays as it was, except that it
forgets what is gone.
-/

import ObjectHeap.Proofs.Observation
import ObjectHeap.Proofs.Shedding

namespace ObjectHeap

variable {Code Host α β : Type}

/-- A payload that forgets what is gone stays alike, unless it loses a callback. -/
theorem Payload.alike_without {payload : Payload Code} (quiet : Heap.callbackOf payload = none)
    (gone : Handle → Bool) : payload.Alike (payload.without gone) := by
  unfold without
  split
  · rename_i aimed
    cases payload with
    | weakref data => exact ⟨quiet.symm, Or.inr rfl⟩
    | _ => cases aimed
  · exact payload.alike_mapWatchers _

namespace Heap

variable {heap before middle after : Heap Code} {outside others frame less : Multiset Handle}
  {limbo : List Handle} {place : Handle} {payload : Payload Code}

/-! ### Calm heaps -/

/-- A sound heap without callbacks. Unless releases are being worked off, nothing waits and no slot
is in limbo. -/
structure Calm (heap : Heap Code) (outside : Multiset Handle) (limbo : List Handle) : Prop where
  sound : heap.Sound outside limbo
  silent : heap.Silent
  settled : heap.releasing = false → heap.pending = [] ∧ limbo = []

/-- A heap at rest is calm. -/
theorem AtRest.calm (rest : heap.AtRest outside) : heap.Calm outside [] :=
  ⟨rest.sound, rest.silent, fun _ => ⟨rest.settled, rfl⟩⟩

namespace Calm

theorem congr (calm : heap.Calm outside limbo) (same : outside = others) :
    heap.Calm others limbo := same ▸ calm

/-- A calm heap is at rest unless releases are being worked off. -/
theorem atRest (calm : heap.Calm outside limbo) (idle : heap.releasing = false) :
    heap.AtRest outside ∧ limbo = [] := by
  obtain ⟨settled, nothing⟩ := calm.settled idle
  exact ⟨⟨nothing ▸ calm.sound, calm.silent, idle, settled⟩, nothing⟩

/-- Books that are kept beside the slots are of no account, but for what waits. -/
theorem of_slots (calm : before.Calm outside limbo) (slots : after.slots = before.slots)
    (free : after.free = before.free) (pool : after.pool = before.pool)
    (releasing : after.releasing = before.releasing)
    (waiting : (after.pending : Multiset Handle) + others =
      (before.pending : Multiset Handle) + outside)
    (settled : before.releasing = false → after.pending = []) : after.Calm others limbo where
  sound := calm.sound.of_slots slots free pool waiting
  silent weakref := (callback?_congr (payload?_congr (occupant?_congr slots weakref))).trans
    (calm.silent weakref)
  settled idle := by
    have started := releasing.symm.trans idle
    exact ⟨settled started, (calm.settled started).2⟩

/-- One more reference is taken to what is there. -/
theorem increment (calm : heap.Calm outside limbo) (live : heap.isLive place) :
    (heap.increment place).Calm (outside + {place}) limbo where
  sound := calm.sound.increment live
  silent weakref := (callback?_congr (heap.payload?_increment place weakref)).trans
    (calm.silent weakref)
  settled := calm.settled

/-- A payload that was owned is placed in an empty slot. -/
theorem admits (calm : before.Calm (outside + payload.owns) limbo)
    (admits : before.Admits payload place after) (founded : payload.Founded before)
    (unwatched : payload.watchers = []) (aimless : payload.target? = none)
    (quiet : callbackOf payload = none) : after.Calm (outside + {place}) limbo where
  sound := admits.sound calm.sound founded unwatched aimless
  silent := admits.silent calm.silent quiet
  settled idle := by
    obtain ⟨settled, nothing⟩ := calm.settled (admits.releasing.symm.trans idle)
    exact ⟨admits.pending.trans settled, nothing⟩

/-- A payload grows. -/
theorem exchange {grown : Payload Code} {mine : Multiset Handle}
    (calm : heap.Calm (outside + mine) limbo) (held : heap.payload? place = some payload)
    (grows : payload.Grows grown) (traded : grown.owns + others = payload.owns + mine) :
    (heap.mapPayload place fun _ => grown).Calm (outside + others) limbo where
  sound := calm.sound.exchange (fun idle => (calm.settled idle).1) held grows traded
  silent weakref := by
    unfold callback?
    rw [payload?_grown held]
    split
    · exact grows.callback.trans (calm.silent.callbackOf held)
    · exact calm.silent weakref
  settled := calm.settled

end Calm

/-! ### What is gone -/

/-- Some entries are gone, and all others have forgotten them. While releases are worked off, none
is gone. -/
structure Wanes (before after : Heap Code) : Prop where
  payloads : ∃ gone : Handle → Bool, (before.releasing = true → gone = fun _ => false) ∧
    ∀ handle, after.payload? handle =
      if gone handle then none else (before.payload? handle).map (Payload.without gone)
  births : ∀ handle, after.births handle = before.births handle
  releasing : after.releasing = before.releasing

namespace Wanes

theorem of_payloads (same : ∀ handle, after.payload? handle = before.payload? handle)
    (births : ∀ handle, after.births handle = before.births handle)
    (releasing : after.releasing = before.releasing) : before.Wanes after where
  payloads := ⟨_, fun _ => rfl, Loses.nothing same⟩
  births := births
  releasing := releasing

theorem refl (heap : Heap Code) : heap.Wanes heap := .of_payloads (fun _ => rfl) (fun _ => rfl) rfl

/-- What is shed while no release is in progress is gone. -/
theorem of_sheds (sheds : before.Sheds after) (idle : before.releasing = false)
    (still : after.releasing = false) : before.Wanes after where
  payloads := by
    obtain ⟨gone, payloads⟩ := sheds.payloads
    exact ⟨gone, fun busy => Bool.noConfusion (idle.symm.trans busy), payloads⟩
  births := sheds.births
  releasing := still.trans idle.symm

theorem trans (first : before.Wanes middle) (second : middle.Wanes after) : before.Wanes after where
  payloads := by
    obtain ⟨gone, nothing, early⟩ := first.payloads
    obtain ⟨goneLater, none, late⟩ := second.payloads
    refine ⟨_, fun busy => ?_, Loses.trans early late⟩
    rw [nothing busy, none (first.releasing.trans busy)]
    rfl
  births handle := (second.births handle).trans (first.births handle)
  releasing := second.releasing.trans first.releasing

/-- What is left is what was there, but that it may have forgotten others. -/
theorem forgets (wanes : before.Wanes after) : before.Forgets after := by
  obtain ⟨_, _, loses⟩ := wanes.payloads
  exact Loses.forgets loses

/-- Whatever is there was there, and is alike. -/
theorem exists_payload? (wanes : before.Wanes after) (silent : before.Silent) {handle : Handle}
    {later : Payload Code} (held : after.payload? handle = some later) :
    ∃ payload, before.payload? handle = some payload ∧ payload.Alike later := by
  obtain ⟨gone, _, payloads⟩ := wanes.payloads
  rw [payloads] at held
  split at held
  · cases held
  · obtain ⟨payload, found, rfl⟩ := Option.map_eq_some_iff.mp held
    exact ⟨payload, found, Payload.alike_without (silent.callbackOf found) gone⟩

end Wanes

/-! ### What is sustained by others -/

/-- A slot is empty, or its entry came to be since. -/
def Renewed (before after : Heap Code) (handle : Handle) : Prop :=
  after.payload? handle = none ∨ before.births handle < after.births handle

/-- What the frame sustains is where it was, and it is as it was, except that it has forgotten what
the frame did not sustain and is gone. While releases are worked off, it has forgotten nothing. -/
structure Weathers (frame : Multiset Handle) (before after : Heap Code) : Prop where
  older : ∀ handle, before.births handle ≤ after.births handle
  releasing : after.releasing = before.releasing
  renewed : ∀ handle, before.payload? handle = none → before.Renewed after handle
  stays : ∃ gone : Handle → Bool, (before.releasing = true → gone = fun _ => false) ∧
    (∀ handle, gone handle = true → before.Renewed after handle) ∧
    ∀ handle, before.Sustained frame handle → gone handle = false ∧
      after.births handle = before.births handle ∧
      after.payload? handle = (before.payload? handle).map (Payload.without gone)
  visits : ∀ handle, before.Sustained frame handle → after.visits handle = before.visits handle

namespace Weathers

theorem of_payloads (older : ∀ handle, before.births handle ≤ after.births handle)
    (releasing : after.releasing = before.releasing)
    (renewed : ∀ handle, before.payload? handle = none → before.Renewed after handle)
    (same : ∀ handle, before.Sustained frame handle →
      after.births handle = before.births handle ∧
        after.payload? handle = before.payload? handle) : before.Weathers frame after where
  older := older
  releasing := releasing
  renewed := renewed
  stays := by
    refine ⟨fun _ => false, fun _ => rfl, fun _ => Bool.noConfusion, fun handle sustained => ?_⟩
    obtain ⟨births, payload⟩ := same handle sustained
    refine ⟨rfl, births, payload.trans ?_⟩
    cases before.payload? handle with
    | none => rfl
    | some payload => exact congrArg some payload.without_nothing.symm
  visits handle sustained := by
    unfold Heap.visits
    rw [(same handle sustained).2]

theorem refl (frame : Multiset Handle) (heap : Heap Code) : heap.Weathers frame heap :=
  .of_payloads (fun _ => le_rfl) rfl (fun _ => Or.inl) fun _ _ => ⟨rfl, rfl⟩

theorem mono (weathers : before.Weathers frame after) (sub : less ⊆ frame) : before.Weathers less after where
  older := weathers.older
  releasing := weathers.releasing
  renewed := weathers.renewed
  stays := by
    obtain ⟨gone, nothing, renewed, stays⟩ := weathers.stays
    exact ⟨gone, nothing, renewed, fun handle sustained => stays handle (sustained.mono sub)⟩
  visits handle sustained := weathers.visits handle (sustained.mono sub)

/-- The frame sustains the same entries before and after. -/
theorem sustained_iff (weathers : before.Weathers frame after) {handle : Handle} :
    after.Sustained frame handle ↔ before.Sustained frame handle := by
  constructor
  · exact .of_unchanged (fun _ => .of_mem) fun source _ held => (weathers.visits source held).symm
  · exact .of_unchanged (fun _ => .of_mem) fun source held _ => weathers.visits source held

/-- What is renewed once counts as renewed from then on. -/
theorem renewed_of_renewed (second : middle.Weathers frame after) {handle : Handle}
    (renewed : before.Renewed middle handle) (older : before.births handle ≤ middle.births handle) :
    before.Renewed after handle := by
  rcases renewed with empty | born
  · exact (second.renewed handle empty).imp_right older.trans_lt
  · exact Or.inr (born.trans_le (second.older handle))

theorem trans (first : before.Weathers frame middle) (second : middle.Weathers frame after) :
    before.Weathers frame after where
  older handle := (first.older handle).trans (second.older handle)
  releasing := second.releasing.trans first.releasing
  renewed handle empty := second.renewed_of_renewed (first.renewed handle empty) (first.older handle)
  stays := by
    obtain ⟨gone, nothing, lost, early⟩ := first.stays
    obtain ⟨goneLater, none, lostLater, late⟩ := second.stays
    refine ⟨fun handle => gone handle || goneLater handle, fun busy => ?_, fun handle either => ?_,
      fun handle sustained => ?_⟩
    · rw [nothing busy, none (first.releasing.trans busy)]
      rfl
    · rcases Bool.or_eq_true_iff.mp either with here | there
      · exact second.renewed_of_renewed (lost handle here) (first.older handle)
      · exact (lostLater handle there).imp_right (first.older handle).trans_lt
    · obtain ⟨here, births, payload⟩ := early handle sustained
      obtain ⟨there, birthsLater, payloadLater⟩ := late handle (first.sustained_iff.mpr sustained)
      refine ⟨by simp only [here, there, Bool.or_self], birthsLater.trans births, ?_⟩
      rw [payloadLater, payload, Option.map_map]
      exact congrArg (Option.map · _) (funext fun payload => payload.without_without gone goneLater)
  visits handle sustained :=
    (second.visits handle (first.sustained_iff.mpr sustained)).trans (first.visits handle sustained)

/-- What the frame sustains remains, if it was there in a heap without callbacks. -/
theorem remains (weathers : before.Weathers frame after) (silent : before.Silent) {handle : Handle}
    (sustained : before.Sustained frame handle) (live : before.isLive handle) :
    before.Remains after handle := by
  obtain ⟨gone, _, _, stays⟩ := weathers.stays
  obtain ⟨_, births, same⟩ := stays handle sustained
  obtain ⟨payload, held⟩ := exists_payload?_of_isLive live
  rw [held] at same
  exact ⟨births, payload, _, held, same, Payload.alike_without (silent.callbackOf held) gone⟩

/-- An entry that is placed in an empty slot is none of those that the frame sustains. -/
theorem of_admits (admits : before.Admits payload place after) (balanced : before.Balanced outside)
    (sub : frame ⊆ outside) : before.Weathers frame after := by
  refine .of_payloads (fun handle => ?_) admits.releasing (fun handle empty => ?_)
    fun handle sustained => ?_
  · by_cases same : handle = place
    · rw [same, admits.born]
      exact Nat.le_succ _
    · exact (admits.steady handle same).ge
  · by_cases same : handle = place
    · rw [same]
      exact Or.inr (Nat.lt_of_lt_of_eq (Nat.lt_succ_self _) admits.born.symm)
    · exact Or.inl ((admits.payload?_others same).trans empty)
  · have other : handle ≠ place := by
      rintro rfl
      have live := balanced.isLive_of_sustained (sustained.mono sub)
      rw [isLive_eq, admits.empty] at live
      cases live
    exact ⟨admits.steady handle other, admits.payload?_others other⟩

/-- A payload that the frame does not sustain is of no account to it. -/
theorem of_mapPayload {change : Payload Code → Payload Code}
    (unreached : ¬ before.Sustained frame place) :
    before.Weathers frame (before.mapPayload place change) := by
  refine .of_payloads (fun handle => (births_mapPayload _ _ handle _).ge) rfl (fun handle empty => ?_)
    fun handle sustained => ⟨births_mapPayload _ _ handle _, ?_⟩
  · refine Or.inl ?_
    rw [payload?_mapPayload, empty]
    exact ite_self _
  · rw [payload?_mapPayload, if_neg]
    rintro rfl
    exact unreached sustained

end Weathers

/-- Whatever is gone, what the frame sustains is not, as long as the frame holds its references. -/
theorem Wanes.weathers (wanes : before.Wanes after) (silent : before.Silent)
    (balanced : after.Balanced outside) (sub : frame ⊆ outside) : before.Weathers frame after := by
  -- Whoever is left refers to the same entries, since only weak references are forgotten.
  have visits {handle : Handle} (live : after.isLive handle) :
      after.visits handle = before.visits handle := wanes.forgets.visits_eq silent live
  have lives {handle : Handle} (sustained : before.Sustained frame handle) : after.isLive handle :=
    balanced.isLive_of_unchanged sub (fun _ _ live => visits live) sustained
  obtain ⟨gone, nothing, payloads⟩ := wanes.payloads
  refine ⟨fun handle => (wanes.births handle).ge, wanes.releasing, fun handle empty => Or.inl ?_,
    ⟨gone, nothing, fun handle lost => Or.inl ((payloads handle).trans (if_pos lost)),
      fun handle sustained => ?_⟩, fun handle sustained => visits (lives sustained)⟩
  · rw [payloads, empty]
    exact ite_self _
  have left := lives sustained
  have spared : gone handle = false := by
    rw [isLive_eq_payload?, payloads] at left
    split at left
    · cases left
    · rename_i spared
      exact Bool.eq_false_iff.mpr spared
  refine ⟨spared, wanes.births handle, ?_⟩
  rw [payloads, spared, if_neg Bool.false_ne_true]

end Heap

/-! ### Actions -/

/-- On a calm heap, an action that owns `pre` makes no more of a difference than that something is
gone, and its answer owns `post`. -/
def Action.Wanes (pre : Multiset Handle) (action : Action Code Host α)
    (post : α → Multiset Handle) : Prop :=
  ∀ outside limbo before answer after, before.heap.Calm (outside + pre) limbo →
    action before = .ok (answer, after) →
    after.heap.Calm (outside + post answer) limbo ∧ before.heap.Wanes after.heap

namespace Action.Wanes

variable {action : Action Code Host α} {next : α → Action Code Host β} {pre : Multiset Handle}
  {mid : α → Multiset Handle} {post : β → Multiset Handle}

theorem pure {answer : α} (same : pre = mid answer) :
    Action.Wanes pre (Pure.pure answer : Action Code Host α) mid := by
  intro outside limbo before found after calm ended
  cases ended
  exact ⟨same ▸ calm, .refl _⟩

theorem bind (first : action.Wanes pre mid) (rest : ∀ answer, (next answer).Wanes (mid answer) post) :
    (action >>= next).Wanes pre post := by
  intro outside limbo before last after calm ended
  obtain ⟨answer, between, ran, going⟩ := Action.bind_eq_ok.mp ended
  obtain ⟨held, early⟩ := first outside limbo before answer between calm ran
  obtain ⟨done, late⟩ := rest answer outside limbo between last after held going
  exact ⟨done, early.trans late⟩

/-- What an action does it does beside anything else that is owned. -/
theorem frame (wanes : action.Wanes pre mid) (more : Multiset Handle) :
    action.Wanes (more + pre) fun answer => more + mid answer := by
  intro outside limbo before answer after calm ended
  obtain ⟨done, waned⟩ := wanes (outside + more) limbo before answer after
    (calm.congr (add_assoc _ _ _).symm) ended
  exact ⟨done.congr (add_assoc _ _ _), waned⟩

theorem congr {more : Multiset Handle} (wanes : action.Wanes pre mid) (same : pre = more) :
    action.Wanes more mid := same ▸ wanes

/-- An action that gives up all that it owns leaves what is owned beside it. -/
theorem spend (wanes : action.Wanes pre fun _ => 0) (more : Multiset Handle) :
    action.Wanes (more + pre) fun _ => more := by
  have framed := wanes.frame more
  rwa [add_zero] at framed

/-- A reference is taken. -/
theorem retain (handle : Handle) :
    (ObjectHeap.retain handle : Action Code Host Unit).Wanes 0 fun _ => {handle} := by
  intro outside limbo before answer after calm ended
  rw [retain_apply] at ended
  split at ended
  · rename_i live
    cases ended
    exact ⟨(calm.congr (add_zero _)).increment live, .of_payloads (before.heap.payload?_increment handle)
      (before.heap.births_increment handle) rfl⟩
  · cases ended

theorem retainValue (value : Value) :
    (ObjectHeap.retainValue value : Action Code Host Unit).Wanes 0 fun _ => value.owns := by
  cases value with
  | ref handle => exact .retain handle
  | _ => exact .pure rfl

theorem retainAll (values : List Value) :
    (ObjectHeap.retainAll values : Action Code Host Unit).Wanes 0 fun _ => owned values := by
  show (values.forM ObjectHeap.retainValue : Action Code Host Unit).Wanes 0 _
  induction values with
  | nil => exact .pure rfl
  | cons value rest inductionHypothesis =>
    refine .bind (.retainValue value) fun _ => ?_
    have later := inductionHypothesis.frame value.owns
    rw [add_zero, ← owned_cons] at later
    exact later

end Action.Wanes

namespace Engine

variable (engine : Engine Code Host)

/-- A value is given up. -/
theorem wanes_release (value : Value) : (engine.release value).Wanes value.owns fun _ => 0 := by
  intro outside limbo before answer after calm ended
  cases idle : before.heap.releasing with
  | false =>
    obtain ⟨rest, rfl⟩ := calm.atRest idle
    obtain ⟨_, sheds, ordered⟩ := (engine.clears_release rest).of_ok ended
    exact ⟨ordered.calm.congr (add_zero _).symm, .of_sheds sheds idle ordered.idle⟩
  | true =>
    cases value with
    | ref handle =>
      rw [engine.release_of_busy idle] at ended
      cases ended
      refine ⟨calm.of_slots rfl rfl rfl rfl ?_ fun still => ?_, .of_payloads (fun _ => rfl) (fun _ => rfl) rfl⟩
      · rw [← Multiset.cons_coe, ← Multiset.singleton_add, Value.owns_ref]
        abel
      · exact Bool.noConfusion (idle.symm.trans still)
    | _ =>
      cases ended
      exact ⟨calm, .refl _⟩

theorem wanes_release? (value : Option Value) :
    (engine.release? value).Wanes (owned value.toList) fun _ => 0 := by
  cases value with
  | none => exact .pure rfl
  | some value =>
    rw [Option.toList_some, owned_cons, owned_nil, add_zero]
    exact engine.wanes_release value

theorem wanes_releaseList (values : List Value) :
    (engine.releaseList values).Wanes (owned values) fun _ => 0 := by
  show (values.forM engine.release : Action Code Host Unit).Wanes _ _
  induction values with
  | nil => exact .pure rfl
  | cons value rest inductionHypothesis =>
    rw [owned_cons, add_comm]
    exact .bind ((engine.wanes_release value).spend (owned rest)) fun _ => inductionHypothesis

variable {world : World Code Host}

/-- While releases are worked off, nothing else works them off. -/
theorem drain_of_busy (busy : world.heap.releasing = true) : engine.drain world = .ok ((), world) :=
  Action.bind_eq_ok.mpr ⟨_, _, rfl, congrFun (if_pos busy) world⟩

/-- While releases are worked off, an allocation is no more than counted. -/
theorem countAllocation_of_busy (busy : world.heap.releasing = true) (payload : Payload Code) :
    engine.countAllocation payload world = .ok ((), { world with
      heap := { world.heap with
        sinceCollection := world.heap.sinceCollection + if payload.isContainer then 1 else 0 } }) := by
  unfold countAllocation
  split
  · let counted : World Code Host :=
      { world with heap := { world.heap with sinceCollection := world.heap.sinceCollection + 1 } }
    refine Action.bind_eq_ok.mpr ⟨(), counted, rfl, Action.bind_eq_ok.mpr ⟨_, counted, rfl, ?_⟩⟩
    split
    · exact Action.bind_eq_ok.mpr ⟨0, counted, engine.collect_of_busy busy, rfl⟩
    · rfl
  · rw [add_zero]
    rfl

/-- A container is counted, and cycles are collected when that is due. -/
theorem wanes_countAllocation (payload : Payload Code) :
    (engine.countAllocation payload).Wanes 0 fun _ => 0 := by
  intro outside limbo before answer after calm ended
  cases idle : before.heap.releasing with
  | false =>
    obtain ⟨rest, rfl⟩ := (calm.congr (add_zero _)).atRest idle
    obtain ⟨_, sheds, ordered⟩ := (engine.clears_countAllocation payload rest).of_ok ended
    exact ⟨ordered.calm.congr (add_zero _).symm, .of_sheds sheds idle ordered.idle⟩
  | true =>
    cases (engine.countAllocation_of_busy idle payload).symm.trans ended
    exact ⟨calm.of_slots rfl rfl rfl rfl rfl fun still => Bool.noConfusion (idle.symm.trans still),
      .of_payloads (fun _ => rfl) (fun _ => rfl) rfl⟩

/-- A payload that is accepted is still owned, and one that is refused is given up. -/
theorem wanes_charge (payload : Payload Code) :
    (engine.charge payload).Wanes payload.owns
      fun refusal => if refusal.isSome then 0 else payload.owns := by
  intro outside limbo before answer after calm ended
  obtain ⟨_, between, counted, going⟩ := Action.bind_eq_ok.mp ended
  obtain ⟨held, early⟩ := ((engine.wanes_countAllocation payload).frame payload.owns).congr
    (add_zero payload.owns) outside limbo before _ between calm counted
  rw [add_zero] at held
  obtain ⟨_, _, same, charged⟩ := Action.bind_eq_ok.mp going
  cases same
  cases charging : between.heap.tracker.charge (UInt64.ofNat payload.size) with
  | ok tracker =>
    rw [charging] at charged
    cases charged
    exact ⟨held.of_slots rfl rfl rfl rfl rfl fun idle => (held.settled idle).1,
      early.trans (.of_payloads (fun _ => rfl) (fun _ => rfl) rfl)⟩
  | error exceeded =>
    rw [charging] at charged
    obtain ⟨_, left, changed, drained⟩ := Action.bind_eq_ok.mp charged
    cases changed
    obtain ⟨_, last, ran, answered⟩ := Action.bind_eq_ok.mp drained
    cases answered
    let waiting : World Code Host := { between with heap :=
      { between.heap with pending := payload.leavings between.heap.pending } }
    cases idle : between.heap.releasing with
    | false =>
      obtain ⟨rest, rfl⟩ := held.atRest idle
      obtain ⟨_, shed, done⟩ := (engine.clears_refusal payload rest).of_ok ran
      have gone : between.heap.Sheds after.heap :=
        ⟨shed.payloads, shed.births, shed.counter, shed.limits, shed.allocations⟩
      exact ⟨done.calm.congr (add_zero _).symm, early.trans (.of_sheds gone idle done.idle)⟩
    | true =>
      have busy : waiting.heap.releasing = true := idle
      obtain ⟨_, rfl⟩ := Prod.mk.inj (Except.ok.inj ((engine.drain_of_busy busy).symm.trans ran))
      refine ⟨held.of_slots rfl rfl rfl rfl ?_ fun still => Bool.noConfusion (idle.symm.trans still),
        early.trans (.of_payloads (fun _ => rfl) (fun _ => rfl) rfl)⟩
      show (payload.leavings between.heap.pending : Multiset Handle) + (outside + 0) =
        (between.heap.pending : Multiset Handle) + (outside + payload.owns)
      rw [payload.leavings_eq]
      abel

end Engine

end ObjectHeap
