/-
This file follows an entry that is freed while no callback is due. Nothing of the host runs then,
so that taking the entry apart can be computed: the heap is sound again afterwards, the slot is
empty, and every other payload is what it was, except that it has forgotten the entry.
-/

import ObjectHeap.Proofs.Release
import ObjectHeap.Proofs.Removal

namespace ObjectHeap

variable {Code Host : Type}

/-! ### Payloads that forget -/

namespace Payload

open Heap (deadWeakref callbackOf)

theorem without_nothing (payload : Payload Code) : (payload.without fun _ => false) = payload := by
  unfold without
  rw [if_neg (by cases payload.target? <;> simp)]
  simpa using Heap.mapWatchers_id payload

theorem target?_without {payload : Payload Code} {gone : Handle → Bool} {target : Handle} :
    (payload.without gone).target? = some target ↔
      payload.target? = some target ∧ gone target = false := by
  unfold without
  split
  · rename_i aimed
    refine iff_of_false (fun same => nomatch same) fun both => ?_
    rw [both.1, Option.any_some, both.2] at aimed
    cases aimed
  · rename_i spared
    rw [Heap.target?_mapWatchers]
    refine ⟨fun same => ⟨same, ?_⟩, And.left⟩
    rw [same, Option.any_some] at spared
    exact Bool.eq_false_iff.mpr spared

/-- What is forgotten in two steps is forgotten. -/
theorem without_without (payload : Payload Code) (first second : Handle → Bool) :
    (payload.without first).without second = payload.without fun place => first place || second place := by
  cases aimed : payload.target? with
  | none =>
    unfold without
    simp only [aimed, Option.any_none, Bool.false_eq_true, if_false, Heap.target?_mapWatchers,
      Heap.mapWatchers_mapWatchers, List.filter_filter]
    congr 1
    funext watchers
    refine List.filter_congr fun weakref _ => ?_
    cases first weakref <;> cases second weakref <;> rfl
  | some target =>
    cases payload with
    | weakref data =>
      have held : data.target = some target := aimed
      unfold without
      simp only [target?, held, Option.any_some]
      cases first target <;> cases gone : second target <;>
        simp [mapWatchers, held, gone, deadWeakref]
    | _ => cases aimed

/-- No callback comes of forgetting. -/
theorem callbackOf_without {payload : Payload Code} (silent : callbackOf payload = none)
    (gone : Handle → Bool) : callbackOf (payload.without gone) = none := by
  unfold without
  split
  · rfl
  · cases payload <;> exact silent

/-- A payload keeps what it refers to, unless it is a weak reference with a callback that dies. -/
theorem visits_without {payload : Payload Code} {gone : Handle → Bool}
    (undue : ∀ target, payload.target? = some target → gone target → callbackOf payload = none) :
    (payload.without gone).visits = payload.visits := by
  cases aimed : payload.target? with
  | none =>
    unfold without
    rw [aimed]
    exact visits_mapWatchers payload _
  | some target =>
    unfold without
    rw [aimed, Option.any_some]
    split
    · rename_i dead
      have silent := undue target aimed dead
      cases payload with
      | weakref data =>
        have none : data.callback = none := silent
        simp [visits, deadWeakref, none]
      | _ => cases aimed
    · exact visits_mapWatchers payload _

end Payload

namespace Heap

variable {before after : Heap Code} {place : Handle} {payload : Payload Code}
  {outside : Multiset Handle} {limbo : List Handle} {entry : Entry Code}

/-- An entry that is buried leaves the register of its target, and nothing else changes. -/
theorem payload?_bury (heap : Heap Code) (place : Handle) (payload : Payload Code) (other : Handle) :
    (heap.bury place payload).payload? other =
      if payload.target? = some other then
        (heap.payload? other).map (Payload.mapWatchers (·.erase place))
      else heap.payload? other := by
  unfold Heap.bury
  rw [payload?_congr (occupant?_recycle _ place other _)]
  cases payload.target? with
  | none => rfl
  | some target =>
    show (heap.unregister target place).payload? other = _
    rw [payload?_unregister]
    simp only [Option.some.injEq, eq_comm]

/-- Once an entry is buried, nothing is left in its slot, and every other entry has forgotten it. -/
theorem Frees.payload?_bury {callbacks : List (Handle × Value)}
    (frees : before.Frees place payload callbacks after) (other : Handle) :
    (after.bury place payload).payload? other =
      if other = place then none
      else (before.payload? other).map (Payload.without fun gone => decide (gone = place)) := by
  have buried := Heap.payload?_bury after place payload other
  have aim : before.target? place = payload.target? := target?_of_payload? frees.held
  have registered := frees.watched.registered
  rw [buried, frees.payloads]
  -- Of what is left, entries may lose their target or a place in their register, but never both.
  by_cases same : other = place
  · subst same
    rw [if_neg (frees.watched.not_mem_watchers_self other), if_pos rfl, if_pos rfl]
    exact ite_self none
  rw [if_neg same, if_neg same]
  by_cases member : other ∈ before.watchers place
  · obtain ⟨data, found, targeted⟩ := target?_eq_some.mp ((registered other place).mpr member)
    rw [if_pos member]
    have dead : (Payload.weakref data).without (fun gone => decide (gone = place)) =
        (deadWeakref : Payload Code) := by
      simp [Payload.without, Payload.target?, targeted]
    rw [found, Option.map_some, Option.map_some, dead]
    exact ite_self (some deadWeakref)
  rw [if_neg member]
  cases found : before.payload? other with
  | none => exact ite_self none
  | some later =>
    have unaimed : later.target?.any (fun gone => decide (gone = place)) = false := by
      rw [← target?_of_payload? found]
      cases aimed : before.target? other with
      | none => rfl
      | some target =>
        refine decide_eq_false fun here => member ?_
        exact (registered other place).mp (here ▸ aimed)
    have spared : later.without (fun gone => decide (gone = place)) =
        later.mapWatchers (·.filter fun weakref => !decide (weakref = place)) := by
      unfold Payload.without
      rw [unaimed]
      rfl
    have own : before.watchers other = later.watchers := watchers_of_payload? found
    have mine : payload.target? = some other ↔ place ∈ later.watchers := by
      rw [← own, ← registered, aim]
    rw [Option.map_some, Option.map_some, spared]
    split
    · have once : later.watchers.Nodup := own ▸ frees.watched.once other
      refine congrArg some (mapWatchers_congr later ?_)
      rw [once.erase_eq_filter place]
      refine List.filter_congr fun weakref _ => ?_
      simp [bne, beq_eq_decide]
    · rename_i unlisted
      refine congrArg some ((mapWatchers_id later).symm.trans (mapWatchers_congr later ?_))
      refine (List.filter_eq_self.mpr fun weakref listed => ?_).symm
      rw [Bool.not_eq_true', decide_eq_false_iff_not]
      rintro rfl
      exact unlisted (mine.mpr listed)

theorem pending_recycle (heap : Heap Code) (place : Handle) (isMethod : Bool) :
    (heap.recycle place isMethod).pending = heap.pending := by
  unfold recycle
  split <;> rfl

theorem releasing_recycle (heap : Heap Code) (place : Handle) (isMethod : Bool) :
    (heap.recycle place isMethod).releasing = heap.releasing := by
  unfold recycle
  split <;> rfl

/-- What a buried entry owned waits for its release. -/
theorem pending_bury (heap : Heap Code) (place : Handle) (payload : Payload Code) :
    (heap.bury place payload).pending = payload.leavings heap.pending := by
  unfold Heap.bury
  rw [pending_recycle]
  cases payload.target? <;> rfl

theorem releasing_bury (heap : Heap Code) (place : Handle) (payload : Payload Code) :
    (heap.bury place payload).releasing = heap.releasing := by
  unfold Heap.bury
  rw [releasing_recycle]
  cases payload.target? <;> rfl

theorem births_bury (heap : Heap Code) (place : Handle) (payload : Payload Code) (other : Handle) :
    (heap.bury place payload).births other = heap.births other := by
  unfold Heap.bury
  rw [births_congr (slots_recycle _ place payload.isMethod)]
  cases payload.target? with
  | none => rfl
  | some target => exact births_mapPayload heap target other _

/-- What an entry owned that was taken apart waits for its release, and its slot comes home. -/
theorem Sound.leave (sound : before.Sound (outside + payload.owns) (place :: limbo)) :
    ({ before with pending := payload.leavings before.pending }.recycle place payload.isMethod).Sound
      outside limbo := by
  have left : { before with pending := payload.leavings before.pending }.Sound outside
      (place :: limbo) :=
    sound.of_slots rfl rfl rfl (by rw [Payload.leavings_eq]; abel)
  exact left.recycle payload.isMethod

end Heap

/-- An entry whose last reference is given up is taken apart without any code of the host, as long
as no callback is due. -/
theorem Engine.exists_tearDown (engine : Engine Code Host) {before : World Code Host}
    {place : Handle} {entry : Entry Code} {outside : Multiset Handle} {limbo : List Handle}
    (sound : before.heap.Sound (outside + {place}) limbo) (busy : before.heap.releasing = true)
    (held : before.heap.occupant? place = some entry) (last : entry.count ≤ 1)
    (undue : ∀ weakref ∈ before.heap.watchers place, before.heap.callback? weakref = none) :
    ∃ cleared, before.heap.Frees place entry.payload [] cleared ∧
      engine.tearDown place entry.payload { before with heap := before.heap.setEntry place none } =
        .ok ((), { before with heap := cleared.bury place entry.payload }) ∧
      (cleared.bury place entry.payload).Sound outside limbo := by
  let tracker := before.heap.tracker.credit (UInt64.ofNat entry.payload.size)
  have quiet : before.heap.due (fun _ => false) (before.heap.watchers place) = [] := by
    refine List.filterMap_eq_nil_iff.mpr fun weakref member => ?_
    rw [if_neg Bool.false_ne_true, undue weakref member]
    rfl
  have going (cleared : Heap Code)
      (clears : (before.heap.emptied place tracker).clearWatchers place (fun _ => false)
        entry.payload.watchers = ([], cleared)) :
      engine.tearDown place entry.payload { before with heap := before.heap.setEntry place none } =
        .ok ((), { before with heap := cleared.bury place entry.payload }) := by
    refine Action.bind_eq_ok.mpr ⟨(), _, rfl, Action.bind_eq_ok.mpr
      ⟨[], { before with heap := cleared }, ?_, Action.bind_eq_ok.mpr ⟨(), _, rfl, ?_⟩⟩⟩
    · rw [changeHeap_apply]
      exact congrArg (fun pair : List (Handle × Value) × Heap Code =>
        Except.ok (pair.1, { before with heap := pair.2 })) clears
    · exact bury_eq place entry.payload { before with heap := cleared }
  cases aimed : entry.payload.target? with
  | none =>
    have clears := sound.watched.clearsRegister_emptied held tracker aimed
    have frees := Heap.Frees.of_clearsRegister sound held busy clears
    have nothing := frees.due.trans quiet
    rw [nothing] at clears frees
    refine ⟨_, frees, going _ (Prod.ext nothing rfl), ?_⟩
    rw [Heap.bury_of_aimless _ _ aimed]
    exact ((sound.clearDead clears held last aimed).congr (add_zero _)).leave
  | some target =>
    have unregistered := Heap.watchers_of_aimed aimed
    refine ⟨_, .of_unwatched sound busy held unregistered, going _ (by rw [unregistered]; rfl), ?_⟩
    rw [Heap.bury_of_aimed _ _ aimed]
    exact (sound.forgetDead held last tracker aimed).leave

/-! ### Giving up one reference -/

/-- One reference to an entry is given up: it is taken off the count, or it was the last one and
the entry is freed without any callback. -/
inductive Heap.Lessens (before : Heap Code) (place : Handle) : Heap Code → Prop
  | counted {entry : Entry Code} (held : before.occupant? place = some entry)
    (more : 1 < entry.count) :
    Heap.Lessens before place
      (before.mapEntry place fun entry => { entry with count := entry.count - 1 })
  | freed {entry : Entry Code} {cleared : Heap Code}
    (held : before.occupant? place = some entry) (last : entry.count ≤ 1)
    (frees : before.Frees place entry.payload [] cleared) :
    Heap.Lessens before place (cleared.bury place entry.payload)

theorem Heap.Lessens.releasing {before after : Heap Code} {place : Handle}
    (lessens : before.Lessens place after) : after.releasing = before.releasing := by
  cases lessens with
  | counted held more => rfl
  | freed held last frees =>
    exact (releasing_bury _ _ _).trans (congrArg Heap.releasing frees.books :)

/-- Giving up one reference comes to its end and leaves the heap sound, as long as no callback is
due when it was the last one. -/
theorem Engine.exists_lessens (engine : Engine Code Host) {before : World Code Host}
    {place : Handle} {outside : Multiset Handle} {limbo : List Handle}
    (sound : before.heap.Sound (outside + {place}) limbo) (busy : before.heap.releasing = true)
    (undue : ∀ entry, before.heap.occupant? place = some entry → entry.count ≤ 1 →
      ∀ weakref ∈ before.heap.watchers place, before.heap.callback? weakref = none) :
    ∃ after, engine.releaseNext place before = .ok ((), { before with heap := after }) ∧
      before.heap.Lessens place after ∧ after.Sound outside limbo := by
  obtain ⟨entry, held⟩ := (before.heap.isLive_iff place).mp
    (sound.balanced.isLive_of_mem (Or.inl (Multiset.mem_add.mpr (Or.inr (by simp)))))
  by_cases more : 1 < entry.count
  · exact ⟨_, engine.releaseNext_of_more held more, .counted held more, sound.decrement held more⟩
  · have last := Nat.not_lt.mp more
    obtain ⟨cleared, frees, ended, done⟩ := engine.exists_tearDown sound busy held last
      (undue entry held last)
    exact ⟨_, Action.bind_eq_ok.mpr ⟨some entry.payload, _, decrement_of_last held last, ended⟩,
      .freed held last frees, done⟩

end ObjectHeap
