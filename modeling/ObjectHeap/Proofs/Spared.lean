/-
This file follows what a heap holds beside what was there before. What was there is sustained from
outside and is never changed, so that it survives whatever is given up or collected meanwhile, and
never becomes part of that. The rules follow the shape of copies, and speak of references only: which
ones an operation takes along, and which ones it leaves, after a success and after an error.
-/

import ObjectHeap.Proofs.Memos
import ObjectHeap.Proofs.Shedding

namespace ObjectHeap

variable {Code Host α β : Type}

namespace Heap

variable {base before after heap : Heap Code} {outside mine others : Multiset Handle}
  {place : Handle} {payload : Payload Code}

/-! ### What was there -/

/-- A heap at rest without unreachable entries. -/
structure Whole (base : Heap Code) (outside : Multiset Handle) : Prop extends
    base.AtRest outside where
  sustained : ∀ handle, base.isLive handle → base.Sustained outside handle

/-- A heap at rest that has what was there, as it was, beside entries that are owned as well. -/
structure Spares (base : Heap Code) (outside mine : Multiset Handle) (heap : Heap Code) : Prop extends
    heap.AtRest (outside + mine) where
  kept : ∀ handle, base.isLive handle → heap.payload? handle = base.payload? handle

namespace Spares

theorem congr (spares : base.Spares outside mine heap) (same : mine = others) :
    base.Spares outside others heap := same ▸ spares

/-- What was there survives when something is shed, and forgets nothing. -/
theorem shed (spares : base.Spares outside mine before) (whole : base.Whole outside)
    (sheds : before.Sheds after) (rest : after.AtRest (outside + others)) :
    base.Spares outside others after := by
  have lives (handle : Handle) (sustained : base.Sustained outside handle) : after.isLive handle := by
    have sub : outside ⊆ outside + others := Multiset.subset_of_le (Multiset.le_add_right _ _)
    refine rest.sound.balanced.isLive_of_unchanged sub (fun source sustained live => ?_) sustained
    have same := spares.kept source (whole.sound.balanced.isLive_of_sustained sustained)
    rw [sheds.forgets.visits_eq spares.silent live]
    unfold visits
    rw [same]
  obtain ⟨gone, payloads⟩ := sheds.payloads
  have stays (handle : Handle) (live : base.isLive handle) : gone handle = false := by
    have left := lives handle (whole.sustained handle live)
    rw [isLive_eq_payload?, payloads] at left
    split at left
    · cases left
    · rename_i spared
      exact Bool.eq_false_iff.mpr spared
  refine ⟨rest, fun handle live => ?_⟩
  rw [payloads, stays handle live, if_neg Bool.false_ne_true, spares.kept handle live]
  cases held : base.payload? handle with
  | none => rfl
  | some payload =>
    -- What is there is sustained, and so is what it mentions, even by weak references.
    have mentioned (other : Handle) (member : other ∈ payload.mentions) : gone other = false :=
      stays other (whole.sound.isLive_of_mentions held member)
    exact congrArg some (Payload.without_of_spared
      (fun weakref member => mentioned weakref (by simp [Payload.mentions, member]))
      fun target aimed => mentioned target (by simp [Payload.mentions, aimed]))

/-- What was there is there. -/
theorem isLive (spares : base.Spares outside mine heap) {handle : Handle} (live : base.isLive handle) :
    heap.isLive handle :=
  (isLive_congr (spares.kept handle live)).trans live

/-- An empty slot is none of those that were in use. -/
theorem fresh (spares : base.Spares outside mine heap) (empty : heap.occupant? place = none) :
    base.isLive place = false := by
  cases live : base.isLive place with
  | false => rfl
  | true =>
    have still := spares.isLive live
    rw [isLive_eq, empty] at still
    cases still

theorem increment (spares : base.Spares outside mine heap) (live : heap.isLive place) :
    base.Spares outside (mine + {place}) (heap.increment place) where
  toAtRest := (spares.toAtRest.increment live).congr (add_assoc _ _ _)
  kept handle live := (heap.payload?_increment place handle).trans (spares.kept handle live)

/-- A payload that was owned is placed in an empty slot. -/
theorem admits (spares : base.Spares outside (mine + payload.owns) before)
    (admits : before.Admits payload place after) (founded : payload.Founded before)
    (unwatched : payload.watchers = []) (aimless : payload.target? = none)
    (quiet : callbackOf payload = none) : base.Spares outside (mine + {place}) after where
  toAtRest := ((spares.toAtRest.congr (add_assoc _ _ _).symm).admits admits founded unwatched aimless
    quiet).congr (add_assoc _ _ _)
  kept handle live := by
    refine (admits.payload?_others ?_).trans (spares.kept handle live)
    rintro rfl
    rw [spares.fresh admits.empty] at live
    cases live

/-- A payload that was not there before grows. -/
theorem exchange (spares : base.Spares outside mine heap) (apart : base.isLive place = false)
    (held : heap.payload? place = some payload) {grown : Payload Code} (grows : payload.Grows grown)
    (traded : grown.owns + others = payload.owns + mine) :
    base.Spares outside others (heap.mapPayload place fun _ => grown) where
  toAtRest := spares.toAtRest.exchange held grows traded
  kept handle live := by
    rw [payload?_grown held, if_neg ?_]
    · exact spares.kept handle live
    · rintro rfl
      rw [apart] at live
      cases live

end Spares

/-- What was there is there by itself. -/
theorem Whole.spares (whole : base.Whole outside) : base.Spares outside 0 base :=
  ⟨whole.toAtRest.congr (add_zero outside).symm, fun _ _ => rfl⟩

end Heap

/-- What is created in a heap was not there before. -/
def Heap.created (base : Heap Code) : Set Value :=
  { value | ∀ handle, value = .ref handle → base.isLive handle = false }

/-! ### Operations that leave alone what was there -/

/-- When an action ends that owns `pre`, what was there is there as it was, and the answer owns
`post`. -/
def Action.Spares (base : Heap Code) (outside pre : Multiset Handle) (action : Action Code Host α)
    (post : α → Multiset Handle) (grants : Set α) : Prop :=
  ∀ rest before answer after, base.Spares outside (pre + rest) before.heap →
    action before = .ok (answer, after) →
    base.Spares outside (post answer + rest) after.heap ∧ answer ∈ grants

/-- An attempt leaves alone what was there. Its answer owns `post`, and after an error `lost` is
still owned. -/
def Attempt.Spares (base : Heap Code) (outside pre : Multiset Handle) (attempt : Attempt Code Host α)
    (post : α → Multiset Handle) (grants : Set α) (lost : Multiset Handle) : Prop :=
  attempt.run.Spares base outside pre (outcomeOwns post lost)
    { outcome | ∀ answer, outcome = .ok answer → answer ∈ grants }

/-- A copy leaves alone what was there, and the memo owns what it records. -/
def Copying.Spares (base : Heap Code) (outside pre : Multiset Handle) (copying : Copying Code Host α)
    (post : α → Multiset Handle) (grants : Set α) (lost : Multiset Handle) : Prop :=
  ∀ memo : Memo, (copying.run memo).Spares base outside (pre + memo.owns)
    (fun result => outcomeOwns post lost result.1 + result.2.owns)
    { result | ∀ answer, result.1 = .ok answer → answer ∈ grants }

variable {base : Heap Code} {outside pre more lost : Multiset Handle}

namespace Action.Spares

variable {action : Action Code Host α} {next : α → Action Code Host β} {mid : α → Multiset Handle}
  {post : β → Multiset Handle} {grants : Set α} {posts : Set β}

theorem congr (spares : action.Spares base outside pre mid grants) (same : pre = more) :
    action.Spares base outside more mid grants := same ▸ spares

theorem pure {answer : α} (same : pre = mid answer) (granted : answer ∈ grants) :
    Action.Spares base outside pre (Pure.pure answer : Action Code Host α) mid grants := by
  intro rest before found after spares ended
  cases ended
  exact ⟨same ▸ spares, granted⟩

theorem bind (first : action.Spares base outside pre mid grants)
    (rest : ∀ answer ∈ grants, (next answer).Spares base outside (mid answer) post posts) :
    (action >>= next).Spares base outside pre post posts := by
  intro others before last after spares ended
  obtain ⟨answer, between, ran, going⟩ := Action.bind_eq_ok.mp ended
  obtain ⟨held, granted⟩ := first others before answer between spares ran
  exact rest answer granted others between last after held going

/-- What an action does it does beside anything else that is owned. -/
theorem frame (spares : action.Spares base outside pre mid grants) (more : Multiset Handle) :
    action.Spares base outside (pre + more) (fun answer => mid answer + more) grants := by
  intro rest before answer after held ended
  obtain ⟨left, granted⟩ := spares (more + rest) before answer after
    (held.congr (add_assoc _ _ _)) ended
  exact ⟨left.congr (add_assoc _ _ _).symm, granted⟩

/-- What an action takes comes to what is owned already. -/
theorem gain (spares : action.Spares base outside 0 mid grants) (pre : Multiset Handle) :
    action.Spares base outside pre (fun answer => pre + mid answer) grants := by
  have framed := spares.frame pre
  rw [zero_add] at framed
  convert framed using 2
  exact add_comm _ _

end Action.Spares

namespace Attempt.Spares

variable {attempt : Attempt Code Host α} {next : α → Attempt Code Host β} {mid : α → Multiset Handle}
  {post : β → Multiset Handle} {grants : Set α} {posts : Set β}

theorem refuse {refusal : Refusal} (same : pre = lost) :
    Attempt.Spares base outside pre (Attempt.refuse refusal : Attempt Code Host α) mid grants lost :=
  Action.Spares.pure same fun _ found => nomatch found

theorem bind (first : attempt.Spares base outside pre mid grants lost)
    (rest : ∀ answer ∈ grants, (next answer).Spares base outside (mid answer) post posts lost) :
    (attempt >>= next).Spares base outside pre post posts lost :=
  Action.Spares.bind first fun outcome granted => by
    cases outcome with
    | ok answer => exact rest answer (granted answer rfl)
    | error error => exact .pure rfl fun _ found => nomatch found

theorem ofAction {action : Action Code Host α} (spares : action.Spares base outside pre mid grants) :
    (Attempt.ofAction action).Spares base outside pre mid grants lost :=
  Action.Spares.bind spares fun _ granted => .pure rfl fun _ found => Except.ok.inj found ▸ granted

/-- A question has an answer that agrees with what was there. -/
theorem ask {question : Heap Code → Except Fault α}
    (known : ∀ heap mine answer, base.Spares outside mine heap → question heap = .ok answer →
      answer ∈ grants) :
    Attempt.Spares base outside pre (ObjectHeap.ask question : Attempt Code Host α) (fun _ => pre)
      grants lost :=
  .ofAction fun rest before answer after spares ended => by
    obtain ⟨asked, rfl⟩ := ask_eq_ok.mp ended
    exact ⟨spares, known _ _ _ spares asked⟩

/-- An entry is asked for in order to be changed. -/
theorem changing {next : Payload Code → Attempt Code Host β} {handle : Handle}
    (rest : ∀ (more : Multiset Handle) (before : World Code Host) (payload : Payload Code),
      before.heap.payload? handle = some payload → base.Spares outside (pre + more) before.heap →
      ∀ outcome after, (next payload).run before = .ok (outcome, after) →
        base.Spares outside (outcomeOwns post lost outcome + more) after.heap ∧
          ∀ answer, outcome = .ok answer → answer ∈ posts) :
    (fetchToChange handle >>= next).Spares base outside pre post posts lost := by
  intro more before outcome after spares ended
  obtain ⟨payload, asked, going⟩ := Attempt.ask_bind_eq_ok.mp ended
  cases held : before.heap.payload? handle with
  | none =>
    rw [held] at asked
    cases asked
  | some found =>
    rw [held] at asked
    cases asked
    exact rest more before payload held spares outcome after going

/-- A question whose answer is of no account. -/
theorem asking {question : Heap Code → Except Fault α}
    (rest : ∀ answer, (next answer).Spares base outside pre post posts lost) :
    (ObjectHeap.ask question >>= next).Spares base outside pre post posts lost :=
  .bind (.ask fun _ _ _ _ _ => Set.mem_univ _) fun answer _ => rest answer

end Attempt.Spares

namespace Copying.Spares

variable {copying : Copying Code Host α} {next : α → Copying Code Host β} {mid : α → Multiset Handle}
  {post : β → Multiset Handle} {grants : Set α} {posts : Set β}

theorem congr (spares : copying.Spares base outside pre mid grants lost) (same : pre = more) :
    copying.Spares base outside more mid grants lost := same ▸ spares

theorem pure {answer : α} (same : pre = mid answer) (granted : answer ∈ grants) :
    Copying.Spares base outside pre (Pure.pure answer : Copying Code Host α) mid grants lost :=
  fun memo => Action.Spares.pure (congrArg (· + memo.owns) same) fun _ found =>
    Except.ok.inj found ▸ granted

theorem bind (first : copying.Spares base outside pre mid grants lost)
    (rest : ∀ answer ∈ grants, (next answer).Spares base outside (mid answer) post posts lost) :
    (copying >>= next).Spares base outside pre post posts lost :=
  fun memo => Action.Spares.bind (first memo) fun result granted => by
    obtain ⟨outcome, noted⟩ := result
    cases outcome with
    | ok answer => exact rest answer (granted answer rfl) noted
    | error error => exact .pure rfl fun _ found => nomatch found

theorem ofAttempt {attempt : Attempt Code Host α}
    (spares : attempt.Spares base outside pre mid grants lost) :
    (Copying.ofAttempt attempt).Spares base outside pre mid grants lost :=
  fun memo => Action.Spares.bind (Action.Spares.frame spares memo.owns) fun _ granted =>
    .pure rfl granted

theorem ofAction {action : Action Code Host α} (spares : action.Spares base outside pre mid grants) :
    (Copying.ofAttempt (Attempt.ofAction action)).Spares base outside pre mid grants lost :=
  .ofAttempt (.ofAction spares)

theorem ask {question : Heap Code → Except Fault α}
    (known : ∀ heap mine answer, base.Spares outside mine heap → question heap = .ok answer →
      answer ∈ grants) :
    Copying.Spares base outside pre (ObjectHeap.ask question : Copying Code Host α) (fun _ => pre)
      grants lost :=
  .ofAttempt (.ask known)

/-- What a copy does it does beside anything else that is owned. -/
theorem frame (spares : copying.Spares base outside pre mid grants lost) (more : Multiset Handle) :
    copying.Spares base outside (pre + more) (fun answer => mid answer + more) grants
      (lost + more) := by
  intro memo rest before result after held ended
  obtain ⟨left, granted⟩ := (Action.Spares.frame (spares memo) more) rest before result after
    (held.congr (by abel)) ended
  refine ⟨left.congr ?_, granted⟩
  obtain ⟨outcome, noted⟩ := result
  cases outcome <;> simp only [outcomeOwns] <;> abel

/-- What is ensured gives up `more`, after a success and after an error. -/
theorem ensuring {action : Action Code Host Unit}
    (copied : copying.Spares base outside pre (fun answer => mid answer + more) grants (lost + more))
    (last : action.Spares base outside more (fun _ => 0) Set.univ) :
    (copying.ensuring action).Spares base outside pre mid grants lost :=
  fun memo => Action.Spares.bind (copied memo) fun result granted => by
    refine .bind ((last.frame (outcomeOwns mid lost result.1 + result.2.owns)).congr ?_)
      fun _ _ => .pure (zero_add _) granted
    obtain ⟨outcome, noted⟩ := result
    cases outcome <;> simp only [outcomeOwns] <;> abel

/-- What is given up in case of an error is `more`. -/
theorem onError {action : Action Code Host Unit}
    (copied : copying.Spares base outside pre mid grants (lost + more))
    (last : action.Spares base outside more (fun _ => 0) Set.univ) :
    (copying.onError action).Spares base outside pre mid grants lost :=
  fun memo => Action.Spares.bind (copied memo) fun result granted => by
    obtain ⟨outcome, noted⟩ := result
    cases outcome with
    | ok answer => exact .pure rfl granted
    | error error =>
      refine .bind ((last.frame (lost + noted.owns)).congr ?_) fun _ _ => .pure (zero_add _) granted
      simp only [outcomeOwns]
      abel

end Copying.Spares

/-! ### References that are taken and given up -/

namespace Action.Spares

theorem retain (handle : Handle) :
    (ObjectHeap.retain handle : Action Code Host Unit).Spares base outside 0 (fun _ => {handle})
      Set.univ := by
  intro rest before answer after spares ended
  rw [retain_apply] at ended
  split at ended
  · rename_i live
    cases ended
    exact ⟨(spares.increment live).congr (by abel), trivial⟩
  · cases ended

theorem retainValue (value : Value) :
    (ObjectHeap.retainValue value : Action Code Host Unit).Spares base outside 0
      (fun _ => value.owns) Set.univ := by
  cases value with
  | ref handle => exact retain handle
  | _ => exact .pure rfl trivial

theorem retainAll (values : List Value) :
    (ObjectHeap.retainAll values : Action Code Host Unit).Spares base outside 0
      (fun _ => owned values) Set.univ := by
  induction values with
  | nil => exact .pure rfl trivial
  | cons value rest inductionHypothesis =>
    have later := inductionHypothesis.frame value.owns
    rw [zero_add] at later
    have whole := Action.Spares.bind (retainValue value) fun _ _ => later
    rw [owned_cons, add_comm]
    exact whole

end Action.Spares

namespace Engine

variable (engine : Engine Code Host) (whole : base.Whole outside)

include whole

theorem spares_release (value : Value) :
    (engine.release value).Spares base outside value.owns (fun _ => 0) Set.univ := by
  intro rest before answer after spares ended
  have rested : before.heap.AtRest (outside + rest + value.owns) :=
    spares.toAtRest.congr (by abel)
  obtain ⟨_, sheds, ordered⟩ := (engine.clears_release rested).of_ok ended
  exact ⟨spares.shed whole sheds (ordered.congr (by abel)), trivial⟩

theorem spares_release? (value : Option Value) :
    (engine.release? value).Spares base outside (owned value.toList) (fun _ => 0) Set.univ := by
  cases value with
  | none => exact .pure rfl trivial
  | some value =>
    rw [Option.toList_some, owned_cons, owned_nil, add_zero]
    exact engine.spares_release whole value

theorem spares_releaseList (values : List Value) :
    (engine.releaseList values).Spares base outside (owned values) (fun _ => 0) Set.univ := by
  induction values with
  | nil => exact .pure rfl trivial
  | cons value rest inductionHypothesis =>
    rw [owned_cons]
    refine Action.Spares.bind ((engine.spares_release whole value).frame (owned rest)) fun _ _ => ?_
    rw [zero_add]
    exact inductionHypothesis

/-! ### Entries that are created -/

/-- A payload that is accepted is still owned, and one that is refused is given up. -/
theorem spares_charge (payload : Payload Code) :
    (engine.charge payload).Spares base outside payload.owns
      (fun refusal => if refusal.isSome then 0 else payload.owns) Set.univ := by
  intro rest before answer after spares ended
  obtain ⟨_, between, counted, going⟩ := Action.bind_eq_ok.mp ended
  obtain ⟨_, sheds, ordered⟩ := (engine.clears_countAllocation payload spares.toAtRest).of_ok counted
  have held := spares.shed whole sheds ordered
  obtain ⟨_, _, same, charged⟩ := Action.bind_eq_ok.mp going
  cases same
  cases charging : between.heap.tracker.charge (UInt64.ofNat payload.size) with
  | ok tracker =>
    rw [charging] at charged
    cases charged
    exact ⟨⟨held.toAtRest.of_slots rfl rfl rfl rfl rfl, held.kept⟩, trivial⟩
  | error exceeded =>
    rw [charging] at charged
    obtain ⟨_, left, changed, drained⟩ := Action.bind_eq_ok.mp charged
    cases changed
    obtain ⟨_, last, ran, answered⟩ := Action.bind_eq_ok.mp drained
    cases answered
    have rested : between.heap.AtRest (outside + rest + payload.owns) :=
      held.toAtRest.congr (by abel)
    obtain ⟨_, shed, done⟩ := (engine.clears_refusal payload rested).of_ok ran
    exact ⟨held.shed whole ⟨shed.payloads, shed.births, shed.counter, shed.limits, shed.allocations⟩
      (done.congr (by abel)), trivial⟩

omit whole in
/-- A payload without weak references is placed where nothing was before. -/
theorem spares_place {payload : Payload Code} {take : Heap Code → Option Handle × Heap Code}
    (unwatched : payload.watchers = []) (aimless : payload.target? = none)
    (quiet : Heap.callbackOf payload = none)
    (founded : ∀ heap mine, base.Spares outside (payload.owns + mine) heap → payload.Founded heap)
    (admits : ∀ heap mine, base.Spares outside mine heap → heap.Admits payload
      ((take heap).2.place payload (take heap).1).1 ((take heap).2.place payload (take heap).1).2) :
    Attempt.Spares base outside payload.owns
      (do
        let slot ← changeHeap take
        let handle ← changeHeap (·.place payload slot)
        return .ref handle : Attempt Code Host Value) Value.owns base.created 0 := by
  intro rest before outcome after spares ended
  obtain ⟨_, _, first, going⟩ := Attempt.act_bind_eq_ok.mp ended
  cases first
  obtain ⟨_, _, second, last⟩ := Attempt.act_bind_eq_ok.mp going
  cases second
  cases last
  have owning : base.Spares outside (rest + payload.owns) before.heap :=
    spares.congr (add_comm _ _)
  have placed := admits before.heap _ spares
  refine ⟨(owning.admits placed (founded _ _ spares) unwatched aimless quiet).congr
    (add_comm _ _), fun value same handle ref => ?_⟩
  cases same
  cases ref
  exact spares.fresh placed.empty

theorem spares_allocate (payload : Payload Code) (unwatched : payload.watchers = [])
    (plain : payload.isPlain = true) (aimless : payload.target? = none)
    (quiet : Heap.callbackOf payload = none) :
    (engine.allocate payload).Spares base outside payload.owns Value.owns base.created 0 := by
  refine .bind (.ofAction (engine.spares_charge whole payload)) fun refusal _ => ?_
  cases refusal with
  | some exceeded => exact .refuse rfl
  | none =>
    exact spares_place unwatched aimless quiet (fun _ _ _ => Payload.founded_of_isPlain plain)
      fun heap _ spares => heap.admits_takeFree payload spares.sound.housed

theorem spares_newList (items : List Value) :
    (engine.newList items).Spares base outside (owned items) Value.owns base.created 0 :=
  engine.spares_allocate whole (.list items) rfl rfl rfl rfl

theorem spares_newTuple (items : List Value) :
    (engine.newTuple items).Spares base outside (owned items) Value.owns base.created 0 :=
  engine.spares_allocate whole (.tuple items) rfl rfl rfl rfl

theorem spares_newInstance (type : Value) :
    (engine.newInstance type).Spares base outside 0 Value.owns base.created 0 := by
  refine .asking fun found => ?_
  cases found with
  | none =>
    exact .asking fun _ => .refuse rfl
  | some handle =>
    refine .bind (.ofAction (.retain handle)) fun _ _ => ?_
    exact engine.spares_allocate whole
      (.object { type := handle, attributes := Attributes.empty, watchers := [] }) rfl rfl rfl rfl

/-- A method can be made of a function that was there. -/
theorem spares_allocateMethod {function : Handle} {receiver owner : Option Value} {data : Function Code}
    (there : base.payload? function = some (.function data))
    (grounded : ({ function, receiver, owner, watchers := [] } : Method).Grounded) :
    (engine.allocateMethod function receiver owner).Spares base outside
      (owned receiver.toList + owned owner.toList) Value.owns base.created 0 := by
  let method : Method := { function, receiver, owner, watchers := [] }
  have owns : (Payload.method method : Payload Code).owns =
      {function} + (owned receiver.toList + owned owner.toList) := by
    rw [Payload.owns_method, Method.parts, owned_append]
  refine .bind (.ofAction (((Action.Spares.retain function).frame
    (owned receiver.toList + owned owner.toList)).congr (zero_add _))) fun _ _ => ?_
  rw [← owns]
  refine .bind (.ofAction (engine.spares_charge whole (.method method))) fun refusal _ => ?_
  cases refusal with
  | some exceeded =>
    exact .asking fun _ => .refuse rfl
  | none =>
    refine spares_place rfl rfl rfl (fun heap mine spares => ⟨⟨data, ?_⟩, grounded⟩)
      fun heap _ spares => heap.admits_takeFreeForMethod rfl spares.sound.housed
    rw [← there]
    exact spares.kept function (Heap.isLive_of_payload? there)

/-! ### Changes of what was created -/

/-- What an operation has taken over is given up when it is refused. -/
theorem spares_refuse (content : Value) (refusal : Refusal) (post : Unit → Multiset Handle) :
    Attempt.Spares base outside content.owns
      (do
        engine.release content
        Attempt.refuse refusal : Attempt Code Host Unit) post Set.univ 0 :=
  .bind (.ofAction (engine.spares_release whole content)) fun _ _ => .refuse rfl

/-- A payload grows, and what it has given up in exchange is released. -/
theorem spares_assign {before after : World Code Host} {place : Handle} {payload grown : Payload Code}
    {content : Value} {old : Option Value} {outcome : Except Error Unit} {rest : Multiset Handle}
    (spares : base.Spares outside (content.owns + rest) before.heap)
    (apart : base.isLive place = false) (held : before.heap.payload? place = some payload)
    (grows : payload.Grows grown)
    (traded : grown.owns + owned old.toList = payload.owns + content.owns)
    (ended : (do
      modifyHeap (·.mapPayload place fun _ => grown)
      engine.release? old : Attempt Code Host Unit).run before = .ok (outcome, after)) :
    base.Spares outside (outcomeOwns (fun _ => 0) 0 outcome + rest) after.heap ∧
      ∀ answer, outcome = .ok answer → answer ∈ Set.univ := by
  obtain ⟨_, between, changed, going⟩ := Attempt.act_bind_eq_ok.mp ended
  cases changed
  obtain ⟨_, last, released, same⟩ := Action.bind_eq_ok.mp going
  cases same
  have changed := spares.exchange apart held grows
    (show grown.owns + (owned old.toList + rest) = payload.owns + (content.owns + rest) by
      rw [← add_assoc, traded, add_assoc])
  exact ⟨((engine.spares_release? whole old) rest _ _ _ changed released).1, fun _ _ => trivial⟩

/-- An item is appended to what was created, or given up. -/
theorem spares_append {list : Value} (created : list ∈ base.created) (item : Value) :
    (engine.append list item).Spares base outside item.owns (fun _ => 0) Set.univ 0 := by
  have refused : Attempt.Spares base outside item.owns
      (do
        let type ← ask fun heap => heap.typeName list
        engine.release item
        Attempt.refuse (.noAttribute type "append") : Attempt Code Host Unit) (fun _ => 0) Set.univ 0 :=
    .asking fun type => engine.spares_refuse whole item _ _
  cases list with
  | ref handle =>
    refine .changing fun rest before payload held spares outcome after ended => ?_
    cases payload with
    | list items =>
      simp only [pure_bind] at ended
      obtain ⟨_, _, changed, same⟩ := Action.bind_eq_ok.mp ended
      cases changed
      cases same
      refine ⟨spares.exchange (created handle rfl) held (.list items item) ?_, fun _ _ => trivial⟩
      rw [Payload.owns_list, Payload.owns_list, owned_append]
      simp [outcomeOwns]
      abel
    | _ =>
      simp only [pure_bind] at ended
      exact refused _ _ _ _ spares ended
  | _ =>
    simp only [append, pure_bind]
    exact refused

/-- An attribute is assigned to what was created, or given up. -/
theorem spares_setAttribute {value : Value} (created : value ∈ base.created) (name : String)
    (content : Value) :
    (engine.setAttribute value name content).Spares base outside content.owns (fun _ => 0) Set.univ
      0 := by
  have refused : Attempt.Spares base outside content.owns
      (do
        let type ← ask fun heap => heap.typeName value
        engine.release content
        Attempt.refuse (.noAttribute type name) : Attempt Code Host Unit) (fun _ => 0) Set.univ 0 :=
    .asking fun type => engine.spares_refuse whole content _ _
  cases value with
  | ref handle =>
    refine .changing fun rest before payload held spares outcome after ended => ?_
    cases payload with
    | object data =>
      exact engine.spares_assign whole spares (created handle rfl) held (.object data name content)
        (Payload.owns_object_insert name content data) ended
    | type data =>
      exact engine.spares_assign whole spares (created handle rfl) held (.type data name content)
        (Payload.owns_type_insert name content data) ended
    | function data =>
      dsimp only at ended
      split at ended
      · exact engine.spares_refuse whole content _ _ _ _ _ _ spares ended
      · exact engine.spares_assign whole spares (created handle rfl) held
          (.function data name content) (Payload.owns_function_insert name content data) ended
    | method data => exact engine.spares_refuse whole content _ _ _ _ _ _ spares ended
    | _ => exact refused _ _ _ _ spares ended
  | _ => exact refused

end Engine

/-! ### What a memo records -/

namespace Copying.Spares

variable {engine : Engine Code Host}

/-- Looking at the memo changes nothing. -/
theorem memo {next : Memo → Copying Code Host β} {post : β → Multiset Handle} {posts : Set β}
    (rest : ∀ memo, (next memo).Spares base outside pre post posts lost) :
    (Copying.memo >>= next).Spares base outside pre post posts lost :=
  fun memo => rest memo memo

theorem retainValue (value : Value) :
    (ObjectHeap.retainValue value : Copying Code Host Unit).Spares base outside pre
      (fun _ => pre + value.owns) Set.univ lost := by
  have same : (ObjectHeap.retainValue value : Copying Code Host Unit) =
      Copying.ofAttempt (Attempt.ofAction (ObjectHeap.retainValue value)) := by cases value <;> rfl
  rw [same]
  exact .ofAction ((Action.Spares.retainValue value).gain pre)

theorem retainAll {next : Unit → Copying Code Host β} {post : β → Multiset Handle} {posts : Set β}
    {values : List Value} (rest : (next ()).Spares base outside (pre + owned values) post posts lost) :
    (ObjectHeap.retainAll values >>= next).Spares base outside pre post posts lost :=
  .bind (.ofAction ((Action.Spares.retainAll values).gain pre)) fun _ _ => rest

/-- What was there is as it was when it is looked at. -/
theorem fetch {next : Payload Code → Copying Code Host β} {post : β → Multiset Handle} {posts : Set β}
    {handle : Handle} {payload : Payload Code} (there : base.payload? handle = some payload)
    (rest : (next payload).Spares base outside pre post posts lost) :
    (ObjectHeap.fetch handle >>= next).Spares base outside pre post posts lost := by
  have known : (ObjectHeap.fetch handle : Copying Code Host (Payload Code)).Spares base outside pre
      (fun _ => pre) {payload} lost := .ask fun heap mine found spares read => by
    have held := heap.read_eq_ok.mp read
    rw [spares.kept handle (Heap.isLive_of_payload? there), there] at held
    exact (Option.some.inj held).symm
  refine .bind known fun found same => ?_
  cases same
  exact rest

/-- What was recorded is answered with a reference of its own. -/
theorem recorded? (source : Handle) :
    (Copying.recorded? source : Copying Code Host (Option Value)).Spares base outside pre
      (fun found => pre + owned found.toList) Set.univ lost := by
  refine .memo fun memo => ?_
  split
  · exact .bind (.retainValue _) fun _ _ => .pure (by simp) trivial
  · exact .pure (add_zero pre).symm trivial

/-- Recording a copy takes a reference to it. -/
theorem memorize (whole : base.Whole outside) (source : Handle) (copy : Value) :
    (engine.memorize source copy).Spares base outside pre (fun _ => pre) Set.univ lost := by
  refine .bind (.retainValue copy) fun _ _ memo => ?_
  have released : (Copying.ofAttempt (Attempt.ofAction (engine.release? (memo.find? source)))).Spares
      base outside (owned (memo.find? source).toList + pre) (fun _ => pre) Set.univ lost := by
    have gone := (engine.spares_release? whole (memo.find? source)).frame pre
    rw [zero_add] at gone
    exact .ofAction gone
  refine (released (memo.insert source copy)).congr ?_
  rw [add_right_comm, add_comm (owned _), memo.owns_insert]
  abel

/-- The attributes of an instance that was there are taken as they are. -/
theorem retainAttributes {handle : Handle} {data : Instance}
    (there : base.payload? handle = some (.object data)) :
    (Copying.retainAttributes handle : Copying Code Host (List (String × Value))).Spares base outside
      pre (fun entries => pre + owned (entries.map Prod.snd)) {data.attributes.entries} lost :=
  .fetch there (.retainAll (.pure rfl rfl))

end Copying.Spares

end ObjectHeap
