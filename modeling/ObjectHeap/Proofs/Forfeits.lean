/-
This file says what a refused allocation leaves behind. Before the tracker is asked, an operation may
have taken references for its payload, or have been handed values for it; and in case of a refusal it
gives up whatever the payload would have owned. Between operations that comes to the same as if the
host had given up what it handed over, one value after the other. In a release the references wait on
the stack, those that were taken as well as those that were handed over.
-/

import ObjectHeap.Proofs.Backlog

namespace ObjectHeap

variable {Code Host α β : Type}

/-! ### What is offered to the tracker -/

/-- What an operation offers to the tracker. -/
structure Offer (Code : Type) where
  payload : Payload Code
  /-- The values that were handed over for the payload. -/
  handed : List Value
  /-- The references that were taken for it. -/
  retained : List Handle
  /-- What is reported if the tracker refuses it. -/
  refusal : LimitExceeded → Refusal

/-- A method is offered that was asked for. -/
def MethodRequest.offer (request : MethodRequest) (data : Function Code) : Offer Code :=
  let payload : Payload Code := request.payload
  { payload, handed := [], retained := payload.visits
    refusal := fun _ => .methodNotCreated data.name }

namespace Operation

/-- An operation that creates something comes to offer it to the tracker: what it was asked for can
be created, if there is room for it. -/
inductive Offers (before : World Code Host) : Operation Code → Offer Code → Prop
  | newString (text : String) : Offers before (.newString text)
      { payload := .str text, handed := [], retained := [], refusal := .limit }
  | newList (items : List Value) : Offers before (.newList items)
      { payload := .list items, handed := items, retained := [], refusal := .limit }
  | newTuple (items : List Value) : Offers before (.newTuple items)
      { payload := .tuple items, handed := items, retained := [], refusal := .limit }
  | newFunction (name : String) (qualifiedName doc : Option String) (code : Code) :
    Offers before (.newFunction name qualifiedName doc code)
      { payload := .function
          { counter := before.heap.nextCounter, name, qualifiedName := qualifiedName.getD name, doc,
            code, attributes := Attributes.empty }
        handed := [], retained := [], refusal := .limit }
  | newClass (name : String) {bases : List Value} {handles ancestors : List Handle}
    (classes : (baseHandles bases : Attempt Code Host (List Handle)).run before =
      .ok (.ok handles, before))
    (inherited : before.heap.ancestors handles = .ok ancestors) :
    Offers before (.newClass name bases)
      { payload := .type { name, bases := handles, ancestors, members := Attributes.empty }
        handed := [], retained := handles, refusal := .limit }
  | newInstance {type : Value} {handle : Handle} (isType : before.heap.type? type = .ok (some handle)) :
    Offers before (.newInstance type)
      { payload := .object { type := handle, attributes := Attributes.empty, watchers := [] }
        handed := [], retained := [handle], refusal := .limit }
  | newWeakref {target : Value} {handle : Handle} (callback : Option Value)
    (isReferable : before.heap.referable? target = .ok (some handle)) :
    Offers before (.newWeakref target callback)
      { payload := .weakref { target := some handle, callback := callback.bind Value.present? }
        handed := callback.toList, retained := [], refusal := .limit }
  | newMethod {function : Handle} {receiver owner : Value} {request : MethodRequest}
    {asked : World Code Host} {data : Function Code}
    (creates : Creates before function receiver owner request asked)
    (isFunction : before.heap.payload? request.function = some (.function data)) :
    Offers before (.newMethod (.ref function) receiver owner) (request.offer data)
  | getAttribute {value : Value} {name : String} {request : MethodRequest} {asked : World Code Host}
    {data : Function Code} (reads : Reads before value name request asked)
    (isFunction : before.heap.payload? request.function = some (.function data)) :
    Offers before (.getAttribute value name) (request.offer data)

/-- An operation that creates something has failed with an error. -/
def Raises (error : Error) : (operation : Operation Code) → operation.Answer → Prop
  | newString _, outcome | newList _, outcome | newTuple _, outcome | newFunction .., outcome
  | newClass .., outcome | newInstance _, outcome | newWeakref .., outcome | newMethod .., outcome
  | getAttribute .., outcome => outcome = .error error
  | _, _ => False

end Operation

/-! ### References that were taken for a payload -/

section

variable {before after : World Code Host}

/-- References can be taken in any order. -/
theorem Heap.holding_perm (heap : Heap Code) {handles others : List Handle}
    (perm : handles.Perm others) : heap.holding handles = heap.holding others := by
  induction perm with
  | nil => rfl
  | cons place _ inductionHypothesis => rw [holding_cons, holding_cons, inductionHypothesis]
  | swap place other rest =>
    simp only [holding_cons]
    exact mapEntry_comm _ place other fun _ => rfl
  | trans _ _ first second => exact first.trans second

/-- References are only taken to live entries. -/
theorem retainAll_eq_ok {values : List Value}
    (ended : (retainAll values : Action Code Host Unit) before = .ok ((), after)) :
    after = { before with heap := before.heap.holding (values.filterMap Value.handle?) } ∧
      ∀ handle ∈ values.filterMap Value.handle?, before.heap.isLive handle := by
  change (values.forM retainValue : Action Code Host Unit) before = _ at ended
  induction values generalizing before with
  | nil =>
    cases ended
    exact ⟨rfl, fun _ member => nomatch member⟩
  | cons value rest inductionHypothesis =>
    obtain ⟨_, between, retained, going⟩ := Action.bind_eq_ok.mp ended
    obtain ⟨rfl, live⟩ := inductionHypothesis going
    cases value with
    | ref handle =>
      rw [show (retainValue (.ref handle) : Action Code Host Unit) = retain handle from rfl,
        retain_apply] at retained
      split at retained
      · rename_i there
        cases retained
        refine ⟨rfl, fun other member => ?_⟩
        rcases List.mem_cons.mp (show other ∈ handle :: rest.filterMap Value.handle? from member) with
          rfl | member
        · exact there
        · exact (before.heap.isLive_increment handle other).symm.trans (live other member)
      · cases retained
    | _ =>
      cases retained
      exact ⟨rfl, live⟩

theorem retainAll_concat {values : List Value} {value : Value} {between : World Code Host}
    (first : (retainAll values : Action Code Host Unit) before = .ok ((), between))
    (last : (retainValue value : Action Code Host Unit) between = .ok ((), after)) :
    (retainAll (values ++ [value]) : Action Code Host Unit) before = .ok ((), after) := by
  refine (congrFun (List.forM_append) before).trans ?_
  exact Action.bind_eq_ok.mpr ⟨(), between, first, Action.bind_eq_ok.mpr ⟨(), after, last, rfl⟩⟩

/-- References to live entries are taken one by one. -/
theorem retainEach_apply {handles : List Handle} (live : ∀ handle ∈ handles, before.heap.isLive handle) :
    (handles.forM fun handle => retain handle : Attempt Code Host Unit).run before =
      .ok (.ok (), { before with heap := before.heap.holding handles }) := by
  induction handles generalizing before with
  | nil => rfl
  | cons handle rest inductionHypothesis =>
    refine (Attempt.run_act_bind ((retain_apply before handle).trans
      (if_pos (live handle List.mem_cons_self)))).trans (inductionHypothesis fun other member => ?_)
    exact (before.heap.isLive_increment handle other).trans (live other (List.mem_cons_of_mem _ member))

end

/-- The references that are taken for the parts of a method beside its function. -/
def MethodRequest.parts (request : MethodRequest) : List Handle :=
  (request.receiver.bind Value.handle?).toList ++ (request.owner.bind Value.handle?).toList

section

variable {before asked : World Code Host} {request : MethodRequest}

theorem Value.handles_present? (value : Value) :
    (value.present?.bind Value.handle?).toList = [value].filterMap Value.handle? := by
  cases value <;> rfl

theorem handles_toList (value : Option Value) :
    (value.bind Value.handle?).toList = value.toList.filterMap Value.handle? := by
  cases value with
  | none => rfl
  | some value => cases value <;> rfl

theorem Creates.holding {function : Handle} {receiver owner : Value}
    (creates : Creates before function receiver owner request asked) :
    asked = { before with heap := before.heap.holding request.parts } ∧
      ∀ handle ∈ request.parts, before.heap.isLive handle := by
  obtain ⟨_, _, retained, rfl⟩ := creates
  obtain ⟨_, between, first, second⟩ := Action.bind_eq_ok.mp retained
  have both : (retainAll [receiver, owner] : Action Code Host Unit) before = .ok ((), asked) :=
    @retainAll_concat _ _ before asked [receiver] owner between
      (@retainAll_concat _ _ before between [] receiver before rfl first) second
  have parts : (receiver.present?.bind Value.handle?).toList ++ (owner.present?.bind Value.handle?).toList =
      [receiver, owner].filterMap Value.handle? := by
    rw [receiver.handles_present?, owner.handles_present?, ← List.filterMap_append]
    rfl
  unfold MethodRequest.parts
  rw [parts]
  exact retainAll_eq_ok both

theorem Binds.holding {method : Handle} {data : Method} {object type : Value} {held : World Code Host}
    (binds : Binds before method data object type held request asked) :
    asked = { before with heap := before.heap.holding request.parts } ∧
      ∀ handle ∈ request.parts, before.heap.isLive handle := by
  obtain ⟨_, unbound, retainedParts, _, retained, rfl⟩ := binds
  have both := retainAll_concat retainedParts retained
  have parts : ((object.present?.bind Value.handle?).toList ++ (data.owner.bind Value.handle?).toList).Perm
      ((data.parts ++ [object]).filterMap Value.handle?) := by
    rw [object.handles_present?, handles_toList, Method.parts, unbound, List.filterMap_append]
    exact List.perm_append_comm
  obtain ⟨same, live⟩ := retainAll_eq_ok both
  refine ⟨?_, fun handle member => live handle (parts.subset member)⟩
  rw [same, ← before.heap.holding_perm parts]
  rfl

theorem Reads.holding {value : Value} {name : String}
    (reads : Reads before value name request asked) :
    asked = { before with heap := before.heap.holding request.parts } ∧
      ∀ handle ∈ request.parts, before.heap.isLive handle := by
  cases reads with
  | function _ creates => exact creates.holding
  | method _ binds => exact binds.holding

end

/-! ### Giving back what was taken -/

namespace Engine

variable (engine : Engine Code Host) {world : World Code Host}

/-- References that were taken and wait to be given up are given up one in a round, and none of them is
the last one. -/
theorem releaseAll_holding (rounds : Nat) {handles : List Handle}
    (counted : ∀ handle ∈ handles, 0 < world.heap.tally handle) (settled : world.heap.pending = []) :
    engine.releaseAll rounds { world with heap := { world.heap.holding handles with pending := handles } } =
      if handles.length ≤ rounds then .ok ((), world) else .error .exhausted := by
  induction handles generalizing rounds with
  | nil =>
    rw [List.length_nil, if_pos (Nat.zero_le rounds), engine.releaseAll_of_settled rounds rfl]
    show Except.ok ((), { world with heap := { world.heap with pending := [] } }) = _
    rw [← settled]
  | cons handle rest inductionHypothesis =>
    cases rounds with
    | zero => exact releaseAll_zero_of_cons rfl
    | succ rounds =>
      let popped : World Code Host :=
        { world with heap := { (world.heap.holding rest).increment handle with pending := rest } }
      have positive := (counted handle List.mem_cons_self).trans_le (world.heap.tally_le_holding rest handle)
      obtain ⟨entry, occupied, more⟩ : ∃ entry, (world.heap.holding rest).occupant? handle = some entry ∧
          0 < entry.count := by
        unfold Heap.tally at positive
        cases occupied : (world.heap.holding rest).occupant? handle with
        | none =>
          rw [occupied] at positive
          cases positive
        | some entry =>
          rw [occupied] at positive
          exact ⟨entry, rfl, positive⟩
      have held : popped.heap.occupant? handle = some { entry with count := entry.count + 1 } := by
        refine ((world.heap.holding rest).occupant?_increment handle handle).trans ?_
        rw [if_pos rfl, occupied]
        rfl
      have undone : (popped.heap.mapEntry handle fun entry => { entry with count := entry.count - 1 }) =
          { world.heap.holding rest with pending := rest } :=
        congrArg (fun heap : Heap Code => { heap with pending := rest })
          ((world.heap.holding rest).mapEntry_increment handle)
      have later := inductionHypothesis rounds fun other member =>
        counted other (List.mem_cons_of_mem _ member)
      rw [world.heap.holding_cons, releaseAll_succ_of_cons rfl]
      show engine.releaseNext handle popped >>= _ = _
      rw [engine.releaseNext_of_more held (Nat.lt_add_of_pos_left more), undone]
      simp only [List.length_cons, Nat.add_le_add_iff_right]
      exact later

end Engine

/-! ### Refusals -/

/-- The heap after a payload was counted: a container counts towards the next collection, and a
function uses its number up. -/
def Heap.counting (heap : Heap Code) (payload : Payload Code) : Heap Code :=
  { heap with
    nextCounter := heap.nextCounter + if payload.kind = .function then 1 else 0
    sinceCollection := heap.sinceCollection + if payload.isContainer then 1 else 0 }

/-- No collection is due when a payload is counted. While a release is in progress, none ever is. -/
def Heap.CollectsNothing (heap : Heap Code) (payload : Payload Code) : Prop :=
  heap.releasing = true ∨ payload.isContainer = false ∨
    heap.tracker.collectionDue (heap.sinceCollection + 1) = false

/-- The heap when a payload is refused, with all that the payload would have owned on the stack. -/
def Heap.forfeiting (heap : Heap Code) (payload : Payload Code) : Heap Code :=
  { heap with
    pending := payload.visits.reverse ++ heap.pending
    sinceCollection := heap.sinceCollection + if payload.isContainer then 1 else 0 }

namespace Engine

variable {engine : Engine Code Host} {world : World Code Host} {payload : Payload Code}
  {exceeded : LimitExceeded}

theorem countAllocation_of_collectsNothing (nothing : world.heap.CollectsNothing payload) :
    engine.countAllocation payload world = .ok ((), { world with
      heap := { world.heap with
        sinceCollection := world.heap.sinceCollection + if payload.isContainer then 1 else 0 } }) := by
  rcases nothing with busy | plain | early
  · exact engine.countAllocation_of_busy busy payload
  · unfold countAllocation
    rw [plain]
    exact congrArg (fun count => Except.ok ((), ({ world with
      heap := { world.heap with sinceCollection := count } } : World Code Host))) (add_zero _).symm
  · unfold countAllocation
    split
    · let counted : World Code Host :=
        { world with heap := { world.heap with sinceCollection := world.heap.sinceCollection + 1 } }
      refine Action.bind_eq_ok.mpr ⟨(), counted, rfl, Action.bind_eq_ok.mpr ⟨_, counted, rfl, ?_⟩⟩
      exact congrFun (if_neg (Bool.not_eq_true _ ▸ early)) counted
    · exact congrArg (fun count => Except.ok ((), ({ world with
        heap := { world.heap with sinceCollection := count } } : World Code Host))) (add_zero _).symm

/-- A refused payload is given up. -/
theorem charge_of_refused (nothing : world.heap.CollectsNothing payload)
    (refused : world.heap.tracker.charge (UInt64.ofNat payload.size) = .error exceeded) :
    engine.charge payload world =
      (engine.drain { world with heap := world.heap.forfeiting payload }).map
        fun ended => (some exceeded, ended.2) := by
  refine (Action.bind_of_ok (countAllocation_of_collectsNothing nothing)).trans
    ((Action.bind_of_ok (currentHeap_apply _)).trans ?_)
  dsimp only
  rw [refused]
  refine (Action.bind_of_ok (modifyHeap_apply _ _)).trans ?_
  dsimp only
  rw [payload.leavings_eq_append]
  show (engine.drain { world with heap := world.heap.forfeiting payload } >>= _) = _
  cases engine.drain { world with heap := world.heap.forfeiting payload } <;> rfl

variable {drained : Except Fault (Unit × World Code Host)}

/-- An attempt does not go on after a refusal. -/
theorem run_bind_of_map_error {attempt : Attempt Code Host α} {next : α → Attempt Code Host β}
    {error : Error} (ended : attempt.run world = drained.map fun ended => (.error error, ended.2)) :
    (attempt >>= next).run world = drained.map fun ended => (.error error, ended.2) := by
  rw [Attempt.run_bind]
  show (attempt.run world >>= _) = _
  rw [ended]
  cases drained <;> rfl

theorem allocate_of_charge
    (charged : engine.charge payload world = drained.map fun ended => (some exceeded, ended.2)) :
    (engine.allocate payload).run world =
      drained.map fun ended => (.error (Refusal.limit exceeded).error, ended.2) := by
  cases drained with
  | error fault => exact Action.bind_eq_error.mpr (Or.inl (Action.bind_eq_error.mpr (Or.inl charged)))
  | ok ended => exact (Attempt.run_act_bind charged).trans rfl

/-- A refused method is reported by the name of its function, which is still there. -/
theorem allocateMethod_of_charge {asked : World Code Host} {function : Handle}
    {receiver owner : Option Value} {data : Function Code}
    (retained : (retain function : Action Code Host Unit) asked = .ok ((), world))
    (charged : engine.charge (.method { function, receiver, owner, watchers := [] }) world =
      drained.map fun ended => (some exceeded, ended.2))
    (kept : ∀ ended, drained = .ok ended →
      ended.2.heap.payload? function = some (.function data)) :
    (engine.allocateMethod function receiver owner).run asked =
      drained.map fun ended => (.error (Refusal.methodNotCreated data.name).error, ended.2) := by
  refine (Attempt.run_act_bind retained).trans ?_
  cases drained with
  | error fault => exact Action.bind_eq_error.mpr (Or.inl (Action.bind_eq_error.mpr (Or.inl charged)))
  | ok ended =>
    refine (Attempt.run_act_bind charged).trans ?_
    exact (Attempt.run_ask_bind data (Heap.function_eq_ok (kept ended rfl))).trans rfl

end Engine

/-- The world in which an operation makes its offer. -/
def Offer.asked (offer : Offer Code) (before : World Code Host) : World Code Host :=
  let held := before.heap.holding offer.retained
  { before with heap :=
    { held with nextCounter := held.nextCounter + if offer.payload.kind = .function then 1 else 0 } }

namespace Operation.Offers

variable {engine : Engine Code Host} {before : World Code Host} {operation : Operation Code}
  {offer : Offer Code}

/-- What a payload would have owned was handed over or taken for it. -/
theorem visits_eq (offers : operation.Offers before offer) :
    offer.payload.visits = offer.handed.filterMap Value.handle? ++ offer.retained := by
  cases offers with
  | newString => rfl
  | newList items => exact (List.append_nil _).symm
  | newTuple items => exact (List.append_nil _).symm
  | newFunction => rfl
  | newClass => exact List.append_nil _
  | newInstance => rfl
  | newWeakref callback _ =>
    show ((callback.bind Value.present?).bind Value.handle?).toList = _
    rw [List.append_nil]
    cases callback with
    | none => rfl
    | some value => cases value <;> rfl
  | newMethod => rfl
  | getAttribute => rfl

/-- References were only taken to entries that are there. -/
theorem isLive (offers : operation.Offers before offer) :
    ∀ handle ∈ offer.retained, before.heap.isLive handle := by
  have method {request : MethodRequest} {data : Function Code}
      (parts : ∀ handle ∈ request.parts, before.heap.isLive handle)
      (isFunction : before.heap.payload? request.function = some (.function data)) :
      ∀ handle ∈ (request.offer data).retained, before.heap.isLive handle := by
    intro handle member
    rcases List.mem_cons.mp (show handle ∈ request.function :: request.parts from member) with
      rfl | member
    · exact Heap.isLive_of_payload? isFunction
    · exact parts handle member
  cases offers with
  | newClass _ classes _ =>
    intro handle member
    obtain ⟨_, held⟩ := (Engine.baseHandles_eq_ok classes).2 handle member
    exact Heap.isLive_of_payload? held
  | newInstance isType =>
    intro handle member
    cases List.mem_singleton.mp member
    obtain ⟨_, _, held⟩ := Heap.type?_eq_some isType
    exact Heap.isLive_of_payload? held
  | newMethod creates isFunction => exact method creates.holding.2 isFunction
  | getAttribute reads isFunction => exact method reads.holding.2 isFunction
  | _ => exact fun _ member => nomatch member

/-- An operation whose offer is refused fails when all that the payload would have owned has been
given up. -/
theorem perform (offers : operation.Offers before offer) (exceeded : LimitExceeded) :
    ∃ answer, operation.Raises (offer.refusal exceeded).error answer ∧
      ∀ (engine : Engine Code Host) (drained : Except Fault (Unit × World Code Host)),
        engine.charge offer.payload (offer.asked before) =
          drained.map (fun ended => (some exceeded, ended.2)) →
        (∀ ended, drained = .ok ended → ∀ handle ∈ offer.retained,
          ended.2.heap.payload? handle = before.heap.payload? handle) →
        operation.perform engine before = drained.map fun ended => (answer, ended.2) := by
  have live := offers.isLive
  have method {request : MethodRequest} {asked : World Code Host} {data : Function Code}
      (holding : asked = { before with heap := before.heap.holding request.parts } ∧
        ∀ handle ∈ request.parts, before.heap.isLive handle)
      (isFunction : before.heap.payload? request.function = some (.function data))
      (engine : Engine Code Host) (drained : Except Fault (Unit × World Code Host))
      (charged : engine.charge request.payload ((request.offer data).asked before) =
        drained.map fun ended => (some exceeded, ended.2))
      (kept : ∀ ended, drained = .ok ended → ∀ handle ∈ (request.offer data).retained,
        ended.2.heap.payload? handle = before.heap.payload? handle) :
      (engine.allocateMethod request.function request.receiver request.owner).run asked =
        drained.map fun ended => (.error (Refusal.methodNotCreated data.name).error, ended.2) := by
    obtain ⟨rfl, _⟩ := holding
    have held : (request.offer data).asked before =
        { before with heap := (before.heap.holding request.parts).increment request.function } := by
      rw [← before.heap.holding_cons]
      rfl
    rw [held] at charged
    refine Engine.allocateMethod_of_charge ((retain_apply _ request.function).trans (if_pos ?_)) charged
      fun ended ran => (kept ended ran _ List.mem_cons_self).trans isFunction
    exact (before.heap.isLive_holding _ _).trans (Heap.isLive_of_payload? isFunction)
  cases offers with
  | newString text => exact ⟨_, rfl, fun _ _ charged _ => Engine.allocate_of_charge charged⟩
  | newList items => exact ⟨_, rfl, fun _ _ charged _ => Engine.allocate_of_charge charged⟩
  | newTuple items => exact ⟨_, rfl, fun _ _ charged _ => Engine.allocate_of_charge charged⟩
  | newFunction name qualifiedName doc code =>
    refine ⟨_, rfl, fun _ _ charged _ => Eq.trans ?_ (Engine.allocate_of_charge charged)⟩
    exact (Attempt.run_act_bind (currentHeap_apply before)).trans (Attempt.run_act_bind rfl)
  | newClass name classes inherited =>
    refine ⟨_, rfl, fun _ _ charged _ => Eq.trans ?_ (Engine.allocate_of_charge charged)⟩
    exact (Attempt.run_bind_of_ok classes).trans ((Attempt.run_ask_bind _ inherited).trans
      (Attempt.run_bind_of_ok (retainEach_apply live)))
  | newInstance isType =>
    refine ⟨_, rfl, fun _ _ charged _ => Eq.trans ?_ (Engine.allocate_of_charge charged)⟩
    exact (Attempt.run_ask_bind _ isType).trans (Attempt.run_act_bind
      ((retain_apply before _).trans (if_pos (live _ List.mem_cons_self))))
  | newWeakref callback isReferable =>
    refine ⟨_, rfl, fun _ _ charged _ => (Attempt.run_ask_bind _ isReferable).trans ?_⟩
    exact Engine.run_bind_of_map_error (Engine.allocate_of_charge charged)
  | newMethod creates isFunction =>
    exact ⟨_, rfl, fun engine drained charged kept =>
      creates.newMethod.trans (method creates.holding isFunction engine drained charged kept)⟩
  | getAttribute reads isFunction =>
    exact ⟨_, rfl, fun engine drained charged kept =>
      reads.getAttribute.trans (method reads.holding isFunction engine drained charged kept)⟩

/-- What was handed over is what the operation takes over. -/
theorem consumes (offers : operation.Offers before offer) : operation.consumes = owned offer.handed := by
  cases offers <;> rfl

/-- An operation hands values over, or it takes references. -/
theorem handed_or (offers : operation.Offers before offer) :
    offer.handed = [] ∨ offer.retained = [] ∧ offer.payload.kind ≠ .function := by
  cases offers with
  | newList | newTuple | newWeakref => exact Or.inr ⟨rfl, Kind.noConfusion⟩
  | _ => exact Or.inl rfl

end Operation.Offers

/-! ### Refused operations -/

namespace Engine

variable {engine : Engine Code Host} {world : World Code Host}

/-- What the loop does in so many rounds does not depend on how many there might be. -/
theorem releaseAll_rounds (more rounds : Nat) :
    ({ engine with rounds := more } : Engine Code Host).releaseAll rounds = engine.releaseAll rounds := by
  have called (callbacks : List (Handle × Value)) :
      ({ engine with rounds := more } : Engine Code Host).runCallbacks enqueue callbacks =
        engine.runCallbacks enqueue callbacks := by
    induction callbacks with
    | nil => rfl
    | cons callback rest inductionHypothesis =>
      unfold runCallbacks
      rw [inductionHypothesis]
  induction rounds with
  | zero => rfl
  | succ rounds inductionHypothesis =>
    unfold releaseAll releaseNext tearDown
    simp only [inductionHypothesis, called]

/-- Only references have to be given up. -/
theorem releaseList_handles (values : List Value) :
    engine.releaseList ((values.filterMap Value.handle?).map .ref) = engine.releaseList values := by
  show ((values.filterMap Value.handle?).map Value.ref).forM engine.release =
    values.forM engine.release
  induction values with
  | nil => rfl
  | cons value rest inductionHypothesis =>
    cases value with
    | ref handle => exact congrArg (engine.release (.ref handle) >>= fun _ => ·) inductionHypothesis
    | _ => exact inductionHypothesis

end Engine

theorem Heap.holding_counting (heap : Heap Code) (payload : Payload Code) (handles : List Handle) :
    (heap.counting payload).holding handles = (heap.holding handles).counting payload := by
  induction handles with
  | nil => rfl
  | cons place rest inductionHypothesis =>
    rw [holding_cons, holding_cons, inductionHypothesis]
    rfl

theorem Heap.holding_releasing (heap : Heap Code) (busy : Bool) (handles : List Handle) :
    { heap with releasing := busy }.holding handles = { heap.holding handles with releasing := busy } := by
  induction handles with
  | nil => rfl
  | cons place rest inductionHypothesis =>
    rw [holding_cons, holding_cons, inductionHypothesis]
    rfl

/-- The world in which a refused offer is given up: the references that were taken are on top of the
stack, above those that were handed over. -/
def Offer.forfeited (offer : Offer Code) (before : World Code Host) : World Code Host :=
  { before with heap :=
    { (before.heap.counting offer.payload).holding offer.retained with
      pending := offer.payload.visits.reverse ++ before.heap.pending } }

theorem Offer.charge_asked (offer : Offer Code) (engine : Engine Code Host) {before : World Code Host}
    {exceeded : LimitExceeded}
    (refused : before.heap.tracker.charge (UInt64.ofNat offer.payload.size) = .error exceeded)
    (nothing : before.heap.CollectsNothing offer.payload) :
    engine.charge offer.payload (offer.asked before) =
      (engine.drain (offer.forfeited before)).map fun ended => (some exceeded, ended.2) := by
  have books := before.heap.books_holding offer.retained
  have tracker : (offer.asked before).heap.tracker = before.heap.tracker :=
    (congrArg Heap.tracker books :)
  have still : (offer.asked before).heap.CollectsNothing offer.payload := by
    have busy : (offer.asked before).heap.releasing = before.heap.releasing :=
      (congrArg Heap.releasing books :)
    have counted : (offer.asked before).heap.sinceCollection = before.heap.sinceCollection :=
      (congrArg Heap.sinceCollection books :)
    unfold Heap.CollectsNothing
    rwa [busy, tracker, counted]
  have forfeits : (offer.asked before).heap.forfeiting offer.payload = (offer.forfeited before).heap := by
    have pending : (before.heap.holding offer.retained).pending = before.heap.pending :=
      (congrArg Heap.pending books :)
    unfold Offer.forfeited
    rw [Heap.holding_counting, ← pending]
    rfl
  rw [Engine.charge_of_refused still (tracker ▸ refused), forfeits]
  rfl

namespace Operation.Offers

variable {engine : Engine Code Host} {before : World Code Host} {operation : Operation Code}
  {offer : Offer Code}

/-- In a release, what is given up only joins what waits. -/
theorem drain_of_busy (offers : operation.Offers before offer) (engine : Engine Code Host)
    (busy : before.heap.releasing = true) :
    engine.drain (offer.forfeited before) =
      (engine.releaseList offer.handed before).map fun ended =>
        ((), { ended.2 with heap :=
          (ended.2.heap.counting offer.payload).postponing offer.retained }) := by
  have books := (before.heap.counting offer.payload).books_holding offer.retained
  have still : (offer.forfeited before).heap.releasing = true :=
    (congrArg Heap.releasing books :).trans busy
  have stacked : offer.payload.visits.reverse ++ before.heap.pending = offer.retained.reverse ++
      ((offer.handed.filterMap Value.handle?).reverse ++ before.heap.pending) := by
    rw [offers.visits_eq, List.reverse_append, List.append_assoc]
  let stacking : Heap Code := { before.heap with
    pending := (offer.handed.filterMap Value.handle?).reverse ++ before.heap.pending }
  have held : (stacking.counting offer.payload).holding offer.retained =
      { (before.heap.counting offer.payload).holding offer.retained with pending := stacking.pending } :=
    (before.heap.counting offer.payload).holding_pending stacking.pending offer.retained
  have same : (stacking.counting offer.payload).postponing offer.retained =
      { (before.heap.counting offer.payload).holding offer.retained with
        pending := offer.payload.visits.reverse ++ before.heap.pending } := by
    unfold Heap.postponing
    rw [held, stacked]
    rfl
  rw [engine.drain_of_busy still, engine.releaseList_of_busy busy]
  exact congrArg (fun heap => Except.ok ((), ({ before with heap } : World Code Host))) same.symm

/-- Between operations, references that were taken are given back. -/
theorem drain_of_idle (offers : operation.Offers before offer) (engine : Engine Code Host)
    (own : offer.handed = []) (idle : before.heap.releasing = false) (settled : before.heap.pending = [])
    (counted : ∀ handle, before.heap.isLive handle → 0 < before.heap.tally handle) :
    engine.drain (offer.forfeited before) =
      if offer.retained.length ≤ engine.rounds then
        .ok ((), { before with heap := before.heap.counting offer.payload })
      else .error .exhausted := by
  have books := (before.heap.counting offer.payload).books_holding offer.retained
  have still : (offer.forfeited before).heap.releasing = false :=
    (congrArg Heap.releasing books :).trans idle
  let started : World Code Host :=
    { before with heap := { before.heap.counting offer.payload with releasing := true } }
  have held : (offer.forfeited before).setReleasing true = { started with heap :=
      { started.heap.holding offer.retained.reverse with pending := offer.retained.reverse } } := by
    rw [started.heap.holding_perm offer.retained.reverse_perm, Heap.holding_releasing]
    unfold Offer.forfeited
    rw [offers.visits_eq, own, settled, List.append_nil]
    rfl
  have positive : ∀ handle ∈ offer.retained.reverse, 0 < started.heap.tally handle :=
    fun handle member => counted handle (offers.isLive handle (List.mem_reverse.mp member))
  rw [Engine.drain_of_idle still, held, engine.releaseAll_holding _ positive settled, List.length_reverse]
  let counts : World Code Host := { before with heap := before.heap.counting offer.payload }
  have done : counts.setReleasing false = counts := World.setReleasing_self idle
  split
  · exact congrArg (fun world => Except.ok ((), world)) done
  · rfl

section

variable (offers : operation.Offers before offer) (nothing : offer.retained = [])
  (plain : offer.payload.kind ≠ .function) (settled : before.heap.pending = [])

include offers nothing plain settled in
theorem forfeited_eq : offer.forfeited before = before.atop
    { waiting := (offer.handed.filterMap Value.handle?).reverse
      counted := if offer.payload.isContainer then 1 else 0 } := by
  unfold Offer.forfeited Heap.counting World.atop Heap.atop
  rw [nothing, offers.visits_eq, nothing, List.append_nil, if_neg plain, settled, List.append_nil,
    List.nil_append]
  rfl

include plain in
theorem counting_eq (world : World Code Host) : world.atop
    { waiting := [], counted := if offer.payload.isContainer then 1 else 0 } =
      { world with heap := world.heap.counting offer.payload } := by
  unfold World.atop Heap.atop Heap.counting
  rw [if_neg plain, List.append_nil]
  rfl

include offers nothing plain settled in
/-- Between operations, values that were handed over are given up one after the other. -/
theorem drain_handed (oblivious : engine.Oblivious) (idle : before.heap.releasing = false) :
    Approximates (engine.drain (offer.forfeited before))
      ((engine.releaseList offer.handed.reverse before).map fun ended =>
        ((), { ended.2 with heap := ended.2.heap.counting offer.payload })) := by
  have given := oblivious.drain_atop (offer.handed.filterMap Value.handle?).reverse
    (if offer.payload.isContainer then 1 else 0) idle settled
  simp only [counting_eq plain] at given
  rwa [← forfeited_eq offers nothing plain settled, ← List.filterMap_reverse,
    Engine.releaseList_handles] at given

include offers nothing plain settled in
/-- If the values can be given up one after the other, then they are, once there are rounds enough. -/
theorem drain_of_releaseList (oblivious : engine.Oblivious) (idle : before.heap.releasing = false)
    {last : World Code Host} {rounds : Nat} (enough : engine.rounds * offer.handed.length ≤ rounds)
    (released : engine.releaseList offer.handed.reverse before = .ok ((), last)) :
    { engine with rounds }.drain (offer.forfeited before) =
      .ok ((), { last with heap := last.heap.counting offer.payload }) := by
  rw [← Engine.releaseList_handles, List.filterMap_reverse] at released
  have fewer : engine.rounds * (offer.handed.filterMap Value.handle?).reverse.length ≤ rounds := by
    rw [List.length_reverse]
    exact (Nat.mul_le_mul_left _ (List.length_filterMap_le _ _)).trans enough
  have worked := oblivious.releaseAll_atop_of_releaseList
    (if offer.payload.isContainer then 1 else 0) idle settled fewer released
  have still : (offer.forfeited before).heap.releasing = false := by
    rw [forfeited_eq offers nothing plain settled]
    exact idle
  have ended : last.heap.releasing = false := Engine.idle_of_releaseList idle released
  have done : ({ last with heap := last.heap.counting offer.payload } : World Code Host).setReleasing
      false = { last with heap := last.heap.counting offer.payload } := World.setReleasing_self ended
  rw [Engine.drain_of_idle still, Engine.releaseAll_rounds, forfeited_eq offers nothing plain settled,
    worked, counting_eq plain]
  exact congrArg (fun world => Except.ok ((), world)) done

end

end Operation.Offers

namespace Reached

variable {held : Host → Multiset Handle} {bodies : Code → Arguments → Program Code Host}
  {config : Config} {hand : Multiset Handle} {world : World Code (Recorded Code Host)}

/-- Whenever a host, which sees of the heap what is public, asks for something to be created and is
refused room for it, at any moment of a run at which no collection is due, the operation fails, and the
heap is as if the host had given up what the operation takes over, up to the counters of containers and
functions. Between operations, nothing else has changed at all. While releases are worked off, what is
given up waits, and so do the references that were taken for what was to be created. -/
theorem refused_creations_only_give_up (respectful : RespectfulBodies held bodies)
    (blind : ∀ code arguments, (bodies code arguments).Blind)
    (reached : Reached held bodies config hand world) {heap : Heap Code} (member : heap ∈ heaps world)
    (host : Host) (fuel : Nat) {operation : Operation Code} {offer : Offer Code}
    {exceeded : LimitExceeded} (offers : operation.Offers { heap, host } offer)
    (refused : heap.tracker.charge (UInt64.ofNat offer.payload.size) = .error exceeded)
    (early : heap.CollectsNothing offer.payload) :
    let engine := Engine.ofPrograms bodies fuel
    operation.consumes = owned offer.handed ∧
    ∃ answer, operation.Raises (offer.refusal exceeded).error answer ∧
      (heap.releasing = false →
        Approximates (operation.perform engine { heap, host })
          ((engine.releaseList offer.handed.reverse { heap, host }).map fun ended =>
            (answer, { ended.2 with heap := ended.2.heap.counting offer.payload })) ∧
        ∀ last rounds, engine.releaseList offer.handed.reverse { heap, host } = .ok ((), last) →
          engine.rounds * offer.handed.length + offer.retained.length ≤ rounds →
          operation.perform { engine with rounds } { heap, host } =
            .ok (answer, { last with heap := last.heap.counting offer.payload })) ∧
      (heap.releasing = true → operation.perform engine { heap, host } =
        (engine.releaseList offer.handed { heap, host }).map fun ended =>
          (answer, { ended.2 with heap :=
            (ended.2.heap.counting offer.payload).postponing offer.retained })) := by
  intro engine
  have oblivious : engine.Oblivious := Engine.oblivious_ofPrograms blind fuel
  obtain ⟨⟨outside, limbo, sound⟩, settled⟩ := reached.orderly respectful member
  obtain ⟨answer, raises, performs⟩ := offers.perform exceeded
  have charged (engine : Engine Code Host) :=
    @Offer.charge_asked _ _ offer engine { heap, host } exceeded refused early
  refine ⟨offers.consumes, answer, raises, fun idle => ?_, fun busy => ?_⟩
  -- Either nothing was handed over, or nothing was retained for what was to be created.
  · rcases offers.handed_or with own | ⟨nothing, plain⟩
    · have drained (engine : Engine Code Host) :=
        offers.drain_of_idle engine own idle (settled idle) sound.balanced.positive
      have performed (engine : Engine Code Host) := performs engine _ (charged engine)
        fun ended ran handle _ => by
          rw [drained engine] at ran
          split at ran
          · cases ran
            rfl
          · cases ran
      simp only [drained] at performed
      rw [own, performed engine]
      refine ⟨?_, fun last rounds released enough => ?_⟩
      · split
        · exact .refl _
        · exact Or.inl rfl
      · cases released
        rw [performed { engine with rounds }, if_pos ((Nat.le_add_left _ _).trans enough)]
        rfl
    · have performed (engine : Engine Code Host) := performs engine _ (charged engine)
        fun _ _ handle member => nomatch nothing ▸ member
      refine ⟨?_, fun last rounds released enough => ?_⟩
      · rw [performed engine]
        have drained := (offers.drain_handed nothing plain (settled idle) oblivious idle).map
          fun ended => (answer, ended.2)
        refine drained.trans (Or.inr ?_)
        cases engine.releaseList offer.handed.reverse { heap, host } <;> rfl
      · rw [performed { engine with rounds }, offers.drain_of_releaseList nothing plain (settled idle)
          oblivious idle ((Nat.le_add_right _ _).trans enough) released]
        rfl
  · have drained := offers.drain_of_busy engine busy
    rw [performs engine _ (charged engine) fun ended ran handle _ => ?_, drained]
    · cases engine.releaseList offer.handed { heap, host } <;> rfl
    · rw [drained, engine.releaseList_of_busy busy] at ran
      cases ran
      exact Heap.payload?_holding _ _ _

/-- The configuration of a heap that refuses everything after so many allocations. -/
def cramped (limit : UInt64) : Config :=
  { Config.standard with limits := { Limits.standard with maxAllocations := some limit } }

/-- The books of a heap, and whether an entry is still there when the reference to it is given up. -/
def givenUp (engine : Engine Code Unit) (handle : Handle) (state : World Code (Recorded Code Host)) :
    Tracker × Bool × Option Bool :=
  (state.heap.tracker, state.heap.releasing,
    match engine.releaseList [.ref handle] { heap := state.heap, host := () } with
    | .ok (_, last) => some (last.heap.isLive handle)
    | .error _ => none)

/-- A list of an instance that nothing else holds is refused, and the instance is given up. -/
theorem refused_list_of_instance :
    ∃ (world : World Unit (Recorded Unit Unit)) (last : World Unit Unit),
    Reached (fun _ => 0) idleBodies (cramped 2) ({0} + {1}) world ∧
    (Engine.ofPrograms idleBodies 4).releaseList [.ref 1] { heap := world.heap, host := () } =
      .ok ((), last) ∧ last.heap.isLive 1 = false ∧ ∃ answer,
    (Operation.newList [.ref 1]).Raises (Refusal.limit (.allocations 2 3)).error answer ∧
    (Operation.newList [.ref 1]).perform { Engine.ofPrograms idleBodies 4 with rounds := 3 }
        { heap := world.heap, host := () } =
      .ok (answer, { last with heap := last.heap.counting (.list [.ref 1]) }) := by
  obtain ⟨world, reached, seen⟩ : ∃ world : World Unit (Recorded Unit Unit),
      Reached (fun _ => 0) idleBodies (cramped 2) ({0} + {1}) world ∧
      givenUp (Engine.ofPrograms idleBodies 4) 1 world =
        ({ limits := (cramped 2).limits, allocations := 2, memory := 249 }, false, some false) :=
    exists_follow [.newClass "C" [], .newInstance (.ref 0)] 8 () _ _ rfl (by decide +kernel)
  obtain ⟨books, idle, gone⟩ : _ ∧ _ ∧ _ := by simpa [givenUp] using seen
  split at gone
  · rename_i answer last released
    have blind (code : Unit) (arguments : Arguments) : (idleBodies code arguments).Blind :=
      Program.blind_dropping (by exact trivial) arguments.values
    have refused : world.heap.tracker.charge
        (UInt64.ofNat (Payload.list [.ref 1] : Payload Unit).size) = .error (.allocations 2 3) := by
      rw [books]
      rfl
    obtain ⟨_, answer, raises, between, _⟩ := refused_creations_only_give_up respectful_idleBodies
      blind reached List.mem_cons_self () 4 (.newList [.ref 1]) refused
      (Or.inr (Or.inr (by rw [books]; rfl)))
    exact ⟨world, last, reached, released, Option.some.inj gone, answer, raises,
      (between idle).2 last 3 released (by decide)⟩
  · cases gone

/-- How often a class is counted in a heap of a run in which releases are worked off, before and after
an instance of it is refused. -/
def refusedInCallback (engine : Engine Code Unit) (type : Handle) (state : World Code (Recorded Code Host)) :
    Option (Nat × Nat) := do
  let heap ← (heaps state).find? Heap.releasing
  match heap.type? (.ref type), heap.tracker.charge 104,
      (engine.newInstance (.ref type)).run { heap, host := () } with
  | .ok (some _), .error _, .ok (.error _, after) => return (heap.tally type, after.heap.tally type)
  | _, _, _ => none

/-- In a callback, the reference that was taken to the class of an instance still waits when the
instance has been refused. -/
theorem refused_instance_in_callback_counts :
    ∃ (state : World Unit (Recorded Unit Unit)) (hand : Multiset Handle) (heap : Heap Unit)
      (offer : Offer Unit) (exceeded : LimitExceeded),
      Reached (fun _ => 0) idleBodies (cramped 4) hand state ∧ heap ∈ heaps state ∧
      (Operation.newInstance (.ref 0)).Offers ({ heap, host := () } : World Unit Unit) offer ∧
      heap.tracker.charge (UInt64.ofNat offer.payload.size) = .error exceeded ∧
      heap.CollectsNothing offer.payload ∧
      (Operation.newInstance (.ref 0) : Operation Unit).consumes = 0 ∧
      ∃ error after, (Operation.newInstance (.ref 0)).perform (Engine.ofPrograms idleBodies 4)
          { heap, host := () } = .ok (.error error, after) ∧
        after.heap.tally 0 ≠ heap.tally 0 := by
  obtain ⟨state, reached, seen⟩ : ∃ state : World Unit (Recorded Unit Unit),
      Reached (fun _ => 0) idleBodies (cramped 4) ({0} + {3}) state ∧
      refusedInCallback (Engine.ofPrograms idleBodies 4) 0 state = some (2, 3) :=
    exists_follow [.newClass "C" [], .newInstance (.ref 0), .newFunction "f" none none (),
      .newWeakref (.ref 1) (some (.ref 2)), .drop (.ref 1)] 8 () _ _ rfl (by decide +kernel)
  obtain ⟨heap, found, seen⟩ := Option.bind_eq_some_iff.mp seen
  split at seen
  · rename_i handle exceeded error after isType refused ended
    simp only [pure, Option.some.injEq, Prod.mk.injEq] at seen
    obtain ⟨before, later⟩ := seen
    exact ⟨state, _, heap, _, exceeded, reached, List.mem_of_find?_eq_some found, .newInstance isType,
      refused, Or.inl (List.find?_some found), rfl, error, after, ended, by rw [before, later]; decide⟩
  · cases seen

end Reached

end ObjectHeap
