/-
This file says what an operation reports whose method is refused. The name of the function is
looked up when the refused method was already given up, and with it the reference that the method
took to the function. So the name is found as long as somebody else has kept the function. Whoever
creates a method holds its function, and whoever binds or copies a method holds the method, which
holds the function. Reading through a class is different: the class alone may hold the function,
and a callback may take it out of the class while the method is being made.
-/

import Mathlib
import ObjectHeap.Proofs.Requests

namespace ObjectHeap

variable {Code Host : Type} {ledger : Ledger Code Host} {engine : Engine Code Host} {scene : Scene}
  {before held asked refused : World Code Host} {request : MethodRequest} {mine : Multiset Handle}

/-! ### When a method is asked for -/

theorem Scene.framing_framing (scene : Scene) (more rest : Multiset Handle) :
    (scene.framing more).framing rest = scene.framing (more + rest) :=
  congrArg (Scene.mk scene.busy scene.limbo) (add_assoc scene.frame more rest)

/-- Somebody else keeps a function who owns a reference to it or to a method that is made of it. -/
def Heap.Secures (heap : Heap Code) (frame : Multiset Handle) (function : Handle) : Prop :=
  function ∈ frame ∨ ∃ method data, method ∈ frame ∧
    heap.payload? method = some (.method data) ∧ data.function = function

/-- In a scene a method is asked for: the operation owns the parts that it hands over, and the
method is to be made of a function. -/
structure Ledger.Awaits (ledger : Ledger Code Host) (scene : Scene) (asked : World Code Host)
    (request : MethodRequest) : Prop where
  holds : ledger.Holds scene asked request.owns
  isFunction : ∃ data, asked.heap.payload? request.function = some (.function data)

/-- A method is asked for whose function is kept in any case. -/
structure Ledger.Secures (ledger : Ledger Code Host) (scene : Scene) (asked : World Code Host)
    (request : MethodRequest) : Prop extends ledger.Awaits scene asked request where
  secures : asked.heap.Secures scene.frame request.function

/-- While a value is copied, everything else that a copy owns is put aside, and the value with it. -/
theorem Ledger.Secures.aside {value : Value} {memo : Memo} {aside kept other : Multiset Handle}
    (copied : ∀ {scene : Scene}, value.owns ⊆ scene.frame → ledger.Holds scene before (0 + memo.owns) →
      ledger.Secures (scene.framing kept) asked request)
    (holds : ledger.Holds scene before (aside + memo.owns)) (lent : value.owns ⊆ aside)
    (same : aside + kept = other) : ledger.Secures (scene.framing other) asked request := by
  rw [← same, ← Scene.framing_framing]
  refine copied (fun _ member => Multiset.mem_add.mpr (Or.inr (lent member))) ?_
  exact Ledger.Holds.framing_iff.mpr (holds.congr (by rw [zero_add]))

/-- A function is kept that a method of the frame is made of. -/
theorem Ledger.Secures.of_method {method : Handle} {data : Method} {aside : Multiset Handle}
    (member : method ∈ scene.frame) (holds : ledger.Holds scene asked (aside + request.owns))
    (found : asked.heap.payload? method = some (.method data))
    (made : data.function = request.function) : ledger.Secures (scene.framing aside) asked request where
  holds := Ledger.Holds.framing_iff.mpr holds
  isFunction := made ▸ holds.sound.exists_function found
  secures := Or.inr ⟨method, data, Multiset.mem_add.mpr (Or.inl member), found, made⟩

section

variable {function method : Handle} {data : Method} {receiver owner object type : Value}

theorem Creates.awaits (creates : Creates before function receiver owner request asked)
    (holds : ledger.Holds scene before mine) : ledger.Awaits (scene.framing mine) asked request := by
  obtain ⟨⟨data, here⟩, _, retained, rfl⟩ := creates
  obtain ⟨_, between, first, second⟩ := Action.bind_eq_ok.mp retained
  obtain ⟨taken, _⟩ := (Action.Keeps.retainValue receiver).gain mine scene before holds _ _ first
  obtain ⟨done, _⟩ := (Action.Keeps.retainValue owner).gain _ scene between taken _ _ second
  refine ⟨Ledger.Holds.framing_iff.mpr (done.congr ?_), data,
    (payload?_of_retainValue second _).trans ((payload?_of_retainValue first _).trans here)⟩
  rw [MethodRequest.owns, Value.owned_present?, Value.owned_present?, add_assoc]

theorem Creates.function_eq (creates : Creates before function receiver owner request asked) :
    request.function = function := congrArg MethodRequest.function creates.request

theorem Binds.awaits (binds : Binds before method data object type held request asked)
    (holds : ledger.Holds scene before mine) :
    ledger.Awaits (scene.framing mine) asked request ∧
      asked.heap.payload? method = some (.method data) ∧ data.function = request.function := by
  obtain ⟨here, unbound, retainedParts, _, retained, rfl⟩ := binds
  obtain ⟨taken, _⟩ := (Action.Keeps.retainAll data.parts).gain mine scene before holds _ _
    retainedParts
  obtain ⟨done, _⟩ := (Action.Keeps.retainValue object).gain _ scene held taken _ _ retained
  have still : asked.heap.payload? method = some (.method data) :=
    (payload?_of_retainValue retained _).trans ((payload?_of_retainAll retainedParts _).trans here)
  refine ⟨⟨Ledger.Holds.framing_iff.mpr (done.congr ?_), done.sound.exists_function still⟩, still,
    rfl⟩
  rw [MethodRequest.owns, Value.owned_present?, Method.parts, unbound, add_assoc]
  exact congrArg (mine + ·) (add_comm _ _)

theorem Reads.awaits {value : Value} {name : String} (reads : Reads before value name request asked)
    (holds : ledger.Holds scene before mine) : ledger.Awaits (scene.framing mine) asked request := by
  cases reads with
  | function _ creates => exact creates.awaits holds
  | method _ binds => exact (binds.awaits holds).1

end

namespace CopyTask

/-- The references that a part of a copy only works with. -/
def lent : CopyTask → Multiset Handle
  | value _ item => item.owns
  | method _ handle => {handle}
  | _ => 0

/-- The references that a part of a copy owns. -/
def owns : CopyTask → Multiset Handle
  | into _ list rest => list.owns + owned rest
  | items _ done rest => owned done + owned rest
  | attributes _ object entries => object.owns + owned (entries.map Prod.snd)
  | _ => 0

variable {task : CopyTask} {memo noted : Memo} {left : List Value}

section

variable (keeps : engine.Keeps ledger) (wild : ¬ ledger.calm)
  (lenient : ∀ host, ledger.conduct.hollows host)

include keeps

include wild in
/-- The parts of a method are retained and its receiver is copied. -/
theorem minds_receiver {data : Method} {receiver : Value} (bound : data.receiver = some receiver)
    (levels : Nat) : Copying.Minds ledger engine Set.univ 0 (do
      retainAll data.parts
      (engine.copyWithin levels receiver).ensuring (engine.release receiver) :
        Copying Code Host Value) (fun copied => owned data.owner.toList + copied.owns)
      (owned data.owner.toList + 0) :=
  .retainAll (((keeps.copyHeld (keeps.copyWithin wild levels) receiver).frame
    (owned data.owner.toList)).congr (by
      rw [Method.parts, bound, owned_append, Option.toList_some, owned_cons, owned_nil]
      abel))

include lenient

/-- The contents of a list are retained and its copy is made and recorded. -/
theorem minds_list (handle : Handle) (items : List Value) :
    Copying.Minds ledger engine Set.univ 0 (do
      retainAll items
      let list ← engine.newList []
      engine.memorize handle list
      return list : Copying Code Host Value) (fun list => list.owns + owned items)
      (owned items + 0) :=
  .retainAll (.bind ((Copying.Minds.ofAttempt (keeps.newList [])).frame (owned items) |>.congr
    (by simp)) fun list => .bind (keeps.memorize (Set.mem_univ handle) fun _ => lenient) fun _ =>
      .pure list (add_comm _ _))

/-- The copy of an instance is made and recorded, and its attributes are retained. -/
theorem minds_object (handle type : Handle) : Copying.Minds ledger engine Set.univ 0 (do
    let object ← engine.newInstance (.ref type)
    engine.memorize handle object
    let attributes ← Copying.retainAttributes handle
    return (object, attributes) : Copying Code Host (Value × List (String × Value)))
    (fun result => result.1.owns + owned (result.2.map Prod.snd)) 0 := by
  refine .bind (.ofAttempt (keeps.newInstance _)) fun object => ?_
  refine .bind (keeps.memorize (Set.mem_univ handle) fun _ => lenient) fun _ => ?_
  exact .bind (Copying.minds_retainAttributes handle) fun attributes => .pure _ rfl

include wild

/-- When a copy asks for a method, it owns what it will have to give up if the method is refused,
beside what the memo owns; and the function of the method is secured by a method that is
copied. -/
theorem Asks.secures
    (asks : task.Asks engine memo before request noted asked left)
    (lent : task.lent ⊆ scene.frame) (holds : ledger.Holds scene before (task.owns + memo.owns)) :
    ledger.Secures (scene.framing (owned left + noted.owns)) asked request := by
  -- The scene grows with what is put aside on the way down to the method.
  induction asks generalizing scene with
  | @unbound _ handle memo before asked data here unbound retained =>
    obtain ⟨taken, _⟩ := (Action.Keeps.retainAll data.parts).gain memo.owns scene before
      (holds.congr (zero_add _)) _ _ retained
    refine .of_method (lent (Multiset.mem_singleton_self handle)) (taken.congr ?_)
      ((payload?_of_retainAll retained handle).trans here) rfl
    rw [MethodRequest.owns, Method.parts, unbound, owned_append, owned_nil, zero_add]
  | @bound levels handle memo noted before asked data receiver copied here bound done =>
    have member : handle ∈ scene.frame := lent (Multiset.mem_singleton_self handle)
    have copied :=
      minds_receiver keeps wild bound levels memo scene before holds (fun _ _ => lenient _) _ _ done
    obtain ⟨later, found, made⟩ := copied.passes.evolves.method (copied.passes.kept handle member)
      (copied.holds.isLive (Multiset.mem_add.mpr (Or.inl member))) here
    refine .of_method member (copied.holds.congr ?_) found made
    simp only [MethodRequest.owns, Option.toList_some, owned_cons, owned_nil, outcomeOwns]
    abel
  | @receiver levels handle memo noted before held asked request left data receiver here bound
      retained asks inductionHypothesis =>
    obtain ⟨taken, _⟩ := (Action.Keeps.retainAll data.parts).gain memo.owns scene before
      (holds.congr (zero_add _)) _ _ retained
    have parts : owned data.parts = receiver.owns + owned data.owner.toList := by
      rw [Method.parts, bound, owned_append, Option.toList_some, owned_cons, owned_nil, add_zero]
    refine .aside inductionHypothesis (taken.congr (add_comm _ _)) ?_ ?_
    · rw [parts]
      exact Multiset.subset_of_le (Multiset.le_add_right _ _)
    · rw [parts, owned_append, owned_append, owned_cons, owned_nil]
      abel
  | wrapped fresh here asks inductionHypothesis =>
    exact inductionHypothesis (by simpa [CopyTask.lent] using lent) holds
  | @list levels handle memo begun noted before between asked request left items list fresh here
      begins asks inductionHypothesis =>
    have done := (minds_list keeps lenient handle items memo scene before holds
      (fun _ _ => lenient _) _ _ begins).holds
    exact inductionHypothesis (Multiset.zero_subset _) done
  | @tuple levels handle memo noted before held asked request left items fresh here retained asks
      inductionHypothesis =>
    obtain ⟨taken, _⟩ := (Action.Keeps.retainAll items).gain memo.owns scene before
      (holds.congr (zero_add _)) _ _ retained
    refine inductionHypothesis (Multiset.zero_subset _) (taken.congr ?_)
    rw [CopyTask.owns, owned_nil, zero_add, add_comm]
  | @object levels handle memo begun noted before between asked request left object data entries fresh
      here plain begins asks inductionHypothesis =>
    have done := (minds_object keeps lenient handle data.type memo scene before holds
      (fun _ _ => lenient _) _ _ begins).holds
    exact inductionHypothesis (Multiset.zero_subset _) done
  | @item levels memo noted before asked request left rest list item asks inductionHypothesis =>
    refine .aside inductionHypothesis holds ?_ ?_
    · rw [CopyTask.owns, owned_cons, add_left_comm]
      exact Multiset.subset_of_le (Multiset.le_add_right _ _)
    · simp only [CopyTask.owns, owned_append, owned_cons, owned_nil]
      abel
  | @laterItem levels memo begun noted before between asked request left rest list item appended asks
      inductionHypothesis =>
    have goes : Copying.Minds ledger engine Set.univ _ _ _ _ :=
      (keeps.copyItemTo wild (keeps.copyWithin wild levels) list item).frame
      (list.owns + owned rest)
    have done := (goes memo scene before (holds.congr (by
      rw [CopyTask.owns, owned_cons]
      abel)) (fun _ _ => lenient _) _ _ appended).holds
    exact inductionHypothesis (Multiset.zero_subset _) (done.congr (congrArg (· + _) (add_zero _)))
  | @element levels memo noted before asked request left taken rest item asks inductionHypothesis =>
    refine .aside inductionHypothesis holds ?_ ?_
    · rw [CopyTask.owns, owned_cons, add_left_comm]
      exact Multiset.subset_of_le (Multiset.le_add_right _ _)
    · simp only [CopyTask.owns, owned_append, owned_cons, owned_nil]
      abel
  | @laterElement levels memo begun noted before between asked request left taken rest item copied goes
      asks inductionHypothesis =>
    have copies : Copying.Minds ledger engine Set.univ _ _ _ _ :=
      (keeps.copyHeld (keeps.copyWithin wild levels) item).frame
      (owned taken + owned rest)
    have done := (copies memo scene before (holds.congr (by
      rw [CopyTask.owns, owned_cons]
      abel)) (fun _ _ => lenient _) _ _ goes).holds
    refine inductionHypothesis (Multiset.zero_subset _) (done.congr ?_)
    simp only [CopyTask.owns, outcomeOwns, owned_append, owned_cons, owned_nil]
    abel
  | @entry levels memo noted before asked request left rest object value name asks
      inductionHypothesis =>
    refine .aside inductionHypothesis holds ?_ ?_
    · rw [CopyTask.owns, List.map_cons, owned_cons, add_left_comm]
      exact Multiset.subset_of_le (Multiset.le_add_right _ _)
    · simp only [CopyTask.owns, List.map_cons, owned_append, owned_cons, owned_nil]
      abel
  | @laterEntry levels memo begun noted before between asked request left rest object value name stored
      asks inductionHypothesis =>
    have goes : Copying.Minds ledger engine Set.univ _ _ _ _ :=
      (keeps.copyAttributeTo wild (keeps.copyWithin wild levels) object name value).frame
      (object.owns + owned (rest.map Prod.snd))
    have done := (goes memo scene before (holds.congr (by
      rw [CopyTask.owns, List.map_cons, owned_cons]
      abel)) (fun _ _ => lenient _) _ _ stored).holds
    exact inductionHypothesis (Multiset.zero_subset _) (done.congr (congrArg (· + _) (add_zero _)))

end

end CopyTask

namespace Operation

variable {operation : Operation Code} {left : List Value}

/-- An operation looks an attribute up in a class. -/
def LooksUp (heap : Heap Code) : Operation Code → Prop
  | getAttribute .. => True
  | callAttribute value .. => heap.method? value = .ok none
  | _ => False

/-- When an operation asks for a method, it owns what it will have to give up if the method is
refused. If it does not look an attribute up, then whoever asked for the operation has secured the
function. -/
theorem Asks.awaits (keeps : engine.Keeps ledger) (wild : ¬ ledger.calm)
    (lenient : ∀ host, ledger.conduct.hollows host)
    (asks : operation.Asks engine before request asked left)
    (lent : operation.borrows ⊆ scene.frame) (holds : ledger.Holds scene before operation.consumes) :
    ∃ kept, ledger.Awaits (scene.framing (owned left + kept)) asked request ∧
      (¬ operation.LooksUp before.heap →
        asked.heap.Secures (scene.framing (owned left + kept)).frame request.function) := by
  cases asks with
  | newMethod creates =>
    refine ⟨0, creates.awaits (holds.congr (add_zero 0).symm), fun _ => Or.inl ?_⟩
    rw [creates.function_eq]
    exact Multiset.mem_add.mpr (Or.inl (lent (by simp [borrows])))
  | pair creates =>
    refine ⟨0, creates.awaits (holds.congr ?_), fun _ => Or.inl ?_⟩
    · rw [consumes, Arguments.owns_ofList, add_zero]
    · rw [creates.function_eq]
      exact Multiset.mem_add.mpr (Or.inr (by simp))
  | triple creates =>
    refine ⟨0, creates.awaits (holds.congr ?_), fun _ => Or.inl ?_⟩
    · rw [consumes, Arguments.owns_ofList, add_zero]
    · rw [creates.function_eq]
      exact Multiset.mem_add.mpr (Or.inr (by simp))
  | bind binds =>
    obtain ⟨awaits, here, same⟩ := binds.awaits (holds.congr (add_zero 0).symm)
    refine ⟨0, awaits, fun _ => Or.inr ⟨_, _, ?_, here, same⟩⟩
    exact Multiset.mem_add.mpr (Or.inl (lent (by simp [borrows])))
  | getAttribute reads =>
    exact ⟨0, reads.awaits (holds.congr (add_zero 0).symm), fun apart => absurd trivial apart⟩
  | callAttribute reads =>
    exact ⟨0, reads.awaits (holds.congr (add_zero _).symm), fun apart => absurd reads.method? apart⟩
  | deepCopy asks =>
    have secures := asks.secures keeps wild lenient lent (holds.congr (zero_add _).symm)
    exact ⟨_, secures.toAwaits, fun _ => secures.secures⟩
  | @copyOf method data noted left walk here asks =>
    have owns : consumes (.callAttribute (.ref method) "__deepcopy__" (Arguments.ofList [.nil]) walk :
        Operation Code) = CopyTask.owns (.method (maxDataDepth + 1) method) + Memo.empty.owns := by
      simp [consumes, CopyTask.owns]
    have secures := asks.secures keeps wild lenient lent (holds.congr owns)
    have same : owned left + noted.owns = owned (left ++ walk.along noted) + 0 := by
      rw [owned_append, walk.owned_along, add_zero]
    rw [same] at secures
    exact ⟨0, secures.toAwaits, fun _ => secures.secures⟩

end Operation

/-! ### When the method is refused -/

/-- The entry of a slot is still there. -/
def Heap.Lasts (before after : Heap Code) (handle : Handle) : Prop :=
  after.isLive handle ∧ after.births handle = before.births handle

namespace Engine.Refuses

theorem passes (keeps : engine.Keeps ledger) (refuses : engine.Refuses asked request refused)
    (holds : ledger.Holds scene asked request.owns) :
    ledger.Holds scene refused 0 ∧ ledger.Passes scene.frame asked refused := by
  obtain ⟨exceeded, held, retained, charged⟩ := refuses
  obtain ⟨taken, early⟩ := (Action.Keeps.retain request.function).gain _ scene asked holds _ _ retained
  have owns : request.owns + {request.function} = (request.payload : Payload Code).owns := by
    rw [MethodRequest.payload, Payload.owns_method, Method.parts, owned_append]
    exact add_comm _ _
  obtain ⟨done, late⟩ := keeps.refuses_charge (taken.congr owns) charged
  exact ⟨done, early.trans late⟩

/-- A function that is secured is still there when its method was refused. -/
theorem lasts (keeps : engine.Keeps ledger) (refuses : engine.Refuses asked request refused)
    (holds : ledger.Holds scene asked request.owns)
    (secures : asked.heap.Secures scene.frame request.function) :
    asked.heap.Lasts refused.heap request.function := by
  obtain ⟨done, passes⟩ := refuses.passes keeps holds
  have live {handle : Handle} (member : handle ∈ scene.frame) : refused.heap.isLive handle :=
    done.isLive (Multiset.mem_add.mpr (Or.inl member))
  rcases secures with member | ⟨method, data, member, here, same⟩
  · exact ⟨live member, passes.kept _ member⟩
  · obtain ⟨later, found, made⟩ := passes.evolves.method (passes.kept method member) (live member) here
    rw [← same]
    exact ⟨made ▸ done.sound.balanced.isLive_function found,
      passes.evolves.wraps here (live member) (passes.kept method member)⟩

/-- A function that is still there is reported by its name. -/
theorem refusal_eq (keeps : engine.Keeps ledger) (refuses : engine.Refuses asked request refused)
    (holds : ledger.Holds scene asked request.owns) {data : Function Code}
    (here : asked.heap.payload? request.function = some (.function data))
    (lasts : asked.heap.Lasts refused.heap request.function) :
    refused.heap.refusal request.function = .ok (Refusal.methodNotCreated data.name).error := by
  obtain ⟨_, passes⟩ := refuses.passes keeps holds
  obtain ⟨later, found, name⟩ := passes.evolves.function lasts.2 lasts.1 here
  rw [Heap.refusal, Heap.function, refused.heap.read_eq_ok.mpr found, ← name]
  rfl

end Engine.Refuses

namespace Engine

/-- Whether a method is refused. -/
def refuses (engine : Engine Code Host) (asked : World Code Host) (request : MethodRequest) : Bool :=
  match (do retain request.function; engine.charge request.payload :
    Action Code Host (Option LimitExceeded)) asked with
  | .ok (some _, _) => true
  | _ => false

theorem exists_refuses (refused : engine.refuses asked request = true) :
    ∃ refused, engine.Refuses asked request refused := by
  unfold refuses at refused
  split at refused
  · rename_i exceeded after ended
    obtain ⟨_, held, retained, charged⟩ := Action.bind_eq_ok.mp ended
    exact ⟨after, exceeded, held, retained, charged⟩
  · cases refused

end Engine

theorem Heap.payload?_of_function {heap : Heap Code} {handle : Handle} {data : Function Code}
    (found : (heap.function handle).toOption = some data) :
    heap.payload? handle = some (.function data) := by
  unfold Heap.function Heap.read at found
  cases here : heap.payload? handle with
  | none =>
    rw [here] at found
    cases found
  | some payload =>
    rw [here] at found
    cases payload with
    | function other =>
      cases found
      rfl
    | _ => cases found

theorem Heap.refusal_of_free {heap : Heap Code} {function : Handle}
    (free : heap.isLive function = false) : heap.refusal function = .error .readFreed := by
  rw [isLive_eq_payload?] at free
  rw [refusal, Heap.function, read, Option.isNone_iff_eq_none.mp (Option.isSome_eq_false_iff.mp free)]
  rfl

namespace Operation

/-- An operation reports that there is no method of a function of some name: it gives up what it
has in its hands, and fails. Giving up stops only where a callback stops, or for want of rounds. -/
def Reports (operation : Operation Code) (engine : Engine Code Host) (before : World Code Host)
    (name : String) (refused : World Code Host) (left : List Value) : Prop :=
  ∃ answer, operation.Failed (Refusal.methodNotCreated name).error answer ∧
    operation.perform engine before = (do engine.releaseList left; return answer) refused ∧
    ∀ fault, engine.releaseList left refused = .error fault → engine.Stops fault

variable {operation : Operation Code} {left : List Value}

theorem Asks.stops (asks : operation.Asks engine before request asked left)
    (refuses : engine.Refuses asked request refused)
    (free : refused.heap.isLive request.function = false) :
    operation.perform engine before = .error .readFreed := by
  obtain ⟨answer, _, unwinds⟩ := asks.unwind refuses
  rw [unwinds, Heap.refusal_of_free free]
  rfl

theorem Asks.reports (keeps : engine.Keeps ledger)
    (asks : operation.Asks engine before request asked left)
    (refuses : engine.Refuses asked request refused) {kept : Multiset Handle}
    (holds : ledger.Holds (scene.framing (owned left + kept)) asked request.owns)
    {data : Function Code} (here : asked.heap.payload? request.function = some (.function data))
    (lasts : asked.heap.Lasts refused.heap request.function) :
    operation.Reports engine before data.name refused left := by
  obtain ⟨answer, failed, unwinds⟩ := asks.unwind refuses
  refine ⟨answer _, failed _, ?_, fun fault stopped => ?_⟩
  · rw [unwinds, refuses.refusal_eq keeps holds here lasts]
    rfl
  · have owned := Ledger.Holds.framing_iff.mp (refuses.passes keeps holds).1
    exact keeps.releaseList_stops (owned.congr ((add_zero _).trans (add_comm _ _))) stopped

end Operation

/-! ### Hosts whose methods are refused -/

/-- A heap with room for two entries. -/
def crowded : Config := Config.standard.set (.maxAllocations 2)

/-- Functions that give up their arguments and answer nil. One that is forgetful takes an attribute
away from its first argument before. -/
def forgetfulBodies (forgetful : Bool) (arguments : Arguments) : Program Bool Unit :=
  let finished : Program Bool Unit := .dropping (.finish (.ok .nil)) arguments.values
  match forgetful, arguments.positional with
  | true, type :: _ => .perform (.setAttribute type "f" .nil) fun _ => finished
  | _, _ => finished

theorem respectful_forgetfulBodies : RespectfulBodies (fun _ : Unit => 0) forgetfulBodies := by
  intro forgetful arguments
  have finished : Program.Respects (fun _ : Unit => 0) 0
      (.finish (.ok .nil) : Program Bool Unit) := rfl
  have dropped : Program.Respects (fun _ : Unit => 0) arguments.owns
      (.dropping (.finish (.ok .nil)) arguments.values : Program Bool Unit) :=
    add_zero arguments.owns ▸ Program.respects_dropping finished arguments.values
  unfold forgetfulBodies
  dsimp only
  split
  · rename_i type rest first
    refine ⟨arguments.owns, (zero_add _).symm, ?_, fun _ => (add_zero arguments.owns).symm ▸ dropped⟩
    unfold Arguments.owns Arguments.values
    rw [first, List.cons_append, owned_cons]
    exact Multiset.subset_of_le (Multiset.le_add_right _ _)
  · exact dropped

/-- A heap with room for seven entries, in which cycles are collected before the eighth. -/
def tight : Config := (Config.standard.set (.maxAllocations 7)).set (.gcInterval 8)

namespace Reached

variable {held : Host → Multiset Handle} {bodies : Code → Arguments → Program Code Host}

/-- Whenever a host that respects ownership asks for an operation, between two others or in the
course of one, and a method is refused on the way, the operation reports it with the name of the
function as long as the function is still there; it reads a freed slot when the function is gone.
The function is still there if the operation looks nothing up in a class, and also if somebody has
kept a reference to it. -/
theorem refused_methods_are_reported (respectful : RespectfulBodies held bodies) :
    (∀ {config hand world}, Reached held bodies config hand world →
      (recordedLedger held bodies).Holds atRest world hand) ∧
    ∀ {scene : Scene} {world asked refused : World Code (Recorded Code Host)}
      {rest : Multiset Handle} {request : MethodRequest} {left : List Value}
      (operation : Operation Code) (rounds : Nat),
      (recordedLedger held bodies).Holds scene world (operation.consumes + rest) →
      operation.borrows ⊆ rest →
      operation.Asks (bodiesEngine bodies rounds) world request asked left →
      (bodiesEngine bodies rounds).Refuses asked request refused →
      ∃ data, asked.heap.payload? request.function = some (.function data) ∧
        (asked.heap.Lasts refused.heap request.function →
          operation.Reports (bodiesEngine bodies rounds) world data.name refused left) ∧
        (refused.heap.isLive request.function = false →
          operation.perform (bodiesEngine bodies rounds) world = .error .readFreed) ∧
        (¬ operation.LooksUp world.heap ∨ request.function ∈ scene.frame + rest →
          asked.heap.Lasts refused.heap request.function) := by
  refine ⟨fun reached => reached.holds respectful, ?_⟩
  intro scene world asked refused rest request left operation rounds holds lent asks refuses
  have keeps := respectful.keeps rounds
  have framed : (recordedLedger held bodies).Holds (scene.framing rest) world operation.consumes :=
    Ledger.Holds.framing_iff.mpr (holds.congr (add_comm _ _))
  obtain ⟨kept, awaits, secures⟩ := asks.awaits keeps (fun calm => calm) (fun _ => trivial)
    (fun _ member => Multiset.mem_add.mpr (Or.inr (lent member))) framed
  obtain ⟨data, here⟩ := awaits.isFunction
  refine ⟨data, here, asks.reports keeps refuses awaits.holds here, asks.stops refuses, ?_⟩
  rintro (apart | member)
  · exact refuses.lasts keeps awaits.holds (secures apart)
  · exact refuses.lasts keeps awaits.holds (Or.inl (Multiset.mem_add.mpr (Or.inl member)))

/-- A method of a function that the host holds is refused, and the name is reported. -/
theorem refused_method_of_held_function : ∃ world asked refused : World Unit (Recorded Unit Unit),
    ∃ request, Reached (fun _ => 0) idleBodies crowded ({0} + {1}) world ∧
    (Operation.newMethod (.ref 1) (.ref 0) .nil).Asks (bodiesEngine idleBodies 4) world request asked
      [] ∧ (bodiesEngine idleBodies 4).Refuses asked request refused ∧
    (Operation.newMethod (.ref 1) (.ref 0) .nil).Reports (bodiesEngine idleBodies 4) world "f" refused
      [] := by
  let request : MethodRequest := { function := 1, receiver := some (.ref 0), owner := none }
  obtain ⟨world, reached, seen⟩ : ∃ world : World Unit (Recorded Unit Unit),
      Reached (fun _ => 0) idleBodies crowded ({0} + {1}) world ∧
        (world.heap.isLive 0, (world.heap.function 1).toOption.map Function.name,
          (bodiesEngine idleBodies 4).refuses { world with heap := world.heap.increment 0 } request) =
            (true, some "f", true) :=
    exists_follow [.newClass "C" [], .newFunction "f" none none ()] 4 () _ _ rfl (by decide +kernel)
  obtain ⟨live, seen⟩ := Prod.mk.inj seen
  obtain ⟨named, refused⟩ := Prod.mk.inj seen
  obtain ⟨data, found, name⟩ := Option.map_eq_some_iff.mp named
  have here : world.heap.payload? 1 = some (.function data) := Heap.payload?_of_function found
  have asks : (Operation.newMethod (.ref 1) (.ref 0) .nil).Asks (bodiesEngine idleBodies 4) world
      request { world with heap := world.heap.increment 0 } [] :=
    .newMethod ⟨⟨data, here⟩, rfl,
      Action.bind_eq_ok.mpr ⟨(), _, (retain_apply _ _).trans (if_pos live), rfl⟩, rfl⟩
  obtain ⟨refused, refuses⟩ := Engine.exists_refuses refused
  obtain ⟨other, there, reports, _, lasts⟩ :=
    (refused_methods_are_reported respectful_idleBodies).2 _ 4
      ((reached.holds respectful_idleBodies).congr (zero_add _).symm)
      (Multiset.subset_of_le (by decide)) asks refuses
  rw [Heap.payload?_increment] at there
  cases here.symm.trans there
  exact ⟨world, _, refused, request, reached, asks, refuses, name ▸ reports (lasts (Or.inl id))⟩

/-- A function is held by a class alone, and the method that it makes for an instance is refused.
Before that the callback of a weak reference takes the function out of the class. Nothing is
reported: a freed slot is read. -/
theorem refused_method_of_forgotten_function :
    RespectfulBodies (fun _ : Unit => 0) forgetfulBodies ∧
    ∃ world : World Bool (Recorded Bool Unit),
      Reached (fun _ => 0) forgetfulBodies tight ({0} + {2} + {4} + {6}) world ∧
      world.heap.tracker.allocationRefusal? = some (.allocations 7 8) ∧
      (Operation.getAttribute (.ref 4) "f").perform (bodiesEngine forgetfulBodies 8) world =
        .error .readFreed := by
  refine ⟨respectful_forgetfulBodies, ?_⟩
  obtain ⟨world, reached, seen⟩ : ∃ world : World Bool (Recorded Bool Unit),
      Reached (fun _ => 0) forgetfulBodies tight ({0} + {2} + {4} + {6}) world ∧
        (world.heap.tracker.allocationRefusal?,
          match (Operation.getAttribute (.ref 4) "f").perform (bodiesEngine forgetfulBodies 8) world with
          | .error fault => some fault
          | .ok _ => none) = (some (.allocations 7 8), some .readFreed) :=
    exists_follow
      [.newClass "C" [], .newFunction "f" none none false, .setAttribute (.ref 0) "f" (.ref 1),
        .newFunction "cb" none none true, .newMethod (.ref 2) (.ref 0) .nil, .newInstance (.ref 0),
        .newInstance (.ref 0), .newWeakref (.ref 5) (some (.ref 3)), .share (.ref 5),
        .setAttribute (.ref 5) "a" (.ref 5), .drop (.ref 5)] 8 () _ _ rfl (by decide +kernel)
  obtain ⟨full, stopped⟩ := Prod.mk.inj seen
  refine ⟨world, reached, full, ?_⟩
  cases ended : (Operation.getAttribute (.ref 4) "f").perform (bodiesEngine forgetfulBodies 8) world with
  | ok _ =>
    rw [ended] at stopped
    cases stopped
  | error fault =>
    rw [ended] at stopped
    cases stopped
    rfl

end Reached

end ObjectHeap
