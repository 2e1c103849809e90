/-
This file follows operations up to the point at which they ask for a method, and back from there
when the method is refused. On the way to that point an operation has done some of its work, and
code of the host may have run; it has some values in its hands that it has to give up on its way
back. What it reports is looked up at the point itself, before anything else is given up.
-/

import ObjectHeap.Proofs.Runs

namespace ObjectHeap

variable {Code Host : Type} {α β : Type}

/-! ### Going on after a part that ended -/

namespace Attempt

variable {before between : World Code Host} {next : α → Attempt Code Host β} {answer : α}

theorem run_bind_of_ok {attempt : Attempt Code Host α}
    (ended : attempt.run before = .ok (.ok answer, between)) :
    (attempt >>= next).run before = (next answer).run between := by
  rw [run_bind]
  exact Action.bind_of_ok ended

theorem run_act_bind {action : Action Code Host α} (ended : action before = .ok (answer, between)) :
    (ofAction action >>= next).run before = (next answer).run between := by
  rw [run_ofAction_bind]
  exact Action.bind_of_ok ended

theorem run_ask_bind {question : Heap Code → Except Fault α} (answer : α)
    (answered : question before.heap = .ok answer) :
    (ask question >>= next).run before = (next answer).run before :=
  run_act_bind (ask_eq_ok.mpr ⟨answered, rfl⟩)

theorem run_retainValue_bind {value : Value} {next : Unit → Attempt Code Host β}
    (retained : (retainValue value : Action Code Host Unit) before = .ok ((), between)) :
    (retainValue value >>= next).run before = (next ()).run between := by
  cases value <;> exact run_act_bind retained

end Attempt

namespace Copying

variable {memo noted : Memo} {before between : World Code Host} {next : α → Copying Code Host β}
  {answer : α}

theorem run_bind_of_ok {copying : Copying Code Host α}
    (ended : copying.run memo before = .ok ((.ok answer, noted), between)) :
    (copying >>= next).run memo before = (next answer).run noted between :=
  Action.bind_of_ok ended

theorem run_act_bind {action : Action Code Host α} (ended : action before = .ok (answer, between)) :
    (ofAttempt (Attempt.ofAction action) >>= next).run memo before = (next answer).run memo between := by
  refine run_bind_of_ok (Action.bind_eq_ok.mpr ⟨.ok answer, between, ?_, rfl⟩)
  rw [Attempt.run_ofAction]
  exact Action.bind_eq_ok.mpr ⟨answer, between, ended, rfl⟩

theorem run_ask_bind {question : Heap Code → Except Fault α} (answer : α)
    (answered : question before.heap = .ok answer) :
    (ask question >>= next).run memo before = (next answer).run memo before :=
  run_act_bind (ask_eq_ok.mpr ⟨answered, rfl⟩)

theorem act_bind_eq_ok {action : Action Code Host α} {last : β}
    (ended : (ofAttempt (Attempt.ofAction action) >>= next).run memo before =
      .ok ((.ok last, noted), between)) :
    ∃ found middle, action before = .ok (found, middle) ∧
      (next found).run memo middle = .ok ((.ok last, noted), between) := by
  obtain ⟨found, _, middle, first, rest⟩ := bind_eq_ok ended
  obtain ⟨ran, rfl⟩ := ofAction_eq_ok first
  exact ⟨found, middle, ran, rest⟩

/-- A copy goes on with what was not copied before. -/
theorem run_recorded?_bind {source : Handle} {next : Option Value → Copying Code Host β}
    (unrecorded : memo.find? source = none) :
    (recorded? source >>= next).run memo before = (next none).run memo before :=
  run_bind_of_ok (recorded?_of_none unrecorded)

theorem run_onError_of_ok {copying : Copying Code Host α} {action : Action Code Host Unit}
    (ended : copying.run memo before = .ok ((.ok answer, noted), between)) :
    (copying.onError action).run memo before = .ok ((.ok answer, noted), between) :=
  Action.bind_eq_ok.mpr ⟨_, between, ended, rfl⟩

end Copying

/-! ### Coming back with an error -/

namespace Engine

variable {engine : Engine Code Host} {report : Except Fault Error} {left more : List Value}
  {before refused : World Code Host}

/-- How an operation comes back with an error: it finds out what to report, gives up what it has
in its hands, and answers. -/
def unwind (engine : Engine Code Host) (report : Except Fault Error) (left : List Value)
    (answer : Error → α) : Action Code Host α :=
  match report with
  | .error fault => stop fault
  | .ok error => do
    engine.releaseList left
    return answer error

theorem releaseList_append (left more : List Value) :
    engine.releaseList (left ++ more) =
      engine.releaseList left >>= fun _ => engine.releaseList more :=
  List.forM_append

theorem releaseList_singleton (value : Value) :
    engine.releaseList [value] = engine.release value :=
  bind_pure (engine.release value)

theorem releaseList_toList (value : Option Value) :
    engine.releaseList value.toList = engine.release? value := by
  cases value with
  | none => rfl
  | some value => exact releaseList_singleton value

theorem releaseList_concat (left : List Value) (last : Value) :
    engine.releaseList (left ++ [last]) =
      engine.releaseList left >>= fun _ => engine.release last := by
  rw [releaseList_append, releaseList_singleton]

/-- What encloses an operation comes back with the error in turn, and gives up more. -/
theorem bind_unwind {action : Action Code Host α} {next : α → Action Code Host β}
    {answer : Error → α} {last : Error → β}
    (unwinds : action before = engine.unwind report left answer refused)
    (passes : ∀ error, next (answer error) =
      engine.releaseList more >>= fun _ => pure (last error)) :
    (action >>= next) before = engine.unwind report (left ++ more) last refused := by
  show (action before >>= fun pair => next pair.1 pair.2) = _
  rw [unwinds]
  cases report with
  | error fault => rfl
  | ok error =>
    show ((engine.releaseList left >>= fun _ => pure (answer error)) >>= next) refused = _
    rw [LawfulMonad.bind_assoc]
    simp only [LawfulMonad.pure_bind, passes]
    rw [← LawfulMonad.bind_assoc, ← releaseList_append]
    rfl

/-- After an error nothing more is done. -/
theorem bind_unwind_pure {action : Action Code Host α} {next : α → Action Code Host β}
    {answer : Error → α} {last : Error → β}
    (unwinds : action before = engine.unwind report left answer refused)
    (passes : ∀ error, next (answer error) = pure (last error)) :
    (action >>= next) before = engine.unwind report left last refused := by
  have done := @bind_unwind _ _ _ _ engine report left [] before refused action next answer last unwinds
    fun error => (passes error).trans rfl
  rwa [List.append_nil] at done

end Engine

section

variable {engine : Engine Code Host} {report : Except Fault Error} {left more : List Value}
  {before refused : World Code Host}

namespace Attempt

variable {attempt : Attempt Code Host α} {next : α → Attempt Code Host β}

theorem unwind_bind
    (unwinds : attempt.run before = engine.unwind report left Except.error refused) :
    (attempt >>= next).run before = engine.unwind report left Except.error refused :=
  Engine.bind_unwind_pure unwinds fun _ => rfl

theorem unwind_ensuring
    (unwinds : attempt.run before = engine.unwind report left Except.error refused) :
    (attempt.ensuring (engine.releaseList more)).run before =
      engine.unwind report (left ++ more) Except.error refused :=
  Engine.bind_unwind unwinds fun _ => rfl

theorem unwind_onError
    (unwinds : attempt.run before = engine.unwind report left Except.error refused) :
    (attempt.onError (engine.releaseList more)).run before =
      engine.unwind report (left ++ more) Except.error refused :=
  Engine.bind_unwind unwinds fun _ => rfl

end Attempt

namespace Copying

variable {copying : Copying Code Host α} {next : α → Copying Code Host β} {memo noted : Memo}

theorem unwind_ofAttempt {attempt : Attempt Code Host α}
    (unwinds : attempt.run before = engine.unwind report left Except.error refused) :
    (ofAttempt attempt).run memo before =
      engine.unwind report left (fun error => (.error error, memo)) refused :=
  Engine.bind_unwind_pure unwinds fun _ => rfl

theorem unwind_bind (unwinds : copying.run memo before =
      engine.unwind report left (fun error => (.error error, noted)) refused) :
    (copying >>= next).run memo before =
      engine.unwind report left (fun error => (.error error, noted)) refused :=
  Engine.bind_unwind_pure unwinds fun _ => rfl

theorem unwind_ensuring (unwinds : copying.run memo before =
      engine.unwind report left (fun error => (.error error, noted)) refused) :
    (copying.ensuring (engine.releaseList more)).run memo before =
      engine.unwind report (left ++ more) (fun error => (.error error, noted)) refused :=
  Engine.bind_unwind unwinds fun _ => rfl

theorem unwind_onError (unwinds : copying.run memo before =
      engine.unwind report left (fun error => (.error error, noted)) refused) :
    (copying.onError (engine.releaseList more)).run memo before =
      engine.unwind report (left ++ more) (fun error => (.error error, noted)) refused :=
  Engine.bind_unwind unwinds fun _ => rfl

end Copying

end

/-! ### Requests for methods -/

/-- A method that is asked for: its function, and the receiver and the owner, which it takes
over. -/
structure MethodRequest where
  function : Handle
  receiver : Option Value
  owner : Option Value

namespace MethodRequest

/-- The method as it would be. -/
def payload (request : MethodRequest) : Payload Code :=
  .method
    { function := request.function, receiver := request.receiver, owner := request.owner
      watchers := [] }

/-- The references that are handed over for the method. -/
def owns (request : MethodRequest) : Multiset Handle :=
  owned request.receiver.toList + owned request.owner.toList

end MethodRequest

/-- What is said when a method is refused: that there is no method of the function of that name. -/
def Heap.refusal (heap : Heap Code) (function : Handle) : Except Fault Error :=
  (heap.function function).map fun data => (Refusal.methodNotCreated data.name).error

namespace Engine

variable {engine : Engine Code Host} {asked refused : World Code Host} {request : MethodRequest}

/-- A method is refused: a reference to its function was taken, a collection may have been due, and
a limit of the tracker has no room for the method. What was collected for it is given up. -/
def Refuses (engine : Engine Code Host) (asked : World Code Host) (request : MethodRequest)
    (refused : World Code Host) : Prop :=
  ∃ exceeded held, (retain request.function : Action Code Host Unit) asked = .ok ((), held) ∧
    engine.charge request.payload held = .ok (some exceeded, refused)

/-- When a method is refused, its function is asked for its name. -/
theorem Refuses.allocateMethod (refuses : engine.Refuses asked request refused) :
    (engine.allocateMethod request.function request.receiver request.owner).run asked =
      engine.unwind (refused.heap.refusal request.function) [] Except.error refused := by
  obtain ⟨exceeded, held, retained, charged⟩ := refuses
  refine (Attempt.run_act_bind retained).trans ((Attempt.run_act_bind charged).trans ?_)
  unfold Heap.refusal
  cases found : refused.heap.function request.function with
  | error fault =>
    have stopped : (ask fun heap => heap.function request.function :
        Action Code Host (Function Code)) refused = .error fault := by
      rw [ask_apply, found]
      rfl
    exact Action.bind_eq_error.mpr (Or.inl (Action.bind_eq_error.mpr (Or.inl stopped)))
  | ok data => exact (Attempt.run_ask_bind data found).trans rfl

end Engine

/-! ### Operations that ask for a method at once -/

/-- A method is to be created: it is made of a function, one of the other parts is given, and each
part is retained. -/
structure Creates (before : World Code Host) (function : Handle) (receiver owner : Value)
    (request : MethodRequest) (asked : World Code Host) : Prop where
  isFunction : ∃ data, before.heap.payload? function = some (.function data)
  needed : (receiver.isNil && owner.isNil) = false
  retained : (do retainValue receiver; retainValue owner : Action Code Host Unit) before =
    .ok ((), asked)
  request : request = { function, receiver := receiver.present?, owner := owner.present? }

/-- A method is to be bound: it has no receiver, its owner accepts the class that it is read
through, and the parts of the new method are retained. -/
structure Binds (before : World Code Host) (method : Handle) (data : Method) (object type : Value)
    (held : World Code Host) (request : MethodRequest) (asked : World Code Host) : Prop where
  isMethod : before.heap.payload? method = some (.method data)
  unbound : data.receiver = none
  retainedParts : (retainAll data.parts : Action Code Host Unit) before = .ok ((), held)
  applies : ∀ owner, data.owner = some owner → type.isNil = false →
    (isSubtype type owner : Attempt Code Host Bool).run held = .ok (.ok true, held)
  retained : (retainValue object : Action Code Host Unit) held = .ok ((), asked)
  request : request =
    { function := data.function, receiver := object.present?, owner := data.owner }

/-- What is found in a class when an attribute is read, and through which instance and class it is
then read. -/
inductive Heap.Finds (heap : Heap Code) (name : String) : Value → Value → Value → Value → Prop
  | object {handle : Handle} {data : Instance} {found : Value}
    (here : heap.payload? handle = some (.object data))
    (absent : data.attributes.find? name = none) (plain : name ≠ "__class__")
    (inherited : heap.find data.type name = .ok (some found)) :
    heap.Finds name (.ref handle) found (.ref handle) (.ref data.type)
  | type {handle : Handle} {data : Class} {found : Value}
    (here : heap.payload? handle = some (.type data)) (plain : name ≠ "__name__")
    (inherited : heap.find handle name = .ok (some found)) :
    heap.Finds name (.ref handle) found .nil (.ref handle)

/-- An attribute is read that makes for a method: a function is found in a class, or a method that
can be bound. -/
inductive Reads (before : World Code Host) (value : Value) (name : String)
    (request : MethodRequest) (asked : World Code Host) : Prop
  | function {function : Handle} {object type : Value}
    (finds : before.heap.Finds name value (.ref function) object type)
    (creates : Creates before function object type request asked)
  | method {method : Handle} {data : Method} {object type : Value} {held : World Code Host}
    (finds : before.heap.Finds name value (.ref method) object type)
    (binds : Binds before method data object type held request asked)

section

variable {engine : Engine Code Host} {before held asked : World Code Host} {request : MethodRequest}
  {function method : Handle} {data : Method} {receiver owner object type value found : Value}
  {name : String}

theorem Creates.newMethod (creates : Creates before function receiver owner request asked) :
    (engine.newMethod (.ref function) receiver owner).run before =
      (engine.allocateMethod request.function request.receiver request.owner).run asked := by
  obtain ⟨⟨data, here⟩, needed, retained, rfl⟩ := creates
  obtain ⟨_, between, first, second⟩ := Action.bind_eq_ok.mp retained
  have made : (methodFunction (.ref function) : Attempt Code Host Handle).run before =
      .ok (.ok function, before) :=
    (Attempt.run_ask_bind _ (before.heap.read_eq_ok.mpr here)).trans rfl
  refine (Attempt.run_bind_of_ok made).trans ?_
  rw [needed]
  exact (Attempt.run_retainValue_bind first).trans (Attempt.run_retainValue_bind second)

theorem Binds.bindMethod (binds : Binds before method data object type held request asked) :
    (engine.bindMethod method object type).run before =
      (engine.allocateMethod request.function request.receiver request.owner).run asked := by
  obtain ⟨here, unbound, retainedParts, applies, retained, rfl⟩ := binds
  refine (Attempt.run_ask_bind _ (Heap.method_eq_ok.mpr here)).trans ?_
  rw [unbound]
  refine (Attempt.run_act_bind retainedParts).trans ?_
  have going : (do
      retainValue object
      engine.allocateMethod data.function object.present? data.owner : Attempt Code Host Value).run held =
        (engine.allocateMethod data.function object.present? data.owner).run asked :=
    Attempt.run_retainValue_bind retained
  cases owned : data.owner with
  | none =>
    rw [owned] at going
    exact going
  | some owner =>
    rw [owned] at going
    cases absent : type.isNil with
    | true => exact going
    | false =>
      have checked : ((isSubtype type owner).onError (engine.release owner)).run held =
          .ok (.ok true, held) := Attempt.onError_eq_ok_ok.mpr (applies owner owned absent)
      exact (Attempt.run_bind_of_ok checked).trans going

theorem Heap.readValue_ref (heap : Heap Code) {handle : Handle} {payload : Payload Code}
    (here : heap.payload? handle = some payload) :
    heap.readValue (.ref handle) = .ok (some payload) :=
  Heap.bind_eq_ok.mpr ⟨payload, heap.read_eq_ok.mpr here, rfl⟩

/-- Reading the attribute comes to reading what was found through the class. -/
theorem Heap.Finds.getAttribute (finds : before.heap.Finds name value found object type) :
    (engine.getAttribute value name).run before = (engine.readThrough found object type).run before := by
  cases finds with
  | object here absent plain inherited =>
    refine (Attempt.run_ask_bind _ (before.heap.read_eq_ok.mpr here)).trans ?_
    dsimp only
    rw [absent]
    unfold Engine.instanceTypeAttribute
    rw [if_neg plain]
    refine (Attempt.run_ask_bind (some found) ?_).trans rfl
    exact inherited
  | type here plain inherited =>
    refine (Attempt.run_ask_bind _ (before.heap.read_eq_ok.mpr here)).trans ?_
    unfold Engine.typeAttribute
    rw [if_neg plain]
    refine (Attempt.run_ask_bind (some found) ?_).trans rfl
    exact inherited

/-- An attribute is looked up in a class only for what is no method. -/
theorem Heap.Finds.method? {heap : Heap Code} (finds : heap.Finds name value found object type) :
    heap.method? value = .ok none := by
  cases finds with
  | object here _ _ _ => exact Heap.bind_eq_ok.mpr ⟨_, heap.readValue_ref here, rfl⟩
  | type here _ _ => exact Heap.bind_eq_ok.mpr ⟨_, heap.readValue_ref here, rfl⟩

theorem Reads.method? (reads : Reads before value name request asked) :
    before.heap.method? value = .ok none := by
  cases reads with
  | function finds _ => exact finds.method?
  | method finds _ => exact finds.method?

theorem Reads.getAttribute (reads : Reads before value name request asked) :
    (engine.getAttribute value name).run before =
      (engine.allocateMethod request.function request.receiver request.owner).run asked := by
  cases reads with
  | function finds creates =>
    obtain ⟨data, here⟩ := creates.isFunction
    refine finds.getAttribute.trans ((Attempt.run_ask_bind (some (Payload.function data)) ?_).trans
      creates.newMethod)
    exact before.heap.readValue_ref here
  | @method _ data _ _ _ finds binds =>
    refine finds.getAttribute.trans ((Attempt.run_ask_bind (some (Payload.method data)) ?_).trans
      binds.bindMethod)
    exact before.heap.readValue_ref binds.isMethod

end

/-! ### Copies that ask for a method -/

/-- A part of a deep copy: a value is copied, a method, the items that a list is still to take, the
items of a tuple behind those that are done, or the attributes that an instance is still to take. -/
inductive CopyTask
  | value (levels : Nat) (value : Value)
  | method (levels : Nat) (handle : Handle)
  | into (levels : Nat) (list : Value) (items : List Value)
  | items (levels : Nat) (done items : List Value)
  | attributes (levels : Nat) (object : Value) (entries : List (String × Value))

namespace CopyTask

/-- What a part of a copy comes to. -/
def Answer : CopyTask → Type
  | value .. => Value
  | method .. => Value
  | into .. => Unit
  | items .. => List Value
  | attributes .. => Unit

/-- Runs a part of a copy. -/
def perform (engine : Engine Code Host) : (task : CopyTask) → Copying Code Host task.Answer
  | value levels item => engine.copyWithin levels item
  | method levels handle => engine.copyMethod (engine.copyWithin levels) handle
  | into levels list rest => engine.copyInto (engine.copyWithin levels) list rest
  | items levels done rest => engine.copyItems (engine.copyWithin levels) done rest
  | attributes levels object entries => engine.copyAttributes (engine.copyWithin levels) object entries

/-- A part of a copy comes to ask for a method, with the memo as it is then and some values in its
hands. What is not the last step on the way there has succeeded. -/
inductive Asks (engine : Engine Code Host) : CopyTask → Memo → World Code Host →
    MethodRequest → Memo → World Code Host → List Value → Prop
  | unbound {levels : Nat} {handle : Handle} {memo : Memo} {before asked : World Code Host}
    {data : Method} (here : before.heap.payload? handle = some (.method data))
    (unbound : data.receiver = none)
    (retained : (retainAll data.parts : Action Code Host Unit) before = .ok ((), asked)) :
    Asks engine (.method levels handle) memo before
      { function := data.function, receiver := none, owner := data.owner } memo asked []
  | bound {levels : Nat} {handle : Handle} {memo noted : Memo} {before asked : World Code Host}
    {data : Method} {receiver copied : Value}
    (here : before.heap.payload? handle = some (.method data))
    (bound : data.receiver = some receiver)
    (done : (do
        retainAll data.parts
        (engine.copyWithin levels receiver).ensuring (engine.release receiver) :
          Copying Code Host Value).run memo before = .ok ((.ok copied, noted), asked)) :
    Asks engine (.method levels handle) memo before
      { function := data.function, receiver := some copied, owner := data.owner } noted asked []
  | receiver {levels : Nat} {handle : Handle} {memo noted : Memo} {before held asked : World Code Host}
    {request : MethodRequest} {left : List Value} {data : Method} {receiver : Value}
    (here : before.heap.payload? handle = some (.method data))
    (bound : data.receiver = some receiver)
    (retained : (retainAll data.parts : Action Code Host Unit) before = .ok ((), held))
    (asks : Asks engine (.value levels receiver) memo held request noted asked left) :
    Asks engine (.method levels handle) memo before request noted asked
      (left ++ [receiver] ++ data.owner.toList)
  | wrapped {levels : Nat} {handle : Handle} {memo noted : Memo} {before asked : World Code Host}
    {request : MethodRequest} {left : List Value} {data : Method}
    (fresh : memo.find? handle = none)
    (here : before.heap.payload? handle = some (.method data))
    (asks : Asks engine (.method levels handle) memo before request noted asked left) :
    Asks engine (.value (levels + 1) (.ref handle)) memo before request noted asked left
  | list {levels : Nat} {handle : Handle} {memo begun noted : Memo}
    {before between asked : World Code Host} {request : MethodRequest} {left items : List Value}
    {list : Value} (fresh : memo.find? handle = none)
    (here : before.heap.payload? handle = some (.list items))
    (begins : (do
        retainAll items
        let list ← engine.newList []
        engine.memorize handle list
        return list : Copying Code Host Value).run memo before = .ok ((.ok list, begun), between))
    (asks : Asks engine (.into levels list items) begun between request noted asked left) :
    Asks engine (.value (levels + 1) (.ref handle)) memo before request noted asked left
  | tuple {levels : Nat} {handle : Handle} {memo noted : Memo} {before held asked : World Code Host}
    {request : MethodRequest} {left items : List Value} (fresh : memo.find? handle = none)
    (here : before.heap.payload? handle = some (.tuple items))
    (retained : (retainAll items : Action Code Host Unit) before = .ok ((), held))
    (asks : Asks engine (.items levels [] items) memo held request noted asked left) :
    Asks engine (.value (levels + 1) (.ref handle)) memo before request noted asked left
  | object {levels : Nat} {handle : Handle} {memo begun noted : Memo}
    {before between asked : World Code Host} {request : MethodRequest} {left : List Value}
    {object : Value} {data : Instance} {entries : List (String × Value)}
    (fresh : memo.find? handle = none)
    (here : before.heap.payload? handle = some (.object data))
    (plain : before.heap.special? (.ref handle) "__deepcopy__" = .ok none)
    (begins : (do
        let object ← engine.newInstance (.ref data.type)
        engine.memorize handle object
        let attributes ← Copying.retainAttributes handle
        return (object, attributes) : Copying Code Host (Value × List (String × Value))).run memo
          before = .ok ((.ok (object, entries), begun), between))
    (asks : Asks engine (.attributes levels object entries) begun between request noted asked left) :
    Asks engine (.value (levels + 1) (.ref handle)) memo before request noted asked left
  | item {levels : Nat} {memo noted : Memo} {before asked : World Code Host}
    {request : MethodRequest} {left rest : List Value} {list item : Value}
    (asks : Asks engine (.value levels item) memo before request noted asked left) :
    Asks engine (.into levels list (item :: rest)) memo before request noted asked
      (left ++ [item] ++ (rest ++ [list]))
  | laterItem {levels : Nat} {memo begun noted : Memo} {before between asked : World Code Host}
    {request : MethodRequest} {left rest : List Value} {list item : Value}
    (appended : (do
        let copied ← (engine.copyWithin levels item).ensuring (engine.release item)
        engine.append list copied : Copying Code Host Unit).run memo before =
      .ok ((.ok (), begun), between))
    (asks : Asks engine (.into levels list rest) begun between request noted asked left) :
    Asks engine (.into levels list (item :: rest)) memo before request noted asked left
  | element {levels : Nat} {memo noted : Memo} {before asked : World Code Host}
    {request : MethodRequest} {left done rest : List Value} {item : Value}
    (asks : Asks engine (.value levels item) memo before request noted asked left) :
    Asks engine (.items levels done (item :: rest)) memo before request noted asked
      (left ++ [item] ++ (rest ++ done))
  | laterElement {levels : Nat} {memo begun noted : Memo} {before between asked : World Code Host}
    {request : MethodRequest} {left done rest : List Value} {item copied : Value}
    (taken : ((engine.copyWithin levels item).ensuring (engine.release item)).run memo before =
      .ok ((.ok copied, begun), between))
    (asks : Asks engine (.items levels (done ++ [copied]) rest) begun between request noted asked
      left) :
    Asks engine (.items levels done (item :: rest)) memo before request noted asked left
  | entry {levels : Nat} {memo noted : Memo} {before asked : World Code Host}
    {request : MethodRequest} {left : List Value} {rest : List (String × Value)} {object value : Value}
    {name : String}
    (asks : Asks engine (.value levels value) memo before request noted asked left) :
    Asks engine (.attributes levels object ((name, value) :: rest)) memo before request noted asked
      (left ++ [value] ++ (rest.map Prod.snd ++ [object]))
  | laterEntry {levels : Nat} {memo begun noted : Memo} {before between asked : World Code Host}
    {request : MethodRequest} {left : List Value} {rest : List (String × Value)} {object value : Value}
    {name : String}
    (stored : (do
        let copied ← (engine.copyWithin levels value).ensuring (engine.release value)
        engine.setAttribute object name copied : Copying Code Host Unit).run memo before =
      .ok ((.ok (), begun), between))
    (asks : Asks engine (.attributes levels object rest) begun between request noted asked left) :
    Asks engine (.attributes levels object ((name, value) :: rest)) memo before request noted asked left

variable {engine : Engine Code Host} {task : CopyTask} {memo noted : Memo}
  {before asked refused : World Code Host} {request : MethodRequest} {left : List Value}

/-- A copy whose method is refused comes back with the error, and leaves the memo as it was when the
method was asked for. -/
theorem Asks.unwind (asks : task.Asks engine memo before request noted asked left)
    (refuses : engine.Refuses asked request refused) :
    (task.perform engine).run memo before =
      engine.unwind (refused.heap.refusal request.function) left
        (fun error => (.error error, noted)) refused := by
  -- What was put aside on the way down to the method is given up on the way back, part by part.
  induction asks with
  | unbound here unbound retained =>
    refine (Copying.run_ask_bind _ (Heap.method_eq_ok.mpr here)).trans ?_
    refine (Copying.run_act_bind retained).trans ?_
    rw [unbound]
    exact Copying.unwind_ofAttempt refuses.allocateMethod
  | bound here bound done =>
    obtain ⟨_, held, retained, done⟩ := Copying.act_bind_eq_ok done
    refine (Copying.run_ask_bind _ (Heap.method_eq_ok.mpr here)).trans ?_
    refine (Copying.run_act_bind retained).trans ?_
    rw [bound]
    exact (Copying.run_bind_of_ok (Copying.run_onError_of_ok done)).trans
      (Copying.unwind_ofAttempt refuses.allocateMethod)
  | receiver here bound retained asks inductionHypothesis =>
    refine (Copying.run_ask_bind _ (Heap.method_eq_ok.mpr here)).trans ?_
    refine (Copying.run_act_bind retained).trans ?_
    rw [bound]
    dsimp only
    rw [← Engine.releaseList_singleton, ← Engine.releaseList_toList]
    exact Copying.unwind_bind (Copying.unwind_onError (Copying.unwind_ensuring
      (inductionHypothesis refuses)))
  | wrapped fresh here asks inductionHypothesis =>
    refine (Copying.run_recorded?_bind fresh).trans ?_
    refine (Copying.run_ask_bind _ (Heap.read_eq_ok _ |>.mpr here)).trans ?_
    exact Copying.unwind_bind (inductionHypothesis refuses)
  | list fresh here begins asks inductionHypothesis =>
    obtain ⟨_, held, retained, begins⟩ := Copying.act_bind_eq_ok begins
    obtain ⟨list, _, made, created, begins⟩ := Copying.bind_eq_ok begins
    obtain ⟨_, _, _, recorded, last⟩ := Copying.bind_eq_ok begins
    cases last
    refine (Copying.run_recorded?_bind fresh).trans ?_
    refine (Copying.run_ask_bind _ (Heap.read_eq_ok _ |>.mpr here)).trans ?_
    refine (Copying.run_act_bind retained).trans ?_
    refine (Copying.run_bind_of_ok (Copying.run_onError_of_ok created)).trans ?_
    refine (Copying.run_bind_of_ok recorded).trans ?_
    exact Copying.unwind_bind (inductionHypothesis refuses)
  | tuple fresh here retained asks inductionHypothesis =>
    refine (Copying.run_recorded?_bind fresh).trans ?_
    refine (Copying.run_ask_bind _ (Heap.read_eq_ok _ |>.mpr here)).trans ?_
    refine (Copying.run_act_bind retained).trans ?_
    exact Copying.unwind_bind (inductionHypothesis refuses)
  | object fresh here plain begins asks inductionHypothesis =>
    obtain ⟨object, _, made, created, begins⟩ := Copying.bind_eq_ok begins
    obtain ⟨_, _, _, recorded, begins⟩ := Copying.bind_eq_ok begins
    obtain ⟨entries, _, _, retained, last⟩ := Copying.bind_eq_ok begins
    cases last
    refine (Copying.run_recorded?_bind fresh).trans ?_
    refine (Copying.run_ask_bind _ (Heap.read_eq_ok _ |>.mpr here)).trans ?_
    refine (Copying.run_ask_bind none plain).trans ?_
    refine (Copying.run_bind_of_ok created).trans ?_
    refine (Copying.run_bind_of_ok recorded).trans ?_
    refine (Copying.run_bind_of_ok retained).trans ?_
    exact Copying.unwind_bind (inductionHypothesis refuses)
  | item asks inductionHypothesis =>
    change Along.run (Engine.copyInto _ _ _ _) _ _ = _
    unfold Engine.copyInto
    rw [← Engine.releaseList_singleton, ← Engine.releaseList_concat]
    exact Copying.unwind_bind (Copying.unwind_onError (Copying.unwind_bind
      (Copying.unwind_ensuring (inductionHypothesis refuses))))
  | laterItem appended asks inductionHypothesis =>
    exact (Copying.run_bind_of_ok (Copying.run_onError_of_ok appended)).trans
      (inductionHypothesis refuses)
  | element asks inductionHypothesis =>
    change Along.run (Engine.copyItems _ _ _ _) _ _ = _
    unfold Engine.copyItems
    rw [← Engine.releaseList_singleton, ← Engine.releaseList_append]
    exact Copying.unwind_bind (Copying.unwind_onError (Copying.unwind_ensuring
      (inductionHypothesis refuses)))
  | laterElement taken asks inductionHypothesis =>
    exact (Copying.run_bind_of_ok (Copying.run_onError_of_ok taken)).trans
      (inductionHypothesis refuses)
  | entry asks inductionHypothesis =>
    change Along.run (Engine.copyAttributes _ _ _ _) _ _ = _
    unfold Engine.copyAttributes
    rw [← Engine.releaseList_singleton, ← Engine.releaseList_concat]
    exact Copying.unwind_bind (Copying.unwind_onError (Copying.unwind_bind
      (Copying.unwind_ensuring (inductionHypothesis refuses))))
  | laterEntry stored asks inductionHypothesis =>
    exact (Copying.run_bind_of_ok (Copying.run_onError_of_ok stored)).trans
      (inductionHypothesis refuses)

end CopyTask

/-! ### Operations of a host that ask for a method -/

namespace Operation

/-- An operation comes to ask for a method, with some values in its hands. -/
inductive Asks (engine : Engine Code Host) (before : World Code Host) (request : MethodRequest)
    (asked : World Code Host) : Operation Code → List Value → Prop
  | newMethod {function : Handle} {receiver owner : Value}
    (creates : Creates before function receiver owner request asked) :
    Asks engine before request asked (.newMethod (.ref function) receiver owner) []
  | pair {function : Handle} {receiver : Value}
    (creates : Creates before function receiver .nil request asked) :
    Asks engine before request asked
      (.methodOfArguments (Arguments.ofList [.ref function, receiver])) [.ref function, receiver]
  | triple {function : Handle} {receiver owner : Value}
    (creates : Creates before function receiver owner request asked) :
    Asks engine before request asked
      (.methodOfArguments (Arguments.ofList [.ref function, receiver, owner]))
      [.ref function, receiver, owner]
  | bind {method : Handle} {data : Method} {object type : Value} {held : World Code Host}
    (binds : Binds before method data object type held request asked) :
    Asks engine before request asked (.bind (.ref method) object type) []
  | getAttribute {value : Value} {name : String} (reads : Reads before value name request asked) :
    Asks engine before request asked (.getAttribute value name) []
  | callAttribute {value : Value} {name : String} {arguments : Arguments} {walk : Memo.Walk}
    (reads : Reads before value name request asked) :
    Asks engine before request asked (.callAttribute value name arguments walk) arguments.values
  | deepCopy {value : Value} {memo noted : Memo} {left : List Value}
    (asks : CopyTask.Asks engine (.value (maxDataDepth + 1) value) memo before request noted asked
      left) :
    Asks engine before request asked (.deepCopy value memo) left
  | copyOf {method : Handle} {data : Method} {noted : Memo} {left : List Value} {walk : Memo.Walk}
    (here : before.heap.payload? method = some (.method data))
    (asks : CopyTask.Asks engine (.method (maxDataDepth + 1) method) Memo.empty before request noted
      asked left) :
    Asks engine before request asked
      (.callAttribute (.ref method) "__deepcopy__" (Arguments.ofList [.nil]) walk)
      (left ++ walk.along noted)

/-- An operation that makes methods has failed with an error. -/
def Failed (error : Error) : (operation : Operation Code) → operation.Answer → Prop
  | newMethod .., outcome => outcome = .error error
  | methodOfArguments _, outcome => outcome = .error error
  | bind .., outcome => outcome = .error error
  | getAttribute .., outcome => outcome = .error error
  | callAttribute .., outcome => outcome = .error error
  | deepCopy .., answer => answer.1 = .error error
  | _, _ => False

variable {engine : Engine Code Host} {before asked refused : World Code Host}
  {request : MethodRequest} {operation : Operation Code} {left : List Value}

/-- An operation whose method is refused comes back with what is reported. -/
theorem Asks.unwind (asks : operation.Asks engine before request asked left)
    (refuses : engine.Refuses asked request refused) :
    ∃ answer : Error → operation.Answer, (∀ error, operation.Failed error (answer error)) ∧
      operation.perform engine before =
        engine.unwind (refused.heap.refusal request.function) left answer refused := by
  cases asks with
  | newMethod creates =>
    exact ⟨Except.error, fun _ => rfl, creates.newMethod.trans refuses.allocateMethod⟩
  | pair creates =>
    exact ⟨Except.error, fun _ => rfl,
      Attempt.unwind_ensuring (creates.newMethod.trans refuses.allocateMethod)⟩
  | triple creates =>
    exact ⟨Except.error, fun _ => rfl,
      Attempt.unwind_ensuring (creates.newMethod.trans refuses.allocateMethod)⟩
  | bind binds =>
    refine ⟨Except.error, fun _ => rfl, ?_⟩
    refine (Attempt.run_ask_bind _ (Heap.method?_eq_some.mpr ⟨rfl, _, binds.isMethod⟩)).trans ?_
    exact binds.bindMethod.trans refuses.allocateMethod
  | getAttribute reads =>
    exact ⟨Except.error, fun _ => rfl, reads.getAttribute.trans refuses.allocateMethod⟩
  | callAttribute reads =>
    refine ⟨Except.error, fun _ => rfl, ?_⟩
    refine (Attempt.run_ask_bind none reads.method?).trans ?_
    exact Attempt.unwind_bind (Attempt.unwind_onError
      (reads.getAttribute.trans refuses.allocateMethod))
  | @deepCopy _ _ noted _ asks =>
    exact ⟨fun error => (.error error, noted), fun _ => rfl, asks.unwind refuses⟩
  | @copyOf method data noted left walk here asks =>
    refine ⟨Except.error, fun _ => rfl, ?_⟩
    refine (Attempt.run_ask_bind _ (Heap.method?_eq_some.mpr ⟨rfl, _, here⟩)).trans ?_
    have passed : (engine.exactlyOne "__deepcopy__" (Arguments.ofList [.nil])).run before =
        .ok (.ok .nil, before) := rfl
    refine (Attempt.run_bind_of_ok passed).trans ?_
    exact Engine.bind_unwind (asks.unwind refuses) fun _ => rfl

end Operation

end ObjectHeap
