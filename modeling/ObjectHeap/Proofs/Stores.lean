/-
This file shows when what is stored under a name is what is read under it. An instance, a class and
a function each keep a table, and a lookup asks the table first: with one exception, the name by
which a class answers with its own name, whatever its table has there. The old value is given up in
the end. As long as no callback runs on the way, this takes entries away and clears weak references,
so that nothing else that can be looked up changes anywhere.
-/

import ObjectHeap.Proofs.DeepCopies
import ObjectHeap.Proofs.Lookups
import ObjectHeap.Proofs.Parallels

namespace ObjectHeap

variable {Code Host Other : Type}

/-! ### Tables -/

namespace Payload

/-- The table of a payload in which attributes are stored. -/
def table? : Payload Code → Option Attributes
  | .object data => some data.attributes
  | .type data => some data.members
  | .function data => some data.attributes
  | _ => none

/-- A payload with one more attribute, or another one under the name. -/
def store (name : String) (content : Value) : Payload Code → Payload Code
  | .object data => .object { data with attributes := data.attributes.insert name content }
  | .type data => .type { data with members := data.members.insert name content }
  | .function data => .function { data with attributes := data.attributes.insert name content }
  | payload => payload

variable {payload : Payload Code} {table : Attributes} (name : String) (content : Value)

theorem Grows.store (tabled : payload.table? = some table) :
    payload.Grows (payload.store name content) := by
  cases payload with
  | object data => exact .object data name content
  | type data => exact .type data name content
  | function data => exact .function data name content
  | _ => cases tabled

/-- A payload takes over what is stored in it, and gives up what was there. -/
theorem owns_store (tabled : payload.table? = some table) :
    (payload.store name content).owns + owned (table.find? name).toList =
      payload.owns + content.owns := by
  cases payload with
  | object data =>
    cases tabled
    simp only [Payload.store, owns_object]
    rw [add_assoc, Attributes.owned_insert, add_assoc]
  | type data =>
    cases tabled
    simp only [Payload.store, owns_type]
    rw [add_assoc, Attributes.owned_insert, add_assoc]
  | function data =>
    cases tabled
    exact data.attributes.owned_insert name content
  | _ => cases tabled

theorem table?_store (tabled : payload.table? = some table) :
    (payload.store name content).table? = some (table.insert name content) := by
  cases payload <;> cases tabled <;> rfl

theorem kind_store : (payload.store name content).kind = payload.kind := by
  cases payload <;> rfl

end Payload

namespace Engine

variable {engine : Engine Code Host}

/-- A store that succeeds goes into a table, and then the old value is given up. -/
theorem setAttribute_eq_ok {object content : Value} {name : String} {before after : World Code Host}
    (stored : (engine.setAttribute object name content).run before = .ok (.ok (), after)) :
    ∃ place payload table, object = .ref place ∧ before.heap.payload? place = some payload ∧
      payload.table? = some table ∧ (payload.kind = .function → isReadOnly name = false) ∧
      engine.release? (table.find? name) { before with
        heap := before.heap.mapPayload place fun _ => payload.store name content } =
          .ok ((), after) := by
  have refused {refusal : Refusal} (ended : (do
      engine.release content
      Attempt.refuse refusal : Attempt Code Host Unit).run before = .ok (.ok (), after)) : False := by
    obtain ⟨_, _, _, failed⟩ := Attempt.act_bind_eq_ok.mp ended
    cases failed
  have untyped {value : Value} (ended : (do
      let type ← ask fun heap => heap.typeName value
      engine.release content
      Attempt.refuse (.noAttribute type name) : Attempt Code Host Unit).run before =
        .ok (.ok (), after)) : False := by
    obtain ⟨_, _, going⟩ := Attempt.ask_bind_eq_ok.mp ended
    exact refused going
  have finished {payload : Payload Code} {place : Handle} {old : Option Value}
      (ended : (do
        modifyHeap (·.mapPayload place fun _ => payload)
        engine.release? old : Attempt Code Host Unit).run before = .ok (.ok (), after)) :
      engine.release? old { before with heap := before.heap.mapPayload place fun _ => payload } =
        .ok ((), after) := by
    obtain ⟨_, _, changed, going⟩ := Attempt.act_bind_eq_ok.mp ended
    cases changed
    obtain ⟨_, _, released, same⟩ := Action.bind_eq_ok.mp going
    cases same
    exact released
  cases object with
  | ref place =>
    obtain ⟨payload, fetched, going⟩ := Attempt.ask_bind_eq_ok.mp stored
    have held := Heap.payload?_of_changed fetched
    cases payload with
    | object data => exact ⟨place, _, _, rfl, held, rfl, nofun, finished going⟩
    | type data => exact ⟨place, _, _, rfl, held, rfl, nofun, finished going⟩
    | function data =>
      dsimp only at going
      split at going
      · exact (refused going).elim
      · exact ⟨place, _, _, rfl, held, rfl, fun _ => Bool.not_eq_true _ ▸ ‹_›, finished going⟩
    | method data => exact (refused going).elim
    | _ => exact (untyped going).elim
  | _ => exact (untyped stored).elim

end Engine

/-! ### What is looked up after a store -/

theorem Function.lookup_insert (data : Function Code) {name other : String} {content : Value}
    (different : other ≠ name) :
    ({ data with attributes := data.attributes.insert name content } : Function Code).lookup other =
      data.lookup other := by
  simp only [Function.lookup, data.attributes.find?_insert, if_neg different]

namespace Heap

variable {heap : Heap Code} {place : Handle} {payload : Payload Code} {table : Attributes}
  {name other : String} {content : Value}

/-- A heap after a value was stored in an entry. -/
def storing (heap : Heap Code) (place : Handle) (payload : Payload Code) (name : String)
    (content : Value) : Heap Code :=
  heap.mapPayload place fun _ => payload.store name content

theorem payload?_storing (held : heap.payload? place = some payload) (handle : Handle) :
    (heap.storing place payload name content).payload? handle =
      if handle = place then some (payload.store name content) else heap.payload? handle :=
  payload?_grown held handle

variable (held : heap.payload? place = some payload)

include held

theorem read_storing (handle : Handle) :
    (heap.storing place payload name content).read handle =
      if handle = place then .ok (payload.store name content) else heap.read handle := by
  unfold read
  rw [payload?_storing held]
  by_cases here : handle = place
  · rw [if_pos here, if_pos here]
  · rw [if_neg here, if_neg here]

/-- A search along classes for another name comes to what it came to. -/
theorem findAlong_storing (different : other ≠ name) (types : List Handle) :
    (heap.storing place payload name content).findAlong other types = heap.findAlong other types := by
  induction types with
  | nil => rfl
  | cons type rest inductionHypothesis =>
    simp only [findAlong, read_storing held, inductionHypothesis]
    split
    · rename_i here
      rw [here, heap.read_eq_ok.mpr held]
      cases payload with
      | type data =>
        simp only [Payload.store, bind, Except.bind, data.members.find?_insert, if_neg different]
      | _ => rfl
    · rfl

theorem find_storing (different : other ≠ name) (type : Handle) :
    (heap.storing place payload name content).find type other = heap.find type other := by
  simp only [find, read_storing held, findAlong_storing held different]
  split
  · rename_i here
    rw [here, heap.read_eq_ok.mpr held]
    cases payload <;> rfl
  · rfl

theorem function_storing (handle : Handle) :
    (heap.storing place payload name content).function handle =
      if handle = place then heap.function place >>= fun data =>
        .ok { data with attributes := data.attributes.insert name content }
      else heap.function handle := by
  simp only [function, read_storing held]
  split
  · rename_i here
    rw [here, heap.read_eq_ok.mpr held]
    cases payload <;> simp only [Payload.store] <;> rfl
  · rfl

theorem lookup_function_storing (different : other ≠ name) (handle : Handle) :
    (return (← (heap.storing place payload name content).function handle).lookup other :
        Except Fault (Option Finding)) =
      return (← heap.function handle).lookup other := by
  rw [function_storing held]
  split
  · rename_i here
    rw [here]
    cases heap.function place with
    | error fault => rfl
    | ok data => exact congrArg Except.ok (data.lookup_insert different)
  · rfl

theorem lookupIn_storing (different : other ≠ name) (handle : Handle) (asked : Payload Code) :
    (heap.storing place payload name content).lookupIn handle other asked =
      heap.lookupIn handle other asked := by
  cases asked with
  | method data =>
    unfold lookupIn
    dsimp only
    split
    case h_6 => exact lookup_function_storing held different data.function
    all_goals rfl
  | _ => simp only [lookupIn, find_storing held different]

omit held in
theorem lookupIn_store (different : other ≠ name) (handle : Handle) :
    heap.lookupIn handle other (payload.store name content) =
      heap.lookupIn handle other payload := by
  cases payload with
  | object data =>
    simp only [Payload.store, lookupIn, data.attributes.find?_insert, if_neg different]
  | function data => exact congrArg Except.ok (data.lookup_insert different)
  | _ => rfl

/-- What is stored under one name is of no account for the lookup of another one. -/
theorem lookup_storing_other (different : other ≠ name) (handle : Handle) :
    (heap.storing place payload name content).lookup handle other = heap.lookup handle other := by
  unfold lookup
  rw [read_storing held]
  simp only [lookupIn_storing held different]
  split
  · rename_i here
    rw [here, heap.read_eq_ok.mpr held]
    exact lookupIn_store different place
  · rfl

/-- What is found where a value was stored, with the one exception. -/
theorem lookup_storing_self (tabled : payload.table? = some table)
    (writable : payload.kind = .function → isReadOnly name = false)
    (plain : ¬ (payload.kind = .type ∧ name = "__name__")) :
    (heap.storing place payload name content).lookup place name =
      .ok (some (if payload.kind = .type then .member content .nil (.ref place)
        else .content content)) := by
  have here : (heap.storing place payload name content).payload? place =
      some (payload.store name content) := by rw [payload?_storing held, if_pos rfl]
  rw [lookup_eq_lookupIn here]
  cases payload with
  | object data =>
    simp only [Payload.store, lookupIn, data.attributes.find?_insert]
    rfl
  | type data =>
    have unreserved : name ≠ "__name__" := fun same => plain ⟨rfl, same⟩
    have finds : (heap.storing place (.type data) name content).find place name =
        .ok (some content) := by
      simp only [find, findAlong, read_storing held, Payload.store, if_true, bind, Except.bind,
        data.members.find?_insert]
      rfl
    simp only [Payload.store, lookupIn, if_neg unreserved, finds]
    rfl
  | function data =>
    have free := writable rfl
    unfold isReadOnly at free
    simp only [Bool.or_eq_false_iff, decide_eq_false_iff_not] at free
    obtain ⟨⟨first, second⟩, third⟩ := free
    simp only [Payload.store, lookupIn, Function.lookup]
    split <;> first | contradiction | skip
    rw [data.attributes.find?_insert, if_pos rfl]
    rfl
  | _ => cases tabled

end Heap

/-! ### Reading what was stored -/

/-- A value that is bound when it is read through a class. -/
def Heap.IsBindable (heap : Heap Code) (value : Value) : Prop :=
  ∃ handle payload, value = .ref handle ∧ heap.payload? handle = some payload ∧
    (payload.kind = .function ∨ payload.kind = .method)

/-- What was stored under a name is read: the value itself, unless it is a function or a method and
is read through a class. Then it is bound through the class. -/
structure Engine.ReadsBack (engine : Engine Code Host) (world : World Code Host) (place : Handle)
    (name : String) (content : Value) : Prop where
  itself : ¬ (world.heap.IsType place ∧ world.heap.IsBindable content) →
    (engine.getAttribute (.ref place) name).run world = .ok (.ok content, { world with
      heap := world.heap.holding ([content].filterMap Value.handle?) })
  method : world.heap.IsType place → ∀ method data, content = .ref method →
    world.heap.payload? method = some (.method data) →
      (engine.getAttribute (.ref place) name).run world =
        (engine.bindMethod method .nil (.ref place)).run world
  function : world.heap.IsType place → ∀ function data, content = .ref function →
    world.heap.payload? function = some (.function data) →
      (engine.getAttribute (.ref place) name).run world =
        (engine.newMethod content .nil (.ref place)).run world
  /-- If a method can be allocated, the function becomes an unbound method of the class. -/
  granted : world.heap.IsType place → ∀ function data, content = .ref function →
    world.heap.payload? function = some (.function data) → world.heap.GrantsMethod →
      ∃ outside limbo, (engine.getAttribute (.ref place) name).Makes world outside limbo
        { function, receiver := none, owner := some (.ref place), watchers := [] }

namespace Engine

variable {engine : Engine Code Host} {world : World Code Host} {place : Handle} {name : String}
  {content : Value}

/-- A value that is there is handed out. -/
theorem deliver_content (live : ∀ handle ∈ content.owns, world.heap.isLive handle) :
    (engine.deliver (.content content)).run world = .ok (.ok content, { world with
      heap := world.heap.holding ([content].filterMap Value.handle?) }) :=
  (Attempt.run_retainValue_bind (retainValue_apply world live)).trans rfl

/-- What is neither a function nor a method is handed out also when a class has found it. -/
theorem readThrough_of_not_bindable {object type : Value}
    (live : ∀ handle ∈ content.owns, world.heap.isLive handle)
    (other : ¬ world.heap.IsBindable content) :
    (engine.readThrough content object type).run world =
      (engine.deliver (.content content)).run world := by
  cases content with
  | ref handle =>
    obtain ⟨payload, held⟩ := Heap.exists_payload?_of_isLive (live handle (Multiset.mem_singleton_self _))
    refine (Attempt.run_ask_bind (some payload) (world.heap.readValue_ref held)).trans ?_
    cases payload with
    | function data => exact absurd ⟨handle, _, rfl, held, Or.inl rfl⟩ other
    | method data => exact absurd ⟨handle, _, rfl, held, Or.inr rfl⟩ other
    | _ => rfl
  | _ => exact (Attempt.run_ask_bind none rfl).trans rfl

/-- A lookup that finds what was stored is enough for reading it back. -/
theorem readsBack_of_lookup {outside : Multiset Handle} {limbo : List Handle}
    (settled : world.heap.Settled outside limbo)
    (live : ∀ handle ∈ content.owns, world.heap.isLive handle) (there : world.heap.isLive place)
    (ofType : world.heap.IsType place →
      world.heap.lookup place name = .ok (some (.member content .nil (.ref place))))
    (ofOther : ¬ world.heap.IsType place →
      world.heap.lookup place name = .ok (some (.content content))) :
    engine.ReadsBack world place name content := by
  have through (isType : world.heap.IsType place) :
      (engine.getAttribute (.ref place) name).run world =
        (engine.readThrough content .nil (.ref place)).run world :=
    engine.getAttribute_of_lookup (ofType isType)
  have created (isType : world.heap.IsType place) {function : Handle} {data : Function Code}
      (same : content = .ref function) (held : world.heap.payload? function = some (.function data)) :
      (engine.getAttribute (.ref place) name).run world =
        (engine.newMethod content .nil (.ref place)).run world := by
    subst same
    exact (through isType).trans
      (Attempt.run_ask_bind (some (Payload.function data)) (world.heap.readValue_ref held))
  refine ⟨fun other => ?_, fun isType method data same held => ?_,
    fun isType function data => created isType, fun isType function data same held grants => ?_⟩
  · by_cases isType : world.heap.IsType place
    · exact (through isType).trans ((readThrough_of_not_bindable live
        fun bindable => other ⟨isType, bindable⟩).trans (deliver_content live))
    · exact (engine.getAttribute_of_lookup (ofOther isType)).trans (deliver_content live)
  · subst same
    exact (through isType).trans
      (Attempt.run_ask_bind (some (Payload.method data)) (world.heap.readValue_ref held))
  · subst same
    have nothing (handle : Handle) (member : handle ∈ Value.nil.owns) : world.heap.isLive handle :=
      absurd member (Multiset.notMem_zero handle)
    exact ⟨outside, limbo, (engine.makes_newMethod settled held nothing there grants).of_run_eq
      (created isType rfl held)⟩

end Engine

/-! ### Storing -/

/-- A store comes to the same when no code of the host ever comes back: no callback is called. -/
def Engine.StoresAlone (engine : Engine Code Host) (object : Value) (name : String) (content : Value)
    (world : World Code Host) : Prop :=
  (engine.silenced.setAttribute object name content).run world =
    (engine.setAttribute object name content).run world

theorem Payload.mem_visits_of_table? {payload : Payload Code} {table : Attributes} {value : Value}
    {handle : Handle} (tabled : payload.table? = some table) (member : value ∈ table.values)
    (owns : handle ∈ value.owns) : handle ∈ payload.visits := by
  have listed : handle ∈ table.values.filterMap Value.handle? := by
    refine List.mem_filterMap.mpr ⟨value, member, ?_⟩
    cases value with
    | ref other =>
      rw [Multiset.mem_singleton.mp owns]
      rfl
    | _ => cases owns
  cases payload with
  | object data =>
    cases tabled
    exact List.mem_cons_of_mem _ listed
  | type data =>
    cases tabled
    exact List.mem_append_right _ listed
  | function data =>
    cases tabled
    exact listed
  | _ => cases tabled

/-- An entry takes over what is stored in it, and what was there is owned beside the heap. -/
theorem Heap.Settled.storing {heap : Heap Code} {outside : Multiset Handle} {limbo : List Handle}
    {place : Handle} {payload : Payload Code} {table : Attributes} {content : Value}
    (settled : heap.Settled (outside + content.owns) limbo)
    (held : heap.payload? place = some payload) (tabled : payload.table? = some table) (name : String) :
    (heap.storing place payload name content).Settled
      (outside + owned (table.find? name).toList) limbo where
  sound := settled.sound.exchange settled.settled held (.store name content tabled)
    (Payload.owns_store name content tabled)
  settled := settled.settled

/-- After a store that calls nothing back, the entry finds what was stored, and under every other
name everything that is left finds what it found. -/
theorem Engine.finds_stored (engine : Engine Code Host) {before after : World Code Host}
    {outside : Multiset Handle} {limbo : List Handle} {place : Handle} {payload : Payload Code}
    {table : Attributes} {name : String} {content : Value}
    (settled : before.heap.Settled (outside + content.owns) limbo) (lent : place ∈ outside)
    (held : before.heap.payload? place = some payload) (tabled : payload.table? = some table)
    (released : engine.silenced.release? (table.find? name) { before with
      heap := before.heap.storing place payload name content } = .ok ((), after)) :
    after.heap.Settled outside limbo ∧ after.heap.isLive place ∧
      (∀ handle ∈ content.owns, after.heap.isLive handle) ∧
      (after.heap.IsType place ↔ payload.kind = .type) ∧
      ∀ handle, after.heap.isLive handle → ∀ other,
        after.heap.lookup handle other =
          (before.heap.storing place payload name content).lookup handle other := by
  have dwindles := engine.dwindles_release? _ released
  have stored := settled.storing held tabled name
  have here : (before.heap.storing place payload name content).payload? place =
      some (payload.store name content) := by rw [Heap.payload?_storing held, if_pos rfl]
  obtain ⟨done, passes⟩ := engine.keeps_silenced.release? (table.find? name)
    { busy := before.heap.releasing, limbo, frame := outside }
    { before with heap := before.heap.storing place payload name content }
    ⟨⟨stored.sound.congr (add_zero _).symm, rfl, trivial⟩, stored.settled,
      fun wild => absurd trivial wild⟩ () after released
  have sound : after.heap.Sound outside limbo := done.sound.congr (by simp [blankLedger])
  have remains := passes.remains trivial place (.of_mem lent)
  obtain ⟨_, _, later, same, there, alike⟩ := id remains
  cases same.symm.trans here
  have kinds : later.kind = payload.kind := alike.continues.kind.trans (payload.kind_store name content)
  refine ⟨⟨sound, fun idle => done.settled (done.releasing.symm.trans idle)⟩,
    Heap.isLive_of_payload? there, fun handle owns => ?_, ⟨?_, fun isType => ?_⟩,
    fun handle live other => dwindles.lookup sound live other⟩
  · refine sound.balanced.isLive_of_visits there ?_
    rw [alike.visits]
    refine Payload.mem_visits_of_table? (payload.table?_store name content tabled) ?_ owns
    exact Attributes.mem_values ((table.find?_insert name name content).trans (if_pos rfl))
  · rintro ⟨data, isType⟩
    cases there.symm.trans isType
    exact kinds.symm
  · cases later with
    | type data => exact ⟨data, there⟩
    | _ => cases kinds.trans isType

namespace Reached

variable {held : Host → Multiset Handle} {hand : Multiset Handle}
  {bodies : Code → Arguments → Program Code Host} {config : Config}
  {state : World Code (Recorded Code Host)}

/-- A store, at any moment of a run, that succeeds and calls nothing back. What is stored is what is
read next, unless a class is given a value for the name by which it answers with its own; and under
every other name everything that is left finds what it found. -/
theorem stores_are_visible (respectful : RespectfulBodies held bodies)
    (reached : Reached held bodies config hand state) {heap : Heap Code}
    (member : heap ∈ heaps state) {outside : Multiset Handle} (balanced : heap.Balanced outside)
    {object content : Value} {name : String} (owned : object.owns + content.owns ≤ outside)
    (engine : Engine Code Other) {host : Other} {after : World Code Other}
    (alone : engine.StoresAlone object name content { heap, host })
    (stored : (engine.setAttribute object name content).run { heap, host } = .ok (.ok (), after)) :
    ∃ place, object = .ref place ∧
      (¬ (heap.IsType place ∧ name = "__name__") →
        ∀ reader : Engine Code Other, reader.ReadsBack after place name content) ∧
      (∀ data, heap.payload? place = some (.type data) → name = "__name__" →
        ∀ reader : Engine Code Other, (reader.getAttribute object name).run after =
          (reader.newString data.name).run after) ∧
      ∀ other ≠ name, ∀ handle, after.heap.isLive handle →
        after.heap.lookup handle other = heap.lookup handle other := by
  obtain ⟨⟨all, limbo, sound⟩, idle⟩ := reached.orderly respectful member
  cases sound.balanced.unique balanced
  obtain ⟨place, payload, table, rfl, found, tabled, writable, released⟩ :=
    Engine.setAttribute_eq_ok (alone.trans stored)
  obtain ⟨rest, rfl⟩ := Multiset.le_iff_exists_add.mp owned
  have settled : (World.mk heap host).heap.Settled ({place} + rest + content.owns) limbo :=
    ⟨sound.congr (by rw [Value.owns_ref]; abel), idle⟩
  obtain ⟨later, there, lives, isType, lookups⟩ := engine.finds_stored settled
    (Multiset.mem_add.mpr (Or.inl (Multiset.mem_singleton_self place))) found tabled released
  have typed : heap.IsType place ↔ payload.kind = .type := by
    constructor
    · rintro ⟨data, isType⟩
      cases found.symm.trans isType
      rfl
    · intro kind
      cases payload with
      | type data => exact ⟨data, found⟩
      | _ => cases kind
  -- A lookup says what every reader gets, so only lookups are compared.
  refine ⟨place, rfl, fun plain reader => ?_, fun data isClass same reader => ?_,
    fun other different handle live => ?_⟩
  · have looked := (lookups place there name).trans
      (Heap.lookup_storing_self found tabled writable fun exception => plain
        ⟨typed.mpr exception.1, exception.2⟩)
    refine Engine.readsBack_of_lookup later lives there (fun yes => ?_) fun no => ?_
    · rw [looked, if_pos (isType.mp yes)]
    · rw [looked, if_neg fun kind => no (isType.mpr kind)]
  · cases found.symm.trans isClass
    have here : (heap.storing place (.type data) name content).payload? place =
        some ((Payload.type data).store name content) := by
      rw [Heap.payload?_storing found, if_pos rfl]
    have named : (heap.storing place (.type data) name content).lookup place name =
        .ok (some (.text data.name)) := by
      rw [Heap.lookup_eq_lookupIn here]
      simp only [Payload.store, Heap.lookupIn, if_pos same]
      rfl
    exact reader.getAttribute_of_lookup ((lookups place there name).trans named)
  · exact (lookups handle live other).trans (Heap.lookup_storing_other found different handle)

/-- A function is stored in a class, and is read there as an unbound method. -/
theorem store_of_function : ∃ state after : World Unit (Recorded Unit Unit),
    Reached (fun _ => 0) idleBodies Config.standard ({0} + {1}) state ∧
    (bodiesEngine idleBodies 4).StoresAlone (.ref 0) "f" (.ref 1) state ∧
    ((bodiesEngine idleBodies 4).setAttribute (.ref 0) "f" (.ref 1)).run state =
      .ok (.ok (), after) ∧
    ∃ outside limbo, ((bodiesEngine idleBodies 4).getAttribute (.ref 0) "f").Makes after outside
      limbo { function := 1, receiver := none, owner := some (.ref 0), watchers := [] } := by
  have type : Reached (fun _ : Unit => 0) idleBodies Config.standard {0} _ :=
    .perform (.newClass "C" []) 4 (.ok (.ref 0)) (.start () rfl) (fun _ member => member) rfl
  have coded : Reached (fun _ : Unit => 0) idleBodies Config.standard ({0} + {1}) _ :=
    .perform (.newFunction "f" none none ()) 4 (.ok (.ref 1)) type
      (fun _ member => absurd member (Multiset.notMem_zero _)) rfl
  have reads {state after : World Unit (Recorded Unit Unit)} {data : Function Unit} {members : Class}
      (reached : Reached (fun _ => 0) idleBodies Config.standard ({0} + {1}) state)
      (alone : (bodiesEngine idleBodies 4).StoresAlone (.ref 0) "f" (.ref 1) state)
      (stored : ((bodiesEngine idleBodies 4).setAttribute (.ref 0) "f" (.ref 1)).run state =
        .ok (.ok (), after))
      (isType : after.heap.payload? 0 = some (.type members))
      (isFunction : after.heap.payload? 1 = some (.function data))
      (grants : after.heap.GrantsMethod) :
      ∃ outside limbo, ((bodiesEngine idleBodies 4).getAttribute (.ref 0) "f").Makes after outside
        limbo { function := 1, receiver := none, owner := some (.ref 0), watchers := [] } := by
    obtain ⟨_, same, visible, _⟩ := stores_are_visible respectful_idleBodies reached
      List.mem_cons_self (reached.balanced respectful_idleBodies) (by decide)
      (bodiesEngine idleBodies 4) alone stored
    cases same
    exact (visible (fun exception => absurd exception.2 (by decide)) _).granted
      ⟨members, isType⟩ 1 data rfl isFunction grants
  exact ⟨_, _, coded, by unfold Engine.StoresAlone; cbv, by cbv,
    reads coded (by unfold Engine.StoresAlone; cbv) (by cbv) (by cbv) (by cbv) ⟨⟨_, by cbv⟩, by cbv⟩⟩

/-- A class takes a value for the name by which it answers with its own, and goes on answering with
its own. -/
theorem store_of_hidden_name : ∃ state after last : World Unit (Recorded Unit Unit),
    Reached (fun _ => 0) idleBodies Config.standard {0} state ∧
    (bodiesEngine idleBodies 4).StoresAlone (.ref 0) "__name__" (.int 1) state ∧
    ((bodiesEngine idleBodies 4).setAttribute (.ref 0) "__name__" (.int 1)).run state =
      .ok (.ok (), after) ∧
    ((bodiesEngine idleBodies 4).getAttribute (.ref 0) "__name__").run after =
      .ok (.ok (.ref 1), last) ∧
    last.heap.payload? 1 = some (.str "C") ∧
    ¬ (bodiesEngine idleBodies 4).ReadsBack after 0 "__name__" (.int 1) := by
  have type : Reached (fun _ : Unit => 0) idleBodies Config.standard {0} _ :=
    .perform (.newClass "C" []) 4 (.ok (.ref 0)) (.start () rfl) (fun _ member => member) rfl
  have hidden {after last : World Unit (Recorded Unit Unit)}
      (read : ((bodiesEngine idleBodies 4).getAttribute (.ref 0) "__name__").run after =
        .ok (.ok (.ref 1), last)) :
      ¬ (bodiesEngine idleBodies 4).ReadsBack after 0 "__name__" (.int 1) := by
    intro back
    have plain := back.itself fun ⟨_, _, _, same, _⟩ => nomatch same
    rw [read] at plain
    cases plain
  exact ⟨_, _, _, type, by unfold Engine.StoresAlone; cbv, by cbv, by cbv, by cbv,
    hidden (by cbv)⟩

end Reached

end ObjectHeap
