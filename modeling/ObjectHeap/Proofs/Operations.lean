/-
This file establishes that the operations on single values keep every ledger: those that change
a list or an attribute, that read attributes, that bind methods, and that call a value. A payload
that is changed in place trades references with whoever changes it. Calls hand their arguments
over to the code that they run, and give them up themselves when there is no such code.
-/

import ObjectHeap.CallAttribute
import ObjectHeap.Proofs.Creation

namespace ObjectHeap

variable {Code Host : Type} {ledger : Ledger Code Host} {scene : Scene}
  {before : World Code Host} {mine rest : Multiset Handle} {α : Type}

/-! ### Changes in place -/

/-- How a payload changes in place: it grows, and weak references stay as they are. -/
structure Payload.Grows (payload later : Payload Code) : Prop where
  continues : payload.Continues later
  target : later.target? = payload.target?
  callback : Heap.callbackOf later = Heap.callbackOf payload
  watchers : later.watchers = payload.watchers
  size : payload.bareSize ≤ later.bareSize

namespace Payload.Grows

theorem list (items : List Value) (item : Value) :
    (Payload.list items : Payload Code).Grows (.list (items ++ [item])) where
  continues := trivial
  target := rfl
  callback := rfl
  watchers := rfl
  size := by
    show 24 + items.length * valueSize ≤ 24 + (items ++ [item]).length * valueSize
    rw [List.length_append, add_mul]
    omega

theorem object (data : Instance) (name : String) (content : Value) :
    (Payload.object data : Payload Code).Grows
      (.object { data with attributes := data.attributes.insert name content }) where
  continues := rfl
  target := rfl
  callback := rfl
  watchers := rfl
  size := Nat.add_le_add_right (Nat.add_le_add_left
    (Nat.mul_le_mul_right _ (data.attributes.size_le_insert name content)) _) _

theorem type (data : Class) (name : String) (content : Value) :
    (Payload.type data : Payload Code).Grows
      (.type { data with members := data.members.insert name content }) where
  continues := rfl
  target := rfl
  callback := rfl
  watchers := rfl
  size := Nat.add_le_add_left
    (Nat.mul_le_mul_right _ (data.members.size_le_insert name content)) _

theorem function (data : Function Code) (name : String) (content : Value) :
    (Payload.function data).Grows
      (.function { data with attributes := data.attributes.insert name content }) where
  continues := rfl
  target := rfl
  callback := rfl
  watchers := rfl
  size := Nat.add_le_add_left
    (Nat.mul_le_mul_right _ (data.attributes.size_le_insert name content)) _

end Payload.Grows

namespace Heap

section

variable {heap : Heap Code} {place : Handle} {payload grown : Payload Code}
  (held : heap.payload? place = some payload)

include held

theorem payload?_grown (other : Handle) :
    (heap.mapPayload place fun _ => grown).payload? other =
      if other = place then some grown else heap.payload? other := by
  rw [payload?_mapPayload]
  split
  · rename_i here
    rw [here, held]
    rfl
  · rfl

/-- What is sustained once an entry has grown was sustained before, as long as all that the entry owns
now was. -/
theorem Sustained.of_grown {kept roots : Multiset Handle}
    (within : ∀ root ∈ kept, heap.Sustained roots root)
    (owns : ∀ target ∈ grown.owns, heap.Sustained roots target) {handle : Handle}
    (sustained : (heap.mapPayload place fun _ => grown).Sustained kept handle) :
    heap.Sustained roots handle := by
  refine sustained.induction within fun source target _ before refers => ?_
  unfold Refers Heap.visits at refers
  rw [payload?_grown held] at refers
  split at refers
  · exact owns target refers
  · exact before.step refers

/-- What the grown payload answers like the one it has grown from is answered as before everywhere. -/
theorem ask_grown {β : Type} (question : Option (Payload Code) → β)
    (same : question (some grown) = question (some payload)) (other : Handle) :
    question ((heap.mapPayload place fun _ => grown).payload? other) =
      question (heap.payload? other) := by
  rw [payload?_grown held]
  split
  · rename_i here
    rw [here, held]
    exact same
  · rfl

theorem isLive_grown (other : Handle) :
    (heap.mapPayload place fun _ => grown).isLive other = heap.isLive other := by
  rw [isLive_eq_payload?, isLive_eq_payload?]
  exact ask_grown held Option.isSome (show (some grown).isSome = (some payload).isSome from rfl) other

variable (grows : payload.Grows grown)

include grows

/-- Every payload is one from before, or it is the one that has grown. -/
theorem continues_grown {other : Handle} {found : Payload Code}
    (reached : (heap.mapPayload place fun _ => grown).payload? other = some found) :
    ∃ former, heap.payload? other = some former ∧ former.Continues found := by
  rw [payload?_grown held] at reached
  split at reached
  · rename_i here
    cases reached
    exact ⟨payload, here ▸ held, grows.continues⟩
  · exact ⟨found, reached, .refl found⟩

theorem quiet_grown : heap.Quiet (heap.mapPayload place fun _ => grown) := by
  have registers := congrArg (Option.getD · []) (congrArg some grows.watchers)
  refine .of_steady (.mapPayload heap place _) (isLive_grown held)
    (ask_grown held (·.bind Payload.target?) grows.target)
    (ask_grown held (·.bind callbackOf) grows.callback)
    (ask_grown held (fun found => (found.map Payload.watchers).getD []) registers)
    (ask_grown held (·.bind Payload.receiver?) grows.continues.receiver?) fun other => ?_
  unfold bareSize
  rw [payload?_grown held]
  split
  · rename_i here
    rw [here, held]
    exact grows.size
  · exact le_rfl

/-- What is sustained apart from the payload stays as it is. -/
theorem carries_grown {calm : Prop} {frame owned : Multiset Handle} (balanced : heap.Balanced owned)
    (sub : frame ⊆ owned) (apart : calm → ¬ heap.Sustained frame place) :
    heap.Carries calm frame (heap.mapPayload place fun _ => grown) := by
  refine .of_steady (Steady.mapPayload heap place _).births
    (fun other live => isLive_grown held other ▸ live) (fun other one two found reached => ?_)
    (fun still other one sustained found => ⟨one, ?_, .refl one⟩) balanced sub
  · obtain ⟨former, there, continues⟩ := continues_grown held grows reached
    cases found.symm.trans there
    exact continues
  · rw [payload?_grown held, if_neg, found]
    rintro rfl
    exact apart still sustained

end

end Heap

/-- A payload that changes in place, apart from what the frame sustains, trades references. -/
theorem Ledger.Holds.exchange (holds : ledger.Holds scene before mine) {place : Handle}
    {payload : Payload Code} (later : Payload Code)
    (apart : ledger.calm → ¬ before.heap.Sustained scene.frame place)
    (found : before.heap.payload? place = some payload) (grows : payload.Grows later)
    (traded : later.owns + rest = payload.owns + mine) :
    ledger.Holds scene { before with heap := before.heap.mapPayload place fun _ => later } rest ∧
      ledger.Passes scene.frame before
        { before with heap := before.heap.mapPayload place fun _ => later } := by
  have steady := Heap.Steady.mapPayload before.heap place fun _ => later
  have quiet := Heap.quiet_grown found grows
  have carries : before.heap.Carries ledger.calm scene.frame
      (before.heap.mapPayload place fun _ => later) :=
    Heap.carries_grown found grows holds.sound.balanced (scene.frame_subset _ _) apart
  have balanced : (before.heap.mapPayload place fun _ => later).Balanced
      (scene.frame + rest + ledger.held before.host) := by
    obtain ⟨entry, occupied, rfl⟩ := before.heap.payload?_eq_some.mp found
    refine holds.sound.balanced.exchange later occupied ?_ (fun other different => ?_) rfl ?_
    · rw [Heap.occupant?_mapPayload, if_pos rfl, occupied]
      rfl
    · rw [Heap.occupant?_mapPayload, if_neg different]
    · calc later.owns + (scene.frame + rest + ledger.held before.host)
          = later.owns + rest + (scene.frame + ledger.held before.host) := by abel
        _ = entry.payload.owns + (scene.frame + mine + ledger.held before.host) := by
          rw [traded]
          abel
  exact ⟨⟨⟨⟨balanced, holds.sound.watched.congr quiet.targets quiet.registers,
    steady.housed (Heap.isLive_grown found) holds.sound.housed,
    holds.sound.formed.mono fun _ _ => Heap.continues_grown found grows⟩, holds.releasing,
    ledger.lasts holds.fits carries.evolves⟩, fun idle => steady.pending.trans (holds.settled idle),
    holds.tidy⟩, .of_quiet carries quiet⟩

/-- What is there to be changed is a live entry. -/
theorem Heap.payload?_of_changed {Code : Type} {heap : Heap Code} {handle : Handle}
    {payload : Payload Code}
    (fetched : (match heap.payload? handle with
      | some payload => Except.ok payload
      | none => Except.error Fault.changedFreed) = .ok payload) :
    heap.payload? handle = some payload := by
  cases found : heap.payload? handle with
  | none => rw [found] at fetched; cases fetched
  | some other => rw [found] at fetched; cases fetched; rfl

namespace Attempt

variable {place : Handle} {payload : Payload Code} {next : Unit → Attempt Code Host α}
  {post : α → Multiset Handle} {lost : Multiset Handle}

/-- A change in place, in the course of an attempt. -/
theorem Yields.exchange (holds : ledger.Holds scene before mine) (later : Payload Code)
    (apart : ledger.calm → ¬ before.heap.Sustained scene.frame place)
    (found : before.heap.payload? place = some payload) (grows : payload.Grows later)
    (traded : later.owns + rest = payload.owns + mine)
    (going : (next ()).Keeps ledger rest post lost) :
    (modifyHeap (·.mapPayload place fun _ => later) >>= next).Yields ledger scene before post
      lost := by
  obtain ⟨done, carries⟩ := holds.exchange later apart found grows traded
  show (Attempt.ofAction (modifyHeap (·.mapPayload place fun _ => later)) >>= next).Yields
    ledger scene before post lost
  exact .act_of_eq (modifyHeap_apply before _) carries (going scene _ done)

end Attempt

namespace Engine

variable {engine : Engine Code Host}

/-- A list takes over what is appended to it. -/
theorem Keeps.append (keeps : engine.Keeps ledger) (wild : ¬ ledger.calm) (list item : Value) :
    (engine.append list item).Keeps ledger item.owns (fun _ => 0) 0 := by
  have refused : (do
      let type ← ask fun heap => heap.typeName list
      engine.release item
      Attempt.refuse (.noAttribute type "append") : Attempt Code Host Unit).Keeps ledger
        item.owns (fun _ => 0) 0 := .ask fun _ => .act (keeps.release item) fun _ => .refuse _
  intro scene before holds
  unfold Engine.append
  cases list with
  | ref handle =>
    refine .ask fun payload fetched => ?_
    cases payload with
    | list items =>
      simp only [pure_bind]
      have traded : (Payload.list (items ++ [item]) : Payload Code).owns + 0 =
          (Payload.list items : Payload Code).owns + item.owns := by simp
      obtain ⟨done, carries⟩ := holds.exchange (.list (items ++ [item]))
        (fun calm => absurd calm wild) (Heap.payload?_of_changed fetched) (.list items item) traded
      exact .ofAction (.of_eq (modifyHeap_apply before
        (·.mapPayload handle fun _ => .list (items ++ [item]))) done carries)
    | _ =>
      simp only [pure_bind]
      exact refused scene before holds
  | _ =>
    simp only [pure_bind]
    exact refused scene before holds

/-- An entry takes over what is stored as its attribute, and gives up what was there. -/
theorem Keeps.setAttribute (keeps : engine.Keeps ledger) (wild : ¬ ledger.calm) (value : Value)
    (name : String) (content : Value) :
    (engine.setAttribute value name content).Keeps ledger content.owns (fun _ => 0) 0 := by
  intro scene before holds
  have apart (handle : Handle) (calm : ledger.calm) : ¬ before.heap.Sustained scene.frame handle :=
    absurd calm wild
  have refused (type : String) : (do
      engine.release content
      Attempt.refuse (.noAttribute type name) : Attempt Code Host Unit).Keeps ledger
        content.owns (fun _ => 0) 0 := .act (keeps.release content) fun _ => .refuse _
  cases value with
  | ref handle =>
    refine .ask fun payload fetched => ?_
    have found := Heap.payload?_of_changed fetched
    cases payload with
    | object data =>
      exact .exchange holds (.object { data with attributes := data.attributes.insert name content })
        (apart handle) found (.object data name content)
        (Payload.owns_object_insert name content data)
        (.ofAction (keeps.release? (data.attributes.find? name)))
    | type data =>
      exact .exchange holds (.type { data with members := data.members.insert name content })
        (apart handle) found (.type data name content)
        (Payload.owns_type_insert name content data)
        (.ofAction (keeps.release? (data.members.find? name)))
    | function data =>
      dsimp only
      split
      · exact (Attempt.Keeps.act (keeps.release content) fun _ => .refuse _) scene before holds
      · exact .exchange holds
          (.function { data with attributes := data.attributes.insert name content })
          (apart handle) found (.function data name content)
          (Payload.owns_function_insert name content data)
          (.ofAction (keeps.release? (data.attributes.find? name)))
    | method data => exact refused _ scene before holds
    | _ => exact .ask fun type _ => refused type scene before holds
  | _ => exact .ask fun type _ => refused type scene before holds

end Engine

/-! ### Questions -/

namespace Attempt.Keeps

variable {lost : Multiset Handle}

theorem answer (question : Heap Code → Except Fault α) :
    (ObjectHeap.ask question : Attempt Code Host α).Keeps ledger mine (fun _ => mine) lost := by
  rw [← bind_pure (ObjectHeap.ask question)]
  exact .ask fun _ => .pure _ rfl

theorem refuseAttribute {owns : α → Multiset Handle} (value : Value) (name : String) :
    (refuseAttribute value name : Attempt Code Host α).Keeps ledger lost owns lost :=
  .ask fun _ => .refuse _

theorem isInstance (value type : Value) :
    (isInstance value type : Attempt Code Host Bool).Keeps ledger mine (fun _ => mine) mine := by
  refine .ask fun sup => ?_
  cases sup with
  | none => exact .refuse _
  | some sup =>
    refine .ask fun sub => ?_
    cases sub with
    | none => exact .pure _ rfl
    | some sub => exact .answer _

theorem isSubtype (sub sup : Value) :
    (isSubtype sub sup : Attempt Code Host Bool).Keeps ledger mine (fun _ => mine) mine := by
  refine .ask fun sub => ?_
  cases sub with
  | none => exact .refuse _
  | some sub =>
    refine .ask fun sup => ?_
    cases sup with
    | none => exact .refuse _
    | some sup => exact .answer _

theorem checkMethod (operation : String) (value : Value) :
    (checkMethod operation value : Attempt Code Host Unit).Keeps ledger mine (fun _ => mine)
      mine := by
  refine .ask fun found => ?_
  cases found with
  | none => exact .ask fun _ => .refuse _
  | some method => exact .pure () rfl

theorem refuseReceiver (method : Method) (received : Option String) :
    (refuseReceiver method received : Attempt Code Host Unit).Keeps ledger mine (fun _ => mine)
      mine :=
  .ask fun _ => .ask fun _ => .refuse _

theorem checkReceiver (method : Method) (arguments : Arguments) :
    (checkReceiver method arguments : Attempt Code Host Unit).Keeps ledger mine (fun _ => mine)
      mine := by
  unfold ObjectHeap.checkReceiver
  split
  · exact .refuseReceiver method none
  · refine .bind (.isInstance _ _) fun applies => ?_
    cases applies with
    | true => exact .pure () rfl
    | false => exact .ask fun _ => .refuseReceiver method _
  · exact .pure () rfl

/-- A value that is there is answered with a reference of its own. -/
theorem share (value : Value) :
    (do ObjectHeap.retainValue value; return value : Attempt Code Host Value).Keeps ledger 0 Value.owns lost :=
  .retainValue (.pure value (zero_add _))

theorem shareEntry (handle : Handle) :
    (do ObjectHeap.retain handle; return .ref handle : Attempt Code Host Value).Keeps ledger 0 Value.owns
      lost :=
  .retain (.pure (Value.ref handle) (zero_add _))

/-- A weak reference answers with a reference to its target, or with nil. -/
theorem referent (weakref : Handle) :
    (referent weakref : Attempt Code Host Value).Keeps ledger 0 Value.owns lost := by
  refine .ofAction (.ask fun payload => ?_)
  split
  · refine .bind .currentHeap fun heap => ?_
    split
    · exact .bind (.retain _) fun _ => .pure _ rfl
    · exact .pure _ rfl
  · exact .pure _ rfl

/-- An attempt that ends with nothing owned, whether it succeeds or not. -/
theorem nothing {attempt : Attempt Code Host α} (keeps : attempt.Keeps ledger mine (fun _ => 0) 0) :
    attempt.run.Keeps ledger mine fun _ => 0 :=
  fun scene before holds => Action.Yields.congr (keeps scene before holds) fun outcome => by
    cases outcome <;> rfl

end Attempt.Keeps

/-- The items of a sequence are answered with a reference each. -/
theorem Action.Keeps.retainItems (value : Value) :
    (retainItems value : Action Code Host (Option (List Value))).Keeps ledger 0
      fun items => owned (items.getD []) := by
  refine .ask fun items => ?_
  cases items with
  | none => exact .pure none rfl
  | some items => exact .bind (.retainAll items) fun _ => .pure (some items) rfl

/-- No arguments own nothing. -/
theorem Arguments.owns_of_count_eq_zero (arguments : Arguments) (absent : arguments.count = 0) :
    arguments.owns = 0 := by
  obtain ⟨positional, keywords⟩ := arguments
  rw [count, Nat.add_eq_zero_iff, List.length_eq_zero_iff, List.length_eq_zero_iff] at absent
  obtain ⟨rfl, rfl⟩ := absent
  rfl

theorem Heap.method_eq_ok {heap : Heap Code} {handle : Handle} {data : Method} :
    heap.method handle = .ok data ↔ heap.payload? handle = some (.method data) := by
  rw [← heap.read_eq_ok]
  unfold Heap.method
  cases heap.read handle with
  | error fault => exact iff_of_false (fun same => nomatch same) fun same => nomatch same
  | ok payload =>
    cases payload with
    | method other =>
      constructor
      · intro same
        cases same
        rfl
      · intro same
        cases same
        rfl
    | _ => exact iff_of_false (fun same => nomatch same) fun same => nomatch same

theorem Heap.method?_eq_some {heap : Heap Code} {value : Value} {handle : Handle} :
    heap.method? value = .ok (some handle) ↔
      value = .ref handle ∧ ∃ data, heap.payload? handle = some (.method data) := by
  constructor
  · intro asked
    obtain ⟨read, known, answered⟩ := Heap.bind_eq_ok.mp asked
    cases value with
    | ref other =>
      obtain ⟨payload, held, same⟩ := Heap.bind_eq_ok.mp known
      cases same
      cases payload with
      | method data =>
        cases answered
        exact ⟨rfl, data, heap.read_eq_ok.mp held⟩
      | _ => cases answered
    | _ =>
      cases known
      cases answered
  · rintro ⟨rfl, data, held⟩
    exact Heap.bind_eq_ok.mpr ⟨_, Heap.bind_eq_ok.mpr ⟨_, heap.read_eq_ok.mpr held, rfl⟩, rfl⟩

/-- Comparing classes changes nothing. -/
theorem isSubtype_eq_ok {sub sup : Value} {answer : Bool} {after : World Code Host}
    (ended : (isSubtype sub sup : Attempt Code Host Bool).run before = .ok (.ok answer, after)) :
    after = before := by
  obtain ⟨first, _, ended⟩ := Attempt.ask_bind_eq_ok.mp ended
  cases first with
  | none => cases ended
  | some sub =>
    obtain ⟨second, _, ended⟩ := Attempt.ask_bind_eq_ok.mp ended
    cases second with
    | none => cases ended
    | some sup =>
      obtain ⟨_, between, asked, last⟩ := Action.bind_eq_ok.mp ended
      cases last
      exact (ask_eq_ok.mp asked).2

namespace Engine

variable {engine : Engine Code Host}

/-! ### Signatures -/

theorem Keeps.refuseArguments (keeps : engine.Keeps ledger) {owns : α → Multiset Handle}
    (arguments : Arguments) (refusal : Refusal) :
    (engine.refuseArguments arguments refusal : Attempt Code Host α).Keeps ledger arguments.owns
      owns 0 :=
  .act (keeps.releaseArguments arguments) fun _ => .refuse _

/-- Values that are refused are given up. -/
theorem Keeps.refuseValues (keeps : engine.Keeps ledger) {owns : α → Multiset Handle}
    (values : List Value) (refusal : Refusal) :
    (do engine.releaseList values; Attempt.refuse refusal : Attempt Code Host α).Keeps ledger
      (owned values) owns 0 :=
  .act (keeps.releaseList values) fun _ => .refuse _

theorem Keeps.withoutKeywords (keeps : engine.Keeps ledger) (callable : String)
    (arguments : Arguments) {owns : Arguments → Multiset Handle}
    (same : arguments.keywords = [] → arguments.owns = owns arguments) :
    (engine.withoutKeywords callable arguments).Keeps ledger arguments.owns owns 0 := by
  unfold Engine.withoutKeywords
  split
  · rename_i absent
    exact .pure arguments (same (List.isEmpty_iff.mp absent))
  · exact keeps.refuseArguments arguments _

/-- Arguments without keywords own what they own by position. -/
theorem Keeps.positional (keeps : engine.Keeps ledger) (callable : String) (arguments : Arguments) :
    (engine.withoutKeywords callable arguments).Keeps ledger arguments.owns
      (fun passed => owned passed.positional) 0 :=
  keeps.withoutKeywords callable arguments fun absent => by
    simp [Arguments.owns, Arguments.values, absent]

theorem Keeps.atMostOne (keeps : engine.Keeps ledger) (callable : String) (arguments : Arguments) :
    (engine.atMostOne callable arguments).Keeps ledger arguments.owns
      (fun value => owned value.toList) 0 := by
  refine .bind (keeps.positional callable arguments) fun passed => ?_
  split
  · rename_i absent
    rw [absent]
    exact .pure none rfl
  · rename_i value single
    rw [single]
    exact .pure (some value) rfl
  · exact keeps.refuseValues _ _

theorem Keeps.exactlyOne (keeps : engine.Keeps ledger) (callable : String) (arguments : Arguments) :
    (engine.exactlyOne callable arguments).Keeps ledger arguments.owns Value.owns 0 := by
  unfold Engine.exactlyOne
  split
  · exact .pure _ rfl
  · exact keeps.refuseArguments arguments _

/-! ### Methods -/

theorem Keeps.methodOfArguments (keeps : engine.Keeps ledger) (arguments : Arguments) :
    (engine.methodOfArguments arguments).Keeps ledger arguments.owns Value.owns 0 := by
  refine .bind (keeps.positional "method" arguments) fun passed => ?_
  split
  · rename_i function receiver same
    exact ((keeps.newMethod function receiver .nil).ensuring
      (keeps.releaseList [function, receiver])).congr (by rw [same, zero_add])
  · rename_i function receiver owner same
    exact ((keeps.newMethod function receiver owner).ensuring
      (keeps.releaseList [function, receiver, owner])).congr (by rw [same, zero_add])
  · refine .act (keeps.releaseList _) fun _ => ?_
    split
    · exact .refuse _
    · exact .refuse _

theorem Keeps.bindMethod (keeps : engine.Keeps ledger) (method : Handle) (object type : Value) :
    (engine.bindMethod method object type).Keeps ledger 0 Value.owns 0 := by
  intro scene before holds
  refine .ask fun data asked => ?_
  obtain ⟨function, there⟩ := holds.sound.exists_function (Heap.method_eq_ok.mp asked)
  have grounded := holds.sound.formed.grounded method data (Heap.method_eq_ok.mp asked)
  cases bound : data.receiver with
  | some receiver => exact Attempt.Keeps.shareEntry method scene before holds
  | none =>
    have parts : owned data.parts = owned data.owner.toList := by
      rw [Method.parts, bound]
      rfl
    refine .retainAll holds fun middle taken same => ?_
    rw [parts, zero_add] at taken
    -- Whether the method applies or not, it goes on with a reference to its owner.
    have going (applies : Bool) (between : World Code Host)
        (holding : ledger.Holds scene between (owned data.owner.toList))
        (unchanged : between = middle) : Attempt.Yields ledger scene between
        (if applies then do
          retainValue object
          engine.allocateMethod data.function object.present? data.owner
        else do
          engine.release? data.owner
          retain method
          return .ref method : Attempt Code Host Value) Value.owns 0 := by
      cases applies with
      | true =>
        refine .retainValue holding fun last held same' => ?_
        rw [unchanged] at same'
        refine keeps.allocateMethod ((same' _).trans ((same _).trans there))
          (grounded.remade rfl fun _ => bound) (.of_unbound object.present?_ne_nil) (held.congr ?_)
        rw [Value.owned_present?, add_comm]
      | false =>
        have answers : Attempt.Keeps ledger (owned data.owner.toList) (do
            engine.release? data.owner
            retain method
            return .ref method : Attempt Code Host Value) Value.owns 0 :=
          .act (keeps.release? data.owner) fun _ => .shareEntry method
        exact answers scene between holding
    cases owned : data.owner with
    | none =>
      rw [owned] at going taken
      exact going true middle taken rfl
    | some owner =>
      rw [owned] at going taken
      dsimp only
      split
      · exact going true middle taken rfl
      · have checked : ((isSubtype type owner).onError (engine.release owner)).Keeps ledger
            (ObjectHeap.owned (some owner).toList) (fun _ => ObjectHeap.owned (some owner).toList) 0 :=
          .onError ((Attempt.Keeps.isSubtype type owner).congr (by simp)) (keeps.release owner)
        exact .bindOk (checked scene middle taken) fun applies between ended holding _ =>
          going applies between holding (isSubtype_eq_ok (Attempt.onError_eq_ok_ok.mp ended))

theorem Keeps.bind (keeps : engine.Keeps ledger) (value object type : Value) :
    (engine.bind value object type).Keeps ledger 0 Value.owns 0 := by
  refine .ask fun method => ?_
  cases method with
  | none => exact .share value
  | some method => exact keeps.bindMethod method object type

/-! ### Attributes -/

theorem Keeps.functionAttribute (keeps : engine.Keeps ledger) (function : Handle) (name : String) :
    (engine.functionAttribute function name).Keeps ledger 0 Value.owns 0 := by
  refine .ask fun payload => ?_
  split
  · rename_i data
    split
    · exact keeps.newString data.name
    · exact keeps.newString data.qualifiedName
    · split
      · exact keeps.newString _
      · exact .pure _ rfl
    · split
      · exact .share _
      · exact .refuse _
  · exact .fail _

theorem Keeps.methodAttribute (keeps : engine.Keeps ledger) (method : Handle) (name : String) :
    (engine.methodAttribute method name).Keeps ledger 0 Value.owns 0 := by
  refine .ask fun data => ?_
  split
  · exact .shareEntry _
  · exact .shareEntry _
  · exact .share _
  · exact .share _
  · exact .share _
  · exact keeps.functionAttribute _ _

theorem Keeps.readThrough (keeps : engine.Keeps ledger) (found object type : Value) :
    (engine.readThrough found object type).Keeps ledger 0 Value.owns 0 := by
  refine .ask fun payload => ?_
  split
  · exact keeps.newMethod _ _ _
  · exact keeps.bindMethod _ _ _
  · exact .share found

theorem Keeps.instanceTypeAttribute (keeps : engine.Keeps ledger) (object : Value) (type : Handle)
    (name : String) : (engine.instanceTypeAttribute object type name).Keeps ledger 0 Value.owns 0 := by
  unfold Engine.instanceTypeAttribute
  split
  · exact .shareEntry type
  · refine .ask fun found => ?_
    split
    · exact keeps.readThrough _ _ _
    · exact .ask fun _ => .refuse _

theorem Keeps.typeAttribute (keeps : engine.Keeps ledger) (type : Handle) (name : String) :
    (engine.typeAttribute type name).Keeps ledger 0 Value.owns 0 := by
  unfold Engine.typeAttribute
  split
  · exact .ask fun _ => keeps.newString _
  · refine .ask fun found => ?_
    split
    · exact keeps.readThrough _ _ _
    · exact .ask fun _ => .refuse _

theorem Keeps.getAttribute (keeps : engine.Keeps ledger) (value : Value) (name : String) :
    (engine.getAttribute value name).Keeps ledger 0 Value.owns 0 := by
  unfold Engine.getAttribute
  split
  · refine .ask fun payload => ?_
    split
    · split
      · exact .share _
      · exact keeps.instanceTypeAttribute _ _ _
    · exact keeps.typeAttribute _ _
    · exact keeps.methodAttribute _ _
    · exact keeps.functionAttribute _ _
    · exact .refuseAttribute _ _
  · exact .refuseAttribute _ _

/-! ### Calls -/

/-- Code takes its arguments over, and what is no function gives them up. -/
theorem Keeps.invoke (keeps : engine.Keeps ledger) (function : Handle) (arguments : Arguments) :
    (engine.invoke function arguments).Keeps ledger arguments.owns Value.owns 0 := by
  refine .ask fun payload => ?_
  split
  · refine .currentHeap fun heap => ?_
    split
    · exact keeps.refuseArguments arguments _
    · refine .modifyHeap (by constructor <;> intro heap <;> rfl) ?_
      have left : (modifyHeap fun heap : Heap Code => { heap with callDepth := heap.callDepth - 1 } :
          Action Code Host Unit).Keeps ledger 0 fun _ => 0 :=
        .bookkeeping (by constructor <;> intro heap <;> rfl)
      exact ((keeps.run _ arguments).ensuring left).congr (add_zero _)
  · exact .act (keeps.releaseArguments arguments) fun _ => .fail _

/-- A function that comes to an answer runs its code, one call deeper. -/
theorem call_function_eq_ok {function : Handle} {data : Function Code} {arguments : Arguments}
    {answer : Value} {after : World Code Host}
    (found : before.heap.payload? function = some (.function data))
    (ended : (engine.call (.ref function) arguments).run before = .ok (.ok answer, after)) :
    ∃ between, (engine.run data.code arguments).run
        { before with heap := { before.heap with callDepth := before.heap.callDepth + 1 } } =
          .ok (.ok answer, between) ∧
      after = { between with heap := { between.heap with callDepth := between.heap.callDepth - 1 } } := by
  have read := before.heap.read_eq_ok.mpr found
  obtain ⟨payload, fetched, called⟩ := Attempt.ask_bind_eq_ok.mp ended
  cases read.symm.trans fetched
  obtain ⟨payload, fetched, called⟩ := Attempt.ask_bind_eq_ok.mp called
  cases read.symm.trans fetched
  obtain ⟨heap, between, looked, called⟩ := Attempt.bind_eq_ok.mp called
  cases looked
  cases refused : before.heap.tracker.recursionRefusal? (UInt64.ofNat before.heap.callDepth) with
  | some exceeded =>
    rw [refused] at called
    obtain ⟨_, _, _, last⟩ := Attempt.bind_eq_ok.mp called
    cases last
  | none =>
    rw [refused] at called
    obtain ⟨_, _, deeper, called⟩ := Attempt.bind_eq_ok.mp called
    cases deeper
    obtain ⟨between, ran, left⟩ := Attempt.ensuring_eq_ok.mp called
    cases left
    exact ⟨between, ran, rfl⟩

theorem Keeps.callMethod (keeps : engine.Keeps ledger) (method : Handle) (arguments : Arguments) :
    (engine.callMethod method arguments).Keeps ledger arguments.owns Value.owns 0 := by
  refine .ask fun data => .retainAll ?_
  rw [Method.parts, owned_append]
  split
  · rename_i receiver bound
    rw [bound]
    refine .congr (.spend (keeps.release? data.owner)
      ((keeps.invoke data.function (arguments.prepend receiver)))) ?_
    rw [Arguments.owns_prepend]
    simp only [Option.toList_some, owned_cons, owned_nil]
    abel
  · rename_i unbound
    rw [unbound]
    refine .bind (.onError ((Attempt.Keeps.ensuring (.checkReceiver data arguments)
      (keeps.release? data.owner)).congr ?_) (keeps.releaseArguments arguments)) fun _ => ?_
    · simp only [Option.toList_none, owned_nil]
      abel
    · exact (keeps.invoke data.function arguments).congr (zero_add _).symm

theorem Keeps.instantiate (keeps : engine.Keeps ledger) (type : Handle) (arguments : Arguments) :
    (engine.instantiate type arguments).Keeps ledger arguments.owns Value.owns 0 := by
  refine .ask fun found => ?_
  cases found with
  | none =>
    dsimp only
    split
    · exact .ask fun _ => keeps.refuseArguments arguments _
    · rename_i absent
      rw [arguments.owns_of_count_eq_zero (by omega)]
      exact keeps.newInstance _
  | some initializer =>
    refine .retain ?_
    have givenUp : Action.Keeps ledger (arguments.owns + {initializer}) (do
        engine.release (.ref initializer)
        engine.releaseArguments arguments) fun _ => 0 :=
      .bind ((keeps.release (.ref initializer)).spend arguments.owns) fun _ =>
        keeps.releaseArguments arguments
    refine .bind ((Attempt.Keeps.guarding (keeps.newInstance _) givenUp).congr (add_zero _))
      fun object => .retainValue ?_
    have initialized : ((engine.invoke initializer (arguments.prepend object)).ensuring
        (engine.release (.ref initializer))).Keeps ledger
          (object.owns + arguments.owns + {initializer}) Value.owns 0 :=
      ((keeps.invoke _ _).ensuring (keeps.release _)).congr (by simp)
    refine .bind ((Attempt.Keeps.guarding initialized (keeps.release object)).congr (by abel))
      fun answer => ?_
    split
    · exact .pure object (add_zero _)
    · exact .ask fun _ => .spend (keeps.release _) (.act (keeps.release object) fun _ => .refuse _)

theorem Keeps.call (keeps : engine.Keeps ledger) (callable : Value) (arguments : Arguments) :
    (engine.call callable arguments).Keeps ledger arguments.owns Value.owns 0 := by
  have refused : (engine.refuseCall callable arguments).Keeps ledger arguments.owns Value.owns 0 :=
    .ask fun _ => keeps.refuseArguments arguments _
  unfold Engine.call
  split
  · refine .ask fun payload => ?_
    split
    · exact keeps.invoke _ arguments
    · exact keeps.callMethod _ arguments
    · exact keeps.instantiate _ arguments
    · split
      · exact keeps.refuseArguments arguments _
      · rename_i absent
        rw [arguments.owns_of_count_eq_zero (by omega)]
        exact .referent _
    · exact refused
  · exact refused

/-- An engine of any number of rounds keeps what its code keeps. -/
theorem keeps_ofRounds {run : Engine Code Host → Code → Arguments → Attempt Code Host Value}
    (keeps : ∀ engine : Engine Code Host, engine.Keeps ledger → ∀ code arguments,
      (run engine code arguments).Keeps ledger arguments.owns Value.owns 0)
    (calls : ∀ rounds callback arguments before outcome after,
      ((ofRounds run rounds).call callback arguments).run before = .ok (outcome, after) →
        ledger.conduct.calls callback arguments before outcome after)
    (hollows : ∀ rounds scene before after value, ledger.Holds scene before value.owns →
      (ofRounds run rounds).CopiesAsNil value before after → ledger.conduct.hollows after.host)
    (wild : ¬ ledger.calm) (rounds : Nat) : (ofRounds run rounds).Keeps ledger := by
  induction rounds with
  | zero =>
    refine ⟨fun code arguments scene before holds => ?_, fun callback arguments scene before holds => ?_,
      fun calm => absurd calm wild, (fun _ _ _ _ _ called => nomatch called), hollows 0⟩
    · intro outcome after ended
      cases ended
    · intro outcome after ended
      cases ended
  | succ rounds inductionHypothesis =>
    exact ⟨keeps _ inductionHypothesis, inductionHypothesis.call, fun calm => absurd calm wild,
      calls rounds, hollows (rounds + 1)⟩

theorem Keeps.callSpecial (keeps : engine.Keeps ledger) (object : Value) (name : String)
    (values : List Value) :
    (engine.callSpecial object name values).Keeps ledger 0 (fun answer => owned answer.toList) 0 := by
  refine .ask fun found => ?_
  cases found with
  | none => exact .pure none rfl
  | some function =>
    refine .retain (.retainAll ?_)
    have called : ((engine.call (.ref function) (Arguments.ofList values)).ensuring
        (engine.release (.ref function))).Keeps ledger (0 + {function} + owned values) Value.owns 0 :=
      ((keeps.call _ _).ensuring (keeps.release _)).congr (by simp [add_comm])
    exact .bind called fun answer => .pure (some answer) (by simp)

/-! ### Calls of attributes -/

theorem keeps_reduce (method : Value) :
    (reduce method : Attempt Code Host Value).Keeps ledger mine Value.owns mine :=
  .bind (.checkMethod _ _) fun _ => .refuse _

theorem Keeps.reduceBy (keeps : engine.Keeps ledger) (method : Value) (arguments : Arguments) :
    (engine.reduceBy method arguments).Keeps ledger arguments.owns Value.owns 0 := by
  refine .bind ((Attempt.Keeps.guarding (.checkMethod _ _) (keeps.releaseArguments arguments)).congr
    (add_zero _)) fun _ => ?_
  refine .bind ((keeps.atMostOne _ arguments).congr (add_zero _).symm) fun protocol => ?_
  split
  · exact .refuse _
  · exact .refuse _
  · exact .refuse _
  · rename_i value _ _
    exact .ask fun _ => .act ((keeps.release value).congr (by simp)) fun _ => .refuse _

theorem Keeps.callRead (keeps : engine.Keeps ledger) (value : Value) (name : String)
    (arguments : Arguments) :
    (engine.callRead value name arguments).Keeps ledger arguments.owns Value.owns 0 := by
  refine .bind ((Attempt.Keeps.guarding (keeps.getAttribute value name)
    (keeps.releaseArguments arguments)).congr (add_zero _)) fun callable => ?_
  exact (keeps.call callable arguments).ensuring (keeps.release callable)

end Engine

end ObjectHeap
