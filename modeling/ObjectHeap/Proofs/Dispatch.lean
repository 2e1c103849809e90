/-
This file says when the call of an unbound method comes to run its function. Whoever made the method,
and whatever its owner is: the first argument by position has to be an instance of the owner, and there
has to be room for one more call. The function then gets the arguments as they are. In all other cases
the arguments are given up and the call is refused, and the function has no part in it. That there is an
owner to be checked is an invariant of the heap.
-/

import ObjectHeap.Proofs.Classes
import ObjectHeap.Proofs.Looking

namespace ObjectHeap

variable {Code Host Other : Type} {heap : Heap Code} {outside : Multiset Handle} {limbo : List Handle}
  {value : Value} {type sub method : Handle} {data : Method} {arguments : Arguments}

/-- The first argument by position is one of the arguments. -/
theorem Arguments.owns_first (arguments : Arguments) {first : Value}
    (given : arguments.first? = some first) {handle : Handle} (member : handle ∈ first.owns) :
    handle ∈ arguments.owns := by
  obtain rfl := List.mem_singleton.mp (mem_owned.mp member)
  exact mem_owned.mpr (List.mem_append_left _ (List.mem_of_head? given))

namespace Heap

/-! ### Arguments that suit a method -/

/-- A value is an instance of a class, or of one that derives from it. -/
def InstanceOf (heap : Heap Code) (value : Value) (type : Handle) : Prop :=
  ∃ object data, value = .ref object ∧ heap.payload? object = some (.object data) ∧
    Relation.ReflTransGen heap.Derives data.type type

theorem InstanceOf.live (instanceOf : heap.InstanceOf value type) :
    ∀ handle ∈ value.owns, heap.isLive handle := by
  obtain ⟨object, data, rfl, held, _⟩ := instanceOf
  intro handle member
  exact Multiset.mem_singleton.mp member ▸ isLive_of_payload? held

/-- The owner of a method is a class, and the first argument by position is an instance of it. -/
def Suits (heap : Heap Code) (method : Method) (arguments : Arguments) : Prop :=
  ∃ first owner, arguments.first? = some first ∧ method.owner = some (.ref owner) ∧
    heap.IsType owner ∧ heap.InstanceOf first owner

/-- As many calls are running as may run. -/
def AtDepthLimit (heap : Heap Code) : Prop :=
  ∃ limit, heap.tracker.limits.maxRecursionDepth = some limit ∧ limit ≤ UInt64.ofNat heap.callDepth

theorem recursionRefusal?_eq_none :
    heap.tracker.recursionRefusal? (UInt64.ofNat heap.callDepth) = none ↔ ¬ heap.AtDepthLimit := by
  unfold Tracker.recursionRefusal? AtDepthLimit
  cases heap.tracker.limits.maxRecursionDepth with
  | none => simp
  | some limit => simp

theorem AtDepthLimit.exists_refusal (full : heap.AtDepthLimit) : ∃ exceeded,
    (Refusal.limit exceeded).kind = .recursionError ∧
      heap.tracker.recursionRefusal? (UInt64.ofNat heap.callDepth) = some exceeded := by
  obtain ⟨limit, limited, reached⟩ := full
  refine ⟨.recursion limit (UInt64.ofNat heap.callDepth + 1), rfl, ?_⟩
  unfold Tracker.recursionRefusal?
  rw [limited]
  exact if_pos reached

/-- Looking at a heap makes no room for calls and takes none. -/
theorem Observed.atDepthLimit_iff {after : Heap Code} (observed : heap.Observed after) :
    after.AtDepthLimit ↔ heap.AtDepthLimit := by
  obtain ⟨handles, _, rfl⟩ := observed
  have books := heap.books_holding handles
  have tracker : (heap.postponing handles).tracker = heap.tracker :=
    (congrArg Heap.tracker books :)
  have depth : (heap.postponing handles).callDepth = heap.callDepth :=
    (congrArg Heap.callDepth books :)
  unfold AtDepthLimit
  rw [tracker, depth]

/-- Whether one entry derives from another one has an answer, and only classes derive from anything. -/
theorem Formed.derives_ok (formed : heap.Formed) (balanced : heap.Balanced outside)
    (live : heap.isLive sub) (sup : Handle) : ∃ answer, heap.derives sub sup = .ok answer ∧
      (answer = true ↔ Relation.ReflTransGen heap.Derives sub sup) := by
  obtain ⟨payload, held⟩ := exists_payload?_of_isLive live
  by_cases isType : heap.IsType sub
  · exact formed.derives_eq balanced isType
  · have nowhere (leads : Relation.ReflTransGen heap.Derives sub sup) : sub = sup := by
      rcases leads.cases_head with same | ⟨_, ⟨data, found, _⟩, _⟩
      · exact same
      · exact absurd ⟨data, found⟩ isType
    refine ⟨decide (sub = sup), ?_, ?_⟩
    · unfold Heap.derives
      by_cases same : sub = sup
      · simp [same]
        rfl
      · rw [if_neg same, heap.read_eq_ok.mpr held, decide_eq_false same]
        cases payload with
        | type data => exact absurd ⟨data, held⟩ isType
        | _ => rfl
    · rw [decide_eq_true_iff]
      exact ⟨fun same => same ▸ .refl, nowhere⟩

theorem instanceType?_eq_some : heap.instanceType? value = .ok (some type) ↔
    ∃ object data, value = .ref object ∧ heap.payload? object = some (.object data) ∧
      data.type = type := by
  constructor
  · intro found
    obtain ⟨payload, asked, answered⟩ := Heap.bind_eq_ok.mp found
    cases value with
    | ref object =>
      obtain ⟨payload, read, same⟩ := Heap.bind_eq_ok.mp asked
      cases same
      cases payload with
      | object data =>
        cases answered
        exact ⟨object, data, rfl, heap.read_eq_ok.mp read, rfl⟩
      | _ => cases answered
    | _ =>
      cases asked
      cases answered
  · rintro ⟨object, data, rfl, held, rfl⟩
    simp only [Heap.instanceType?, Heap.readValue, heap.read_eq_ok.mpr held]
    rfl

/-- What stands in the lineage of a class is a class that its bases lead to. -/
theorem Sound.leads_of_mem_lineage (sound : heap.Sound outside limbo) {sup : Handle}
    (above : sup ∈ heap.lineage sub) : heap.IsType sub ∧ heap.IsType sup ∧
      Relation.ReflTransGen heap.Derives sub sup := by
  obtain ⟨created, found, rfl | further⟩ := mem_lineage.mp above
  · exact ⟨⟨created, found⟩, ⟨created, found⟩, .refl⟩
  · have leads := (sound.formed.mem_ancestors_iff sound.balanced found).mp further
    exact ⟨⟨created, found⟩, sound.formed.isType_of_leads sound.balanced leads, leads.to_reflTransGen⟩

/-- What is asked for as a class is one, or is not taken for one. -/
theorem type?_ok (live : ∀ handle ∈ value.owns, heap.isLive handle) :
    heap.type? value = .ok none ∨
      ∃ type, value = .ref type ∧ heap.IsType type ∧ heap.type? value = .ok (some type) := by
  cases value with
  | ref handle =>
    obtain ⟨payload, held⟩ := exists_payload?_of_isLive (live handle (Multiset.mem_singleton_self _))
    have read := heap.read_eq_ok.mpr held
    cases payload with
    | type data => exact Or.inr ⟨handle, rfl, ⟨data, held⟩, type?_of_isType ⟨data, held⟩⟩
    | _ => exact Or.inl (by simp only [Heap.type?, Heap.readValue, read]; rfl)
  | _ => exact Or.inl rfl

/-- The owner of a method is called something. -/
theorem Sound.ownerName_ok (sound : heap.Sound outside limbo)
    (live : ∀ handle ∈ value.owns, heap.isLive handle) :
    ∃ name, heap.ownerName (some value) = .ok name := by
  rcases type?_ok live with plain | ⟨type, _, ⟨data, held⟩, found⟩
  · exact ⟨_, Heap.bind_eq_ok.mpr ⟨none, plain, sound.typeName_ok live⟩⟩
  · exact ⟨data.name, Heap.bind_eq_ok.mpr ⟨some type, found,
      Heap.bind_eq_ok.mpr ⟨_, heap.read_eq_ok.mpr held, rfl⟩⟩⟩

/-- The receiver and the owner of a method are there. -/
theorem Sound.isLive_of_method (sound : heap.Sound outside limbo)
    (held : heap.payload? method = some (.method data)) :
    ∀ place ∈ owned data.parts, heap.isLive place := by
  intro place member
  refine sound.isLive_of_bothParts held held place ?_
  rw [owned_append]
  exact Multiset.mem_add.mpr (Or.inl member)

variable {shown : Heap Code}

theorem Shows.type? (shows : heap.Shows shown) : shown.type? = heap.type? := by
  funext value
  simp only [Heap.type?, shows.readValue]

theorem Shows.instanceType? (shows : heap.Shows shown) : shown.instanceType? = heap.instanceType? := by
  funext value
  simp only [Heap.instanceType?, shows.readValue]

theorem Shows.derives (shows : heap.Shows shown) : shown.derives = heap.derives := by
  funext sub sup
  simp only [Heap.derives, shows.read]

theorem Shows.ownerName (shows : heap.Shows shown) : shown.ownerName = heap.ownerName := by
  funext owner
  cases owner with
  | none => rfl
  | some owner => simp only [Heap.ownerName, Heap.className, shows.type?, shows.read, shows.typeName]

theorem Shows.function (shows : heap.Shows shown) : shown.function = heap.function := by
  funext handle
  simp only [Heap.function, shows.read]

end Heap

open Heap

/-! ### The check of the first argument -/

namespace Attempt.Looks

/-- A question is answered in the same way wherever the heap shows. -/
theorem answer {α : Type} {question : Heap Code → Except Fault α} (answer : α)
    (answered : ∀ shown, heap.Shows shown → question shown = .ok answer) :
    (ObjectHeap.ask question : Attempt Code Host α).Looks heap [] (.ok answer) :=
  fun world shows => ⟨world.heap,
    Action.bind_eq_ok.mpr ⟨answer, world, ask_eq_ok.mpr ⟨answered _ shows, rfl⟩, rfl⟩, .refl _⟩

/-- After an error nothing comes. -/
theorem bind_error {α β : Type} {attempt : Attempt Code Host α} {next : α → Attempt Code Host β}
    {held : List Value} {error : Error} (looks : attempt.Looks heap held (.error error)) :
    (attempt >>= next).Looks heap held (.error error) :=
  looks.bind (fun _ => .error error) nofun

end Attempt.Looks

/-- Whether a value is an instance of a class is told by the chains of bases. -/
theorem Heap.Sound.looks_isInstance (sound : heap.Sound outside limbo)
    (live : ∀ handle ∈ value.owns, heap.isLive handle) (isType : heap.IsType type) : ∃ answer,
      (isInstance value (.ref type) : Attempt Code Host Bool).Looks heap [] (.ok answer) ∧
        (answer = true ↔ heap.InstanceOf value type) := by
  have found (shown : Heap Code) (shows : heap.Shows shown) :
      shown.type? (.ref type) = .ok (some type) := by
    rw [shows.type?, type?_of_isType isType]
  obtain ⟨created, asked, there⟩ := sound.instanceType?_ok live
  have known (shown : Heap Code) (shows : heap.Shows shown) :
      shown.instanceType? value = .ok created := by
    rw [shows.instanceType?, asked]
  cases created with
  | none =>
    refine ⟨false, .ask _ found (.ask _ known (.pure false)), iff_of_false nofun ?_⟩
    rintro ⟨object, data, same, held, _⟩
    exact nomatch asked.symm.trans (instanceType?_eq_some.mpr ⟨object, data, same, held, rfl⟩)
  | some created =>
    obtain ⟨answer, derived, decides⟩ :=
      sound.formed.derives_ok sound.balanced (there created rfl) type
    refine ⟨answer, .ask _ found (.ask _ known (.answer answer fun shown shows => ?_)),
      decides.trans ⟨fun leads => ?_, ?_⟩⟩
    · rw [shows.derives, derived]
    · obtain ⟨object, data, same, held, rfl⟩ := instanceType?_eq_some.mp asked
      exact ⟨object, data, same, held, leads⟩
    · rintro ⟨object, data, same, held, leads⟩
      cases asked.symm.trans (instanceType?_eq_some.mpr ⟨object, data, same, held, rfl⟩)
      exact leads

/-- The check passes arguments that suit. -/
theorem Heap.Sound.looks_checkReceiver (sound : heap.Sound outside limbo)
    (suits : heap.Suits data arguments) :
    (checkReceiver data arguments : Attempt Code Host Unit).Looks heap [] (.ok ()) := by
  obtain ⟨first, owner, given, owned, isType, instanceOf⟩ := suits
  obtain ⟨answer, looks, decides⟩ := sound.looks_isInstance instanceOf.live isType
  rw [decides.mpr instanceOf] at looks
  unfold checkReceiver
  rw [given, owned]
  exact .bind_ok looks (.pure ())

/-- The check refuses arguments that do not suit a method with an owner. -/
theorem Heap.Sound.looks_checkReceiver_of_unsuited (sound : heap.Sound outside limbo)
    (found : heap.payload? method = some (.method data)) (owned : data.owner.isSome)
    (live : ∀ handle ∈ arguments.owns, heap.isLive handle)
    (unsuited : ¬ heap.Suits data arguments) : ∃ refusal : Refusal, refusal.kind = .typeError ∧
      (checkReceiver data arguments : Attempt Code Host Unit).Looks heap []
        (.error refusal.error) := by
  obtain ⟨owner, owned⟩ := Option.isSome_iff_exists.mp owned
  have there : ∀ handle ∈ owner.owns, heap.isLive handle := by
    intro handle member
    obtain rfl := List.mem_singleton.mp (mem_owned.mp member)
    exact sound.isLive_of_method found handle
      (mem_owned.mpr (List.mem_append_right _ (Option.mem_toList.mpr owned)))
  obtain ⟨function, wraps⟩ := sound.exists_function found
  obtain ⟨name, called⟩ := sound.ownerName_ok there
  have refused (received : Option String) :
      (refuseReceiver data received : Attempt Code Host Unit).Looks heap []
        (.error (Refusal.wrongReceiver function.name name received).error) := by
    refine .ask function (fun shown shows => ?_) (.ask name (fun shown shows => ?_) (.refuse _))
    · rw [shows.function]
      exact Heap.bind_eq_ok.mpr ⟨_, heap.read_eq_ok.mpr wraps, rfl⟩
    · rw [shows.ownerName, owned, called]
  unfold checkReceiver
  cases given : arguments.first? with
  | none => exact ⟨_, rfl, refused none⟩
  | some first =>
    have first_live := fun handle member => live handle (arguments.owns_first given member)
    rw [owned]
    rcases type?_ok there with plain | ⟨type, rfl, isType, _⟩
    · have refuses : (isInstance first owner : Attempt Code Host Bool).Looks heap []
          (.error Refusal.instanceCheckOfNonType.error) := by
        refine .ask none (fun shown shows => ?_) (.refuse _)
        rw [shows.type?, plain]
      exact ⟨_, rfl, refuses.bind_error⟩
    · obtain ⟨answer, looks, decides⟩ := sound.looks_isInstance first_live isType
      cases answer with
      | true =>
        exact absurd ⟨first, type, given, owned, isType, decides.mp rfl⟩ unsuited
      | false =>
        refine ⟨_, rfl, .bind_ok looks (.ask (heap.typeTitle first) (fun shown shows => ?_)
          (refused _))⟩
        rw [shows.typeName, sound.typeName_ok first_live]

/-! ### Calls of unbound methods -/

/-- An attempt goes on with the outcome of its first part. -/
theorem Attempt.run_onError_bind {α β : Type} {attempt : Attempt Code Host α} {outcome : Except Error α}
    {action : Action Code Host Unit} {next : α → Attempt Code Host β} {before between : World Code Host}
    (ended : attempt.run before = .ok (outcome, between)) :
    (attempt.onError action >>= next).run before =
      ((⟨pure outcome⟩ : Attempt Code Host α).onError action >>= next).run between := by
  have first : (attempt.onError action).run before =
      ((⟨pure outcome⟩ : Attempt Code Host α).onError action).run between := Action.bind_of_ok ended
  rw [run_bind, run_bind]
  show ((attempt.onError action).run before >>= _) = _
  rw [first]
  rfl

namespace Engine

section

variable (engine : Engine Code Host) (run : Code → Arguments → Attempt Code Host Value)

/-- Callbacks do not depend on how code is run, apart from how they are called. -/
theorem runCallbacks_congr (release : Value → Action Code Host Unit)
    (callbacks : List (Handle × Value)) :
    ({ engine with run } : Engine Code Host).runCallbacks release callbacks =
      engine.runCallbacks release callbacks := by
  induction callbacks with
  | nil => rfl
  | cons callback rest inductionHypothesis =>
    unfold runCallbacks
    rw [inductionHypothesis]

theorem releaseAll_congr (rounds : Nat) :
    ({ engine with run } : Engine Code Host).releaseAll rounds = engine.releaseAll rounds := by
  induction rounds with
  | zero => rfl
  | succ rounds inductionHypothesis =>
    unfold releaseAll releaseNext tearDown
    simp only [inductionHypothesis, runCallbacks_congr]

/-- What is given up does not depend on how code is run. -/
theorem releaseList_congr (values : List Value) :
    ({ engine with run } : Engine Code Host).releaseList values = engine.releaseList values := by
  have same : ({ engine with run } : Engine Code Host).release = engine.release := by
    funext value
    cases value <;> simp only [release, drain, releaseAll_congr]
  unfold releaseList
  rw [same]

end

variable (engine : Engine Code Host)

/-- However code is run, the call comes to running this code with the arguments, while one more call
is running than before. -/
def RunsCode (engine : Engine Code Host) (callable : Value) (arguments : Arguments) (code : Code)
    (before ready : World Code Host) : Prop :=
  ∀ run, (({ engine with run } : Engine Code Host).call callable arguments).run before =
    ((run code arguments).ensuring
        (modifyHeap fun heap => { heap with callDepth := heap.callDepth - 1 })).run
      { ready with heap := { ready.heap with callDepth := ready.heap.callDepth + 1 } }

/-- However code is run, the call comes to giving up the arguments, one by one, and to a refusal. -/
def RefusesCall (engine : Engine Code Host) (callable : Value) (arguments : Arguments)
    (kind : ExceptionKind) (before ready : World Code Host) : Prop :=
  ∃ refusal : Refusal, refusal.kind = kind ∧ ∀ run,
    (({ engine with run } : Engine Code Host).call callable arguments).run before =
      (do
        engine.releaseArguments arguments
        return .error refusal.error : Action Code Host (Except Error Value)) ready

variable {engine} {before ready : World Code Host} {callable : Value} {code : Code}
  {kind : ExceptionKind}

/-- A call that is refused runs nothing. -/
theorem RefusesCall.not_runsCode (refuses : engine.RefusesCall callable arguments kind before ready) :
    ¬ engine.RunsCode callable arguments code before ready := by
  intro runs
  obtain ⟨refusal, _, refused⟩ := refuses
  let answering : Code → Arguments → Attempt Code Host Value := fun _ _ => pure .nil
  have both := (runs answering).symm.trans (refused answering)
  obtain ⟨_, _, _, answered⟩ := Action.bind_eq_ok.mp both.symm
  cases answered

/-- The call of an unbound method takes the owner for the time of the check, and goes on with what
the check comes to. -/
theorem exists_checked {outcome : Except Error Unit} (enough : 0 < engine.rounds)
    (sound : before.heap.Sound outside limbo)
    (settled : before.heap.releasing = false → before.heap.pending = [])
    (found : before.heap.payload? method = some (.method data)) (unbound : data.receiver = none)
    (looks : (checkReceiver data arguments : Attempt Code Host Unit).Looks before.heap [] outcome) :
    ∃ ready, before.heap.Observed ready ∧ ∀ run,
      (({ engine with run } : Engine Code Host).call (.ref method) arguments).run before =
        (do
          (⟨pure outcome⟩ : Attempt Code Host Unit).onError (engine.releaseArguments arguments)
          ({ engine with run } : Engine Code Host).invoke data.function arguments).run
            { before with heap := ready } := by
  have parts : data.parts = data.owner.toList := by
    rw [Method.parts, unbound]
    rfl
  have there := parts ▸ sound.isLive_of_method found
  have read := before.heap.read_eq_ok.mpr found
  obtain ⟨ready, checked, observed⟩ := looks.ensuring enough there before (sound.shows settled)
  refine ⟨ready, observed, fun run => ?_⟩
  let other : Engine Code Host := { engine with run }
  let held : World Code Host :=
    { before with heap := before.heap.holding (data.owner.toList.filterMap Value.handle?) }
  have taken : (retainAll data.parts : Action Code Host Unit) before = .ok ((), held) := by
    rw [parts]
    exact retainAll_apply before there
  have given : ((checkReceiver data arguments).ensuring (other.release? data.owner)).run held =
      .ok (outcome, { before with heap := ready }) := by
    rw [← releaseList_toList, engine.releaseList_congr run]
    exact checked
  have called : (other.call (.ref method) arguments).run before =
      (do
        ((checkReceiver data arguments).ensuring (other.release? data.owner)).onError
          (other.releaseArguments arguments)
        other.invoke data.function arguments).run held := by
    refine (Attempt.run_ask_bind _ read).trans ((Attempt.run_ask_bind data ?_).trans ?_)
    · exact Heap.bind_eq_ok.mpr ⟨_, read, rfl⟩
    · rw [unbound]
      exact Attempt.run_act_bind taken
  have released : other.releaseArguments arguments = engine.releaseArguments arguments :=
    engine.releaseList_congr run arguments.values
  rw [called, released]
  exact Attempt.run_onError_bind given

/-- A function is run while there is room for one more call. -/
theorem run_invoke {function : Handle} {data : Function Code}
    (found : before.heap.payload? function = some (.function data))
    (room : ¬ before.heap.AtDepthLimit) :
    (engine.invoke function arguments).run before =
      ((engine.run data.code arguments).ensuring
          (modifyHeap fun heap => { heap with callDepth := heap.callDepth - 1 })).run
        { before with heap := { before.heap with callDepth := before.heap.callDepth + 1 } } := by
  refine (Attempt.run_ask_bind _ (before.heap.read_eq_ok.mpr found)).trans ?_
  refine (Attempt.run_act_bind (currentHeap_apply before)).trans ?_
  rw [recursionRefusal?_eq_none.mpr room]
  exact Attempt.run_act_bind rfl

/-- Without room for one more call the arguments are given up. -/
theorem run_invoke_of_refused {function : Handle} {data : Function Code} {exceeded : LimitExceeded}
    (found : before.heap.payload? function = some (.function data))
    (refused : before.heap.tracker.recursionRefusal? (UInt64.ofNat before.heap.callDepth) =
      some exceeded) :
    (engine.invoke function arguments).run before =
      (do
        engine.releaseArguments arguments
        return .error (Refusal.limit exceeded).error : Action Code Host (Except Error Value))
          before := by
  refine (Attempt.run_ask_bind _ (before.heap.read_eq_ok.mpr found)).trans ?_
  refine (Attempt.run_act_bind (currentHeap_apply before)).trans ?_
  rw [refused]
  exact congrFun (Attempt.run_ofAction_bind _ _) before

end Engine

namespace Reached

variable {held : Host → Multiset Handle} {bodies : Code → Arguments → Program Code Host}
  {config : Config} {hand : Multiset Handle} {world : World Code (Recorded Code Host)}

/-- In every heap of a run, the call of an unbound method runs its function, with the arguments as they
are, exactly if the first argument by position is an instance of the class that owns the method and
one more call may run. Otherwise the arguments are given up one by one and nothing runs: the call is
refused with a type error if there is no such argument, and else for the limit. Before that nothing
happens to the heap but that it is looked at. -/
theorem unbound_calls_are_checked (respectful : RespectfulBodies held bodies)
    (reached : Reached held bodies config hand world) (member : heap ∈ heaps world) (host : Other)
    (engine : Engine Code Other) (enough : 0 < engine.rounds)
    (found : heap.payload? method = some (.method data)) (unbound : data.receiver = none)
    (live : ∀ handle ∈ arguments.owns, heap.isLive handle) :
    ∃ function ready, heap.payload? data.function = some (.function function) ∧
      heap.Observed ready ∧
      (engine.RunsCode (.ref method) arguments function.code { heap, host } { heap := ready, host } ↔
        heap.Suits data arguments ∧ ¬ heap.AtDepthLimit) ∧
      (¬ heap.Suits data arguments →
        engine.RefusesCall (.ref method) arguments .typeError { heap, host } { heap := ready, host }) ∧
      (heap.Suits data arguments → heap.AtDepthLimit →
        engine.RefusesCall (.ref method) arguments .recursionError { heap, host }
          { heap := ready, host }) := by
  obtain ⟨⟨outside, limbo, sound⟩, settled⟩ := reached.orderly respectful member
  obtain ⟨function, wraps⟩ := sound.exists_function found
  let before : World Code Other := { heap, host }
  have orderly : before.heap.Sound outside limbo := sound
  -- The receiver is checked before the limit, so an unsuited one is refused even at the limit.
  by_cases suits : heap.Suits data arguments
  · obtain ⟨ready, observed, called⟩ := Engine.exists_checked enough orderly settled found unbound
      (sound.looks_checkReceiver suits)
    have shows := (sound.shows settled).observed observed
    have there : ready.payload? data.function = some (.function function) :=
      (shows.payloads _).trans wraps
    -- The checks only looked at the heap, so the limit is the one from before.
    by_cases full : heap.AtDepthLimit
    · have refuses : engine.RefusesCall (.ref method) arguments .recursionError before
          { heap := ready, host } := by
        obtain ⟨exceeded, kind, refused⟩ := (observed.atDepthLimit_iff.mpr full).exists_refusal
        refine ⟨.limit exceeded, kind, fun run => ?_⟩
        refine ((called run).trans (Engine.run_invoke_of_refused there refused)).trans ?_
        unfold Engine.releaseArguments
        rw [engine.releaseList_congr run]
      exact ⟨function, ready, wraps, observed,
        iff_of_false refuses.not_runsCode fun both => both.2 full,
        fun unsuited => absurd suits unsuited, fun _ _ => refuses⟩
    · have runs : engine.RunsCode (.ref method) arguments function.code before
          { heap := ready, host } := fun run =>
        (called run).trans (Engine.run_invoke there
          fun limited => full (observed.atDepthLimit_iff.mp limited))
      exact ⟨function, ready, wraps, observed, iff_of_true runs ⟨suits, full⟩,
        fun unsuited => absurd suits unsuited, fun _ limited => absurd limited full⟩
  · obtain ⟨refusal, kind, looks⟩ := sound.looks_checkReceiver_of_unsuited found
      (sound.formed.grounded method data found |>.owned unbound) live suits
    obtain ⟨ready, observed, called⟩ := Engine.exists_checked enough orderly settled found unbound looks
    have refuses : engine.RefusesCall (.ref method) arguments .typeError before
        { heap := ready, host } := by
      refine ⟨refusal, kind, fun run => (called run).trans ?_⟩
      have unwinds : ((⟨pure (.error refusal.error)⟩ : Attempt Code Other Unit).onError
            (engine.releaseArguments arguments)).run { heap := ready, host } =
          engine.unwind (.ok refusal.error) arguments.values Except.error { heap := ready, host } := rfl
      exact Attempt.unwind_bind unwinds
    exact ⟨function, ready, wraps, observed, iff_of_false refuses.not_runsCode fun both => suits both.1,
      fun _ => refuses, fun suited => absurd suited suits⟩

/-- A method that belongs to a class is called with an instance of a class that derives from it, and
with a keyword. -/
theorem unbound_call_of_derived_instance : ∃ world : World Unit (Recorded Unit Unit), ∃ data ready,
    ∃ function : Function Unit,
    Reached (fun _ => 0) idleBodies Config.standard ({0} + {1} + {2} + {3} + {4}) world ∧
    world.heap.payload? 3 = some (.method data) ∧ data.receiver = none ∧
    (bodiesEngine idleBodies 2).RunsCode (.ref 3) ⟨[.ref 4], [("key", .int 1)]⟩ function.code
      world ready := by
  obtain ⟨world, reached, seen⟩ : ∃ world : World Unit (Recorded Unit Unit),
      Reached (fun _ => 0) idleBodies Config.standard ({0} + {1} + {2} + {3} + {4}) world ∧
      ((world.heap.method 3).toOption.map fun data => (data.receiver, data.owner),
        (world.heap.tracker.recursionRefusal? (UInt64.ofNat world.heap.callDepth)).isNone,
        (world.heap.instanceType? (.ref 4)).toOption.join.toList.flatMap world.heap.lineage) =
      (some (none, some (.ref 0)), true, [1, 0]) :=
    exists_follow [.newClass "C" [], .newClass "D" [.ref 0], .newFunction "f" none none (),
      .newMethod (.ref 2) .nil (.ref 0), .newInstance (.ref 1)] 8 () _ _ rfl (by decide +kernel)
  obtain ⟨⟨_, _, sound⟩, _⟩ := reached.orderly respectful_idleBodies List.mem_cons_self
  obtain ⟨method, rest⟩ := Prod.mk.inj seen
  obtain ⟨room, line⟩ := Prod.mk.inj rest
  obtain ⟨data, read, parts⟩ := Option.map_eq_some_iff.mp method
  obtain ⟨unbound, owned⟩ := Prod.mk.inj parts
  have found : world.heap.payload? 3 = some (.method data) :=
    Heap.method_eq_ok.mp (eq_ok_of_toOption read)
  obtain ⟨type, listed, above⟩ := List.mem_flatMap.mp (line ▸ by decide :
    0 ∈ (world.heap.instanceType? (.ref 4)).toOption.join.toList.flatMap world.heap.lineage)
  obtain ⟨object, created, same, held, rfl⟩ := instanceType?_eq_some.mp
    (eq_ok_of_toOption (Option.join_eq_some_iff.mp (Option.mem_toList.mp listed)))
  cases same
  obtain ⟨_, isType, leads⟩ := sound.leads_of_mem_lineage above
  have live : ∀ handle ∈ (Arguments.mk [.ref 4] [("key", .int 1)]).owns, world.heap.isLive handle := by
    intro handle member
    cases List.mem_singleton.mp member
    exact isLive_of_payload? held
  have spare : ¬ world.heap.AtDepthLimit :=
    recursionRefusal?_eq_none.mp (Option.isNone_iff_eq_none.mp room)
  obtain ⟨function, ready, _, _, runs, _⟩ := unbound_calls_are_checked respectful_idleBodies reached
    List.mem_cons_self world.host (bodiesEngine idleBodies 2) (by decide) found unbound live
  exact ⟨world, data, _, function, reached, found, unbound,
    runs.mpr ⟨⟨_, 0, rfl, owned, isType, _, created, rfl, held, leads⟩, spare⟩⟩

end Reached

end ObjectHeap
