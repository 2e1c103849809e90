/-
This file says what it takes for an operation to keep to a rule, whatever the rule is. A discipline
tells which actions keep to it; it has to allow what follows from allowed actions, and questions that
can be asked whatever the heap keeps aside. If it also allows the few changes that all operations are
made of, to give up a reference, to allocate, to store, to call a function and to collect, then it
allows every operation, and every program that asks for operations. The rules go level by level, as
the operations do.
-/

import ObjectHeap.Proofs.Host

namespace ObjectHeap

variable {Code Host α β : Type}

/-- What a heap keeps aside and no question minds: the references that wait for their release, how
many allocations were counted, how many calls are running, and how many may be. -/
structure Aside where
  waiting : List Handle
  counted : UInt64
  depth : Nat
  depthLimit : Option UInt64

namespace Heap

/-- A heap that keeps something else aside. -/
def beside (heap : Heap Code) (aside : Aside) : Heap Code :=
  { heap with
    pending := aside.waiting
    sinceCollection := aside.counted
    callDepth := aside.depth
    tracker :=
      { heap.tracker with
        limits := { heap.tracker.limits with maxRecursionDepth := aside.depthLimit } } }

variable (heap : Heap Code) (aside : Aside)

theorem read_beside : (heap.beside aside).read = heap.read := rfl

theorem findAlong_beside (name : String) (types : List Handle) :
    (heap.beside aside).findAlong name types = heap.findAlong name types := by
  induction types with
  | nil => rfl
  | cons type rest inductionHypothesis => simp only [findAlong, read_beside, inductionHypothesis]

theorem find_beside (type : Handle) (name : String) :
    (heap.beside aside).find type name = heap.find type name := by
  simp only [find, read_beside, findAlong_beside]

theorem findFunction_beside (type : Handle) (name : String) :
    (heap.beside aside).findFunction type name = heap.findFunction type name := by
  simp only [findFunction, find_beside, read_beside]

theorem special?_beside (value : Value) (name : String) :
    (heap.beside aside).special? value name = heap.special? value name :=
  @special?_congr _ heap (heap.beside aside) (fun _ => rfl) value name

end Heap

/-! ### Disciplines -/

/-- A rule that actions may keep to. It allows what looks at no more of the heap than can be seen
whatever the heap keeps aside, to take a reference, and to go from one allowed action to another. -/
structure Discipline (Code Host : Type) where
  allows : {α : Type} → Action Code Host α → Prop
  pure : ∀ {α : Type} (answer : α), allows (Pure.pure answer)
  stop : ∀ {α : Type} (fault : Fault), allows (ObjectHeap.stop fault : Action Code Host α)
  bind : ∀ {α β : Type} {first : Action Code Host α} {next : α → Action Code Host β},
    allows first → (∀ answer, allows (next answer)) → allows (first >>= next)
  look : ∀ {α : Type} {next : Heap Code → Action Code Host α},
    (∀ heap aside, next (heap.beside aside) = next heap) → (∀ heap, allows (next heap)) →
      allows (currentHeap >>= next)
  retain : ∀ handle, allows (ObjectHeap.retain handle : Action Code Host Unit)

variable {discipline : Discipline Code Host}

/-- An action keeps to a discipline. -/
def Action.Obeys (action : Action Code Host α) (discipline : Discipline Code Host) : Prop :=
  discipline.allows action

/-- An attempt keeps to a discipline. -/
def Attempt.Obeys (attempt : Attempt Code Host α) (discipline : Discipline Code Host) : Prop :=
  attempt.run.Obeys discipline

/-- A copy keeps to a discipline, whatever is recorded. -/
def Copying.Obeys (copying : Copying Code Host α) (discipline : Discipline Code Host) : Prop :=
  ∀ memo, (copying.run memo).Obeys discipline

/-- An engine keeps to a discipline in all that operations are made of. -/
structure Engine.Obeys (engine : Engine Code Host) (discipline : Discipline Code Host) : Prop where
  release : ∀ value, (engine.release value).Obeys discipline
  allocate : ∀ payload : Payload Code, payload.kind ≠ .function →
    (engine.allocate payload).Obeys discipline
  allocateMethod : ∀ function receiver owner,
    (engine.allocateMethod function receiver owner).Obeys discipline
  newFunction : ∀ name qualifiedName doc code,
    (engine.newFunction name qualifiedName doc code).Obeys discipline
  register : ∀ target weakref,
    (modifyHeap (·.register target weakref) : Action Code Host Unit).Obeys discipline
  append : ∀ list item, (engine.append list item).Obeys discipline
  setAttribute : ∀ value name content, (engine.setAttribute value name content).Obeys discipline
  invoke : ∀ function arguments, (engine.invoke function arguments).Obeys discipline
  collect : engine.collect.Obeys discipline
  relieve : (changeHeap fun heap => (heap.unraisable, { heap with unraisable := [] }) :
    Action Code Host (List Error)).Obeys discipline

namespace Action.Obeys

variable {first : Action Code Host α} {next : α → Action Code Host β}

theorem pure (answer : α) : (Pure.pure answer : Action Code Host α).Obeys discipline :=
  discipline.pure answer

theorem bind (begins : first.Obeys discipline) (rest : ∀ answer, (next answer).Obeys discipline) :
    (first >>= next).Obeys discipline :=
  discipline.bind begins rest

theorem currentHeap {next : Heap Code → Action Code Host β}
    (same : ∀ heap aside, next (heap.beside aside) = next heap)
    (rest : ∀ heap, (next heap).Obeys discipline) :
    (ObjectHeap.currentHeap >>= next).Obeys discipline :=
  discipline.look same rest

theorem ask {question : Heap Code → Except Fault α}
    (same : ∀ heap aside, question (heap.beside aside) = question heap) :
    (ObjectHeap.ask question : Action Code Host α).Obeys discipline := by
  refine .currentHeap (fun heap aside => by rw [same]) fun heap => ?_
  cases question heap with
  | ok answer => exact .pure answer
  | error fault => exact discipline.stop fault

theorem forM {each : α → Action Code Host Unit} (obeys : ∀ item, (each item).Obeys discipline) :
    ∀ items : List α, (items.forM each).Obeys discipline
  | [] => .pure ()
  | item :: rest => .bind (obeys item) fun _ => forM obeys rest

theorem retain (handle : Handle) :
    (ObjectHeap.retain handle : Action Code Host Unit).Obeys discipline :=
  discipline.retain handle

theorem retainValue (value : Value) :
    (ObjectHeap.retainValue value : Action Code Host Unit).Obeys discipline := by
  cases value with
  | ref handle => exact .retain handle
  | _ => exact .pure ()

theorem retainAll (values : List Value) :
    (ObjectHeap.retainAll values : Action Code Host Unit).Obeys discipline :=
  .forM .retainValue values

theorem retainItems (value : Value) :
    (ObjectHeap.retainItems value : Action Code Host (Option (List Value))).Obeys discipline :=
  .bind (.ask fun _ _ => rfl) fun items => by
    cases items with
    | none => exact .pure none
    | some items => exact .bind (.retainAll items) fun _ => .pure (some items)

end Action.Obeys

namespace Attempt.Obeys

variable {attempt : Attempt Code Host α} {next : α → Attempt Code Host β}

theorem pure (answer : α) : (Pure.pure answer : Attempt Code Host α).Obeys discipline :=
  Action.Obeys.pure _

theorem fail (error : Error) : (Attempt.fail error : Attempt Code Host α).Obeys discipline :=
  Action.Obeys.pure _

theorem refuse (refusal : Refusal) :
    (Attempt.refuse refusal : Attempt Code Host α).Obeys discipline :=
  .fail _

theorem bind (begins : attempt.Obeys discipline) (rest : ∀ answer, (next answer).Obeys discipline) :
    (attempt >>= next).Obeys discipline :=
  Action.Obeys.bind begins fun outcome => by
    cases outcome with
    | ok answer => exact rest answer
    | error error => exact .pure _

theorem ofAction {action : Action Code Host α} (obeys : action.Obeys discipline) :
    (Attempt.ofAction action).Obeys discipline :=
  Action.Obeys.bind obeys fun _ => .pure _

/-- An attempt goes on after an action in any case. -/
theorem act {action : Action Code Host α} (obeys : action.Obeys discipline)
    (rest : ∀ answer, (next answer).Obeys discipline) :
    (Attempt.ofAction action >>= next).Obeys discipline :=
  .bind (.ofAction obeys) rest

theorem ask {question : Heap Code → Except Fault α}
    (same : ∀ heap aside, question (heap.beside aside) = question heap)
    (rest : ∀ answer, (next answer).Obeys discipline) :
    (ObjectHeap.ask question >>= next).Obeys discipline :=
  .act (.ask same) rest

theorem answer {question : Heap Code → Except Fault α}
    (same : ∀ heap aside, question (heap.beside aside) = question heap) :
    (ObjectHeap.ask question : Attempt Code Host α).Obeys discipline :=
  .ofAction (.ask same)

/-- An attempt that begins by looking at the heap. -/
theorem ofCurrentHeap {next : Heap Code → Attempt Code Host β}
    (obeys : (ObjectHeap.currentHeap >>= fun heap => (next heap).run :
      Action Code Host (Except Error β)).Obeys discipline) :
    (ObjectHeap.currentHeap >>= next).Obeys discipline := by
  unfold Attempt.Obeys
  exact (run_ofAction_bind ObjectHeap.currentHeap next).symm ▸ obeys

theorem currentHeap {next : Heap Code → Attempt Code Host β}
    (same : ∀ heap aside, next (heap.beside aside) = next heap)
    (rest : ∀ heap, (next heap).Obeys discipline) :
    (ObjectHeap.currentHeap >>= next).Obeys discipline :=
  .ofCurrentHeap (.currentHeap (fun heap aside => congrArg Attempt.run (same heap aside)) rest)

theorem modifyHeap {change : Heap Code → Heap Code}
    (obeys : (ObjectHeap.modifyHeap change : Action Code Host Unit).Obeys discipline) :
    (ObjectHeap.modifyHeap change : Attempt Code Host Unit).Obeys discipline :=
  .ofAction obeys

theorem retainValue (value : Value) :
    (ObjectHeap.retainValue value : Attempt Code Host Unit).Obeys discipline := by
  cases value with
  | ref handle => exact .ofAction (.retain handle)
  | _ => exact .ofAction (.pure ())

theorem retainAll {next : Unit → Attempt Code Host β} (values : List Value)
    (rest : ∀ answer, (next answer).Obeys discipline) :
    (ObjectHeap.retainAll values >>= next).Obeys discipline :=
  .act (Action.Obeys.retainAll values) rest

theorem ensuring {action : Action Code Host Unit} (begins : attempt.Obeys discipline)
    (obeys : action.Obeys discipline) : (attempt.ensuring action).Obeys discipline :=
  Action.Obeys.bind begins fun outcome => .bind obeys fun _ => .pure outcome

theorem onError {action : Action Code Host Unit} (begins : attempt.Obeys discipline)
    (obeys : action.Obeys discipline) : (attempt.onError action).Obeys discipline :=
  Action.Obeys.bind begins fun outcome => by
    cases outcome with
    | ok answer => exact .pure _
    | error error => exact .bind obeys fun _ => .pure _

/-- A value that is there is answered with a reference of its own. -/
theorem share (value : Value) :
    (do ObjectHeap.retainValue value; return value : Attempt Code Host Value).Obeys discipline :=
  .bind (.retainValue value) fun _ => .pure value

theorem shareEntry (handle : Handle) :
    (do ObjectHeap.retain handle; return .ref handle : Attempt Code Host Value).Obeys discipline :=
  .act (Action.Obeys.retain handle) fun _ => .pure (Value.ref handle)

theorem refuseAttribute (value : Value) (name : String) :
    (ObjectHeap.refuseAttribute value name : Attempt Code Host α).Obeys discipline :=
  .ask (fun _ _ => rfl) fun _ => .refuse _

end Attempt.Obeys

namespace Engine

/-- Callbacks are called one after the other, whatever it takes to give something up. -/
theorem obeys_runCallbacks {engine : Engine Code Host}
    (calls : ∀ callback arguments, (engine.callBack callback arguments).Obeys discipline)
    {release : Value → Action Code Host Unit} (releases : ∀ value, (release value).Obeys discipline)
    (unraisable : ∀ error, (reportUnraisable error : Action Code Host Unit).Obeys discipline)
    (callbacks : List (Handle × Value)) : (engine.runCallbacks release callbacks).Obeys discipline := by
  induction callbacks with
  | nil => exact .pure ()
  | cons pair rest inductionHypothesis =>
    refine .bind (calls _ _) fun outcome => .bind (releases _) fun _ => ?_
    cases outcome with
    | ok answer => exact .bind (releases _) fun _ => inductionHypothesis
    | error error => exact .bind (unraisable error) fun _ => inductionHypothesis

end Engine

/-! ### Questions -/

namespace Attempt.Obeys

theorem baseHandles (bases : List Value) :
    (baseHandles bases : Attempt Code Host (List Handle)).Obeys discipline := by
  induction bases with
  | nil => exact .pure []
  | cons base rest inductionHypothesis =>
    refine .ask (fun _ _ => rfl) fun found => ?_
    cases found with
    | none => exact .ask (fun _ _ => rfl) fun _ => .refuse _
    | some handle => exact .bind inductionHypothesis fun _ => .pure _

theorem methodFunction (function : Value) :
    (methodFunction function : Attempt Code Host Handle).Obeys discipline := by
  cases function with
  | ref handle =>
    refine .ask (fun _ _ => rfl) fun payload => ?_
    cases payload with
    | function data => exact .pure handle
    | _ => exact .refuse _
  | _ => exact .refuse _

theorem isSubtype (sub sup : Value) :
    (isSubtype sub sup : Attempt Code Host Bool).Obeys discipline := by
  refine .ask (fun _ _ => rfl) fun sub => ?_
  cases sub with
  | none => exact .refuse _
  | some sub =>
    refine .ask (fun _ _ => rfl) fun sup => ?_
    cases sup with
    | none => exact .refuse _
    | some sup => exact .answer fun _ _ => rfl

theorem isInstance (value type : Value) :
    (isInstance value type : Attempt Code Host Bool).Obeys discipline := by
  refine .ask (fun _ _ => rfl) fun found => ?_
  cases found with
  | none => exact .refuse _
  | some sup =>
    refine .ask (fun _ _ => rfl) fun found => ?_
    cases found with
    | none => exact .pure _
    | some sub => exact .ofAction (.ask fun _ _ => rfl)

theorem refuseReceiver (method : Method) (received : Option String) :
    (refuseReceiver method received : Attempt Code Host Unit).Obeys discipline :=
  .ask (fun _ _ => rfl) fun _ => .ask (fun _ _ => by cases method.owner <;> rfl) fun _ => .refuse _

theorem checkReceiver (method : Method) (arguments : Arguments) :
    (checkReceiver method arguments : Attempt Code Host Unit).Obeys discipline := by
  unfold ObjectHeap.checkReceiver
  split
  · exact .refuseReceiver method none
  · refine .bind (.isInstance _ _) fun belongs => ?_
    cases belongs with
    | true => exact .pure ()
    | false => exact .ask (fun _ _ => rfl) fun _ => .refuseReceiver method _
  · exact .pure ()

theorem referent (weakref : Handle) :
    (referent weakref : Attempt Code Host Value).Obeys discipline := by
  refine .ofAction (.bind (.ask fun _ _ => rfl) fun payload => ?_)
  split
  · refine .currentHeap (fun _ _ => rfl) fun heap => ?_
    split
    · exact .bind (.retain _) fun _ => .pure _
    · exact .pure _
  · exact .pure _

theorem weakrefText (handle : Handle) (weakref : Weakref) :
    (weakrefText handle weakref : Attempt Code Host String).Obeys discipline := by
  refine .currentHeap (fun _ _ => rfl) fun heap => ?_
  dsimp only
  split
  · exact .ask (fun _ _ => rfl) fun _ => .pure _
  · exact .pure _

theorem methodTarget (method : Method) :
    (methodTarget method : Attempt Code Host String).Obeys discipline := by
  refine .ask (fun _ _ => rfl) fun data => .currentHeap (fun _ _ => rfl) fun heap => ?_
  split
  · exact .ask (fun _ _ => by cases method.owner <;> rfl) fun _ => .pure _
  · exact .pure _

theorem checkMethod (operation : String) (value : Value) :
    (checkMethod operation value : Attempt Code Host Unit).Obeys discipline := by
  refine .ask (fun _ _ => rfl) fun found => ?_
  cases found with
  | none => exact .ask (fun _ _ => rfl) fun _ => .refuse _
  | some method => exact .pure ()

theorem reduce (method : Value) : (reduce method : Attempt Code Host Value).Obeys discipline :=
  .bind (.checkMethod _ _) fun _ => .refuse _

/-! ### Item by item -/

section

variable {equal : Value → Value → Attempt Code Host Bool}
  {order : Value → Value → Attempt Code Host Ordering}
  (equals : ∀ left right, (equal left right).Obeys discipline)
  (orders : ∀ left right, (order left right).Obeys discipline)

include equals

theorem allEqual (lefts rights : List Value) : (allEqual equal lefts rights).Obeys discipline := by
  induction lefts generalizing rights with
  | nil => cases rights <;> exact .pure _
  | cons left lefts inductionHypothesis =>
    cases rights with
    | nil => exact .pure _
    | cons right rights =>
      refine .bind (equals left right) fun same => ?_
      split
      · exact inductionHypothesis rights
      · exact .pure _

include orders

theorem itemsOrder (lefts rights : List Value) :
    (Engine.itemsOrder equal order lefts rights).Obeys discipline := by
  induction lefts generalizing rights with
  | nil => exact .pure _
  | cons left lefts inductionHypothesis =>
    cases rights with
    | nil => exact .pure _
    | cons right rights =>
      refine .bind (equals left right) fun same => ?_
      split
      · exact inductionHypothesis rights
      · exact orders left right

end

theorem allHashes {hash : Value → Attempt Code Host Int64}
    (hashes : ∀ value, (hash value).Obeys discipline) (items : List Value) :
    (allHashes hash items).Obeys discipline := by
  induction items with
  | nil => exact .pure _
  | cons item items inductionHypothesis =>
    exact .bind (hashes item) fun _ => .bind inductionHypothesis fun _ => .pure _

theorem allTextsInside {render : Value → Attempt Code Host String}
    (renders : ∀ value, (render value).Obeys discipline) (items : List Value) :
    (allTextsInside render items).Obeys discipline := by
  induction items with
  | nil => exact .pure _
  | cons item items inductionHypothesis =>
    exact .bind (renders item) fun _ => .bind inductionHypothesis fun _ => .pure _

end Attempt.Obeys

/-! ### Creations -/

namespace Engine.Obeys

variable {engine : Engine Code Host} (obeys : engine.Obeys discipline)

include obeys

theorem release? (value : Option Value) : (engine.release? value).Obeys discipline := by
  cases value with
  | none => exact .pure ()
  | some value => exact obeys.release value

theorem releaseList (values : List Value) : (engine.releaseList values).Obeys discipline :=
  .forM obeys.release values

theorem newString (text : String) : (engine.newString text).Obeys discipline :=
  obeys.allocate _ nofun

theorem newInstance (type : Value) : (engine.newInstance type).Obeys discipline := by
  refine .ask (fun _ _ => rfl) fun found => ?_
  cases found with
  | none => exact .ask (fun _ _ => rfl) fun _ => .refuse _
  | some handle => exact .act (.retain handle) fun _ => obeys.allocate _ nofun

theorem newClass (name : String) (bases : List Value) :
    (engine.newClass name bases).Obeys discipline := by
  refine .bind (.baseHandles bases) fun handles => .ask (fun _ _ => rfl) fun _ =>
    .bind ?_ fun _ => obeys.allocate _ nofun
  induction handles with
  | nil => exact .pure ()
  | cons handle rest inductionHypothesis =>
    exact .act (Action.Obeys.retain handle) fun _ => inductionHypothesis

theorem newWeakref (target : Value) (callback : Option Value) :
    (engine.newWeakref target callback).Obeys discipline := by
  refine .ask (fun _ _ => rfl) fun found => ?_
  cases found with
  | none => exact .ask (fun _ _ => rfl) fun _ => .act (obeys.release? _) fun _ => .refuse _
  | some handle =>
    refine .bind (obeys.allocate _ nofun) fun value => .ask (fun _ _ => rfl) fun _ => ?_
    cases value with
    | ref weakref => exact .act (obeys.register handle weakref) fun _ => .pure _
    | _ => exact .pure _

/-! ### Methods -/

theorem newMethod (function receiver owner : Value) :
    (engine.newMethod function receiver owner).Obeys discipline := by
  refine .bind (.methodFunction function) fun function => ?_
  split
  · exact .refuse _
  · exact .bind (.retainValue receiver) fun _ => .bind (.retainValue owner) fun _ =>
      obeys.allocateMethod _ _ _

theorem bindMethod (method : Handle) (object type : Value) :
    (engine.bindMethod method object type).Obeys discipline := by
  refine .ask (fun _ _ => rfl) fun data => ?_
  cases data.receiver with
  | some receiver => exact .shareEntry method
  | none =>
    have going (owner : Option Value) (applies : Bool) : (if applies then do
          retainValue object
          engine.allocateMethod data.function object.present? owner
        else do
          engine.release? owner
          retain method
          return .ref method : Attempt Code Host Value).Obeys discipline := by
      cases applies with
      | true => exact .bind (.retainValue object) fun _ => obeys.allocateMethod _ _ _
      | false => exact .act (obeys.release? _) fun _ => .shareEntry method
    refine .retainAll _ fun _ => ?_
    cases data.owner with
    | none => exact going none true
    | some owner =>
      dsimp only
      split
      · exact going (some owner) true
      · exact .bind (.onError (.isSubtype type owner) (obeys.release owner))
          (going (some owner))

theorem bind (value object type : Value) : (engine.bind value object type).Obeys discipline := by
  refine .ask (fun _ _ => rfl) fun method => ?_
  cases method with
  | none => exact .share value
  | some method => exact obeys.bindMethod method object type

/-! ### Calls -/

theorem refuseArguments (arguments : Arguments) (refusal : Refusal) :
    (engine.refuseArguments arguments refusal : Attempt Code Host α).Obeys discipline :=
  .act (obeys.releaseList _) fun _ => .refuse refusal

theorem refuseCall (callable : Value) (arguments : Arguments) :
    (engine.refuseCall callable arguments).Obeys discipline :=
  .ask (fun _ _ => rfl) fun _ => obeys.refuseArguments arguments _

theorem callMethod (method : Handle) (arguments : Arguments) :
    (engine.callMethod method arguments).Obeys discipline := by
  refine .ask (fun _ _ => rfl) fun data => .act (.retainAll _) fun _ => ?_
  split
  · exact .act (obeys.release? _) fun _ => obeys.invoke _ _
  · refine .bind (.onError (.ensuring (.checkReceiver _ _) (obeys.release? _))
      (obeys.releaseList _)) fun _ => obeys.invoke _ _

theorem instantiate (type : Handle) (arguments : Arguments) :
    (engine.instantiate type arguments).Obeys discipline := by
  refine .ask (fun heap aside => heap.findFunction_beside aside type _) fun found => ?_
  cases found with
  | none =>
    dsimp only
    split
    · exact .ask (fun _ _ => rfl) fun _ => obeys.refuseArguments arguments _
    · exact obeys.newInstance _
  | some initializer =>
    refine .act (.retain initializer) fun _ => .bind (.onError (obeys.newInstance _)
      (.bind (obeys.release _) fun _ => obeys.releaseList _)) fun object => ?_
    refine .bind (.retainValue object) fun _ => .bind (.onError (.ensuring (obeys.invoke _ _)
      (obeys.release _)) (obeys.release _)) fun answer => ?_
    split
    · exact .pure _
    · exact .ask (fun _ _ => rfl) fun _ => .act (obeys.release _) fun _ =>
        .act (obeys.release _) fun _ => .refuse _

theorem call (callable : Value) (arguments : Arguments) :
    (engine.call callable arguments).Obeys discipline := by
  cases callable with
  | ref handle =>
    refine .ask (fun _ _ => rfl) fun payload => ?_
    split
    · exact obeys.invoke _ _
    · exact obeys.callMethod _ _
    · exact obeys.instantiate _ _
    · split
      · exact obeys.refuseArguments arguments _
      · exact .referent _
    · exact obeys.refuseCall _ _
  | _ => exact obeys.refuseCall _ _

/-! ### Signatures -/

theorem withoutKeywords (callable : String) (arguments : Arguments) :
    (engine.withoutKeywords callable arguments).Obeys discipline := by
  unfold Engine.withoutKeywords
  split
  · exact .pure arguments
  · exact obeys.refuseArguments arguments _

theorem atMostOne (callable : String) (arguments : Arguments) :
    (engine.atMostOne callable arguments).Obeys discipline := by
  refine .bind (obeys.withoutKeywords callable arguments) fun passed => ?_
  split
  · exact .pure none
  · exact .pure _
  · exact .act (obeys.releaseList _) fun _ => .refuse _

theorem exactlyOne (callable : String) (arguments : Arguments) :
    (engine.exactlyOne callable arguments).Obeys discipline := by
  unfold Engine.exactlyOne
  split
  · exact .pure _
  · exact obeys.refuseArguments arguments _

theorem methodOfArguments (arguments : Arguments) :
    (engine.methodOfArguments arguments).Obeys discipline := by
  refine .bind (obeys.withoutKeywords "method" arguments) fun passed => ?_
  split
  · exact .ensuring (obeys.newMethod _ _ _) (obeys.releaseList _)
  · exact .ensuring (obeys.newMethod _ _ _) (obeys.releaseList _)
  · refine .act (obeys.releaseList _) fun _ => ?_
    split
    · exact .refuse _
    · exact .refuse _

/-! ### Attributes -/

theorem functionAttribute (function : Handle) (name : String) :
    (engine.functionAttribute function name).Obeys discipline := by
  refine .ask (fun _ _ => rfl) fun payload => ?_
  split
  · split
    · exact obeys.newString _
    · exact obeys.newString _
    · split
      · exact obeys.newString _
      · exact .pure _
    · split
      · exact .share _
      · exact .refuse _
  · exact .fail _

theorem methodAttribute (method : Handle) (name : String) :
    (engine.methodAttribute method name).Obeys discipline := by
  refine .ask (fun _ _ => rfl) fun data => ?_
  split
  · exact .shareEntry _
  · exact .shareEntry _
  · exact .share _
  · exact .share _
  · exact .share _
  · exact obeys.functionAttribute _ _

theorem readThrough (found object type : Value) :
    (engine.readThrough found object type).Obeys discipline := by
  refine .ask (fun _ _ => rfl) fun payload => ?_
  split
  · exact obeys.newMethod _ _ _
  · exact obeys.bindMethod _ _ _
  · exact .share found

theorem instanceTypeAttribute (object : Value) (type : Handle) (name : String) :
    (engine.instanceTypeAttribute object type name).Obeys discipline := by
  unfold Engine.instanceTypeAttribute
  split
  · exact .shareEntry type
  · refine .ask (fun heap aside => heap.find_beside aside type name) fun found => ?_
    split
    · exact obeys.readThrough _ _ _
    · exact .ask (fun _ _ => rfl) fun _ => .refuse _

theorem typeAttribute (type : Handle) (name : String) :
    (engine.typeAttribute type name).Obeys discipline := by
  unfold Engine.typeAttribute
  split
  · exact .ask (fun _ _ => rfl) fun _ => obeys.newString _
  · refine .ask (fun heap aside => heap.find_beside aside type name) fun found => ?_
    split
    · exact obeys.readThrough _ _ _
    · exact .ask (fun _ _ => rfl) fun _ => .refuse _

theorem getAttribute (value : Value) (name : String) :
    (engine.getAttribute value name).Obeys discipline := by
  unfold Engine.getAttribute
  split
  · refine .ask (fun _ _ => rfl) fun payload => ?_
    split
    · split
      · exact .share _
      · exact obeys.instanceTypeAttribute _ _ _
    · exact obeys.typeAttribute _ _
    · exact obeys.methodAttribute _ _
    · exact obeys.functionAttribute _ _
    · exact .refuseAttribute _ _
  · exact .refuseAttribute _ _

/-! ### Comparisons -/

theorem callSpecial (object : Value) (name : String)
    (values : List Value) : (engine.callSpecial object name values).Obeys discipline := by
  refine .ask (fun heap aside => heap.special?_beside aside object name) fun found => ?_
  cases found with
  | none => exact .pure none
  | some function =>
    exact .act (Action.Obeys.retain function) fun _ => .retainAll values fun _ =>
      .bind (.ensuring (obeys.call _ _) (obeys.release _)) fun _ => .pure _

section

variable {equal : Value → Value → Attempt Code Host Bool}
  {order : Value → Value → Attempt Code Host Ordering}
  (equals : ∀ left right, (equal left right).Obeys discipline)
  (orders : ∀ left right, (order left right).Obeys discipline)

include equals

theorem methodEquals (method : Handle) (value : Value) :
    (engine.methodEquals equal method value).Obeys discipline := by
  refine .ask (fun _ _ => rfl) fun found => ?_
  cases found with
  | none => exact .pure _
  | some other =>
    dsimp only
    split
    · exact .pure _
    · refine .ask (fun _ _ => rfl) fun counter => .ask (fun _ _ => rfl) fun otherCounter => ?_
      split
      · exact .pure _
      · refine .ask (fun _ _ => rfl) fun left => .retainAll _ fun _ =>
          .ask (fun _ _ => rfl) fun right => .retainAll _ fun _ =>
            .bind (.ensuring ?_ (obeys.releaseList _)) fun _ => .pure _
        split
        · exact .pure _
        · exact equals _ _
        · exact .pure _

theorem methodsEqual (left right : Value) :
    (engine.methodsEqual equal left right).Obeys discipline := by
  refine .ask (fun _ _ => rfl) fun found => ?_
  cases found with
  | none => exact .pure _
  | some method => exact obeys.methodEquals equals method right

theorem contentsEqual (left right : Value) :
    (engine.contentsEqual equal left right).Obeys discipline := by
  unfold Engine.contentsEqual
  split
  · refine .ask (fun _ _ => rfl) fun left => .ask (fun _ _ => rfl) fun right => ?_
    split
    · exact .pure _
    · split
      · exact .pure _
      · refine .retainAll _ fun _ => .ensuring ?_ (obeys.releaseList _)
        split
        · exact .allEqual equals _ _
        · exact .pure _
  · exact .pure _

include orders

theorem contentsOrder (left right : Value) :
    (engine.contentsOrder equal order left right).Obeys discipline := by
  refine .ask (fun _ _ => rfl) fun payload => .ask (fun _ _ => rfl) fun other => ?_
  split
  · exact .pure _
  · split
    · exact .retainAll _ fun _ =>
        .ensuring (.itemsOrder equals orders _ _) (obeys.releaseList _)
    · exact .ask (fun _ _ => rfl) fun _ => .ask (fun _ _ => rfl) fun _ => .refuse _

omit equals in
theorem methodOrder (method other : Handle) :
    (engine.methodOrder order method other).Obeys discipline := by
  refine .ask (fun _ _ => rfl) fun counter => .ask (fun _ _ => rfl) fun otherCounter => ?_
  split
  · exact .pure _
  · refine .ask (fun _ _ => rfl) fun left => .retainAll _ fun _ =>
      .ask (fun _ _ => rfl) fun right => .retainAll _ fun _ => .ensuring ?_ (obeys.releaseList _)
    split
    · exact .pure _
    · exact .pure _
    · exact .pure _
    · split
      · exact .pure _
      · exact orders _ _

end

theorem specialEqual (left right : Value) : (engine.specialEqual left right).Obeys discipline := by
  refine .bind (obeys.callSpecial left "__eq__" [left, right]) fun answer => ?_
  cases answer with
  | none => exact .pure _
  | some answer => exact .ask (fun _ _ => rfl) fun _ => .act (obeys.release answer) fun _ => .pure _

theorem equalWithin (levels : Nat) (left right : Value) :
    (engine.equalWithin levels left right).Obeys discipline := by
  induction levels generalizing left right with
  | zero => exact .refuse .tooDeep
  | succ levels inductionHypothesis =>
    unfold Engine.equalWithin
    split
    · exact .pure _
    · dsimp only
      split
      on_goal 1 => split
      · exact .pure _
      all_goals
        refine .bind (obeys.methodsEqual inductionHypothesis left right) fun answer => ?_
        split
        · exact .pure _
        refine .bind (obeys.methodsEqual inductionHypothesis right left) fun answer => ?_
        split
        · exact .pure _
        refine .bind (obeys.specialEqual left right) fun answer => ?_
        split
        · exact .pure _
        refine .bind (obeys.specialEqual right left) fun answer => ?_
        split
        · exact .pure _
        · exact obeys.contentsEqual inductionHypothesis left right

theorem specialOrder {equal : Value → Value → Attempt Code Host Bool}
    (equals : ∀ left right, (equal left right).Obeys discipline) (function : Handle) (left right : Value) :
    (engine.specialOrder equal function left right).Obeys discipline := by
  refine .act (Action.Obeys.retain function) fun _ =>
    .ensuring (.bind (equals left right) fun same => ?_) (obeys.release _)
  split
  · exact .pure _
  · exact .retainAll _ fun _ => .bind (obeys.call _ _) fun answer =>
      .ask (fun _ _ => rfl) fun _ => .act (obeys.release answer) fun _ => .pure _

theorem orderWithin (levels : Nat) (left right : Value) :
    (engine.orderWithin levels left right).Obeys discipline := by
  induction levels generalizing left right with
  | zero => exact .refuse .tooDeep
  | succ levels inductionHypothesis =>
    unfold Engine.orderWithin
    dsimp only
    split
    on_goal 1 => split
    · exact .pure _
    all_goals
      refine .ask (fun _ _ => rfl) fun method => .ask (fun _ _ => rfl) fun other => ?_
      split
      · exact obeys.methodOrder inductionHypothesis _ _
      · refine .ask (fun heap aside => heap.special?_beside aside left "__lt__") fun found => ?_
        split
        · exact obeys.specialOrder (obeys.equalWithin _) _ left right
        · exact obeys.contentsOrder (obeys.equalWithin levels) inductionHypothesis left right

/-! ### Hashes -/

theorem instanceHash (object : Value) (handle : Handle) :
    (engine.instanceHash object handle).Obeys discipline := by
  refine .bind (obeys.callSpecial object "__hash__" [object]) fun answer => ?_
  split
  · exact .pure _
  · exact .act (obeys.release _) fun _ => .refuse _
  · refine .ask (fun heap aside => heap.special?_beside aside object "__eq__") fun found => ?_
    split
    · exact .act (.retain _) fun _ => .act (obeys.release _) fun _ =>
        .ask (fun _ _ => rfl) fun _ => .refuse _
    · exact .currentHeap (fun _ _ => rfl) fun _ => .pure _

theorem hashWithin (levels : Nat) (value : Value) :
    (engine.hashWithin levels value).Obeys discipline := by
  induction levels generalizing value with
  | zero => exact .refuse .tooDeep
  | succ levels inductionHypothesis =>
    cases value with
    | ref handle =>
      refine .ask (fun _ _ => rfl) fun payload => ?_
      cases payload with
      | tuple items =>
        exact .retainAll items fun _ =>
          .bind (.ensuring (.allHashes inductionHypothesis items) (obeys.releaseList items))
            fun _ => .pure _
      | method data => exact .ask (fun _ _ => rfl) fun _ => .pure _
      | object data => exact obeys.instanceHash _ handle
      | str text => exact .pure _
      | list items => exact .refuse _
      | _ => exact .currentHeap (fun _ _ => rfl) fun _ => .pure _
    | _ => exact .pure _

/-! ### Texts -/

theorem methodTextInside {render : Value → Attempt Code Host String}
    (renders : ∀ value, (render value).Obeys discipline) (method : Handle) :
    (engine.methodTextInside render method).Obeys discipline := by
  refine .ask (fun _ _ => rfl) fun data => .retainAll _ fun _ =>
    .bind (.methodTarget data) fun target => .ensuring ?_ (obeys.releaseList _)
  split
  · exact .pure _
  · exact .bind (renders _) fun _ => .pure _

theorem instanceText (object : Value) (handle : Handle) :
    (engine.instanceText object handle).Obeys discipline := by
  refine .bind (obeys.callSpecial object "__repr__" [object]) fun answer => ?_
  split
  · exact .ask (fun _ _ => rfl) fun _ => .currentHeap (fun _ _ => rfl) fun _ => .pure _
  · rename_i answer
    refine .ask (fun _ _ => by cases answer <;> rfl) fun text => ?_
    split
    · exact .act (obeys.release _) fun _ => .pure _
    · exact .ask (fun _ _ => rfl) fun _ => .act (obeys.release _) fun _ => .refuse _

theorem sequenceTextInside {render : Value → Attempt Code Host String}
    (renders : ∀ value, (render value).Obeys discipline) (enclosing : List Handle) (handle : Handle)
    (brackets : Brackets) (items : List Value) :
    (engine.sequenceTextInside render enclosing handle brackets items).Obeys discipline := by
  refine .retainAll items fun _ => ?_
  split
  · exact .act (obeys.releaseList items) fun _ => .pure _
  · exact .bind (.ensuring (.allTextsInside renders items) (obeys.releaseList items))
      fun _ => .pure _

theorem renderInside (levels : Nat) (enclosing : List Handle)
    (value : Value) : (engine.renderInside levels enclosing value).Obeys discipline := by
  induction levels generalizing enclosing value with
  | zero => exact .refuse .tooDeep
  | succ levels inductionHypothesis =>
    cases value with
    | ref handle =>
      refine .ask (fun _ _ => rfl) fun payload => ?_
      cases payload with
      | str text => exact .pure _
      | function data => exact .currentHeap (fun _ _ => rfl) fun _ => .pure _
      | type data => exact .pure _
      | weakref data => exact .weakrefText handle data
      | method data => exact obeys.methodTextInside (inductionHypothesis enclosing) handle
      | object data => exact obeys.instanceText _ handle
      | list items => exact obeys.sequenceTextInside (inductionHypothesis _) enclosing handle _ items
      | tuple items => exact obeys.sequenceTextInside (inductionHypothesis _) enclosing handle _ items
    | _ => exact .pure _

theorem render (value : Value) : (engine.render value).Obeys discipline := by
  rw [engine.render_eq]
  exact obeys.renderInside _ [] value

end Engine.Obeys

/-! ### Copies -/

namespace Copying.Obeys

variable {copying : Copying Code Host α} {next : α → Copying Code Host β}

theorem pure (answer : α) : (Pure.pure answer : Copying Code Host α).Obeys discipline :=
  fun _ => .pure _

theorem bind (begins : copying.Obeys discipline) (rest : ∀ answer, (next answer).Obeys discipline) :
    (copying >>= next).Obeys discipline :=
  fun memo => .bind (begins memo) fun result => by
    obtain ⟨outcome, later⟩ := result
    cases outcome with
    | ok answer => exact rest answer later
    | error error => exact .pure _

theorem ofAttempt {attempt : Attempt Code Host α} (obeys : attempt.Obeys discipline) :
    (Copying.ofAttempt attempt).Obeys discipline :=
  fun _ => .bind obeys fun _ => .pure _

theorem act {action : Action Code Host α} (obeys : action.Obeys discipline)
    (rest : ∀ answer, (next answer).Obeys discipline) :
    (Copying.ofAttempt (Attempt.ofAction action) >>= next).Obeys discipline :=
  .bind (.ofAttempt (.ofAction obeys)) rest

theorem ask {question : Heap Code → Except Fault α}
    (same : ∀ heap aside, question (heap.beside aside) = question heap)
    (rest : ∀ answer, (next answer).Obeys discipline) :
    (ObjectHeap.ask question >>= next).Obeys discipline :=
  .act (.ask same) rest

theorem retainValue (value : Value) :
    (ObjectHeap.retainValue value : Copying Code Host Unit).Obeys discipline := by
  cases value with
  | ref handle => exact .ofAttempt (.ofAction (.retain handle))
  | _ => exact .ofAttempt (.ofAction (.pure ()))

theorem ensuring {action : Action Code Host Unit} (begins : copying.Obeys discipline)
    (obeys : action.Obeys discipline) : (copying.ensuring action).Obeys discipline :=
  fun memo => .bind (begins memo) fun outcome => .bind obeys fun _ => .pure outcome

theorem onError {action : Action Code Host Unit} (begins : copying.Obeys discipline)
    (obeys : action.Obeys discipline) : (copying.onError action).Obeys discipline :=
  fun memo => .bind (begins memo) fun result => by
    obtain ⟨outcome, later⟩ := result
    cases outcome with
    | ok answer => exact .pure _
    | error error => exact .bind obeys fun _ => .pure _

theorem recorded? (source : Handle) :
    (Copying.recorded? source : Copying Code Host (Option Value)).Obeys discipline := by
  refine .bind (fun memo => .pure _) fun memo => ?_
  split
  · exact .bind (.retainValue _) fun _ => .pure _
  · exact .pure none

theorem retainAttributes (handle : Handle) :
    (Copying.retainAttributes handle : Copying Code Host (List (String × Value))).Obeys discipline := by
  refine .ask (fun _ _ => rfl) fun payload => ?_
  split
  · exact .act (.retainAll _) fun _ => .pure _
  · exact .pure []

end Copying.Obeys

namespace Engine.Obeys

variable {engine : Engine Code Host} (obeys : engine.Obeys discipline)

include obeys

theorem memorize (source : Handle) (copy : Value) :
    (engine.memorize source copy).Obeys discipline :=
  .bind (.retainValue copy) fun _ => .bind (fun _ => .pure _) fun _ =>
    .bind (fun _ => .pure _) fun _ => .ofAttempt (.ofAction (obeys.release? _))

section

variable {copy : Value → Copying Code Host Value} (copies : ∀ value, (copy value).Obeys discipline)

include copies

theorem copyInto (list : Value) (items : List Value) :
    (engine.copyInto copy list items).Obeys discipline := by
  induction items with
  | nil => exact .pure ()
  | cons item items inductionHypothesis =>
    exact .bind (.onError (.bind (.ensuring (copies item) (obeys.release item)) fun copied =>
      .ofAttempt (obeys.append list copied)) (.bind (obeys.releaseList items) fun _ =>
        obeys.release list)) fun _ => inductionHypothesis

theorem copyList (handle : Handle) (items : List Value) :
    (engine.copyList copy handle items).Obeys discipline :=
  .bind (.onError (.ofAttempt (obeys.allocate _ nofun)) (obeys.releaseList items)) fun list =>
    .bind (obeys.memorize handle list) fun _ =>
      .bind (obeys.copyInto copies list items) fun _ => .pure list

theorem copyItems (done items : List Value) :
    (engine.copyItems copy done items).Obeys discipline := by
  induction items generalizing done with
  | nil => exact .pure done
  | cons item items inductionHypothesis =>
    exact .bind (.onError (.ensuring (copies item) (obeys.release item))
      (.bind (obeys.releaseList items) fun _ => obeys.releaseList done))
        fun copied => inductionHypothesis (done ++ [copied])

theorem copyTuple (handle : Handle) (items : List Value) :
    (engine.copyTuple copy handle items).Obeys discipline := by
  refine .bind (obeys.copyItems copies [] items) fun done => .bind (.recorded? handle) fun found => ?_
  cases found with
  | some existing => exact .act (obeys.releaseList done) fun _ => .pure existing
  | none =>
    exact .bind (.ofAttempt (obeys.allocate _ nofun)) fun tuple =>
      .bind (obeys.memorize handle tuple) fun _ => .pure tuple

theorem copyAttributes (object : Value) (attributes : List (String × Value)) :
    (engine.copyAttributes copy object attributes).Obeys discipline := by
  induction attributes with
  | nil => exact .pure ()
  | cons entry attributes inductionHypothesis =>
    obtain ⟨name, value⟩ := entry
    exact .bind (.onError (.bind (.ensuring (copies value) (obeys.release value)) fun copied =>
      .ofAttempt (obeys.setAttribute object name copied)) (.bind (obeys.releaseList _) fun _ =>
        obeys.release object)) fun _ => inductionHypothesis

theorem copyInstance (value : Value) (handle type : Handle) :
    (engine.copyInstance copy value handle type).Obeys discipline := by
  refine .ask (fun heap aside => heap.special?_beside aside value "__deepcopy__") fun found => ?_
  cases found with
  | some function =>
    exact .act (.retain function) fun _ => .bind (.retainValue value) fun _ =>
      .bind (.ofAttempt (.ensuring (obeys.call _ _) (obeys.release _))) fun copied =>
        .bind (obeys.memorize handle copied) fun _ => .pure copied
  | none =>
    exact .bind (.ofAttempt (obeys.newInstance _)) fun object =>
      .bind (obeys.memorize handle object) fun _ => .bind (.retainAttributes handle) fun attributes =>
        .bind (obeys.copyAttributes copies object attributes) fun _ => .pure object

theorem copyMethod (handle : Handle) : (engine.copyMethod copy handle).Obeys discipline := by
  refine .ask (fun _ _ => rfl) fun data => .act (.retainAll _) fun _ => ?_
  split
  · exact .bind (.onError (.ensuring (copies _) (obeys.release _)) (obeys.release? _))
      fun copied => .ofAttempt (obeys.allocateMethod _ _ _)
  · exact .ofAttempt (obeys.allocateMethod _ _ _)

end

theorem copyWithin (levels : Nat) (value : Value) :
    (engine.copyWithin levels value).Obeys discipline := by
  induction levels generalizing value with
  | zero =>
    cases value with
    | ref handle =>
      refine .bind (.recorded? handle) fun found => ?_
      cases found with
      | some copy => exact .pure copy
      | none => exact .ofAttempt (.refuse .tooDeep)
    | _ => exact .pure _
  | succ levels inductionHypothesis =>
    cases value with
    | ref handle =>
      refine .bind (.recorded? handle) fun found => ?_
      cases found with
      | some copy => exact .pure copy
      | none =>
        refine .ask (fun _ _ => rfl) fun payload => ?_
        cases payload with
        | list items =>
          exact .act (.retainAll items) fun _ => obeys.copyList inductionHypothesis handle items
        | tuple items =>
          exact .act (.retainAll items) fun _ => obeys.copyTuple inductionHypothesis handle items
        | object data => exact obeys.copyInstance inductionHypothesis _ handle data.type
        | method data =>
          exact .bind (obeys.copyMethod inductionHypothesis handle) fun copy =>
            .bind (obeys.memorize handle copy) fun _ => .pure copy
        | _ => exact .bind (.retainValue _) fun _ => .pure _
    | _ => exact .pure _

/-! ### Calls of attributes -/

theorem reduceBy (method : Value) (arguments : Arguments) :
    (engine.reduceBy method arguments).Obeys discipline := by
  refine .bind (.onError (.checkMethod _ _) (obeys.releaseList _)) fun _ =>
    .bind (obeys.atMostOne _ arguments) fun protocol => ?_
  split
  · exact .refuse _
  · exact .refuse _
  · exact .refuse _
  · exact .ask (fun _ _ => rfl) fun _ => .act (obeys.release _) fun _ => .refuse _

theorem copyOf (method : Handle) (arguments : Arguments) (walk : Memo.Walk) :
    (engine.copyOf method arguments walk).Obeys discipline := by
  refine .bind (obeys.exactlyOne _ arguments) fun memo => ?_
  split
  · exact Action.Obeys.bind (obeys.copyMethod (obeys.copyWithin _) method Memo.empty)
      fun result => .bind (obeys.releaseList _) fun _ => .pure _
  · exact .ask (fun _ _ => rfl) fun _ => .act (obeys.release memo) fun _ => .refuse _

theorem callRead (value : Value) (name : String)
    (arguments : Arguments) : (engine.callRead value name arguments).Obeys discipline :=
  .bind (.onError (obeys.getAttribute value name) (obeys.releaseList _)) fun callable =>
    .ensuring (obeys.call callable arguments) (obeys.release callable)

theorem callAttribute (value : Value) (name : String) (arguments : Arguments) (walk : Memo.Walk) :
    (engine.callAttribute value name arguments walk).Obeys discipline := by
  refine .ask (fun _ _ => rfl) fun found => ?_
  cases found with
  | none => exact obeys.callRead value name arguments
  | some method =>
    dsimp only
    split
    · split
      · exact obeys.refuseArguments arguments _
      · exact .reduce value
    · exact obeys.reduceBy value arguments
    · exact obeys.copyOf method arguments walk
    · exact obeys.callRead value name arguments

end Engine.Obeys

/-! ### Hosts -/

/-- Every operation keeps to a discipline that allows what operations are made of. -/
theorem Operation.obeys_perform {engine : Engine Code Host} (obeys : engine.Obeys discipline)
    (operation : Operation Code) : (operation.perform engine).Obeys discipline := by
  cases operation with
  | newString text => exact obeys.newString text
  | newList items => exact obeys.allocate _ nofun
  | newTuple items => exact obeys.allocate _ nofun
  | newFunction name qualifiedName doc code => exact obeys.newFunction name qualifiedName doc code
  | newClass name bases => exact obeys.newClass name bases
  | newInstance type => exact obeys.newInstance type
  | newMethod function receiver owner => exact obeys.newMethod function receiver owner
  | methodOfArguments arguments => exact obeys.methodOfArguments arguments
  | newWeakref target callback => exact obeys.newWeakref target callback
  | append list item => exact obeys.append list item
  | unpack value => exact .retainItems value
  | getAttribute value name => exact obeys.getAttribute value name
  | setAttribute value name content => exact obeys.setAttribute value name content
  | callAttribute value name arguments walk => exact obeys.callAttribute value name arguments walk
  | call callable arguments => exact obeys.call callable arguments
  | bind value object type => exact obeys.bind value object type
  | reduce method => exact Attempt.Obeys.reduce method
  | reduceBy method arguments => exact obeys.reduceBy method arguments
  | isInstance value type => exact Attempt.Obeys.isInstance value type
  | isSubtype sub sup => exact Attempt.Obeys.isSubtype sub sup
  | equal left right => exact obeys.equalWithin _ left right
  | order left right => exact obeys.orderWithin _ left right
  | hash value => exact obeys.hashWithin _ value
  | render value => exact obeys.render value
  | deepCopy value memo => exact obeys.copyWithin _ value memo
  | dropMemo memo walk => exact obeys.releaseList _
  | withoutKeywords callable arguments => exact obeys.withoutKeywords callable arguments
  | atMostOne callable arguments => exact obeys.atMostOne callable arguments
  | exactlyOne callable arguments => exact obeys.exactlyOne callable arguments
  | share value => exact .retainValue value
  | drop value => exact obeys.release value
  | collect => exact obeys.collect
  | takeUnraisable => exact obeys.relieve

/-- Engines that stand on one another keep to a discipline in all operations if code that may use such
an engine does what it is expected to do. -/
theorem Engine.obeys_ofRounds (expected : Attempt Code Host Value → Prop)
    {run : Engine Code Host → Code → Arguments → Attempt Code Host Value}
    (stops : expected (stop .exhausted))
    (steps : ∀ engine : Engine Code Host, (∀ code arguments, expected (engine.run code arguments)) →
      (∀ callback arguments, (engine.callBack callback arguments).Obeys discipline) →
        engine.Obeys discipline)
    (runs : ∀ engine : Engine Code Host, engine.Obeys discipline →
      ∀ code arguments, expected (run engine code arguments)) (rounds : Nat) :
    (ofRounds run rounds).Obeys discipline := by
  induction rounds with
  | zero => exact steps _ (fun _ _ => stops) fun _ _ => .ofAction (discipline.stop _)
  | succ rounds inductionHypothesis =>
    exact steps _ (runs _ inductionHypothesis) fun callback arguments =>
      inductionHypothesis.call callback arguments

/-- Runs a program, without a record of what it asks for. -/
def Program.act (engine : Engine Code Host) : Program Code Host → Action Code Host (Except Error Value)
  | finish outcome => return outcome
  | perform operation next => do
    let answer ← operation.perform engine
    (next answer).act engine
  | consult change next => do
    let world ← get
    set { world with host := change world.host world.heap }
    (next world.host world.heap).act engine

/-- The engine of a host whose functions are programs that leave no record. -/
def Engine.ofPrograms (bodies : Code → Arguments → Program Code Host) (rounds : Nat) : Engine Code Host :=
  .ofRounds (fun engine code arguments => ⟨(bodies code arguments).act engine⟩) rounds

end ObjectHeap
