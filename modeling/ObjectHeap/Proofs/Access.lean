/-
This file compares the two ways to a function that a class has for its instances: the attribute of
an instance, which is a bound method, and the attribute of the class, which is an unbound one and is
called with the instance as the first argument. Either way one method comes to the heap. What is
found may be a function, or a method that was stored unbound and belongs to the class or to one of
its ancestors; in both cases the owner of the new method is one that the instance satisfies, whatever
the classes look like.
-/

import ObjectHeap.Proofs.Dispatch
import ObjectHeap.Proofs.Placement

namespace ObjectHeap

variable {Code Host Other : Type}

namespace Heap

variable {heap middle after : Heap Code} {outside : Multiset Handle} {limbo : List Handle}
  {place type function owner : Handle} {name : String} {method : Method}

/-! ### What is found, and what is gained -/

/-- What a class finds under a name comes down to a function and to an owner for a method of it: to a
function and the class itself, or to an unbound method of the function that belongs to the class or to
one of its ancestors. -/
def Resolves (heap : Heap Code) (type : Handle) (name : String) (function owner : Handle) : Prop :=
  (heap.find type name = .ok (some (.ref function)) ∧ owner = type ∧
    ∃ data, heap.payload? function = some (.function data)) ∨
  ∃ stored data, heap.find type name = .ok (some (.ref stored)) ∧
    heap.payload? stored = some (.method data) ∧ data.receiver = none ∧ data.function = function ∧
      data.owner = some (.ref owner) ∧ owner ∈ heap.lineage type

theorem isType_of_find {value : Value} (found : heap.find type name = .ok (some value)) :
    heap.IsType type := by
  obtain ⟨payload, read, rest⟩ := Heap.bind_eq_ok.mp found
  cases payload with
  | type data => exact ⟨data, heap.read_eq_ok.mp read⟩
  | _ => cases rest

/-- The owner is the class or one of its ancestors. -/
theorem Resolves.mem_lineage (resolves : heap.Resolves type name function owner) :
    owner ∈ heap.lineage type := by
  rcases resolves with ⟨found, rfl, _⟩ | ⟨_, _, _, _, _, _, _, above⟩
  · obtain ⟨data, held⟩ := isType_of_find found
    exact Heap.mem_lineage.mpr ⟨data, held, Or.inl rfl⟩
  · exact above

/-- What is found comes down to a function that is there. -/
theorem Resolves.exists_function (resolves : heap.Resolves type name function owner)
    (sound : heap.Sound outside limbo) : ∃ data, heap.payload? function = some (.function data) := by
  rcases resolves with ⟨_, _, held⟩ | ⟨stored, data, _, held, _, rfl, _⟩
  · exact held
  · exact sound.exists_function held

/-- A method can be allocated, and no collection is due for it. -/
structure GrantsMethod (heap : Heap Code) : Prop where
  /-- Nothing refers weakly to a new method, which therefore takes 64 bytes. -/
  accepted : ∃ tracker, heap.tracker.charge 64 = .ok tracker
  early : heap.tracker.collectionDue (heap.sinceCollection + 1) = false

/-- A heap has come to hold one more entry, a method. Everything else that is there is what it was, and
as many calls are running, of as many that may run. -/
structure Gains (heap : Heap Code) (place : Handle) (method : Method) (after : Heap Code) : Prop where
  empty : heap.payload? place = none
  here : after.payload? place = some (.method method)
  others : ∀ other, other ≠ place → after.payload? other = heap.payload? other
  depth : after.callDepth = heap.callDepth
  limits : after.tracker.limits = heap.tracker.limits

/-- A heap is sound, and no reference waits in it between operations. -/
structure Settled (heap : Heap Code) (outside : Multiset Handle) (limbo : List Handle) : Prop where
  sound : heap.Sound outside limbo
  settled : heap.releasing = false → heap.pending = []

theorem Settled.shows (settled : heap.Settled outside limbo) : heap.Shows heap :=
  settled.sound.shows settled.settled

theorem Settled.congr (settled : heap.Settled outside limbo) {others : Multiset Handle}
    (same : outside = others) : heap.Settled others limbo := same ▸ settled

theorem Settled.increment (settled : heap.Settled outside limbo) (live : heap.isLive place) :
    (heap.increment place).Settled (outside + {place}) limbo :=
  ⟨settled.sound.increment live, settled.settled⟩

theorem Settled.holding (settled : heap.Settled outside limbo) {values : List Value}
    (live : ∀ handle ∈ owned values, heap.isLive handle) :
    (heap.holding (values.filterMap Value.handle?)).Settled (outside + owned values) limbo := by
  unfold owned at live ⊢
  generalize values.filterMap Value.handle? = handles at live ⊢
  induction handles with
  | nil => exact settled.congr (add_zero outside).symm
  | cons handle rest inductionHypothesis =>
    have held := inductionHypothesis fun other member => live other (List.mem_cons_of_mem _ member)
    rw [holding_cons]
    refine (held.increment ?_).congr ?_
    · rw [isLive_holding]
      exact live handle List.mem_cons_self
    · rw [← Multiset.cons_coe, ← Multiset.singleton_add]
      abel

namespace Gains

theorem holding (gains : heap.Gains place method after) (handles : List Handle) :
    heap.Gains place method (after.holding handles) where
  empty := gains.empty
  here := (after.payload?_holding handles place).trans gains.here
  others other different := (after.payload?_holding handles other).trans (gains.others other different)
  depth := (congrArg Heap.callDepth (after.books_holding handles) :).trans gains.depth
  limits := (congrArg (fun heap => heap.tracker.limits) (after.books_holding handles) :).trans
    gains.limits

theorem observed (gains : heap.Gains place method middle) (observed : middle.Observed after) :
    heap.Gains place method after := by
  obtain ⟨handles, _, rfl⟩ := observed
  have held := gains.holding handles
  exact ⟨held.empty, held.here, held.others, held.depth, held.limits⟩

/-- The method was gained after some references were taken. -/
theorem of_holding {handles : List Handle} (gains : (heap.holding handles).Gains place method after) :
    heap.Gains place method after where
  empty := (heap.payload?_holding handles place).symm.trans gains.empty
  here := gains.here
  others other different := (gains.others other different).trans (heap.payload?_holding handles other)
  depth := gains.depth.trans (congrArg Heap.callDepth (heap.books_holding handles) :)
  limits := gains.limits.trans
    (congrArg (fun heap => heap.tracker.limits) (heap.books_holding handles) :)

theorem payload?_of_isLive (gains : heap.Gains place method after) {other : Handle}
    (live : heap.isLive other) : after.payload? other = heap.payload? other := by
  refine gains.others other ?_
  rintro rfl
  rw [isLive_eq_payload?, gains.empty] at live
  cases live

end Gains

/-- The calls that are running do not show in which slot a method is placed. -/
theorem callDepth_placeMethod (heap : Heap Code) (payload : Payload Code) :
    (heap.takeFreeForMethod.2.place payload heap.takeFreeForMethod.1).2.callDepth = heap.callDepth := by
  have placed (heap : Heap Code) (slot : Option Handle) :
      (heap.place payload slot).2.callDepth = heap.callDepth := by
    cases slot <;> rfl
  have taken : heap.takeFreeForMethod.2.callDepth = heap.callDepth := by
    unfold takeFreeForMethod takeFree
    split
    · rfl
    · split <;> rfl
  rw [placed, taken]

theorem GrantsMethod.holding (grants : heap.GrantsMethod) (handles : List Handle) :
    (heap.holding handles).GrantsMethod where
  accepted := (congrArg Heap.tracker (heap.books_holding handles) :) ▸ grants.accepted
  early := by
    have books := heap.books_holding handles
    have tracker : (heap.holding handles).tracker = heap.tracker := (congrArg Heap.tracker books :)
    have since : (heap.holding handles).sinceCollection = heap.sinceCollection :=
      (congrArg Heap.sinceCollection books :)
    rw [tracker, since]
    exact grants.early

end Heap

open Heap

/-! ### Making a method -/

/-- An attempt comes to make a method, which is owned by whoever asked for it. -/
def Attempt.Makes (attempt : Attempt Code Host Value) (before : World Code Host)
    (outside : Multiset Handle) (limbo : List Handle) (method : Method) : Prop :=
  ∃ place after, attempt.run before = .ok (.ok (.ref place), { before with heap := after }) ∧
    before.heap.Gains place method after ∧ after.Settled (outside + {place}) limbo

theorem retainValue_apply (world : World Code Host) {value : Value}
    (live : ∀ handle ∈ value.owns, world.heap.isLive handle) :
    (retainValue value : Action Code Host Unit) world =
      .ok ((), { world with heap := world.heap.holding ([value].filterMap Value.handle?) }) := by
  cases value with
  | ref handle =>
    exact (retain_apply world handle).trans (if_pos (live handle (Multiset.mem_singleton_self _)))
  | _ => rfl

namespace Attempt.Makes

variable {attempt rest : Attempt Code Host Value} {before : World Code Host}
  {outside : Multiset Handle} {limbo : List Handle} {method : Method}

theorem of_run_eq (makes : rest.Makes before outside limbo method)
    (same : attempt.run before = rest.run before) : attempt.Makes before outside limbo method := by
  obtain ⟨place, after, made, gains, settled⟩ := makes
  exact ⟨place, after, same.trans made, gains, settled⟩

/-- A method is made after some references were taken. -/
theorem of_holding {handles : List Handle}
    (makes : rest.Makes { before with heap := before.heap.holding handles } outside limbo method)
    (same : attempt.run before = rest.run { before with heap := before.heap.holding handles }) :
    attempt.Makes before outside limbo method := by
  obtain ⟨place, after, made, gains, settled⟩ := makes
  exact ⟨place, after, same.trans made, gains.of_holding, settled⟩

theorem retaining {value : Value} (makes : rest.Makes
      { before with heap := before.heap.holding ([value].filterMap Value.handle?) } outside limbo
      method)
    (live : ∀ handle ∈ value.owns, before.heap.isLive handle) :
    (retainValue value >>= fun _ => rest : Attempt Code Host Value).Makes before outside limbo
      method :=
  makes.of_holding (run_retainValue_bind (retainValue_apply before live))

end Attempt.Makes

namespace Engine

variable (engine : Engine Code Host) {before : World Code Host} {outside : Multiset Handle}
  {limbo : List Handle} {type function owner : Handle} {object : Value} {name : String}

/-- A method that is granted is charged for without a collection. -/
theorem charge_of_grants (grants : before.heap.GrantsMethod) (receiver owner : Option Value) :
    ∃ tracker, tracker.limits = before.heap.tracker.limits ∧
      engine.charge (.method { function, receiver, owner, watchers := [] }) before =
        .ok (none, { before with heap := { before.heap with
          sinceCollection := before.heap.sinceCollection + 1, tracker } }) := by
  obtain ⟨tracker, accepted⟩ := grants.accepted
  obtain ⟨_, _, recorded⟩ := Tracker.charge_eq_ok.mp accepted
  let payload : Payload Code := .method { function, receiver, owner, watchers := [] }
  let counted : World Code Host :=
    { before with heap := { before.heap with sinceCollection := before.heap.sinceCollection + 1 } }
  have counts : engine.countAllocation payload before = .ok ((), counted) := by
    refine (Action.bind_of_ok (modifyHeap_apply before _)).trans
      ((Action.bind_of_ok (currentHeap_apply counted)).trans ?_)
    exact congrFun (if_neg (Bool.not_eq_true _ ▸ grants.early)) counted
  have size : UInt64.ofNat payload.size = 64 := rfl
  refine ⟨tracker, by rw [recorded]; rfl, (Action.bind_of_ok counts).trans
    ((Action.bind_of_ok (currentHeap_apply counted)).trans ?_)⟩
  dsimp only
  rw [size, show counted.heap.tracker.charge 64 = .ok tracker from accepted]
  rfl

/-- A method that is granted is made of what is there. -/
theorem makes_allocateMethod {receiver owner : Option Value} {data : Function Code}
    (settled : before.heap.Settled (outside + (owned receiver.toList + owned owner.toList)) limbo)
    (found : before.heap.payload? function = some (.function data))
    (grounded : Method.Grounded { function, receiver, owner, watchers := [] })
    (grants : before.heap.GrantsMethod) :
    (engine.allocateMethod function receiver owner).Makes before outside limbo
      { function, receiver, owner, watchers := [] } := by
  let payload : Payload Code := .method { function, receiver, owner, watchers := [] }
  have live := isLive_of_payload? found
  have taken := settled.increment live
  let held : World Code Host := { before with heap := before.heap.increment function }
  have granted : held.heap.GrantsMethod := ⟨grants.accepted, grants.early⟩
  obtain ⟨tracker, limits, charged⟩ := engine.charge_of_grants granted receiver owner
  let paid : Heap Code :=
    { held.heap with sinceCollection := held.heap.sinceCollection + 1, tracker }
  have owns : outside + (owned receiver.toList + owned owner.toList) + {function} =
      outside + payload.owns := by
    rw [Payload.owns_method, Method.parts, owned_append]
    abel
  have sound : paid.Sound (outside + payload.owns) limbo :=
    taken.sound.of_slots rfl rfl rfl (by rw [owns])
  have admits := paid.admits_takeFreeForMethod (rfl : payload.isMethod = true) sound.housed
  have there : paid.payload? function = some (.function data) :=
    (before.heap.payload?_increment function function).trans found
  refine ⟨_, _, ?_, ?_, admits.sound sound ⟨⟨data, there⟩, grounded⟩ rfl rfl, fun idle => ?_⟩
  · refine (Attempt.run_act_bind ((retain_apply before function).trans (if_pos live))).trans
      ((Attempt.run_act_bind charged).trans ?_)
    exact (Attempt.run_act_bind rfl).trans (Attempt.run_act_bind rfl)
  · exact {
      empty := (before.heap.payload?_increment function _).symm.trans admits.payload?_empty
      here := admits.payload?_here
      others := fun other different =>
        (admits.payload?_others different).trans (before.heap.payload?_increment function other)
      depth := paid.callDepth_placeMethod payload
      limits := (congrArg Tracker.limits admits.tracker).trans limits }
  · exact admits.pending.trans (taken.settled (admits.releasing.symm.trans idle))

/-- A function becomes a method of a class. -/
theorem makes_newMethod {data : Function Code} (settled : before.heap.Settled outside limbo)
    (found : before.heap.payload? function = some (.function data))
    (live : ∀ handle ∈ object.owns, before.heap.isLive handle) (there : before.heap.isLive type)
    (grants : before.heap.GrantsMethod) :
    (engine.newMethod (.ref function) object (.ref type)).Makes before outside limbo
      { function, receiver := object.present?, owner := some (.ref type), watchers := [] } := by
  let taken : World Code Host :=
    { before with heap := before.heap.holding ([object].filterMap Value.handle?) }
  let held : World Code Host :=
    { taken with heap := taken.heap.holding ([Value.ref type].filterMap Value.handle?) }
  have payloads (other : Handle) : held.heap.payload? other = before.heap.payload? other :=
    (taken.heap.payload?_holding _ other).trans (before.heap.payload?_holding _ other)
  have present : ∀ handle ∈ (Value.ref type).owns, taken.heap.isLive handle := by
    intro handle member
    rw [before.heap.isLive_holding]
    exact Multiset.mem_singleton.mp member ▸ there
  have settles := (settled.holding live).holding present
  have makes : (engine.allocateMethod function object.present? (some (.ref type))).Makes held outside
      limbo { function, receiver := object.present?, owner := some (.ref type), watchers := [] } := by
    refine engine.makes_allocateMethod (settles.congr ?_) ((payloads function).trans found) ?_
      ((grants.holding _).holding _)
    · rw [Value.owned_present?]
      exact add_assoc _ _ _
    · exact ⟨by simp, fun _ => rfl⟩
  refine ((makes.retaining present).retaining live).of_run_eq ?_
  have named : (methodFunction (.ref function)).run before = .ok (.ok function, before) := by
    have read := before.heap.read_eq_ok.mpr found
    exact (Attempt.run_ask_bind (.function data) read).trans rfl
  have owned : (object.isNil && (Value.ref type).isNil) = false := Bool.and_false _
  refine (Attempt.run_bind_of_ok named).trans ?_
  rw [owned]
  rfl

/-- An unbound method is bound through a class that is its owner or derives from it. -/
theorem makes_bindMethod {method : Handle} {data : Method}
    (settled : before.heap.Settled outside limbo)
    (found : before.heap.payload? method = some (.method data)) (unbound : data.receiver = none)
    (owned : data.owner = some (.ref owner)) (above : owner ∈ before.heap.lineage type)
    (live : ∀ handle ∈ object.owns, before.heap.isLive handle) (grants : before.heap.GrantsMethod) :
    (engine.bindMethod method object (.ref type)).Makes before outside limbo
      { function := data.function, receiver := object.present?, owner := some (.ref owner),
        watchers := [] } := by
  have parts : data.parts = [.ref owner] := by
    rw [Method.parts, unbound, owned]
    rfl
  have there := parts ▸ settled.sound.isLive_of_method found
  obtain ⟨wrapped, wraps⟩ := settled.sound.exists_function found
  let taken : World Code Host :=
    { before with heap := before.heap.holding ([Value.ref owner].filterMap Value.handle?) }
  let held : World Code Host :=
    { taken with heap := taken.heap.holding ([object].filterMap Value.handle?) }
  have payloads (other : Handle) : held.heap.payload? other = before.heap.payload? other :=
    (taken.heap.payload?_holding _ other).trans (before.heap.payload?_holding _ other)
  have present : ∀ handle ∈ object.owns, taken.heap.isLive handle := by
    intro handle member
    rw [before.heap.isLive_holding]
    exact live handle member
  have settles := (settled.holding there).holding present
  have makes : (engine.allocateMethod data.function object.present? (some (.ref owner))).Makes held
      outside limbo
      { function := data.function, receiver := object.present?, owner := some (.ref owner),
        watchers := [] } := by
    refine engine.makes_allocateMethod (settles.congr ?_) ((payloads data.function).trans wraps)
      ⟨by simp, fun _ => rfl⟩ ((grants.holding _).holding _)
    rw [Value.owned_present?, add_assoc]
    exact congrArg (outside + ·) (add_comm _ _)
  refine (makes.retaining present).of_holding ?_
  have read : before.heap.method method = .ok data := Heap.method_eq_ok.mpr found
  refine (Attempt.run_ask_bind data read).trans ?_
  rw [unbound, owned, parts]
  refine (Attempt.run_act_bind (retainAll_apply before there)).trans ?_
  -- The check of the owner only counts, and so the lineages are the same.
  have line : owner ∈ taken.heap.lineage type := by
    rw [lineage_congr (before.heap.payload?_holding _ type)]
    exact above
  have sound : taken.heap.Sound _ limbo := (settled.holding there).sound
  obtain ⟨isSub, isSup, leads⟩ := sound.leads_of_mem_lineage line
  obtain ⟨answer, asked, decides⟩ := isSubtype_run sound.formed sound.balanced isSub isSup
  rw [decides.mpr leads] at asked
  have judged : ((isSubtype (.ref type) (.ref owner)).onError (engine.release (.ref owner))).run taken =
      .ok (.ok true, taken) := Action.bind_of_ok asked
  show (_ >>= fun applies => if applies = true then _ else _ : Attempt Code Host Value).run taken = _
  exact Attempt.run_bind_of_ok judged

/-! ### Reading attributes -/

/-- What a class finds becomes a method of the function that it comes down to. -/
theorem makes_readThrough (object : Value) (settled : before.heap.Settled outside limbo)
    (resolves : before.heap.Resolves type name function owner)
    (live : ∀ handle ∈ object.owns, before.heap.isLive handle) (grants : before.heap.GrantsMethod) :
    ∃ found, before.heap.find type name = .ok (some found) ∧
      (engine.readThrough found object (.ref type)).Makes before outside limbo
        { function, receiver := object.present?, owner := some (.ref owner), watchers := [] } := by
  rcases resolves with
    ⟨found, rfl, data, held⟩ | ⟨stored, data, found, held, unbound, rfl, owned, above⟩
  · obtain ⟨_, there⟩ := isType_of_find found
    refine ⟨_, found, (engine.makes_newMethod settled held live (isLive_of_payload? there)
      grants).of_run_eq ?_⟩
    exact Attempt.run_ask_bind (some (Payload.function data))
      (Heap.bind_eq_ok.mpr ⟨_, before.heap.read_eq_ok.mpr held, rfl⟩)
  · refine ⟨_, found, (engine.makes_bindMethod settled held unbound owned above live
      grants).of_run_eq ?_⟩
    exact Attempt.run_ask_bind (some (Payload.method data))
      (Heap.bind_eq_ok.mpr ⟨_, before.heap.read_eq_ok.mpr held, rfl⟩)

/-- Read through an instance, what the class finds is bound to the instance. -/
theorem makes_getAttribute {object : Handle} {data : Instance}
    (settled : before.heap.Settled outside limbo)
    (found : before.heap.payload? object = some (.object data)) (ordinary : name ≠ "__class__")
    (absent : data.attributes.find? name = none)
    (resolves : before.heap.Resolves data.type name function owner)
    (grants : before.heap.GrantsMethod) :
    (engine.getAttribute (.ref object) name).Makes before outside limbo
      { function, receiver := some (.ref object), owner := some (.ref owner), watchers := [] } := by
  obtain ⟨value, known, makes⟩ := engine.makes_readThrough (.ref object) settled resolves
    (fun handle member => Multiset.mem_singleton.mp member ▸ isLive_of_payload? found) grants
  refine makes.of_run_eq
    ((Attempt.run_ask_bind (Payload.object data) (before.heap.read_eq_ok.mpr found)).trans ?_)
  dsimp only
  rw [absent]
  show (engine.instanceTypeAttribute (.ref object) data.type name).run before = _
  unfold instanceTypeAttribute
  rw [if_neg ordinary]
  exact Attempt.run_ask_bind (some value) known

/-- Read through the class, what the class finds is not bound. -/
theorem makes_getAttribute_type (settled : before.heap.Settled outside limbo)
    (ordinary : name ≠ "__name__") (resolves : before.heap.Resolves type name function owner)
    (grants : before.heap.GrantsMethod) :
    (engine.getAttribute (.ref type) name).Makes before outside limbo
      { function, receiver := none, owner := some (.ref owner), watchers := [] } := by
  obtain ⟨value, known, makes⟩ :=
    engine.makes_readThrough .nil settled resolves (fun _ member => nomatch member) grants
  obtain ⟨data, held⟩ := isType_of_find known
  refine makes.of_run_eq
    ((Attempt.run_ask_bind (Payload.type data) (before.heap.read_eq_ok.mpr held)).trans ?_)
  show (engine.typeAttribute type name).run before = _
  unfold typeAttribute
  rw [if_neg ordinary]
  exact Attempt.run_ask_bind (some value) known

/-! ### Calls -/

/-- A bound method calls its function with the receiver before the arguments. -/
theorem exists_call_of_bound {method : Handle} {data : Method} {receiver : Value}
    (enough : 0 < engine.rounds) (settled : before.heap.Settled outside limbo)
    (found : before.heap.payload? method = some (.method data)) (bound : data.receiver = some receiver)
    (arguments : Arguments) :
    ∃ ready, (before.heap.holding ([receiver].filterMap Value.handle?)).Observed ready ∧
      (engine.call (.ref method) arguments).run before =
        (engine.invoke data.function (arguments.prepend receiver)).run
          { before with heap := ready } := by
  have parts : data.parts = [receiver] ++ data.owner.toList := by
    rw [Method.parts, bound]
    rfl
  have there := parts ▸ settled.sound.isLive_of_method found
  rw [owned_append] at there
  let taken : World Code Host :=
    { before with heap := before.heap.holding ([receiver].filterMap Value.handle?) }
  have shows : before.heap.Shows taken.heap := settled.shows.holding _
  obtain ⟨ready, gaveUp, observed⟩ := engine.releaseList_of_held enough shows
    (fun handle member => there handle (Multiset.mem_add.mpr (Or.inr member)))
    (Observed.refl (taken.heap.holding (data.owner.toList.filterMap Value.handle?)))
  refine ⟨ready, observed, ?_⟩
  have read := before.heap.read_eq_ok.mpr found
  have retained : (retainAll data.parts : Action Code Host Unit) before = .ok ((), { before with
      heap := taken.heap.holding (data.owner.toList.filterMap Value.handle?) }) := by
    rw [retainAll_apply before (settled.sound.isLive_of_method found), parts, List.filterMap_append,
      holding_append]
  refine (Attempt.run_ask_bind _ read).trans ((Attempt.run_ask_bind data ?_).trans
    ((Attempt.run_act_bind retained).trans ?_))
  · exact Heap.bind_eq_ok.mpr ⟨_, read, rfl⟩
  · rw [bound]
    rw [releaseList_toList] at gaveUp
    exact Attempt.run_act_bind gaveUp

/-- An unbound method calls its function with the arguments, if these suit it. -/
theorem exists_call_of_suits {method : Handle} {data : Method} {arguments : Arguments}
    (enough : 0 < engine.rounds) (settled : before.heap.Settled outside limbo)
    (found : before.heap.payload? method = some (.method data)) (unbound : data.receiver = none)
    (suits : before.heap.Suits data arguments) :
    ∃ ready, before.heap.Observed ready ∧
      (engine.call (.ref method) arguments).run before =
        (engine.invoke data.function arguments).run { before with heap := ready } := by
  obtain ⟨ready, observed, called⟩ := exists_checked enough settled.sound settled.settled found unbound
    (settled.sound.looks_checkReceiver suits)
  exact ⟨ready, observed, called engine.run⟩

/-- Reads an attribute of a class, and calls it with an instance before the other arguments. -/
def callThrough (engine : Engine Code Host) (type object : Value) (name : String)
    (arguments : Arguments) : Attempt Code Host Value := do
  let callable ← engine.getAttribute type name
  retainValue object
  (engine.call callable (arguments.prepend object)).ensuring (engine.release callable)

end Engine

namespace Attempt

theorem run_ensuring_congr {α : Type} {first second : Attempt Code Host α}
    {before between : World Code Host} (same : first.run before = second.run between)
    (action : Action Code Host Unit) :
    (first.ensuring action).run before = (second.ensuring action).run between := by
  show (first.run before >>= _) = (second.run between >>= _)
  rw [same]

end Attempt

/-! ### The two ways -/

namespace Engine

variable (engine : Engine Code Host) {before : World Code Host} {outside : Multiset Handle}
  {limbo : List Handle} {object function owner : Handle} {data : Instance} {name : String}

/-- An attribute of an instance is read and called. -/
theorem exists_callAttribute (enough : 0 < engine.rounds) (settled : before.heap.Settled outside limbo)
    (found : before.heap.payload? object = some (.object data)) (ordinary : name ≠ "__class__")
    (absent : data.attributes.find? name = none)
    (resolves : before.heap.Resolves data.type name function owner)
    (grants : before.heap.GrantsMethod) (arguments : Arguments) (walk : Memo.Walk) : ∃ method ready,
    before.heap.Gains method
        { function, receiver := some (.ref object), owner := some (.ref owner), watchers := [] } ready ∧
      (engine.callAttribute (.ref object) name arguments walk).run before =
        ((engine.invoke function (arguments.prepend (.ref object))).ensuring
          (engine.release (.ref method))).run { before with heap := ready } := by
  obtain ⟨method, after, made, gains, settles⟩ :=
    engine.makes_getAttribute settled found ordinary absent resolves grants
  let bound : World Code Host := { before with heap := after }
  have owned : bound.heap.Settled (outside + {method}) limbo := settles
  obtain ⟨ready, observed, called⟩ :=
    engine.exists_call_of_bound enough owned gains.here rfl arguments
  refine ⟨method, ready, (gains.holding _).observed observed, ?_⟩
  have unlike : before.heap.method? (.ref object) = .ok none := by
    simp only [Heap.method?, Heap.readValue, before.heap.read_eq_ok.mpr found]
    rfl
  have read : ((engine.getAttribute (.ref object) name).onError (engine.releaseArguments arguments)).run
      before = .ok (.ok (.ref method), bound) := Action.bind_of_ok made
  calc (engine.callAttribute (.ref object) name arguments walk).run before
    _ = (engine.callRead (.ref object) name arguments).run before := Attempt.run_ask_bind none unlike
    _ = ((engine.call (.ref method) arguments).ensuring (engine.release (.ref method))).run bound :=
      Attempt.run_bind_of_ok read
    _ = _ := Attempt.run_ensuring_congr called _

/-- The attribute of the class of an instance is read and called with the instance. -/
theorem exists_callThrough (enough : 0 < engine.rounds) (settled : before.heap.Settled outside limbo)
    (found : before.heap.payload? object = some (.object data)) (ordinary : name ≠ "__name__")
    (resolves : before.heap.Resolves data.type name function owner)
    (grants : before.heap.GrantsMethod) (arguments : Arguments) : ∃ method ready,
    before.heap.Gains method
        { function, receiver := none, owner := some (.ref owner), watchers := [] } ready ∧
      (engine.callThrough (.ref data.type) (.ref object) name arguments).run before =
        ((engine.invoke function (arguments.prepend (.ref object))).ensuring
          (engine.release (.ref method))).run { before with heap := ready } := by
  obtain ⟨method, after, made, gains, settles⟩ :=
    engine.makes_getAttribute_type settled ordinary resolves grants
  let read : World Code Host := { before with heap := after }
  have there : read.heap.payload? object = some (.object data) :=
    (gains.payload?_of_isLive (isLive_of_payload? found)).trans found
  have live : ∀ handle ∈ (Value.ref object).owns, read.heap.isLive handle := fun handle member =>
    Multiset.mem_singleton.mp member ▸ isLive_of_payload? there
  let held : World Code Host :=
    { before with heap := after.holding ([Value.ref object].filterMap Value.handle?) }
  have gained := gains.holding ([Value.ref object].filterMap Value.handle?)
  have owned : held.heap.Settled (outside + {method} + (Value.ref object).owns) limbo :=
    settles.holding live
  have line : owner ∈ held.heap.lineage data.type := by
    obtain ⟨_, isType, _⟩ := mem_lineage.mp resolves.mem_lineage
    rw [lineage_congr (gained.payload?_of_isLive (isLive_of_payload? isType))]
    exact resolves.mem_lineage
  obtain ⟨_, isType, leads⟩ := owned.sound.leads_of_mem_lineage line
  have suits : held.heap.Suits
      { function, receiver := none, owner := some (.ref owner), watchers := [] }
      (arguments.prepend (.ref object)) :=
    ⟨.ref object, owner, rfl, rfl, isType, object, data, rfl,
      (after.payload?_holding _ object).trans there, leads⟩
  obtain ⟨ready, observed, called⟩ := engine.exists_call_of_suits enough owned gained.here rfl suits
  refine ⟨method, ready, gained.observed observed, ?_⟩
  calc (engine.callThrough (.ref data.type) (.ref object) name arguments).run before
    _ = (do
          retainValue (.ref object)
          (engine.call (.ref method) (arguments.prepend (.ref object))).ensuring
            (engine.release (.ref method))).run read := Attempt.run_bind_of_ok made
    _ = ((engine.call (.ref method) (arguments.prepend (.ref object))).ensuring
          (engine.release (.ref method))).run held :=
      Attempt.run_retainValue_bind (retainValue_apply read live)
    _ = _ := Attempt.run_ensuring_congr called _

end Engine

namespace Reached

variable {held : Host → Multiset Handle} {bodies : Code → Arguments → Program Code Host}
  {config : Config} {hand : Multiset Handle} {world : World Code (Recorded Code Host)}
  {heap : Heap Code} {object function owner : Handle} {data : Instance} {name : String}

/-- In every heap of a run, to call an attribute of an instance is to call the attribute of its class
with the instance before the other arguments, if the instance has no such attribute itself and the
class finds a function or an unbound method of its own. Either way a method comes to the heap, and then
the same function is called with the same arguments. -/
theorem bound_and_unbound_calls_agree (respectful : RespectfulBodies held bodies)
    (reached : Reached held bodies config hand world) (member : heap ∈ heaps world) (host : Other)
    (engine : Engine Code Other) (enough : 0 < engine.rounds)
    (found : heap.payload? object = some (.object data)) (ordinary : name ≠ "__class__")
    (unnamed : name ≠ "__name__") (absent : data.attributes.find? name = none)
    (resolves : heap.Resolves data.type name function owner) (grants : heap.GrantsMethod)
    (arguments : Arguments) (walk : Memo.Walk) :
    ∃ wrapped bound unbound ready other, heap.payload? function = some (.function wrapped) ∧
      heap.Gains bound
        { function, receiver := some (.ref object), owner := some (.ref owner), watchers := [] } ready ∧
      (engine.callAttribute (.ref object) name arguments walk).run { heap, host } =
        ((engine.invoke function (arguments.prepend (.ref object))).ensuring
          (engine.release (.ref bound))).run { heap := ready, host } ∧
      heap.Gains unbound
        { function, receiver := none, owner := some (.ref owner), watchers := [] } other ∧
      (engine.callThrough (.ref data.type) (.ref object) name arguments).run { heap, host } =
        ((engine.invoke function (arguments.prepend (.ref object))).ensuring
          (engine.release (.ref unbound))).run { heap := other, host } := by
  obtain ⟨⟨outside, limbo, sound⟩, settled⟩ := reached.orderly respectful member
  have orderly : (World.mk heap host).heap.Settled outside limbo := ⟨sound, settled⟩
  obtain ⟨wrapped, wraps⟩ := resolves.exists_function sound
  obtain ⟨bound, ready, gains, called⟩ :=
    engine.exists_callAttribute enough orderly found ordinary absent resolves grants arguments walk
  obtain ⟨unbound, other, gained, also⟩ :=
    engine.exists_callThrough enough orderly found unnamed resolves grants arguments
  exact ⟨wrapped, bound, unbound, ready, other, wraps, gains, called, gained, also⟩

/-- An instance of a class calls a function that a base of the class has. -/
theorem bound_and_unbound_calls_of_inherited : ∃ world : World Unit (Recorded Unit Unit),
    ∃ bound unbound ready other,
      Reached (fun _ => 0) idleBodies Config.standard ({0} + {1} + {2} + {3}) world ∧
      ((bodiesEngine idleBodies 2).callAttribute (.ref 3) "f" ⟨[.int 1], [("key", .ref 2)]⟩
          .recorded).run world =
        (((bodiesEngine idleBodies 2).invoke 1 ⟨[.ref 3, .int 1], [("key", .ref 2)]⟩).ensuring
          ((bodiesEngine idleBodies 2).release (.ref bound))).run { world with heap := ready } ∧
      ((bodiesEngine idleBodies 2).callThrough (.ref 2) (.ref 3) "f" ⟨[.int 1], [("key", .ref 2)]⟩).run
          world =
        (((bodiesEngine idleBodies 2).invoke 1 ⟨[.ref 3, .int 1], [("key", .ref 2)]⟩).ensuring
          ((bodiesEngine idleBodies 2).release (.ref unbound))).run { world with heap := other } := by
  obtain ⟨world, reached, seen⟩ : ∃ world : World Unit (Recorded Unit Unit),
      Reached (fun _ => 0) idleBodies Config.standard ({0} + {1} + {2} + {3}) world ∧
      ((world.heap.instanceType? (.ref 3)).toOption, (world.heap.find 2 "f").toOption,
        decide ((world.heap.payload? 3).map Payload.size = some 104) &&
          decide ((world.heap.payload? 1).map Payload.kind = some .function) &&
          (world.heap.tracker.charge 64).toOption.isSome &&
          !world.heap.tracker.collectionDue (world.heap.sinceCollection + 1)) =
      (some (some 2), some (some (.ref 1)), true) :=
    exists_follow [.newClass "C" [], .newFunction "f" none none (), .share (.ref 1),
      .setAttribute (.ref 0) "f" (.ref 1), .newClass "D" [.ref 0], .newInstance (.ref 2)]
      8 () _ _ rfl (by decide +kernel)
  obtain ⟨made, rest⟩ := Prod.mk.inj seen
  obtain ⟨find, checked⟩ := Prod.mk.inj rest
  simp only [Bool.and_eq_true, decide_eq_true_eq, Bool.not_eq_true'] at checked
  obtain ⟨⟨⟨small, kind⟩, accepted⟩, early⟩ := checked
  obtain ⟨object, data, same, found, type⟩ := instanceType?_eq_some.mp (eq_ok_of_toOption made)
  cases same
  -- An instance that takes no more than 104 bytes has no attributes.
  have bare : data.attributes.entries = [] := by
    rw [found] at small
    have size : 104 + data.attributes.size * 40 + data.watchers.length * 8 = 104 :=
      Option.some.inj small
    exact List.length_eq_zero_iff.mp (show data.attributes.size = 0 by omega)
  have absent : data.attributes.find? "f" = none := by
    unfold Attributes.find?
    rw [bare]
    rfl
  obtain ⟨function, held, isFunction⟩ := Option.map_eq_some_iff.mp kind
  cases function with
  | function wrapped =>
    have resolves : world.heap.Resolves data.type "f" 1 data.type :=
      Or.inl ⟨type ▸ eq_ok_of_toOption find, rfl, wrapped, held⟩
    obtain ⟨tracker, charged⟩ := Option.isSome_iff_exists.mp accepted
    obtain ⟨_, bound, unbound, ready, other, _, _, called, _, also⟩ :=
      bound_and_unbound_calls_agree respectful_idleBodies reached List.mem_cons_self world.host
        (bodiesEngine idleBodies 2) (by decide) found (by decide) (by decide) absent resolves
        ⟨⟨tracker, eq_ok_of_toOption charged⟩, early⟩ ⟨[.int 1], [("key", .ref 2)]⟩ .recorded
    rw [type] at also
    exact ⟨world, bound, unbound, ready, other, reached, called, also⟩
  | _ => cases isFunction

end Reached

end ObjectHeap
