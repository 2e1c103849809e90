/-
This file splits the reading of an attribute into two halves. Looking the attribute up only asks the
heap, and what is found is then handed out: a text as a new string, a stored value as it is, and
what a class found read through the class. It also follows what is looked up while references are
given up and no code of the host runs. Entries go then, and weak references are cleared or leave a
register, but no lookup reads either, so whatever is still there answers as before.
-/

import ObjectHeap.Proofs.Access
import ObjectHeap.Proofs.Course
import ObjectHeap.Proofs.Reproduction

namespace ObjectHeap

variable {Code Host : Type}

/-! ### Looking up and handing out -/

/-- What is found when an attribute is looked up. -/
inductive Finding where
  /-- A text, of which each reader gets a new string. -/
  | text (text : String)
  /-- A value that is handed out as it is. -/
  | content (value : Value)
  /-- A value that a class found, to be read through an instance, if there is one, and the class. -/
  | member (found object type : Value)
deriving DecidableEq

/-- What a function has under a name. -/
def Function.lookup (data : Function Code) (name : String) : Option Finding :=
  match name with
  | "__name__" => some (.text data.name)
  | "__qualname__" => some (.text data.qualifiedName)
  | "__doc__" =>
    match data.doc with
    | some doc => some (.text doc)
    | none => some (.content .nil)
  | _ => (data.attributes.find? name).map .content

namespace Heap

/-- What an entry with a payload has under a name, in itself, in its class or in the function that
it is made of. -/
def lookupIn (heap : Heap Code) (handle : Handle) (name : String) :
    Payload Code → Except Fault (Option Finding)
  | .object data =>
    match data.attributes.find? name with
    | some value => return some (.content value)
    | none =>
      if name = "__class__" then
        return some (.content (.ref data.type))
      else
        return (← heap.find data.type name).map (.member · (.ref handle) (.ref data.type))
  | .type data =>
    if name = "__name__" then
      return some (.text data.name)
    else
      return (← heap.find handle name).map (.member · .nil (.ref handle))
  | .function data => return data.lookup name
  | .method data =>
    match name with
    | "__func__" | "im_func" => return some (.content (.ref data.function))
    | "__self__" | "im_self" => return some (.content (data.receiver.getD .nil))
    | "im_class" => return some (.content (data.owner.getD .nil))
    | _ => return (← heap.function data.function).lookup name
  | _ => return none

/-- What an entry has under a name. -/
def lookup (heap : Heap Code) (handle : Handle) (name : String) :
    Except Fault (Option Finding) := do
  heap.lookupIn handle name (← heap.read handle)

theorem lookup_eq_lookupIn {heap : Heap Code} {handle : Handle} {payload : Payload Code}
    (held : heap.payload? handle = some payload) (name : String) :
    heap.lookup handle name = heap.lookupIn handle name payload := by
  unfold lookup
  rw [heap.read_eq_ok.mpr held]
  rfl

end Heap

namespace Engine

variable (engine : Engine Code Host)

/-- Hands out what was found. -/
def deliver : Finding → Attempt Code Host Value
  | .text text => engine.newString text
  | .content value => do
    retainValue value
    return value
  | .member found object type => engine.readThrough found object type

variable {world : World Code Host} {handle : Handle} {name : String} {finding : Finding}

theorem functionAttribute_of_lookup {data : Function Code}
    (held : world.heap.payload? handle = some (.function data))
    (found : data.lookup name = some finding) :
    (engine.functionAttribute handle name).run world = (engine.deliver finding).run world := by
  refine (Attempt.run_ask_bind _ (world.heap.read_eq_ok.mpr held)).trans ?_
  unfold Function.lookup at found
  dsimp only
  split at found
  · cases found
    rfl
  · cases found
    rfl
  · cases documented : data.doc <;> simp only [documented] at found ⊢ <;> cases found <;> rfl
  · obtain ⟨value, stored, rfl⟩ := Option.map_eq_some_iff.mp found
    simp only [stored]
    rfl

theorem instanceTypeAttribute_of_lookup {data : Instance}
    (absent : data.attributes.find? name = none)
    (found : world.heap.lookupIn handle name (.object data) = .ok (some finding)) :
    (engine.instanceTypeAttribute (.ref handle) data.type name).run world =
      (engine.deliver finding).run world := by
  simp only [Heap.lookupIn, absent] at found
  unfold instanceTypeAttribute
  split at found
  · cases found
    rw [if_pos ‹_›]
    rfl
  · obtain ⟨member, looked, same⟩ := Heap.bind_eq_ok.mp found
    rw [if_neg ‹_›]
    refine (Attempt.run_ask_bind member looked).trans ?_
    obtain ⟨value, rfl, rfl⟩ := Option.map_eq_some_iff.mp (Except.ok.inj same)
    rfl

theorem typeAttribute_of_lookup {data : Class} (held : world.heap.payload? handle = some (.type data))
    (found : world.heap.lookupIn handle name (.type data) = .ok (some finding)) :
    (engine.typeAttribute handle name).run world = (engine.deliver finding).run world := by
  unfold Heap.lookupIn at found
  dsimp only at found
  unfold typeAttribute
  split at found
  · cases found
    rw [if_pos ‹_›]
    exact Attempt.run_ask_bind data.name
      (Heap.bind_eq_ok.mpr ⟨_, world.heap.read_eq_ok.mpr held, rfl⟩)
  · obtain ⟨member, looked, same⟩ := Heap.bind_eq_ok.mp found
    rw [if_neg ‹_›]
    refine (Attempt.run_ask_bind member looked).trans ?_
    obtain ⟨value, rfl, rfl⟩ := Option.map_eq_some_iff.mp (Except.ok.inj same)
    rfl

theorem methodAttribute_of_lookup {data : Method}
    (held : world.heap.payload? handle = some (.method data))
    (found : world.heap.lookupIn handle name (.method data) = .ok (some finding)) :
    (engine.methodAttribute handle name).run world = (engine.deliver finding).run world := by
  have asked := Heap.method_eq_ok.mpr held
  unfold Heap.lookupIn at found
  dsimp only at found
  split at found
  case h_6 =>
    -- Only names that the method does not know itself get here.
    obtain ⟨function, looked, same⟩ := Heap.bind_eq_ok.mp found
    obtain ⟨payload, there, isFunction⟩ := Heap.bind_eq_ok.mp looked
    cases payload with
    | function data =>
      cases isFunction
      have reads := engine.functionAttribute_of_lookup (world.heap.read_eq_ok.mp there)
        (Except.ok.inj same)
      refine (Attempt.run_ask_bind data asked).trans (Eq.trans ?_ reads)
      split <;> first | rfl | contradiction
    | _ => cases isFunction
  all_goals
    cases found
    exact (Attempt.run_ask_bind data asked).trans rfl

/-- An attribute is read by handing out what is found under its name. -/
theorem getAttribute_of_lookup (found : world.heap.lookup handle name = .ok (some finding)) :
    (engine.getAttribute (.ref handle) name).run world = (engine.deliver finding).run world := by
  obtain ⟨payload, read, rest⟩ := Heap.bind_eq_ok.mp found
  refine (Attempt.run_ask_bind payload read).trans ?_
  have held := world.heap.read_eq_ok.mp read
  cases payload with
  | object data =>
    cases stored : data.attributes.find? name with
    | some value =>
      simp only [Heap.lookupIn, stored] at rest ⊢
      cases rest
      rfl
    | none =>
      simp only [stored]
      exact engine.instanceTypeAttribute_of_lookup stored rest
  | type data => exact engine.typeAttribute_of_lookup held rest
  | function data => exact engine.functionAttribute_of_lookup held (Except.ok.inj rest)
  | method data => exact engine.methodAttribute_of_lookup held rest
  | _ => cases rest

end Engine

/-! ### What is left -/

/-- A payload without weak references: neither those that are registered with it, nor, if it is one
itself, what it refers to and calls. -/
def Payload.bare : Payload Code → Payload Code
  | .weakref _ => Heap.deadWeakref
  | payload => payload.mapWatchers fun _ => []

theorem Payload.bare_mapWatchers (payload : Payload Code) (change : List Handle → List Handle) :
    (payload.mapWatchers change).bare = payload.bare := by
  cases payload <;> rfl

theorem Payload.kind_bare (payload : Payload Code) : payload.bare.kind = payload.kind := by
  cases payload <;> rfl

namespace Heap

/-- Entries may have gone, and what is left is as it was, but for weak references. -/
def Dwindles (before after : Heap Code) : Prop :=
  ∀ handle later, after.payload? handle = some later →
    ∃ former, before.payload? handle = some former ∧ former.bare = later.bare

namespace Dwindles

variable {before between after : Heap Code} {outside : Multiset Handle} {limbo : List Handle}
  {handle : Handle}

theorem of_payloads (same : ∀ handle, after.payload? handle = before.payload? handle) :
    before.Dwindles after :=
  fun handle later held => ⟨later, (same handle).symm.trans held, rfl⟩

theorem refl (heap : Heap Code) : heap.Dwindles heap := .of_payloads fun _ => rfl

theorem trans (first : before.Dwindles between) (second : between.Dwindles after) :
    before.Dwindles after := by
  intro handle later held
  obtain ⟨middle, found, late⟩ := second handle later held
  obtain ⟨former, there, early⟩ := first handle middle found
  exact ⟨former, there, early.trans late⟩

/-- A payload changes, but not more than its weak references. -/
theorem mapPayload (heap : Heap Code) (handle : Handle) {change : Payload Code → Payload Code}
    (same : ∀ payload, heap.payload? handle = some payload → payload.bare = (change payload).bare) :
    heap.Dwindles (heap.mapPayload handle change) := by
  intro other later held
  rw [payload?_mapPayload] at held
  split at held
  · rename_i here
    obtain ⟨payload, there, rfl⟩ := Option.map_eq_some_iff.mp held
    exact ⟨payload, there, same payload (here ▸ there)⟩
  · exact ⟨later, held, rfl⟩

variable (dwindles : before.Dwindles after)

include dwindles

/-- What is left of a class has the members and ancestors that it had. -/
theorem type {data : Class} (held : after.payload? handle = some (.type data)) :
    before.payload? handle = some (.type data) := by
  obtain ⟨former, found, same⟩ := dwindles handle _ held
  cases former <;> cases same
  exact found

theorem function {data : Function Code} (held : after.payload? handle = some (.function data)) :
    before.payload? handle = some (.function data) := by
  obtain ⟨former, found, same⟩ := dwindles handle _ held
  cases former <;> cases same
  exact found

theorem object {data : Instance} (held : after.payload? handle = some (.object data)) :
    ∃ former : Instance, before.payload? handle = some (.object former) ∧
      former.type = data.type ∧ former.attributes = data.attributes := by
  obtain ⟨former, found, same⟩ := dwindles handle _ held
  cases former with
  | object former =>
    have same := Payload.object.inj same
    exact ⟨former, found, (congrArg Instance.type same :), (congrArg Instance.attributes same :)⟩
  | _ => cases same

theorem method {data : Method} (held : after.payload? handle = some (.method data)) :
    ∃ former : Method, before.payload? handle = some (.method former) ∧
      former.function = data.function ∧ former.receiver = data.receiver ∧
        former.owner = data.owner := by
  obtain ⟨former, found, same⟩ := dwindles handle _ held
  cases former with
  | method former =>
    have same := Payload.method.inj same
    exact ⟨former, found, (congrArg Method.function same :), (congrArg Method.receiver same :),
      (congrArg Method.owner same :)⟩
  | _ => cases same

/-- What is no class was none. -/
theorem of_kind {later : Payload Code} (held : after.payload? handle = some later)
    (other : later.kind ≠ .type) :
    ∃ former, before.payload? handle = some former ∧ former.kind ≠ .type := by
  obtain ⟨former, found, same⟩ := dwindles handle _ held
  have kinds : former.kind = later.kind := by rw [← former.kind_bare, same, later.kind_bare]
  exact ⟨former, found, kinds ▸ other⟩

theorem findAlong (name : String) {types : List Handle} (live : ∀ type ∈ types, after.isLive type) :
    after.findAlong name types = before.findAlong name types := by
  induction types with
  | nil => rfl
  | cons type rest inductionHypothesis =>
    have others := inductionHypothesis fun other member => live other (List.mem_cons_of_mem _ member)
    obtain ⟨payload, held⟩ := exists_payload?_of_isLive (live type List.mem_cons_self)
    have read := after.read_eq_ok.mpr held
    cases payload with
    | type data =>
      have readBefore := before.read_eq_ok.mpr (dwindles.type held)
      simp only [Heap.findAlong, read, readBefore, others]
    | _ =>
      obtain ⟨former, found, other⟩ := dwindles.of_kind held fun same => by cases same
      have readBefore := before.read_eq_ok.mpr found
      simp only [Heap.findAlong, read, readBefore, others]
      cases former <;> first | rfl | exact absurd rfl other

/-- A class that is left finds what it found. -/
theorem find (sound : after.Sound outside limbo) {type : Handle} (live : after.isLive type)
    (name : String) : after.find type name = before.find type name := by
  obtain ⟨payload, held⟩ := exists_payload?_of_isLive live
  have read := after.read_eq_ok.mpr held
  cases payload with
  | type data =>
    rw [find_of_type held, find_of_type (dwindles.type held)]
    exact dwindles.findAlong name (sound.isLive_of_chain held)
  | _ =>
    obtain ⟨former, found, other⟩ := dwindles.of_kind held fun same => by cases same
    have readBefore := before.read_eq_ok.mpr found
    simp only [Heap.find, read, readBefore]
    cases former <;> first | rfl | exact absurd rfl other

/-- Whatever is left has under a name what it had. -/
theorem lookup (sound : after.Sound outside limbo) (live : after.isLive handle) (name : String) :
    after.lookup handle name = before.lookup handle name := by
  obtain ⟨payload, held⟩ := exists_payload?_of_isLive live
  rw [lookup_eq_lookupIn held]
  cases payload with
  | object data =>
    obtain ⟨former, found, types, attributes⟩ := dwindles.object held
    have there : after.isLive data.type :=
      sound.balanced.isLive_of_visits held List.mem_cons_self
    rw [lookup_eq_lookupIn found]
    simp only [lookupIn, types, attributes, dwindles.find sound there]
  | type data =>
    rw [lookup_eq_lookupIn (dwindles.type held)]
    simp only [lookupIn, dwindles.find sound live]
  | function data =>
    rw [lookup_eq_lookupIn (dwindles.function held)]
    rfl
  | method data =>
    obtain ⟨former, found, functions, receivers, owners⟩ := dwindles.method held
    obtain ⟨function, there⟩ := sound.exists_function held
    have asked : after.function data.function = before.function data.function := by
      simp only [Heap.function, after.read_eq_ok.mpr there,
        before.read_eq_ok.mpr (dwindles.function there)]
    rw [lookup_eq_lookupIn found]
    simp only [lookupIn, functions, receivers, owners, asked]
  | str _ | list _ | tuple _ | weakref _ =>
    obtain ⟨former, found, same⟩ := dwindles handle _ held
    rw [lookup_eq_lookupIn found]
    cases former <;> first | rfl | cases same

end Dwindles

end Heap

/-- Heaps dwindle along this course. -/
def Course.dwindling : Course Code Host where
  leads before after := before.heap.Dwindles after.heap
  still world := .refl world.heap
  onward first second := first.trans second
  retain {world handle} _ := .of_payloads (world.heap.payload?_increment handle)

theorem Course.lenient_dwindling : (Course.dwindling : Course Code Host).Lenient where
  counts world handle change := .of_payloads (world.heap.payload?_mapEntry_count handle · change)
  registers world handle change :=
    .mapPayload _ _ fun payload _ => (payload.bare_mapWatchers change).symm
  clears world target weakref := by
    show world.heap.Dwindles (world.heap.clear target weakref).2
    unfold Heap.clear
    split
    · rename_i data held
      split
      · refine .mapPayload _ _ fun payload found => ?_
        cases held.symm.trans found
        rfl
      · exact .refl _
    · exact .refl _
  books world heap slots _ := .of_payloads fun handle =>
    Heap.payload?_congr (Heap.occupant?_congr slots handle)
  vacates world handle := by
    intro other later held
    rw [world.heap.payload?_setEntry] at held
    split at held
    · cases held
    · exact ⟨later, held, rfl⟩

/-- A release in which no code of the host runs lets a heap dwindle. -/
theorem Engine.dwindles_release? (engine : Engine Code Host) (value : Option Value)
    {before after : World Code Host}
    (ended : engine.silenced.release? value before = .ok ((), after)) :
    before.heap.Dwindles after.heap := by
  have calls (callback : Value) (arguments : Arguments) :
      (engine.silenced.callBack callback arguments).Obeys
        (Course.dwindling : Course Code Host).discipline := by
    intro _ _ _ answered
    cases answered
  cases value with
  | none =>
    cases ended
    exact .refl _
  | some value => exact Course.lenient_dwindling.release calls value ended

end ObjectHeap
