/-
This file says how a heap may come out of another one. A slot is told apart over time by the
number of entries it has held: an entry that leaves a slot never comes back, and the next one
raises the number. As long as the number stays, the slot holds the same entry, whose kind and
fixed parts stay as they are; a weak reference in it is cleared or keeps its target, and then the
target is the same entry too, as is every entry that the entry is made of. What is owned outside
keeps its entry throughout.
-/

import Mathlib.Logic.Relation
import ObjectHeap.Proofs.Balance

namespace ObjectHeap

variable {Code : Type}

/-! ### Payloads over time -/

namespace Payload

/-- What a payload may become while its entry lives. -/
def Continues : Payload Code → Payload Code → Prop
  | .str text, .str later => later = text
  | .list _, .list _ => True
  | .tuple items, .tuple later => later = items
  | .function data, .function later => { later with attributes := data.attributes } = data
  | .type data, .type later => { later with members := data.members } = data
  | .object data, .object later => later.type = data.type
  | .weakref data, .weakref later => later.target = data.target ∨ later.target = none
  | .method data, .method later => { later with watchers := data.watchers } = data
  | _, _ => False

/-- What a payload may become when no code runs: weak references to it come and go, and a weak
reference is cleared. -/
def Alike : Payload Code → Payload Code → Prop
  | .weakref data, .weakref later =>
    later.callback = data.callback ∧ (later.target = data.target ∨ later.target = none)
  | .object data, .object later => { later with watchers := data.watchers } = data
  | .method data, .method later => { later with watchers := data.watchers } = data
  | .weakref _, _ | .object _, _ | .method _, _ => False
  | payload, later => later = payload

/-- What a payload is made of: the references in it that never change. They are the items of a tuple,
the bases of a class, the class of an instance, and all that a method holds. -/
def constituents : Payload Code → List Handle
  | .tuple items => items.filterMap Value.handle?
  | .type data => data.bases
  | .object data => [data.type]
  | .method data =>
    data.function :: ((data.receiver.bind Value.handle?).toList ++
      (data.owner.bind Value.handle?).toList)
  | _ => []

theorem constituents_subset_visits (payload : Payload Code) :
    payload.constituents ⊆ payload.visits := by
  intro handle member
  cases payload with
  | tuple items => exact member
  | method data => exact member
  | type data => exact List.mem_append_left _ member
  | object data =>
    obtain rfl := List.mem_singleton.mp member
    exact List.mem_cons_self
  | _ => cases member

theorem Continues.refl (payload : Payload Code) : payload.Continues payload := by
  cases payload <;> simp [Continues]

theorem Continues.trans {first second third : Payload Code} (one : first.Continues second)
    (two : second.Continues third) : first.Continues third := by
  cases first <;> cases second <;> try exact one.elim
  all_goals cases third <;> try exact two.elim
  case str.str.str => exact Eq.trans two one
  case list.list.list => trivial
  case tuple.tuple.tuple => exact Eq.trans two one
  case function.function.function data middle later =>
    simp only [Continues] at one two ⊢
    rw [← one, ← two]
  case type.type.type data middle later =>
    simp only [Continues] at one two ⊢
    rw [← one, ← two]
  case object.object.object => exact Eq.trans two one
  case weakref.weakref.weakref data middle later =>
    rcases two with same | cleared
    · rw [Continues, same]
      exact one
    · exact Or.inr cleared
  case method.method.method data middle later =>
    simp only [Continues] at one two ⊢
    rw [← one, ← two]

theorem Alike.refl (payload : Payload Code) : payload.Alike payload := by
  cases payload <;> simp [Alike]

theorem Alike.trans {first second third : Payload Code} (one : first.Alike second)
    (two : second.Alike third) : first.Alike third := by
  cases first <;> cases second <;> simp only [Alike, reduceCtorEq] at one
  all_goals cases third <;> simp only [Alike, reduceCtorEq] at two ⊢
  case weakref.weakref.weakref data middle later =>
    refine ⟨two.1.trans one.1, ?_⟩
    rcases two.2 with same | cleared
    · rw [same]
      exact one.2
    · exact Or.inr cleared
  case object.object.object data middle later => rw [← one, ← two]
  case method.method.method data middle later => rw [← one, ← two]
  all_goals exact two.trans one

theorem Alike.continues {payload later : Payload Code} (alike : payload.Alike later) :
    payload.Continues later := by
  cases payload <;> cases later <;> simp only [Alike, reduceCtorEq] at alike
  case object.object data later => rw [Continues, ← alike]
  case weakref.weakref data later => exact alike.2
  case method.method data later => exact alike
  all_goals
    cases alike
    exact .refl _

/-- What becomes a method was the same method, but for the weak references to it. -/
theorem Continues.to_method {payload : Payload Code} {data : Method}
    (continues : payload.Continues (.method data)) : ∃ previous, payload = .method previous ∧
      data.function = previous.function ∧ data.receiver = previous.receiver ∧
      data.owner = previous.owner := by
  cases payload with
  | method previous =>
    have same : { data with watchers := previous.watchers } = previous := continues
    exact ⟨previous, rfl, (congrArg Method.function same :), (congrArg Method.receiver same :),
      (congrArg Method.owner same :)⟩
  | _ => exact continues.elim

/-- A class stays the same class, but for its members. -/
theorem Continues.of_type {data : Class} {later : Payload Code}
    (continues : (Payload.type data : Payload Code).Continues later) : ∃ next, later = .type next ∧
      next.bases = data.bases ∧ next.ancestors = data.ancestors := by
  cases later with
  | type next =>
    have same : { next with members := data.members } = data := continues
    exact ⟨next, rfl, (congrArg Class.bases same :), (congrArg Class.ancestors same :)⟩
  | _ => exact continues.elim

/-- What becomes a class was the same class, but for its members. -/
theorem Continues.to_type {payload : Payload Code} {data : Class}
    (continues : payload.Continues (.type data)) : ∃ previous, payload = .type previous ∧
      data.bases = previous.bases ∧ data.ancestors = previous.ancestors := by
  cases payload with
  | type previous =>
    obtain ⟨_, becomes, same⟩ := continues.of_type
    cases becomes
    exact ⟨previous, rfl, same⟩
  | _ => exact continues.elim

theorem Continues.constituents {payload later : Payload Code} (continues : payload.Continues later) :
    later.constituents = payload.constituents := by
  cases later with
  | method data =>
    obtain ⟨previous, rfl, functions, receivers, owners⟩ := continues.to_method
    simp only [Payload.constituents, functions, receivers, owners]
  | type data =>
    obtain ⟨previous, rfl, bases, _⟩ := continues.to_type
    exact bases
  | object data =>
    cases payload with
    | object previous => exact congrArg (fun type => [type]) continues
    | _ => exact continues.elim
  | tuple items =>
    cases payload with
    | tuple previous => exact congrArg (·.filterMap Value.handle?) continues
    | _ => exact continues.elim
  | _ => cases payload <;> first | rfl | exact continues.elim

/-- Payloads that are alike own the same references in the same order. -/
theorem Alike.visits {payload later : Payload Code} (alike : payload.Alike later) :
    later.visits = payload.visits := by
  cases payload with
  | weakref data =>
    cases later <;> simp only [Alike] at alike
    rw [Payload.visits, Payload.visits, alike.1]
  | object data =>
    cases later <;> simp only [Alike] at alike
    rw [← alike]
    rfl
  | method data =>
    cases later <;> simp only [Alike] at alike
    rw [← alike]
    rfl
  | _ => cases later <;> simp_all [Alike]

theorem Continues.kind {payload later : Payload Code} (continues : payload.Continues later) :
    later.kind = payload.kind := by
  cases payload <;> cases later <;> first | rfl | exact continues.elim

/-- Registering weak references makes no difference to anything else. -/
theorem alike_mapWatchers (payload : Payload Code) (change : List Handle → List Handle) :
    payload.Alike (payload.mapWatchers change) := by
  cases payload <;> simp [Alike, mapWatchers]

end Payload

namespace Heap

/-! ### What is kept alive -/

/-- One entry holds a reference to another one. -/
def Refers (heap : Heap Code) (source target : Handle) : Prop :=
  target ∈ heap.visits source

/-- A chain of references leads from one entry to another one. -/
def Leads (heap : Heap Code) : Handle → Handle → Prop :=
  Relation.ReflTransGen heap.Refers

/-- References from outside lead to an entry. -/
def Sustained (heap : Heap Code) (outside : Multiset Handle) (handle : Handle) : Prop :=
  ∃ root ∈ outside, heap.Leads root handle

theorem Sustained.of_mem {heap : Heap Code} {outside : Multiset Handle} {handle : Handle}
    (member : handle ∈ outside) : heap.Sustained outside handle :=
  ⟨handle, member, .refl⟩

theorem Sustained.step {heap : Heap Code} {outside : Multiset Handle} {source target : Handle}
    (sustained : heap.Sustained outside source) (refers : heap.Refers source target) :
    heap.Sustained outside target := by
  obtain ⟨root, member, leads⟩ := sustained
  exact ⟨root, member, leads.tail refers⟩

/-- An entry refers to what its payload owns. -/
theorem refers_of_payload? {heap : Heap Code} {source target : Handle} {payload : Payload Code}
    (held : heap.payload? source = some payload) (member : target ∈ payload.owns) :
    heap.Refers source target := by
  rw [Refers, visits, held]
  exact member

/-- What a sustained entry owns is sustained. -/
theorem Sustained.of_owned {heap : Heap Code} {outside : Multiset Handle} {source target : Handle}
    {payload : Payload Code} (sustained : heap.Sustained outside source)
    (held : heap.payload? source = some payload) (member : target ∈ payload.owns) :
    heap.Sustained outside target :=
  sustained.step (refers_of_payload? held member)

theorem Sustained.mono {heap : Heap Code} {outside more : Multiset Handle} {handle : Handle}
    (sustained : heap.Sustained outside handle) (sub : outside ⊆ more) :
    heap.Sustained more handle := by
  obtain ⟨root, member, leads⟩ := sustained
  exact ⟨root, sub member, leads⟩

/-- Whatever holds of the roots and passes from an entry to those it refers to holds of all that
is sustained. -/
@[elab_as_elim]
theorem Sustained.induction {heap : Heap Code} {outside : Multiset Handle} {holds : Handle → Prop}
    (roots : ∀ root ∈ outside, holds root)
    (step : ∀ source target, heap.Sustained outside source → holds source →
      heap.Refers source target → holds target)
    {handle : Handle} (sustained : heap.Sustained outside handle) : holds handle := by
  obtain ⟨root, member, leads⟩ := sustained
  induction leads with
  | refl => exact roots root member
  | tail reached refers inductionHypothesis =>
    exact step _ _ ⟨root, member, reached⟩ inductionHypothesis refers

/-- What one heap sustains is sustained in another one as well, if the roots are, and if all that is
sustained in both refers to the same entries. -/
theorem Sustained.of_unchanged {before after : Heap Code} {roots frame : Multiset Handle}
    (within : ∀ root ∈ roots, after.Sustained frame root)
    (unchanged : ∀ source, before.Sustained roots source → after.Sustained frame source →
      after.visits source = before.visits source)
    {handle : Handle} (sustained : before.Sustained roots handle) : after.Sustained frame handle := by
  refine sustained.induction within fun source target reached there refers => there.step ?_
  unfold Refers
  rwa [unchanged source reached there]

/-- What an entry refers to is live. -/
theorem Balanced.isLive_of_refers {heap : Heap Code} {outside : Multiset Handle}
    (balanced : heap.Balanced outside) {source target : Handle} (refers : heap.Refers source target) :
    heap.isLive target :=
  balanced.isLive_of_mem (Or.inr (Or.inr ((heap.mem_edges_iff target).mpr ⟨source, refers⟩)))

/-- What is sustained is live. -/
theorem Balanced.isLive_of_sustained {heap : Heap Code} {outside : Multiset Handle}
    (balanced : heap.Balanced outside) {handle : Handle}
    (sustained : heap.Sustained outside handle) : heap.isLive handle := by
  exact sustained.induction (fun root member => balanced.isLive_of_mem (Or.inl member))
    fun _ _ _ _ refers => balanced.isLive_of_refers refers

/-- What was sustained is still there if all that is left of it refers to what it referred to. -/
theorem Balanced.isLive_of_unchanged {before after : Heap Code} {outside frame : Multiset Handle}
    (balanced : after.Balanced outside) (sub : frame ⊆ outside)
    (unchanged : ∀ source, before.Sustained frame source → after.isLive source →
      after.visits source = before.visits source)
    {handle : Handle} (sustained : before.Sustained frame handle) : after.isLive handle := by
  refine sustained.induction (fun root member => balanced.isLive_of_mem (Or.inl (sub member)))
    fun source target reached live refers => ?_
  have same : target ∈ after.visits source := (unchanged source reached live).symm ▸ refers
  exact balanced.isLive_of_refers same

/-- Whatever an entry refers to is there. -/
theorem Balanced.isLive_of_visits {heap : Heap Code} {outside : Multiset Handle}
    (balanced : heap.Balanced outside) {handle target : Handle} {payload : Payload Code}
    (held : heap.payload? handle = some payload) (member : target ∈ payload.visits) :
    heap.isLive target :=
  balanced.isLive_of_refers (refers_of_payload? held member)

/-- The function that a method is made of is there. -/
theorem Balanced.isLive_function {heap : Heap Code} {outside : Multiset Handle}
    (balanced : heap.Balanced outside) {method : Handle} {data : Method}
    (held : heap.payload? method = some (.method data)) : heap.isLive data.function :=
  balanced.isLive_of_visits held List.mem_cons_self

/-! ### Heaps over time -/

/-- How a heap comes out of another one. -/
structure Evolves (before after : Heap Code) : Prop where
  older : ∀ handle, before.births handle ≤ after.births handle
  reborn : ∀ handle, before.occupant? handle = none → after.isLive handle →
    before.births handle < after.births handle
  continues : ∀ handle payload later, before.payload? handle = some payload →
    after.payload? handle = some later → after.births handle = before.births handle →
    payload.Continues later
  aims : ∀ weakref target, before.target? weakref = some target →
    after.target? weakref = some target → after.births weakref = before.births weakref →
    after.births target = before.births target
  consists : ∀ handle payload target, before.payload? handle = some payload →
    target ∈ payload.constituents → after.isLive handle →
    after.births handle = before.births handle → after.births target = before.births target

/-- An entry is where it was, and no code has changed it. -/
def Remains (before after : Heap Code) (handle : Handle) : Prop :=
  after.births handle = before.births handle ∧
    ∃ payload later, before.payload? handle = some payload ∧
      after.payload? handle = some later ∧ payload.Alike later

/-- How an operation takes a heap to another one: what the frame refers to keeps its entry, and
if the operation is calm, nothing that the frame sustains changes. -/
structure Carries (calm : Prop) (frame : Multiset Handle) (before after : Heap Code) : Prop where
  evolves : before.Evolves after
  kept : ∀ handle ∈ frame, after.births handle = before.births handle
  remains : calm → ∀ handle, before.Sustained frame handle → before.Remains after handle

variable {before middle after : Heap Code} {calm : Prop} {frame : Multiset Handle}

theorem Evolves.refl (heap : Heap Code) : heap.Evolves heap where
  older _ := le_rfl
  reborn _ empty live := by
    rw [isLive_eq, empty] at live
    cases live
  continues _ payload later held same _ := by
    rw [held] at same
    cases same
    exact Payload.Continues.refl payload
  aims _ _ _ _ _ := rfl
  consists _ _ _ _ _ _ _ := rfl

/-- An entry that is there in the end and has never been replaced was there all the time. -/
theorem Evolves.present (first : before.Evolves middle) (second : middle.Evolves after)
    {handle : Handle} (live : after.isLive handle)
    (same : after.births handle = before.births handle) :
    middle.isLive handle ∧ middle.births handle = before.births handle ∧
      after.births handle = middle.births handle := by
  have early := first.older handle
  have late := second.older handle
  refine ⟨?_, by omega, by omega⟩
  cases occupied : middle.occupant? handle with
  | some entry =>
    rw [isLive_eq, occupied]
    rfl
  | none =>
    have younger := second.reborn handle occupied live
    omega

theorem isLive_of_payload? {heap : Heap Code} {handle : Handle} {payload : Payload Code}
    (held : heap.payload? handle = some payload) : heap.isLive handle := by
  obtain ⟨entry, occupied, _⟩ := heap.payload?_eq_some.mp held
  rw [isLive_eq, occupied]
  rfl

theorem exists_payload?_of_isLive {heap : Heap Code} {handle : Handle}
    (live : heap.isLive handle) : ∃ payload, heap.payload? handle = some payload := by
  obtain ⟨entry, occupied⟩ := (heap.isLive_iff handle).mp live
  exact ⟨entry.payload, heap.payload?_eq_some.mpr ⟨entry, occupied, rfl⟩⟩

theorem target?_eq_some {heap : Heap Code} {weakref target : Handle} :
    heap.target? weakref = some target ↔
      ∃ data, heap.payload? weakref = some (.weakref data) ∧ data.target = some target := by
  unfold target?
  cases heap.payload? weakref with
  | none => simp
  | some payload => cases payload <;> simp [Payload.target?]

theorem isLive_of_target? {heap : Heap Code} {weakref target : Handle}
    (aimed : heap.target? weakref = some target) : heap.isLive weakref := by
  obtain ⟨data, held, _⟩ := target?_eq_some.mp aimed
  exact isLive_of_payload? held

/-- A function that is still there has the same name. -/
theorem Evolves.function (evolves : before.Evolves after) {handle : Handle} {data : Function Code}
    (same : after.births handle = before.births handle) (live : after.isLive handle)
    (held : before.payload? handle = some (.function data)) :
    ∃ later, after.payload? handle = some (.function later) ∧ later.name = data.name := by
  obtain ⟨payload, reached⟩ := exists_payload?_of_isLive live
  have continues := evolves.continues handle _ payload held reached same
  cases payload with
  | function later =>
    have sameFunction : { later with attributes := data.attributes } = data := continues
    exact ⟨later, reached, (congrArg Function.name sameFunction :)⟩
  | _ => exact continues.elim

/-- A method that is still there is made of the same function. -/
theorem Evolves.method (evolves : before.Evolves after) {handle : Handle} {data : Method}
    (same : after.births handle = before.births handle) (live : after.isLive handle)
    (held : before.payload? handle = some (.method data)) :
    ∃ later, after.payload? handle = some (.method later) ∧ later.function = data.function := by
  obtain ⟨payload, reached⟩ := exists_payload?_of_isLive live
  have continues := evolves.continues handle _ payload held reached same
  cases payload with
  | method later =>
    have sameMethod : { later with watchers := data.watchers } = data := continues
    exact ⟨later, reached, (congrArg Method.function sameMethod :)⟩
  | _ => exact continues.elim

/-- The function of a method that is still there is the same entry. -/
theorem Evolves.wraps (evolves : before.Evolves after) {method : Handle} {data : Method}
    (held : before.payload? method = some (.method data)) (live : after.isLive method)
    (same : after.births method = before.births method) :
    after.births data.function = before.births data.function :=
  evolves.consists method _ _ held List.mem_cons_self live same

theorem Evolves.trans (first : before.Evolves middle) (second : middle.Evolves after) :
    before.Evolves after where
  older handle := (first.older handle).trans (second.older handle)
  reborn handle empty live := by
    by_cases between : middle.isLive handle
    · exact (first.reborn handle empty between).trans_le (second.older handle)
    · rw [isLive_eq, Bool.not_eq_true, Option.isSome_eq_false_iff, Option.isNone_iff_eq_none]
        at between
      exact (first.older handle).trans_lt (second.reborn handle between live)
  continues handle payload later held reached same := by
    obtain ⟨live, early, late⟩ := first.present second (isLive_of_payload? reached) same
    obtain ⟨between, found⟩ := exists_payload?_of_isLive live
    exact (first.continues handle payload between held found early).trans
      (second.continues handle between later found reached late)
  aims weakref target aimed still same := by
    obtain ⟨live, early, late⟩ := first.present second (isLive_of_target? still) same
    obtain ⟨data, held, targeted⟩ := target?_eq_some.mp aimed
    obtain ⟨later, reached, last⟩ := target?_eq_some.mp still
    obtain ⟨between, found⟩ := exists_payload?_of_isLive live
    have toMiddle := first.continues weakref _ between held found early
    have fromMiddle := second.continues weakref between _ found reached late
    cases between with
    | weakref link =>
      have onTheWay : middle.target? weakref = some target := by
        refine target?_eq_some.mpr ⟨link, found, ?_⟩
        rcases fromMiddle with kept | cleared
        · rw [← kept, last]
        · rw [last] at cleared
          cases cleared
      exact (second.aims weakref target onTheWay still late).trans
        (first.aims weakref target aimed onTheWay early)
    | _ => exact toMiddle.elim
  consists handle payload target held member alive same := by
    obtain ⟨live, early, late⟩ := first.present second alive same
    obtain ⟨between, found⟩ := exists_payload?_of_isLive live
    have still : target ∈ between.constituents :=
      (first.continues handle payload between held found early).constituents ▸ member
    exact (second.consists handle between target found still alive late).trans
      (first.consists handle payload target held member live early)

theorem Remains.trans {handle : Handle} (first : before.Remains middle handle)
    (second : middle.Remains after handle) : before.Remains after handle := by
  obtain ⟨early, payload, between, held, found, one⟩ := first
  obtain ⟨late, other, later, same, reached, two⟩ := second
  rw [found] at same
  cases same
  exact ⟨late.trans early, payload, later, held, reached, one.trans two⟩

theorem Remains.visits {handle : Handle} (remains : before.Remains after handle) :
    after.visits handle = before.visits handle := by
  obtain ⟨_, payload, later, held, reached, alike⟩ := remains
  unfold Heap.visits
  rw [held, reached]
  exact alike.visits

/-- What is sustained stays sustained as long as all that is sustained remains. -/
theorem Sustained.of_remains
    (remains : ∀ handle, before.Sustained frame handle → before.Remains after handle)
    {handle : Handle} (sustained : before.Sustained frame handle) :
    after.Sustained frame handle :=
  sustained.of_unchanged (fun _ => .of_mem) fun source reached _ => (remains source reached).visits

theorem Carries.refl (calm : Prop) (frame : Multiset Handle) (heap : Heap Code)
    {outside : Multiset Handle} (balanced : heap.Balanced outside) (sub : frame ⊆ outside) :
    heap.Carries calm frame heap where
  evolves := .refl heap
  kept _ _ := rfl
  remains _ handle sustained := by
    obtain ⟨payload, held⟩ :=
      exists_payload?_of_isLive (balanced.isLive_of_sustained (sustained.mono sub))
    exact ⟨rfl, payload, payload, held, held, .refl payload⟩

theorem Carries.trans (first : before.Carries calm frame middle)
    (second : middle.Carries calm frame after) : before.Carries calm frame after where
  evolves := first.evolves.trans second.evolves
  kept handle member := (second.kept handle member).trans (first.kept handle member)
  remains still handle sustained :=
    (first.remains still handle sustained).trans
      (second.remains still handle (sustained.of_remains (first.remains still)))

theorem lineage_congr {handle : Handle} (same : after.payload? handle = before.payload? handle) :
    after.lineage handle = before.lineage handle := by
  unfold lineage
  rw [same]

/-- A class that stays what it is has the same ancestors. -/
theorem lineage_of_continues {handle : Handle} {payload later : Payload Code}
    (was : before.payload? handle = some payload) (found : after.payload? handle = some later)
    (continues : payload.Continues later) : after.lineage handle = before.lineage handle := by
  unfold lineage
  rw [was, found]
  cases payload with
  | type data =>
    obtain ⟨data', rfl, _, sameAncestors⟩ := continues.of_type
    simp only [sameAncestors]
  | _ => cases later <;> first | rfl | exact continues.elim

/-- As long as entries stay what they are, they are formed as they were. -/
theorem Formed.mono (formed : before.Formed)
    (stays : ∀ handle later, after.payload? handle = some later →
      ∃ payload, before.payload? handle = some payload ∧ payload.Continues later) :
    after.Formed where
  wraps method data found held reached := by
    obtain ⟨payload, was, continues⟩ := stays method _ held
    obtain ⟨older, there, same⟩ := stays data.function found reached
    obtain ⟨previous, rfl, sameFunction, _⟩ := continues.to_method
    rw [same.kind]
    exact formed.wraps method previous older was (sameFunction ▸ there)
  grounded method data held := by
    obtain ⟨payload, was, continues⟩ := stays method _ held
    obtain ⟨previous, rfl, _, sameReceiver, sameOwner⟩ := continues.to_method
    obtain ⟨present, owned⟩ := formed.grounded method previous was
    exact ⟨sameOwner ▸ present, sameOwner ▸ sameReceiver ▸ owned⟩
  derives type data base found held member reached := by
    obtain ⟨payload, was, continues⟩ := stays type _ held
    obtain ⟨older, there, same⟩ := stays base found reached
    obtain ⟨previous, rfl, sameBases, _⟩ := continues.to_type
    rw [same.kind]
    exact formed.derives type previous base older was (sameBases ▸ member) there
  inherits type data held live := by
    obtain ⟨payload, was, continues⟩ := stays type _ held
    obtain ⟨previous, rfl, sameBases, sameAncestors⟩ := continues.to_type
    have steady (base : Handle) (member : base ∈ data.bases) :
        before.isLive base ∧ after.lineage base = before.lineage base := by
      obtain ⟨later, found⟩ := exists_payload?_of_isLive (live base member)
      obtain ⟨older, there, same⟩ := stays base later found
      exact ⟨isLive_of_payload? there, lineage_of_continues there found same⟩
    rw [sameAncestors, formed.inherits type previous was fun base member =>
      (steady base (sameBases ▸ member)).1, ← sameBases]
    exact congrArg List.eraseDups (List.flatMap_congr fun base member => (steady base member).2.symm)
  apart type data held := by
    obtain ⟨payload, was, continues⟩ := stays type _ held
    obtain ⟨previous, rfl, _, sameAncestors⟩ := continues.to_type
    exact sameAncestors ▸ formed.apart type previous was

theorem Formed.congr (formed : before.Formed)
    (payloads : ∀ handle, after.payload? handle = before.payload? handle) : after.Formed :=
  formed.mono fun handle later found => ⟨later, payloads handle ▸ found, .refl later⟩

theorem Sound.exists_function {heap : Heap Code} {outside : Multiset Handle} {limbo : List Handle}
    (sound : heap.Sound outside limbo) {method : Handle} {data : Method}
    (held : heap.payload? method = some (.method data)) :
    ∃ function, heap.payload? data.function = some (.function function) := by
  obtain ⟨payload, found⟩ := exists_payload?_of_isLive (sound.balanced.isLive_function held)
  have kind := sound.formed.wraps method data payload held found
  cases payload with
  | function function => exact ⟨function, found⟩
  | _ => cases kind

/-- A smaller frame is kept as well. -/
theorem Carries.mono {less : Multiset Handle} (carries : before.Carries calm frame after)
    (sub : less ⊆ frame) : before.Carries calm less after where
  evolves := carries.evolves
  kept handle member := carries.kept handle (sub member)
  remains still handle sustained := carries.remains still handle (sustained.mono sub)

end Heap

end ObjectHeap
