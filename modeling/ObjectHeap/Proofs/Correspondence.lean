/-
This file says when two values, possibly of two heaps, have the same structure. A container is a
shell, which is all that is fixed about it, with contents: the items of a list or a tuple, the
attributes of an instance, the receiver of a method. A renaming takes a value to another one when
it takes every container that the value reaches to one with the same shell and with renamed
contents, and leaves everything else as it is. Two values correspond when there is a renaming that
is one-to-one and onto. If a renaming leads back from a value to another one, the two correspond
exactly if it takes no two containers to the same one.
-/

import Mathlib.Data.Set.Function
import ObjectHeap.Proofs.Registers

namespace ObjectHeap

variable {Code : Type}

/-! ### Shells and contents -/

/-- What is fixed about a container, apart from its contents. -/
inductive Shell where
  | list
  | tuple
  | object (type : Handle) (names : List String)
  | method (function : Handle) (owner : Option Value)
deriving DecidableEq

/-- Lists and instances take their contents after they are made. Tuples and methods are made of
them. -/
def Shell.fills : Shell → Bool
  | list | object .. => true
  | tuple | method .. => false

namespace Payload

/-- The shell of a container. What is shared between a value and its copy has none. -/
def shell : Payload Code → Option Shell
  | .list _ => some .list
  | .tuple _ => some .tuple
  | .object data => some (.object data.type (data.attributes.entries.map Prod.fst))
  | .method data => some (.method data.function data.owner)
  | _ => none

/-- The values in a container. -/
def contents : Payload Code → List Value
  | .list items | .tuple items => items
  | .object data => data.attributes.values
  | .method data => data.receiver.toList
  | _ => []

theorem contents_of_shell_none {payload : Payload Code} (shared : payload.shell = none) :
    payload.contents = [] := by
  cases payload <;> first | rfl | cases shared

/-- A payload refers to what is in it. -/
theorem owned_contents_subset (payload : Payload Code) : owned payload.contents ⊆ payload.owns := by
  intro handle member
  cases payload with
  | list items => exact member
  | tuple items => exact member
  | object data =>
    rw [owns_object]
    exact Multiset.mem_add.mpr (Or.inr member)
  | method data =>
    rw [owns_method, Method.parts, owned_append]
    exact Multiset.mem_add.mpr (Or.inr (Multiset.mem_add.mpr (Or.inl member)))
  | _ => cases member

theorem Alike.shell {payload later : Payload Code} (alike : payload.Alike later) :
    later.shell = payload.shell := by
  cases payload <;> cases later <;> simp only [Alike, reduceCtorEq] at alike
  case object.object | method.method =>
    rw [← alike]
    rfl
  all_goals
    cases alike
    rfl

theorem Alike.contents {payload later : Payload Code} (alike : payload.Alike later) :
    later.contents = payload.contents := by
  cases payload <;> cases later <;> simp only [Alike, reduceCtorEq] at alike
  case object.object | method.method =>
    rw [← alike]
    rfl
  all_goals
    cases alike
    rfl

end Payload

namespace Heap

/-- One container has another entry among its contents. -/
def Contains (heap : Heap Code) (source target : Handle) : Prop :=
  ∃ payload, heap.payload? source = some payload ∧ .ref target ∈ payload.contents

/-- Items, attributes and receivers lead from a value to an entry. -/
def Reaches (heap : Heap Code) (value : Value) (handle : Handle) : Prop :=
  ∃ root, value = .ref root ∧ Relation.ReflTransGen heap.Contains root handle

/-- The containers that a value reaches. -/
def containers (heap : Heap Code) (value : Value) : Set Handle :=
  { handle | heap.Reaches value handle ∧
    ∃ payload, heap.payload? handle = some payload ∧ payload.shell.isSome }

variable {heap : Heap Code} {value : Value} {source target : Handle}

theorem Contains.refers (contains : heap.Contains source target) : heap.Refers source target := by
  obtain ⟨payload, found, member⟩ := contains
  exact refers_of_payload? found (payload.owned_contents_subset (mem_owned.mpr member))

/-- What is in a container is sustained along with it. -/
theorem Sustained.of_contents {outside : Multiset Handle} (sustained : heap.Sustained outside source)
    {payload : Payload Code} (found : heap.payload? source = some payload)
    (member : target ∈ owned payload.contents) : heap.Sustained outside target :=
  sustained.step (Contains.refers ⟨payload, found, mem_owned.mp member⟩)

theorem Reaches.root (handle : Handle) : heap.Reaches (.ref handle) handle := ⟨handle, rfl, .refl⟩

theorem Reaches.step (reaches : heap.Reaches value source) (contains : heap.Contains source target) :
    heap.Reaches value target := by
  obtain ⟨root, same, leads⟩ := reaches
  exact ⟨root, same, leads.tail contains⟩

/-- Whatever holds of a value and passes from a container to its contents holds of all that the
value reaches. -/
@[elab_as_elim]
theorem Reaches.induction {holds : Handle → Prop} (root : ∀ root, value = .ref root → holds root)
    (step : ∀ source target, heap.Reaches value source → holds source →
      heap.Contains source target → holds target)
    {handle : Handle} (reaches : heap.Reaches value handle) : holds handle := by
  obtain ⟨start, same, leads⟩ := reaches
  induction leads with
  | refl => exact root start same
  | tail before contains inductionHypothesis =>
    exact step _ _ ⟨start, same, before⟩ inductionHypothesis contains

/-- What a value reaches is sustained along with it. -/
theorem Reaches.sustained {handle : Handle} (reaches : heap.Reaches value handle) :
    heap.Sustained value.owns handle := by
  refine reaches.induction (fun root same => ?_) fun source target _ sustained contains =>
    sustained.step contains.refers
  exact .of_mem (by simp [same])

/-! ### Ways -/

/-- A way from a value along items, attributes and receivers, with the last entry first. -/
inductive Way (heap : Heap Code) (value : Value) : List Handle → Prop
  | root {handle : Handle} (same : value = .ref handle) : Way heap value [handle]
  | step {source target : Handle} {way : List Handle} (comes : Way heap value (source :: way))
    (contains : heap.Contains source target) : Way heap value (target :: source :: way)

/-- The lists and instances on a way. -/
def fillsOf (heap : Heap Code) (way : List Handle) : Set Handle :=
  { handle | handle ∈ way ∧ ∃ payload shell, heap.payload? handle = some payload ∧
    payload.shell = some shell ∧ shell.fills }

/-- Items, attributes and receivers lead from a value to an entry, on a way that passes none of
these. -/
def ReachesPast (heap : Heap Code) (barred : Set Handle) (value : Value) (handle : Handle) : Prop :=
  ∃ root, value = .ref root ∧
    Relation.ReflTransGen (fun source target => source ∉ barred ∧ heap.Contains source target)
      root handle

/-- Some way leads from the value to the method, and some way from the receiver of the method back
to it, which passes no list and no instance that is on the first way. -/
def Exposed (heap : Heap Code) (value : Value) (handle : Handle) : Prop :=
  ∃ data, heap.payload? handle = some (.method data) ∧ ∃ way, heap.Way value (handle :: way) ∧
    ∃ receiver, data.receiver = some receiver ∧
      heap.ReachesPast (heap.fillsOf (handle :: way)) receiver handle

theorem Way.reaches {handle : Handle} {way : List Handle}
    (comes : heap.Way value (handle :: way)) : heap.Reaches value handle := by
  generalize same : handle :: way = whole at comes
  induction comes generalizing handle way with
  | root root =>
    cases same
    exact ⟨_, root, .refl⟩
  | step _ contains inductionHypothesis =>
    cases same
    exact (inductionHypothesis rfl).step contains

theorem fillsOf_subset_cons (handle : Handle) (way : List Handle) :
    heap.fillsOf way ⊆ heap.fillsOf (handle :: way) :=
  fun _ member => ⟨List.mem_cons_of_mem _ member.1, member.2⟩

theorem ReachesPast.root (barred : Set Handle) (handle : Handle) :
    heap.ReachesPast barred (.ref handle) handle := ⟨handle, rfl, .refl⟩

/-- What is in a container reaches no more than the container, unless the container is barred. -/
theorem ReachesPast.of_contents {barred more : Set Handle} {payload : Payload Code}
    (reaches : heap.ReachesPast more value target) (sub : barred ⊆ more)
    (found : heap.payload? source = some payload) (member : value ∈ payload.contents)
    (free : source ∉ barred) : heap.ReachesPast barred (.ref source) target := by
  obtain ⟨root, rfl, leads⟩ := reaches
  exact ⟨source, rfl, .head ⟨free, payload, found, member⟩ (leads.lift id fun _ _ passes =>
    ⟨fun inside => passes.1 (sub inside), passes.2⟩)⟩

/-- An exposed method is on a cycle. -/
theorem Exposed.cycle {handle : Handle} (exposed : heap.Exposed value handle) :
    ∃ last, heap.Reaches (.ref handle) last ∧ heap.Contains last handle := by
  obtain ⟨data, found, _, _, receiver, bound, root, rfl, leads⟩ := exposed
  have first : heap.Contains handle root := ⟨_, found, Option.mem_toList.mpr bound⟩
  rcases leads.cases_tail with rfl | ⟨last, leads, passes⟩
  · exact ⟨handle, .root handle, first⟩
  · exact ⟨last, ⟨handle, rfl, .head first (leads.lift id fun _ _ passes => passes.2)⟩, passes.2⟩

end Heap

/-! ### Renamings -/

/-- A value with another name for its handle, if it has one. -/
def Value.rename (name : Handle → Handle) : Value → Value
  | .ref handle => .ref (name handle)
  | value => value

theorem Value.rename_eq_ref {name : Handle → Handle} {value : Value} {handle : Handle}
    (same : value.rename name = .ref handle) : ∃ old, value = .ref old ∧ name old = handle := by
  cases value with
  | ref old => exact ⟨old, rfl, Value.ref.inj same⟩
  | _ => cases same

theorem Value.rename_rename_eq_self {there back : Handle → Handle} {value : Value}
    (same : ∀ handle, value = .ref handle → back (there handle) = handle) :
    (value.rename there).rename back = value := by
  cases value with
  | ref handle => exact congrArg Value.ref (same handle rfl)
  | _ => rfl

namespace Heap

/-- A renaming takes a value to another one with all that it reaches: containers to containers
with the same shell and with renamed contents in the same order, and what is shared to itself. -/
structure Renames (here there : Heap Code) (name : Handle → Handle) (value other : Value) :
    Prop where
  root : other = value.rename name
  live : ∀ handle, here.Reaches value handle → here.isLive handle
  copied : ∀ handle payload, here.Reaches value handle → here.payload? handle = some payload →
    payload.shell.isSome → ∃ later, there.payload? (name handle) = some later ∧
      later.shell = payload.shell ∧ later.contents = payload.contents.map (Value.rename name)
  shared : ∀ handle payload, here.Reaches value handle → here.payload? handle = some payload →
    payload.shell = none → name handle = handle ∧
      ∃ later, there.payload? handle = some later ∧ later.shell = none

/-- A one-to-one correspondence between the containers that two values reach, which takes one
value to the other and respects all that is in the containers. -/
def Corresponds (before after : Heap Code) (value copy : Value) : Prop :=
  ∃ image, before.Renames after image value copy ∧
    Set.BijOn image (before.containers value) (after.containers copy)

variable {here there before after : Heap Code} {name image original : Handle → Handle}
  {value other copy : Value}

namespace Renames

variable (renames : here.Renames there name value other)

include renames

/-- The payload of what is reached, with what becomes of it. -/
theorem payload {handle : Handle} (reaches : here.Reaches value handle) :
    ∃ payload later, here.payload? handle = some payload ∧
      there.payload? (name handle) = some later ∧ later.shell = payload.shell ∧
      later.contents = payload.contents.map (Value.rename name) := by
  obtain ⟨payload, found⟩ := exists_payload?_of_isLive (renames.live handle reaches)
  cases kept : payload.shell with
  | some shell =>
    obtain ⟨later, reached, same, contents⟩ :=
      renames.copied handle payload reaches found (by rw [kept]; rfl)
    exact ⟨payload, later, found, reached, same.trans kept ▸ same, contents⟩
  | none =>
    obtain ⟨same, later, reached, shared⟩ := renames.shared handle payload reaches found kept
    refine ⟨payload, later, found, by rw [same, reached], shared.trans kept.symm, ?_⟩
    rw [Payload.contents_of_shell_none shared, Payload.contents_of_shell_none kept]
    rfl

theorem contains {source target : Handle} (reaches : here.Reaches value source)
    (contains : here.Contains source target) : there.Contains (name source) (name target) := by
  obtain ⟨payload, later, found, reached, _, contents⟩ := renames.payload reaches
  obtain ⟨other, same, member⟩ := contains
  cases found.symm.trans same
  refine ⟨later, reached, ?_⟩
  rw [contents]
  exact List.mem_map.mpr ⟨.ref target, member, rfl⟩

theorem reaches {handle : Handle} (reaches : here.Reaches value handle) :
    there.Reaches other (name handle) := by
  refine reaches.induction (fun root same => ?_) fun source target before holds contains => ?_
  · rw [renames.root, same]
    exact .root (name root)
  · exact holds.step (renames.contains before contains)

/-- All that the other value reaches is the new name of something. -/
theorem covers {handle : Handle} (reaches : there.Reaches other handle) :
    ∃ old, here.Reaches value old ∧ name old = handle := by
  refine reaches.induction (fun root same => ?_) fun source target _ holds contains => ?_
  · obtain ⟨old, rfl, named⟩ := Value.rename_eq_ref (renames.root.symm.trans same)
    exact ⟨old, .root old, named⟩
  · obtain ⟨old, before, rfl⟩ := holds
    obtain ⟨payload, later, found, reached, _, contents⟩ := renames.payload before
    obtain ⟨last, same, member⟩ := contains
    cases reached.symm.trans same
    rw [contents] at member
    obtain ⟨item, inside, renamed⟩ := List.mem_map.mp member
    obtain ⟨next, rfl, named⟩ := Value.rename_eq_ref renamed
    exact ⟨next, before.step ⟨payload, found, inside⟩, named⟩

theorem mem_containers_iff {handle : Handle} (reaches : here.Reaches value handle) :
    name handle ∈ there.containers other ↔ handle ∈ here.containers value := by
  obtain ⟨payload, later, found, reached, same, _⟩ := renames.payload reaches
  constructor
  · rintro ⟨_, last, found', copied⟩
    cases reached.symm.trans found'
    exact ⟨reaches, payload, found, same ▸ copied⟩
  · rintro ⟨_, last, found', copied⟩
    cases found.symm.trans found'
    exact ⟨renames.reaches reaches, later, reached, same ▸ copied⟩

end Renames

/-- Two renamings that lead to a value and back lead back to every entry. -/
theorem Renames.back (renames : before.Renames after image value copy)
    (renamesBack : after.Renames before original copy value) {handle : Handle}
    (reaches : before.Reaches value handle) : original (image handle) = handle := by
  refine reaches.induction (fun root same => ?_) fun source target reached back contains => ?_
  · have there := renames.root
    have back := renamesBack.root
    rw [there, same] at back
    exact (Value.ref.inj (back : Value.ref root = .ref (original (image root)))).symm
  · obtain ⟨payload, later, found, placed, _, contents⟩ := renames.payload reached
    obtain ⟨other, last, placed', found', _, contents'⟩ :=
      renamesBack.payload (renames.reaches reached)
    cases placed.symm.trans placed'
    rw [back] at found'
    cases found.symm.trans found'
    obtain ⟨_, same, member⟩ := contains
    cases found.symm.trans same
    rw [contents, List.map_map] at contents'
    have kept := List.map_inj_left.mp (contents'.symm.trans (List.map_id _).symm) _ member
    exact Value.ref.inj kept

/-- If a renaming leads back and takes no two containers to the same one, a renaming the other
way round undoes it. -/
theorem Renames.inverse (renames : after.Renames before original copy value)
    (back : ∀ handle, after.Reaches copy handle → image (original handle) = handle) :
    before.Renames after image value copy where
  root := by
    rw [renames.root]
    refine (Value.rename_rename_eq_self fun handle same => back handle ?_).symm
    rw [same]
    exact .root handle
  live handle reaches := by
    obtain ⟨place, reached, rfl⟩ := renames.covers reaches
    obtain ⟨_, later, _, found, _⟩ := renames.payload reached
    exact isLive_of_payload? found
  copied handle payload reaches found copied := by
    obtain ⟨place, reached, rfl⟩ := renames.covers reaches
    obtain ⟨later, last, placed, found', same, contents⟩ := renames.payload reached
    cases found.symm.trans found'
    refine ⟨later, by rw [back place reached, placed], same.symm, ?_⟩
    rw [contents, List.map_map]
    refine (List.map_id _).symm.trans (List.map_inj_left.mpr fun item member => ?_)
    refine (Value.rename_rename_eq_self fun handle same => back handle ?_).symm
    exact reached.step ⟨later, placed, same ▸ member⟩
  shared handle payload reaches found shared := by
    obtain ⟨place, reached, rfl⟩ := renames.covers reaches
    obtain ⟨later, last, placed, found', same, _⟩ := renames.payload reached
    cases found.symm.trans found'
    obtain ⟨kept, _⟩ := renames.shared place later reached placed (same.symm.trans shared)
    refine ⟨(back place reached).trans kept.symm, later, ?_, same.symm.trans shared⟩
    rw [kept, placed]

/-- Where a renaming leads back from a copy, the copy corresponds to the value exactly if the
renaming is one-to-one on containers. -/
theorem corresponds_iff_injOn (renames : after.Renames before original copy value) :
    before.Corresponds after value copy ↔ Set.InjOn original (after.containers copy) := by
  constructor
  · rintro ⟨image, there, bijective⟩ one oneMember other otherMember same
    obtain ⟨first, ⟨firstReached, _⟩, rfl⟩ := bijective.surjOn oneMember
    obtain ⟨second, ⟨secondReached, _⟩, rfl⟩ := bijective.surjOn otherMember
    rw [there.back renames firstReached, there.back renames secondReached] at same
    rw [same]
  · intro injective
    have injectiveReached : Set.InjOn original {handle | after.Reaches copy handle} := by
      intro one oneReached other otherReached same
      by_cases member : one ∈ after.containers copy
      · refine injective member ?_ same
        rw [← renames.mem_containers_iff otherReached, ← same,
          renames.mem_containers_iff oneReached]
        exact member
      · have fixed {handle : Handle} (reached : after.Reaches copy handle)
            (absent : handle ∉ after.containers copy) : original handle = handle := by
          obtain ⟨payload, found⟩ := exists_payload?_of_isLive (renames.live handle reached)
          refine (renames.shared handle payload reached found ?_).1
          cases kept : payload.shell with
          | none => rfl
          | some shell => exact absurd ⟨reached, payload, found, by rw [kept]; rfl⟩ absent
        rw [← fixed oneReached member, same, fixed otherReached]
        rw [← renames.mem_containers_iff otherReached, ← same,
          renames.mem_containers_iff oneReached]
        exact member
    have back (handle : Handle) (reached : after.Reaches copy handle) :
        Function.invFunOn original {handle | after.Reaches copy handle} (original handle) =
          handle :=
      injectiveReached.leftInvOn_invFunOn reached
    have there := renames.inverse back
    refine ⟨_, there, fun handle member => ?_, fun one oneMember other otherMember same => ?_,
      fun handle member => ⟨original handle, ?_, back handle member.1⟩⟩
    · exact (there.mem_containers_iff member.1).mpr member
    · rw [← there.back renames oneMember.1, same, there.back renames otherMember.1]
    · exact (renames.mem_containers_iff member.1).mpr member

end Heap

end ObjectHeap
