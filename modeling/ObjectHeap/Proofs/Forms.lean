/-
This file says what values are compared, ordered and hashed by, and what comes of it when no class
has a say. Each value has a form: a number, a text, the items of a list or a tuple, or the function
and the receiver of a method. The form of a value is there to be read in its slot, and so equality,
order and hash are plain functions of a heap. The operations of the same names come to just that
wherever the heap shows, and all they do to the heap is to look.
-/

import ObjectHeap.Proofs.Ancestry
import ObjectHeap.Proofs.Observation

namespace ObjectHeap

variable {Code Host : Type}

/-- What is stored under a name is among the values. -/
theorem Attributes.mem_values {attributes : Attributes} {name : String}
    {value : Value}
    (stored : attributes.find? name = some value) : value ∈ attributes.values := by
  obtain ⟨earlier, later, split, _⟩ := List.lookup_eq_some_iff.mp stored
  refine List.mem_map.mpr ⟨(name, value), ?_, rfl⟩
  rw [split]
  exact List.mem_append_right _ List.mem_cons_self

/-! ### Forms -/

/-- What a value is compared by. -/
inductive Form where
  | number (number : Int64)
  | text (text : String)
  | list (items : List Value)
  | tuple (items : List Value)
  /-- A method is compared by the number of its function and by its receiver. -/
  | method (counter : Nat) (receiver : Option Value)
  /-- Everything else is compared by what it is. -/
  | identity

namespace Form

/-- The values that are looked at in the course of a comparison. -/
def parts : Form → List Value
  | .list items | .tuple items => items
  | .method _ receiver => receiver.toList
  | _ => []

end Form

/-- The form of a payload, given the numbers of the functions. -/
def Payload.form (counters : Handle → Nat) : Payload Code → Form
  | .str text => .text text
  | .list items => .list items
  | .tuple items => .tuple items
  | .method data => .method (counters data.function) data.receiver
  | _ => .identity

namespace Heap

variable (heap : Heap Code)

/-- The number of the function in a slot. -/
def counter (handle : Handle) : Nat :=
  match heap.payload? handle with
  | some (.function data) => data.counter
  | _ => 0

/-- The form of a value. -/
def form : Value → Form
  | .ref handle => ((heap.payload? handle).map (Payload.form heap.counter)).getD .identity
  | value => (value.number?.map Form.number).getD .identity

/-- One value is looked at in order to compare another one. -/
def HasPart (whole part : Value) : Prop :=
  part ∈ (heap.form whole).parts

/-- No instance that is looked at has a class with a function under one of the names. -/
def Lacks (names : List String) (value : Value) : Prop :=
  ∀ part, Relation.ReflTransGen heap.HasPart value part → ∀ name ∈ names, ∀ function,
    heap.special? part name ≠ .ok (some function)

/-- Whether the class of no instance in any slot has a function under one of the names. -/
def isSilent (names : List String) : Bool :=
  (List.range heap.slots.size).all fun handle => names.all fun name =>
    (heap.special? (.ref handle) name).toOption.join.isNone

/-- A value that is there, and that is compared without calling any function. -/
structure Plain (names : List String) (value : Value) : Prop where
  live : ∀ handle ∈ value.owns, heap.isLive handle
  lacks : heap.Lacks names value

/-- One value is an item of another one, a tuple. -/
def HasItem (whole item : Value) : Prop :=
  ∃ items, heap.form whole = .tuple items ∧ item ∈ items

/-- A value that is there, and that is hashed without calling any function: neither the value nor
anything that it leads to through the items of tuples is an instance whose class has a function for
equality or for hashes. -/
structure HashedPlainly (value : Value) : Prop where
  live : ∀ handle ∈ value.owns, heap.isLive handle
  lacks : ∀ part, Relation.ReflTransGen heap.HasItem value part → ∀ name ∈ ["__eq__", "__hash__"],
    ∀ function, heap.special? part name ≠ .ok (some function)

/-! ### Comparisons -/

end Heap

namespace Form

/-- Whether items are equal, pair by pair. -/
def allEqual (equal : Value → Value → Except Error Bool) :
    List Value → List Value → Except Error Bool
  | left :: lefts, right :: rights => do
    if ← equal left right then allEqual equal lefts rights else return false
  | _, _ => return true

/-- Whether receivers are equal, or both missing. -/
def receiversEqual (equal : Value → Value → Except Error Bool) :
    Option Value → Option Value → Except Error Bool
  | none, none => return true
  | some receiver, some other => equal receiver other
  | _, _ => return false

/-- Whether two forms are equal, where `equal` compares parts. -/
def equal (equal : Value → Value → Except Error Bool) : Form → Form → Except Error Bool
  | .number one, .number other => return one == other
  | .text one, .text other => return one == other
  | .list lefts, .list rights | .tuple lefts, .tuple rights =>
    if lefts.length = rights.length then allEqual equal lefts rights else return false
  | .method counter receiver, .method other otherReceiver =>
    if counter = other then receiversEqual equal receiver otherReceiver else return false
  | _, _ => return false

/-- The order of two lists of items: that of the first pair that is not equal, and otherwise that
of their lengths. -/
def itemsOrder (equal : Value → Value → Except Error Bool)
    (order : Value → Value → Except Error Ordering) :
    List Value → List Value → Except Error Ordering
  | left :: lefts, right :: rights => do
    if ← equal left right then itemsOrder equal order lefts rights else order left right
  | lefts, rights => return compare lefts.length rights.length

/-- The order of receivers: a missing one comes first, and the same ones are not looked at. -/
def receiversOrder (order : Value → Value → Except Error Ordering) :
    Option Value → Option Value → Except Error Ordering
  | none, none => return .eq
  | none, some _ => return .lt
  | some _, none => return .gt
  | some receiver, some other => if receiver.same other then return .eq else order receiver other

/-- The order of two forms, where `equal` and `order` compare parts, and `refused` is what is said of
forms that are not ordered. -/
def order (equal : Value → Value → Except Error Bool)
    (order : Value → Value → Except Error Ordering) (refused : Error) :
    Form → Form → Except Error Ordering
  | .number one, .number other => return compare one.toInt other.toInt
  | .text one, .text other => return compare one other
  | .list lefts, .list rights | .tuple lefts, .tuple rights => itemsOrder equal order lefts rights
  | .method counter receiver, .method other otherReceiver =>
    if counter = other then receiversOrder order receiver otherReceiver
    else return compare counter other
  | _, _ => .error refused

/-- The hashes of items in order. -/
def allHashes (hash : Value → Except Error Int64) : List Value → Except Error (List Int64)
  | [] => return []
  | item :: rest => do return (← hash item) :: (← allHashes hash rest)

/-- The hash of a form, where `hash` hashes parts, and `identity` is the hash of what has no other
form. -/
def hash (hash : Value → Except Error Int64) (identity : Int64) : Form → Except Error Int64
  | .number one => return one
  | .text one => return (SipHash.hashText one).toInt64
  | .list _ => .error (Refusal.unhashable Kind.list.label).error
  | .tuple items => do
    return (SipHash.hashWords ((← allHashes hash items).map Int64.toUInt64)).toInt64
  | .method counter _ => return counterHash counter
  | .identity => return identity

end Form

namespace Heap

/-- Whether two values are equal, looking at most so many levels deep. -/
def equals (heap : Heap Code) : Nat → Value → Value → Except Error Bool
  | 0, _, _ => .error Refusal.tooDeep.error
  | levels + 1, left, right =>
    if left.same right then return true
    else Form.equal (heap.equals levels) (heap.form left) (heap.form right)

/-- What the type of a value is called, as far as it is known. -/
def typeTitle (heap : Heap Code) (value : Value) : String :=
  (heap.typeName value).toOption.getD ""

/-- The order of two values, looking at most so many levels deep. -/
def orders (heap : Heap Code) : Nat → Value → Value → Except Error Ordering
  | 0, _, _ => .error Refusal.tooDeep.error
  | levels + 1, left, right =>
    Form.order (heap.equals levels) (heap.orders levels)
      (Refusal.notOrdered (heap.typeTitle left) (heap.typeTitle right)).error
      (heap.form left) (heap.form right)

/-- The hash of a value by its identity. -/
def ownHash (heap : Heap Code) : Value → Int64
  | .ref handle => heap.identityHash handle
  | _ => nilHash

/-- The hash of a value, looking at most so many levels deep. -/
def hashes (heap : Heap Code) : Nat → Value → Except Error Int64
  | 0, _ => .error Refusal.tooDeep.error
  | levels + 1, value => Form.hash (heap.hashes levels) (heap.ownHash value) (heap.form value)

/-! ### What can be seen of a value -/

variable {heap : Heap Code} {outside : Multiset Handle} {limbo : List Handle} {names : List String}
  {value : Value}

theorem form_of_payload? {handle : Handle} {payload : Payload Code}
    (held : heap.payload? handle = some payload) :
    heap.form (.ref handle) = payload.form heap.counter := by
  rw [form, held]
  rfl

/-- What is looked at in order to compare an entry is there. -/
theorem Balanced.isLive_part (balanced : heap.Balanced outside) {item : Value}
    (isPart : heap.HasPart value item) : ∀ handle ∈ item.owns, heap.isLive handle := by
  intro handle member
  obtain rfl := List.mem_singleton.mp (mem_owned.mp member)
  cases value with
  | ref whole =>
    cases held : heap.payload? whole with
    | none =>
      simp only [HasPart, form, held] at isPart
      cases isPart
    | some payload =>
      rw [HasPart, form_of_payload? held] at isPart
      refine balanced.isLive_of_visits held ?_
      cases payload with
      | list items => exact List.mem_filterMap.mpr ⟨_, isPart, rfl⟩
      | tuple items => exact List.mem_filterMap.mpr ⟨_, isPart, rfl⟩
      | method data =>
        refine List.mem_cons_of_mem _ (List.mem_append_left _ ?_)
        rw [Option.mem_toList.mp isPart]
        exact List.mem_singleton_self handle
      | _ => cases isPart
  | _ => cases isPart

theorem Plain.part (plain : heap.Plain names value) (balanced : heap.Balanced outside) {item : Value}
    (isPart : heap.HasPart value item) : heap.Plain names item where
  live := balanced.isLive_part isPart
  lacks other leads := plain.lacks other (.head isPart leads)

theorem HasItem.hasPart {whole item : Value} (hasItem : heap.HasItem whole item) :
    heap.HasPart whole item := by
  obtain ⟨items, form, member⟩ := hasItem
  unfold HasPart
  rw [form]
  exact member

theorem HashedPlainly.item (plain : heap.HashedPlainly value) (balanced : heap.Balanced outside)
    {item : Value} (hasItem : heap.HasItem value item) : heap.HashedPlainly item where
  live := balanced.isLive_part hasItem.hasPart
  lacks other leads := plain.lacks other (.head hasItem leads)

theorem Plain.hashedPlainly (plain : heap.Plain names value) (compares : "__eq__" ∈ names)
    (listed : "__hash__" ∈ names) : heap.HashedPlainly value where
  live := plain.live
  lacks part leads name member := by
    refine plain.lacks part (leads.lift id fun _ _ hasItem => hasItem.hasPart) name ?_
    rcases List.mem_cons.mp member with rfl | member
    · exact compares
    · rwa [List.mem_singleton.mp member]

/-- If no instance on the heap has a class with a function under one of the names, no value does. -/
theorem lacks_of_isSilent (silent : heap.isSilent names) (value : Value) : heap.Lacks names value := by
  intro item _ name listed function special
  cases item with
  | ref handle =>
    have live : handle < heap.slots.size := by
      by_contra outside
      have empty : heap.payload? handle = none := by
        cases held : heap.payload? handle with
        | none => rfl
        | some payload =>
          obtain ⟨entry, occupied, _⟩ := heap.payload?_eq_some.mp held
          exact absurd (heap.lt_size_of_occupant? occupied) outside
      simp only [special?, instanceType?, readValue, read, empty] at special
      cases special
    have none := List.all_eq_true.mp (List.all_eq_true.mp silent handle (List.mem_range.mpr live)) name
      listed
    rw [special] at none
    cases none
  | _ => cases special

/-! ### What classes say -/

/-- A search along classes that are there comes to its end, and what it finds is there. -/
theorem Balanced.findAlong_ok (balanced : heap.Balanced outside) (name : String) {types : List Handle}
    (live : ∀ type ∈ types, heap.isLive type) :
    ∃ found, heap.findAlong name types = .ok found ∧
      ∀ handle, found = some (.ref handle) → heap.isLive handle := by
  induction types with
  | nil => exact ⟨none, rfl, nofun⟩
  | cons type rest inductionHypothesis =>
    obtain ⟨payload, held⟩ := exists_payload?_of_isLive (live type List.mem_cons_self)
    obtain ⟨later, along, found⟩ :=
      inductionHypothesis fun other member => live other (List.mem_cons_of_mem _ member)
    have read := heap.read_eq_ok.mpr held
    simp only [findAlong, read]
    cases payload with
    | type data =>
      simp only [bind, Except.bind]
      cases stored : data.members.find? name with
      | none => exact ⟨later, along, found⟩
      | some value =>
        -- The namespace owns its values, so what is found is live.
        refine ⟨some value, rfl, fun handle same => balanced.isLive_of_visits held ?_⟩
        obtain rfl := Option.some.inj same
        have member := Attributes.mem_values stored
        exact List.mem_append_right _ (List.mem_filterMap.mpr ⟨_, member, rfl⟩)
    | _ => exact ⟨later, along, found⟩

/-- A class that is there is there with all its ancestors. -/
theorem Sound.isLive_of_chain (sound : heap.Sound outside limbo) {type : Handle} {data : Class}
    (held : heap.payload? type = some (.type data)) :
    ∀ other ∈ type :: data.ancestors, heap.isLive other := by
  rintro other (_ | ⟨_, member⟩)
  · exact isLive_of_payload? held
  · obtain ⟨_, there⟩ := sound.formed.isType_of_mem_ancestors sound.balanced held member
    exact isLive_of_payload? there

/-- A class searches itself and then its ancestors. -/
theorem find_of_type {type : Handle} {data : Class} (held : heap.payload? type = some (.type data))
    (name : String) : heap.find type name = heap.findAlong name (type :: data.ancestors) := by
  simp only [Heap.find, heap.read_eq_ok.mpr held]
  rfl

/-- What a class that is there finds under a name can be told, and is there. -/
theorem Sound.find_ok (sound : heap.Sound outside limbo) {type : Handle} (live : heap.isLive type)
    (name : String) : ∃ found, heap.find type name = .ok found ∧
      ∀ handle, found = some (.ref handle) → heap.isLive handle := by
  obtain ⟨payload, held⟩ := exists_payload?_of_isLive live
  have read := heap.read_eq_ok.mpr held
  cases payload with
  | type data =>
    obtain ⟨found, along, there⟩ := sound.balanced.findAlong_ok name (sound.isLive_of_chain held)
    exact ⟨found, (find_of_type held name).trans along, there⟩
  | _ => exact ⟨none, by simp only [Heap.find, read]; rfl, fun _ same => by cases same⟩

/-- What a class that is there finds under a special name can be told. -/
theorem Sound.findFunction_ok (sound : heap.Sound outside limbo) {type : Handle}
    (live : heap.isLive type) (name : String) :
    ∃ found, heap.findFunction type name = .ok found := by
  obtain ⟨found, find, there⟩ := sound.find_ok live name
  cases found with
  | none => exact ⟨none, by simp only [findFunction, find]; rfl⟩
  | some value =>
    cases value with
    | ref handle =>
      obtain ⟨function, reached⟩ := exists_payload?_of_isLive (there handle rfl)
      have looked := heap.read_eq_ok.mpr reached
      cases function <;>
        exact ⟨_, by simp only [findFunction, find, bind, Except.bind, looked]; rfl⟩
    | _ => exact ⟨none, by simp only [findFunction, find]; rfl⟩

theorem Sound.instanceType?_ok (sound : heap.Sound outside limbo)
    (live : ∀ handle ∈ value.owns, heap.isLive handle) :
    ∃ found, heap.instanceType? value = .ok found ∧
      ∀ type, found = some type → heap.isLive type := by
  cases value with
  | ref handle =>
    obtain ⟨payload, held⟩ := exists_payload?_of_isLive (live handle (Multiset.mem_singleton_self _))
    have read := heap.read_eq_ok.mpr held
    cases payload with
    | object data =>
      refine ⟨some data.type, by simp only [instanceType?, readValue, read]; rfl, ?_⟩
      rintro type ⟨⟩
      exact sound.balanced.isLive_of_visits held List.mem_cons_self
    | _ => exact ⟨none, by simp only [instanceType?, readValue, read]; rfl, fun _ same => by cases same⟩
  | _ => exact ⟨none, rfl, fun _ same => by cases same⟩

/-- What is not found under a special name, of a value that is there, can be told not to be found. -/
theorem Sound.special?_eq_none_of_lacks (sound : heap.Sound outside limbo)
    (lives : ∀ handle ∈ value.owns, heap.isLive handle) {name : String}
    (lacks : ∀ function, heap.special? value name ≠ .ok (some function)) :
    heap.special? value name = .ok none := by
  obtain ⟨type, asked, live⟩ := sound.instanceType?_ok lives
  cases type with
  | none => simp only [special?, asked]; rfl
  | some type =>
    obtain ⟨found, told⟩ := sound.findFunction_ok (live type rfl) name
    have special : heap.special? value name = .ok found := by
      simp only [special?, asked]
      exact told
    cases found with
    | none => exact special
    | some function => exact absurd special (lacks function)

/-- The class of a plain value has nothing to say. -/
theorem Sound.special?_eq_none (sound : heap.Sound outside limbo) (plain : heap.Plain names value)
    {name : String} (listed : name ∈ names) : heap.special? value name = .ok none :=
  sound.special?_eq_none_of_lacks plain.live (plain.lacks value .refl name listed)

/-- The type of a value that is there has a name. -/
theorem Sound.typeName_ok (sound : heap.Sound outside limbo)
    (live : ∀ handle ∈ value.owns, heap.isLive handle) :
    heap.typeName value = .ok (heap.typeTitle value) := by
  suffices ∃ title, heap.typeName value = .ok title by
    obtain ⟨title, told⟩ := this
    rw [typeTitle, told]
    rfl
  obtain ⟨type, asked, there⟩ := sound.instanceType?_ok live
  cases type with
  | some type =>
    obtain ⟨payload, held⟩ := exists_payload?_of_isLive (there type rfl)
    have read := heap.read_eq_ok.mpr held
    cases payload <;>
      exact ⟨_, by simp only [typeName, asked, bind, Except.bind, className, read]; rfl⟩
  | none =>
    cases value with
    | ref handle =>
      obtain ⟨payload, held⟩ := exists_payload?_of_isLive (live handle (Multiset.mem_singleton_self _))
      have read := heap.read_eq_ok.mpr held
      exact ⟨_, by simp only [typeName, asked, bind, Except.bind, kind, read]; rfl⟩
    | _ => exact ⟨_, rfl⟩

end Heap

end ObjectHeap
