/-
This file establishes that a hash stays what it is for as long as the value lives. A hash is
computed from texts and numbers, from the items of tuples, from the numbers of functions, and from
identities, and none of them changes while an entry is there: what an entry is made of is there as
long as the entry, and it is the same entry all the time. Only a class can change its mind. As long
as no class is given another function for equality or for hashes, or hides one, an instance that is
hashed by its identity goes on to be.
-/

import ObjectHeap.Proofs.Looking
import ObjectHeap.Proofs.Refusals

namespace ObjectHeap

variable {Code Host Other : Type}

theorem Form.allHashes_congr {hash other : Value → Except Error Int64} {items : List Value}
    (same : ∀ item ∈ items, hash item = other item) :
    allHashes hash items = allHashes other items := by
  induction items with
  | nil => rfl
  | cons item rest inductionHypothesis =>
    rw [allHashes, allHashes, same item List.mem_cons_self,
      inductionHypothesis fun later member => same later (List.mem_cons_of_mem _ member)]

namespace Heap

/-! ### What is made of the same entries -/

variable {before after : Heap Code} {outside rest : Multiset Handle} {limbo spare : List Handle}
  {handle target type other : Handle} {value item : Value}

/-- An entry that is still there was there before. -/
theorem Evolves.isLive_of_lasts (evolves : before.Evolves after) (lasts : before.Lasts after handle) :
    before.isLive handle := by
  obtain ⟨live, same⟩ := lasts
  cases empty : before.occupant? handle with
  | some entry =>
    rw [isLive_eq, empty]
    rfl
  | none => exact absurd same (evolves.reborn handle empty live).ne'

/-- The payload of an entry that is still there continues. -/
theorem Evolves.exists_later (evolves : before.Evolves after) (lasts : before.Lasts after handle)
    {payload : Payload Code} (held : before.payload? handle = some payload) :
    ∃ later, after.payload? handle = some later ∧ payload.Continues later := by
  obtain ⟨live, same⟩ := lasts
  obtain ⟨later, reached⟩ := exists_payload?_of_isLive live
  exact ⟨later, reached, evolves.continues handle payload later held reached same⟩

theorem Evolves.exists_both (evolves : before.Evolves after) (lasts : before.Lasts after handle) :
    ∃ payload later, before.payload? handle = some payload ∧ after.payload? handle = some later ∧
      payload.Continues later := by
  obtain ⟨payload, held⟩ := exists_payload?_of_isLive (evolves.isLive_of_lasts lasts)
  obtain ⟨later, reached, continues⟩ := evolves.exists_later lasts held
  exact ⟨payload, later, held, reached, continues⟩

/-- What an entry is made of is there as long as the entry. -/
theorem Evolves.lasts_of_constituent (evolves : before.Evolves after)
    (balanced : after.Balanced outside) (lasts : before.Lasts after handle) {payload : Payload Code}
    (held : before.payload? handle = some payload) (member : target ∈ payload.constituents) :
    before.Lasts after target := by
  obtain ⟨later, reached, continues⟩ := evolves.exists_later lasts held
  refine ⟨balanced.isLive_of_visits reached (later.constituents_subset_visits ?_),
    evolves.consists handle payload target held member lasts.1 lasts.2⟩
  rw [continues.constituents]
  exact member

/-- The ancestors of a class are there as long as the class. -/
theorem Evolves.lasts_of_ancestor (evolves : before.Evolves after) (balanced : after.Balanced outside)
    (lasts : before.Lasts after type) (leads : Relation.TransGen before.Derives type other) :
    before.Lasts after other := by
  induction leads with
  | single derives =>
    obtain ⟨data, held, member⟩ := derives
    exact evolves.lasts_of_constituent balanced lasts held member
  | tail _ derives inductionHypothesis =>
    obtain ⟨data, held, member⟩ := derives
    exact evolves.lasts_of_constituent balanced inductionHypothesis held member

/-! ### What classes offer -/

/-- Whether a value is a function. -/
def isFunction (heap : Heap Code) : Value → Bool
  | .ref handle => (heap.payload? handle).any fun payload => decide (payload.kind = .function)
  | _ => false

/-- What a class has under a name by itself: nothing at all, or something that is a function or is
not. -/
def offers? (heap : Heap Code) (name : String) (type : Handle) : Option Bool :=
  match heap.payload? type with
  | some (.type data) => (data.members.find? name).map heap.isFunction
  | _ => none

/-- No class has been given a function under the name, nor anything else in place of one. That is so
if no class has been given any attribute of the name at all: then it has there what it had. -/
def GivesNone (before after : Heap Code) (name : String) : Prop :=
  ∀ type, before.Lasts after type → after.offers? name type = before.offers? name type

variable {heap : Heap Code} {name : String}

instance (before after : Heap Code) (handle : Handle) : Decidable (before.Lasts after handle) :=
  inferInstanceAs (Decidable (_ ∧ _))

/-- Beyond the slots of a heap there are no classes. -/
instance (before after : Heap Code) (name : String) : Decidable (before.GivesNone after name) :=
  decidable_of_iff (∀ type < after.slots.size, before.Lasts after type →
      after.offers? name type = before.offers? name type) <| by
    refine ⟨fun inside type lasts => inside type ?_ lasts, fun given type _ => given type⟩
    obtain ⟨entry, occupied⟩ := (after.isLive_iff type).mp lasts.1
    exact after.lt_size_of_occupant? occupied

/-- A search along classes ends at the first one that has anything under the name. -/
theorem findAlong_offers {types : List Handle} (live : ∀ type ∈ types, heap.isLive type) :
    ∃ found, heap.findAlong name types = .ok found ∧
      found.map heap.isFunction = types.findSome? (heap.offers? name) := by
  induction types with
  | nil => exact ⟨none, rfl, rfl⟩
  | cons type rest inductionHypothesis =>
    obtain ⟨payload, held⟩ := exists_payload?_of_isLive (live type List.mem_cons_self)
    obtain ⟨later, along, told⟩ :=
      inductionHypothesis fun other member => live other (List.mem_cons_of_mem _ member)
    have read := heap.read_eq_ok.mpr held
    cases payload with
    | type data =>
      have offers : heap.offers? name type = (data.members.find? name).map heap.isFunction := by
        rw [offers?, held]
      rw [List.findSome?_cons, offers, findAlong, read]
      cases stored : data.members.find? name with
      | none =>
        refine ⟨later, ?_, told⟩
        simp only [stored, bind, Except.bind]
        exact along
      | some value =>
        refine ⟨some value, ?_, rfl⟩
        simp only [stored, bind, Except.bind]
        rfl
    | _ =>
      rw [List.findSome?_cons, offers?, held, findAlong, read]
      exact ⟨later, along, told⟩

/-- What is found is passed over unless it is a function. -/
theorem findFunction_eq_none_iff {found : Option Value} (find : heap.find type name = .ok found)
    (there : ∀ handle, found = some (.ref handle) → heap.isLive handle) :
    heap.findFunction type name = .ok none ↔ found.map heap.isFunction ≠ some true := by
  rcases found with _ | value
  · simp only [findFunction, find]
    exact iff_of_true rfl (by simp)
  cases value with
  | ref function =>
    obtain ⟨payload, reached⟩ := exists_payload?_of_isLive (there function rfl)
    have read := heap.read_eq_ok.mpr reached
    simp only [findFunction, find, bind, Except.bind, read, Option.map_some, isFunction, reached]
    cases payload with
    | function data => exact iff_of_false (fun same => by cases same) (not_not.mpr rfl)
    | _ => exact iff_of_true rfl (by simp [Payload.kind])
  | _ =>
    simp only [findFunction, find]
    exact iff_of_true rfl (by simp [isFunction])

/-- A class finds no function under a name unless the first class that has anything there, among
itself and its ancestors, has a function. -/
theorem Sound.findFunction_eq_none_iff (sound : heap.Sound outside limbo) {data : Class}
    (held : heap.payload? type = some (.type data)) :
    heap.findFunction type name = .ok none ↔
      (type :: data.ancestors).findSome? (heap.offers? name) ≠ some true := by
  obtain ⟨found, along, told⟩ := heap.findAlong_offers (sound.isLive_of_chain held)
  obtain ⟨_, find, there⟩ := sound.find_ok (isLive_of_payload? held) name
  cases ((find_of_type held name).trans along).symm.trans find
  rw [← told]
  exact Heap.findFunction_eq_none_iff find there

theorem special?_of_object {data : Instance} (held : heap.payload? handle = some (.object data)) :
    heap.special? (.ref handle) name = heap.findFunction data.type name := by
  simp only [special?, instanceType?, readValue, heap.read_eq_ok.mpr held]
  rfl

section

variable (evolves : before.Evolves after) (early : before.Sound outside limbo)
  (late : after.Sound rest spare) (given : before.GivesNone after name)

include evolves early late given

/-- A class that has found no function finds none later. -/
theorem Evolves.findFunction_eq_none (lasts : before.Lasts after type)
    (nothing : before.findFunction type name = .ok none) :
    after.findFunction type name = .ok none := by
  obtain ⟨payload, later, held, reached, continues⟩ := evolves.exists_both lasts
  cases payload with
  | type data =>
    obtain ⟨next, rfl, _, ancestors⟩ := continues.of_type
    have chain : ∀ other ∈ type :: data.ancestors, before.Lasts after other := by
      rintro other (_ | ⟨_, member⟩)
      · exact lasts
      · exact evolves.lasts_of_ancestor late.balanced lasts
          ((early.formed.mem_ancestors_iff early.balanced held).mp member)
    have same : (type :: data.ancestors).findSome? (after.offers? name) =
        (type :: data.ancestors).findSome? (before.offers? name) := by
      rw [← List.head?_filterMap, ← List.head?_filterMap]
      exact congrArg List.head? (List.filterMap_congr fun other member =>
        given other (chain other member))
    rw [late.findFunction_eq_none_iff reached, ancestors, same]
    exact (early.findFunction_eq_none_iff held).mp nothing
  | _ =>
    cases later <;> first
      | exact continues.elim
      | simp only [findFunction, find, after.read_eq_ok.mpr reached]; rfl

/-- A value whose class has had no function under the name has none later. -/
theorem Evolves.special?_eq_none (lasts : ∀ handle ∈ value.owns, before.Lasts after handle)
    (nothing : before.special? value name = .ok none) : after.special? value name = .ok none := by
  cases value with
  | ref handle =>
    have lasts := lasts handle (Multiset.mem_singleton_self handle)
    obtain ⟨payload, later, held, reached, continues⟩ := evolves.exists_both lasts
    cases later with
    | object next =>
      cases payload with
      | object data =>
        have same : next.type = data.type := continues
        rw [special?_of_object held] at nothing
        rw [special?_of_object reached, same]
        exact evolves.findFunction_eq_none early late given
          (evolves.lasts_of_constituent late.balanced lasts held List.mem_cons_self) nothing
      | _ => exact continues.elim
    | _ =>
      simp only [special?, instanceType?, readValue, after.read_eq_ok.mpr reached]
      rfl
  | _ => rfl

end

/-! ### Hashes over time -/

section

variable (evolves : before.Evolves after) (late : after.Sound rest spare)

include evolves late

/-- The items of a tuple have been its items all the time. -/
theorem Evolves.hasItem (lasts : ∀ handle ∈ value.owns, before.Lasts after handle)
    (hasItem : after.HasItem value item) :
    before.HasItem value item ∧ ∀ handle ∈ item.owns, before.Lasts after handle := by
  obtain ⟨items, form, member⟩ := hasItem
  cases value with
  | ref handle =>
    have lasts := lasts handle (Multiset.mem_singleton_self handle)
    obtain ⟨payload, later, held, reached, continues⟩ := evolves.exists_both lasts
    rw [form_of_payload? reached] at form
    cases later with
    | tuple others =>
      cases form
      cases payload with
      | tuple former =>
        obtain rfl : items = former := continues
        refine ⟨⟨items, form_of_payload? held, member⟩, fun target owns => ?_⟩
        obtain rfl := List.mem_singleton.mp (mem_owned.mp owns)
        exact evolves.lasts_of_constituent late.balanced lasts held
          (List.mem_filterMap.mpr ⟨_, member, rfl⟩)
      | _ => exact continues.elim
    | _ => cases form
  | _ => cases form

omit late in
/-- A function that is there has the number it had. -/
theorem Evolves.counter_eq (lasts : before.Lasts after handle) :
    after.counter handle = before.counter handle := by
  obtain ⟨payload, later, held, reached, continues⟩ := evolves.exists_both lasts
  rw [counter, counter, held, reached]
  cases payload with
  | function data =>
    cases later with
    | function next =>
      have same : { next with attributes := data.attributes } = data := continues
      exact (congrArg Function.counter same :)
    | _ => exact continues.elim
  | _ =>
    cases later <;> first
      | exact continues.elim
      | rfl

/-- As long as a value is there, its hash is the same. -/
theorem Evolves.hashes_eq (levels : Nat) (lasts : ∀ handle ∈ value.owns, before.Lasts after handle) :
    after.hashes levels value = before.hashes levels value := by
  induction levels generalizing value with
  | zero => rfl
  | succ levels inductionHypothesis =>
    cases value with
    | ref handle =>
      have here := lasts handle (Multiset.mem_singleton_self handle)
      obtain ⟨payload, later, held, reached, continues⟩ := evolves.exists_both here
      have identity : after.ownHash (.ref handle) = before.ownHash (.ref handle) :=
        identityHash_congr here.2
      simp only [hashes, identity, form_of_payload? held, form_of_payload? reached]
      cases payload with
      | tuple items =>
        cases later with
        | tuple others =>
          -- A tuple never changes, and its items last as long as it does.
          obtain rfl : others = items := continues
          have each (item) (member : item ∈ others) :
              after.hashes levels item = before.hashes levels item :=
            inductionHypothesis (evolves.hasItem late lasts
              ⟨others, form_of_payload? reached, member⟩).2
          simp only [Payload.form, Form.hash, Form.allHashes_congr each]
        | _ => exact continues.elim
      | method data =>
        cases later with
        | method next =>
          obtain ⟨former, same, functions, _⟩ := continues.to_method
          cases same
          have counted : after.counter next.function = before.counter data.function := by
            rw [functions]
            exact evolves.counter_eq
              (evolves.lasts_of_constituent late.balanced here held List.mem_cons_self)
          simp only [Payload.form, Form.hash, counted]
        | _ => exact continues.elim
      | str text =>
        cases later with
        | str other =>
          obtain rfl : other = text := continues
          simp only [Payload.form, Form.hash]
        | _ => exact continues.elim
      | _ =>
        cases later <;> first
          | exact continues.elim
          | simp only [Payload.form, Form.hash]
    | _ => simp only [hashes, form, Value.number?, Option.map, Option.getD, Form.hash, ownHash]

/-- A value that is hashed plainly is hashed plainly later, unless a class has been given a function
for it. -/
theorem Evolves.hashedPlainly (early : before.Sound outside limbo)
    (given : ∀ name ∈ ["__eq__", "__hash__"], before.GivesNone after name)
    (lasts : ∀ handle ∈ value.owns, before.Lasts after handle) (plain : before.HashedPlainly value) :
    after.HashedPlainly value where
  live handle member := (lasts handle member).1
  lacks part leads name listed function special := by
    have reaches : Relation.ReflTransGen before.HasItem value part ∧
        ∀ handle ∈ part.owns, before.Lasts after handle := by
      clear special
      induction leads with
      | refl => exact ⟨.refl, lasts⟩
      | tail _ hasItem inductionHypothesis =>
        obtain ⟨reached, there⟩ := inductionHypothesis
        obtain ⟨had, further⟩ := evolves.hasItem late there hasItem
        exact ⟨reached.tail had, further⟩
    have nothing := early.special?_eq_none_of_lacks
      (fun handle member => evolves.isLive_of_lasts (reaches.2 handle member))
      (plain.lacks part reaches.1 name listed)
    cases (evolves.special?_eq_none early late (given name listed) reaches.2 nothing).symm.trans special

end

end Heap

namespace Reached

variable {held : Host → Multiset Handle} {hand : Multiset Handle}
  {bodies : Code → Arguments → Program Code Host} {config : Config}
  {world : World Code (Recorded Code Host)}

/-- A value is hashed at some moment of a run, and again at any later one. In between anything may
have happened, as long as the value has been there all the time, no instance that it leads to
through items of tuples had a class with a function for equality or for hashes, and no class has
been given one. Then the hash, or the refusal to hash, is the same, and all that comes of it is to
have looked. -/
theorem hashes_are_stable (respectful : RespectfulBodies held bodies)
    (reached : Reached held bodies config hand world) {newer older : List (Moment Code)}
    {earlier : Moment Code} (split : world.host.moments = newer ++ earlier :: older)
    {heap : Heap Code} (later : heap = world.heap ∨ heap ∈ newer.map Moment.heap) {value : Value}
    (lasts : ∀ handle ∈ value.owns, earlier.heap.Lasts heap handle)
    (lacks : ∀ part, Relation.ReflTransGen earlier.heap.HasItem value part →
      ∀ name ∈ ["__eq__", "__hash__"], ∀ function,
        earlier.heap.special? part name ≠ .ok (some function))
    (given : ∀ name ∈ ["__eq__", "__hash__"], earlier.heap.GivesNone heap name)
    (engine again : Engine Code Other) (enough : 0 < engine.rounds) (alsoEnough : 0 < again.rounds)
    {host other : Other} {outcome : Except Error Int64} {first : World Code Other}
    (hashed : (engine.hash value).run { heap := earlier.heap, host } = .ok (outcome, first)) :
    (again.hash value).Tells { heap, host := other } outcome := by
  have noted : earlier.heap ∈ heaps world := by
    refine List.mem_cons_of_mem _ (List.mem_map_of_mem ?_)
    rw [split]
    exact List.mem_append_right _ List.mem_cons_self
  have evolves := evolves_of_later split later respectful reached
  obtain ⟨⟨_, _, early⟩, settled⟩ := reached.orderly respectful noted
  obtain ⟨⟨_, _, late⟩, alsoSettled⟩ := reached.orderly respectful (mem_heaps_of_later split later)
  have plain : earlier.heap.HashedPlainly value :=
    ⟨fun handle member => evolves.isLive_of_lasts (lasts handle member), lacks⟩
  have plainly : heap.HashedPlainly value := evolves.hashedPlainly late early given lasts plain
  have shows : earlier.heap.Shows (World.mk earlier.heap host).heap := early.shows settled
  have showsLater : heap.Shows (World.mk heap other).heap := late.shows alsoSettled
  obtain ⟨_, ended, _⟩ := (engine.hashWithin_looks_of_items early enough (maxDataDepth + 1) plain).tells
    shows
  cases hashed.symm.trans ended
  rw [← evolves.hashes_eq late (maxDataDepth + 1) lasts]
  exact (again.hashWithin_looks_of_items late alsoEnough (maxDataDepth + 1) plainly).tells showsLater

/-- A tuple of an instance and a bound method has the hash it had, after a string has come and gone
in a slot, the receiver of the method has got an item, and another list has come to the slot. -/
theorem hash_of_kept_tuple : ∃ world : World Unit (Recorded Unit Unit), ∃ earlier : Moment Unit,
    Reached (fun _ => 0) idleBodies Config.standard ({0} + {2} + {3} + {5} + {6}) world ∧
    earlier ∈ world.host.moments ∧ earlier.heap.births 6 = 0 ∧ world.heap.births 6 = 2 ∧
    ∃ hash first, ((bodiesEngine idleBodies 4).hash (.ref 5)).run
        { heap := earlier.heap, host := world.host } = .ok (.ok hash, first) ∧
      ((bodiesEngine idleBodies 4).hash (.ref 5)).Tells world (.ok hash) := by
  obtain ⟨world, reached, seen⟩ : ∃ world : World Unit (Recorded Unit Unit),
      Reached (fun _ => 0) idleBodies Config.standard ({0} + {2} + {3} + {5} + {6}) world ∧
      (world.host.moments.any fun moment =>
        decide (moment.heap.births 6 = 0) && decide (world.heap.births 6 = 2) &&
        decide (moment.heap.Lasts world.heap 5) && moment.heap.isSilent ["__eq__", "__hash__"] &&
        decide (∀ name ∈ ["__eq__", "__hash__"], moment.heap.GivesNone world.heap name) &&
        (((bodiesEngine idleBodies 4).hash (.ref 5)).answer?
          { heap := moment.heap, host := world.host }).isSome) = true :=
    exists_follow [.newClass "C" [], .newInstance (.ref 0), .newFunction "f" none none (), .newList [],
      .newMethod (.ref 2) (.ref 3) .nil, .newTuple [.ref 1, .ref 4], .newString "one", .drop (.ref 6),
      .append (.ref 3) (.int 1), .newList []] 4 () _ _ rfl (by decide +kernel)
  obtain ⟨earlier, noted, checked⟩ := List.any_eq_true.mp seen
  simp only [Bool.and_eq_true, decide_eq_true_eq] at checked
  obtain ⟨⟨⟨⟨⟨unborn, reborn⟩, lasts⟩, silent⟩, given⟩, answered⟩ := checked
  obtain ⟨hash, answered⟩ := Option.isSome_iff_exists.mp answered
  obtain ⟨⟨outcome, first⟩, ran, succeeded⟩ := Option.bind_eq_some_iff.mp answered
  obtain rfl := eq_ok_of_toOption succeeded
  have hashed := eq_ok_of_toOption ran
  obtain ⟨newer, older, split⟩ := List.append_of_mem noted
  have stays (handle : Handle) (member : handle ∈ (Value.ref 5).owns) :
      earlier.heap.Lasts world.heap handle :=
    Multiset.mem_singleton.mp member ▸ lasts
  exact ⟨world, earlier, reached, noted, unborn, reborn, hash, first, hashed,
    hashes_are_stable respectful_idleBodies reached split (Or.inl rfl) stays
      (fun part leads => Heap.lacks_of_isSilent silent (.ref 5) part
        (leads.lift id fun _ _ hasItem => hasItem.hasPart))
      given (bodiesEngine idleBodies 4) (bodiesEngine idleBodies 4) (by decide) (by decide) hashed⟩

end Reached

end ObjectHeap
