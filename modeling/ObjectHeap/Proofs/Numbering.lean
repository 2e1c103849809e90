/-
This file shows that functions can be told apart by their numbers. The heap keeps the next number,
which is above the numbers of all functions that are there, and no two of them have the same one. A
number is used up before the function that gets it is charged; by the time the function is placed,
code of the host may have run and created others, but none with that number. Everything else only
makes functions go. So methods hash alike just in case they are made of the same function, and they
are equal only then.
-/

import ObjectHeap.Proofs.Course
import ObjectHeap.Proofs.Looking

namespace ObjectHeap

variable {Code Host : Type}

/-! ### Numbers of functions -/

namespace Heap

/-- The number of the function in a slot. -/
def counter? (heap : Heap Code) (handle : Handle) : Option Nat :=
  match heap.payload? handle with
  | some (.function data) => some data.counter
  | _ => none

/-- The functions of a heap have different numbers, which were all used up. -/
structure Numbered (heap : Heap Code) : Prop where
  below : ∀ {handle counter}, heap.counter? handle = some counter → counter < heap.nextCounter
  distinct : ∀ {one other counter}, heap.counter? one = some counter →
    heap.counter? other = some counter → one = other

/-- How numbers come and go: those that were used up before are at most still there. -/
structure Numbers (before after : Heap Code) : Prop where
  later : before.nextCounter ≤ after.nextCounter
  older : ∀ {handle counter}, after.counter? handle = some counter → counter < before.nextCounter →
    before.counter? handle = some counter
  numbered : before.Numbered → after.Numbered

variable {before between after : Heap Code}

theorem counter?_of_payload? {heap : Heap Code} {handle : Handle} {data : Function Code}
    (found : heap.payload? handle = some (.function data)) :
    heap.counter? handle = some data.counter := by
  unfold counter?
  rw [found]

theorem counter?_eq_some {heap : Heap Code} {handle : Handle} {counter : Nat} :
    heap.counter? handle = some counter ↔
      ∃ data, heap.payload? handle = some (.function data) ∧ data.counter = counter := by
  unfold counter?
  constructor
  · intro numbered
    split at numbered
    · rename_i data found
      exact ⟨data, found, Option.some.inj numbered⟩
    · cases numbered
  · rintro ⟨data, found, rfl⟩
    rw [found]

theorem Numbers.refl (heap : Heap Code) : heap.Numbers heap :=
  ⟨le_rfl, fun found _ => found, id⟩

theorem Numbers.trans (first : before.Numbers between) (second : between.Numbers after) :
    before.Numbers after where
  later := first.later.trans second.later
  older found below := first.older (second.older found (below.trans_le first.later)) below
  numbered := second.numbered ∘ first.numbered

/-- Functions may go. -/
theorem Numbers.of_fewer (same : after.nextCounter = before.nextCounter)
    (fewer : ∀ {handle counter}, after.counter? handle = some counter →
      before.counter? handle = some counter) : before.Numbers after where
  later := same.ge
  older found _ := fewer found
  numbered numbered :=
    { below := fun found => same ▸ numbered.below (fewer found)
      distinct := fun one other => numbered.distinct (fewer one) (fewer other) }

/-- A change of payloads makes no function, and changes the number of none. -/
theorem Numbers.mapPayload (heap : Heap Code) (handle : Handle) {change : Payload Code → Payload Code}
    (keeps : ∀ payload data, heap.payload? handle = some payload → change payload = .function data →
      ∃ previous, payload = .function previous ∧ previous.counter = data.counter) :
    heap.Numbers (heap.mapPayload handle change) := by
  refine .of_fewer rfl fun {other counter} found => ?_
  obtain ⟨data, changed, rfl⟩ := counter?_eq_some.mp found
  rw [payload?_mapPayload] at changed
  split at changed
  · rename_i same
    obtain ⟨payload, there, becomes⟩ := Option.map_eq_some_iff.mp changed
    obtain ⟨previous, rfl, numbered⟩ := keeps payload data (same ▸ there) becomes
    exact counter?_eq_some.mpr ⟨previous, there, numbered⟩
  · exact counter?_eq_some.mpr ⟨data, changed, rfl⟩

/-- A payload is placed in one slot. -/
theorem exists_place (heap : Heap Code) (payload : Payload Code) (slot : Option Handle) :
    ∃ place, ∀ other found, (heap.place payload slot).2.payload? other = some found →
      other = place ∧ found = payload ∨ heap.payload? other = some found := by
  cases slot with
  | none =>
    refine ⟨heap.slots.size, fun other found placed => ?_⟩
    rw [payload?_eq, occupant?_place_none] at placed
    split at placed
    · rename_i same
      exact Or.inl ⟨same, (Option.some.inj placed).symm⟩
    · exact Or.inr placed
  | some place =>
    refine ⟨place, fun other found placed => ?_⟩
    by_cases inside : place < heap.slots.size
    · rw [payload?_eq, occupant?_place_some _ _ inside] at placed
      split at placed
      · rename_i same
        exact Or.inl ⟨same, (Option.some.inj placed).symm⟩
      · exact Or.inr placed
    · refine Or.inr ?_
      have outside : heap.slots.size ≤ place := Nat.le_of_not_lt inside
      unfold payload? occupant? at placed ⊢
      unfold Heap.place at placed
      rw [Array.getElem?_modify] at placed
      split at placed
      · rename_i same
        subst same
        rw [Array.getElem?_eq_none outside] at placed
        cases placed
      · exact placed

theorem exists_housing (heap : Heap Code) (payload : Payload Code) :
    ∃ place, ∀ other found, (heap.housing payload).payload? other = some found →
      other = place ∧ found = payload ∨ heap.payload? other = some found := by
  obtain ⟨place, placed⟩ := heap.takeFree.2.exists_place payload heap.takeFree.1
  refine ⟨place, fun other found housed => (placed other found housed).imp_right fun there => ?_⟩
  rwa [payload?_congr (occupant?_congr heap.slots_takeFree other)] at there

theorem nextCounter_place (heap : Heap Code) (payload : Payload Code) (slot : Option Handle) :
    (heap.place payload slot).2.nextCounter = heap.nextCounter := by
  cases slot <;> rfl

theorem nextCounter_takeFree (heap : Heap Code) : heap.takeFree.2.nextCounter = heap.nextCounter := by
  unfold takeFree
  split <;> rfl

theorem nextCounter_housing (heap : Heap Code) (payload : Payload Code) :
    (heap.housing payload).nextCounter = heap.nextCounter :=
  (nextCounter_place _ _ _).trans heap.nextCounter_takeFree

/-- What is placed has no number unless it is a function. -/
theorem Numbers.place (heap : Heap Code) {taken : Heap Code} {payload : Payload Code}
    (slot : Option Handle) (slots : taken.slots = heap.slots)
    (next : taken.nextCounter = heap.nextCounter) (other : payload.kind ≠ .function) :
    heap.Numbers (taken.place payload slot).2 := by
  obtain ⟨place, placed⟩ := taken.exists_place payload slot
  refine .of_fewer ((nextCounter_place _ _ _).trans next) fun {handle counter} found => ?_
  obtain ⟨data, here, rfl⟩ := counter?_eq_some.mp found
  rcases placed handle _ here with ⟨_, rfl⟩ | there
  · exact absurd rfl other
  · rw [payload?_congr (occupant?_congr slots handle)] at there
    exact counter?_eq_some.mpr ⟨data, there, rfl⟩

/-- The next number may be used up without a function that gets it. -/
theorem numbers_next (heap : Heap Code) :
    heap.Numbers { heap with nextCounter := heap.nextCounter + 1 } where
  later := Nat.le_succ _
  older found _ := found
  numbered numbered :=
    ⟨fun found => (numbered.below found).trans (Nat.lt_succ_self _), numbered.distinct⟩

/-- A function gets the next number, which is used up at once, and whatever happens before the
function is placed, no other function gets the number. -/
theorem Numbers.function {data : Function Code} (number : data.counter = before.nextCounter)
    (charged : Numbers { before with nextCounter := before.nextCounter + 1 } between) :
    before.Numbers (between.housing (.function data)) := by
  obtain ⟨place, placed⟩ := between.exists_housing (.function data)
  have found {handle : Handle} {counter : Nat}
      (here : (between.housing (.function data)).counter? handle = some counter) :
      handle = place ∧ counter = before.nextCounter ∨ between.counter? handle = some counter := by
    obtain ⟨placedData, there, rfl⟩ := counter?_eq_some.mp here
    rcases placed handle _ there with ⟨same, made⟩ | kept
    · cases made
      exact Or.inl ⟨same, number⟩
    · exact Or.inr (counter?_of_payload? kept)
  have next : before.nextCounter < between.nextCounter := charged.later
  have unused (numbered : before.Numbered) (handle : Handle) :
      between.counter? handle ≠ some before.nextCounter := by
    intro used
    have old : before.counter? handle = some before.nextCounter :=
      charged.older used (Nat.lt_succ_self _)
    exact Nat.lt_irrefl _ (numbered.below old)
  refine ⟨?_, fun {handle counter} here below => ?_, fun numbered => ?_⟩
  · rw [nextCounter_housing]
    exact next.le
  · rcases found here with ⟨_, rfl⟩ | there
    · exact absurd below (Nat.lt_irrefl _)
    · exact charged.older there (below.trans (Nat.lt_succ_self _))
  · have kept := charged.numbered (before.numbers_next.numbered numbered)
    refine ⟨fun {handle counter} here => ?_, fun {one other counter} first second => ?_⟩
    · rw [nextCounter_housing]
      rcases found here with ⟨_, rfl⟩ | there
      · exact next
      · exact kept.below there
    · rcases found first with ⟨rfl, rfl⟩ | there
      · rcases found second with ⟨rfl, _⟩ | other
        · rfl
        · exact absurd other (unused numbered _)
      · rcases found second with ⟨rfl, rfl⟩ | other
        · exact absurd there (unused numbered _)
        · exact kept.distinct there other

end Heap

/-! ### The course of numbers -/

/-- How numbers come and go in a recorded run: also at the moments that are noted, functions have
different numbers. -/
structure World.Numbers (before after : World Code (Recorded Code Host)) : Prop where
  heaps : before.heap.Numbers after.heap
  moments : before.heap.Numbered → (∀ moment ∈ before.host.moments, moment.heap.Numbered) →
    ∀ moment ∈ after.host.moments, moment.heap.Numbered

theorem World.Numbers.of_heap {world : World Code (Recorded Code Host)} {heap : Heap Code}
    (heaps : world.heap.Numbers heap) : world.Numbers { world with heap } :=
  ⟨heaps, fun _ noted => noted⟩

/-- Numbers come and go along the course of a run. -/
def Course.numbers : Course Code (Recorded Code Host) where
  leads := World.Numbers
  still world := ⟨.refl _, fun _ noted => noted⟩
  onward first second := ⟨first.heaps.trans second.heaps, fun numbered noted =>
    second.moments (first.heaps.numbered numbered) (first.moments numbered noted)⟩
  retain {world handle} _ := .of_heap (.of_fewer rfl fun {other counter} found => by
    unfold Heap.counter? at found ⊢
    rwa [world.heap.payload?_increment] at found)

theorem Course.lenient_numbers :
    (Course.numbers : Course Code (Recorded Code Host)).Lenient where
  books world heap slots next := .of_heap (.of_fewer next fun {handle counter} found => by
    unfold Heap.counter? at found ⊢
    rwa [Heap.payload?_congr (Heap.occupant?_congr slots handle)] at found)
  counts world handle change := .of_heap (.of_fewer rfl fun {other counter} found => by
    unfold Heap.counter? at found ⊢
    rwa [world.heap.payload?_mapEntry_count] at found)
  vacates world handle := .of_heap (.of_fewer rfl fun {other counter} found => by
    obtain ⟨data, there, rfl⟩ := Heap.counter?_eq_some.mp found
    rw [world.heap.payload?_setEntry] at there
    split at there
    · cases there
    · exact Heap.counter?_of_payload? there)
  registers world handle change := .of_heap (.mapPayload _ _ fun payload data _ becomes => by
    cases payload <;> cases becomes
    exact ⟨_, rfl, rfl⟩)
  clears world target weakref := .of_heap (by
    unfold Heap.clear
    split
    · split
      · show world.heap.Numbers (world.heap.mapPayload weakref fun _ => Heap.deadWeakref)
        exact .mapPayload _ _ fun _ _ _ becomes => nomatch becomes
      · exact .refl _
    · exact .refl _)

section

variable {engine : Engine Code (Recorded Code Host)}

/-- Operations follow the course of numbers if callbacks and the code of the host do. -/
theorem Engine.follows_numbers
    (runs : ∀ code arguments, (engine.run code arguments).Obeys Course.numbers.discipline)
    (calls : ∀ callback arguments, (engine.callBack callback arguments).Obeys Course.numbers.discipline) :
    engine.Follows Course.numbers where
  release := Course.lenient_numbers.release calls
  charge := Course.lenient_numbers.charge calls
  housing world payload other := .of_heap
    (.place _ _ world.heap.slots_takeFree world.heap.nextCounter_takeFree other)
  housingMethod world data := by
    refine .of_heap (.place _ _ world.heap.slots_takeFreeForMethod ?_ nofun)
    unfold Heap.takeFreeForMethod
    split
    · rfl
    · exact world.heap.nextCounter_takeFree
  newFunction name qualifiedName doc code := by
    intro before outcome after ended
    obtain ⟨_, _, looked, going⟩ := Attempt.act_bind_eq_ok.mp ended
    cases looked
    obtain ⟨_, _, used, going⟩ := Attempt.act_bind_eq_ok.mp going
    cases used
    obtain ⟨refusal, between, charged, going⟩ := Attempt.act_bind_eq_ok.mp going
    have numbers := Course.lenient_numbers.charge calls _ charged
    have reserved : before.Numbers
        { before with heap := { before.heap with nextCounter := before.heap.nextCounter + 1 } } :=
      .of_heap before.heap.numbers_next
    have moments := (Course.numbers.onward reserved numbers).moments
    cases refusal with
    | some exceeded =>
      cases going
      exact ⟨reserved.heaps.trans numbers.heaps, moments⟩
    | none =>
      cases going
      exact ⟨.function rfl numbers.heaps, moments⟩
  register world target weakref := Course.lenient_numbers.registers world target _
  stores world := fun found stores => .of_heap (.mapPayload _ _ fun payload data there becomes => by
    cases found.symm.trans there
    cases stores <;> cases becomes
    exact ⟨_, rfl, rfl⟩)
  invoke := Course.lenient_numbers.invoke calls runs
  collect := Course.lenient_numbers.collect calls
  relieve world := Course.lenient_numbers.books world _ rfl rfl

theorem obeys_note (latest : Option ((operation : Operation Code) × operation.Answer)) :
    (note latest : Action Code (Recorded Code Host) Unit).Obeys Course.numbers.discipline := by
  intro before _ _ ended
  cases ended
  refine ⟨.refl _, fun numbered noted moment member => ?_⟩
  rcases List.mem_cons.mp member with rfl | member
  · exact numbered
  · exact noted moment member

theorem Operation.obeys_noted (obeys : engine.Obeys Course.numbers.discipline)
    (operation : Operation Code) : (operation.noted engine).Obeys Course.numbers.discipline :=
  .bind (operation.obeys_perform obeys) fun answer => .bind (obeys_note _) fun _ => .pure answer

theorem Program.obeys_run (obeys : engine.Obeys Course.numbers.discipline)
    (program : Program Code Host) : (program.run engine).Obeys Course.numbers.discipline := by
  induction program with
  | finish outcome => exact .pure outcome
  | perform operation next inductionHypothesis =>
    exact .bind (operation.obeys_noted obeys) inductionHypothesis
  | consult change next inductionHypothesis =>
    intro before outcome after ended
    have started : Course.numbers.leads before
        { before with host := { before.host with host := change before.host.host before.heap } } :=
      ⟨.refl _, fun _ noted => noted⟩
    exact Course.numbers.onward started (inductionHypothesis _ _ ended)

/-- Whatever the bodies of functions do, numbers come and go along their course. -/
theorem obeys_bodiesEngine (bodies : Code → Arguments → Program Code Host) (rounds : Nat) :
    (bodiesEngine bodies rounds).Obeys Course.numbers.discipline :=
  Engine.obeys_ofRounds (Attempt.Obeys · Course.numbers.discipline)
    (.ofAction (Course.numbers.discipline.stop _))
    (fun _ runs calls => (Engine.follows_numbers runs calls).obeys)
    (fun _ obeys code arguments =>
      Action.Obeys.bind (obeys_note none) fun _ => (bodies code arguments).obeys_run obeys) rounds

end

/-! ### Methods in a numbered heap -/

namespace Engine

variable {Other : Type} {heap : Heap Code} {outside : Multiset Handle} {limbo : List Handle}
  {method other : Handle} {data otherData : Method}

theorem hash_of_method (engine : Engine Code Other) (host : Other) (sound : heap.Sound outside limbo)
    (held : heap.payload? method = some (.method data)) :
    (engine.hash (.ref method)).run { heap, host } =
      .ok (.ok (counterHash (heap.counter data.function)), { heap, host }) :=
  Attempt.ask_bind_eq_ok.mpr ⟨_, heap.read_eq_ok.mpr held,
    Attempt.ask_bind_eq_ok.mpr ⟨_, sound.methodCounter_ok held, rfl⟩⟩

/-- Two methods have a say about their equality, and they are equal only if their functions have the same
number, and if both are bound or none is. -/
theorem told_of_methodsEqual {engine : Engine Code Other} {before after : World Code Other}
    {equal : Value → Value → Attempt Code Other Bool} {answer : Option Bool}
    (sound : before.heap.Sound outside limbo) (held : before.heap.payload? method = some (.method data))
    (holds : before.heap.payload? other = some (.method otherData))
    (told : (engine.methodsEqual equal (.ref method) (.ref other)).run before = .ok (.ok answer, after)) :
    ∃ verdict, answer = some verdict ∧ (verdict = true →
      before.heap.counter data.function = before.heap.counter otherData.function ∧
        (data.receiver = none ↔ otherData.receiver = none)) := by
  have readMethod {heap : Heap Code} {place : Handle} {found : Method}
      (there : heap.payload? place = some (.method found)) : heap.method place = .ok found :=
    Heap.bind_eq_ok.mpr ⟨_, heap.read_eq_ok.mpr there, rfl⟩
  obtain ⟨found, asked, going⟩ := Attempt.ask_bind_eq_ok.mp told
  cases (Heap.method?_of_held held).symm.trans asked
  obtain ⟨found, asked, going⟩ := Attempt.ask_bind_eq_ok.mp going
  cases (Heap.method?_of_held holds).symm.trans asked
  dsimp only at going
  split at going
  · rename_i same
    cases going
    cases held.symm.trans (same ▸ holds)
    exact ⟨true, rfl, fun _ => ⟨rfl, Iff.rfl⟩⟩
  · obtain ⟨_, counted, going⟩ := Attempt.ask_bind_eq_ok.mp going
    obtain ⟨_, otherCounted, going⟩ := Attempt.ask_bind_eq_ok.mp going
    cases (sound.methodCounter_ok held).symm.trans counted
    cases (sound.methodCounter_ok holds).symm.trans otherCounted
    split at going
    · cases going
      exact ⟨false, rfl, nofun⟩
    · rename_i same
      obtain ⟨_, read, going⟩ := Attempt.ask_bind_eq_ok.mp going
      cases (readMethod held).symm.trans read
      obtain ⟨_, between, taken, going⟩ := Attempt.act_bind_eq_ok.mp going
      obtain ⟨_, read, going⟩ := Attempt.ask_bind_eq_ok.mp going
      cases (readMethod ((payload?_of_retainAll taken other).trans holds)).symm.trans read
      obtain ⟨_, middle, _, going⟩ := Attempt.act_bind_eq_ok.mp going
      obtain ⟨verdict, last, compared, ended⟩ := Attempt.bind_eq_ok.mp going
      cases ended
      refine ⟨verdict, rfl, fun positive => ⟨not_not.mp same, ?_⟩⟩
      obtain ⟨_, judged, _⟩ := Attempt.ensuring_eq_ok.mp compared
      cases bound : data.receiver <;> cases otherBound : otherData.receiver <;>
        simp only [bound, otherBound] at judged <;> cases positive <;> simp at judged ⊢
      all_goals cases judged

theorem counters_of_equal {engine : Engine Code Other} {before after : World Code Other}
    (sound : before.heap.Sound outside limbo) (held : before.heap.payload? method = some (.method data))
    (holds : before.heap.payload? other = some (.method otherData))
    (equal : (engine.equal (.ref method) (.ref other)).run before = .ok (.ok true, after)) :
    before.heap.counter data.function = before.heap.counter otherData.function ∧
      (data.receiver = none ↔ otherData.receiver = none) := by
  have alike (same : (Value.ref method).same (.ref other)) :
      before.heap.counter data.function = before.heap.counter otherData.function ∧
        (data.receiver = none ↔ otherData.receiver = none) := by
    cases of_decide_eq_true same
    cases held.symm.trans holds
    exact ⟨rfl, Iff.rfl⟩
  change (engine.equalWithin (maxDataDepth + 1) _ _).run before = _ at equal
  unfold equalWithin at equal
  split at equal
  · rename_i same
    exact alike same
  · obtain ⟨answer, between, told, going⟩ := Attempt.bind_eq_ok.mp equal
    obtain ⟨verdict, rfl, alike⟩ := told_of_methodsEqual sound held holds told
    cases going
    exact alike rfl

end Engine

/-- Numbers that are not too great have different hashes. -/
theorem counterHash_inj {one other : Nat} (small : one < 2 ^ 63) (otherSmall : other < 2 ^ 63) :
    counterHash one = counterHash other ↔ one = other := by
  have hashed {counter : Nat} (small : counter < 2 ^ 63) : (counterHash counter).toInt = counter := by
    unfold counterHash
    rw [Nat.min_eq_left (show counter ≤ maxHash by unfold maxHash; omega),
      Int64.toInt_ofNat_of_lt small]
  refine ⟨fun same => ?_, fun same => same ▸ rfl⟩
  have numbers := congrArg Int64.toInt same
  rw [hashed small, hashed otherSmall] at numbers
  exact Int.ofNat.inj numbers

/-! ### Runs -/

theorem Heap.numbered_new (config : Config) : (Heap.new config : Heap Code).Numbered := by
  have nothing {handle : Handle} {counter : Nat} :
      (Heap.new config : Heap Code).counter? handle ≠ some counter := by
    unfold counter?
    rw [payload?_new]
    exact nofun
  exact ⟨fun found => (nothing found).elim, fun found => (nothing found).elim⟩

namespace Reached

variable {held : Host → Multiset Handle} {bodies : Code → Arguments → Program Code Host}
  {config : Config} {hand : Multiset Handle} {world : World Code (Recorded Code Host)}

/-- In every heap of a run, functions have different numbers below the next one. -/
theorem numbered (reached : Reached held bodies config hand world) {heap : Heap Code}
    (member : heap ∈ heaps world) : heap.Numbered := by
  have always : world.heap.Numbered ∧ ∀ moment ∈ world.host.moments, moment.heap.Numbered := by
    clear member
    induction reached with
    | start => exact ⟨Heap.numbered_new config, fun _ member => absurd member List.not_mem_nil⟩
    | perform operation rounds answer _ _ ended inductionHypothesis =>
      have numbers : World.Numbers _ _ :=
        Course.leads_of_obeys (operation.obeys_noted (obeys_bodiesEngine bodies rounds)) ended
      exact ⟨numbers.heaps.numbered inductionHypothesis.1,
        numbers.moments inductionHypothesis.1 inductionHypothesis.2⟩
    | keep host _ _ inductionHypothesis => exact inductionHypothesis
  rcases List.mem_cons.mp member with rfl | member
  · exact always.1
  · obtain ⟨moment, noted, rfl⟩ := List.mem_map.mp member
    exact always.2 moment noted

/-- At every moment of a run, functions have different numbers. As long as fewer than `2 ^ 63` numbers
were used up, methods hash alike exactly if they are made of the same function. Methods are equal only
if they are made of the same function, and if both are bound or none is, whatever their owners are. -/
theorem methods_differ_as_functions_do (respectful : RespectfulBodies held bodies)
    (reached : Reached held bodies config hand world) {heap : Heap Code} (member : heap ∈ heaps world) :
    (∀ one other data otherData, heap.payload? one = some (.function data) →
      heap.payload? other = some (.function otherData) → data.counter = otherData.counter →
        one = other) ∧
    ∀ {Other : Type} (engine : Engine Code Other) (host : Other) method other data otherData,
      heap.payload? method = some (.method data) → heap.payload? other = some (.method otherData) →
      (heap.nextCounter ≤ 2 ^ 63 → ∃ hash otherHash,
        (engine.hash (.ref method)).run { heap, host } = .ok (.ok hash, { heap, host }) ∧
        (engine.hash (.ref other)).run { heap, host } = .ok (.ok otherHash, { heap, host }) ∧
        (hash = otherHash ↔ data.function = otherData.function)) ∧
      ∀ after, (engine.equal (.ref method) (.ref other)).run { heap, host } = .ok (.ok true, after) →
        data.function = otherData.function ∧ (data.receiver = none ↔ otherData.receiver = none) := by
  obtain ⟨⟨outside, limbo, sound⟩, _⟩ := reached.orderly respectful member
  have numbered := reached.numbered member
  refine ⟨fun one other data otherData found holds same => ?_, ?_⟩
  · have counted := Heap.counter?_of_payload? holds
    exact numbered.distinct (Heap.counter?_of_payload? found) (same ▸ counted)
  intro Other engine host method other data otherData held holds
  obtain ⟨function, made⟩ := sound.exists_function held
  obtain ⟨otherFunction, otherMade⟩ := sound.exists_function holds
  have counter : heap.counter data.function = function.counter := by rw [Heap.counter, made]
  have otherCounter : heap.counter otherData.function = otherFunction.counter := by
    rw [Heap.counter, otherMade]
  have counted := Heap.counter?_of_payload? made
  have otherCounted := Heap.counter?_of_payload? otherMade
  have apart : heap.counter data.function = heap.counter otherData.function ↔
      data.function = otherData.function := by
    refine ⟨fun same => ?_, fun same => same ▸ rfl⟩
    rw [counter, otherCounter] at same
    exact numbered.distinct counted (same ▸ otherCounted)
  refine ⟨fun few => ⟨_, _, engine.hash_of_method host sound held, engine.hash_of_method host sound holds,
    ?_⟩, fun after equal => ?_⟩
  · rw [← apart, counter, otherCounter]
    exact counterHash_inj ((numbered.below counted).trans_le few) ((numbered.below otherCounted).trans_le few)
  · have sound : (World.mk heap host).heap.Sound outside limbo := sound
    obtain ⟨same, bound⟩ := Engine.counters_of_equal sound held holds equal
    exact ⟨apart.mp same, bound⟩

/-- A function is gone, and another one is in its slot. A method of it has the hash of no method of a
third function, and is not equal to it. -/
theorem methods_of_functions_in_turn : ∃ world : World Unit (Recorded Unit Unit),
    Reached (fun _ => 0) idleBodies Config.standard ({0} + {1} + {2} + {3}) world ∧
    (∃ hash otherHash,
      ((bodiesEngine idleBodies 4).hash (.ref 2)).run world = .ok (.ok hash, world) ∧
      ((bodiesEngine idleBodies 4).hash (.ref 3)).run world = .ok (.ok otherHash, world) ∧
      hash ≠ otherHash) ∧
    ∀ after, ((bodiesEngine idleBodies 4).equal (.ref 2) (.ref 3)).run world ≠
      .ok (.ok true, after) := by
  have first : Reached (fun _ : Unit => 0) idleBodies Config.standard {0} _ :=
    .perform (.newFunction "f" none none ()) 4 (.ok (.ref 0)) (.start () rfl) (fun _ member => member) rfl
  have dropped : Reached (fun _ : Unit => 0) idleBodies Config.standard (0 + 0) _ :=
    .perform (.drop (.ref 0)) 4 () first (fun _ member => absurd member (Multiset.notMem_zero _)) rfl
  have second : Reached (fun _ : Unit => 0) idleBodies Config.standard {0} _ :=
    .perform (.newFunction "g" none none ()) 4 (.ok (.ref 0)) dropped (fun _ member => member) rfl
  have third : Reached (fun _ : Unit => 0) idleBodies Config.standard ({0} + {1}) _ :=
    .perform (.newFunction "h" none none ()) 4 (.ok (.ref 1)) second
      (fun _ member => absurd member (Multiset.notMem_zero _)) rfl
  have bound : Reached (fun _ : Unit => 0) idleBodies Config.standard ({0} + {1} + {2}) _ :=
    .perform (.newMethod (.ref 0) (.int 5) .nil) 4 (.ok (.ref 2)) third
      (Multiset.subset_of_le (by decide)) rfl
  have other : Reached (fun _ : Unit => 0) idleBodies Config.standard ({0} + {1} + {2} + {3}) _ :=
    .perform (.newMethod (.ref 1) (.int 5) .nil) 4 (.ok (.ref 3)) bound
      (Multiset.subset_of_le (by decide)) rfl
  obtain ⟨hashes, equals⟩ := (methods_differ_as_functions_do respectful_idleBodies other
    List.mem_cons_self).2 (bodiesEngine idleBodies 4) _ 2 3 _ _ rfl rfl
  obtain ⟨hash, otherHash, hashed, otherHashed, same⟩ := hashes (by decide)
  exact ⟨_, other, ⟨hash, otherHash, hashed, otherHashed, fun alike => absurd (same.mp alike) (by decide)⟩,
    fun after equal => absurd (equals after equal).1 (by decide)⟩

end Reached

end ObjectHeap
