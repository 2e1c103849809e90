/-
This file follows what a host creates and changes through two heaps that are in accord. What they have
in common is left open: it may be every entry, or only what is owned from outside and all that leads on
from there. An accord lasts while references are taken and given up, while an allocation is charged for,
and while entries grow. Whatever an operation is about has to be among what is known, so that it is
looked up alike in both heaps: then the operation is refused for the same reason in both of them, or it
makes the corresponding change.
-/

import ObjectHeap.Proofs.Shedding

namespace ObjectHeap

variable {Code Host : Type}

/-! ### Heaps that forget things -/

/-- A payload can be placed as it is: what it is made of is there, it refers to nothing weakly, and
nothing is registered with it. -/
structure Payload.Suits (payload : Payload Code) (heap : Heap Code) : Prop where
  founded : payload.Founded heap
  unwatched : payload.watchers = []
  aimless : payload.target? = none
  quiet : Heap.callbackOf payload = none

namespace Heap

variable {common : Heap Code → Equiv.Perm Handle → Multiset Handle → Heap Code → Prop}
  {one two later last further furthest : Heap Code} {name : Equiv.Perm Handle}
  {outside others : Multiset Handle} {handle : Handle} {payload : Payload Code}

/-- What is owned still sustains what it sustained before something else was forgotten. -/
theorem Forgets.sustained (forgets : one.Forgets later) (silent : one.Silent)
    (balanced : later.Balanced others) (owned : outside ≤ others)
    (sustained : one.Sustained outside handle) : later.Sustained outside handle := by
  refine sustained.induction (fun root member => .of_mem member) fun source target _ still refers =>
    still.step ?_
  unfold Refers
  rw [forgets.visits_eq silent
      (balanced.isLive_of_sustained (still.mono (Multiset.subset_of_le owned)))]
  exact refers

theorem Forgets.suits (forgets : one.Forgets later) (suits : payload.Suits one)
    (lives : ∀ handle ∈ payload.owns, later.isLive handle) : payload.Suits later :=
  ⟨forgets.founded suits.founded lives, suits.unwatched, suits.aimless, suits.quiet⟩

/-- Two heaps have forgotten things, and what is to be common to them still is. -/
structure Fades (common : Heap Code → Equiv.Perm Handle → Multiset Handle → Heap Code → Prop)
    (one two : Heap Code) (name : Equiv.Perm Handle) (outside : Multiset Handle)
    (later last : Heap Code) : Prop where
  holds : common later name outside last
  forgets : one.Forgets later
  forgetsImage : two.Forgets last

namespace Fades

theorem refl (holds : common one name outside two) : Fades common one two name outside one two :=
  ⟨holds, .refl one, .refl two⟩

theorem congr (fades : Fades common one two name outside later last) (same : outside = others) :
    Fades common one two name others later last := same ▸ fades

theorem trans (first : Fades common one two name others later last)
    (second : Fades common later last name outside further furthest) :
    Fades common one two name outside further furthest :=
  ⟨second.holds, first.forgets.trans second.forgets, first.forgetsImage.trans second.forgetsImage⟩

end Fades

end Heap

open Heap (Fades)

/-- Two engines have a round for every reference in their heaps, and for so many more. -/
structure Serves (engine other : Engine Code Host) (one two : Heap Code) (more : Nat) : Prop where
  enough : one.edges.length + more ≤ engine.rounds
  enoughImage : two.edges.length + more ≤ other.rounds

theorem Serves.mono {engine other : Engine Code Host} {one two : Heap Code} {more fewer : Nat}
    (serves : Serves engine other one two more) (less : fewer ≤ more) :
    Serves engine other one two fewer where
  enough := (Nat.add_le_add_left less _).trans serves.enough
  enoughImage := (Nat.add_le_add_left less _).trans serves.enoughImage

/-- When heaps forget things, there are rounds enough still. -/
theorem Serves.fades {common : Heap Code → Equiv.Perm Handle → Multiset Handle → Heap Code → Prop}
    {engine other : Engine Code Host} {one two later last : Heap Code} {name : Equiv.Perm Handle}
    {outside : Multiset Handle} {more : Nat} (serves : Serves engine other one two more)
    (silent : one.Silent) (silentImage : two.Silent)
    (fades : Fades common one two name outside later last) : Serves engine other later last more where
  enough := (Nat.add_le_add_right (fades.forgets.length_edges_le silent) _).trans serves.enough
  enoughImage :=
    (Nat.add_le_add_right (fades.forgetsImage.length_edges_le silentImage) _).trans serves.enoughImage

/-! ### Accords -/

/-- What two heaps have in common while references are taken and entries grow. -/
structure Rapport (Code : Type) where
  /-- The heaps correspond under a renaming, while so many references are owned from outside. -/
  holds : Heap Code → Equiv.Perm Handle → Multiset Handle → Heap Code → Prop
  /-- The entries that are the same in the other heap. -/
  knows : Heap Code → Multiset Handle → Set Handle
  rest : ∀ {one two name outside}, holds one name outside two → one.AtRest outside
  image : ∀ {one two name outside}, holds one name outside two → two.AtRest (outside.map name)
  isLive : ∀ {one two name outside handle}, holds one name outside two →
    handle ∈ knows one outside → one.isLive handle
  known : ∀ {one two name outside handle}, holds one name outside two →
    one.Sustained outside handle → handle ∈ knows one outside
  reflects : ∀ {one two name outside}, holds one name outside two →
    one.Reflects name (knows one outside) two
  counter : ∀ {one two name outside}, holds one name outside two → two.nextCounter = one.nextCounter
  /-- A function gets its number in both heaps. -/
  advance : ∀ {one two name outside}, holds one name outside two →
    holds { one with nextCounter := one.nextCounter + 1 } name outside
      { two with nextCounter := two.nextCounter + 1 }
  increment : ∀ {one two name outside place}, holds one name outside two →
    place ∈ knows one outside →
    holds (one.increment place) name (outside + {place}) (two.increment (name place))
  exchange : ∀ {one two name outside place payload grown} {mine others : Multiset Handle},
    holds one name (outside + mine) two → place ∈ knows one (outside + mine) →
    one.payload? place = some payload → payload.Grows grown →
    grown.owns + others = payload.owns + mine →
    holds (one.mapPayload place fun _ => grown) name (outside + others)
      (two.mapPayload (name place) fun _ => grown.rename name)

/-- What two heaps have in common while two engines give up references and allocate in them. -/
structure Accord (Code Host : Type) extends Rapport Code where
  engine : Engine Code Host
  other : Engine Code Host
  release : ∀ {one two : World Code Host} {name outside} {value : Value},
    holds one.heap name (outside + value.owns) two.heap →
    Serves engine other one.heap two.heap value.owns.card →
    Action.Tandem one two (engine.release value) (other.release (value.rename name))
      fun _ later _ last => Fades holds one.heap two.heap name outside later last
  /-- The trackers charge for a payload alike. A payload that is refused is given up. -/
  charge : ∀ {one two : World Code Host} {name outside} {payload : Payload Code},
    holds one.heap name (outside + payload.owns) two.heap →
    Serves engine other one.heap two.heap payload.owns.card →
    Action.Tandem one two (engine.charge payload) (other.charge (payload.rename name))
      fun refusal later answer last => answer = refusal ∧ Fades holds one.heap two.heap name
        (outside + if refusal.isNone then payload.owns else 0) later last

namespace Rapport

variable (rapport : Rapport Code)

section

variable {rapport} {one two later last : Heap Code} {name : Equiv.Perm Handle}
  {outside others mine : Multiset Handle} {handle : Handle}

theorem holds.congr (holds : rapport.holds one name outside two) (same : outside = others) :
    rapport.holds one name others two := same ▸ holds

/-- What is known is in both heaps. -/
theorem holds.exists_payload? (holds : rapport.holds one name outside two)
    (known : handle ∈ rapport.knows one outside) : ∃ payload,
      one.payload? handle = some payload ∧ two.payload? (name handle) = some (payload.rename name) := by
  obtain ⟨payload, held⟩ := Heap.exists_payload?_of_isLive (rapport.isLive holds known)
  exact ⟨payload, held,
    ((rapport.reflects holds).payloads handle known).trans (congrArg (Option.map _) held)⟩

theorem holds.isLive_image (holds : rapport.holds one name outside two)
    (known : handle ∈ rapport.knows one outside) : two.isLive (name handle) := by
  obtain ⟨_, _, thereImage⟩ := holds.exists_payload? known
  exact Heap.isLive_of_payload? thereImage

/-- A class that is known is a class in the other heap as well. -/
theorem holds.isType (holds : rapport.holds one name outside two)
    (known : handle ∈ rapport.knows one outside) (found : one.IsType handle) :
    two.IsType (name handle) := by
  obtain ⟨data, held⟩ := found
  exact ⟨_, ((rapport.reflects holds).payloads handle known).trans (congrArg (Option.map _) held)⟩

/-- What was sustained while something else was forgotten is sustained still. -/
theorem holds.sustained (holds : rapport.holds one name mine two)
    (fades : Fades rapport.holds one two name others later last) (owned : outside ≤ others)
    (sustained : one.Sustained outside handle) : later.Sustained outside handle :=
  fades.forgets.sustained (rapport.rest holds).silent (rapport.rest fades.holds).sound.balanced owned
    sustained

end

section

variable {one two : World Code Host} {name : Equiv.Perm Handle} {outside : Multiset Handle}

/-! ### Questions about values -/

variable {value : Value} {β : Type} {post : β → Heap Code → β → Heap Code → Prop}
  {lost : Heap Code → Heap Code → Prop}

/-- The type of a value is called the same in both heaps. -/
theorem tandem_typeName {next nextImage : String → Attempt Code Host β}
    (holds : rapport.holds one.heap name outside two.heap)
    (known : ∀ handle ∈ value.owns, handle ∈ rapport.knows one.heap outside)
    (rest : ∀ type, Attempt.Tandem one two (next type) (nextImage type) post lost) :
    Attempt.Tandem one two (ask (fun heap => heap.typeName value) >>= next)
      (ask (fun heap => heap.typeName (value.rename name)) >>= nextImage) post lost := by
  have named := (rapport.rest holds).sound.typeName_ok fun handle member =>
    rapport.isLive holds (known handle member)
  exact .ask named (((rapport.reflects holds).typeName known).trans named) (rest _)

/-- A value is a class in both heaps, or in neither one. -/
theorem tandem_type? {next nextImage : Option Handle → Attempt Code Host β}
    (holds : rapport.holds one.heap name outside two.heap)
    (known : ∀ handle ∈ value.owns, handle ∈ rapport.knows one.heap outside)
    (missing : Attempt.Tandem one two (next none) (nextImage none) post lost)
    (found : ∀ handle, value = .ref handle → one.heap.IsType handle →
      Attempt.Tandem one two (next (some handle)) (nextImage (some (name handle))) post lost) :
    Attempt.Tandem one two (ask (fun heap => heap.type? value) >>= next)
      (ask (fun heap => heap.type? (value.rename name)) >>= nextImage) post lost := by
  obtain ⟨answer, asked⟩ := Heap.exists_type? fun handle member =>
    rapport.isLive holds (known handle member)
  refine .ask asked (((rapport.reflects holds).type? known).trans (congrArg (Except.map _) asked)) ?_
  cases answer with
  | none => exact missing
  | some handle =>
    obtain ⟨rfl, isType⟩ := Heap.type?_eq_some asked
    exact found handle rfl isType

/-! ### References that are taken -/

theorem tandem_retain {handle : Handle} (holds : rapport.holds one.heap name outside two.heap)
    (known : handle ∈ rapport.knows one.heap outside) :
    Action.Tandem one two (retain handle) (retain (name handle)) fun _ later _ last =>
      Fades rapport.holds one.heap two.heap name (outside + {handle}) later last :=
  ⟨(), _, (), _, (retain_apply one handle).trans (if_pos (rapport.isLive holds known)),
    (retain_apply two (name handle)).trans (if_pos (holds.isLive_image known)),
    rapport.increment holds known, .of_payloads (one.heap.payload?_increment handle),
    .of_payloads (two.heap.payload?_increment (name handle))⟩

theorem tandem_retainValue {value : Value} (holds : rapport.holds one.heap name outside two.heap)
    (known : ∀ handle ∈ value.owns, handle ∈ rapport.knows one.heap outside) :
    Action.Tandem one two (retainValue value) (retainValue (value.rename name)) fun _ later _ last =>
      Fades rapport.holds one.heap two.heap name (outside + value.owns) later last := by
  have nothing : Fades rapport.holds one.heap two.heap name (outside + 0) one.heap two.heap :=
    .refl (holds.congr (add_zero outside).symm)
  cases value with
  | ref handle =>
    exact rapport.tandem_retain holds (known handle (Multiset.mem_singleton_self handle))
  | nil => exact .pure nothing
  | bool value => exact .pure nothing
  | int value => exact .pure nothing

/-- References are taken one by one in both heaps. -/
theorem tandem_retainEach {handles : List Handle} {lost : Heap Code → Heap Code → Prop}
    (holds : rapport.holds one.heap name outside two.heap)
    (sustained : ∀ handle ∈ handles, one.heap.Sustained outside handle) :
    Attempt.Tandem one two (handles.forM fun handle => retain handle)
      ((handles.map name).forM fun handle => retain handle)
      (fun _ later _ last => Fades rapport.holds one.heap two.heap name
        (outside + (handles : Multiset Handle)) later last) lost := by
  induction handles generalizing one two outside with
  | nil => exact .pure (.refl (holds.congr (add_zero outside).symm))
  | cons handle others inductionHypothesis =>
    refine .act (rapport.tandem_retain holds
      (rapport.known holds (sustained handle List.mem_cons_self))) ?_
    rintro _ later _ last taken
    refine (inductionHypothesis taken.holds fun other member => ?_).imp ?_ fun _ _ done => done
    · have more := Multiset.le_add_right outside {handle}
      have before := sustained other (List.mem_cons_of_mem handle member)
      exact (holds.sustained taken more before).mono (Multiset.subset_of_le more)
    · rintro _ later _ last further
      refine (taken.trans further).congr ?_
      rw [add_assoc, ← Multiset.cons_coe, Multiset.singleton_add]

end

end Rapport

namespace Accord

variable (accord : Accord Code Host)

/-! ### What comes of an operation -/

/-- The heaps are in accord again, and no entry has come. -/
structure Resumes (former : Heap Code) (name : Equiv.Perm Handle) (outside : Multiset Handle)
    (later last : Heap Code) : Prop where
  holds : accord.holds later name outside last
  older : ∀ handle, later.isLive handle → former.isLive handle

/-- A payload was paid for in both heaps, and is in the slot that each of them has found. -/
inductive Buys (former formerImage : Heap Code) (name : Equiv.Perm Handle) (outside : Multiset Handle)
    (payload : Payload Code) : Value → Heap Code → Value → Heap Code → Prop
  | intro {paid paidImage later last : Heap Code} {place image : Handle}
    (fades : Fades accord.holds former formerImage name (outside + payload.owns) paid paidImage)
    (first : paid.Admits payload place later)
    (second : paidImage.Admits (payload.rename name) image last)
    (meters : later.meters = paid.meters) (metersImage : last.meters = paidImage.meters) :
    Buys former formerImage name outside payload (.ref place) later (.ref image) last

/-- An entry that refers to nothing weakly was bought in both heaps. -/
inductive Begets (former formerImage : Heap Code) (name : Equiv.Perm Handle)
    (outside : Multiset Handle) : Value → Heap Code → Value → Heap Code → Prop
  | intro {payload : Payload Code} {value other : Value} {later last : Heap Code}
    (buys : accord.Buys former formerImage name outside payload value later other last)
    (suits : payload.Suits former) : Begets former formerImage name outside value later other last

section

variable {one two former formerImage later last : Heap Code} {name : Equiv.Perm Handle}
  {outside others mine : Multiset Handle} {more : Nat}

theorem serves_of_fades (holds : accord.holds one name mine two)
    (fades : Fades accord.holds one two name others later last)
    (serves : Serves accord.engine accord.other one two more) :
    Serves accord.engine accord.other later last more :=
  serves.fades (accord.rest holds).silent (accord.image holds).silent fades

variable {accord}

theorem Resumes.of_fades (fades : Fades accord.holds former formerImage name outside later last) :
    accord.Resumes former name outside later last :=
  ⟨fades.holds, fun _ live => fades.forgets.isLive live⟩

theorem Resumes.refl (holds : accord.holds one name outside two) :
    accord.Resumes one name outside one two :=
  ⟨holds, fun _ live => live⟩

end

/-! ### References that are given up -/

section

variable {one two : World Code Host} {name : Equiv.Perm Handle} {outside : Multiset Handle}

theorem tandem_release? {value : Option Value}
    (holds : accord.holds one.heap name (outside + owned value.toList) two.heap)
    (serves : Serves accord.engine accord.other one.heap two.heap (owned value.toList).card) :
    Action.Tandem one two (accord.engine.release? value)
      (accord.other.release? (value.map (Value.rename name)))
      fun _ later _ last => Fades accord.holds one.heap two.heap name outside later last := by
  cases value with
  | none => exact .pure (.refl (holds.congr (add_zero outside)))
  | some value =>
    rw [Option.toList_some, owned_cons, owned_nil, add_zero] at holds serves
    exact accord.release holds serves

/-- What an operation has taken over is given up when it is refused. -/
theorem tandem_refuse {content : Value} {refusal : Refusal}
    {post : Unit → Heap Code → Unit → Heap Code → Prop}
    (holds : accord.holds one.heap name (outside + content.owns) two.heap)
    (serves : Serves accord.engine accord.other one.heap two.heap content.owns.card) :
    Attempt.Tandem one two
      (do
        accord.engine.release content
        Attempt.refuse refusal)
      (do
        accord.other.release (content.rename name)
        Attempt.refuse refusal)
      post (accord.Resumes one.heap name outside) :=
  .act (accord.release holds serves) fun _ _ _ _ gone => .refuse (.of_fades gone)

/-- The type of a value that an operation is refused for is called the same in both heaps. -/
theorem tandem_refuseType {value content : Value} {refusal : String → Refusal}
    {post : Unit → Heap Code → Unit → Heap Code → Prop}
    (holds : accord.holds one.heap name (outside + content.owns) two.heap)
    (known : ∀ handle ∈ value.owns, handle ∈ accord.knows one.heap (outside + content.owns))
    (serves : Serves accord.engine accord.other one.heap two.heap content.owns.card) :
    Attempt.Tandem one two
      (do
        let type ← ask fun heap => heap.typeName value
        accord.engine.release content
        Attempt.refuse (refusal type))
      (do
        let type ← ask fun heap => heap.typeName (value.rename name)
        accord.other.release (content.rename name)
        Attempt.refuse (refusal type))
      post (accord.Resumes one.heap name outside) :=
  accord.tandem_typeName holds known fun _ => accord.tandem_refuse holds serves

/-! ### Allocation -/

variable {payload : Payload Code} {former formerImage : Heap Code}

/-- A payload is charged for in both heaps, and placed unless it is refused. -/
theorem tandem_buys {take : Heap Code → Option Handle × Heap Code}
    {refuse refuseImage : LimitExceeded → Attempt Code Host Value}
    {lost : Heap Code → Heap Code → Prop} (supplies : Heap.Supplies take payload.isMethod)
    (fades : Fades accord.holds former formerImage name (outside + payload.owns) one.heap two.heap)
    (serves : Serves accord.engine accord.other one.heap two.heap payload.owns.card)
    (refuses : ∀ exceeded later last,
      Fades accord.holds one.heap two.heap name outside later last →
      Attempt.Tandem { one with heap := later } { two with heap := last } (refuse exceeded)
        (refuseImage exceeded) (accord.Buys former formerImage name outside payload) lost) :
    Attempt.Tandem one two
      (Attempt.ofAction (accord.engine.charge payload) >>= fun refusal =>
        match refusal with
        | some exceeded => refuse exceeded
        | none => do
          let slot ← changeHeap take
          let handle ← changeHeap (·.place payload slot)
          return Value.ref handle)
      (Attempt.ofAction (accord.other.charge (payload.rename name)) >>= fun refusal =>
        match refusal with
        | some exceeded => refuseImage exceeded
        | none => do
          let slot ← changeHeap take
          let handle ← changeHeap (·.place (payload.rename name) slot)
          return Value.ref handle)
      (accord.Buys former formerImage name outside payload) lost := by
  refine .act (accord.charge fades.holds serves) ?_
  rintro _ paid refusal paidImage ⟨rfl, charged⟩
  cases refusal with
  | some exceeded => exact refuses exceeded paid paidImage (charged.congr (add_zero outside))
  | none =>
    have whole := fades.trans charged
    have first := supplies.admits paid payload rfl (accord.rest whole.holds).sound.housed
    have second := supplies.admits paidImage (payload.rename name)
      (Payload.isMethod_rename name payload) (accord.image whole.holds).sound.housed
    refine .act_of_ok (changeHeap_apply _ take) (changeHeap_apply _ take)
      (.act_of_ok (changeHeap_apply _ fun heap => heap.place payload (take paid).1)
        (changeHeap_apply _ fun heap => heap.place (payload.rename name) (take paidImage).1)
        (.pure ?_))
    exact .intro whole first second ((Heap.meters_place _ _ _).trans (supplies.meters paid))
      ((Heap.meters_place _ _ _).trans (supplies.meters paidImage))

theorem tandem_allocate_buys (payload : Payload Code)
    (fades : Fades accord.holds former formerImage name (outside + payload.owns) one.heap two.heap)
    (serves : Serves accord.engine accord.other one.heap two.heap payload.owns.card) :
    Attempt.Tandem one two (accord.engine.allocate payload)
      (accord.other.allocate (payload.rename name))
      (accord.Buys former formerImage name outside payload)
      (accord.Resumes former name outside) :=
  accord.tandem_buys (Heap.supplies_takeFree _) fades serves fun _ _ _ gone =>
    .refuse (.of_fades (fades.trans gone))

/-- What refers to nothing weakly is allocated in both heaps. -/
theorem tandem_allocate (payload : Payload Code)
    (fades : Fades accord.holds former formerImage name (outside + payload.owns) one.heap two.heap)
    (serves : Serves accord.engine accord.other one.heap two.heap payload.owns.card)
    (suits : payload.Suits former) :
    Attempt.Tandem one two (accord.engine.allocate payload)
      (accord.other.allocate (payload.rename name))
      (accord.Begets former formerImage name outside) (accord.Resumes former name outside) :=
  (accord.tandem_allocate_buys payload fades serves).imp
    (fun _ _ _ _ buys => .intro buys suits) fun _ _ lost => lost

/-! ### Strings, lists, tuples and functions -/

theorem tandem_newString (text : String) (holds : accord.holds one.heap name outside two.heap)
    (serves : Serves accord.engine accord.other one.heap two.heap 0) :
    Attempt.Tandem one two (accord.engine.newString text) (accord.other.newString text)
      (accord.Begets one.heap two.heap name outside) (accord.Resumes one.heap name outside) :=
  accord.tandem_allocate (.str text) (.refl (holds.congr (add_zero outside).symm)) serves
    ⟨trivial, rfl, rfl, rfl⟩

theorem tandem_newList {items : List Value}
    (holds : accord.holds one.heap name (outside + owned items) two.heap)
    (serves : Serves accord.engine accord.other one.heap two.heap (owned items).card) :
    Attempt.Tandem one two (accord.engine.newList items)
      (accord.other.newList (items.map (Value.rename name)))
      (accord.Begets one.heap two.heap name outside) (accord.Resumes one.heap name outside) :=
  accord.tandem_allocate (.list items) (.refl holds) serves ⟨trivial, rfl, rfl, rfl⟩

theorem tandem_newTuple {items : List Value}
    (holds : accord.holds one.heap name (outside + owned items) two.heap)
    (serves : Serves accord.engine accord.other one.heap two.heap (owned items).card) :
    Attempt.Tandem one two (accord.engine.newTuple items)
      (accord.other.newTuple (items.map (Value.rename name)))
      (accord.Begets one.heap two.heap name outside) (accord.Resumes one.heap name outside) :=
  accord.tandem_allocate (.tuple items) (.refl holds) serves ⟨trivial, rfl, rfl, rfl⟩

/-- Functions get the same numbers in both heaps. -/
theorem tandem_newFunction (title : String) (qualifiedName doc : Option String) (code : Code)
    (holds : accord.holds one.heap name outside two.heap)
    (serves : Serves accord.engine accord.other one.heap two.heap 0) :
    Attempt.Tandem one two (accord.engine.newFunction title qualifiedName doc code)
      (accord.other.newFunction title qualifiedName doc code)
      (accord.Begets one.heap two.heap name outside) (accord.Resumes one.heap name outside) := by
  let counted : Heap Code := { one.heap with nextCounter := one.heap.nextCounter + 1 }
  let countedImage : Heap Code := { two.heap with nextCounter := two.heap.nextCounter + 1 }
  have still : accord.holds counted name outside countedImage := accord.advance holds
  have changed : (modifyHeap fun heap => { heap with nextCounter := one.heap.nextCounter + 1 } :
      Action Code Host Unit) one = .ok ((), { one with heap := counted }) := rfl
  have changedImage : (modifyHeap fun heap => { heap with nextCounter := two.heap.nextCounter + 1 } :
      Action Code Host Unit) two = .ok ((), { two with heap := countedImage }) := rfl
  refine .act_of_ok (currentHeap_apply one) (currentHeap_apply two)
    (.act_of_ok changed changedImage ?_)
  dsimp only
  rw [accord.counter holds]
  exact accord.tandem_allocate (.function {
    counter := one.heap.nextCounter, name := title, qualifiedName := qualifiedName.getD title
    doc, code, attributes := Attributes.empty })
    ⟨still.congr (add_zero outside).symm, .of_payloads fun _ => rfl, .of_payloads fun _ => rfl⟩
    ⟨serves.enough, serves.enoughImage⟩ ⟨trivial, rfl, rfl, rfl⟩

/-! ### Instances and classes -/

/-- The class of a new instance is one in both heaps, or in neither one. -/
theorem tandem_newInstance {type : Value} (holds : accord.holds one.heap name outside two.heap)
    (known : ∀ handle ∈ type.owns, handle ∈ accord.knows one.heap outside)
    (serves : Serves accord.engine accord.other one.heap two.heap type.owns.card) :
    Attempt.Tandem one two (accord.engine.newInstance type)
      (accord.other.newInstance (type.rename name))
      (accord.Begets one.heap two.heap name outside) (accord.Resumes one.heap name outside) := by
  refine accord.tandem_type? holds known (accord.tandem_typeName holds known fun _ => .refuse (.refl holds)) ?_
  rintro handle rfl _
  refine .act (accord.tandem_retain holds (known handle (Multiset.mem_singleton_self handle))) ?_
  rintro _ later _ last taken
  exact accord.tandem_allocate
    (.object { type := handle, attributes := Attributes.empty, watchers := [] }) taken
    (accord.serves_of_fades holds taken serves) ⟨trivial, rfl, rfl, rfl⟩

/-- The bases of a new class are classes in both heaps. -/
theorem tandem_baseHandles {bases : List Value}
    (holds : accord.holds one.heap name outside two.heap)
    (known : ∀ handle ∈ owned bases, handle ∈ accord.knows one.heap outside) :
    Attempt.Tandem one two (baseHandles bases) (baseHandles (bases.map (Value.rename name)))
      (fun handles later others last => later = one.heap ∧ last = two.heap ∧
        others = handles.map name ∧ bases = handles.map Value.ref ∧
        ∀ handle ∈ handles, one.heap.IsType handle)
      (accord.Resumes one.heap name outside) := by
  induction bases with
  | nil => exact .pure ⟨rfl, rfl, rfl, rfl, by simp⟩
  | cons base others inductionHypothesis =>
    rw [owned_cons] at known
    have inside (handle : Handle) (member : handle ∈ base.owns) :=
      known handle (Multiset.mem_add.mpr (Or.inl member))
    refine accord.tandem_type? holds inside
      (accord.tandem_typeName holds inside fun _ => .refuse (.refl holds)) ?_
    rintro handle rfl isType
    refine (inductionHypothesis fun other member =>
      known other (Multiset.mem_add.mpr (Or.inr member))).bind ?_
    rintro handles _ _ _ ⟨rfl, rfl, rfl, rfl, types⟩
    exact .pure ⟨rfl, rfl, rfl, rfl, List.forall_mem_cons.mpr ⟨isType, types⟩⟩

theorem tandem_newClass (title : String) {bases : List Value}
    (holds : accord.holds one.heap name outside two.heap)
    (sustained : ∀ handle ∈ owned bases, one.heap.Sustained outside handle)
    (serves : Serves accord.engine accord.other one.heap two.heap (owned bases).card) :
    Attempt.Tandem one two (accord.engine.newClass title bases)
      (accord.other.newClass title (bases.map (Value.rename name)))
      (accord.Begets one.heap two.heap name outside) (accord.Resumes one.heap name outside) := by
  refine (accord.tandem_baseHandles holds fun handle member =>
    accord.known holds (sustained handle member)).bind ?_
  rintro handles _ _ _ ⟨rfl, rfl, rfl, rfl, types⟩
  have bases : owned (handles.map Value.ref) = (handles : Multiset Handle) := by
    unfold owned
    rw [List.filterMap_map]
    exact congrArg _ List.filterMap_some
  rw [bases] at sustained serves
  have known (handle : Handle) (member : handle ∈ handles) :=
    accord.known holds (sustained handle member)
  have typesImage (image : Handle) (member : image ∈ handles.map name) : two.heap.IsType image := by
    obtain ⟨handle, inside, rfl⟩ := List.mem_map.mp member
    exact holds.isType (known handle inside) (types handle inside)
  refine .ask (Heap.ancestors_of_isType types)
    ((Heap.ancestors_of_isType typesImage).trans
      (congrArg Except.ok ((accord.reflects holds).inherited known))) ?_
  refine (accord.tandem_retainEach holds sustained).bind ?_
  rintro _ later _ last taken
  let data : Class :=
    { name := title, bases := handles, ancestors := (handles.flatMap one.heap.lineage).eraseDups
      members := Attributes.empty }
  have owns : (Payload.type data : Payload Code).owns = handles := add_zero (handles : Multiset Handle)
  exact accord.tandem_allocate (.type data) (taken.congr (by rw [owns]))
    (by rw [owns]; exact accord.serves_of_fades holds taken serves) ⟨⟨types, rfl⟩, rfl, rfl, rfl⟩

/-! ### Methods -/

/-- The function of a method is one in both heaps, or in neither one. -/
theorem tandem_methodFunction {function : Value}
    (holds : accord.holds one.heap name outside two.heap)
    (known : ∀ handle ∈ function.owns, handle ∈ accord.knows one.heap outside) :
    Attempt.Tandem one two (methodFunction function) (methodFunction (function.rename name))
      (fun handle later other last => later = one.heap ∧ last = two.heap ∧ other = name handle ∧
        function = .ref handle ∧ ∃ data, one.heap.payload? handle = some (.function data))
      (accord.Resumes one.heap name outside) := by
  cases function with
  | ref handle =>
    obtain ⟨payload, there, thereImage⟩ :=
      holds.exists_payload? (known handle (Multiset.mem_singleton_self handle))
    refine .ask (one.heap.read_eq_ok.mpr there) (two.heap.read_eq_ok.mpr thereImage) ?_
    cases payload with
    | function data => exact .pure ⟨rfl, rfl, rfl, rfl, data, there⟩
    | _ => exact .refuse (.refl holds)
  | nil => exact .refuse (.refl holds)
  | bool value => exact .refuse (.refl holds)
  | int value => exact .refuse (.refl holds)

/-- A refused method is reported by the name of its function, which is sustained. -/
theorem tandem_allocateMethod {function : Handle} {receiver owner : Option Value}
    (fades : Fades accord.holds former formerImage name
      (outside + (owned receiver.toList + owned owner.toList)) one.heap two.heap)
    (sustained : one.heap.Sustained outside function)
    (founded : (Payload.method { function, receiver, owner, watchers := [] }).Founded former)
    (serves : Serves accord.engine accord.other one.heap two.heap
      ((owned receiver.toList + owned owner.toList).card + 1)) :
    Attempt.Tandem one two (accord.engine.allocateMethod function receiver owner)
      (accord.other.allocateMethod (name function) (receiver.map (Value.rename name))
        (owner.map (Value.rename name)))
      (accord.Begets former formerImage name outside) (accord.Resumes former name outside) := by
  have owns : (Payload.method { function, receiver, owner, watchers := [] } : Payload Code).owns =
      {function} + (owned receiver.toList + owned owner.toList) := by
    rw [Payload.owns_method, Method.parts, owned_append]
  have more := Multiset.le_add_right outside (owned receiver.toList + owned owner.toList)
  refine .act (accord.tandem_retain fades.holds
    (accord.known fades.holds (sustained.mono (Multiset.subset_of_le more)))) ?_
  rintro _ later _ last taken
  refine (accord.tandem_buys Heap.supplies_takeFreeForMethod
    ((fades.trans taken).congr (by rw [owns]; abel)) ?_ ?_).imp
    (fun _ _ _ _ buys => .intro buys ⟨founded, rfl, rfl, rfl⟩) fun _ _ lost => lost
  · rw [owns, add_comm, Multiset.card_add, Multiset.card_singleton]
    exact accord.serves_of_fades fades.holds taken serves
  · intro _ left leftImage gone
    have still := taken.holds.sustained gone (le_refl outside)
      (fades.holds.sustained taken (more.trans (Multiset.le_add_right _ _)) sustained)
    obtain ⟨data, there⟩ := founded.1
    obtain ⟨payload, found, foundImage⟩ := gone.holds.exists_payload? (accord.known gone.holds still)
    have all := (fades.trans taken).trans gone
    have continues := all.forgets.continues there found
    cases payload with
    | function data =>
      exact .ask (Heap.function_eq_ok found) (Heap.function_eq_ok foundImage)
        (.refuse (.of_fades all))
    | _ => cases continues

theorem tandem_newMethod {function receiver owner : Value}
    (holds : accord.holds one.heap name outside two.heap)
    (sustained : ∀ handle ∈ owned [function, receiver, owner], one.heap.Sustained outside handle)
    (serves : Serves accord.engine accord.other one.heap two.heap
      (owned [function, receiver, owner]).card) :
    Attempt.Tandem one two (accord.engine.newMethod function receiver owner)
      (accord.other.newMethod (function.rename name) (receiver.rename name) (owner.rename name))
      (accord.Begets one.heap two.heap name outside) (accord.Resumes one.heap name outside) := by
  rw [owned_cons, owned_cons, owned_cons, owned_nil, add_zero] at sustained serves
  have known (part : Handle) (member : part ∈ function.owns + (receiver.owns + owner.owns)) :=
    accord.known holds (sustained part member)
  refine (accord.tandem_methodFunction holds fun handle member =>
    known handle (Multiset.mem_add.mpr (Or.inl member))).bind ?_
  rintro handle _ _ _ ⟨rfl, rfl, rfl, rfl, data, there⟩
  rw [Value.isNil_rename, Value.isNil_rename]
  split
  · exact .refuse (.refl holds)
  · rename_i needed
    have parts (part : Handle) (member : part ∈ receiver.owns + owner.owns) :=
      sustained part (Multiset.mem_add.mpr (Or.inr member))
    rw [Attempt.retainValue_eq, Attempt.retainValue_eq, Attempt.retainValue_eq,
      Attempt.retainValue_eq]
    refine .act (accord.tandem_retainValue holds fun part member => accord.known holds
      (parts part (Multiset.mem_add.mpr (Or.inl member)))) ?_
    rintro _ middle _ middleImage taken
    have more := Multiset.le_add_right outside receiver.owns
    refine .act (accord.tandem_retainValue taken.holds fun part member => accord.known taken.holds
      ((holds.sustained taken more (parts part (Multiset.mem_add.mpr (Or.inr member)))).mono
        (Multiset.subset_of_le more))) ?_
    rintro _ later _ last both
    have all := taken.trans both
    rw [Value.present?_rename, Value.present?_rename]
    refine accord.tandem_allocateMethod (all.congr ?_)
      (holds.sustained all (more.trans (Multiset.le_add_right _ _)) (sustained handle
        (Multiset.mem_add.mpr (Or.inl (Multiset.mem_singleton_self handle)))))
      ⟨⟨data, there⟩, Engine.grounded_present? handle needed⟩ ((accord.serves_of_fades holds all serves).mono ?_)
    · rw [Value.owned_present?, Value.owned_present?, add_assoc]
    · rw [Value.owned_present?, Value.owned_present?, Value.owns_ref, add_comm ({handle} : Multiset _),
        Multiset.card_add _ {handle}, Multiset.card_singleton]

/-! ### Changes in place -/

/-- A payload grows in both heaps, and what it has given up in exchange is released. -/
theorem tandem_assign {place : Handle} {payload grown : Payload Code} {content : Value}
    {old : Option Value} {lost : Heap Code → Heap Code → Prop}
    (holds : accord.holds one.heap name (outside + content.owns) two.heap)
    (known : place ∈ accord.knows one.heap (outside + content.owns))
    (held : one.heap.payload? place = some payload) (grows : payload.Grows grown)
    (traded : grown.owns + owned old.toList = payload.owns + content.owns)
    (serves : Serves accord.engine accord.other one.heap two.heap content.owns.card) :
    Attempt.Tandem one two
      (do
        modifyHeap (·.mapPayload place fun _ => grown)
        accord.engine.release? old)
      (do
        modifyHeap (·.mapPayload (name place) fun _ => grown.rename name)
        accord.other.release? (old.map (Value.rename name)))
      (fun _ later _ last => accord.Resumes one.heap name outside later last) lost := by
  have heldImage : two.heap.payload? (name place) = some (payload.rename name) :=
    ((accord.reflects holds).payloads place known).trans (congrArg (Option.map _) held)
  have tradedImage : (grown.rename name).owns + (owned old.toList).map name =
      (payload.rename name).owns + content.owns.map name := by
    rw [Payload.owns_rename, Payload.owns_rename, ← Multiset.map_add, traded, Multiset.map_add]
  have lengths := Heap.length_edges_exchange heldImage tradedImage
  rw [Multiset.card_map, Multiset.card_map] at lengths
  refine .act_of_ok (modifyHeap_apply one (·.mapPayload place fun _ => grown))
    (modifyHeap_apply two (·.mapPayload (name place) fun _ => grown.rename name))
    (.ofAction ((accord.tandem_release? (accord.exchange holds known held grows traded) ?_).imp ?_))
  · exact ⟨(Heap.length_edges_exchange held traded).trans_le serves.enough,
      lengths.trans_le serves.enoughImage⟩
  · rintro _ later _ last gone
    exact ⟨gone.holds, fun handle live => Heap.isLive_grown held handle ▸ gone.forgets.isLive live⟩

/-- An item is appended in both heaps, unless the value is no list in either of them. -/
theorem tandem_append {list item : Value}
    (holds : accord.holds one.heap name (outside + item.owns) two.heap)
    (known : ∀ handle ∈ list.owns, handle ∈ accord.knows one.heap (outside + item.owns))
    (serves : Serves accord.engine accord.other one.heap two.heap item.owns.card) :
    Attempt.Tandem one two (accord.engine.append list item)
      (accord.other.append (list.rename name) (item.rename name))
      (fun _ later _ last => accord.Resumes one.heap name outside later last)
      (accord.Resumes one.heap name outside) := by
  cases list with
  | ref handle =>
    have inside := known handle (Multiset.mem_singleton_self handle)
    obtain ⟨payload, held, heldImage⟩ := holds.exists_payload? inside
    refine .fetchToChange held heldImage ?_
    cases payload with
    | list items =>
      have grown := accord.exchange holds inside held (.list items item)
        (show _ + 0 = _ by rw [Payload.owns_list, Payload.owns_list, owned_append]; simp)
      rw [Payload.rename, List.map_append, add_zero] at grown
      simp only [Payload.rename, pure_bind]
      exact .ofAction ⟨(), _, (), _,
        modifyHeap_apply one (·.mapPayload handle fun _ => .list (items ++ [item])),
        modifyHeap_apply two (·.mapPayload (name handle) fun _ =>
          .list (items.map (Value.rename name) ++ [item.rename name])),
        grown, fun other live => Heap.isLive_grown held other ▸ live⟩
    | _ =>
      simp only [Payload.rename, pure_bind]
      exact accord.tandem_refuseType holds known serves
  | _ =>
    simp only [Engine.append, Value.rename, pure_bind]
    exact accord.tandem_refuseType holds known serves

/-- An attribute is assigned in both heaps, unless the value takes none in either of them. -/
theorem tandem_setAttribute {value content : Value} (key : String)
    (holds : accord.holds one.heap name (outside + content.owns) two.heap)
    (known : ∀ handle ∈ value.owns, handle ∈ accord.knows one.heap (outside + content.owns))
    (serves : Serves accord.engine accord.other one.heap two.heap content.owns.card) :
    Attempt.Tandem one two (accord.engine.setAttribute value key content)
      (accord.other.setAttribute (value.rename name) key (content.rename name))
      (fun _ later _ last => accord.Resumes one.heap name outside later last)
      (accord.Resumes one.heap name outside) := by
  cases value with
  | ref handle =>
    have inside := known handle (Multiset.mem_singleton_self handle)
    have assigned (old : Option Value) {payload grown : Payload Code}
        (held : one.heap.payload? handle = some payload) (grows : payload.Grows grown)
        (traded : grown.owns + owned old.toList = payload.owns + content.owns) :
        Attempt.Tandem one two _ _ _ (accord.Resumes one.heap name outside) :=
      accord.tandem_assign holds inside held grows traded serves
    obtain ⟨payload, held, heldImage⟩ := holds.exists_payload? inside
    refine .fetchToChange held heldImage ?_
    cases payload with
    | object data =>
      have done := assigned (data.attributes.find? key) held (.object data key content)
        (Payload.owns_object_insert key content data)
      simp only [Payload.rename, Attributes.rename_insert, ← Attributes.find?_rename] at done
      exact done
    | type data =>
      have done := assigned (data.members.find? key) held (.type data key content)
        (Payload.owns_type_insert key content data)
      simp only [Payload.rename, Attributes.rename_insert, ← Attributes.find?_rename] at done
      exact done
    | function data =>
      dsimp only [Payload.rename]
      split
      · exact accord.tandem_refuse holds serves
      · have done := assigned (data.attributes.find? key) held (.function data key content)
          (Payload.owns_function_insert key content data)
        simp only [Payload.rename, Attributes.rename_insert, ← Attributes.find?_rename] at done
        exact done
    | method data => exact accord.tandem_refuse holds serves
    | _ => exact accord.tandem_refuseType holds known serves
  | _ => exact accord.tandem_refuseType holds known serves

end

end Accord

end ObjectHeap
