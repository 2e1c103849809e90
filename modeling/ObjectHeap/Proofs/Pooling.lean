/-
This file shows that the method pool is only an optimisation. Two heaps that differ in how many
slots they keep for methods hand out different slots as soon as one of them uses the slot of a
method again, and from then on their layouts differ for ever. Whoever works with both of them cannot
tell: where entries go by names instead of slots, every request has the same reply in both heaps, and
after each of them one heap holds what the other one holds, up to renaming.
-/

import ObjectHeap.Proofs.Slots
import ObjectHeap.Proofs.Unison

namespace ObjectHeap

variable {Code Host : Type}

theorem Value.rename_rename (name other : Handle → Handle) (value : Value) :
    (value.rename name).rename other = value.rename (other ∘ name) := by
  cases value <;> rfl

/-! ### Requests -/

/-- What a host may ask of a heap without any code of its own being run. References are given by
the handles of entries, or by the names that stand for them. -/
inductive Request (Code : Type) where
  | newString (text : String)
  | newList (items : List Value)
  | newTuple (items : List Value)
  | newFunction (title : String) (qualifiedName doc : Option String) (code : Code)
  | newClass (title : String) (bases : List Value)
  | newInstance (type : Value)
  | newMethod (function receiver owner : Value)
  | newWeakref (target : Value)
  | append (list item : Value)
  | setAttribute (value : Value) (key : String) (content : Value)
  /-- One more reference to an entry. -/
  | share (handle : Handle)
  | drop (handle : Handle)
  | collect

namespace Request

/-- The same request of other entries. -/
def rename (name : Handle → Handle) : Request Code → Request Code
  | newString text => newString text
  | newList items => newList (items.map (Value.rename name))
  | newTuple items => newTuple (items.map (Value.rename name))
  | newFunction title qualifiedName doc code => newFunction title qualifiedName doc code
  | newClass title bases => newClass title (bases.map (Value.rename name))
  | newInstance type => newInstance (type.rename name)
  | newMethod function receiver owner =>
    newMethod (function.rename name) (receiver.rename name) (owner.rename name)
  | newWeakref target => newWeakref (target.rename name)
  | append list item => append (list.rename name) (item.rename name)
  | setAttribute value key content => setAttribute (value.rename name) key (content.rename name)
  | share handle => share (name handle)
  | drop handle => drop (name handle)
  | collect => collect

/-- The references that a request hands over. -/
def consumes : Request Code → Multiset Handle
  | newList items | newTuple items => owned items
  | append _ item => item.owns
  | setAttribute _ _ content => content.owns
  | drop handle => {handle}
  | _ => 0

/-- The references that a request is lent, and that have to be held meanwhile. -/
def borrows : Request Code → Multiset Handle
  | newClass _ bases => owned bases
  | newInstance value | newWeakref value => value.owns
  | newMethod function receiver owner => owned [function, receiver, owner]
  | _ => 0

/-- The entries that a request finds, whoever holds them. -/
def finds : Request Code → Multiset Handle
  | append value _ | setAttribute value _ _ => value.owns
  | share handle => {handle}
  | _ => 0

/-- The references that a request brings beside those to new entries. -/
def gains : Request Code → Multiset Handle
  | share handle => {handle}
  | _ => 0

/-- What comes of a request that is not refused. -/
inductive Outcome where
  | entry (value : Value)
  | done
  | collected (count : Nat)

/-- Does what is requested. -/
def perform (engine : Engine Code Host) : Request Code → Attempt Code Host Outcome
  | newString text => return .entry (← engine.newString text)
  | newList items => return .entry (← engine.newList items)
  | newTuple items => return .entry (← engine.newTuple items)
  | newFunction title qualifiedName doc code =>
    return .entry (← engine.newFunction title qualifiedName doc code)
  | newClass title bases => return .entry (← engine.newClass title bases)
  | newInstance type => return .entry (← engine.newInstance type)
  | newMethod function receiver owner => return .entry (← engine.newMethod function receiver owner)
  | newWeakref target => return .entry (← engine.newWeakref target none)
  | append list item => do
    engine.append list item
    return .done
  | setAttribute value key content => do
    engine.setAttribute value key content
    return .done
  | share handle => do
    retain handle
    return .done
  | drop handle => do
    engine.release (.ref handle)
    return .done
  | collect => return .collected (← engine.collect)

/-- The request neither refers weakly to an entry nor asks for a collection. -/
def isOrdinary : Request Code → Bool
  | newWeakref _ | collect => false
  | _ => true

section

variable (name : Handle → Handle) (request : Request Code)

theorem isOrdinary_rename : (request.rename name).isOrdinary = request.isOrdinary := by
  cases request <;> rfl

theorem consumes_rename : (request.rename name).consumes = request.consumes.map name := by
  cases request with
  | newList items | newTuple items => exact owned_map_rename name items
  | append _ value | setAttribute _ _ value => exact value.owns_rename name
  | _ => rfl

theorem borrows_rename : (request.rename name).borrows = request.borrows.map name := by
  cases request with
  | newClass _ bases => exact owned_map_rename name bases
  | newInstance value | newWeakref value => exact value.owns_rename name
  | newMethod function receiver owner => exact owned_map_rename name [function, receiver, owner]
  | _ => rfl

theorem finds_rename : (request.rename name).finds = request.finds.map name := by
  cases request with
  | append value _ | setAttribute value _ _ => exact value.owns_rename name
  | _ => rfl

theorem gains_rename : (request.rename name).gains = request.gains.map name := by
  cases request <;> rfl

theorem gains_subset_finds : request.gains ⊆ request.finds := by
  cases request with
  | share handle => exact Multiset.Subset.refl _
  | _ => exact Multiset.zero_subset _

theorem rename_rename (other : Handle → Handle) :
    (request.rename name).rename other = request.rename (other ∘ name) := by
  have values (items : List Value) : (items.map (Value.rename name)).map (Value.rename other) =
      items.map (Value.rename (other ∘ name)) := by
    rw [List.map_map]
    exact List.map_congr_left fun value _ => value.rename_rename name other
  cases request <;> simp only [rename, values, Value.rename_rename, Function.comp_apply]

variable {name request} in
/-- Only the names of what a request speaks of matter. -/
theorem rename_congr {other : Handle → Handle}
    (same : ∀ handle ∈ request.consumes + request.borrows + request.finds, name handle = other handle) :
    request.rename name = request.rename other := by
  have consumed (handle : Handle) (member : handle ∈ request.consumes) : name handle = other handle :=
    same handle (Multiset.mem_add.mpr (Or.inl (Multiset.mem_add.mpr (Or.inl member))))
  have borrowed (handle : Handle) (member : handle ∈ request.borrows) : name handle = other handle :=
    same handle (Multiset.mem_add.mpr (Or.inl (Multiset.mem_add.mpr (Or.inr member))))
  have found (handle : Handle) (member : handle ∈ request.finds) : name handle = other handle :=
    same handle (Multiset.mem_add.mpr (Or.inr member))
  cases request with
  | newList items => exact congrArg newList (map_rename_congr consumed)
  | newTuple items => exact congrArg newTuple (map_rename_congr consumed)
  | newClass title bases => exact congrArg (newClass title) (map_rename_congr borrowed)
  | newInstance type => exact congrArg newInstance (Value.rename_congr borrowed)
  | newWeakref target => exact congrArg newWeakref (Value.rename_congr borrowed)
  | newMethod function receiver owner =>
    have values := map_rename_congr borrowed
    simp only [List.map_cons, List.map_nil, List.cons.injEq] at values
    simp only [rename, values]
  | append list item =>
    exact congrArg₂ append (Value.rename_congr found) (Value.rename_congr consumed)
  | setAttribute value key content =>
    exact congrArg₂ (setAttribute · key ·) (Value.rename_congr found) (Value.rename_congr consumed)
  | share handle => exact congrArg share (found handle (Multiset.mem_singleton_self handle))
  | drop handle => exact congrArg drop (consumed handle (Multiset.mem_singleton_self handle))
  | _ => rfl

end

end Request

namespace Accord

/-- What an ordinary request has come to in two heaps that are in accord. -/
inductive Answers (accord : Accord Code Host) (one two : Heap Code) (name : Equiv.Perm Handle)
    (outside : Multiset Handle) (request : Request Code) :
    Request.Outcome → Heap Code → Request.Outcome → Heap Code → Prop
  | entry {value other : Value} {later last : Heap Code} (gainless : request.gains = 0)
    (begets : accord.Begets one two name outside value later other last) :
    Answers accord one two name outside request (.entry value) later (.entry other) last
  | done {later last : Heap Code}
    (resumes : accord.Resumes one name (outside + request.gains) later last) :
    Answers accord one two name outside request .done later .done last

/-- What is requested in one heap comes to the same in the other one, where it is requested of the
corresponding entries. -/
theorem tandem_perform (accord : Accord Code Host) {request : Request Code}
    (ordinary : request.isOrdinary) {one two : World Code Host} {name : Equiv.Perm Handle}
    {outside : Multiset Handle}
    (holds : accord.holds one.heap name (outside + request.consumes) two.heap)
    (held : ∀ handle ∈ request.borrows, handle ∈ outside)
    (known : ∀ handle ∈ request.finds,
      handle ∈ accord.knows one.heap (outside + request.consumes))
    (serves : Serves accord.engine accord.other one.heap two.heap
      (request.consumes.card + request.borrows.card)) :
    Attempt.Tandem one two (request.perform accord.engine)
      ((request.rename name).perform accord.other)
      (accord.Answers one.heap two.heap name outside request)
      (accord.Resumes one.heap name outside) := by
  have plain (same : request.consumes = 0) : accord.holds one.heap name outside two.heap :=
    holds.congr (by rw [same, add_zero])
  have lent (handle : Handle) (member : handle ∈ request.borrows) :
      one.heap.Sustained outside handle :=
    .of_mem (held handle member)
  have alone := serves.mono (Nat.zero_le _)
  have handing := serves.mono (Nat.le_add_right request.consumes.card request.borrows.card)
  have lending := serves.mono (Nat.le_add_left request.borrows.card request.consumes.card)
  have entry (gainless : request.gains = 0) (value : Value) (later : Heap Code) (other : Value)
      (last : Heap Code) (begets : accord.Begets one.heap two.heap name outside value later other last) :
      Attempt.Tandem { one with heap := later } { two with heap := last }
        (pure (Request.Outcome.entry value)) (pure (Request.Outcome.entry other))
        (accord.Answers one.heap two.heap name outside request)
        (accord.Resumes one.heap name outside) :=
    .pure (.entry gainless begets)
  have done (gainless : request.gains = 0) (_ : Unit) (later : Heap Code) (_ : Unit)
      (last : Heap Code) (resumes : accord.Resumes one.heap name outside later last) :
      Attempt.Tandem { one with heap := later } { two with heap := last }
        (pure Request.Outcome.done) (pure Request.Outcome.done)
        (accord.Answers one.heap two.heap name outside request)
        (accord.Resumes one.heap name outside) :=
    .pure (.done (by rwa [gainless, add_zero]))
  cases request with
  | newString text => exact (accord.tandem_newString text (plain rfl) alone).bind (entry rfl)
  | newList items => exact (accord.tandem_newList holds handing).bind (entry rfl)
  | newTuple items => exact (accord.tandem_newTuple holds handing).bind (entry rfl)
  | newFunction title qualifiedName doc code =>
    exact (accord.tandem_newFunction title qualifiedName doc code (plain rfl) alone).bind (entry rfl)
  | newClass title bases =>
    exact (accord.tandem_newClass title (plain rfl) lent lending).bind (entry rfl)
  | newInstance type =>
    refine (accord.tandem_newInstance (plain rfl) (fun handle member => ?_) lending).bind (entry rfl)
    exact accord.known (plain rfl) (lent handle member)
  | newMethod function receiver owner =>
    exact (accord.tandem_newMethod (plain rfl) lent lending).bind (entry rfl)
  | newWeakref target => cases ordinary
  | append list item => exact (accord.tandem_append holds known handing).bind (done rfl)
  | setAttribute value key content =>
    exact (accord.tandem_setAttribute key holds known handing).bind (done rfl)
  | share handle =>
    have there := known handle (Multiset.mem_singleton_self handle)
    rw [show outside + (Request.share handle).consumes = outside from add_zero outside] at there
    refine .act (accord.tandem_retain (plain rfl) there) ?_
    exact fun _ _ _ _ taken => .pure (.done (.of_fades taken))
  | drop handle =>
    have whole : accord.holds one.heap name (outside + (Value.ref handle).owns) two.heap := holds
    refine .act (accord.release whole handing) ?_
    exact fun _ later _ last gone => done rfl () later () last (.of_fades gone)
  | collect => cases ordinary

end Accord

namespace Request

/-- What a request has come to in both heaps. -/
inductive Answers (one : Heap Code) (name : Equiv.Perm Handle) (outside : Multiset Handle)
    (request : Request Code) : Outcome → Heap Code → Outcome → Heap Code → Prop
  | entry {value other : Value} {later last : Heap Code}
    (creates : one.Creates name outside value later other last) :
    Answers one name outside request (.entry value) later (.entry other) last
  | done {later last : Heap Code} (settles : one.Settles name (outside + request.gains) later last) :
    Answers one name outside request .done later .done last
  | collected {count : Nat} {later last : Heap Code} (settles : one.Settles name outside later last) :
    Answers one name outside request (.collected count) later (.collected count) last

/-- Whatever is requested of two heaps that mirror each other comes to the same. -/
theorem tandem_perform (request : Request Code) (engine : Engine Code Host)
    {one two : World Code Host} {name : Equiv.Perm Handle} {outside : Multiset Handle}
    (rests : one.heap.Rests name (outside + request.consumes) two.heap)
    (held : ∀ handle ∈ request.borrows, handle ∈ outside)
    (live : ∀ handle ∈ request.finds, one.heap.isLive handle)
    (enough : one.heap.edges.length + request.consumes.card + request.borrows.card ≤ engine.rounds) :
    Attempt.Tandem one two (request.perform engine) ((request.rename name).perform engine)
      (request.Answers one.heap name outside) (one.heap.Settles name outside) := by
  have ordinarily (ordinary : request.isOrdinary) :
      Attempt.Tandem one two (request.perform engine) ((request.rename name).perform engine)
        (request.Answers one.heap name outside) (one.heap.Settles name outside) := by
    refine (engine.mirroring.tandem_perform ordinary rests held live
      (rests.serves (by rwa [← add_assoc]))).imp ?_ fun _ _ lost => lost.settles
    rintro _ later _ last answers
    cases answers with
    | entry _ begets => exact .entry begets.creates
    | done resumes => exact .done resumes.settles
  have plain (same : request.consumes = 0) : one.heap.Rests name outside two.heap :=
    rests.congr (by rw [same, add_zero])
  have alone : one.heap.edges.length ≤ engine.rounds := by omega
  cases request with
  | newWeakref target =>
    exact (engine.tandem_newWeakref (plain rfl) held alone).bind
      fun _ _ _ _ creates => .pure (.entry creates)
  | collect =>
    refine .act (engine.tandem_collect (plain rfl) alone) ?_
    rintro count later _ last ⟨rfl, left, forgets⟩
    exact .pure (.collected (.of_forgets left forgets))
  | _ => exact ordinarily rfl

end Request

/-! ### Benches -/

/-- What a host hears of a request. -/
inductive Reply where
  /-- The host does not have what the request hands over or is lent, or an entry is gone. Nothing
  has happened. -/
  | barred
  | created
  | done
  | collected (count : Nat)
  | refused (error : Error)
deriving DecidableEq, Repr

/-- A heap whose entries go by labels: the first entry that is created has the label 0, the next one
the label 1, and so on, whatever slots they are placed in. -/
structure Bench (Code Host : Type) where
  world : World Code Host
  /-- The slots in which the entries were placed, by their labels. -/
  given : List Handle
  /-- The labels of the references in the hands of the host. -/
  hand : Multiset Nat

namespace Bench

/-- A bench on which nothing was created yet. -/
def new (heap : Heap Code) (host : Host) : Bench Code Host :=
  { world := { heap, host }, given := [], hand := 0 }

/-- The slot of the entry with a label. The entry is gone when its slot is empty, or was given to
another entry later. -/
def find? (bench : Bench Code Host) (label : Nat) : Option Handle :=
  bench.given[label]?.filter fun handle =>
    !(bench.given.drop (label + 1)).contains handle && bench.world.heap.isLive handle

/-- The slot of an entry that is there. -/
def entry (bench : Bench Code Host) (label : Nat) : Handle :=
  (bench.find? label).getD 0

/-- The host has what a request hands over and is lent, and what the request finds is there. -/
def Allows (bench : Bench Code Host) (request : Request Code) : Prop :=
  request.consumes ≤ bench.hand ∧ (∀ label ∈ request.borrows, label ∈ bench.hand - request.consumes) ∧
    ∀ label ∈ request.finds, (bench.find? label).isSome

instance (bench : Bench Code Host) (request : Request Code) : Decidable (bench.Allows request) :=
  inferInstanceAs (Decidable (_ ∧ _ ∧ _))

/-- An engine with as many rounds as a request can need. -/
def equip (bench : Bench Code Host) (engine : Engine Code Host) (request : Request Code) :
    Engine Code Host :=
  { engine with
    rounds := bench.world.heap.edges.length + request.consumes.card + request.borrows.card }

/-- What the host hears of a request that came to an outcome, and what is on the bench then. -/
def settle (bench : Bench Code Host) (request : Request Code) (world : World Code Host) :
    Except Error Request.Outcome → Reply × Bench Code Host
  | .ok (.entry value) =>
    (.created, { world
                 given := bench.given ++ value.handle?.toList
                 hand := bench.hand - request.consumes + {bench.given.length} })
  | .ok .done =>
    (.done, { bench with world, hand := bench.hand - request.consumes + request.gains })
  | .ok (.collected count) =>
    (.collected count, { bench with world, hand := bench.hand - request.consumes })
  | .error error => (.refused error, { bench with world, hand := bench.hand - request.consumes })

/-- Makes a request by labels, unless it is not allowed. -/
def step (engine : Engine Code Host) (request : Request Code) (bench : Bench Code Host) :
    Except Fault (Reply × Bench Code Host) :=
  if bench.Allows request then do
    let (outcome, world) ← ((request.rename bench.entry).perform (bench.equip engine request)).run
      bench.world
    return bench.settle request world outcome
  else
    return (.barred, bench)

/-- Makes requests in order. -/
def play (engine : Engine Code Host) :
    List (Request Code) → Bench Code Host → Except Fault (List Reply × Bench Code Host)
  | [], bench => return ([], bench)
  | request :: rest, bench => do
    let (reply, bench) ← bench.step engine request
    let (replies, bench) ← play engine rest bench
    return (reply :: replies, bench)

variable {bench one two : Bench Code Host} {name : Equiv.Perm Handle} {label : Nat}
  {handle place image : Handle} {request : Request Code}

/-- The entry with a label was the last one to be placed in a slot. -/
def Latest (given : List Handle) (label : Nat) (handle : Handle) : Prop :=
  given[label]? = some handle ∧ handle ∉ given.drop (label + 1)

theorem find?_eq_some : bench.find? label = some handle ↔
    Latest bench.given label handle ∧ bench.world.heap.isLive handle := by
  unfold find? Latest
  simp [Option.filter_eq_some_iff, and_assoc]

theorem latest_concat {given : List Handle} : Latest (given ++ [place]) label handle ↔
    Latest given label handle ∧ handle ≠ place ∨ label = given.length ∧ handle = place := by
  unfold Latest
  rcases Nat.lt_trichotomy label given.length with less | rfl | more
  · rw [List.getElem?_append_left less, List.drop_append_of_le_length less]
    simp [less.ne, and_assoc]
  · simp [eq_comm]
  · have beyond : (given ++ [place]).length ≤ label := by simpa using more
    simp [List.getElem?_eq_none beyond, List.getElem?_eq_none more.le, more.ne']

theorem entry_of_find? (found : bench.find? label = some handle) : bench.entry label = handle := by
  unfold entry
  rw [found]
  rfl

/-- One bench has what another one has, in renamed slots. -/
structure Tracks (one : Bench Code Host) (name : Equiv.Perm Handle) (two : Bench Code Host) :
    Prop where
  rests : one.world.heap.Rests name (one.hand.map one.entry) two.world.heap
  hand : two.hand = one.hand
  length : two.given.length = one.given.length
  found : ∀ label handle, two.find? label = some (name handle) ↔ one.find? label = some handle
  held : ∀ label ∈ one.hand, (one.find? label).isSome

namespace Tracks

variable (tracks : one.Tracks name two)

include tracks

theorem find? (label : Nat) : two.find? label = (one.find? label).map name := by
  refine Option.ext fun image => ?_
  obtain ⟨handle, rfl⟩ := name.surjective image
  rw [tracks.found, Option.map_eq_some_iff]
  constructor
  · exact fun found => ⟨handle, found, rfl⟩
  · rintro ⟨other, found, same⟩
    rwa [← name.injective same]

theorem entry (there : (one.find? label).isSome) : two.entry label = name (one.entry label) := by
  obtain ⟨handle, found⟩ := Option.isSome_iff_exists.mp there
  rw [entry_of_find? found, entry_of_find? ((tracks.found label handle).mpr found)]

theorem allows : two.Allows request ↔ one.Allows request := by
  unfold Allows
  rw [tracks.hand]
  refine and_congr_right fun _ => and_congr_right fun _ => forall₂_congr fun label _ => ?_
  rw [tracks.find?, Option.isSome_map]

/-- What is requested of entries by their labels is requested of the corresponding entries. -/
theorem rename_entry (allowed : one.Allows request) :
    request.rename two.entry = (request.rename one.entry).rename name := by
  obtain ⟨handed, lent, found⟩ := allowed
  rw [Request.rename_rename]
  refine Request.rename_congr fun label member => tracks.entry ?_
  rcases Multiset.mem_add.mp member with member | member
  · rcases Multiset.mem_add.mp member with member | member
    · exact tracks.held label (Multiset.mem_of_le handed member)
    · exact tracks.held label (Multiset.mem_of_le (Multiset.sub_le_self _ _) (lent label member))
  · exact found label member

/-- When no entry was created, what is still there is what has been there. -/
theorem settles {rest : Multiset Nat} {later last : Heap Code}
    (settles : one.world.heap.Settles name (rest.map one.entry) later last)
    (there : ∀ label ∈ rest, (one.find? label).isSome) :
    Tracks { one with world := { one.world with heap := later }, hand := rest } name
      { two with world := { two.world with heap := last }, hand := rest } := by
  let after : Bench Code Host := { one with world := { one.world with heap := later }, hand := rest }
  have kept (label : Nat) (member : label ∈ rest) : after.find? label = some (one.entry label) := by
    obtain ⟨handle, found⟩ := Option.isSome_iff_exists.mp (there label member)
    rw [entry_of_find? found]
    refine find?_eq_some.mpr ⟨(find?_eq_some.mp found).1, settles.rests.isLive_of_mem ?_⟩
    exact Multiset.mem_map.mpr ⟨label, member, entry_of_find? found⟩
  refine ⟨settles.rests.congr (Multiset.map_congr rfl fun label member =>
    (entry_of_find? (kept label member)).symm), rfl, tracks.length, fun label handle => ?_,
    fun label member => Option.isSome_iff_exists.mpr ⟨_, kept label member⟩⟩
  have before := tracks.found label handle
  rw [find?_eq_some, find?_eq_some, tracks.rests.isLive] at before
  rw [find?_eq_some, find?_eq_some, settles.rests.isLive]
  refine and_congr_left fun live => ?_
  rwa [and_iff_left (settles.older handle live), and_iff_left (settles.older handle live)] at before

/-- An entry that was created in both heaps has the same label on both benches. -/
theorem bears {rest : Multiset Nat} {later last : Heap Code}
    (bears : one.world.heap.Bears name (rest.map one.entry) place image later last)
    (there : ∀ label ∈ rest, (one.find? label).isSome) :
    Tracks
      { world := { one.world with heap := later }
        given := one.given ++ [place]
        hand := rest + {one.given.length} }
      (reassign name place image)
      { world := { two.world with heap := last }
        given := two.given ++ [image]
        hand := rest + {two.given.length} } := by
  let after : Bench Code Host :=
    { world := { one.world with heap := later }
      given := one.given ++ [place]
      hand := rest + {one.given.length} }
  have kept (label : Nat) (member : label ∈ rest) : after.find? label = some (one.entry label) := by
    obtain ⟨handle, found⟩ := Option.isSome_iff_exists.mp (there label member)
    have owned : handle ∈ rest.map one.entry :=
      Multiset.mem_map.mpr ⟨label, member, entry_of_find? found⟩
    rw [entry_of_find? found]
    refine find?_eq_some.mpr ⟨latest_concat.mpr (Or.inl ⟨(find?_eq_some.mp found).1, ?_⟩),
      bears.rests.isLive_of_mem (Multiset.mem_add.mpr (Or.inl owned))⟩
    rintro rfl
    exact bears.fresh owned
  have born : after.find? one.given.length = some place :=
    find?_eq_some.mpr ⟨latest_concat.mpr (Or.inr ⟨rfl, rfl⟩),
      bears.rests.isLive_of_mem (Multiset.mem_add.mpr (Or.inr (Multiset.mem_singleton_self place)))⟩
  refine ⟨bears.rests.congr ?_, ?_, ?_, fun label handle => ?_, fun label member => ?_⟩
  · rw [Multiset.map_add, Multiset.map_singleton, entry_of_find? born]
    exact congrArg (· + _) (Multiset.map_congr rfl fun label member =>
      (entry_of_find? (kept label member)).symm)
  · rw [tracks.length]
  · rw [List.length_append, List.length_append, tracks.length]
    rfl
  · rw [find?_eq_some, find?_eq_some, bears.rests.isLive]
    refine and_congr_left fun live => ?_
    rw [latest_concat, latest_concat, tracks.length]
    -- A handle that has been used before now stands for the new entry only.
    by_cases same : handle = place
    · simp [same, reassign_apply_self]
    · obtain ⟨older, kept⟩ := bears.older handle live same
      have before := tracks.found label handle
      rw [find?_eq_some, find?_eq_some, tracks.rests.isLive, and_iff_left older,
        and_iff_left older] at before
      have elsewhere : reassign name place image handle ≠ image := reassign_ne name same
      rw [kept] at elsewhere ⊢
      simp [same, elsewhere, before]
  · rcases Multiset.mem_add.mp member with old | new
    · exact Option.isSome_iff_exists.mpr ⟨_, kept label old⟩
    · exact Option.isSome_iff_exists.mpr ⟨place, Multiset.mem_singleton.mp new ▸ born⟩

/-- A request that is allowed comes to its end in both heaps, and to the same. -/
theorem perform (engine : Engine Code Host) (allowed : one.Allows request) :
    Attempt.Tandem one.world two.world
      ((request.rename one.entry).perform (one.equip engine request))
      ((request.rename two.entry).perform (two.equip engine request))
      ((request.rename one.entry).Answers one.world.heap name
        ((one.hand - request.consumes).map one.entry))
      (one.world.heap.Settles name ((one.hand - request.consumes).map one.entry)) := by
  have equipped : two.equip engine request = one.equip engine request := by
    unfold equip
    rw [tracks.rests.length_edges]
  rw [tracks.rename_entry allowed, equipped]
  obtain ⟨handed, lent, found⟩ := allowed
  refine Request.tandem_perform _ _ (tracks.rests.congr ?_) (fun handle member => ?_)
    (fun handle member => ?_) ?_
  · rw [Request.consumes_rename, ← Multiset.map_add, Multiset.sub_add_cancel handed]
  · rw [Request.borrows_rename] at member
    obtain ⟨label, inside, rfl⟩ := Multiset.mem_map.mp member
    exact Multiset.mem_map_of_mem one.entry (lent label inside)
  · rw [Request.finds_rename] at member
    obtain ⟨label, inside, rfl⟩ := Multiset.mem_map.mp member
    obtain ⟨handle, there⟩ := Option.isSome_iff_exists.mp (found label inside)
    rw [entry_of_find? there]
    exact (find?_eq_some.mp there).2
  · rw [Request.consumes_rename, Request.borrows_rename, Multiset.card_map, Multiset.card_map]
    exact le_refl _

/-- A request has the same reply on both benches. -/
theorem step (engine : Engine Code Host) (request : Request Code) :
    ∃ reply later last further, one.step engine request = .ok (reply, later) ∧
      two.step engine request = .ok (reply, last) ∧ later.Tracks further last := by
  by_cases allowed : one.Allows request
  · obtain ⟨outcome, later, other, last, ended, endedImage, ends⟩ := tracks.perform engine allowed
    have there (label : Nat) (member : label ∈ one.hand - request.consumes) :
        (one.find? label).isSome :=
      tracks.held label (Multiset.mem_of_le (Multiset.sub_le_self _ _) member)
    have first : one.step engine request =
        .ok (one.settle request { one.world with heap := later } outcome) :=
      (if_pos allowed).trans (Heap.bind_eq_ok.mpr ⟨_, ended, rfl⟩)
    have second : two.step engine request =
        .ok (two.settle request { two.world with heap := last } other) :=
      (if_pos (tracks.allows.mpr allowed)).trans (Heap.bind_eq_ok.mpr ⟨_, endedImage, rfl⟩)
    rw [first, second]
    unfold settle
    rw [tracks.hand]
    cases ends with
    | error settles => exact ⟨_, _, _, name, rfl, rfl, tracks.settles settles there⟩
    | ok answers =>
      cases answers with
      | entry creates =>
        cases creates with
        | intro bears => exact ⟨_, _, _, _, rfl, rfl, tracks.bears bears there⟩
      | collected settles => exact ⟨_, _, _, name, rfl, rfl, tracks.settles settles there⟩
      | done settles =>
        refine ⟨_, _, _, name, rfl, rfl, tracks.settles (settles.congr ?_) fun label member => ?_⟩
        · rw [Request.gains_rename, ← Multiset.map_add]
        · rcases Multiset.mem_add.mp member with kept | gained
          · exact there label kept
          · exact allowed.2.2 label (request.gains_subset_finds gained)
  · exact ⟨.barred, one, two, name, if_neg allowed, if_neg (tracks.allows.not.mpr allowed), tracks⟩

theorem play (engine : Engine Code Host) (script : List (Request Code)) :
    ∃ replies later last further, one.play engine script = .ok (replies, later) ∧
      two.play engine script = .ok (replies, last) ∧ later.Tracks further last := by
  induction script generalizing one name two with
  | nil => exact ⟨[], one, two, name, rfl, rfl, tracks⟩
  | cons request rest inductionHypothesis =>
    obtain ⟨reply, middle, middleImage, between, first, second, still⟩ := tracks.step engine request
    obtain ⟨replies, later, last, further, done, doneImage, reached⟩ := inductionHypothesis still
    exact ⟨reply :: replies, later, last, further,
      Heap.bind_eq_ok.mpr ⟨_, first, Heap.bind_eq_ok.mpr ⟨_, done, rfl⟩⟩,
      Heap.bind_eq_ok.mpr ⟨_, second, Heap.bind_eq_ok.mpr ⟨_, doneImage, rfl⟩⟩, reached⟩

end Tracks

/-- Two heaps without any entry hold the same, whatever they keep for methods. -/
theorem tracks_new (config : Config) (capacity : UInt64) (host : Host) :
    (new (Heap.new config) host : Bench Code Host).Tracks (Equiv.refl Handle)
      (new (Heap.new { config with methodPoolCapacity := capacity }) host) where
  rests := {
    payloads := fun _ => rfl
    pending := rfl
    releasing := rfl
    meters := rfl
    sound := Heap.sound_new config
    image := Heap.sound_new _
    silent := fun _ => rfl
    idle := rfl
    settled := rfl }
  hand := rfl
  length := rfl
  found label handle := by
    unfold find?
    exact Iff.rfl
  held label member := absurd member (Multiset.notMem_zero label)

/-- The method pool is only an optimisation. Whatever is requested of two heaps that differ only in
how many slots they keep for methods, in whatever order: the replies are the same, and so are the
numbers of the entries, of those of each kind, and of the allocations, and the memory. The entries
of the one heap are those of the other one in renamed slots, with the same counts, and each label
stands for the corresponding entries. Since this holds for any requests, it holds after each of
them. -/
theorem pool_is_transparent (engine : Engine Code Host) (config : Config) (capacity : UInt64)
    (host : Host) (script : List (Request Code)) :
    ∃ replies one two,
      (new (Heap.new config) host).play engine script = .ok (replies, one) ∧
      (new (Heap.new { config with methodPoolCapacity := capacity }) host).play engine script =
        .ok (replies, two) ∧
      two.world.heap.stats.liveObjects = one.world.heap.stats.liveObjects ∧
      two.world.heap.stats.byKind = one.world.heap.stats.byKind ∧
      two.world.heap.stats.allocations = one.world.heap.stats.allocations ∧
      two.world.heap.stats.memory = one.world.heap.stats.memory ∧
      two.hand = one.hand ∧
      ∃ name : Equiv.Perm Handle,
        (∀ handle, two.world.heap.occupant? (name handle) =
          (one.world.heap.occupant? handle).map (Entry.rename name)) ∧
        ∀ label, two.find? label = (one.find? label).map name := by
  obtain ⟨replies, one, two, name, first, second, tracks⟩ :=
    (tracks_new config capacity host).play engine script
  have kinds := tracks.rests.kinds_perm
  have tracker : two.world.heap.tracker = one.world.heap.tracker :=
    congrArg Heap.Meters.tracker tracks.rests.meters
  refine ⟨replies, one, two, first, second, kinds.length_eq, ?_, congrArg Tracker.allocations tracker,
    congrArg Tracker.memory tracker, tracks.hand, name, tracks.rests.occupants, tracks.find?⟩
  unfold Heap.stats
  dsimp only
  exact congrArg (List.filter _) (List.map_congr_left fun kind _ => by rw [kinds.count_eq])

/-- A method is dropped, and then a string and another method are created. Only a heap that keeps the
slot of the method has it left for the second method. -/
example :
    let script : List (Request Unit) :=
      [.newFunction "f" none none (), .newMethod (.ref 0) (.int 1) .nil, .drop 1, .newString "s",
        .newMethod (.ref 0) (.int 1) .nil]
    let slots (capacity : UInt64) : Except Fault (List Handle) :=
      ((new (Heap.new { Config.standard with methodPoolCapacity := capacity }) ()).play
        Engine.exhausted script).map fun pair => pair.2.given
    slots 1 = .ok [0, 1, 2, 1] ∧ slots 0 = .ok [0, 1, 1, 2] := by
  decide +kernel

end Bench

end ObjectHeap
