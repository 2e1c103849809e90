/-
This file shows that collections which start by themselves are transparent. Two heaps are configured
alike except for when cycles are collected, so that one of them may be in the middle of a collection
where the other one just allocates, and from then on they differ in slots, in counts and in what is
left in them. A host that works with both of them, and only with what it has in its hands, cannot tell:
each chore comes to the same in both heaps, and what the host can reach corresponds one to one.
-/

import ObjectHeap.Proofs.Pooling
import ObjectHeap.Proofs.Readings

namespace ObjectHeap

variable {Code Host : Type}

/-! ### Chores -/

/-- What a host does with a heap where nothing is referred to weakly. -/
inductive Chore (Code : Type) where
  | request (request : Request Code) (ordinary : request.isOrdinary)
  | getAttribute (value : Value) (key : String)
  | bind (value object type : Value)
  /-- References to all items of a list or a tuple. -/
  | items (value : Value)

namespace Chore

/-- The same chore with other entries. -/
def rename (name : Handle → Handle) : Chore Code → Chore Code
  | request asked ordinary =>
    request (asked.rename name) ((asked.isOrdinary_rename name).trans ordinary)
  | getAttribute value key => getAttribute (value.rename name) key
  | bind value object type => bind (value.rename name) (object.rename name) (type.rename name)
  | items value => items (value.rename name)

/-- The references that a chore hands over. -/
def consumes : Chore Code → Multiset Handle
  | request asked _ => asked.consumes
  | _ => 0

/-- The references that have to be held meanwhile. -/
def borrows : Chore Code → Multiset Handle
  | request asked _ => asked.borrows + asked.finds
  | getAttribute value _ | items value => value.owns
  | bind value object type => owned [value, object, type]

/-- The references that a chore brings beside those to what it gives. -/
def gains : Chore Code → Multiset Handle
  | request asked _ => asked.gains
  | _ => 0

/-- The new entry that a request has come to, if any. -/
def created : Request.Outcome → Option (List Value)
  | .entry value => some [value]
  | _ => none

/-- Does a chore. The answer is what the host is given, each value with a reference of its own. -/
def perform (engine : Engine Code Host) : Chore Code → Attempt Code Host (Option (List Value))
  | request asked _ => return created (← asked.perform engine)
  | getAttribute value key => return some [← engine.getAttribute value key]
  | bind value object type => return some [← engine.bind value object type]
  | items value => retainItems value

section

variable (name : Handle → Handle) (chore : Chore Code)

theorem consumes_rename : (chore.rename name).consumes = chore.consumes.map name := by
  cases chore with
  | request asked ordinary => exact asked.consumes_rename name
  | _ => rfl

theorem borrows_rename : (chore.rename name).borrows = chore.borrows.map name := by
  cases chore with
  | request asked ordinary =>
    show (asked.rename name).borrows + (asked.rename name).finds = _
    rw [asked.borrows_rename, asked.finds_rename, ← Multiset.map_add]
    rfl
  | getAttribute value key => exact value.owns_rename name
  | items value => exact value.owns_rename name
  | bind value object type => exact owned_map_rename name [value, object, type]

theorem gains_rename : (chore.rename name).gains = chore.gains.map name := by
  cases chore with
  | request asked ordinary => exact asked.gains_rename name
  | _ => rfl

theorem gains_subset_borrows : chore.gains ⊆ chore.borrows := by
  cases chore with
  | request asked ordinary =>
    exact fun label member => Multiset.mem_add.mpr (Or.inr (asked.gains_subset_finds member))
  | _ => exact Multiset.zero_subset _

theorem rename_rename (other : Handle → Handle) :
    (chore.rename name).rename other = chore.rename (other ∘ name) := by
  cases chore <;> simp only [rename, Request.rename_rename, Value.rename_rename]

variable {name chore} in
/-- Only the names of what a chore speaks of matter. -/
theorem rename_congr {other : Handle → Handle}
    (same : ∀ handle ∈ chore.consumes + chore.borrows, name handle = other handle) :
    chore.rename name = chore.rename other := by
  have lent (handle : Handle) (member : handle ∈ chore.borrows) : name handle = other handle :=
    same handle (Multiset.mem_add.mpr (Or.inr member))
  cases chore with
  | request asked ordinary =>
    have renamed : asked.rename name = asked.rename other :=
      Request.rename_congr fun handle member => same handle (by rwa [add_assoc] at member)
    simp only [rename, renamed]
  | getAttribute value key => exact congrArg (getAttribute · key) (Value.rename_congr lent)
  | items value => exact congrArg items (Value.rename_congr lent)
  | bind value object type =>
    have values := map_rename_congr lent
    simp only [List.map_cons, List.map_nil, List.cons.injEq] at values
    simp only [rename, values]

end

end Chore

/-- A host was given values by both heaps, each with a reference of its own. What was owned before has
kept its name. -/
inductive Heap.Grants (name : Equiv.Perm Handle) (outside : Multiset Handle) :
    Option (List Value) → Heap Code → Option (List Value) → Heap Code → Prop
  | intro {answer : Option (List Value)} {later last : Heap Code} (further : Equiv.Perm Handle)
    (kept : ∀ handle ∈ outside, further handle = name handle)
    (echoes : later.Echoes further (outside + owned (answer.getD [])) last) :
    Grants name outside answer later (answer.map (List.map (Value.rename further))) last

/-- What is delivered is given. -/
theorem Heap.Delivers.grants {name : Equiv.Perm Handle} {outside : Multiset Handle}
    {value other : Value} {later last : Heap Code}
    (delivers : Heap.Delivers name outside value later other last) :
    Heap.Grants name outside (some [value]) later (some [other]) last := by
  obtain ⟨further, kept, echoes⟩ := delivers
  have given : later.Echoes further (outside + owned [value]) last :=
    echoes.congr (by rw [owned_cons, owned_nil, add_zero])
  exact .intro further kept given

/-- What a request has come to in both heaps. -/
def Request.Comes (name : Equiv.Perm Handle) (outside : Multiset Handle) (request : Request Code)
    (outcome : Outcome) (later : Heap Code) (other : Outcome) (last : Heap Code) : Prop :=
  Heap.Grants name (outside + request.gains) (Chore.created outcome) later (Chore.created other) last

section

variable {one two : World Code Host} {name : Equiv.Perm Handle} {outside : Multiset Handle}

/-- An ordinary request comes to the same in both heaps. -/
theorem Request.lockstep_perform (request : Request Code) (ordinary : request.isOrdinary)
    (engine other : Engine Code Host)
    (echoes : one.heap.Echoes name (outside + request.consumes) two.heap)
    (held : ∀ handle ∈ request.borrows + request.finds, handle ∈ outside)
    (serves : Serves engine other one.heap two.heap (request.consumes.card + request.borrows.card)) :
    Attempt.Tandem one two (request.perform engine) ((request.rename name).perform other)
      (request.Comes name outside) fun later last => later.Echoes name outside last := by
  refine ((engine.echoing other).tandem_perform ordinary echoes
    (fun handle member => held handle (Multiset.mem_add.mpr (Or.inl member)))
    (fun handle member => ?_) serves).imp ?_ fun _ _ lost => lost.holds
  · have inside := held handle (Multiset.mem_add.mpr (Or.inr member))
    exact Heap.Sustained.of_mem (Multiset.mem_add.mpr (Or.inl inside))
  · rintro _ later _ last answers
    unfold Comes
    cases answers with
    | entry gainless begets =>
      rw [gainless, add_zero]
      exact begets.delivers.grants
    | done resumes =>
      have echoes : later.Echoes name _ last := resumes.holds
      exact .intro name (fun _ _ => rfl) (echoes.congr (add_zero _).symm)

/-- A chore comes to the same in both heaps. -/
theorem Chore.lockstep_perform (chore : Chore Code) (engine other : Engine Code Host)
    (echoes : one.heap.Echoes name (outside + chore.consumes) two.heap)
    (held : ∀ handle ∈ chore.borrows, handle ∈ outside)
    (serves : Serves engine other one.heap two.heap
      (chore.consumes.card + chore.borrows.card + 3)) :
    Attempt.Tandem one two (chore.perform engine) ((chore.rename name).perform other)
      (Heap.Grants name (outside + chore.gains)) fun later last => later.Echoes name outside last := by
  have plain (same : chore.consumes = 0) : one.heap.Echoes name outside two.heap :=
    echoes.congr (by rw [same, add_zero])
  have lent (handle : Handle) (member : handle ∈ chore.borrows) : one.heap.Sustained outside handle :=
    .of_mem (held handle member)
  have deliver (none : chore.gains = 0) (value : Value) (later : Heap Code) (image : Value)
      (last : Heap Code) (delivers : Heap.Delivers name outside value later image last) :
      Attempt.Tandem { one with heap := later } { two with heap := last }
        (pure (some [value])) (pure (some [image]))
        (Heap.Grants name (outside + chore.gains)) fun later last => later.Echoes name outside last :=
    .pure (by rw [none, add_zero]; exact delivers.grants)
  cases chore with
  | request asked ordinary =>
    refine (asked.lockstep_perform ordinary engine other echoes held (serves.mono ?_)).bind
      fun _ _ _ _ grants => .pure grants
    show _ ≤ asked.consumes.card + (asked.borrows + asked.finds).card + 3
    rw [Multiset.card_add]
    omega
  | getAttribute value key =>
    exact (engine.lockstep_getAttribute other key (plain rfl) lent (serves.mono (by omega))).bind
      (deliver rfl)
  | bind value object type =>
    simp only [borrows, owned_cons, Multiset.mem_add] at lent
    exact (engine.lockstep_bind other (plain rfl) (fun handle member => lent handle (Or.inl member))
      (fun handle member => lent handle (Or.inr (Or.inl member)))
      (fun handle member => lent handle (Or.inr (Or.inr (Or.inl member))))
      (serves.mono (by omega))).bind (deliver rfl)
  | items value =>
    refine .ofAction ((lockstep_retainItems (plain rfl) lent).imp ?_)
    rintro items later _ last ⟨rfl, taken⟩
    exact .intro name (fun _ _ => rfl) (taken.holds.congr (congrArg (· + _) (add_zero outside).symm))

end

/-! ### Desks -/

/-- What a host hears of a chore. -/
inductive Notice where
  /-- The host does not have what the chore hands over or is lent. Nothing has happened. -/
  | barred
  /-- The chore is done. What the host is given goes by labels. -/
  | given (values : Option (List Value))
  | refused (error : Error)
deriving DecidableEq, Repr

/-- A heap with a host who only works with what it was given. Everything that is given has a label:
the first reference has the label 0, the next one the label 1, and so on, whatever they lead to. -/
structure Desk (Code Host : Type) where
  world : World Code Host
  /-- What the references lead to, by their labels. -/
  given : List Handle
  /-- The labels of the references in the hands of the host. -/
  hand : Multiset Nat

namespace Desk

/-- A desk where nothing was given yet. -/
def new (heap : Heap Code) (host : Host) : Desk Code Host :=
  { world := { heap, host }, given := [], hand := 0 }

/-- The entry that a label in the hand leads to. -/
def entry (desk : Desk Code Host) (label : Nat) : Handle :=
  desk.given[label]?.getD 0

/-- The entries that the host can reach from what it has in its hands. -/
def reach (desk : Desk Code Host) : Set Handle :=
  {handle | desk.world.heap.Sustained (desk.hand.map desk.entry) handle}

/-- The host has what a chore hands over, and keeps what the chore is lent. -/
def Allows (desk : Desk Code Host) (chore : Chore Code) : Prop :=
  chore.consumes ≤ desk.hand ∧ ∀ label ∈ chore.borrows, label ∈ desk.hand - chore.consumes

instance (desk : Desk Code Host) (chore : Chore Code) : Decidable (desk.Allows chore) :=
  inferInstanceAs (Decidable (_ ∧ _))

/-- An engine with as many rounds as a chore can need. -/
def equip (desk : Desk Code Host) (engine : Engine Code Host) (chore : Chore Code) :
    Engine Code Host :=
  { engine with
    rounds := desk.world.heap.edges.length + (chore.consumes.card + chore.borrows.card + 3) }

/-- Values whose references go by labels, from the next label on. -/
def labelled (next : Nat) : List Value → List Value
  | [] => []
  | .ref _ :: rest => .ref next :: labelled (next + 1) rest
  | value :: rest => value :: labelled next rest

/-- What the host hears of a chore that came to an outcome, and what is on the desk then. -/
def settle (desk : Desk Code Host) (chore : Chore Code) (world : World Code Host) :
    Except Error (Option (List Value)) → Notice × Desk Code Host
  | .ok answer =>
    (.given (answer.map (labelled desk.given.length)), {
      world
      given := desk.given ++ (answer.getD []).filterMap Value.handle?
      hand := desk.hand - chore.consumes + chore.gains +
        owned (labelled desk.given.length (answer.getD [])) })
  | .error error => (.refused error, { desk with world, hand := desk.hand - chore.consumes })

/-- Does a chore by labels, unless it is not allowed. -/
def step (engine : Engine Code Host) (chore : Chore Code) (desk : Desk Code Host) :
    Except Fault (Notice × Desk Code Host) :=
  if desk.Allows chore then do
    let (outcome, world) ← ((chore.rename desk.entry).perform (desk.equip engine chore)).run
      desk.world
    return desk.settle chore world outcome
  else
    return (.barred, desk)

/-- Does chores in order. -/
def play (engine : Engine Code Host) :
    List (Chore Code) → Desk Code Host → Except Fault (List Notice × Desk Code Host)
  | [], desk => return ([], desk)
  | chore :: rest, desk => do
    let (notice, desk) ← desk.step engine chore
    let (notices, desk) ← play engine rest desk
    return (notice :: notices, desk)

section

variable (next : Nat) (values : List Value)

theorem labelled_rename (name : Handle → Handle) :
    labelled next (values.map (Value.rename name)) = labelled next values := by
  induction values generalizing next with
  | nil => rfl
  | cons value rest inductionHypothesis =>
    cases value with
    | ref handle => exact congrArg (Value.ref next :: ·) (inductionHypothesis (next + 1))
    | _ => exact congrArg (_ :: ·) (inductionHypothesis next)

/-- What is given looks the same to the host. -/
theorem map_labelled_of_grants {name : Equiv.Perm Handle} {outside : Multiset Handle}
    {answer other : Option (List Value)} {later last : Heap Code}
    (grants : Heap.Grants name outside answer later other last) :
    other.map (labelled next) = answer.map (labelled next) := by
  obtain ⟨further, _, _⟩ := grants
  rw [Option.map_map]
  exact congrArg (Option.map · answer) (funext fun values => labelled_rename next values further)

/-- New labels are given one after the other. -/
theorem owned_labelled :
    owned (labelled next values) = List.range' next (values.filterMap Value.handle?).length := by
  induction values generalizing next with
  | nil => rfl
  | cons value rest inductionHypothesis =>
    cases value with
    | ref handle =>
      show owned (.ref next :: labelled (next + 1) rest) = _
      rw [owned_cons, inductionHypothesis]
      rfl
    | nil | bool _ | int _ =>
      show owned (_ :: labelled next rest) = _
      rw [owned_cons, inductionHypothesis]
      exact zero_add _

end

/-- The new labels lead to what they were given for. -/
theorem getElem?_label {older new : List Handle} {place : Nat} (inside : place < new.length) :
    (older ++ new)[older.length + place]?.getD 0 = new[place] := by
  rw [List.getElem?_append_right (Nat.le_add_right _ _), Nat.add_sub_cancel_left,
    List.getElem?_eq_getElem inside, Option.getD_some]

theorem map_labels (older new : List Handle) :
    (List.range' older.length new.length).map (fun label => (older ++ new)[label]?.getD 0) =
      new := by
  refine List.ext_getElem (by simp) fun place _ inside => ?_
  rw [List.getElem_map, List.getElem_range', Nat.one_mul]
  exact getElem?_label inside

variable {one two : Desk Code Host} {name : Equiv.Perm Handle} {label : Nat} {chore : Chore Code}

/-- What has a label already keeps it when more is given. -/
theorem entry_append {world : World Code Host} {hand : Multiset Nat} (new : List Handle)
    (known : label < one.given.length) :
    ({ world, given := one.given ++ new, hand } : Desk Code Host).entry label = one.entry label := by
  unfold entry
  rw [List.getElem?_append_left known]

/-- What is in the hands of the host leads to the same on two desks, in renamed slots. -/
structure Matches (one : Desk Code Host) (name : Equiv.Perm Handle) (two : Desk Code Host) :
    Prop where
  echoes : one.world.heap.Echoes name (one.hand.map one.entry) two.world.heap
  hand : two.hand = one.hand
  length : two.given.length = one.given.length
  entries : ∀ label ∈ one.hand, two.entry label = name (one.entry label)
  known : ∀ label ∈ one.hand, label < one.given.length

namespace Matches

variable (alike : one.Matches name two)

include alike

theorem allows : two.Allows chore ↔ one.Allows chore := by
  unfold Allows
  rw [alike.hand]

/-- What is in the hands of the host leads to corresponding entries. -/
theorem map_entry : two.hand.map two.entry = (one.hand.map one.entry).map name := by
  rw [alike.hand, Multiset.map_map]
  exact Multiset.map_congr rfl alike.entries

/-- What is done with entries by their labels is done with the corresponding entries. -/
theorem rename_entry (allowed : one.Allows chore) :
    chore.rename two.entry = (chore.rename one.entry).rename name := by
  obtain ⟨handed, lent⟩ := allowed
  rw [Chore.rename_rename]
  refine Chore.rename_congr fun label member => alike.entries label ?_
  rcases Multiset.mem_add.mp member with consumed | borrowed
  · exact Multiset.mem_of_le handed consumed
  · exact Multiset.mem_of_le (Multiset.sub_le_self _ _) (lent label borrowed)

/-- A chore that is allowed comes to its end in both heaps, and to the same. -/
theorem perform (engine : Engine Code Host) (allowed : one.Allows chore) :
    Attempt.Tandem one.world two.world
      ((chore.rename one.entry).perform (one.equip engine chore))
      ((chore.rename two.entry).perform (two.equip engine chore))
      (Heap.Grants name ((one.hand - chore.consumes + chore.gains).map one.entry))
      fun later last => later.Echoes name ((one.hand - chore.consumes).map one.entry) last := by
  rw [alike.rename_entry allowed]
  obtain ⟨handed, lent⟩ := allowed
  rw [Multiset.map_add, ← Chore.gains_rename]
  refine Chore.lockstep_perform _ _ _ (alike.echoes.congr ?_) (fun handle member => ?_) ?_
  · rw [Chore.consumes_rename, ← Multiset.map_add, Multiset.sub_add_cancel handed]
  · rw [Chore.borrows_rename] at member
    obtain ⟨label, inside, rfl⟩ := Multiset.mem_map.mp member
    exact Multiset.mem_map_of_mem one.entry (lent label inside)
  · rw [Chore.consumes_rename, Chore.borrows_rename, Multiset.card_map, Multiset.card_map]
    exact ⟨le_refl _, le_refl _⟩

/-- Less is in the hands of the host. -/
theorem lessen {rest : Multiset Nat} {later last : Heap Code}
    (echoes : later.Echoes name (rest.map one.entry) last) (fewer : rest ⊆ one.hand) :
    Matches { one with world := { one.world with heap := later }, hand := rest } name
      { two with world := { two.world with heap := last }, hand := rest } where
  echoes := echoes
  hand := rfl
  length := alike.length
  entries label member := alike.entries label (fewer member)
  known label member := alike.known label (fewer member)

/-- What the host is given on both desks has the same labels. -/
theorem grants {rest : Multiset Nat} {answer other : Option (List Value)} {later last : Heap Code}
    (grants : Heap.Grants name (rest.map one.entry) answer later other last)
    (fewer : rest ⊆ one.hand) :
    ∃ further, Matches
      { world := { one.world with heap := later }
        given := one.given ++ (answer.getD []).filterMap Value.handle?
        hand := rest + owned (labelled one.given.length (answer.getD [])) }
      further
      { world := { two.world with heap := last }
        given := two.given ++ (other.getD []).filterMap Value.handle?
        hand := rest + owned (labelled two.given.length (other.getD [])) } := by
  obtain ⟨further, kept, echoes⟩ := grants
  have values : (answer.map (List.map (Value.rename further))).getD [] =
      (answer.getD []).map (Value.rename further) := by
    cases answer <;> rfl
  rw [values, labelled_rename, filterMap_handle?_rename, alike.length, owned_labelled]
  replace echoes : later.Echoes further
      (rest.map one.entry + ((answer.getD []).filterMap Value.handle? : List Handle)) last := echoes
  generalize (answer.getD []).filterMap Value.handle? = new at echoes
  have older (label : Nat) (member : label ∈ rest) := alike.known label (fewer member)
  refine ⟨further, echoes.congr ?_, rfl, ?_, fun label member => ?_, fun label member => ?_⟩
  · rw [Multiset.map_add, Multiset.map_coe]
    exact congrArg₂ (· + ·) (Multiset.map_congr rfl fun label member =>
      (entry_append new (older label member)).symm) (congrArg _ (map_labels one.given new).symm)
  · rw [List.length_append, List.length_append, List.length_map, alike.length]
  · rcases Multiset.mem_add.mp member with old | given
    · rw [entry_append new (older label old),
        entry_append (new.map further) ((older label old).trans_eq alike.length.symm),
        kept _ (Multiset.mem_map_of_mem one.entry old)]
      exact alike.entries label (fewer old)
    · obtain ⟨place, inside, rfl⟩ := List.mem_range'.mp given
      have insideImage : place < (new.map further).length := by rwa [List.length_map]
      unfold entry
      dsimp only
      rw [Nat.one_mul, getElem?_label inside, ← alike.length, getElem?_label insideImage,
        List.getElem_map]
  · rw [List.length_append]
    rcases Multiset.mem_add.mp member with old | given
    · exact (older label old).trans_le (Nat.le_add_right _ _)
    · obtain ⟨place, inside, rfl⟩ := List.mem_range'.mp given
      rw [Nat.one_mul]
      exact Nat.add_lt_add_left inside _

/-- A chore has the same notice on both desks. -/
theorem step (engine : Engine Code Host) (chore : Chore Code) :
    ∃ notice later last further, one.step engine chore = .ok (notice, later) ∧
      two.step engine chore = .ok (notice, last) ∧ later.Matches further last := by
  by_cases allowed : one.Allows chore
  · obtain ⟨outcome, later, other, last, ended, endedImage, ends⟩ := alike.perform engine allowed
    have first : one.step engine chore =
        .ok (one.settle chore { one.world with heap := later } outcome) :=
      (if_pos allowed).trans (Heap.bind_eq_ok.mpr ⟨_, ended, rfl⟩)
    have second : two.step engine chore =
        .ok (two.settle chore { two.world with heap := last } other) :=
      (if_pos (alike.allows.mpr allowed)).trans (Heap.bind_eq_ok.mpr ⟨_, endedImage, rfl⟩)
    have kept : one.hand - chore.consumes ⊆ one.hand :=
      Multiset.subset_of_le (Multiset.sub_le_self _ _)
    have fewer : one.hand - chore.consumes + chore.gains ⊆ one.hand := fun label member =>
      kept ((Multiset.mem_add.mp member).elim id fun gained =>
        allowed.2 label (chore.gains_subset_borrows gained))
    rw [first, second]
    unfold settle
    rw [alike.hand]
    cases ends with
    | error echoes => exact ⟨_, _, _, name, rfl, rfl, alike.lessen echoes kept⟩
    | ok grants =>
      obtain ⟨further, still⟩ := alike.grants grants fewer
      dsimp only
      rw [← alike.length, ← map_labelled_of_grants two.given.length grants]
      exact ⟨_, _, _, further, rfl, rfl, alike.length.symm ▸ still⟩
  · exact ⟨.barred, one, two, name, if_neg allowed, if_neg (alike.allows.not.mpr allowed), alike⟩

theorem play (engine : Engine Code Host) (script : List (Chore Code)) :
    ∃ notices later last further, one.play engine script = .ok (notices, later) ∧
      two.play engine script = .ok (notices, last) ∧ later.Matches further last := by
  induction script generalizing one name two with
  | nil => exact ⟨[], one, two, name, rfl, rfl, alike⟩
  | cons chore rest inductionHypothesis =>
    obtain ⟨notice, middle, middleImage, between, first, second, still⟩ := alike.step engine chore
    obtain ⟨notices, later, last, further, done, doneImage, reached⟩ := inductionHypothesis still
    exact ⟨notice :: notices, later, last, further,
      Heap.bind_eq_ok.mpr ⟨_, first, Heap.bind_eq_ok.mpr ⟨_, done, rfl⟩⟩,
      Heap.bind_eq_ok.mpr ⟨_, second, Heap.bind_eq_ok.mpr ⟨_, doneImage, rfl⟩⟩, reached⟩

end Matches

/-- Two heaps without any entry hold the same, whenever cycles are to be collected. -/
theorem matches_new (config : Config) (interval : Option UInt64) (host : Host)
    (unlimited : config.limits.maxMemory = none) :
    (new (Heap.new config) host : Desk Code Host).Matches (Equiv.refl Handle)
      (new (Heap.new { config with limits := { config.limits with gcInterval := interval } })
        host) where
  echoes := {
    counter := rfl
    allocations := rfl
    limit := rfl
    unlimited := unlimited
    unlimitedImage := unlimited
    rest := ⟨Heap.sound_new config, fun _ => rfl, rfl, rfl⟩
    image := ⟨Heap.sound_new _, fun _ => rfl, rfl, rfl⟩
    payloads := fun _ _ => rfl
    aimless := fun _ => rfl
    aimlessImage := fun _ => rfl }
  hand := rfl
  length := rfl
  entries label member := absurd member (Multiset.notMem_zero label)
  known label member := absurd member (Multiset.notMem_zero label)

/-- What the host can reach on one desk it can reach on the other one, and it looks the same. -/
theorem Matches.reach (alike : one.Matches name two) :
    Set.BijOn name one.reach two.reach ∧ ∀ handle ∈ one.reach, ∃ payload,
      one.world.heap.payload? handle = some payload ∧
      two.world.heap.payload? (name handle) = some (payload.rename name) ∧
      (payload.rename name).kind = payload.kind ∧
      two.world.heap.visits (name handle) = (one.world.heap.visits handle).map name := by
  refine ⟨?_, fun handle inside => ?_⟩
  · unfold Desk.reach
    rw [alike.map_entry]
    exact alike.echoes.bijOn
  · obtain ⟨payload, held, heldImage⟩ := alike.echoes.exists_payload? inside
    exact ⟨payload, held, heldImage, payload.kind_rename name, alike.echoes.visits inside⟩

end Desk

/-- A collection in the middle of an allocation spares all that is owned from outside or by what is
being allocated, and all that leads on from there. -/
theorem Engine.countAllocation_spares (engine : Engine Code Host) {before : World Code Host}
    {outside : Multiset Handle} {payload : Payload Code}
    (rest : before.heap.AtRest (outside + payload.owns)) (aimless : before.heap.Aimless)
    (enough : before.heap.edges.length ≤ engine.rounds) :
    ∃ after, engine.countAllocation payload before = .ok ((), { before with heap := after }) ∧
      ∀ handle, before.heap.Sustained (outside + payload.owns) handle →
        after.isLive handle ∧ after.payload? handle = before.heap.payload? handle := by
  obtain ⟨_, after, ended, sheds, still⟩ :=
    (engine.clears_countAllocation payload rest).exists_ok enough
  refine ⟨after, ended, fun handle sustained => ?_⟩
  have live := still.sound.balanced.isLive_of_sustained
    (sheds.forgets.sustained rest.silent still.sound.balanced (le_refl _) sustained)
  exact ⟨live, sheds.payload?_of_isLive aimless rest.sound live⟩

namespace Desk

/-- Collections that start by themselves are transparent. Two heaps are configured alike, without a
limit on memory, but for the number of allocations after which cycles are collected, which may be any
or none. Whatever a host does with both of them, without referring weakly to anything: it hears the
same, refusals included, and the same number of allocations is recorded. What the host can reach in
the one heap is what it can reach in the other one, in renamed slots, and each label stands for the
corresponding entries. Since this holds for any chores, it holds after each of them. In particular,
a collection in the middle of an allocation spares what is owned by the payload that is being
allocated or by anyone else outside the heap, and all that leads on from there. -/
theorem collection_is_transparent (engine : Engine Code Host) (config : Config)
    (interval : Option UInt64) (host : Host) (script : List (Chore Code))
    (unlimited : config.limits.maxMemory = none) :
    (∃ notices one two,
      (new (Heap.new config) host).play engine script = .ok (notices, one) ∧
      (new (Heap.new { config with limits := { config.limits with gcInterval := interval } })
        host).play engine script = .ok (notices, two) ∧
      two.world.heap.stats.allocations = one.world.heap.stats.allocations ∧
      two.hand = one.hand ∧
      ∃ name : Equiv.Perm Handle,
        (∀ label ∈ one.hand, two.entry label = name (one.entry label)) ∧
        Set.BijOn name one.reach two.reach ∧
        ∀ handle ∈ one.reach, ∃ payload,
          one.world.heap.payload? handle = some payload ∧
          two.world.heap.payload? (name handle) = some (payload.rename name) ∧
          (payload.rename name).kind = payload.kind ∧
          two.world.heap.visits (name handle) = (one.world.heap.visits handle).map name) ∧
    ∀ (before : World Code Host) (outside : Multiset Handle) (payload : Payload Code),
      before.heap.AtRest (outside + payload.owns) → before.heap.Aimless →
      before.heap.edges.length ≤ engine.rounds →
      ∃ after, engine.countAllocation payload before = .ok ((), { before with heap := after }) ∧
        ∀ handle, before.heap.Sustained (outside + payload.owns) handle →
          after.isLive handle ∧ after.payload? handle = before.heap.payload? handle := by
  refine ⟨?_, fun before outside payload rest aimless enough =>
    engine.countAllocation_spares rest aimless enough⟩
  obtain ⟨notices, one, two, name, first, second, alike⟩ :=
    (matches_new config interval host unlimited).play engine script
  exact ⟨notices, one, two, first, second, alike.echoes.allocations, alike.hand, name, alike.entries,
    alike.reach⟩

/-- A list that holds itself is dropped, and then another list is created. Only a heap that collects
cycles has the slot of the first list free for the second one. The same number of allocations is
recorded in both heaps, and the second list is the same in both of them. Nor is it lost to a collection
when a tuple takes it over. -/
theorem collection_of_dropped_cycle :
    let script : List (Chore Unit) :=
      [.request (.newList []) rfl, .request (.share 0) rfl, .request (.append (.ref 0) (.ref 0)) rfl,
        .request (.drop 0) rfl, .request (.newList [.int 7]) rfl]
    let config (interval : Option UInt64) : Config :=
      { Config.standard with limits := { Limits.unlimited with gcInterval := interval } }
    let engine : Engine Unit Unit := { Engine.exhausted with rounds := 8 }
    let tuple : Payload Unit := .tuple [.ref 0]
    ∃ notices one two name,
      (new (Heap.new (config (some 1))) ()).play engine script = .ok (notices, one) ∧
      (new (Heap.new (config none)) ()).play engine script = .ok (notices, two) ∧
      one.entry 1 = 0 ∧ two.entry 1 = 1 ∧ name 0 = 1 ∧
      two.world.heap.stats.allocations = one.world.heap.stats.allocations ∧
      two.world.heap.payload? 1 = (one.world.heap.payload? 0).map (Payload.rename name) ∧
      ∃ after, engine.countAllocation tuple one.world = .ok ((), { one.world with heap := after }) ∧
        after.payload? 0 = one.world.heap.payload? 0 := by
  intro script config engine tuple
  obtain ⟨⟨notices, one, two, first, second, allocations, hand, name, entries, _, reached⟩, spares⟩ :=
    collection_is_transparent engine (config (some 1)) none () script rfl
  obtain ⟨_, _, _, _, again, _, alike⟩ :=
    (matches_new (config (some 1)) none () rfl).play engine script
  cases first.symm.trans again
  have slots : ((new (Heap.new (config (some 1))) ()).play engine script).map
      (fun pair => (pair.2.given, pair.2.hand, pair.2.world.heap.edges.length)) =
        .ok ([0, 0], {1}, 0) := by
    decide +kernel
  have slotsImage : ((new (Heap.new (config none)) ()).play engine script).map
      (fun pair => (pair.2.given, pair.2.hand)) = .ok ([0, 1], {1}) := by
    decide +kernel
  rw [first] at slots
  rw [second] at slotsImage
  obtain ⟨given, held, edges⟩ :
      one.given = [0, 0] ∧ one.hand = {1} ∧ one.world.heap.edges.length = 0 := by
    simpa using Except.ok.inj slots
  obtain ⟨givenImage, heldImage⟩ : two.given = [0, 1] ∧ two.hand = {1} := by
    simpa using Except.ok.inj slotsImage
  have place : one.entry 1 = 0 := by rw [entry, given]; rfl
  have placeImage : two.entry 1 = 1 := by rw [entry, givenImage]; rfl
  have named : name 0 = 1 := by
    rw [← place, ← entries 1 (by simp [held]), placeImage]
  have roots : one.hand.map one.entry = 0 + tuple.owns := by
    rw [held, Multiset.map_singleton, place]
    rfl
  obtain ⟨payload, there, thereImage, _⟩ := reached 0 (.of_mem (by simp [roots, tuple]))
  obtain ⟨after, ended, kept⟩ := spares one.world 0 tuple (alike.echoes.rest.congr roots)
    alike.echoes.aimless (by rw [edges]; exact Nat.zero_le _)
  refine ⟨notices, one, two, name, first, second, place, placeImage, named, allocations, ?_, after,
    ended, (kept 0 (.of_mem (by simp [tuple]))).2⟩
  rw [← named, thereImage, there]
  rfl

end Desk

end ObjectHeap
