/-
This file says what methods are made of in every run of a host. Whoever creates a method takes nil
for no receiver and for no owner. Only the copy of a method is bound to what the copy of the receiver
is. The class of an instance may say that the instance is copied as nil, and then the copy of a method
that is bound to the instance is bound to nil. There is no other way for that to happen: a method that
is bound to nil in any heap of a run was preceded by such an answer. Memos carry answers on, so this is
said of hosts that hand in memos only as they are at first or as they came back from a copy.
-/

import ObjectHeap.Proofs.Freeing
import ObjectHeap.Proofs.Runs

namespace ObjectHeap

variable {Code Host : Type} {held : Host → Multiset Handle}
  {bodies : Code → Arguments → Program Code Host} {conduct : Conduct Code (Recorded Code Host)}
  {phase : Phase} {before after : World Code (Recorded Code Host)}

/-! ### Instances that are copied as nil -/

/-- At a moment of a run the body of the function begins to run by which the class of an instance
has the instance copied, and in the end it answers nil. -/
structure Moment.CopiesAsNil (bodies : Code → Arguments → Program Code Host) (moment : Moment Code)
    (older : List (Moment Code)) (after : World Code (Recorded Code Host)) : Prop where
  begins : moment.latest = none
  answers : ∃ value function data host rounds,
    moment.heap.special? value "__deepcopy__" = .ok (some function) ∧
    moment.heap.payload? function = some (.function data) ∧
    (bodies data.code (Arguments.ofList [value, .nil])).run (bodiesEngine bodies rounds)
      { heap := moment.heap, host := { host, moments := moment :: older } } = .ok (.ok .nil, after)

/-- By the last of some moments of a run an instance was copied as nil. -/
def CopiedAsNil (bodies : Code → Arguments → Program Code Host) (moments : List (Moment Code)) : Prop :=
  ∃ newer moment older after, moments = newer ++ moment :: older ∧
    moment.CopiesAsNil bodies older after ∧ after.host.moments <:+ moments

theorem CopiedAsNil.cons {moments : List (Moment Code)} (copied : CopiedAsNil bodies moments)
    (moment : Moment Code) : CopiedAsNil bodies (moment :: moments) := by
  obtain ⟨newer, begun, older, after, rfl, copies, earlier⟩ := copied
  exact ⟨moment :: newer, begun, older, after, rfl, copies, earlier.trans (List.suffix_cons _ _)⟩

/-- In the course of a run moments are added. -/
theorem Story.moments_suffix (story : Story (recordedConduct bodies) phase before after) :
    before.host.moments <:+ after.host.moments := by
  let fact (host : Recorded Code Host) : Prop := before.host.moments <:+ host.moments
  have stays : fact after.host := story.stays (fun world host turns now => by
    rcases turns with same | ⟨latest, added⟩
    · exact now.trans (same ▸ List.suffix_rfl)
    · exact now.trans (added ▸ List.suffix_cons _ _)) List.suffix_rfl
  exact stays

/-- Whenever an instance is copied as nil, a moment of the run tells. -/
theorem RespectfulBodies.copiedAsNil (respectful : RespectfulBodies held bodies) {rounds : Nat}
    {scene : Scene} {value : Value} (holds : (recordingLedger held conduct).Holds scene before value.owns)
    (copies : (bodiesEngine bodies rounds).CopiesAsNil value before after) :
    CopiedAsNil bodies after.host.moments := by
  obtain ⟨function, data, asked, found, answered⟩ := copies
  cases rounds with
  | zero => cases answered
  | succ rounds =>
    obtain ⟨_, noted, wrote, ran⟩ := Action.bind_eq_ok.mp answered
    cases wrote
    have recorded : (recordedLedger held bodies).Holds scene before value.owns :=
      ⟨⟨holds.sound, holds.releasing, holds.fits⟩, holds.settled, holds.tidy⟩
    obtain ⟨begun, _⟩ := yields_note (recordedConduct_records bodies) none recorded
      (fun _ _ absent => nomatch absent) _ _ rfl
    have threads : (bodies data.code (Arguments.ofList [value, .nil])).Threads Set.univ :=
      Program.threads_of_forall _ Set.mem_univ
    obtain ⟨_, passes⟩ := Program.yields _ (recordedConduct_records bodies) (respectful.keeps rounds)
      (respectful data.code _) threads (fun _ _ _ _ => trivial) (begun.congr (by simp)) _ _ ran
    obtain ⟨newer, same⟩ := passes.story.moments_suffix
    exact ⟨newer, _, _, after, same.symm,
      ⟨rfl, value, function, data, before.host.host, rounds, asked, found, ran⟩, List.suffix_rfl⟩

/-- Methods are bound to nil only after an instance was copied as nil. -/
def bindingConduct (bodies : Code → Arguments → Program Code Host) : Conduct Code (Recorded Code Host) where
  calls := CallsBack bodies
  turns := (recordedConduct bodies).turns
  hollows host := CopiedAsNil bodies host.moments
  lasts turns copied := by
    rcases turns with same | ⟨latest, added⟩
    · exact same ▸ copied
    · exact added ▸ copied.cons _

theorem bindingConduct_records (bodies : Code → Arguments → Program Code Host) :
    (bindingConduct bodies).Records bodies :=
  ⟨fun _ _ _ _ _ called => called, fun _ _ turns => turns⟩

theorem RespectfulBodies.keeps_binding (respectful : RespectfulBodies held bodies)
    (threading : ∀ code arguments, (bodies code arguments).Threads {Memo.empty}) (rounds : Nat) :
    (bodiesEngine bodies rounds).Keeps (recordingLedger held (bindingConduct bodies)) :=
  respectful.keeps_of_threads (bindingConduct_records bodies)
    (fun _ _ _ _ _ holds copies => respectful.copiedAsNil holds copies) threading
    (fun host memo new => by
      rw [Set.mem_singleton_iff.mp new]
      exact .empty _ host) rounds

/-! ### What binds no method -/

namespace Heap

variable {heap later last : Heap Code}

/-- Whatever methods are bound to afterwards they were bound to before. -/
def BindsNothing (heap later : Heap Code) : Prop :=
  ∀ method receiver, later.receiver? method = some receiver → heap.receiver? method = some receiver

namespace BindsNothing

theorem hollow (binds : heap.BindsNothing later) (hollow : later.Hollow) : heap.Hollow := by
  obtain ⟨method, bound⟩ := hollow
  exact ⟨method, binds method _ bound⟩

theorem of_payloads (same : ∀ handle, later.payload? handle = heap.payload? handle) :
    heap.BindsNothing later :=
  fun _ _ bound => (receiver?_congr (same _)).symm.trans bound

theorem of_quiet (quiet : heap.Quiet later) : heap.BindsNothing later :=
  fun _ _ bound => (quiet.receivers _).symm.trans bound

/-- What goes on as what it was binds nothing. -/
theorem of_continues (each : ∀ handle payload, later.payload? handle = some payload →
    payload.receiver? = none ∨
      ∃ previous, heap.payload? handle = some previous ∧ previous.Continues payload) :
    heap.BindsNothing later := by
  intro method receiver bound
  obtain ⟨payload, found, same⟩ := Option.bind_eq_some_iff.mp bound
  rcases each method payload found with unbound | ⟨previous, held, continues⟩
  · exact nomatch unbound.symm.trans same
  · exact Option.bind_eq_some_iff.mpr ⟨previous, held, continues.receiver?.symm.trans same⟩

theorem register (heap : Heap Code) (target weakref : Handle) :
    heap.BindsNothing (heap.register target weakref) := by
  refine of_continues fun handle payload found => Or.inr ?_
  rw [Heap.register, payload?_mapPayload] at found
  split at found
  · obtain ⟨previous, held, rfl⟩ := Option.map_eq_some_iff.mp found
    exact ⟨previous, held, (previous.alike_mapWatchers _).continues⟩
  · exact ⟨payload, found, .refl payload⟩

theorem bury (heap : Heap Code) (place : Handle) (payload : Payload Code) :
    heap.BindsNothing (heap.bury place payload) := by
  refine of_continues fun handle payload found => Or.inr ?_
  rw [payload?_bury] at found
  split at found
  · obtain ⟨previous, held, rfl⟩ := Option.map_eq_some_iff.mp found
    exact ⟨previous, held, (previous.alike_mapWatchers _).continues⟩
  · exact ⟨payload, found, .refl payload⟩

theorem of_frees {place : Handle} {payload : Payload Code} {callbacks : List (Handle × Value)}
    (frees : heap.Frees place payload callbacks later) : heap.BindsNothing later := by
  refine of_continues fun handle payload found => ?_
  rw [frees.payloads] at found
  split at found
  · cases found
    exact Or.inl rfl
  · split at found
    · cases found
    · exact Or.inr ⟨payload, found, .refl payload⟩

theorem of_purges {removed : List Handle} {callbacks : List (Handle × Value)}
    (purges : heap.Purges removed callbacks later) : heap.BindsNothing later := by
  refine of_continues fun handle payload found => ?_
  rw [purges.payloads] at found
  split at found
  · cases found
  · obtain ⟨previous, held, rfl⟩ := Option.map_eq_some_iff.mp found
    exact Or.inr ⟨previous, held, previous.continues_without _⟩

theorem noting (heap : Heap Code) (outcome : Except Error Value) :
    heap.BindsNothing (heap.noting outcome) := by
  cases outcome <;> exact of_payloads fun _ => rfl

end BindsNothing

end Heap

/-! ### Runs -/

/-- Whenever a method is bound to nil, now or at an earlier moment, an instance was copied as nil
before. -/
structure Explained (bodies : Code → Arguments → Program Code Host)
    (world : World Code (Recorded Code Host)) : Prop where
  now : world.heap.Hollow → CopiedAsNil bodies world.host.moments
  earlier : ∀ newer moment older, world.host.moments = newer ++ moment :: older →
    moment.heap.Hollow → CopiedAsNil bodies older

namespace Explained

variable {world : World Code (Recorded Code Host)}

theorem of_bindsNothing (explained : Explained bodies world) {heap : Heap Code}
    (binds : world.heap.BindsNothing heap) : Explained bodies { world with heap } :=
  ⟨fun hollow => explained.now (binds.hollow hollow), explained.earlier⟩

theorem of_turns (explained : Explained bodies world) {host : Recorded Code Host}
    (turns : (recordedConduct bodies).turns world host) : Explained bodies { world with host } := by
  rcases turns with same | ⟨latest, added⟩
  · refine ⟨fun hollow => same ▸ explained.now hollow, fun newer moment older split => ?_⟩
    exact explained.earlier newer moment older (same.symm.trans split)
  · refine ⟨fun hollow => added ▸ (explained.now hollow).cons _, fun newer moment older split => ?_⟩
    rcases List.cons_eq_append_iff.mp (added.symm.trans split) with ⟨rfl, same⟩ | ⟨rest, rfl, same⟩
    · cases same
      exact explained.now
    · exact explained.earlier rest moment older same

/-- A payload is placed. -/
theorem of_places (explained : Explained bodies world) {payload : Payload Code} {slot : Handle}
    {heap : Heap Code} (places : world.heap.Places payload slot heap)
    (bound : payload.receiver? = some .nil → CopiedAsNil bodies world.host.moments ∨ world.heap.Hollow) :
    Explained bodies { world with heap } := by
  refine ⟨fun ⟨method, hollow⟩ => ?_, explained.earlier⟩
  by_cases here : method = slot
  · obtain ⟨placed, found, nil⟩ := Option.bind_eq_some_iff.mp hollow
    cases (here ▸ found).symm.trans places.here
    exact (bound nil).elim id explained.now
  · exact explained.now ⟨method, (Heap.receiver?_congr (places.others method here)).symm.trans hollow⟩

end Explained

/-- In every part of a run it stays explained why methods are bound to nil. -/
theorem Story.explained (story : Story (bindingConduct bodies) phase before after)
    (explained : Explained bodies before) : Explained bodies after := by
  induction story with
  | still | settled | clean | released | called => exact explained
  | andThen _ _ first second => exact second (first explained)
  | quiet quiet => exact explained.of_bindsNothing (.of_quiet quiet)
  | host turns => exact explained.of_turns turns
  | relieve => exact explained.of_bindsNothing (.of_payloads fun _ => rfl)
  | place places bound => exact explained.of_places places bound
  | enroll => exact explained.of_bindsNothing (.register _ _ _)
  | settle _ rest | sweep _ rest => exact rest explained
  | anew quiet _ rest | wait quiet _ rest | spare quiet _ rest =>
    exact rest (explained.of_bindsNothing (.of_quiet quiet))
  | collect _ purges _ _ settles called =>
    exact called (settles (explained.of_bindsNothing (.of_purges purges)))
  | drain _ _ _ loop rest =>
    exact rest ((loop (explained.of_bindsNothing (.of_payloads fun _ => rfl))).of_bindsNothing
      (.of_payloads fun _ => rfl))
  | free frees _ _ called rest =>
    exact rest ((called (explained.of_bindsNothing (.of_frees frees))).of_bindsNothing (.bury _ _ _))
  | call _ _ _ _ _ course givesUp rest =>
    exact rest ((givesUp (course explained)).of_bindsNothing (.noting _ _))

/-- What the methods of a heap are made of, when a run has come to some moments: an owner is not nil,
and a method that is not bound has one; a method is bound to nil only if an instance was copied as
nil before. -/
structure MethodsMade (bodies : Code → Arguments → Program Code Host) (moments : List (Moment Code))
    (heap : Heap Code) : Prop where
  present : ∀ method data, heap.payload? method = some (.method data) → data.owner ≠ some .nil
  owned : ∀ method data, heap.payload? method = some (.method data) → data.receiver = none →
    data.owner.isSome
  bound : ∀ method data, heap.payload? method = some (.method data) → data.receiver = some .nil →
    CopiedAsNil bodies moments

theorem MethodsMade.of_formed {moments : List (Moment Code)} {heap : Heap Code} (formed : heap.Formed)
    (bound : heap.Hollow → CopiedAsNil bodies moments) : MethodsMade bodies moments heap where
  present method data found := (formed.grounded method data found).present
  owned method data found := (formed.grounded method data found).owned
  bound method _ found nil := bound ⟨method, Option.bind_eq_some_iff.mpr ⟨_, found, nil⟩⟩

/-- The states that a run on a new heap can reach when its host makes no memo up, with the memos that
it knows: it hands in memos only as they are at first or as they came back from a copy. -/
inductive Threaded (held : Host → Multiset Handle) (bodies : Code → Arguments → Program Code Host)
    (config : Config) : Set Memo → Multiset Handle → World Code (Recorded Code Host) → Prop
  | start (host : Host) (nothing : held host = 0) : Threaded held bodies config {Memo.empty} 0
      { heap := Heap.new config, host := { host, moments := [] } }
  | perform {known : Set Memo} {rest : Multiset Handle} {before after : World Code (Recorded Code Host)}
    (operation : Operation Code) (rounds : Nat) (answer : operation.Answer)
    (threaded : Threaded held bodies config known (operation.consumes + rest) before)
    (lent : operation.borrows ⊆ rest) (handed : operation.Threads known)
    (ended : operation.noted (bodiesEngine bodies rounds) before = .ok (answer, after)) :
    Threaded held bodies config (known ∪ operation.memos answer) (rest + operation.gains answer) after
  | keep {known : Set Memo} {hand left : Multiset Handle} {before : World Code (Recorded Code Host)}
    (host : Host) (threaded : Threaded held bodies config known hand before)
    (moved : held before.host.host + hand = held host + left) :
    Threaded held bodies config known left { before with host := { before.host with host } }

namespace Threaded

variable {config : Config} {known : Set Memo} {hand : Multiset Handle}
  {world : World Code (Recorded Code Host)}

theorem reached (threaded : Threaded held bodies config known hand world) :
    Reached held bodies config hand world := by
  induction threaded with
  | start host nothing => exact .start host nothing
  | perform operation rounds answer _ lent _ ended inductionHypothesis =>
    exact .perform operation rounds answer inductionHypothesis lent ended
  | keep host _ moved inductionHypothesis => exact .keep host inductionHypothesis moved

theorem of_follow {left : Multiset Handle} {operations : List (Operation Code)} {rounds : Nat}
    {after : World Code (Recorded Code Host)} (threaded : Threaded held bodies config known hand world)
    (new : {Memo.empty} ⊆ known) (handed : ∀ operation ∈ operations, operation.Threads {Memo.empty})
    (ended : follow (bodiesEngine bodies rounds) operations hand world = some (left, after)) :
    ∃ known, Threaded held bodies config known left after := by
  induction operations generalizing hand known world with
  | nil =>
    cases ended
    exact ⟨known, threaded⟩
  | cons operation rest inductionHypothesis =>
    obtain ⟨consumed, borrowed, answer, between, performed, going⟩ := follow_cons_eq_some ended
    rw [← add_tsub_cancel_of_le consumed] at threaded
    exact inductionHypothesis (.perform operation rounds answer threaded
      (Multiset.subset_of_le borrowed) ((handed operation List.mem_cons_self).mono new) performed)
      (new.trans Set.subset_union_left)
      (fun other member => handed other (List.mem_cons_of_mem _ member)) going

/-- A run of operations can be computed that are handed no memo with anything in it, and so can what
is seen of the state that it leads to. -/
theorem exists_follow {View : Type} (operations : List (Operation Code)) (rounds : Nat) (host : Host)
    (view : World Code (Recorded Code Host) → View) (seen : View) (nothing : held host = 0)
    (handed : ∀ operation ∈ operations, operation.Threads {Memo.empty})
    (ended : (follow (bodiesEngine bodies rounds) operations 0
        { heap := Heap.new config, host := { host, moments := [] } }).map
      (fun result => (result.1, view result.2)) = some (hand, seen)) :
    ∃ known world, Threaded held bodies config known hand world ∧ view world = seen := by
  obtain ⟨⟨_, world⟩, ran, same⟩ := Option.map_eq_some_iff.mp ended
  cases same
  have begun : Threaded held bodies config {Memo.empty} 0
      { heap := Heap.new config, host := { host, moments := [] } } := .start host nothing
  obtain ⟨known, threaded⟩ := begun.of_follow Set.Subset.rfl handed ran
  exact ⟨known, world, threaded, rfl⟩

/-- How a run came to where it is can be told from the new heap on, with a reason for every method
that is bound to nil and for every nil in a memo. -/
theorem told (respectful : RespectfulBodies held bodies)
    (threading : ∀ code arguments, (bodies code arguments).Threads {Memo.empty})
    (threaded : Threaded held bodies config known hand world) :
    known ⊆ {memo | (recordingLedger held (bindingConduct bodies)).Trusts memo world.host} ∧
    ∃ host : Recorded Code Host, host.moments = [] ∧
      Story (bindingConduct bodies) .operating { heap := Heap.new config, host } world := by
  induction threaded with
  | start host nothing =>
    refine ⟨fun memo new => ?_, _, rfl, .still _⟩
    rw [Set.mem_singleton_iff.mp new]
    exact .empty _ _
  | @perform known rest before after operation rounds answer threaded lent handed ended
      inductionHypothesis =>
    obtain ⟨trusted, host, nothing, story⟩ := inductionHypothesis
    have recorded := threaded.reached.holds respectful
    have holds : (recordingLedger held (bindingConduct bodies)).Holds Reached.atRest before
        (operation.consumes + rest) :=
      ⟨⟨recorded.sound, recorded.releasing, recorded.fits⟩, recorded.settled, recorded.tidy⟩
    have keeps := respectful.keeps_binding threading rounds
    have passes := (operation.yields_noted (bindingConduct_records bodies) keeps lent
      (handed.mono trusted) holds _ _ ended).2
    exact ⟨operation.trusts_noted (bindingConduct_records bodies) keeps lent handed trusted holds ended,
      host, nothing, story.andThen passes.story⟩
  | keep host _ _ inductionHypothesis =>
    obtain ⟨trusted, start, nothing, story⟩ := inductionHypothesis
    exact ⟨trusted, start, nothing, story.andThen (.host (Or.inl rfl))⟩

theorem threads_idleBodies (code : Unit) (arguments : Arguments) :
    (idleBodies code arguments).Threads {Memo.empty} := by
  unfold idleBodies
  induction arguments.values with
  | nil => trivial
  | cons value rest inductionHypothesis =>
    exact ⟨trivial, fun answer => (Set.union_empty {Memo.empty}).symm ▸ inductionHypothesis⟩

/-- A class has its instances copied as nil by a function that answers nil. A method that is bound to
an instance of the class is copied. -/
theorem exists_nil_copy : ∃ known, ∃ world : World Unit (Recorded Unit Unit),
    Threaded (fun _ => 0) idleBodies Config.standard known ({0} + {1} + {2} + {3} + {4} + {5} + {5}) world ∧
    ∃ data, world.heap.payload? 5 = some (.method data) ∧ data.owner = some (.ref 0) ∧
      data.receiver = some .nil := by
  obtain ⟨known, world, threaded, seen⟩ : ∃ known, ∃ world : World Unit (Recorded Unit Unit),
      Threaded (fun _ => 0) idleBodies Config.standard known ({0} + {1} + {2} + {3} + {4} + {5} + {5}) world ∧
        (world.heap.method 5).toOption.map (fun data => (data.owner, data.receiver)) =
          some (some (.ref 0), some .nil) :=
    exists_follow
      [.newClass "C" [], .newFunction "h" none none (), .share (.ref 1),
        .setAttribute (.ref 0) "__deepcopy__" (.ref 1), .newInstance (.ref 0),
        .newFunction "f" none none (), .newMethod (.ref 3) (.ref 2) (.ref 0),
        .deepCopy (.ref 4) Memo.empty] 8 () _ _ rfl (by simp [Operation.Threads]) (by decide +kernel)
  obtain ⟨data, found, same⟩ := Option.map_eq_some_iff.mp seen
  obtain ⟨owner, receiver⟩ := Prod.mk.inj same
  refine ⟨known, world, threaded, data, ?_, owner, receiver⟩
  cases read : world.heap.method 5 with
  | ok method =>
    rw [read] at found
    cases found
    exact Heap.method_eq_ok.mp read
  | error fault =>
    rw [read] at found
    cases found

/-- In every heap of a run, between two operations and at every moment of one, the owner of a method
is not nil, and a method that is not bound has an owner. A method is bound to nil only if at an
earlier moment the class of an instance had the instance copied as nil. -/
theorem methods_are_made (respectful : RespectfulBodies held bodies)
    (threading : ∀ code arguments, (bodies code arguments).Threads {Memo.empty})
    (threaded : Threaded held bodies config known hand world) :
    MethodsMade bodies world.host.moments world.heap ∧
    ∀ newer moment older, world.host.moments = newer ++ moment :: older →
      MethodsMade bodies older moment.heap := by
  obtain ⟨_, host, nothing, story⟩ := threaded.told respectful threading
  have begun : Explained bodies { heap := Heap.new config, host } := by
    constructor
    · rintro ⟨method, bound⟩
      obtain ⟨_, found, _⟩ := Option.bind_eq_some_iff.mp bound
      exact nomatch (Heap.payload?_new config method).symm.trans found
    · intro newer moment older split
      rw [show host.moments = [] from nothing] at split
      cases newer <;> cases split
  have explained := story.explained begun
  have formed {heap : Heap Code} (member : heap ∈ Reached.heaps world) : heap.Formed := by
    obtain ⟨⟨_, _, sound⟩, _⟩ := threaded.reached.orderly respectful member
    exact sound.formed
  refine ⟨.of_formed (formed List.mem_cons_self) explained.now, fun newer moment older split => ?_⟩
  refine .of_formed (formed ?_) (explained.earlier newer moment older split)
  refine List.mem_cons_of_mem _ (List.mem_map_of_mem ?_)
  rw [split]
  exact List.mem_append_right _ List.mem_cons_self

/-- A method is bound to an instance of a class that has its instances copied as nil. The copy of the
method is bound to nil, and a moment of the run tells why. -/
theorem method_of_nil_copy : ∃ known hand, ∃ world : World Unit (Recorded Unit Unit), ∃ data,
    Threaded (fun _ => 0) idleBodies Config.standard known hand world ∧
    world.heap.payload? 5 = some (.method data) ∧ data.owner = some (.ref 0) ∧
    data.receiver = some .nil ∧ CopiedAsNil idleBodies world.host.moments := by
  obtain ⟨known, world, threaded, data, found, owner, receiver⟩ := exists_nil_copy
  have made := methods_are_made respectful_idleBodies threads_idleBodies threaded
  exact ⟨known, _, world, data, threaded, found, owner, receiver, made.1.bound 5 data found receiver⟩

/-- A deep copy leads to a method that is bound to nil. -/
theorem receiver_of_nil_copy : ∃ world : World Unit (Recorded Unit Unit), ∃ hand method data,
    RespectfulBodies (fun _ : Unit => 0) idleBodies ∧
    Reached (fun _ => 0) idleBodies Config.standard hand world ∧
    world.heap.payload? method = some (.method data) ∧ data.receiver = some .nil := by
  obtain ⟨_, world, threaded, data, found, _, receiver⟩ := exists_nil_copy
  exact ⟨world, _, 5, data, respectful_idleBodies, threaded.reached, found, receiver⟩

end Threaded

end ObjectHeap
