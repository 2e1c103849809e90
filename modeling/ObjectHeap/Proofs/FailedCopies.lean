/-
This file says what a deep copy leaves behind when it fails, in a heap without unreachable entries.
Whatever was copied until then, finished or not, is owned by the memo or by nothing outside. Once the
memo is given up and cycles are collected, every entry is what it was, with the count that it had.
-/

import ObjectHeap.Proofs.Copies
import ObjectHeap.Proofs.Correspondence
import ObjectHeap.Proofs.Reflections
import ObjectHeap.Proofs.Runs
import ObjectHeap.Proofs.Spared

namespace ObjectHeap

variable {Code Host : Type} {base heap : Heap Code} {outside mine : Multiset Handle}

namespace Heap

/-- What was there is there in its place. -/
theorem Spares.reflects (spares : base.Spares outside mine heap) (whole : base.Whole outside) :
    base.Reflects (Equiv.refl Handle) {handle | base.isLive handle} heap where
  payloads handle live := by
    rw [Equiv.refl_apply, spares.kept handle live, Equiv.coe_refl, funext Payload.rename_id]
    exact Option.map_id_apply.symm
  closed _ _ _ held _ member := whole.sound.isLive_of_mentions held member

/-- A class that was there finds under a special name what it has found before. -/
theorem Spares.special? (spares : base.Spares outside mine heap) (whole : base.Whole outside)
    {handle : Handle} (live : base.isLive handle) (key : String) :
    heap.special? (.ref handle) key = base.special? (.ref handle) key := by
  have inside (other : Handle) (member : other ∈ (Value.ref handle).owns) : base.isLive other :=
    Multiset.mem_singleton.mp member ▸ live
  refine ((spares.reflects whole).special? inside key).trans ?_
  cases base.special? (.ref handle) key with
  | error fault => rfl
  | ok found => cases found <;> rfl

/-- What is owned from outside leads to nothing but what was there. -/
theorem Spares.isLive_of_sustained (spares : base.Spares outside mine heap) (whole : base.Whole outside)
    {handle : Handle} (sustained : heap.Sustained outside handle) : base.isLive handle := by
  refine whole.sound.balanced.isLive_of_unchanged (fun _ member => member)
    (fun source _ there => ?_) sustained
  unfold visits
  rw [spares.kept source there]

/-- Where nothing has come and nothing is owned beside what was owned before, every entry is what it
was, and has the count that it had. -/
theorem Spares.occupant? (spares : base.Spares outside 0 heap) (whole : base.Whole outside)
    (older : ∀ handle, heap.isLive handle → base.isLive handle) (handle : Handle) :
    heap.occupant? handle = base.occupant? handle := by
  have payloads (handle : Handle) : heap.payload? handle = base.payload? handle := by
    by_cases live : base.isLive handle
    · exact spares.kept handle live
    · have absent : ¬ heap.isLive handle := fun there => live (older handle there)
      rw [isLive_eq_payload?, Bool.not_eq_true, Option.isSome_eq_false_iff, Option.isNone_iff_eq_none]
        at live absent
      rw [live, absent]
  have tallies : heap.tally handle = base.tally handle := by
    have edges : heap.edges.count handle = base.edges.count handle :=
      edges_congr (fun other => by unfold visits; rw [payloads other]) handle
    rw [spares.sound.balanced.exact, whole.sound.balanced.exact, edges, spares.settled, whole.settled,
      add_zero]
  have same := payloads handle
  rw [payload?_eq, payload?_eq] at same
  cases before : base.occupant? handle with
  | none =>
    rw [before] at same
    exact Option.map_eq_none_iff.mp same
  | some entry =>
    rw [before] at same
    obtain ⟨other, after, payload⟩ := Option.map_eq_some_iff.mp same
    rw [tally_of_occupant? before, tally_of_occupant? after] at tallies
    rw [after]
    exact congrArg some (congrArg₂ Entry.mk tallies payload)

end Heap

/-! ### Copies of contents -/

namespace Engine

variable (engine : Engine Code Host) (whole : base.Whole outside)
  {copy : Value → Copying Code Host Value} {items : List Value}

include whole

/-- What is copied is held until then. -/
theorem spares_held {item : Value} (copies : (copy item).Spares base outside 0 Value.owns Set.univ 0) :
    ((copy item).ensuring (engine.release item)).Spares base outside item.owns Value.owns Set.univ
      0 :=
  .ensuring ((copies.frame item.owns).congr (zero_add _)) (engine.spares_release whole item)

/-- When one part cannot be stored, the parts that are left are given up, and so is the copy. -/
theorem spares_store {store : Copying Code Host Unit} {part copied : Value}
    (stores : store.Spares base outside part.owns (fun _ => 0) Set.univ 0) (parts : List Value) :
    (store.onError do
      engine.releaseList parts
      engine.release copied).Spares base outside (copied.owns + owned (part :: parts))
        (fun _ => copied.owns + owned parts) Set.univ 0 := by
  have gone : (do
      engine.releaseList parts
      engine.release copied : Action Code Host Unit).Spares base outside
        (owned parts + copied.owns) (fun _ => 0) Set.univ :=
    .bind ((engine.spares_releaseList whole parts).frame copied.owns) fun _ _ =>
      (engine.spares_release whole copied).congr (zero_add _).symm
  have stored := Copying.Spares.onError (stores.frame (owned parts + copied.owns)) gone
  rw [owned_cons]
  convert stored using 1
  · abel
  · funext _
    abel

theorem spares_copyInto {list : Value} (created : list ∈ base.created)
    (copies : ∀ item ∈ items, (copy item).Spares base outside 0 Value.owns Set.univ 0) :
    (engine.copyInto copy list items).Spares base outside (list.owns + owned items)
      (fun _ => list.owns) Set.univ 0 := by
  induction items with
  | nil => exact .pure (add_zero _) trivial
  | cons item rest inductionHypothesis =>
    exact .bind (engine.spares_store whole (.bind
      (engine.spares_held whole (copies item List.mem_cons_self))
      fun copied _ => .ofAttempt (engine.spares_append whole created copied)) rest)
      fun _ _ => inductionHypothesis fun other member => copies other (List.mem_cons_of_mem item member)

/-- A list, a tuple or an instance that cannot be made gives up the parts that were taken. -/
theorem spares_copyList (handle : Handle)
    (copies : ∀ item ∈ items, (copy item).Spares base outside 0 Value.owns Set.univ 0) :
    (engine.copyList copy handle items).Spares base outside (owned items) Value.owns Set.univ 0 := by
  have made := Copying.Spares.ofAttempt (engine.spares_newList whole [])
  have opened := Copying.Spares.onError
    ((made.frame (owned items)).congr (zero_add _)) (engine.spares_releaseList whole items)
  refine .bind opened fun list created => .bind (.memorize whole handle list) fun _ _ => ?_
  exact .bind (engine.spares_copyInto whole created copies) fun _ _ => .pure rfl trivial

theorem spares_copyItems (copied : List Value)
    (copies : ∀ item ∈ items, (copy item).Spares base outside 0 Value.owns Set.univ 0) :
    (engine.copyItems copy copied items).Spares base outside (owned copied + owned items) owned
      Set.univ 0 := by
  induction items generalizing copied with
  | nil => exact .pure (add_zero _) trivial
  | cons item rest inductionHypothesis =>
    -- On a failure, what is left of the items is given up, and then the copies.
    have gone : (do
        engine.releaseList rest
        engine.releaseList copied : Action Code Host Unit).Spares base outside
          (owned rest + owned copied) (fun _ => 0) Set.univ :=
      .bind ((engine.spares_releaseList whole rest).frame (owned copied)) fun _ _ =>
        (engine.spares_releaseList whole copied).congr (zero_add _).symm
    have held := (engine.spares_held whole (copies item List.mem_cons_self)).frame
      (owned rest + owned copied)
    refine .bind ((Copying.Spares.onError held gone).congr ?_) fun value _ =>
      (inductionHypothesis (copied ++ [value]) fun other member =>
        copies other (List.mem_cons_of_mem item member)).congr ?_
    · rw [owned_cons]
      abel
    · rw [owned_append, owned_cons, owned_nil]
      abel

theorem spares_copyTuple (handle : Handle)
    (copies : ∀ item ∈ items, (copy item).Spares base outside 0 Value.owns Set.univ 0) :
    (engine.copyTuple copy handle items).Spares base outside (owned items) Value.owns Set.univ 0 := by
  have copied := (engine.spares_copyItems whole [] copies).congr (zero_add (owned items))
  refine .bind copied fun values _ => .bind (.recorded? handle) fun found _ => ?_
  cases found with
  | some existing =>
    have gone := (engine.spares_releaseList whole values).frame existing.owns
    rw [zero_add] at gone
    refine .bind (.ofAction (gone.congr ?_)) fun _ _ => .pure rfl trivial
    rw [Option.toList_some, owned_cons, owned_nil, add_zero]
  | none =>
    refine .bind ((Copying.Spares.ofAttempt (engine.spares_newTuple whole values)).congr
      (add_zero _).symm) fun tuple _ => ?_
    exact .bind (.memorize whole handle tuple) fun _ _ => .pure rfl trivial

theorem spares_copyAttributes {object : Value} (created : object ∈ base.created)
    {entries : List (String × Value)}
    (copies : ∀ entry ∈ entries, (copy entry.2).Spares base outside 0 Value.owns Set.univ 0) :
    (engine.copyAttributes copy object entries).Spares base outside
      (object.owns + owned (entries.map Prod.snd)) (fun _ => object.owns) Set.univ 0 := by
  induction entries with
  | nil => exact .pure (add_zero _) trivial
  | cons entry rest inductionHypothesis =>
    exact .bind (engine.spares_store whole (.bind
      (engine.spares_held whole (copies entry List.mem_cons_self))
      fun copied _ => .ofAttempt (engine.spares_setAttribute whole created entry.1 copied))
      (rest.map Prod.snd))
      fun _ _ => inductionHypothesis fun other member => copies other (List.mem_cons_of_mem entry member)

/-- An instance whose class has no function for that is copied attribute by attribute. -/
theorem spares_copyInstance {handle type : Handle} {data : Instance}
    (there : base.payload? handle = some (.object data))
    (plain : ∀ heap mine found, base.Spares outside mine heap →
      heap.special? (.ref handle) "__deepcopy__" = .ok found → found = none)
    (copies : ∀ entry ∈ data.attributes.entries,
      (copy entry.2).Spares base outside 0 Value.owns Set.univ 0) :
    (engine.copyInstance copy (.ref handle) handle type).Spares base outside 0 Value.owns Set.univ
      0 := by
  have asked : Copying.Spares base outside 0
      (ask fun heap => heap.special? (.ref handle) "__deepcopy__" : Copying Code Host (Option Handle))
      (fun _ => 0) {none} 0 := .ask fun heap mine found spares answered =>
    plain heap mine found spares answered
  refine .bind asked fun found same => ?_
  cases same
  refine .bind (.ofAttempt (engine.spares_newInstance whole (.ref type))) fun object created => ?_
  refine .bind (.memorize whole handle object) fun _ _ => ?_
  refine .bind (.retainAttributes there) fun entries same => ?_
  cases same
  exact .bind (engine.spares_copyAttributes whole created copies) fun _ _ => .pure rfl trivial

/-- A method that was there is copied with its receiver. -/
theorem spares_copyMethod {handle : Handle} {data : Method}
    (there : base.payload? handle = some (.method data))
    (copies : ∀ receiver, data.receiver = some receiver →
      (copy receiver).Spares base outside 0 Value.owns Set.univ 0) :
    (engine.copyMethod copy handle).Spares base outside 0 Value.owns base.created 0 := by
  obtain ⟨function, made⟩ := whole.sound.exists_function there
  have grounded := whole.sound.formed.grounded handle data there
  have asked : Copying.Spares base outside 0
      (ask fun heap => heap.method handle : Copying Code Host Method) (fun _ => 0) {data} 0 :=
    .ask fun heap mine found spares answered => by
      have held := Heap.method_eq_ok.mp answered
      rw [spares.kept handle (Heap.isLive_of_payload? there), there] at held
      cases held
      rfl
  refine .bind asked fun found same => ?_
  cases same
  refine .retainAll ?_
  rw [zero_add, Method.parts, owned_append]
  split
  · rename_i receiver bound
    have held := (engine.spares_held whole (copies receiver bound)).frame (owned data.owner.toList)
    have guarded := Copying.Spares.onError held (engine.spares_release? whole data.owner)
    refine .bind (guarded.congr ?_) fun copied _ => .ofAttempt ?_
    · rw [bound, Option.toList_some, owned_cons, owned_nil, add_zero]
    · have bounded : ({ data with receiver := some copied, watchers := [] } : Method).Grounded :=
        grounded.remade rfl fun missing => by cases missing
      have allocated := engine.spares_allocateMethod whole made bounded
      rwa [Option.toList_some, owned_cons, owned_nil, add_zero] at allocated
  · rename_i unbound
    rw [unbound]
    exact .ofAttempt (engine.spares_allocateMethod whole made (grounded.remade rfl fun _ => unbound))

/-- Copying leaves alone what was there, as long as no class has a say in it. -/
theorem spares_copyWithin {top : Value}
    (plain : ∀ handle, base.Reaches top handle → ∀ function,
      base.special? (.ref handle) "__deepcopy__" ≠ .ok (some function))
    (levels : Nat) (value : Value)
    (reached : ∀ handle, value = .ref handle → base.Reaches top handle ∧ base.isLive handle) :
    (engine.copyWithin levels value).Spares base outside 0 Value.owns Set.univ 0 := by
  induction levels generalizing value with
  | zero =>
    cases value with
    | ref handle =>
      refine .bind (.recorded? handle) fun found _ => ?_
      cases found with
      | some copy => exact .pure (by simp) trivial
      | none => exact .ofAttempt (.refuse (zero_add _))
    | _ => exact .pure rfl trivial
  | succ levels inductionHypothesis =>
    cases value with
    | ref handle =>
      obtain ⟨reaches, live⟩ := reached handle rfl
      obtain ⟨payload, there⟩ := Heap.exists_payload?_of_isLive live
      -- What is in reach of the entry was in reach of the top.
      have copies (item : Value) (member : item ∈ payload.contents) :
          (engine.copyWithin levels item).Spares base outside 0 Value.owns Set.univ 0 := by
        refine inductionHypothesis item fun target same => ?_
        have contains : base.Contains handle target := ⟨payload, there, same ▸ member⟩
        exact ⟨reaches.step contains, whole.sound.balanced.isLive_of_refers contains.refers⟩
      refine .bind (.recorded? handle) fun found _ => ?_
      cases found with
      | some copy => exact .pure (by simp) trivial
      | none =>
        refine .fetch there ?_
        rw [Option.toList_none, owned_nil, add_zero]
        cases payload with
        | list items =>
          refine .retainAll ?_
          rw [zero_add]
          exact engine.spares_copyList whole handle copies
        | tuple items =>
          refine .retainAll ?_
          rw [zero_add]
          exact engine.spares_copyTuple whole handle copies
        | object data =>
          refine engine.spares_copyInstance whole there (fun heap mine found spares asked => ?_)
            fun entry member => copies entry.2 (List.mem_map_of_mem member)
          rw [spares.special? whole live] at asked
          cases found with
          | none => rfl
          | some function => exact absurd asked (plain handle reaches function)
        | method data =>
          refine .bind (engine.spares_copyMethod whole there fun receiver bound =>
            copies receiver (Option.mem_toList.mpr bound)) fun copied _ => ?_
          exact .bind (.memorize whole handle copied) fun _ _ => .pure rfl trivial
        | _ => exact .bind (.retainValue _) fun _ _ => .pure (zero_add _) trivial
    | _ => exact .pure rfl trivial

/-! ### What is left of a copy -/

omit whole in
/-- A value that was copied as far as that was possible was there. -/
theorem isLive_of_deepCopy {value : Value} {host : Host} {outcome : Except Error Value × Memo}
    {after : World Code Host}
    (ended : engine.deepCopy value Memo.empty { heap := base, host } = .ok (outcome, after)) :
    ∀ handle, value = .ref handle → base.isLive handle := by
  rintro handle rfl
  obtain ⟨result, between, looked, going⟩ := Action.bind_eq_ok.mp ended
  have unrecorded : (Copying.recorded? handle).run Memo.empty { heap := base, host } =
      .ok ((.ok none, Memo.empty), { heap := base, host }) := Copying.recorded?_of_none rfl
  cases unrecorded.symm.trans looked
  obtain ⟨_, _, fetched, _⟩ := Action.bind_eq_ok.mp going
  obtain ⟨_, _, attempted, _⟩ := Action.bind_eq_ok.mp fetched
  obtain ⟨payload, _, asked, _⟩ := Action.bind_eq_ok.mp attempted
  exact Heap.isLive_of_payload? (base.read_eq_ok.mp (ask_eq_ok.mp asked).1)

omit whole in
/-- Values that are given up are gone, if there are enough rounds for each of them. -/
theorem exists_ok_releaseList {before : World Code Host} {values : List Value}
    (rest : before.heap.AtRest (outside + owned values))
    (enough : before.heap.edges.length < engine.rounds) :
    ∃ after, engine.releaseList values before = .ok ((), { before with heap := after }) ∧
      before.heap.Sheds after ∧ after.AtRest outside := by
  induction values generalizing before with
  | nil => exact ⟨before.heap, rfl, .refl _, rest.congr (add_zero outside)⟩
  | cons value others inductionHypothesis =>
    have single := value.card_owns_le_one
    have ordered : before.heap.AtRest (outside + owned others + value.owns) := rest.congr (by
      rw [owned_cons]
      abel)
    obtain ⟨_, between, first, sheds, still⟩ :=
      (engine.clears_release ordered).exists_ok (by omega)
    have fewer := sheds.forgets.length_edges_le rest.silent
    have remaining : ({ before with heap := between } : World Code Host).heap.AtRest
        (outside + owned others) := still
    obtain ⟨last, later, further, done⟩ := inductionHypothesis remaining (fewer.trans_lt enough)
    exact ⟨last, (Action.bind_of_ok first).trans later, sheds.trans further, done⟩

/-- Once the memo of a copy that has failed is given up and cycles are collected, every entry is what
it was, and has the count that it had. -/
theorem exists_cleanUp {value : Value}
    (plain : ∀ handle, base.Reaches value handle → ∀ function,
      base.special? (.ref handle) "__deepcopy__" ≠ .ok (some function))
    {host : Host} {error : Error} {memo : Memo} {after : World Code Host}
    (failed : engine.deepCopy value Memo.empty { heap := base, host } =
      .ok ((.error error, memo), after)) (enough : after.heap.edges.length < engine.rounds)
    (walk : Memo.Walk) :
    ∃ freed last, (do
        engine.releaseMemo memo walk
        engine.collect : Action Code Host Nat) after = .ok (freed, last) ∧
      ∀ handle, last.heap.occupant? handle = base.occupant? handle := by
  have live := engine.isLive_of_deepCopy failed
  have copies := engine.spares_copyWithin whole plain (maxDataDepth + 1) value fun handle same =>
    ⟨same ▸ .root handle, live handle same⟩
  obtain ⟨owning, _⟩ := copies Memo.empty 0 _ _ _
    (whole.spares.congr (by rw [Memo.owns_empty, add_zero, add_zero])) failed
  have owning : base.Spares outside (owned (walk.along memo)) after.heap := owning.congr (by
    rw [walk.owned_along]
    exact (add_zero _).trans (zero_add _))
  obtain ⟨given, released, sheds, rest⟩ := engine.exists_ok_releaseList owning.toAtRest enough
  have spares : base.Spares outside 0 given :=
    owning.shed whole sheds (rest.congr (add_zero outside).symm)
  have fewer := sheds.forgets.length_edges_le owning.silent
  have sound : ({ after with heap := given } : World Code Host).heap.Sound outside [] := rest.sound
  obtain ⟨removed, last, collected, collects⟩ := engine.exists_collects sound rest.idle rest.settled
    rest.silent (fewer.trans enough.le)
  have silent := collects.forgets.silent rest.silent
  have left : base.Spares outside 0 last := spares.shed whole collects.sheds
    (.congr ⟨collects.sound, silent, collects.idle, collects.settled⟩ (add_zero outside).symm)
  refine ⟨_, _, (Action.bind_of_ok released).trans collected,
    left.occupant? whole fun handle there => ?_⟩
  -- What the collection has left is sustained, and so it was there.
  have before : given.isLive handle := collects.forgets.isLive there
  refine spares.isLive_of_sustained whole (not_not.mp fun unreached => ?_)
  have gone := (collects.unreached handle).mpr ⟨before, unreached⟩
  rw [Heap.isLive_eq_payload?, collects.payloads, if_pos gone] at there
  cases there

end Engine

/-! ### Runs -/

namespace Reached

variable {held : Host → Multiset Handle} {hand : Multiset Handle}
  {bodies : Code → Arguments → Program Code Host} {config : Config}
  {state : World Code (Recorded Code Host)}

/-- A heap without callbacks is at rest at any moment of a run in which no release is in progress. -/
theorem heap_atRest (respectful : RespectfulBodies held bodies)
    (reached : Reached held bodies config hand state) (member : heap ∈ heaps state)
    (idle : heap.releasing = false) (silent : heap.Silent) (balanced : heap.Balanced outside) :
    heap.AtRest outside := by
  obtain ⟨⟨_, limbo, sound⟩, settled⟩ := reached.orderly respectful member
  have housed : heap.Housed [] := by
    rcases List.mem_cons.mp member with rfl | member
    · exact (reached.holds respectful).sound.housed
    · obtain ⟨moment, noted, rfl⟩ := List.mem_map.mp member
      have chronicle : Chronicle state.host.moments state.heap := (reached.holds respectful).fits
      obtain ⟨_, there, _, nothing⟩ := (chronicle.orderly moment noted).housed
      exact nothing idle ▸ there
  exact ⟨⟨balanced, sound.watched, housed, sound.formed⟩, silent, idle, settled idle⟩

/-- A deep copy that fails, for whatever reason, in a heap without unreachable entries and without
callbacks, at any moment of a run in which no release is in progress. Unless a class has a say in it,
the copy leaves nothing behind that is not collected once its memo is given up, in whatever order: the
entries are those from before, with the same payloads and the same counts. -/
theorem failed_copy_leaves_garbage {Other : Type} (respectful : RespectfulBodies held bodies)
    (reached : Reached held bodies config hand state) (member : heap ∈ heaps state)
    (idle : heap.releasing = false) (balanced : heap.Balanced outside)
    (tidy : ∀ handle, heap.isLive handle → heap.Sustained outside handle) (silent : heap.Silent)
    {value : Value} (plain : ∀ handle, heap.Reaches value handle → ∀ function,
      heap.special? (.ref handle) "__deepcopy__" ≠ .ok (some function))
    (engine : Engine Code Other) {host : Other} {error : Error} {memo : Memo}
    {after : World Code Other}
    (failed : engine.deepCopy value Memo.empty { heap, host } = .ok ((.error error, memo), after))
    (enough : after.heap.edges.length < engine.rounds) (walk : Memo.Walk) :
    ∃ freed last, (do
        engine.releaseMemo memo walk
        engine.collect : Action Code Other Nat) after = .ok (freed, last) ∧
      ∀ handle, last.heap.occupant? handle = heap.occupant? handle :=
  engine.exists_cleanUp ⟨reached.heap_atRest respectful member idle silent balanced, tidy⟩ plain failed
    enough walk

/-- Two lists that contain each other cannot be copied where one more entry is allowed. Half of the
copy is there then, and is gone after the clean-up. -/
theorem failed_copy_of_cycle : ∃ state : World Unit (Recorded Unit Unit),
    Reached (fun _ => 0) idleBodies (Config.standard.set (.maxAllocations 3)) {0} state ∧
    ∃ error memo after,
      (bodiesEngine idleBodies 8).deepCopy (.ref 0) Memo.empty state =
        .ok ((.error error, memo), after) ∧ after.heap.isLive 2 ∧
      ∀ walk : Memo.Walk, ∃ freed last, (do
          (bodiesEngine idleBodies 8).releaseMemo memo walk
          (bodiesEngine idleBodies 8).collect : Action Unit (Recorded Unit Unit) Nat) after =
            .ok (freed, last) ∧
        ∀ handle, last.heap.occupant? handle = state.heap.occupant? handle := by
  let config := Config.standard.set (.maxAllocations 3)
  have first : Reached (fun _ : Unit => 0) idleBodies config {0} _ :=
    .perform (.newList []) 4 (.ok (.ref 0)) (.start () rfl) (fun _ member => member) rfl
  have shared : Reached (fun _ : Unit => 0) idleBodies config ({0} + {0}) _ :=
    .perform (.share (.ref 0)) 4 () first (fun _ member => member) rfl
  have second : Reached (fun _ : Unit => 0) idleBodies config ({0} + {1}) _ :=
    .perform (.newList [.ref 0]) 4 (.ok (.ref 1)) shared
      (fun _ member => absurd member (Multiset.notMem_zero _)) rfl
  have closed : Reached (fun _ : Unit => 0) idleBodies config {0} _ :=
    .perform (.append (.ref 0) (.ref 1)) 4 (.ok ()) (second.congr (add_comm _ _))
      (fun _ member => member) rfl
  have cleans {state : World Unit (Recorded Unit Unit)}
      (reached : Reached (fun _ => 0) idleBodies config {0} state)
      (idle : state.heap.releasing = false) (size : state.heap.slots.size = 2)
      (outer : state.heap.payload? 0 = some (.list [.ref 1]))
      (inner : state.heap.payload? 1 = some (.list [.ref 0]))
      (failed : ((bodiesEngine idleBodies 8).deepCopy (.ref 0) Memo.empty state).map
        (fun result => (result.1.1.isOk, result.2.heap.isLive 2, result.2.heap.edges.length)) =
          .ok (false, true, 2)) :
      ∃ error memo after, (bodiesEngine idleBodies 8).deepCopy (.ref 0) Memo.empty state =
        .ok ((.error error, memo), after) ∧ after.heap.isLive 2 ∧
      ∀ walk : Memo.Walk, ∃ freed last, (do
          (bodiesEngine idleBodies 8).releaseMemo memo walk
          (bodiesEngine idleBodies 8).collect : Action Unit (Recorded Unit Unit) Nat) after =
            .ok (freed, last) ∧
        ∀ handle, last.heap.occupant? handle = state.heap.occupant? handle := by
    have known (handle : Handle) (payload : Payload Unit)
        (held : state.heap.payload? handle = some payload) : ∃ item,
          payload = .list [.ref item] ∧ (handle = 0 ∨ handle = 1) := by
      obtain ⟨entry, occupied, _⟩ := state.heap.payload?_eq_some.mp held
      have inside := (state.heap.lt_size_of_occupant? occupied).trans_eq size
      rcases Nat.le_one_iff_eq_zero_or_eq_one.mp (Nat.le_of_lt_succ inside) with rfl | rfl
      · exact ⟨1, Option.some.inj (held.symm.trans outer), Or.inl rfl⟩
      · exact ⟨0, Option.some.inj (held.symm.trans inner), Or.inr rfl⟩
    cases ended : (bodiesEngine idleBodies 8).deepCopy (.ref 0) Memo.empty state with
    | error fault =>
      rw [ended] at failed
      cases failed
    | ok result =>
      obtain ⟨⟨outcome, memo⟩, after⟩ := result
      rw [ended] at failed
      obtain ⟨refused, live, edges⟩ : outcome.isOk = false ∧ after.heap.isLive 2 = true ∧
        after.heap.edges.length = 2 := by simpa [Except.map] using failed
      cases outcome with
      | ok copied => cases refused
      | error error =>
        refine ⟨error, memo, after, rfl, live, failed_copy_leaves_garbage respectful_idleBodies reached
          List.mem_cons_self idle (reached.balanced respectful_idleBodies) (fun handle there => ?_)
          (fun weakref => ?_) (fun handle _ function special => ?_) (bodiesEngine idleBodies 8) ended
          (edges.trans_lt (by decide))⟩
        · have root : state.heap.Sustained ({0} + 0) 0 := .of_mem (by decide)
          obtain ⟨payload, held⟩ := Heap.exists_payload?_of_isLive there
          rcases (known handle payload held).choose_spec.2 with rfl | rfl
          · exact root
          · exact root.of_contents outer (by decide)
        · unfold Heap.callback?
          cases held : state.heap.payload? weakref with
          | none => rfl
          | some payload =>
            obtain ⟨_, rfl, _⟩ := known weakref payload held
            rfl
        · obtain ⟨type, asked, found⟩ := Heap.bind_eq_ok.mp special
          obtain ⟨_, read, answered⟩ := Heap.bind_eq_ok.mp asked
          obtain ⟨payload, looked, same⟩ := Heap.bind_eq_ok.mp read
          obtain ⟨item, rfl, _⟩ := known handle payload (state.heap.read_eq_ok.mp looked)
          cases same
          cases answered
          cases found
  exact ⟨_, closed, cleans closed rfl rfl rfl rfl (by decide +kernel)⟩

end Reached

end ObjectHeap
