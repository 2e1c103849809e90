/-
This file establishes that deep copies keep every ledger, with or without a memo of their own, and
that what they record was copied in their course.
-/

import ObjectHeap.Proofs.Memos

namespace ObjectHeap

variable {Code Host : Type} {ledger : Ledger Code Host} {scene : Scene} {before : World Code Host}
  {lost : Multiset Handle} {α : Type}

/-! ### Special names -/

/-- What a class finds under a special name is a function. -/
theorem Heap.special?_eq_some {Code : Type} {heap : Heap Code} {value : Value} {name : String}
    {function : Handle} (found : heap.special? value name = .ok (some function)) :
    ∃ data, heap.payload? function = some (.function data) := by
  obtain ⟨type, _, found⟩ := Heap.bind_eq_ok.mp found
  cases type with
  | none => cases found
  | some type =>
    obtain ⟨member, _, found⟩ := Heap.bind_eq_ok.mp found
    cases member with
    | none => cases found
    | some member =>
      cases member with
      | ref handle =>
        obtain ⟨payload, read, found⟩ := Heap.bind_eq_ok.mp found
        cases payload <;> cases found
        exact ⟨_, heap.read_eq_ok.mp read⟩
      | _ => cases found

/-- What a class finds under a special name depends on payloads alone. -/
theorem Heap.special?_congr {Code : Type} {before after : Heap Code}
    (same : ∀ handle, after.payload? handle = before.payload? handle) (value : Value) (name : String) :
    after.special? value name = before.special? value name := by
  have reads : after.read = before.read := by
    funext handle
    rw [read, read, same]
  have along (types : List Handle) : after.findAlong name types = before.findAlong name types := by
    induction types with
    | nil => rfl
    | cons type rest inductionHypothesis => simp only [findAlong, reads, inductionHypothesis]
  have values : after.readValue = before.readValue := by
    funext value
    cases value <;> simp only [readValue, reads]
  simp only [special?, instanceType?, findFunction, find, reads, values, along]

namespace Engine

variable {engine : Engine Code Host}

/-! ### What is created is not nil -/

section

variable {after : World Code Host} {value : Value}

theorem allocate_ne_nil {payload : Payload Code}
    (ended : (engine.allocate payload).run before = .ok (.ok value, after)) : value ≠ .nil := by
  obtain ⟨refusal, between, _, rest⟩ := Attempt.act_bind_eq_ok.mp ended
  cases refusal <;> cases rest
  exact nofun

theorem newInstance_ne_nil {type : Value}
    (ended : (engine.newInstance type).run before = .ok (.ok value, after)) : value ≠ .nil := by
  obtain ⟨found, _, rest⟩ := Attempt.ask_bind_eq_ok.mp ended
  cases found with
  | none =>
    obtain ⟨_, _, refused⟩ := Attempt.ask_bind_eq_ok.mp rest
    cases refused
  | some handle =>
    obtain ⟨_, _, _, allocated⟩ := Attempt.act_bind_eq_ok.mp rest
    exact allocate_ne_nil allocated

theorem allocateMethod_ne_nil {function : Handle} {receiver owner : Option Value}
    (ended : (engine.allocateMethod function receiver owner).run before = .ok (.ok value, after)) :
    value ≠ .nil := by
  obtain ⟨_, _, _, rest⟩ := Attempt.act_bind_eq_ok.mp ended
  obtain ⟨refusal, between, _, rest⟩ := Attempt.act_bind_eq_ok.mp rest
  cases refusal with
  | some _ =>
    obtain ⟨_, _, refused⟩ := Attempt.ask_bind_eq_ok.mp rest
    cases refused
  | none =>
    cases rest
    exact nofun

end

/-! ### Copies -/

/-- A way to copy values leaves the world in order and extends the memo as long as others hold what
is copied. Only nil is copied as nil, unless there has been reason. -/
def CopiesLent (ledger : Ledger Code Host) (engine : Engine Code Host)
    (copy : Value → Copying Code Host Value) : Prop :=
  ∀ value scene memo before, value.owns ⊆ scene.frame → ledger.Holds scene before memo.owns →
    ledger.Trusts memo before.host →
    (copy value).Gives ledger engine ∅ scene memo before (value = .nil)

section

variable {copy : Value → Copying Code Host Value} {spared : Set Handle} {blank : Prop}

/-- What is copied is held until then. -/
theorem Keeps.gives_copyHeld (keeps : engine.Keeps ledger)
    (copies : CopiesLent ledger engine copy) {value : Value} {memo : Memo}
    (holds : ledger.Holds scene before (value.owns + memo.owns))
    (trusts : ledger.Trusts memo before.host) :
    ((copy value).ensuring (engine.release value)).Gives ledger engine spared scene memo before
      (value = .nil) := by
  have gives := copies value (scene.framing value.owns) memo before
    (fun _ member => Multiset.mem_add.mpr (Or.inr member)) (Ledger.Holds.framing_iff.mpr holds) trusts
  refine ⟨(gives.notes.mono (Set.empty_subset spared)).unframed.ensuring (keeps.release value),
    fun later after ended => ?_⟩
  obtain ⟨between, copied, released⟩ := Copying.ensuring_eq_ok ended
  have done := (gives.notes _ _ copied).unframed
  obtain ⟨_, passes⟩ := (keeps.release value).spend later.owns scene between
    (done.holds.congr (by simp [outcomeOwns, add_comm])) _ _ released
  exact (gives.firm later between copied).imp_right passes.story.hollows

theorem Keeps.copyHeld (keeps : engine.Keeps ledger)
    (copies : CopiesLent ledger engine copy) (value : Value) :
    ((copy value).ensuring (engine.release value)).Minds ledger engine spared value.owns Value.owns 0 :=
  fun _ _ _ holds trusts => (keeps.gives_copyHeld copies holds trusts).notes

/-- An item is copied to a list. -/
theorem Keeps.copyItemTo (keeps : engine.Keeps ledger) (wild : ¬ ledger.calm)
    (copies : CopiesLent ledger engine copy) (list item : Value) :
    Copying.Minds ledger engine spared item.owns (do
      let copied ← (copy item).ensuring (engine.release item)
      engine.append list copied : Copying Code Host Unit) (fun _ => 0) 0 :=
  .bind (keeps.copyHeld copies item) fun copied => .ofAttempt (keeps.append wild list copied)

/-- The value of an attribute is copied to an instance. -/
theorem Keeps.copyAttributeTo (keeps : engine.Keeps ledger) (wild : ¬ ledger.calm)
    (copies : CopiesLent ledger engine copy) (object : Value) (name : String) (value : Value) :
    Copying.Minds ledger engine spared value.owns (do
      let copied ← (copy value).ensuring (engine.release value)
      engine.setAttribute object name copied : Copying Code Host Unit) (fun _ => 0) 0 :=
  .bind (keeps.copyHeld copies value) fun copied =>
    .ofAttempt (keeps.setAttribute wild object name copied)

theorem Keeps.copyInto (keeps : engine.Keeps ledger) (wild : ¬ ledger.calm)
    (copies : CopiesLent ledger engine copy) (list : Value)
    (items : List Value) :
    (engine.copyInto copy list items).Minds ledger engine spared (list.owns + owned items)
      (fun _ => list.owns) 0 := by
  induction items with
  | nil => exact .pure () (add_zero _)
  | cons item items inductionHypothesis =>
    have givenUp : Action.Keeps ledger (list.owns + owned items) (do
        engine.releaseList items
        engine.release list) fun _ => 0 :=
      .bind ((keeps.releaseList items).spend list.owns) fun _ => keeps.release list
    exact .bind (((keeps.copyItemTo wild copies list item).guarding givenUp).congr
      (by rw [owned_cons]; abel)) fun _ => inductionHypothesis.congr (add_zero _).symm

theorem Keeps.gives_copyList (keeps : engine.Keeps ledger) (wild : ¬ ledger.calm)
    (copies : CopiesLent ledger engine copy) {handle : Handle} (exempt : handle ∈ spared)
    {items : List Value} {memo : Memo} (holds : ledger.Holds scene before (owned items + memo.owns))
    (trusts : ledger.Trusts memo before.host) :
    (engine.copyList copy handle items).Gives ledger engine spared scene memo before blank := by
  have created : ((Copying.ofAttempt (engine.newList [])).onError (engine.releaseList items)).Minds
      ledger engine spared (owned items + 0) (fun list => owned items + list.owns) 0 :=
    .guarding (.ofAttempt (keeps.newList [])) (keeps.releaseList items)
  refine .bind (created.congr (add_zero _) memo scene before holds trusts) fun list _ _ ran made => ?_
  have firm := allocate_ne_nil (Copying.ofAttempt_eq_ok (Copying.onError_eq_ok ran)).1
  refine .bind (keeps.memorize exempt (fun nil => absurd nil firm) _ scene _ made.holds
    made.trusts) fun _ _ _ _ noted => ?_
  refine .bind ((keeps.copyInto wild copies list items).congr (add_comm _ _) _ scene _ noted.holds
    noted.trusts) fun _ _ _ _ filled => ?_
  exact .pure filled.holds filled.trusts fun nil => absurd nil firm

theorem Keeps.copyItems (keeps : engine.Keeps ledger)
    (copies : CopiesLent ledger engine copy) (done items : List Value) :
    (engine.copyItems copy done items).Minds ledger engine spared (owned done + owned items) owned
      0 := by
  induction items generalizing done with
  | nil => exact .pure done (add_zero _)
  | cons item items inductionHypothesis =>
    have givenUp : Action.Keeps ledger (owned done + owned items) (do
        engine.releaseList items
        engine.releaseList done) fun _ => 0 :=
      .bind ((keeps.releaseList items).spend (owned done)) fun _ => keeps.releaseList done
    refine .bind (((keeps.copyHeld copies item).guarding givenUp).congr (by rw [owned_cons]; abel))
      fun copied => (inductionHypothesis (done ++ [copied])).congr ?_
    rw [owned_append, owned_cons, owned_nil]
    abel

theorem Keeps.gives_copyTuple (keeps : engine.Keeps ledger)
    (copies : CopiesLent ledger engine copy) {handle : Handle} (exempt : handle ∈ spared)
    {items : List Value} {memo : Memo} (holds : ledger.Holds scene before (owned items + memo.owns))
    (trusts : ledger.Trusts memo before.host) :
    (engine.copyTuple copy handle items).Gives ledger engine spared scene memo before blank := by
  refine .bind ((keeps.copyItems copies [] items).congr (zero_add _) memo scene before holds trusts)
    fun done _ _ _ copied => ?_
  refine .bind (Copying.minds_recorded? handle _ scene _ copied.holds copied.trusts)
    fun recorded noted _ ran looked => ?_
  cases recorded with
  | some existing =>
    obtain ⟨known, rfl, _⟩ := Copying.recorded?_eq_ok ran
    have spent : (Copying.ofAttempt (Attempt.ofAction (engine.releaseList done))).Minds ledger engine
        spared (existing.owns + owned done) (fun _ => existing.owns) 0 :=
      .ofAction ((keeps.releaseList done).spend existing.owns)
    refine .bind (spent _ scene _ (looked.holds.congr (by simp [outcomeOwns, add_comm])) looked.trusts)
      fun _ _ _ _ left => .pure left.holds left.trusts ?_
    rintro rfl
    exact Or.inr (left.passes.story.hollows (looked.trusts handle known.symm))
  | none =>
    have created : (Copying.ofAttempt (engine.newTuple done)).Minds ledger engine spared (owned done)
        Value.owns 0 := .ofAttempt (keeps.newTuple done)
    refine .bind (created _ scene _ (looked.holds.congr (by simp [outcomeOwns])) looked.trusts)
      fun tuple _ _ ran made => ?_
    have firm := allocate_ne_nil (Copying.ofAttempt_eq_ok ran).1
    refine .bind (keeps.memorize exempt (fun nil => absurd nil firm) _ scene _ made.holds
      made.trusts) fun _ _ _ _ noted => ?_
    exact .pure noted.holds noted.trusts fun nil => absurd nil firm

theorem Keeps.copyAttributes (keeps : engine.Keeps ledger) (wild : ¬ ledger.calm)
    (copies : CopiesLent ledger engine copy) (object : Value)
    (attributes : List (String × Value)) :
    (engine.copyAttributes copy object attributes).Minds ledger engine spared
      (object.owns + owned (attributes.map Prod.snd)) (fun _ => object.owns) 0 := by
  induction attributes with
  | nil => exact .pure () (add_zero _)
  | cons entry attributes inductionHypothesis =>
    obtain ⟨name, value⟩ := entry
    have givenUp : Action.Keeps ledger (object.owns + owned (attributes.map Prod.snd)) (do
        engine.releaseList (attributes.map Prod.snd)
        engine.release object) fun _ => 0 :=
      .bind ((keeps.releaseList _).spend object.owns) fun _ => keeps.release object
    exact .bind (((keeps.copyAttributeTo wild copies object name value).guarding givenUp).congr
      (by rw [List.map_cons, owned_cons]; abel)) fun _ => inductionHypothesis.congr (add_zero _).symm

/-- There is reason to bind methods to nil once an instance was copied as nil. -/
theorem Keeps.hollows_of_special (keeps : engine.Keeps ledger) {value : Value} {function : Handle}
    {after : World Code Host} (holds : ledger.Holds scene before value.owns)
    (asked : before.heap.special? value "__deepcopy__" = .ok (some function))
    (ended : (engine.call (.ref function) (Arguments.ofList [value, .nil])).run before =
      .ok (.ok .nil, after)) : ledger.conduct.hollows after.host := by
  obtain ⟨data, held⟩ := Heap.special?_eq_some asked
  obtain ⟨last, ran, rfl⟩ := call_function_eq_ok held ended
  let deeper : Heap Code := { before.heap with callDepth := before.heap.callDepth + 1 }
  have same (other : Handle) : deeper.payload? other = before.heap.payload? other := rfl
  have begins : (modifyHeap fun heap : Heap Code => { heap with callDepth := heap.callDepth + 1 } :
      Action Code Host Unit).Keeps ledger 0 fun _ => 0 :=
    .bookkeeping (by constructor <;> intro heap <;> rfl)
  obtain ⟨begun, _⟩ := begins.gain value.owns _ _ holds _ _ rfl
  exact keeps.hollows _ { before with heap := deeper } last value (begun.congr (add_zero _))
    ⟨function, data, (Heap.special?_congr same value _).trans asked, (same function).trans held, ran⟩

/-- An instance is copied as its class says, or else attribute by attribute. -/
theorem Keeps.gives_copyInstance (keeps : engine.Keeps ledger) (wild : ¬ ledger.calm)
    (copies : CopiesLent ledger engine copy) {value : Value}
    {handle : Handle} (exempt : handle ∈ spared) (type : Handle) {memo : Memo}
    (holds : ledger.Holds scene before (0 + memo.owns)) (trusts : ledger.Trusts memo before.host) :
    (engine.copyInstance copy value handle type).Gives ledger engine spared scene memo before blank := by
  refine .ask fun found asked => ?_
  cases found with
  | some function =>
    refine .bind (Copying.Minds.ofAction ((Action.Keeps.retain function).gain 0) memo scene before holds
      trusts) fun _ first heldFirst ran taken => ?_
    obtain ⟨retained, rfl⟩ := Copying.ofAction_eq_ok ran
    refine .bind (Copying.Minds.retainValue first scene heldFirst taken.holds taken.trusts)
      fun _ second heldSecond ran shared => ?_
    obtain ⟨retainedValue, rfl⟩ := Copying.retainValue_eq_ok ran
    have called : ((engine.call (.ref function) (Arguments.ofList [value, .nil])).ensuring
        (engine.release (.ref function))).Keeps ledger (0 + {function} + value.owns) Value.owns 0 :=
      ((keeps.call _ _).ensuring (keeps.release _)).congr (by simp [add_comm])
    refine .bind (Copying.Minds.ofAttempt called second scene heldSecond shared.holds shared.trusts)
      fun copied third after ran done => ?_
    obtain ⟨between, answered, released⟩ := Attempt.ensuring_eq_ok.mp (Copying.ofAttempt_eq_ok ran).1
    have framed : ledger.Holds (scene.framing ({function} + second.owns)) heldSecond value.owns :=
      Ledger.Holds.framing_iff.mpr (shared.holds.congr (by simp [outcomeOwns]; abel))
    obtain ⟨left, _⟩ := keeps.call (.ref function) _ _ _ (framed.congr (by simp)) _ _ answered
    obtain ⟨_, passes⟩ := (keeps.release (.ref function)).spend _ scene between
      ((Ledger.Holds.framing_iff.mp left).congr ((add_assoc _ _ _).trans (add_comm _ _))) _ _ released
    have firm (nil : copied = .nil) : ledger.conduct.hollows after.host := by
      subst nil
      have same (other : Handle) : heldSecond.heap.payload? other = before.heap.payload? other :=
        (payload?_of_retainValue retainedValue other).trans (payload?_of_retain retained other)
      exact passes.story.hollows (keeps.hollows_of_special framed
        ((Heap.special?_congr same value _).trans asked) answered)
    refine .bind (keeps.notes_memorize exempt done.holds done.trusts firm) fun _ _ _ _ noted => ?_
    exact .pure noted.holds noted.trusts fun nil => Or.inr (noted.passes.story.hollows (firm nil))
  | none =>
    refine .bind (Copying.Minds.ofAttempt (keeps.newInstance _) memo scene before holds trusts)
      fun object _ _ ran made => ?_
    have firm := newInstance_ne_nil (Copying.ofAttempt_eq_ok ran).1
    refine .bind (keeps.memorize exempt (fun nil => absurd nil firm) _ scene _ made.holds
      made.trusts) fun _ _ _ _ noted => ?_
    refine .bind (Copying.minds_retainAttributes handle _ scene _ noted.holds noted.trusts)
      fun attributes _ _ _ taken => ?_
    refine .bind (keeps.copyAttributes wild copies object attributes _ scene _ taken.holds taken.trusts)
      fun _ _ _ _ filled => ?_
    exact .pure filled.holds filled.trusts fun nil => absurd nil firm

/-- While the receiver of a method is copied, the method itself holds its function. A copy is bound
to nil only if the method is, or if there has been reason. -/
theorem Keeps.notes_copyMethod (keeps : engine.Keeps ledger) (copies : CopiesLent ledger engine copy)
    {handle : Handle} {memo : Memo} (here : handle ∈ scene.frame)
    (holds : ledger.Holds scene before memo.owns) (trusts : ledger.Trusts memo before.host) :
    (engine.copyMethod copy handle).Notes ledger engine spared scene memo before Value.owns 0 := by
  refine .ask fun data asked => ?_
  have method := Heap.method_eq_ok.mp asked
  have grounded := holds.sound.formed.grounded handle data method
  refine .retainAll (holds.congr (zero_add _).symm) trusts fun between taken trusted same => ?_
  have still : between.heap.payload? handle = some (.method data) := (same handle).trans method
  rw [Method.parts, owned_append] at taken
  cases bound : data.receiver with
  | none =>
    rw [bound] at taken
    obtain ⟨function, there⟩ := taken.sound.exists_function still
    exact .ofAttempt (taken.congr (by rw [zero_add])) trusted fun holds =>
      keeps.allocateMethod there (grounded.remade rfl fun _ => bound)
        (.of_unbound (Option.some_ne_none _).symm) holds
  | some receiver =>
    rw [bound] at taken
    have owns : 0 + (owned (some receiver).toList + owned data.owner.toList) + memo.owns =
        owned data.owner.toList + receiver.owns + memo.owns := by
      simp only [Option.toList_some, owned_cons, owned_nil]
      abel
    have taken := taken.congr owns
    refine .bind ((keeps.copyHeld copies receiver).guarding (keeps.release? data.owner) memo scene between
      taken trusted) fun copied noted last ran done => ?_
    have firm (nil : copied = .nil) : receiver = .nil ∨ ledger.conduct.hollows last.host :=
      have gives : ((copy receiver).ensuring (engine.release receiver)).Gives ledger engine spared
          (scene.framing (owned data.owner.toList)) memo between (receiver = .nil) :=
        keeps.gives_copyHeld copies (Ledger.Holds.framing_iff.mpr (taken.congr (add_assoc _ _ _))) trusted
      gives.firm noted last (nil ▸ Copying.onError_eq_ok ran)
    have live := done.holds.isLive (Multiset.mem_add.mpr (Or.inl here))
    obtain ⟨later, found, made⟩ := done.passes.evolves.method (done.passes.kept handle here) live still
    obtain ⟨function, there⟩ := done.holds.sound.exists_function found
    rw [made] at there
    refine .ofAttempt (done.holds.congr (congrArg (· + noted.owns) ?_)) done.trusts fun holds =>
      keeps.allocateMethod there (grounded.remade rfl fun missing => absurd missing (Option.some_ne_none _))
        (fun nil => ?_) holds
    · simp only [outcomeOwns, Option.toList_some, owned_cons, owned_nil]
      abel
    · rcases firm (Option.some.inj nil) with rfl | reason
      · refine Or.inr ⟨handle, Multiset.mem_add.mpr (Or.inl here), ?_⟩
        exact done.passes.toCarries.receiver? here live
          (Option.bind_eq_some_iff.mpr ⟨.method data, still, bound⟩)
      · exact Or.inl reason

end

theorem copyMethod_ne_nil {handle : Handle} {memo later : Memo} {after : World Code Host}
    {copy : Value → Copying Code Host Value} {value : Value}
    (ended : (engine.copyMethod copy handle).run memo before = .ok ((.ok value, later), after)) :
    value ≠ .nil := by
  obtain ⟨data, _, ended⟩ := Copying.ask_bind_eq_ok ended
  obtain ⟨_, _, _, _, ended⟩ := Copying.bind_eq_ok ended
  split at ended
  · obtain ⟨_, _, _, _, ended⟩ := Copying.bind_eq_ok ended
    exact allocateMethod_ne_nil (Copying.ofAttempt_eq_ok ended).1
  · exact allocateMethod_ne_nil (Copying.ofAttempt_eq_ok ended).1

/-- Copying keeps every ledger at any depth, and records no more than what it copies. -/
theorem Keeps.copyWithin (keeps : engine.Keeps ledger) (wild : ¬ ledger.calm) (levels : Nat) :
    CopiesLent ledger engine (engine.copyWithin levels) := by
  induction levels with
  | zero =>
    intro value scene memo before lent holds trusts
    cases value with
    | ref handle =>
      refine .ofFresh (lent (by simp)) holds trusts rfl fun noted between holds trusts => ?_
      refine ⟨.ofAttempt (holds.congr (zero_add _).symm) trusts fun holds => .refuse holds, ?_⟩
      intro later after ended
      cases ended
    | _ => exact .pure (holds.congr (zero_add _).symm) trusts Or.inl
  | succ levels inductionHypothesis =>
    intro value scene memo before lent holds trusts
    cases value with
    | ref handle =>
      have here : handle ∈ scene.frame := lent (by simp)
      have exempt : handle ∈ ({handle} : Set Handle) := rfl
      -- While the entry is copied its own slot is exempt from being spared.
      refine .ofFresh here holds trusts rfl fun noted between holds trusts => ?_
      refine .ask fun payload _ => ?_
      have holds := holds.congr (zero_add _).symm
      cases payload with
      | list items =>
        refine .bind (Copying.Minds.ofAction ((Action.Keeps.retainAll items).gain 0) _ _ _ holds trusts)
          fun _ _ _ _ taken => ?_
        exact keeps.gives_copyList wild inductionHypothesis exempt
          (taken.holds.congr (congrArg (· + _) (zero_add _))) taken.trusts
      | tuple items =>
        refine .bind (Copying.Minds.ofAction ((Action.Keeps.retainAll items).gain 0) _ _ _ holds trusts)
          fun _ _ _ _ taken => ?_
        exact keeps.gives_copyTuple inductionHypothesis exempt
          (taken.holds.congr (congrArg (· + _) (zero_add _))) taken.trusts
      | object data =>
        exact keeps.gives_copyInstance wild inductionHypothesis exempt data.type holds trusts
      | method data =>
        refine .bind (keeps.notes_copyMethod inductionHypothesis here (holds.congr (zero_add _)) trusts)
          fun copied noted between ran done => ?_
        have firm := copyMethod_ne_nil ran
        refine .bind (keeps.memorize exempt (fun nil => absurd nil firm) _ scene _ done.holds
          done.trusts) fun _ _ _ _ noted => ?_
        exact .pure noted.holds noted.trusts fun nil => absurd nil firm
      | _ =>
        refine .bind (Copying.Minds.retainValue noted scene between holds trusts) fun _ _ _ _ shared => ?_
        exact .pure (shared.holds.congr (congrArg (· + _) (zero_add _))) shared.trusts nofun
    | _ => exact .pure (holds.congr (zero_add _).symm) trusts Or.inl

theorem Keeps.yields_deepCopy (keeps : engine.Keeps ledger) (wild : ¬ ledger.calm) {value : Value}
    {memo : Memo} (lent : value.owns ⊆ scene.frame) (holds : ledger.Holds scene before memo.owns)
    (trusts : ledger.Trusts memo before.host) :
    (engine.deepCopy value memo).Yields ledger scene before
      fun result => outcomeOwns Value.owns 0 result.1 + result.2.owns :=
  fun result after ended =>
    have noted := (keeps.copyWithin wild _ value scene memo before lent holds trusts).notes result after ended
    ⟨noted.holds, noted.passes⟩

theorem Keeps.releaseMemo (keeps : engine.Keeps ledger) (memo : Memo) (walk : Memo.Walk) :
    (engine.releaseMemo memo walk).Keeps ledger memo.owns fun _ => 0 :=
  (keeps.releaseList _).congr (walk.owned_along memo)

/-- A memo that is made for one copy is given up after it. -/
theorem Keeps.yields_withFreshMemo (keeps : engine.Keeps ledger) {copying : Copying Code Host α}
    {owns : α → Multiset Handle} {spared : Set Handle}
    (copied : copying.Notes ledger engine spared scene Memo.empty before owns lost) (walk : Memo.Walk) :
    (engine.withFreshMemo copying walk).Yields ledger scene before owns lost := by
  have yields : (copying.run Memo.empty).Yields ledger scene before
      fun result => outcomeOwns owns lost result.1 + result.2.owns :=
    fun result after ended => ⟨(copied result after ended).holds, (copied result after ended).passes⟩
  refine Action.Yields.bind yields fun result between holds _ => ?_
  exact Action.Yields.bind ((keeps.releaseMemo result.2 walk).spend _ scene between holds)
    fun _ after done _ => .pure done

/-! ### Calls of attributes -/

theorem Keeps.yields_copyOf (keeps : engine.Keeps ledger) (wild : ¬ ledger.calm) {method : Handle}
    {arguments : Arguments} (walk : Memo.Walk) (here : method ∈ scene.frame)
    (holds : ledger.Holds scene before arguments.owns) :
    (engine.copyOf method arguments walk).Yields ledger scene before Value.owns 0 := by
  refine .bind (keeps.exactlyOne _ arguments scene before holds) fun memo between holds _ => ?_
  split
  · rename_i absent
    cases memo with
    | nil =>
      have copied : (engine.copyMethod (engine.copyWithin (maxDataDepth + 1)) method).Notes ledger engine ∅
          scene Memo.empty between Value.owns 0 :=
        keeps.notes_copyMethod (keeps.copyWithin wild _) here holds (.empty ledger _)
      exact keeps.yields_withFreshMemo copied walk
    | _ => cases absent
  · have refused : (do
        let type ← ask fun heap => heap.typeName memo
        engine.release memo
        Attempt.refuse (.memoGiven type) : Attempt Code Host Value).Keeps ledger memo.owns Value.owns 0 :=
      .ask fun _ => .act (keeps.release memo) fun _ => .refuse _
    exact refused scene between holds

theorem Keeps.yields_callAttribute (keeps : engine.Keeps ledger) (wild : ¬ ledger.calm)
    {value : Value} {name : String} {arguments : Arguments} (walk : Memo.Walk)
    (lent : value.owns ⊆ scene.frame) (holds : ledger.Holds scene before arguments.owns) :
    (engine.callAttribute value name arguments walk).Yields ledger scene before Value.owns 0 := by
  refine .ask fun found asked => ?_
  cases found with
  | none => exact keeps.callRead value name arguments scene before holds
  | some method =>
    dsimp only
    split
    · split
      · exact keeps.refuseArguments arguments _ scene before holds
      · rw [arguments.owns_of_count_eq_zero (by omega)] at holds
        exact keeps_reduce value scene before holds
    · exact keeps.reduceBy value arguments scene before holds
    · rw [(Heap.method?_eq_some.mp asked).1] at lent
      exact keeps.yields_copyOf wild walk (lent (by simp)) holds
    · exact keeps.callRead value name arguments scene before holds

end Engine

end ObjectHeap
