/-
This file sets up rules for deep copies. A memo owns the copies that it records, so that a copy
takes along what the memo owns and leaves behind what the memo owns then. Beside that, the rules
follow where the entries of a memo come from: a memo only ever records what was copied while the
original was in its slot, except that a slot may be spared as long as its own copy is not finished.
The rules are those of attempts.
-/

import ObjectHeap.Proofs.Operations

namespace ObjectHeap

variable {Code Host : Type} {ledger : Ledger Code Host} {scene : Scene} {before : World Code Host}
  {pre mine rest lost : Multiset Handle} {α β : Type}

/-! ### Copies that succeed -/

namespace Copying

variable {copying : Copying Code Host α} {next : α → Copying Code Host β}
  {after : World Code Host} {memo later : Memo}

/-- A copy that succeeded came through both of its parts. -/
theorem bind_eq_ok {answer : β}
    (ended : (copying >>= next).run memo before = .ok ((.ok answer, later), after)) :
    ∃ found between middle, copying.run memo before = .ok ((.ok found, between), middle) ∧
      (next found).run between middle = .ok ((.ok answer, later), after) := by
  obtain ⟨⟨outcome, between⟩, middle, first, rest⟩ := Action.bind_eq_ok.mp ended
  cases outcome with
  | ok found => exact ⟨found, between, middle, first, rest⟩
  | error error => cases rest

theorem ofAttempt_eq_ok {attempt : Attempt Code Host α} {answer : α}
    (ended : (ofAttempt attempt).run memo before = .ok ((.ok answer, later), after)) :
    attempt.run before = .ok (.ok answer, after) ∧ later = memo := by
  obtain ⟨outcome, middle, first, rest⟩ := Action.bind_eq_ok.mp ended
  cases rest
  exact ⟨first, rfl⟩

theorem ofAction_eq_ok {action : Action Code Host α} {answer : α}
    (ended : (ofAttempt (Attempt.ofAction action)).run memo before =
      .ok ((.ok answer, later), after)) :
    action before = .ok (answer, after) ∧ later = memo := by
  obtain ⟨first, same⟩ := ofAttempt_eq_ok ended
  obtain ⟨found, middle, ran, rest⟩ := Action.bind_eq_ok.mp first
  cases rest
  exact ⟨ran, same⟩

theorem ask_bind_eq_ok {question : Heap Code → Except Fault α} {answer : β}
    (ended : (ask question >>= next).run memo before = .ok ((.ok answer, later), after)) :
    ∃ found, question before.heap = .ok found ∧
      (next found).run memo before = .ok ((.ok answer, later), after) := by
  obtain ⟨found, between, middle, asked, rest⟩ := bind_eq_ok ended
  obtain ⟨answered, rfl⟩ := ofAction_eq_ok asked
  obtain ⟨known, rfl⟩ := ask_eq_ok.mp answered
  exact ⟨found, known, rest⟩

theorem run_memo_bind {next : Memo → Copying Code Host β} :
    (Copying.memo >>= next).run memo before = (next memo).run memo before := rfl

theorem memo_bind_eq_ok {next : Memo → Copying Code Host β} {answer : β}
    (ended : (Copying.memo >>= next).run memo before = .ok ((.ok answer, later), after)) :
    (next memo).run memo before = .ok ((.ok answer, later), after) := ended

theorem retainValue_eq_ok {value : Value} {answer : Unit}
    (ended : (retainValue value : Copying Code Host Unit).run memo before =
      .ok ((.ok answer, later), after)) :
    (retainValue value : Action Code Host Unit) before = .ok ((), after) ∧ later = memo := by
  cases value with
  | ref handle => exact ofAction_eq_ok ended
  | _ => exact ofAction_eq_ok ended

theorem ensuring_eq_ok {action : Action Code Host Unit} {answer : α}
    (ended : (copying.ensuring action).run memo before = .ok ((.ok answer, later), after)) :
    ∃ between, copying.run memo before = .ok ((.ok answer, later), between) ∧
      action between = .ok ((), after) := by
  obtain ⟨outcome, between, first, rest⟩ := Action.bind_eq_ok.mp ended
  obtain ⟨_, middle, ran, last⟩ := Action.bind_eq_ok.mp rest
  cases last
  exact ⟨between, first, ran⟩

theorem onError_eq_ok {action : Action Code Host Unit} {answer : α}
    (ended : (copying.onError action).run memo before = .ok ((.ok answer, later), after)) :
    copying.run memo before = .ok ((.ok answer, later), after) := by
  obtain ⟨⟨outcome, between⟩, middle, first, rest⟩ := Action.bind_eq_ok.mp ended
  cases outcome with
  | ok found =>
    cases rest
    exact first
  | error error =>
    obtain ⟨_, _, _, last⟩ := Action.bind_eq_ok.mp rest
    cases last

/-- Where no copy is recorded nothing happens. -/
theorem recorded?_of_none {source : Handle} (unrecorded : memo.find? source = none) :
    (recorded? source : Copying Code Host (Option Value)).run memo before =
      .ok ((.ok none, memo), before) := by
  unfold recorded?
  rw [run_memo_bind, unrecorded]
  rfl

/-- A copy that is recorded is answered once more. -/
theorem recorded?_of_some {source : Handle} {copy : Value} (found : memo.find? source = some copy)
    (retained : (retainValue copy : Action Code Host Unit) before = .ok ((), after)) :
    (recorded? source : Copying Code Host (Option Value)).run memo before =
      .ok ((.ok (some copy), memo), after) := by
  have taken : (retainValue copy : Copying Code Host Unit).run memo before =
      .ok ((.ok (), memo), after) := by
    cases copy <;> exact Action.bind_eq_ok.mpr ⟨.ok (), after,
      Action.bind_eq_ok.mpr ⟨(), after, retained, rfl⟩, rfl⟩
  unfold recorded?
  rw [run_memo_bind, found]
  exact Action.bind_eq_ok.mpr ⟨_, after, taken, rfl⟩

/-- A copy that is recorded is answered with a reference of its own. -/
theorem recorded?_eq_ok {source : Handle} {found : Option Value}
    (ended : (recorded? source : Copying Code Host (Option Value)).run memo before =
      .ok ((.ok found, later), after)) :
    found = memo.find? source ∧ later = memo ∧
      (retainAll found.toList : Action Code Host Unit) before = .ok ((), after) := by
  have looked := memo_bind_eq_ok ended
  cases known : memo.find? source with
  | none =>
    rw [known] at looked
    cases looked
    exact ⟨rfl, rfl, rfl⟩
  | some copy =>
    rw [known] at looked
    obtain ⟨_, _, _, retained, last⟩ := bind_eq_ok looked
    obtain ⟨taken, rfl⟩ := retainValue_eq_ok retained
    cases last
    exact ⟨rfl, rfl, Action.bind_eq_ok.mpr ⟨(), after, taken, rfl⟩⟩

end Copying

/-! ### Copies that are nil -/

/-- A memo records nil for nothing, unless there has been reason to bind methods to nil. -/
def Ledger.Trusts (ledger : Ledger Code Host) (memo : Memo) (host : Host) : Prop :=
  ∀ slot, memo.find? slot = some .nil → ledger.conduct.hollows host

namespace Ledger.Trusts

variable {memo : Memo} {host : Host} {after : World Code Host} {frame : Multiset Handle}

theorem empty (ledger : Ledger Code Host) (host : Host) : ledger.Trusts Memo.empty host :=
  fun _ found => nomatch found

theorem insert {source : Handle} {copy : Value} (trusts : ledger.Trusts memo host)
    (firm : copy = .nil → ledger.conduct.hollows host) : ledger.Trusts (memo.insert source copy) host := by
  intro slot found
  rw [memo.find?_insert] at found
  split at found
  · exact firm (Option.some.inj found)
  · exact trusts slot found

theorem passes (trusts : ledger.Trusts memo before.host) (passes : ledger.Passes frame before after) :
    ledger.Trusts memo after.host :=
  fun slot found => passes.story.hollows (trusts slot found)

end Ledger.Trusts

namespace Engine

variable {engine : Engine Code Host}

/-! ### Where copies come from -/

/-- Copying what is in a slot, of which no copy was recorded before, records one. -/
def Records (engine : Engine Code Host) (slot : Handle) (copy : Value)
    (before after : World Code Host) : Prop :=
  ∃ levels memo later outcome, memo.find? slot = none ∧
    (engine.copyWithin levels (.ref slot)).run memo before = .ok ((outcome, later), after) ∧
    later.find? slot = some copy

/-- Between two worlds a copy of what is in a slot was recorded. The entry was in its slot from the
moment at which it was first to be copied until it was copied. -/
structure Sources (ledger : Ledger Code Host) (engine : Engine Code Host) (slot : Handle)
    (copy : Value) (before first last after : World Code Host) : Prop where
  begun : ledger.Passes 0 before first
  here : first.heap.isLive slot
  records : engine.Records slot copy first last
  onward : ledger.Passes 0 first last
  still : last.heap.isLive slot
  same : last.heap.births slot = first.heap.births slot
  ended : ledger.Passes 0 last after

/-- Between two worlds one memo became another one: what is recorded was recorded before, or its
slot is spared, or the copy was recorded in between. -/
def Extends (ledger : Ledger Code Host) (engine : Engine Code Host) (spared : Set Handle)
    (memo later : Memo) (before after : World Code Host) : Prop :=
  ∀ slot copy, later.find? slot = some copy →
    memo.find? slot = some copy ∨ slot ∈ spared ∨
      ∃ first last, engine.Sources ledger slot copy before first last after

variable {spared more : Set Handle} {memo between later : Memo} {middle after : World Code Host}

theorem Extends.refl (ledger : Ledger Code Host) (engine : Engine Code Host) (spared : Set Handle)
    (memo : Memo) (before after : World Code Host) :
    engine.Extends ledger spared memo memo before after :=
  fun _ _ found => Or.inl found

theorem Extends.mono (grows : engine.Extends ledger spared memo later before after)
    (sub : spared ⊆ more) : engine.Extends ledger more memo later before after :=
  fun slot copy found => (grows slot copy found).imp_right (Or.imp_left (@sub slot))

theorem Extends.trans (first : engine.Extends ledger spared memo between before middle)
    (second : engine.Extends ledger spared between later middle after)
    (early : ledger.Passes 0 before middle) (late : ledger.Passes 0 middle after) :
    engine.Extends ledger spared memo later before after := by
  intro slot copy found
  rcases second slot copy found with known | exempt | ⟨start, last, sources⟩
  · rcases first slot copy known with known | exempt | ⟨start, last, sources⟩
    · exact Or.inl known
    · exact Or.inr (Or.inl exempt)
    · exact Or.inr (Or.inr ⟨start, last, { sources with ended := sources.ended.trans late }⟩)
  · exact Or.inr (Or.inl exempt)
  · exact Or.inr (Or.inr ⟨start, last, { sources with begun := early.trans sources.begun }⟩)

theorem Extends.insert (ledger : Ledger Code Host) (engine : Engine Code Host) {source : Handle}
    (exempt : source ∈ spared) (memo : Memo) (copy : Value) (before after : World Code Host) :
    engine.Extends ledger spared memo (memo.insert source copy) before after := by
  intro slot other found
  rw [memo.find?_insert] at found
  split at found
  · rename_i same
    exact Or.inr (Or.inl (same ▸ exempt))
  · exact Or.inl found

end Engine

/-! ### Rules for copies -/

/-- In a scene and with a memo, a copy has left the world in order. Its answer owns `post`, after an
error `lost` is still owned, and the memo owns what it records. The memo was extended. -/
structure Copying.Noted (ledger : Ledger Code Host) (engine : Engine Code Host)
    (spared : Set Handle) (scene : Scene) (memo : Memo) (before : World Code Host)
    (post : α → Multiset Handle) (lost : Multiset Handle) (result : Except Error α × Memo)
    (after : World Code Host) : Prop where
  holds : ledger.Holds scene after (outcomeOwns post lost result.1 + result.2.owns)
  passes : ledger.Passes scene.frame before after
  grows : engine.Extends ledger spared memo result.2 before after
  trusts : ledger.Trusts result.2 after.host

/-- In a scene and with a memo, a copy leaves the world in order and extends the memo. -/
def Copying.Notes (ledger : Ledger Code Host) (engine : Engine Code Host)
    (spared : Set Handle) (scene : Scene) (memo : Memo) (before : World Code Host)
    (copying : Copying Code Host α) (post : α → Multiset Handle) (lost : Multiset Handle) : Prop :=
  ∀ result after, copying.run memo before = .ok (result, after) →
    Copying.Noted ledger engine spared scene memo before post lost result after

/-- In every scene and with every memo, a copy that owns `pre` leaves the world in order and
extends the memo. -/
def Copying.Minds (ledger : Ledger Code Host) (engine : Engine Code Host) (spared : Set Handle)
    (pre : Multiset Handle) (copying : Copying Code Host α) (post : α → Multiset Handle)
    (lost : Multiset Handle) : Prop :=
  ∀ memo scene before, ledger.Holds scene before (pre + memo.owns) → ledger.Trusts memo before.host →
    copying.Notes ledger engine spared scene memo before post lost

namespace Copying

variable {engine : Engine Code Host} {spared more : Set Handle} {copying : Copying Code Host α}
  {next : α → Copying Code Host β} {mid owns : α → Multiset Handle} {post : β → Multiset Handle}

namespace Noted

variable {memo noted : Memo} {between after : World Code Host} {result : Except Error α × Memo}

theorem mono (copied : Noted ledger engine spared scene memo before owns lost result after)
    (sub : spared ⊆ more) : Noted ledger engine more scene memo before owns lost result after :=
  { copied with grows := copied.grows.mono sub }

/-- What goes on from a later memo and a later world goes on from the earlier ones. -/
theorem since (second : Noted ledger engine spared scene noted between owns lost result after)
    (passes : ledger.Passes scene.frame before between)
    (grows : engine.Extends ledger spared memo noted before between) :
    Noted ledger engine spared scene memo before owns lost result after :=
  { second with
    passes := passes.trans second.passes
    grows := grows.trans second.grows passes.unframed second.passes.unframed }

/-- What others hold may be counted as owned. -/
theorem unframed
    (copied : Noted ledger engine spared (scene.framing rest) memo before owns lost result after) :
    Noted ledger engine spared scene memo before (fun answer => rest + owns answer) (rest + lost) result
      after where
  holds := (Ledger.Holds.framing_iff.mp copied.holds).congr (by
    obtain ⟨outcome, memo⟩ := result
    cases outcome <;> exact (add_assoc _ _ _).symm)
  passes := copied.passes.mono fun _ member => Multiset.mem_add.mpr (Or.inl member)
  grows := copied.grows
  trusts := copied.trusts

end Noted

namespace Notes

variable {memo : Memo}

theorem mono (notes : copying.Notes ledger engine spared scene memo before owns lost)
    (sub : spared ⊆ more) : copying.Notes ledger engine more scene memo before owns lost :=
  fun result after ended => (notes result after ended).mono sub

theorem unframed (notes : copying.Notes ledger engine spared (scene.framing rest) memo before owns lost) :
    copying.Notes ledger engine spared scene memo before (fun answer => rest + owns answer)
      (rest + lost) :=
  fun result after ended => (notes result after ended).unframed

theorem bind (first : copying.Notes ledger engine spared scene memo before mid lost)
    (rest : ∀ answer noted between, copying.run memo before = .ok ((.ok answer, noted), between) →
      Noted ledger engine spared scene memo before mid lost (.ok answer, noted) between →
      (next answer).Notes ledger engine spared scene noted between post lost) :
    (copying >>= next).Notes ledger engine spared scene memo before post lost := by
  intro result after ended
  obtain ⟨⟨outcome, noted⟩, between, ran, going⟩ := Action.bind_eq_ok.mp ended
  have early := first _ _ ran
  cases outcome with
  | ok answer => exact (rest answer noted between ran early result after going).since early.passes early.grows
  | error error =>
    cases going
    exact ⟨early.holds, early.passes, early.grows, early.trusts⟩

theorem pure {answer : α} (holds : ledger.Holds scene before (owns answer + memo.owns))
    (trusts : ledger.Trusts memo before.host) :
    Notes ledger engine spared scene memo before (Pure.pure answer) owns lost := by
  intro result after ended
  cases ended
  exact ⟨holds, holds.passes_refl, .refl _ _ _ _ _ _, trusts⟩

/-- What leaves the memo alone minds it. What the memo owns is counted among what others hold. -/
theorem ofAttempt {attempt : Attempt Code Host α} (holds : ledger.Holds scene before (pre + memo.owns))
    (trusts : ledger.Trusts memo before.host)
    (yields : ledger.Holds (scene.framing memo.owns) before pre →
      attempt.Yields ledger (scene.framing memo.owns) before owns lost) :
    (Copying.ofAttempt attempt).Notes ledger engine spared scene memo before owns lost := by
  intro result after ended
  obtain ⟨outcome, between, ran, last⟩ := Action.bind_eq_ok.mp ended
  cases last
  obtain ⟨done, passes⟩ := yields
    (Ledger.Holds.framing_iff.mpr (holds.congr (add_comm _ _))) outcome after ran
  exact
    { holds := (Ledger.Holds.framing_iff.mp done).congr (add_comm _ _)
      passes := passes.mono fun _ member => Multiset.mem_add.mpr (Or.inl member)
      grows := .refl _ _ _ _ _ _
      trusts := trusts.passes passes }

theorem ask {question : Heap Code → Except Fault α}
    (rest : ∀ answer, question before.heap = .ok answer →
      (next answer).Notes ledger engine spared scene memo before post lost) :
    (ObjectHeap.ask question >>= next).Notes ledger engine spared scene memo before post lost := by
  intro result after ended
  obtain ⟨_, _, first, going⟩ := Action.bind_eq_ok.mp ended
  obtain ⟨_, _, ran, last⟩ := Action.bind_eq_ok.mp first
  cases last
  obtain ⟨answer, _, asked, last⟩ := Action.bind_eq_ok.mp ran
  cases last
  obtain ⟨known, rfl⟩ := ask_eq_ok.mp asked
  exact rest answer known result after going

theorem retainAll {next : Unit → Copying Code Host β} {values : List Value}
    (holds : ledger.Holds scene before (mine + memo.owns)) (trusts : ledger.Trusts memo before.host)
    (rest : ∀ after, ledger.Holds scene after (mine + owned values + memo.owns) →
      ledger.Trusts memo after.host →
      (∀ other, after.heap.payload? other = before.heap.payload? other) →
      (next ()).Notes ledger engine spared scene memo after post lost) :
    (ObjectHeap.retainAll values >>= next).Notes ledger engine spared scene memo before post lost := by
  intro result last ended
  obtain ⟨_, _, first, going⟩ := Action.bind_eq_ok.mp ended
  obtain ⟨_, _, ran, same⟩ := Action.bind_eq_ok.mp first
  cases same
  obtain ⟨_, after, taken, same⟩ := Action.bind_eq_ok.mp ran
  cases same
  obtain ⟨held, passes⟩ := (Action.Keeps.retainAll values).gain (mine + memo.owns) scene before holds
    _ _ taken
  exact (rest _ (held.congr (add_right_comm _ _ _)) (trusts.passes passes) (payload?_of_retainAll taken)
    result last going).since passes (.refl _ _ _ _ _ _)

/-- What is ensured gives up `rest`, after a success and after an error. -/
theorem ensuring {action : Action Code Host Unit}
    (copied : copying.Notes ledger engine spared scene memo before (fun answer => rest + owns answer)
      (rest + lost)) (last : action.Keeps ledger rest fun _ => 0) :
    (copying.ensuring action).Notes ledger engine spared scene memo before owns lost := by
  intro result after ended
  obtain ⟨found, between, ran, going⟩ := Action.bind_eq_ok.mp ended
  obtain ⟨_, _, acted, same⟩ := Action.bind_eq_ok.mp going
  cases same
  have early := copied _ _ ran
  have left : ledger.Holds scene between (outcomeOwns owns lost result.1 + result.2.owns + rest) := by
    refine early.holds.congr ?_
    obtain ⟨outcome, noted⟩ := result
    cases outcome <;> exact (add_assoc _ _ _).trans (add_comm _ _)
  obtain ⟨done, passes⟩ := last.spend _ scene between left _ _ acted
  exact
    { holds := done
      passes := early.passes.trans passes
      grows := early.grows.trans (.refl _ _ _ _ _ _) early.passes.unframed passes.unframed
      trusts := early.trusts.passes passes }

/-- What is given up in case of an error is `rest`. -/
theorem onError {action : Action Code Host Unit}
    (copied : copying.Notes ledger engine spared scene memo before owns (rest + lost))
    (last : action.Keeps ledger rest fun _ => 0) :
    (copying.onError action).Notes ledger engine spared scene memo before owns lost := by
  intro result after ended
  obtain ⟨⟨outcome, noted⟩, between, ran, going⟩ := Action.bind_eq_ok.mp ended
  have early := copied _ _ ran
  cases outcome with
  | ok answer =>
    cases going
    exact ⟨early.holds, early.passes, early.grows, early.trusts⟩
  | error error =>
    obtain ⟨_, _, acted, same⟩ := Action.bind_eq_ok.mp going
    cases same
    have left : ledger.Holds scene between (lost + noted.owns + rest) :=
      early.holds.congr ((add_assoc _ _ _).trans (add_comm _ _))
    obtain ⟨done, passes⟩ := last.spend _ scene between left _ _ acted
    exact
      { holds := done
        passes := early.passes.trans passes
        grows := early.grows.trans (.refl _ _ _ _ _ _) early.passes.unframed passes.unframed
        trusts := early.trusts.passes passes }

end Notes

namespace Minds

theorem congr {other : Multiset Handle} (minds : copying.Minds ledger engine spared pre owns lost)
    (same : pre = other) : copying.Minds ledger engine spared other owns lost := same ▸ minds

theorem bind (first : copying.Minds ledger engine spared pre mid lost)
    (rest : ∀ answer, (next answer).Minds ledger engine spared (mid answer) post lost) :
    (copying >>= next).Minds ledger engine spared pre post lost :=
  fun memo scene before holds trusts => (first memo scene before holds trusts).bind
    fun answer noted between _ early => rest answer noted scene between early.holds early.trusts

theorem pure (answer : α) (same : pre = owns answer) :
    Minds ledger engine spared pre (Pure.pure answer) owns lost :=
  fun _ _ _ holds trusts => .pure (holds.congr (congrArg (· + _) same)) trusts

theorem ofAttempt {attempt : Attempt Code Host α} (keeps : attempt.Keeps ledger pre owns lost) :
    (Copying.ofAttempt attempt).Minds ledger engine spared pre owns lost :=
  fun _ _ _ holds trusts => .ofAttempt holds trusts (keeps _ _)

theorem ofAction {action : Action Code Host α} (keeps : action.Keeps ledger pre owns) :
    (Copying.ofAttempt (Attempt.ofAction action)).Minds ledger engine spared pre owns lost :=
  .ofAttempt (.ofAction keeps)

theorem ask {question : Heap Code → Except Fault α}
    (rest : ∀ answer, (next answer).Minds ledger engine spared pre post lost) :
    (ObjectHeap.ask question >>= next).Minds ledger engine spared pre post lost :=
  .bind (.ofAttempt (Attempt.Keeps.answer question)) rest

theorem retainValue {value : Value} :
    (ObjectHeap.retainValue value : Copying Code Host Unit).Minds ledger engine spared pre
      (fun _ => pre + value.owns) lost := by
  have same : (ObjectHeap.retainValue value : Copying Code Host Unit) =
      Copying.ofAttempt (Attempt.ofAction (ObjectHeap.retainValue value)) := by cases value <;> rfl
  rw [same]
  exact .ofAction ((Action.Keeps.retainValue value).gain pre)

theorem retainAll {next : Unit → Copying Code Host β} {values : List Value}
    (rest : (next ()).Minds ledger engine spared (pre + owned values) post lost) :
    (ObjectHeap.retainAll values >>= next).Minds ledger engine spared pre post lost :=
  .bind (.ofAction ((Action.Keeps.retainAll values).gain pre)) fun _ => rest

/-- What a copy does it does beside anything else that is owned. -/
theorem frame (minds : copying.Minds ledger engine spared pre owns lost) (rest : Multiset Handle) :
    copying.Minds ledger engine spared (rest + pre) (fun answer => rest + owns answer) (rest + lost) :=
  fun memo scene before holds trusts => (minds memo (scene.framing rest) before
    (Ledger.Holds.framing_iff.mpr (holds.congr (add_assoc _ _ _))) trusts).unframed

/-- What is owned beside a copy is given up in case of an error. -/
theorem guarding {action : Action Code Host Unit}
    (copied : copying.Minds ledger engine spared pre owns 0) (last : action.Keeps ledger rest fun _ => 0) :
    (copying.onError action).Minds ledger engine spared (rest + pre) (fun answer => rest + owns answer)
      0 :=
  fun memo scene before holds trusts => (copied.frame rest memo scene before holds trusts).onError last

/-- Looking at the memo changes nothing. -/
theorem memo {next : Memo → Copying Code Host β}
    (rest : ∀ memo, (next memo).Minds ledger engine spared pre post lost) :
    (Copying.memo >>= next).Minds ledger engine spared pre post lost := fun memo scene before holds trusts =>
  rest memo memo scene before holds trusts

end Minds

/-- What was recorded is answered with a reference of its own. -/
theorem minds_recorded? (source : Handle) :
    (recorded? source : Copying Code Host (Option Value)).Minds ledger engine spared mine
      (fun found => mine + owned found.toList) lost := by
  refine .memo fun memo => ?_
  split
  · rename_i copy _
    exact .bind .retainValue fun _ => .pure (some copy) (by simp)
  · exact .pure none (add_zero mine).symm

theorem minds_retainAttributes (handle : Handle) :
    (retainAttributes handle : Copying Code Host (List (String × Value))).Minds ledger engine spared mine
      (fun attributes => mine + owned (attributes.map Prod.snd)) lost := by
  refine .ask fun payload => ?_
  split
  · exact .retainAll (.pure _ rfl)
  · exact .pure [] (add_zero mine).symm

end Copying

/-- A copy that is recorded, for a slot that is spared, is owned twice over. -/
theorem Engine.Keeps.notes_memorize {engine : Engine Code Host} {spared : Set Handle} {memo : Memo}
    (keeps : engine.Keeps ledger) {source : Handle} (exempt : source ∈ spared) {copy : Value}
    (holds : ledger.Holds scene before (mine + memo.owns)) (trusts : ledger.Trusts memo before.host)
    (firm : copy = .nil → ledger.conduct.hollows before.host) :
    (engine.memorize source copy).Notes ledger engine spared scene memo before (fun _ => mine) lost := by
  refine (Copying.Minds.retainValue memo scene before holds trusts).bind fun _ noted between _ early => ?_
  have released : (Copying.ofAttempt (Attempt.ofAction (engine.release? (noted.find? source)))).Minds
      ledger engine spared (mine + owned (noted.find? source).toList) (fun _ => mine) lost :=
    .ofAction ((keeps.release? _).spend mine)
  have taken : ledger.Holds scene between
      (mine + owned (noted.find? source).toList + (noted.insert source copy).owns) := by
    refine early.holds.congr ?_
    show mine + copy.owns + noted.owns = _
    rw [add_assoc, add_assoc, add_comm (owned _), noted.owns_insert, add_comm copy.owns]
  intro result after ended
  have ran : (Copying.ofAttempt (Attempt.ofAction (engine.release? (noted.find? source)))).run
      (noted.insert source copy) between = .ok (result, after) := ended
  have gone := released _ scene between taken
    (early.trusts.insert fun nil => early.passes.story.hollows (firm nil)) result after ran
  obtain ⟨_, _, _, last⟩ := Action.bind_eq_ok.mp ran
  cases last
  exact ⟨gone.holds, gone.passes, .insert ledger engine exempt noted copy between _, gone.trusts⟩

theorem Engine.Keeps.memorize {engine : Engine Code Host} {spared : Set Handle}
    (keeps : engine.Keeps ledger) {source : Handle} (exempt : source ∈ spared) {copy : Value}
    (firm : copy = .nil → ∀ host, ledger.conduct.hollows host) :
    (engine.memorize source copy).Minds ledger engine spared mine (fun _ => mine) lost :=
  fun _ _ _ holds trusts => keeps.notes_memorize exempt holds trusts fun nil => firm nil _

/-! ### Rules for copies of values -/

/-- A value is copied as others hold it, and the memo is extended. If the copy is nil, then it was
to be, or there has been reason to bind methods to nil. -/
structure Copying.Gives (ledger : Ledger Code Host) (engine : Engine Code Host)
    (spared : Set Handle) (scene : Scene) (memo : Memo) (before : World Code Host)
    (copying : Copying Code Host Value) (blank : Prop) : Prop where
  notes : copying.Notes ledger engine spared scene memo before Value.owns 0
  firm : ∀ later after, copying.run memo before = .ok ((.ok .nil, later), after) →
    blank ∨ ledger.conduct.hollows after.host

namespace Copying.Gives

variable {engine : Engine Code Host} {spared : Set Handle} {memo : Memo} {blank : Prop}
  {copying : Copying Code Host α} {next : α → Copying Code Host Value} {mid : α → Multiset Handle}

theorem bind (first : copying.Notes ledger engine spared scene memo before mid 0)
    (rest : ∀ answer noted between, copying.run memo before = .ok ((.ok answer, noted), between) →
      Noted ledger engine spared scene memo before mid 0 (.ok answer, noted) between →
      (next answer).Gives ledger engine spared scene noted between blank) :
    (copying >>= next).Gives ledger engine spared scene memo before blank where
  notes := first.bind fun answer noted between ran early =>
    (rest answer noted between ran early).notes
  firm later after ended := by
    obtain ⟨answer, noted, between, ran, going⟩ := Copying.bind_eq_ok ended
    exact (rest answer noted between ran (first _ _ ran)).firm later after going

theorem pure {value : Value} (holds : ledger.Holds scene before (value.owns + memo.owns))
    (trusts : ledger.Trusts memo before.host)
    (firm : value = .nil → blank ∨ ledger.conduct.hollows before.host) :
    Gives ledger engine spared scene memo before (Pure.pure value) blank where
  notes := .pure holds trusts
  firm later after ended := by
    cases ended
    exact firm rfl

theorem ask {question : Heap Code → Except Fault α}
    (rest : ∀ answer, question before.heap = .ok answer →
      (next answer).Gives ledger engine spared scene memo before blank) :
    (ObjectHeap.ask question >>= next).Gives ledger engine spared scene memo before blank where
  notes := .ask fun answer asked => (rest answer asked).notes
  firm later after ended := by
    obtain ⟨answer, asked, going⟩ := Copying.ask_bind_eq_ok ended
    exact (rest answer asked).firm later after going

end Copying.Gives

/-- A copy that was recorded is answered, and an entry of which none was recorded is copied. As long
as that goes on its slot is spared. -/
theorem Copying.Gives.ofFresh {engine : Engine Code Host} {copying : Copying Code Host Value}
    {slot : Handle} {memo : Memo} {levels : Nat} {blank : Prop} (here : slot ∈ scene.frame)
    (holds : ledger.Holds scene before memo.owns) (trusts : ledger.Trusts memo before.host)
    (unfolds : engine.copyWithin levels (.ref slot) =
      (Copying.recorded? slot >>= fun recorded : Option Value => match recorded with
        | some copy => return copy
        | none => copying))
    (fresh : ∀ noted between, ledger.Holds scene between noted.owns → ledger.Trusts noted between.host →
      copying.Gives ledger engine {slot} scene noted between blank) :
    (engine.copyWithin levels (.ref slot)).Gives ledger engine ∅ scene memo before blank := by
  have looks {spared : Set Handle} : (Copying.recorded? slot : Copying Code Host (Option Value)).Notes
      ledger engine spared scene memo before (fun found => 0 + owned found.toList) 0 :=
    Copying.minds_recorded? slot memo scene before (holds.congr (zero_add _).symm) trusts
  have whole : (engine.copyWithin levels (.ref slot)).Gives ledger engine {slot} scene memo before
      blank := by
    rw [unfolds]
    refine .bind looks fun recorded noted between ran early => ?_
    cases recorded with
    | some copy =>
      obtain ⟨known, rfl, _⟩ := Copying.recorded?_eq_ok ran
      refine .pure (early.holds.congr (by simp [outcomeOwns])) early.trusts ?_
      rintro rfl
      exact Or.inr (early.trusts slot known.symm)
    | none => exact fresh noted between (early.holds.congr (zero_add _)) early.trusts
  refine ⟨fun result after ended => ?_, whole.firm⟩
  have done := whole.notes result after ended
  refine { done with grows := ?_ }
  have goes := ended
  rw [unfolds] at goes
  obtain ⟨⟨outcome, noted⟩, between, ran, going⟩ := Action.bind_eq_ok.mp goes
  cases outcome with
  | error error =>
    cases going
    exact (looks _ _ ran).grows
  | ok recorded =>
    cases recorded with
    | some copy =>
      cases going
      exact (looks _ _ ran).grows
    | none =>
      obtain ⟨unknown, _, _⟩ := Copying.recorded?_eq_ok ran
      have started : before.heap.isLive slot := holds.isLive (Multiset.mem_add.mpr (Or.inl here))
      intro other copy found
      -- What was noted for the slot itself was noted by this very copy.
      rcases done.grows other copy found with known | rfl | sources
      · exact Or.inl known
      · exact Or.inr (Or.inr ⟨before, after,
          { begun := holds.passes_refl.unframed
            here := started
            records := ⟨levels, memo, _, _, unknown.symm, ended, found⟩
            onward := done.passes.unframed
            still := done.holds.isLive (Multiset.mem_add.mpr (Or.inl here))
            same := done.passes.kept other here
            ended := done.holds.passes_refl.unframed }⟩)
      · exact Or.inr (Or.inr sources)

end ObjectHeap
