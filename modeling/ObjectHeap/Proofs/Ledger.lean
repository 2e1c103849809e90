/-
This file sets up a logic of ownership. An operation runs in a scene: whether releases are being
worked off, which slots are in limbo, and which references others hold throughout, the frame.
Beside the frame the operation owns references of its own, takes more of them and gives them up,
and in the end its answer owns what is left. As long as it keeps to that, the heap stays sound, the
frame keeps its entries, and there is a story of how the operation went. The rules follow the shape
of operations, so that the proof about an operation reads like its definition. An operation that
stops with a fault is not spoken of.
-/

import ObjectHeap.Proofs.Story

namespace ObjectHeap

variable {Code Host : Type} {α β : Type}

/-! ### Ledgers -/

/-- What a host owns, and what else it counts on. -/
structure Ledger (Code Host : Type) where
  /-- The references that the host owns beside those in the hands of running operations. -/
  held : Host → Multiset Handle
  /-- What the host counts on. It may be anything that no change of the heap can undo. -/
  fits : Host → Heap Code → Prop
  lasts : ∀ {host before after}, fits host before → before.Evolves after → fits host after
  /-- Whether only operations are looked at in which no code of the host runs. -/
  calm : Prop
  /-- What is known of callbacks and of the host; nothing, unless it is said. -/
  conduct : Conduct Code Host := { calls := fun _ _ _ _ _ => True, turns := fun _ _ => True }

/-- The circumstances in which an operation runs. -/
structure Scene where
  busy : Bool
  limbo : List Handle
  frame : Multiset Handle

/-- At most one entry is being taken apart, and only while releases are being worked off. -/
structure Scene.Tidy (scene : Scene) : Prop where
  narrow : scene.limbo.length ≤ 1
  idle : scene.busy = false → scene.limbo = []

/-- A scene with more references that others hold. -/
def Scene.framing (scene : Scene) (more : Multiset Handle) : Scene :=
  { scene with frame := scene.frame + more }

theorem Scene.tidy_framing {scene : Scene} {more : Multiset Handle} :
    (scene.framing more).Tidy ↔ scene.Tidy :=
  ⟨fun tidy => ⟨tidy.narrow, tidy.idle⟩, fun tidy => ⟨tidy.narrow, tidy.idle⟩⟩

/-- A world is in order, apart from references that may wait for their release: its heap is sound
when the references that are `mine` are counted beside those of the host and the frame. -/
structure Ledger.Stands (ledger : Ledger Code Host) (scene : Scene) (world : World Code Host)
    (mine : Multiset Handle) : Prop where
  sound : world.heap.Sound (scene.frame + mine + ledger.held world.host) scene.limbo
  releasing : world.heap.releasing = scene.busy
  fits : ledger.fits world.host world.heap

/-- A world is in order. Unless releases are being worked off, no reference waits. The scene is
tidy, unless it is that of a calm run, in which there is no code that could find it otherwise. -/
structure Ledger.Holds (ledger : Ledger Code Host) (scene : Scene) (world : World Code Host)
    (mine : Multiset Handle) : Prop extends ledger.Stands scene world mine where
  settled : scene.busy = false → world.heap.pending = []
  tidy : ¬ ledger.calm → scene.Tidy

/-- How an action takes a world to another one in view of a ledger: what the frame refers to is
carried along, and there is a story of what happened. -/
structure Ledger.Passes (ledger : Ledger Code Host) (frame : Multiset Handle)
    (before after : World Code Host) : Prop extends
    Heap.Carries ledger.calm frame before.heap after.heap where
  story : Story ledger.conduct .operating before after

namespace Ledger

variable {ledger : Ledger Code Host} {scene : Scene} {world : World Code Host}
  {mine rest : Multiset Handle}

theorem Holds.congr (holds : ledger.Holds scene world mine) (same : mine = rest) :
    ledger.Holds scene world rest := same ▸ holds

/-- A part of what is owned can be counted among what others hold, and back. -/
theorem Holds.framing_iff :
    ledger.Holds (scene.framing rest) world mine ↔ ledger.Holds scene world (rest + mine) := by
  have same : scene.frame + rest + mine + ledger.held world.host =
      scene.frame + (rest + mine) + ledger.held world.host := by
    rw [add_assoc scene.frame]
  constructor
  · rintro ⟨⟨sound, releasing, fits⟩, settled, tidy⟩
    exact ⟨⟨same ▸ sound, releasing, fits⟩, settled, fun wild => Scene.tidy_framing.mp (tidy wild)⟩
  · rintro ⟨⟨sound, releasing, fits⟩, settled, tidy⟩
    exact ⟨⟨by rw [Scene.framing, same]; exact sound, releasing, fits⟩, settled,
      fun wild => Scene.tidy_framing.mpr (tidy wild)⟩

/-- What is owned is live. -/
theorem Stands.isLive (stands : ledger.Stands scene world mine) {handle : Handle}
    (member : handle ∈ scene.frame + mine) : world.heap.isLive handle :=
  stands.sound.balanced.isLive_of_mem (Or.inl (Multiset.mem_add.mpr (Or.inl member)))

theorem Stands.carries_refl (stands : ledger.Stands scene world mine) :
    world.heap.Carries ledger.calm scene.frame world.heap :=
  .refl _ _ _ stands.sound.balanced fun _ member =>
    Multiset.mem_add.mpr (Or.inl (Multiset.mem_add.mpr (Or.inl member)))

theorem Stands.passes_refl (stands : ledger.Stands scene world mine) :
    ledger.Passes scene.frame world world :=
  ⟨stands.carries_refl, .still world⟩

variable {frame less : Multiset Handle} {before between after : World Code Host}

theorem Passes.trans (first : ledger.Passes frame before between)
    (second : ledger.Passes frame between after) : ledger.Passes frame before after :=
  ⟨first.toCarries.trans second.toCarries, first.story.andThen second.story⟩

/-- A smaller frame is carried along as well. -/
theorem Passes.mono (passes : ledger.Passes frame before after) (sub : less ⊆ frame) :
    ledger.Passes less before after :=
  ⟨passes.toCarries.mono sub, passes.story⟩

theorem Passes.unframed (passes : ledger.Passes frame before after) : ledger.Passes 0 before after :=
  passes.mono (Multiset.zero_subset frame)

theorem Passes.of_quiet {heap : Heap Code}
    (carries : before.heap.Carries ledger.calm frame heap) (quiet : before.heap.Quiet heap) :
    ledger.Passes frame before { before with heap } :=
  ⟨carries, .quiet quiet⟩

end Ledger

/-! ### What operations keep -/

/-- In a scene, an action takes a world to one in order, in which its answer owns `post`. -/
def Action.Yields (ledger : Ledger Code Host) (scene : Scene) (before : World Code Host)
    (action : Action Code Host α) (post : α → Multiset Handle) : Prop :=
  ∀ answer after, action before = .ok (answer, after) →
    ledger.Holds scene after (post answer) ∧ ledger.Passes scene.frame before after

/-- In every scene, an action that owns `pre` leaves the world in order, and its answer owns
`post`. -/
def Action.Keeps (ledger : Ledger Code Host) (pre : Multiset Handle)
    (action : Action Code Host α) (post : α → Multiset Handle) : Prop :=
  ∀ scene before, ledger.Holds scene before pre → action.Yields ledger scene before post

/-- What the outcome of an attempt owns: what its answer owns, or `lost` after an error. -/
def outcomeOwns (post : α → Multiset Handle) (lost : Multiset Handle) :
    Except Error α → Multiset Handle
  | .ok answer => post answer
  | .error _ => lost

/-- In a scene, an attempt takes a world to one in order. -/
def Attempt.Yields (ledger : Ledger Code Host) (scene : Scene) (before : World Code Host)
    (attempt : Attempt Code Host α) (post : α → Multiset Handle) (lost : Multiset Handle) : Prop :=
  attempt.run.Yields ledger scene before (outcomeOwns post lost)

/-- In every scene, an attempt that owns `pre` leaves the world in order. Its answer owns `post`,
and after an error `lost` is still owned. -/
def Attempt.Keeps (ledger : Ledger Code Host) (pre : Multiset Handle)
    (attempt : Attempt Code Host α) (post : α → Multiset Handle) (lost : Multiset Handle) : Prop :=
  ∀ scene before, ledger.Holds scene before pre → attempt.Yields ledger scene before post lost

/-- The function by which the class of an instance has the instance copied is run, and answers nil. -/
def Engine.CopiesAsNil (engine : Engine Code Host) (value : Value) (before after : World Code Host) :
    Prop :=
  ∃ function data, before.heap.special? value "__deepcopy__" = .ok (some function) ∧
    before.heap.payload? function = some (.function data) ∧
    (engine.run data.code (Arguments.ofList [value, .nil])).run before = .ok (.ok .nil, after)

/-- An engine keeps a ledger when the code that it runs does. In a calm run there is no such
code. -/
structure Engine.Keeps (ledger : Ledger Code Host) (engine : Engine Code Host) : Prop where
  run : ∀ code arguments,
    (engine.run code arguments).Keeps ledger arguments.owns Value.owns 0
  callBack : ∀ callback arguments,
    (engine.callBack callback arguments).Keeps ledger arguments.owns Value.owns 0
  calm : ledger.calm → ∀ callback arguments before outcome after,
    (engine.callBack callback arguments).run before ≠ .ok (outcome, after)
  calls : ∀ callback arguments before outcome after,
    (engine.callBack callback arguments).run before = .ok (outcome, after) →
      ledger.conduct.calls callback arguments before outcome after
  hollows : ∀ scene before after value, ledger.Holds scene before value.owns →
    engine.CopiesAsNil value before after → ledger.conduct.hollows after.host

variable {ledger : Ledger Code Host} {scene : Scene} {before between : World Code Host}
  {pre rest lost : Multiset Handle}

/-! ### Rules for actions -/

namespace Action

variable {action : Action Code Host α} {next : α → Action Code Host β}
  {mid : α → Multiset Handle} {post : β → Multiset Handle} {answer : α}

/-- What goes on after a part that ended. -/
theorem bind_of_ok (ended : action before = .ok (answer, between)) :
    (action >>= next) before = next answer between := by
  show (action before >>= fun pair => next pair.1 pair.2) = _
  rw [ended]
  rfl

theorem Yields.pure {owns : α → Multiset Handle} (holds : ledger.Holds scene before (owns answer)) :
    Yields ledger scene before (Pure.pure answer) owns := by
  intro found after ended
  cases ended
  exact ⟨holds, holds.passes_refl⟩

theorem Yields.congr {owns others : α → Multiset Handle}
    (yields : action.Yields ledger scene before owns) (same : ∀ answer, owns answer = others answer) :
    action.Yields ledger scene before others := by
  intro answer after ended
  rw [← same]
  exact yields answer after ended

/-- An action whose outcome is known. -/
theorem Yields.of_eq {owns : α → Multiset Handle} (ended : action before = .ok (answer, between))
    (holds : ledger.Holds scene between (owns answer))
    (passes : ledger.Passes scene.frame before between) :
    action.Yields ledger scene before owns := by
  intro found after same
  rw [ended] at same
  cases same
  exact ⟨holds, passes⟩

/-- An action after a part whose outcome is known. -/
theorem Yields.bind_of_eq (ended : action before = .ok (answer, between))
    (passes : ledger.Passes scene.frame before between)
    (yields : (next answer).Yields ledger scene between post) :
    (action >>= next).Yields ledger scene before post := by
  intro last after ran
  obtain ⟨found, middle, first, rest⟩ := bind_eq_ok.mp ran
  rw [ended] at first
  cases first
  obtain ⟨holds, later⟩ := yields last after rest
  exact ⟨holds, passes.trans later⟩

theorem Yields.bind (first : action.Yields ledger scene before mid)
    (rest : ∀ answer between, ledger.Holds scene between (mid answer) →
      ledger.Passes scene.frame before between →
      (next answer).Yields ledger scene between post) :
    (action >>= next).Yields ledger scene before post := by
  intro last after ran
  obtain ⟨found, middle, ended, going⟩ := bind_eq_ok.mp ran
  obtain ⟨holds, passes⟩ := first found middle ended
  obtain ⟨done, later⟩ := rest found middle holds passes last after going
  exact ⟨done, passes.trans later⟩

/-- A question does not change the world. -/
theorem Yields.ask {question : Heap Code → Except Fault α}
    (rest : ∀ answer, question before.heap = .ok answer →
      (next answer).Yields ledger scene before post) :
    (ObjectHeap.ask question >>= next).Yields ledger scene before post := by
  intro last after ran
  obtain ⟨found, middle, asked, going⟩ := bind_eq_ok.mp ran
  rw [ask_apply] at asked
  cases answered : question before.heap with
  | error fault => rw [answered] at asked; cases asked
  | ok answer =>
    rw [answered] at asked
    cases asked
    exact rest found answered last after going

/-- What an action does in one scene it does beside anything else that is owned. -/
theorem Keeps.frame {owns : α → Multiset Handle} (keeps : action.Keeps ledger pre owns)
    (rest : Multiset Handle) : action.Keeps ledger (rest + pre) fun answer => rest + owns answer := by
  intro scene before holds answer after ended
  obtain ⟨done, passes⟩ := keeps (scene.framing rest) before
    (Ledger.Holds.framing_iff.mpr holds) answer after ended
  exact ⟨Ledger.Holds.framing_iff.mp done,
    passes.mono fun handle member => Multiset.mem_add.mpr (Or.inl member)⟩

/-- An action that gives up all that it owns leaves everything else. -/
theorem Keeps.spend (keeps : action.Keeps ledger pre fun _ => 0) (rest : Multiset Handle) :
    action.Keeps ledger (rest + pre) fun _ => rest :=
  fun scene before holds => (keeps.frame rest scene before holds).congr fun _ => add_zero rest

/-- An action that takes references leaves everything else. -/
theorem Keeps.gain {owns : α → Multiset Handle} (keeps : action.Keeps ledger 0 owns)
    (rest : Multiset Handle) : action.Keeps ledger rest fun answer => rest + owns answer :=
  fun scene before holds => keeps.frame rest scene before (holds.congr (add_zero rest).symm)

theorem Keeps.congr {owns : α → Multiset Handle} {other : Multiset Handle}
    (keeps : action.Keeps ledger pre owns) (same : pre = other) :
    action.Keeps ledger other owns := same ▸ keeps

theorem Keeps.pure {owns : α → Multiset Handle} (answer : α) (same : pre = owns answer) :
    Keeps ledger pre (Pure.pure answer) owns :=
  fun _ _ holds => .pure (holds.congr same)

theorem Keeps.bind (first : action.Keeps ledger pre mid)
    (rest : ∀ answer, (next answer).Keeps ledger (mid answer) post) :
    (action >>= next).Keeps ledger pre post :=
  fun scene before holds => .bind (first scene before holds) fun answer between holds _ =>
    rest answer scene between holds

theorem Keeps.ask {question : Heap Code → Except Fault α}
    (rest : ∀ answer, (next answer).Keeps ledger pre post) :
    (ObjectHeap.ask question >>= next).Keeps ledger pre post :=
  fun scene before holds => .ask fun answer _ => rest answer scene before holds

end Action

/-! ### Rules for attempts -/

namespace Attempt

variable {attempt : Attempt Code Host α} {next : α → Attempt Code Host β}
  {mid : α → Multiset Handle} {post : β → Multiset Handle} {answer : α}

theorem Yields.pure {owns : α → Multiset Handle} (holds : ledger.Holds scene before (owns answer)) :
    Yields ledger scene before (Pure.pure answer) owns lost :=
  Action.Yields.pure holds

theorem Yields.fail {owns : α → Multiset Handle} {error : Error}
    (holds : ledger.Holds scene before lost) :
    Yields ledger scene before (Attempt.fail error) owns lost :=
  Action.Yields.pure holds

theorem Yields.refuse {owns : α → Multiset Handle} {refusal : Refusal}
    (holds : ledger.Holds scene before lost) :
    Yields ledger scene before (Attempt.refuse refusal) owns lost :=
  Yields.fail holds

theorem Yields.bind (first : attempt.Yields ledger scene before mid lost)
    (rest : ∀ answer between, ledger.Holds scene between (mid answer) →
      ledger.Passes scene.frame before between →
      (next answer).Yields ledger scene between post lost) :
    (attempt >>= next).Yields ledger scene before post lost := by
  unfold Attempt.Yields
  rw [run_bind]
  refine Action.Yields.bind first fun outcome between holds passes => ?_
  cases outcome with
  | ok answer => exact rest answer between holds passes
  | error error => exact Action.Yields.pure holds

/-- The second part of an attempt may use what the first one has found out. -/
theorem Yields.bindOk (first : attempt.Yields ledger scene before mid lost)
    (rest : ∀ answer between, attempt.run before = .ok (.ok answer, between) →
      ledger.Holds scene between (mid answer) → ledger.Passes scene.frame before between →
      (next answer).Yields ledger scene between post lost) :
    (attempt >>= next).Yields ledger scene before post lost := by
  intro outcome after ended
  obtain ⟨found, between, ran, going⟩ := Action.bind_eq_ok.mp ended
  obtain ⟨holds, passes⟩ := first found between ran
  cases found with
  | error error =>
    cases going
    exact ⟨holds, passes⟩
  | ok answer =>
    obtain ⟨done, later⟩ := rest answer between ran holds passes outcome after going
    exact ⟨done, passes.trans later⟩

/-- An action comes to no error. -/
theorem Yields.act {action : Action Code Host α} (first : action.Yields ledger scene before mid)
    (rest : ∀ answer between, ledger.Holds scene between (mid answer) →
      ledger.Passes scene.frame before between →
      (next answer).Yields ledger scene between post lost) :
    (ofAction action >>= next).Yields ledger scene before post lost := by
  unfold Attempt.Yields
  rw [run_ofAction_bind]
  exact Action.Yields.bind first rest

theorem Yields.ofAction {owns : α → Multiset Handle} {action : Action Code Host α}
    (yields : action.Yields ledger scene before owns) :
    (Attempt.ofAction action).Yields ledger scene before owns lost := by
  unfold Attempt.Yields
  rw [run_ofAction]
  exact Action.Yields.bind yields fun answer between holds _ =>
    Action.Yields.pure holds

theorem Yields.act_of_eq {action : Action Code Host α}
    (ended : action before = .ok (answer, between))
    (passes : ledger.Passes scene.frame before between)
    (yields : (next answer).Yields ledger scene between post lost) :
    (Attempt.ofAction action >>= next).Yields ledger scene before post lost := by
  unfold Attempt.Yields
  rw [run_ofAction_bind]
  exact Action.Yields.bind_of_eq ended passes yields

theorem Yields.ask {question : Heap Code → Except Fault α}
    (rest : ∀ answer, question before.heap = .ok answer →
      (next answer).Yields ledger scene before post lost) :
    (ObjectHeap.ask question >>= next).Yields ledger scene before post lost := by
  unfold Attempt.Yields
  show ((Attempt.ofAction (ObjectHeap.ask question) >>= next).run).Yields ledger scene before _
  rw [run_ofAction_bind]
  exact Action.Yields.ask rest

/-- What an attempt does in one scene it does beside anything else that is owned. -/
theorem Keeps.frame {owns : α → Multiset Handle} (keeps : attempt.Keeps ledger pre owns lost)
    (rest : Multiset Handle) :
    attempt.Keeps ledger (rest + pre) (fun answer => rest + owns answer) (rest + lost) := by
  intro scene before holds outcome after ended
  obtain ⟨done, passes⟩ := keeps (scene.framing rest) before
    (Ledger.Holds.framing_iff.mpr holds) outcome after ended
  refine ⟨(Ledger.Holds.framing_iff.mp done).congr ?_,
    passes.mono fun handle member => Multiset.mem_add.mpr (Or.inl member)⟩
  cases outcome <;> rfl

theorem Keeps.congr {owns : α → Multiset Handle} {other : Multiset Handle}
    (keeps : attempt.Keeps ledger pre owns lost) (same : pre = other) :
    attempt.Keeps ledger other owns lost := same ▸ keeps

theorem Keeps.pure {owns : α → Multiset Handle} (answer : α) (same : pre = owns answer) :
    Keeps ledger pre (Pure.pure answer) owns lost :=
  fun _ _ holds => .pure (holds.congr same)

theorem Keeps.fail {owns : α → Multiset Handle} (error : Error) :
    Keeps ledger lost (Attempt.fail error) owns lost :=
  fun _ _ holds => .fail holds

theorem Keeps.refuse {owns : α → Multiset Handle} (refusal : Refusal) :
    Keeps ledger lost (Attempt.refuse refusal) owns lost :=
  fun _ _ holds => .refuse holds

theorem Keeps.bind (first : attempt.Keeps ledger pre mid lost)
    (rest : ∀ answer, (next answer).Keeps ledger (mid answer) post lost) :
    (attempt >>= next).Keeps ledger pre post lost :=
  fun scene before holds => .bind (first scene before holds) fun answer between holds _ =>
    rest answer scene between holds

theorem Keeps.act {action : Action Code Host α} (first : action.Keeps ledger pre mid)
    (rest : ∀ answer, (next answer).Keeps ledger (mid answer) post lost) :
    (Attempt.ofAction action >>= next).Keeps ledger pre post lost :=
  fun scene before holds => .act (first scene before holds) fun answer between holds _ =>
    rest answer scene between holds

theorem Keeps.ofAction {owns : α → Multiset Handle} {action : Action Code Host α}
    (keeps : action.Keeps ledger pre owns) :
    (Attempt.ofAction action).Keeps ledger pre owns lost :=
  fun scene before holds => .ofAction (keeps scene before holds)

theorem Keeps.ask {question : Heap Code → Except Fault α}
    (rest : ∀ answer, (next answer).Keeps ledger pre post lost) :
    (ObjectHeap.ask question >>= next).Keeps ledger pre post lost :=
  fun scene before holds => .ask fun answer _ => rest answer scene before holds

/-- What is ensured gives up `rest`, after a success and after an error. -/
theorem Keeps.ensuring {owns : α → Multiset Handle} {action : Action Code Host Unit}
    (attempted : attempt.Keeps ledger pre owns lost) (last : action.Keeps ledger rest fun _ => 0) :
    (attempt.ensuring action).Keeps ledger (pre + rest) owns lost := by
  intro scene before holds
  unfold Attempt.Yields
  rw [run_ensuring]
  refine Action.Yields.bind (attempted.frame rest scene before (holds.congr (add_comm pre rest)))
    fun outcome between holds _ => ?_
  refine Action.Yields.bind (last.spend (outcomeOwns owns lost outcome) scene between
    (holds.congr ?_)) fun _ after done _ => Action.Yields.pure done
  cases outcome <;> exact add_comm _ _

/-- What runs in case of an error gives up `rest`. -/
theorem Keeps.onError {owns : α → Multiset Handle} {action : Action Code Host Unit}
    (attempted : attempt.Keeps ledger pre owns (lost + rest))
    (last : action.Keeps ledger rest fun _ => 0) :
    (attempt.onError action).Keeps ledger pre owns lost := by
  intro scene before holds
  show Action.Yields ledger scene before (attempt.run >>= fun outcome =>
    match outcome with
    | .ok _ => Pure.pure outcome
    | .error _ => action >>= fun _ => Pure.pure outcome) (outcomeOwns owns lost)
  refine Action.Yields.bind (attempted scene before holds) fun outcome between holds _ => ?_
  cases outcome with
  | ok answer => exact Action.Yields.pure holds
  | error error =>
    exact Action.Yields.bind (last.spend lost scene between holds)
      fun _ after done _ => Action.Yields.pure done

/-- What is owned beside an attempt is given up in case of an error. -/
theorem Keeps.guarding {owns : α → Multiset Handle} {action : Action Code Host Unit}
    (attempted : attempt.Keeps ledger pre owns 0) (last : action.Keeps ledger rest fun _ => 0) :
    (attempt.onError action).Keeps ledger (rest + pre) (fun answer => rest + owns answer) 0 := by
  have framed := attempted.frame rest
  rw [add_comm rest 0] at framed
  exact framed.onError last

end Attempt

end ObjectHeap
