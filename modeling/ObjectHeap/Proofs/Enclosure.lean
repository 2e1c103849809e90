/-
This file shows that rendering puts back the set of the sequences that are being rendered, after an
error as well. At any time the set therefore has just those sequences in it that enclose what is being
rendered, and rendering comes to what it would come to if every value were told what it stands in.
-/

import ObjectHeap.Rendering
import ObjectHeap.World.Lemmas

namespace ObjectHeap

variable {State Code Host α β : Type}

/-! ### Attempts that put their state back -/

/-- Along a state an attempt comes to what another one comes to, and the state is then what it was. -/
def Along.Restores (along : Along State Code Host α) (state : State) (attempt : Attempt Code Host α) :
    Prop :=
  along.run state = (ofAttempt attempt).run state

namespace Along.Restores

variable {along : Along State Code Host α} {next : α → Along State Code Host β} {state : State}
  {attempt : Attempt Code Host α} {further : α → Attempt Code Host β}

theorem pure (answer : α) :
    (Pure.pure answer : Along State Code Host α).Restores state (Pure.pure answer) := rfl

theorem ofAttempt (attempt : Attempt Code Host α) :
    (Along.ofAttempt attempt).Restores state attempt := rfl

/-- What comes after an attempt that puts its state back starts from the same state. -/
theorem bind (first : along.Restores state attempt)
    (rest : ∀ answer, (next answer).Restores state (further answer)) :
    (along >>= next).Restores state (attempt >>= further) := by
  unfold Restores at first rest ⊢
  rw [run_bind, first, run_ofAttempt, run_ofAttempt, Attempt.run_bind, LawfulMonad.bind_assoc,
    LawfulMonad.bind_assoc]
  refine bind_congr fun outcome => ?_
  rw [LawfulMonad.pure_bind]
  cases outcome with
  | ok answer => exact rest answer
  | error error => exact (LawfulMonad.pure_bind _ _).symm

theorem act {action : Action Code Host α} (rest : ∀ answer, (next answer).Restores state (further answer)) :
    (MonadWorld.act action >>= next).Restores state (MonadWorld.act action >>= further) :=
  .bind (.ofAttempt _) rest

/-- What asks for the state may go by it. -/
theorem asking {next : State → Along State Code Host α} (rest : (next state).Restores state attempt) :
    (Along.state >>= next).Restores state attempt := rest

theorem ensuring (restores : along.Restores state attempt) (action : Action Code Host Unit) :
    (along.ensuring action).Restores state (attempt.ensuring action) := by
  unfold Restores at restores ⊢
  rw [run_ensuring, restores, run_ofAttempt, run_ofAttempt, Attempt.run_ensuring,
    LawfulMonad.bind_assoc, LawfulMonad.bind_assoc]
  refine bind_congr fun outcome => ?_
  rw [LawfulMonad.pure_bind, LawfulMonad.bind_assoc]
  exact bind_congr fun _ => (LawfulMonad.pure_bind _ _).symm

theorem starting (restores : along.Restores state attempt) : along.starting state = attempt := by
  refine Attempt.ext ?_
  unfold Restores at restores
  rw [run_starting, restores, run_ofAttempt, LawfulMonad.bind_assoc]
  refine (bind_congr fun outcome => ?_).trans (bind_pure _)
  exact LawfulMonad.pure_bind _ _

/-- What is put into the set for a while is not in it afterwards. -/
theorem inside {unfinished : List Handle} {handle : Handle} {rendering : Rendering Code Host α}
    (outside : handle ∉ unfinished) (restores : rendering.Restores (handle :: unfinished) attempt) :
    (Rendering.inside handle rendering).Restores unfinished attempt := by
  unfold Restores at restores ⊢
  show (rendering.run (unfinished.insert handle) >>= fun result => _) = _
  rw [List.insert_of_not_mem outside, restores, run_ofAttempt, run_ofAttempt, LawfulMonad.bind_assoc]
  refine bind_congr fun outcome => ?_
  rw [LawfulMonad.pure_bind]
  show (Pure.pure (outcome, (handle :: unfinished).erase handle) : Action Code Host _) = _
  rw [List.erase_cons_head]

end Along.Restores

/-! ### Rendering what stands inside sequences -/

/-- The texts of items in order, where `render` renders one item where it stands. -/
def allTextsInside (render : Value → Attempt Code Host String) :
    List Value → Attempt Code Host (List String)
  | [] => return []
  | item :: rest => do
    let first ← render item
    return first :: (← allTextsInside render rest)

namespace Engine

/-- The text of a method, where `render` renders a receiver where it stands. -/
def methodTextInside (engine : Engine Code Host) (render : Value → Attempt Code Host String)
    (method : Handle) : Attempt Code Host String := do
  let data ← ask fun heap => heap.method method
  retainAll data.parts
  let target ← methodTarget data
  let result : Attempt Code Host String := do
    match data.receiver with
    | none => return s!"<unbound method {target}>"
    | some receiver =>
      let text ← render receiver
      return s!"<bound method {target} of {text}>"
  result.ensuring (engine.releaseList data.parts)

/-- The text of the sequence in a slot that stands in others, where `render` renders an item where it
stands. -/
def sequenceTextInside (engine : Engine Code Host) (render : Value → Attempt Code Host String)
    (enclosing : List Handle) (handle : Handle) (brackets : Brackets) (items : List Value) :
    Attempt Code Host String := do
  retainAll items
  if enclosing.contains handle then
    engine.releaseList items
    return brackets.cut
  else
    let texts ← (allTextsInside render items).ensuring (engine.releaseList items)
    return brackets.enclose texts

/-- The text of a value that stands in some lists and tuples, looking at most so many levels deep. -/
def renderInside (engine : Engine Code Host) :
    Nat → List Handle → Value → Attempt Code Host String
  | 0, _, _ => Attempt.refuse .tooDeep
  | levels + 1, enclosing, value => do
    match value with
    | .nil => return Value.nilText
    | .bool value => return Value.boolText value
    | .int value => return Value.intText value
    | .ref handle =>
      let inside := engine.renderInside levels (handle :: enclosing)
      match ← fetch handle with
      | .str text => return Text.Quoted.render text
      | .function data =>
        let name := data.qualifiedName
        let location := (← currentHeap).location handle
        return s!"<function {name} at {location}>"
      | .type data =>
        let name := data.name
        return s!"<class '{name}'>"
      | .weakref data => weakrefText handle data
      | .method _ => engine.methodTextInside (engine.renderInside levels enclosing) handle
      | .object _ => engine.instanceText value handle
      | .list items => engine.sequenceTextInside inside enclosing handle Brackets.list items
      | .tuple items => engine.sequenceTextInside inside enclosing handle Brackets.tuple items

end Engine

/-! ### Rendering with the set -/

theorem allTexts_restores {render : Value → Rendering Code Host String}
    {renderInside : Value → Attempt Code Host String} {unfinished : List Handle}
    (restores : ∀ item, (render item).Restores unfinished (renderInside item)) (items : List Value) :
    (allTexts render items).Restores unfinished (allTextsInside renderInside items) := by
  induction items with
  | nil => exact .pure []
  | cons item rest inductionHypothesis =>
    exact .bind (restores item) fun first => .bind inductionHypothesis fun later => .pure _

namespace Engine

variable (engine : Engine Code Host) {render : Value → Rendering Code Host String}
  {renderInside : Value → Attempt Code Host String} {unfinished : List Handle}

theorem methodText_restores
    (restores : ∀ value, (render value).Restores unfinished (renderInside value)) (method : Handle) :
    (engine.methodText render method).Restores unfinished
      (engine.methodTextInside renderInside method) := by
  refine .act fun data => .act fun _ => .bind (.ofAttempt _) fun target => .ensuring ?_ _
  cases data.receiver with
  | none => exact .pure _
  | some receiver => exact .bind (restores receiver) fun text => .pure _

/-- Whether a sequence is cut short is told by the set, and its items are rendered with the sequence in
the set. -/
theorem sequenceText_restores {handle : Handle}
    (restores : ∀ item, (render item).Restores (handle :: unfinished) (renderInside item))
    (brackets : Brackets) (items : List Value) :
    (engine.sequenceText render handle brackets items).Restores unfinished
      (engine.sequenceTextInside renderInside unfinished handle brackets items) := by
  refine .act fun _ => .asking ?_
  split
  · exact .act fun _ => .pure _
  · rename_i outside
    have absent : handle ∉ unfinished := fun member => outside (List.contains_iff_mem.mpr member)
    exact .bind (.ensuring (.inside absent (allTexts_restores restores items)) _) fun texts => .pure _

/-- Rendering goes by what encloses a value and puts the set back. -/
theorem renderWithin_restores (levels : Nat) (unfinished : List Handle) (value : Value) :
    (engine.renderWithin levels value).Restores unfinished
      (engine.renderInside levels unfinished value) := by
  -- The items of a sequence are rendered with one more slot in the set.
  induction levels generalizing unfinished value with
  | zero => exact .ofAttempt _
  | succ levels inductionHypothesis =>
    cases value with
    | ref handle =>
      refine .act fun payload => ?_
      cases payload with
      | function data => exact .act fun heap => .pure _
      | weakref data => exact .ofAttempt _
      | method data => exact engine.methodText_restores (inductionHypothesis unfinished) handle
      | object data => exact .ofAttempt _
      | list items =>
        exact engine.sequenceText_restores (inductionHypothesis _) Brackets.list items
      | tuple items =>
        exact engine.sequenceText_restores (inductionHypothesis _) Brackets.tuple items
      | str text | type data => exact .pure _
    | _ => exact .pure _

/-- The text of a value is that of the value where it stands in nothing. -/
theorem render_eq (value : Value) :
    engine.render value = engine.renderInside (maxDataDepth + 1) [] value :=
  (engine.renderWithin_restores _ [] value).starting

end Engine

end ObjectHeap
