/-
This file establishes that comparing, ordering, hashing and rendering values keeps every ledger.
What is looked into is held by references of its own in the meantime, since the classes of the
values run code of the host. The proofs go level by level, as the operations do.
-/

import ObjectHeap.Hash
import ObjectHeap.Order
import ObjectHeap.Proofs.Enclosure
import ObjectHeap.Proofs.Operations

namespace ObjectHeap

variable {Code Host : Type} {ledger : Ledger Code Host} {mine rest lost : Multiset Handle}
  {α : Type}

/-- An attempt leaves what is owned as it is. -/
def Attempt.Balances (ledger : Ledger Code Host) (attempt : Attempt Code Host α) : Prop :=
  attempt.Keeps ledger 0 (fun _ => 0) 0

namespace Attempt.Balances

/-- What is held for an attempt is given up after it. -/
theorem holding {attempt : Attempt Code Host α} (balances : attempt.Balances ledger)
    {action : Action Code Host Unit} (last : action.Keeps ledger rest fun _ => 0) :
    (attempt.ensuring action).Keeps ledger rest (fun _ => 0) 0 :=
  (Keeps.ensuring balances last).congr (zero_add rest)

end Attempt.Balances

namespace Engine

variable {engine : Engine Code Host}

theorem Keeps.ofTruth (keeps : engine.Keeps ledger) (answer : Value) {next : Bool → α} :
    (do
      let truth ← ask fun heap => heap.truth answer
      engine.release answer
      return next truth : Attempt Code Host α).Keeps ledger answer.owns (fun _ => 0) 0 :=
  .ask fun _ => .act (keeps.release answer) fun _ => .pure _ rfl

/-! ### Equality -/

theorem allEqual_balances {equal : Value → Value → Attempt Code Host Bool}
    (balances : ∀ left right, (equal left right).Balances ledger) (lefts rights : List Value) :
    (allEqual equal lefts rights).Balances ledger := by
  induction lefts generalizing rights with
  | nil => cases rights <;> exact .pure _ rfl
  | cons left lefts inductionHypothesis =>
    cases rights with
    | nil => exact .pure _ rfl
    | cons right rights =>
      refine .bind (balances left right) fun same => ?_
      split
      · exact inductionHypothesis rights
      · exact .pure _ rfl

theorem Keeps.methodEquals (keeps : engine.Keeps ledger)
    {equal : Value → Value → Attempt Code Host Bool}
    (balances : ∀ left right, (equal left right).Balances ledger) (method : Handle) (value : Value) :
    (engine.methodEquals equal method value).Balances ledger := by
  refine .ask fun found => ?_
  cases found with
  | none => exact .pure _ rfl
  | some other =>
    dsimp only
    split
    · exact .pure _ rfl
    · refine .ask fun counter => .ask fun otherCounter => ?_
      split
      · exact .pure _ rfl
      · refine .ask fun left => .retainAll (.ask fun right => .retainAll ?_)
        refine .bind (.congr (Attempt.Balances.holding ?_ (keeps.releaseList _)) ?_) fun same => .pure _ rfl
        · split
          · exact .pure _ rfl
          · exact balances _ _
          · exact .pure _ rfl
        · rw [owned_append, zero_add]

theorem Keeps.methodsEqual (keeps : engine.Keeps ledger)
    {equal : Value → Value → Attempt Code Host Bool}
    (balances : ∀ left right, (equal left right).Balances ledger) (left right : Value) :
    (engine.methodsEqual equal left right).Balances ledger := by
  refine .ask fun found => ?_
  cases found with
  | none => exact .pure _ rfl
  | some method => exact keeps.methodEquals balances method right

theorem Keeps.specialEqual (keeps : engine.Keeps ledger) (left right : Value) :
    (engine.specialEqual left right).Balances ledger := by
  refine .bind (keeps.callSpecial left "__eq__" [left, right]) fun answer => ?_
  cases answer with
  | none => exact .pure _ rfl
  | some answer => exact (keeps.ofTruth answer).congr (by simp)

theorem Keeps.contentsEqual (keeps : engine.Keeps ledger)
    {equal : Value → Value → Attempt Code Host Bool}
    (balances : ∀ left right, (equal left right).Balances ledger) (left right : Value) :
    (engine.contentsEqual equal left right).Balances ledger := by
  unfold Engine.contentsEqual
  split
  · refine .ask fun left => .ask fun right => ?_
    split
    · exact .pure _ rfl
    · split
      · exact .pure _ rfl
      · rename_i lefts rights _
        have result : Attempt.Balances ledger (if lefts.length = rights.length then
            allEqual equal lefts rights else return false : Attempt Code Host Bool) := by
          split
          · exact allEqual_balances balances lefts rights
          · exact .pure _ rfl
        exact .retainAll ((result.holding (keeps.releaseList _)).congr (zero_add _).symm)
  · exact .pure _ rfl

theorem Keeps.equalWithin (keeps : engine.Keeps ledger) (levels : Nat) (left right : Value) :
    (engine.equalWithin levels left right).Balances ledger := by
  induction levels generalizing left right with
  | zero => exact .refuse .tooDeep
  | succ levels inductionHypothesis =>
    unfold Engine.equalWithin
    split
    · exact .pure _ rfl
    · dsimp only
      split
      on_goal 1 => split
      · exact .pure _ rfl
      -- The values are not both numbers, and are asked one after the other.
      all_goals
        refine .bind (keeps.methodsEqual inductionHypothesis left right) fun answer => ?_
        split
        · exact .pure _ rfl
        refine .bind (keeps.methodsEqual inductionHypothesis right left) fun answer => ?_
        split
        · exact .pure _ rfl
        refine .bind (keeps.specialEqual left right) fun answer => ?_
        split
        · exact .pure _ rfl
        refine .bind (keeps.specialEqual right left) fun answer => ?_
        split
        · exact .pure _ rfl
        · exact keeps.contentsEqual inductionHypothesis left right

theorem Keeps.equal (keeps : engine.Keeps ledger) (left right : Value) :
    (engine.equal left right).Balances ledger :=
  keeps.equalWithin _ left right

/-! ### Order -/

theorem Keeps.methodOrder (keeps : engine.Keeps ledger)
    {order : Value → Value → Attempt Code Host Ordering}
    (balances : ∀ left right, (order left right).Balances ledger) (method other : Handle) :
    (engine.methodOrder order method other).Balances ledger := by
  refine .ask fun counter => .ask fun otherCounter => ?_
  split
  · exact .pure _ rfl
  · refine .ask fun left => .retainAll (.ask fun right => .retainAll ?_)
    refine .congr (Attempt.Balances.holding ?_ (keeps.releaseList _)) ?_
    · split
      · exact .pure _ rfl
      · exact .pure _ rfl
      · exact .pure _ rfl
      · split
        · exact .pure _ rfl
        · exact balances _ _
    · rw [owned_append, zero_add]

theorem itemsOrder_balances {equal : Value → Value → Attempt Code Host Bool}
    {order : Value → Value → Attempt Code Host Ordering}
    (equals : ∀ left right, (equal left right).Balances ledger)
    (orders : ∀ left right, (order left right).Balances ledger) (lefts rights : List Value) :
    (itemsOrder equal order lefts rights).Balances ledger := by
  induction lefts generalizing rights with
  | nil => exact .pure _ rfl
  | cons left lefts inductionHypothesis =>
    cases rights with
    | nil => exact .pure _ rfl
    | cons right rights =>
      refine .bind (equals left right) fun same => ?_
      split
      · exact inductionHypothesis rights
      · exact orders left right

theorem Keeps.specialOrder (keeps : engine.Keeps ledger)
    {equal : Value → Value → Attempt Code Host Bool}
    (equals : ∀ left right, (equal left right).Balances ledger) (function : Handle)
    (left right : Value) : (engine.specialOrder equal function left right).Balances ledger := by
  have result : Attempt.Balances ledger (do
      if ← equal left right then
        return .eq
      retainAll [left, right]
      let answer ← engine.call (.ref function) (Arguments.ofList [left, right])
      let less ← ask fun heap => heap.truth answer
      engine.release answer
      return if less then .lt else .gt : Attempt Code Host Ordering) := by
    refine .bind (equals left right) fun same => ?_
    split
    · exact .pure _ rfl
    · refine .retainAll (.bind ((keeps.call _ _).congr ?_) fun answer => keeps.ofTruth answer)
      rw [Arguments.owns_ofList, zero_add]
  exact .retain ((result.holding (keeps.release _)).congr (zero_add _).symm)

theorem Keeps.contentsOrder (keeps : engine.Keeps ledger)
    {equal : Value → Value → Attempt Code Host Bool}
    {order : Value → Value → Attempt Code Host Ordering}
    (equals : ∀ left right, (equal left right).Balances ledger)
    (orders : ∀ left right, (order left right).Balances ledger) (left right : Value) :
    (engine.contentsOrder equal order left right).Balances ledger := by
  refine .ask fun payload => .ask fun other => ?_
  split
  · exact .pure _ rfl
  · split
    · rename_i lefts rights _
      have result := itemsOrder_balances equals orders lefts rights
      exact .retainAll ((result.holding (keeps.releaseList _)).congr (zero_add _).symm)
    · exact .ask fun _ => .ask fun _ => .refuse _

theorem Keeps.orderWithin (keeps : engine.Keeps ledger) (levels : Nat) (left right : Value) :
    (engine.orderWithin levels left right).Balances ledger := by
  induction levels generalizing left right with
  | zero => exact .refuse .tooDeep
  | succ levels inductionHypothesis =>
    unfold Engine.orderWithin
    dsimp only
    split
    on_goal 1 => split
    · exact .pure _ rfl
    all_goals
      refine .ask fun method => .ask fun other => ?_
      split
      · exact keeps.methodOrder inductionHypothesis _ _
      · refine .ask fun found => ?_
        split
        · exact keeps.specialOrder (keeps.equalWithin _) _ left right
        · exact keeps.contentsOrder (keeps.equalWithin levels) inductionHypothesis left right

theorem Keeps.order (keeps : engine.Keeps ledger) (left right : Value) :
    (engine.order left right).Balances ledger :=
  keeps.orderWithin _ left right

/-! ### Hash -/

theorem allHashes_balances {hash : Value → Attempt Code Host Int64}
    (balances : ∀ value, (hash value).Balances ledger) (items : List Value) :
    (allHashes hash items).Balances ledger := by
  induction items with
  | nil => exact .pure _ rfl
  | cons item items inductionHypothesis =>
    exact .bind (balances item) fun _ => .bind inductionHypothesis fun _ => .pure _ rfl

theorem Keeps.instanceHash (keeps : engine.Keeps ledger) (object : Value) (handle : Handle) :
    (engine.instanceHash object handle).Balances ledger := by
  refine .bind (keeps.callSpecial object "__hash__" [object]) fun answer => ?_
  split
  · exact .pure _ rfl
  · rename_i answer _
    exact .act ((keeps.release answer).congr (by simp)) fun _ => .refuse _
  · refine .ask fun found => ?_
    split
    · rename_i function
      exact .retain (.act ((keeps.release (.ref function)).congr (by simp)) fun _ => .ask fun _ => .refuse _)
    · exact .currentHeap fun heap => .pure _ rfl

theorem Keeps.hashWithin (keeps : engine.Keeps ledger) (levels : Nat) (value : Value) :
    (engine.hashWithin levels value).Balances ledger := by
  induction levels generalizing value with
  | zero => exact .refuse .tooDeep
  | succ levels inductionHypothesis =>
    cases value with
    | ref handle =>
      refine .ask fun payload => ?_
      cases payload with
      | tuple items =>
        have result := allHashes_balances inductionHypothesis items
        exact .retainAll (.bind ((result.holding (keeps.releaseList items)).congr (zero_add _).symm)
          fun _ => .pure _ rfl)
      | method data => exact .ask fun _ => .pure _ rfl
      | object data => exact keeps.instanceHash _ handle
      | str text => exact .pure _ rfl
      | list items => exact .refuse _
      | _ => exact .currentHeap fun heap => .pure _ rfl
    | _ => exact .pure _ rfl

theorem Keeps.hash (keeps : engine.Keeps ledger) (value : Value) :
    (engine.hash value).Balances ledger :=
  keeps.hashWithin _ value

/-! ### Rendering -/

theorem allTextsInside_balances {render : Value → Attempt Code Host String}
    (balances : ∀ value, (render value).Balances ledger) (items : List Value) :
    (allTextsInside render items).Balances ledger := by
  induction items with
  | nil => exact .pure _ rfl
  | cons item items inductionHypothesis =>
    exact .bind (balances item) fun _ => .bind inductionHypothesis fun _ => .pure _ rfl

theorem weakrefText_balances (handle : Handle) (weakref : Weakref) :
    (weakrefText handle weakref : Attempt Code Host String).Balances ledger := by
  refine .currentHeap fun heap => ?_
  dsimp only
  split
  · exact .ask fun _ => .pure _ rfl
  · exact .pure _ rfl

theorem keeps_methodTarget (method : Method) :
    (methodTarget method : Attempt Code Host String).Keeps ledger mine (fun _ => mine) lost := by
  refine .ask fun data => .currentHeap fun heap => ?_
  split
  · exact .ask fun _ => .pure _ rfl
  · exact .pure _ rfl

theorem Keeps.methodTextInside (keeps : engine.Keeps ledger) {render : Value → Attempt Code Host String}
    (balances : ∀ value, (render value).Balances ledger) (method : Handle) :
    (engine.methodTextInside render method).Balances ledger := by
  refine .ask fun data => .retainAll (.bind (keeps_methodTarget data) fun target => ?_)
  refine .congr (Attempt.Balances.holding ?_ (keeps.releaseList _)) (zero_add _).symm
  split
  · exact .pure _ rfl
  · exact .bind (balances _) fun _ => .pure _ rfl

theorem Keeps.instanceText (keeps : engine.Keeps ledger) (object : Value) (handle : Handle) :
    (engine.instanceText object handle).Balances ledger := by
  refine .bind (keeps.callSpecial object "__repr__" [object]) fun answer => ?_
  split
  · exact .ask fun _ => .currentHeap fun heap => .pure _ rfl
  · rename_i answer
    have gives : (engine.release answer).Keeps ledger (owned (some answer).toList) fun _ => 0 :=
      (keeps.release answer).congr (by simp)
    refine .ask fun text => ?_
    split
    · exact .act gives fun _ => .pure _ rfl
    · exact .ask fun _ => .act gives fun _ => .refuse _

theorem Keeps.sequenceTextInside (keeps : engine.Keeps ledger)
    {render : Value → Attempt Code Host String} (balances : ∀ value, (render value).Balances ledger)
    (enclosing : List Handle) (handle : Handle) (brackets : Brackets) (items : List Value) :
    (engine.sequenceTextInside render enclosing handle brackets items).Balances ledger := by
  refine .retainAll ?_
  rw [zero_add]
  split
  · exact .act (keeps.releaseList items) fun _ => .pure _ rfl
  · exact .bind ((allTextsInside_balances balances items).holding (keeps.releaseList items))
      fun _ => .pure _ rfl

theorem Keeps.renderInside (keeps : engine.Keeps ledger) (levels : Nat) (enclosing : List Handle)
    (value : Value) : (engine.renderInside levels enclosing value).Balances ledger := by
  induction levels generalizing enclosing value with
  | zero => exact .refuse .tooDeep
  | succ levels inductionHypothesis =>
    cases value with
    | ref handle =>
      refine .ask fun payload => ?_
      cases payload with
      | str text => exact .pure _ rfl
      | function data => exact .currentHeap fun heap => .pure _ rfl
      | type data => exact .pure _ rfl
      | weakref data => exact weakrefText_balances handle data
      | method data => exact keeps.methodTextInside (inductionHypothesis enclosing) handle
      | object data => exact keeps.instanceText _ handle
      | list items => exact keeps.sequenceTextInside (inductionHypothesis _) enclosing handle _ items
      | tuple items => exact keeps.sequenceTextInside (inductionHypothesis _) enclosing handle _ items
    | _ => exact .pure _ rfl

theorem Keeps.render (keeps : engine.Keeps ledger) (value : Value) :
    (engine.render value).Balances ledger := by
  rw [engine.render_eq]
  exact keeps.renderInside _ [] value

end Engine

end ObjectHeap
