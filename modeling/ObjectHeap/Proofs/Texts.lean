/-
This file establishes that comparing, hashing and rendering values that no class has a say in is no
more than looking at them. For equality, order and hash this is known; here it is shown for texts,
which are a plain function of what is in the slots too. So between operations all four leave the very
heap that was there, whatever they come to. While releases are worked off, the references that were
taken on the way wait with the others, and are counted until their turn comes.
-/

import ObjectHeap.Proofs.Dispatch
import ObjectHeap.Proofs.Likeness

namespace ObjectHeap

variable {Code Host : Type} {heap : Heap Code} {outside : Multiset Handle} {limbo : List Handle}
  {names : List String} {value : Value}

/-! ### Texts -/

/-- The texts of items in order, where `render` tells the text of one item. -/
def Form.allTexts (render : Value → Except Error String) : List Value → Except Error (List String)
  | [] => return []
  | item :: rest => do return (← render item) :: (← allTexts render rest)

namespace Heap

/-- The text of a weak reference. -/
def weakrefTitle (heap : Heap Code) (handle : Handle) (weakref : Weakref) : String :=
  let location := heap.location handle
  match weakref.target.filter heap.isLive with
  | some target =>
    let type := heap.typeTitle (.ref target)
    let targetLocation := heap.location target
    s!"<weakref at {location}; to '{type}' at {targetLocation}>"
  | none => s!"<weakref at {location}; dead>"

/-- How a method is named in its text, given its function. -/
def methodTitle (heap : Heap Code) (method : Method) (function : Function Code) : String :=
  match heap.methodStyle with
  | .classQualified => (heap.ownerName method.owner).toOption.getD "" ++ "." ++ function.name
  | .qualifiedName => function.qualifiedName

/-- The function in a slot, if there is one. -/
def function? (heap : Heap Code) (handle : Handle) : Option (Function Code) :=
  (heap.function handle).toOption

/-- The text of a method, where `render` tells the text of a receiver. -/
def methodText (heap : Heap Code) (render : Value → Except Error String) (method : Method) :
    Except Error String :=
  let target := ((heap.function? method.function).map (heap.methodTitle method)).getD ""
  match method.receiver with
  | none => return s!"<unbound method {target}>"
  | some receiver => do
    let text ← render receiver
    return s!"<bound method {target} of {text}>"

/-- The text of a sequence, which is cut short inside itself. -/
def sequenceText (render : Value → Except Error String) (enclosing : List Handle) (handle : Handle)
    (brackets : Brackets) (items : List Value) : Except Error String :=
  if enclosing.contains handle then return brackets.cut
  else return brackets.enclose (← Form.allTexts render items)

/-- The text of a value, looking at most so many levels deep, inside the sequences that enclose it. -/
def renders (heap : Heap Code) : Nat → List Handle → Value → Except Error String
  | 0, _, _ => .error Refusal.tooDeep.error
  | _ + 1, _, .nil => return Value.nilText
  | _ + 1, _, .bool value => return Value.boolText value
  | _ + 1, _, .int value => return Value.intText value
  | levels + 1, enclosing, .ref handle =>
    let location := heap.location handle
    match heap.payload? handle with
    | none => return ""
    | some (.str text) => return Text.Quoted.render text
    | some (.function data) =>
      let name := data.qualifiedName
      return s!"<function {name} at {location}>"
    | some (.type data) =>
      let name := data.name
      return s!"<class '{name}'>"
    | some (.weakref data) => return heap.weakrefTitle handle data
    | some (.method data) => heap.methodText (heap.renders levels enclosing) data
    | some (.object _) =>
      let type := heap.typeTitle (.ref handle)
      return s!"<{type} object at {location}>"
    | some (.list items) =>
      sequenceText (heap.renders levels (handle :: enclosing)) enclosing handle .list items
    | some (.tuple items) =>
      sequenceText (heap.renders levels (handle :: enclosing)) enclosing handle .tuple items

variable {shown : Heap Code}

theorem Shows.location (shows : heap.Shows shown) : shown.location = heap.location := by
  funext handle
  unfold Heap.location
  rw [shows.publicId]

theorem function?_of_payload? {handle : Handle} {data : Function Code}
    (held : heap.payload? handle = some (.function data)) : heap.function? handle = some data := by
  unfold function? Heap.function
  rw [heap.read_eq_ok.mpr held]
  rfl

/-- What is owned with a reference to an entry that is there is there. -/
theorem isLive_of_owns {target : Handle} (live : heap.isLive target) :
    ∀ place ∈ (Value.ref target).owns, heap.isLive place := by
  intro place member
  obtain rfl := Multiset.mem_singleton.mp member
  exact live

/-- To take references and then look is to look and then take references. -/
theorem holding_postponing (heap : Heap Code) (handles others : List Handle) :
    (heap.holding handles).postponing others = (heap.postponing others).holding handles := by
  have books := heap.books_holding handles
  have pending : (heap.holding handles).pending = heap.pending := (congrArg Heap.pending books :)
  unfold postponing
  rw [holding_comm, pending]
  exact ((heap.holding others).holding_pending (others.reverse ++ heap.pending) handles).symm

end Heap

open Heap

/-! ### Rendering is looking -/

namespace Attempt.Looks

variable {α β : Type} {attempt : Attempt Code Host α} {next : α → Attempt Code Host β}
  {held : List Value} {last : Except Error β}

/-- What is asked of the heap as it is depends on what it shows. -/
theorem currentHeap {next : Heap Code → Attempt Code Host α} {outcome : Except Error α}
    (rest : ∀ shown, heap.Shows shown → (next shown).Looks heap held outcome) :
    ((ObjectHeap.currentHeap : Action Code Host (Heap Code)) >>= next : Attempt Code Host α).Looks heap
      held outcome := by
  intro world shows
  obtain ⟨after, ended, observed⟩ := rest _ (shows.holding _) world shows
  exact ⟨after, (Attempt.run_act_bind (currentHeap_apply _)).trans ended, observed⟩

/-- What is looked at while references are held leaves them to what comes next. -/
theorem first {found : α} (looks : attempt.Looks heap [] (.ok found))
    (rest : (next found).Looks heap held last) : (attempt >>= next).Looks heap held last := by
  intro world shows
  let handles := held.filterMap Value.handle?
  obtain ⟨_, ended, others, idle, rfl⟩ :=
    looks { world with heap := world.heap.holding handles } (shows.holding _)
  have books := world.heap.books_holding handles
  have observed : world.heap.Observed (world.heap.postponing others) :=
    ⟨others, fun still => idle ((congrArg Heap.releasing books :).trans still), rfl⟩
  obtain ⟨after, going, later⟩ :=
    rest { world with heap := world.heap.postponing others } (shows.observed observed)
  rw [← holding_postponing] at going
  exact ⟨after, (run_bind_of_ok ended).trans going, observed.trans later⟩

/-- References that were taken are given up before the answer. -/
theorem releasing {engine : Engine Code Host} (enough : 0 < engine.rounds)
    (live : ∀ handle ∈ owned held, heap.isLive handle) (answer : α) :
    ((engine.releaseList held : Action Code Host Unit) >>= fun _ => Pure.pure answer :
      Attempt Code Host α).Looks heap held (.ok answer) := by
  intro world shows
  obtain ⟨after, ended, observed⟩ := engine.releaseList_of_held enough shows live (.refl _)
  exact ⟨after, (run_act_bind ended).trans rfl, observed⟩

end Attempt.Looks

theorem allTextsInside_looks {render : Value → Attempt Code Host String}
    {renders : Value → Except Error String} {items : List Value}
    (looks : ∀ item ∈ items, (render item).Looks heap [] (renders item)) :
    (allTextsInside render items).Looks heap [] (Form.allTexts renders items) := by
  induction items with
  | nil => exact .pure []
  | cons item rest inductionHypothesis =>
    refine .bind _ (looks item List.mem_cons_self) fun first _ => ?_
    exact .bind _ (inductionHypothesis fun other member => looks other (List.mem_cons_of_mem _ member))
      fun later _ => .pure _

/-- The text of a weak reference tells what is there of its target. -/
theorem Heap.Sound.looks_weakrefText (sound : heap.Sound outside limbo) (handle : Handle)
    (weakref : Weakref) :
    (weakrefText handle weakref : Attempt Code Host String).Looks heap []
      (.ok (heap.weakrefTitle handle weakref)) := by
  refine .currentHeap fun shown shows => ?_
  unfold weakrefTitle
  rw [shows.location, show shown.isLive = heap.isLive from funext shows.isLive]
  cases aimed : weakref.target.filter heap.isLive with
  | none => exact .pure _
  | some target =>
    have live : heap.isLive target := (Option.filter_eq_some_iff.mp aimed).2
    refine .ask (heap.typeTitle (.ref target)) (fun again also => ?_) (.pure _)
    rw [also.typeName]
    exact sound.typeName_ok (isLive_of_owns live)

/-- A method is named after its function and its owner. -/
theorem Heap.Sound.looks_methodTarget (sound : heap.Sound outside limbo) {method : Handle}
    {data : Method} (held : heap.payload? method = some (.method data)) :
    (methodTarget data : Attempt Code Host String).Looks heap []
      (.ok (((heap.function? data.function).map (heap.methodTitle data)).getD "")) := by
  obtain ⟨function, wraps⟩ := sound.exists_function held
  rw [function?_of_payload? wraps]
  refine .ask function (fun shown shows => ?_) (.currentHeap fun shown shows => ?_)
  · rw [shows.function]
    exact Heap.bind_eq_ok.mpr ⟨_, heap.read_eq_ok.mpr wraps, rfl⟩
  show Attempt.Looks heap [] _ (.ok (heap.methodTitle data function))
  unfold methodTitle
  rw [shows.style]
  cases heap.methodStyle with
  | qualifiedName => exact .pure _
  | classQualified =>
    have named : ∃ name, heap.ownerName data.owner = .ok name := by
      cases owned : data.owner with
      | none => exact ⟨_, rfl⟩
      | some owner =>
        refine sound.ownerName_ok fun place member => sound.isLive_of_method held place ?_
        obtain rfl := List.mem_singleton.mp (mem_owned.mp member)
        exact mem_owned.mpr (List.mem_append_right _ (Option.mem_toList.mpr owned))
    obtain ⟨name, called⟩ := named
    rw [called]
    refine .ask name (fun again also => ?_) (.pure _)
    rw [also.ownerName, called]

namespace Engine

variable (engine : Engine Code Host) (sound : heap.Sound outside limbo) (enough : 0 < engine.rounds)

section

variable {render : Value → Attempt Code Host String} {renders : Value → Except Error String}
  (looks : ∀ part, heap.HasPart value part → (render part).Looks heap [] (renders part))

include sound enough looks

theorem methodTextInside_looks {method : Handle} {data : Method}
    (held : heap.payload? method = some (.method data)) (same : value = .ref method) :
    (engine.methodTextInside render method).Looks heap [] (heap.methodText renders data) := by
  subst same
  have live := sound.isLive_of_method held
  refine .ask data (fun shown shows => ?_) (.retainAll live (.first (sound.looks_methodTarget held)
    (.ensuring enough live ?_)))
  · rw [shows.method]
    exact Heap.bind_eq_ok.mpr ⟨_, heap.read_eq_ok.mpr held, rfl⟩
  unfold Heap.methodText
  cases bound : data.receiver with
  | none => exact .pure _
  | some receiver => exact .bind _ (looks receiver (part_receiver held bound)) fun text _ => .pure _

theorem sequenceTextInside_looks {handle : Handle} {items : List Value} (enclosing : List Handle)
    (brackets : Brackets) (parts : (heap.form value).parts = items) :
    (engine.sequenceTextInside render enclosing handle brackets items).Looks heap []
      (Heap.sequenceText renders enclosing handle brackets items) := by
  subst parts
  have live (place) (member : place ∈ owned (heap.form value).parts) : heap.isLive place :=
    sound.balanced.isLive_part (mem_owned.mp member) place (Multiset.mem_singleton_self place)
  refine .retainAll live ?_
  unfold Heap.sequenceText
  split
  · exact .releasing enough live _
  · exact .bind _ (.ensuring enough live (allTextsInside_looks fun item member => looks item member))
      fun texts _ => .pure _

end

/-- An instance whose class says nothing about its text is named by its type and its place. -/
theorem instanceText_looks {handle : Handle} (live : heap.isLive handle)
    (lacking : heap.special? (.ref handle) "__repr__" = .ok none)
    (sound : heap.Sound outside limbo) :
    (engine.instanceText (.ref handle) handle).Looks heap []
      (let type := heap.typeTitle (.ref handle)
       let location := heap.location handle
       .ok s!"<{type} object at {location}>") := by
  refine .bind_ok (callSpecial_of_none lacking) (.ask (heap.typeTitle (.ref handle))
    (fun shown shows => ?_) (.currentHeap fun shown shows => ?_))
  · rw [shows.typeName]
    exact sound.typeName_ok (isLive_of_owns live)
  · rw [shows.location]
    exact .pure _

include sound enough in
/-- The text of a plain value is what can be told from the heap. -/
theorem renderInside_looks (listed : "__repr__" ∈ names) (levels : Nat) (enclosing : List Handle)
    (plain : heap.Plain names value) :
    (engine.renderInside levels enclosing value).Looks heap []
      (heap.renders levels enclosing value) := by
  induction levels generalizing enclosing value with
  | zero => exact .refuse .tooDeep
  | succ levels inductionHypothesis =>
    cases value with
    | ref handle =>
      have live := plain.live handle (Multiset.mem_singleton_self _)
      obtain ⟨payload, held⟩ := exists_payload?_of_isLive live
      -- The enclosing containers differ from part to part, and so the induction is for all of them.
      have looks (enclosing) (part) (isPart : heap.HasPart (.ref handle) part) :=
        inductionHypothesis enclosing (plain.part sound.balanced isPart)
      have form := form_of_payload? held
      unfold Heap.renders
      rw [held]
      refine .ask payload (fun shown shows => by rw [shows.read, heap.read_eq_ok.mpr held]) ?_
      cases payload with
      | str text => exact .pure _
      | function data =>
        refine .currentHeap fun shown shows => ?_
        rw [shows.location]
        exact .pure _
      | type data => exact .pure _
      | weakref data => exact sound.looks_weakrefText handle data
      | method data => exact engine.methodTextInside_looks sound enough (looks enclosing) held rfl
      | object data =>
        exact engine.instanceText_looks live (sound.special?_eq_none plain listed) sound
      | list items =>
        exact engine.sequenceTextInside_looks sound enough (looks _) enclosing .list
          (congrArg Form.parts form)
      | tuple items =>
        exact engine.sequenceTextInside_looks sound enough (looks _) enclosing .tuple
          (congrArg Form.parts form)
    | _ => exact .pure _

include sound enough in
theorem render_looks (listed : "__repr__" ∈ names) (plain : heap.Plain names value) :
    (engine.render value).Looks heap [] (heap.renders (maxDataDepth + 1) [] value) := by
  rw [engine.render_eq]
  exact engine.renderInside_looks sound enough listed _ [] plain

end Engine

/-! ### Looking changes nothing -/

/-- An operation ends, with an answer or an error, and leaves the heap as it was. While releases are
worked off, some references wait for theirs afterwards, each of them counted, and that is all. -/
def Attempt.LeavesAlone {α : Type} (attempt : Attempt Code Host α) (world : World Code Host) : Prop :=
  ∃ outcome after, attempt.run world = .ok (outcome, { world with heap := after }) ∧
    (world.heap.releasing = false → after = world.heap) ∧
    ∃ handles, after = world.heap.postponing handles

theorem Attempt.Tells.leavesAlone {α : Type} {attempt : Attempt Code Host α}
    {world : World Code Host} {outcome : Except Error α} (tells : attempt.Tells world outcome) :
    attempt.LeavesAlone world := by
  obtain ⟨after, ended, observed⟩ := tells
  refine ⟨outcome, after, ended, observed.eq_of_idle, ?_⟩
  obtain ⟨handles, _, same⟩ := observed
  exact ⟨handles, same⟩

/-- Comparing, hashing and rendering values that no class has a say in leaves the heap alone. -/
theorem Engine.looking_leaves_the_heap_alone (engine : Engine Code Host) {world : World Code Host}
    (sound : world.heap.Sound outside limbo)
    (settled : world.heap.releasing = false → world.heap.pending = []) (enough : 0 < engine.rounds)
    {left right : Value} (plain : ∀ value ∈ [left, right],
      world.heap.Plain ["__eq__", "__hash__", "__lt__", "__repr__"] value) :
    (engine.equal left right).LeavesAlone world ∧ (engine.order left right).LeavesAlone world ∧
      (engine.hash left).LeavesAlone world ∧ (engine.render left).LeavesAlone world := by
  have shows := sound.shows settled
  have one := plain left List.mem_cons_self
  have other := plain right (List.mem_cons_of_mem _ List.mem_cons_self)
  exact ⟨((engine.equalWithin_looks sound enough (by decide) _ one other).tells shows).leavesAlone,
    ((engine.orderWithin_looks sound enough (by decide) (by decide) _ one other).tells
      shows).leavesAlone,
    ((engine.hashWithin_looks sound enough (by decide) (by decide) _ one).tells shows).leavesAlone,
    ((engine.render_looks sound enough (by decide) one).tells shows).leavesAlone⟩

/-- Lists of one list that contains itself, and that is bound to a method in one of them. -/
theorem Engine.looking_at_lists_of_cycle : ∃ world : World Unit (Recorded Unit Unit),
    Reached (fun _ => 0) idleBodies Config.standard ({0} + {1} + {3} + {4}) world ∧
    ((bodiesEngine idleBodies 4).equal (.ref 3) (.ref 4)).LeavesAlone world ∧
    ((bodiesEngine idleBodies 4).order (.ref 3) (.ref 4)).LeavesAlone world ∧
    ((bodiesEngine idleBodies 4).hash (.ref 3)).LeavesAlone world ∧
    ((bodiesEngine idleBodies 4).render (.ref 3)).LeavesAlone world := by
  obtain ⟨world, reached, silent⟩ : ∃ world : World Unit (Recorded Unit Unit),
      Reached (fun _ => 0) idleBodies Config.standard ({0} + {1} + {3} + {4}) world ∧
      world.heap.isSilent ["__eq__", "__hash__", "__lt__", "__repr__"] = true :=
    Reached.exists_follow [.newFunction "f" none none (), .newList [], .share (.ref 1),
      .append (.ref 1) (.ref 1), .newMethod (.ref 0) (.ref 1) .nil, .newList [.ref 2],
      .share (.ref 1), .newList [.ref 1]] 4 () _ _ rfl (by decide +kernel)
  have holds := reached.holds respectful_idleBodies
  have plain : ∀ value ∈ [Value.ref 3, .ref 4],
      world.heap.Plain ["__eq__", "__hash__", "__lt__", "__repr__"] value :=
    fun value member => reached.plain respectful_idleBodies silent ((by decide :
      ∀ value ∈ [Value.ref 3, .ref 4], value.owns ≤ {0} + {1} + {3} + {4}) value member)
  exact ⟨world, reached, (bodiesEngine idleBodies 4).looking_leaves_the_heap_alone holds.sound
    (fun _ => holds.settled rfl) (by decide) plain⟩

/-- Whether two values are plain in a heap of a run in which releases are worked off, what their
comparison comes to there, and how often an entry is counted before and after it. -/
def Engine.comparedInCallback (engine : Engine Code (Recorded Code Host)) (left right handle : Handle)
    (state : World Code (Recorded Code Host)) : Option (Bool × Bool × Nat × Nat) := do
  let heap ← (Reached.heaps state).find? Heap.releasing
  match (engine.equal (.ref left) (.ref right)).run { state with heap } with
  | .ok (.ok verdict, after) =>
    return (heap.isSilent ["__eq__", "__hash__", "__lt__", "__repr__"] && heap.isLive left &&
      heap.isLive right, verdict, heap.tally handle, after.heap.tally handle)
  | _ => none

/-- In a callback, the references to the items of lists that are compared still wait when the
comparison has ended. -/
theorem Engine.comparing_in_callback_counts :
    ∃ (state : World Unit (Recorded Unit Unit)) (hand : Multiset Handle) (heap : Heap Unit),
      Reached (fun _ => 0) idleBodies Config.standard hand state ∧ heap ∈ Reached.heaps state ∧
      (∀ value ∈ [Value.ref 5, .ref 6],
        heap.Plain ["__eq__", "__hash__", "__lt__", "__repr__"] value) ∧
      ∃ after, ((bodiesEngine idleBodies 4).equal (.ref 5) (.ref 6)).run { state with heap } =
        .ok (.ok true, after) ∧ after.heap.tally 4 ≠ heap.tally 4 := by
  obtain ⟨state, reached, seen⟩ : ∃ state : World Unit (Recorded Unit Unit),
      Reached (fun _ => 0) idleBodies Config.standard ({0} + {3} + {5} + {6}) state ∧
      (bodiesEngine idleBodies 4).comparedInCallback 5 6 4 state = some (true, true, 2, 4) :=
    Reached.exists_follow [.newClass "C" [], .newInstance (.ref 0), .newFunction "f" none none (),
      .newWeakref (.ref 1) (some (.ref 2)), .newList [], .share (.ref 4), .newList [.ref 4],
      .newList [.ref 4], .drop (.ref 1)] 8 () _ _ rfl (by decide +kernel)
  obtain ⟨heap, found, seen⟩ := Option.bind_eq_some_iff.mp seen
  split at seen
  · rename_i verdict after ended
    simp only [pure, Option.some.injEq, Prod.mk.injEq, Bool.and_eq_true] at seen
    obtain ⟨⟨⟨silent, first⟩, second⟩, rfl, before, later⟩ := seen
    refine ⟨state, _, heap, reached, List.mem_of_find?_eq_some found, fun value member => ?_,
      after, ended, by rw [later, before]; decide⟩
    refine ⟨?_, lacks_of_isSilent silent value⟩
    rcases List.mem_pair.mp member with rfl | rfl
    · exact isLive_of_owns first
    · exact isLive_of_owns second
  · cases seen

end ObjectHeap
