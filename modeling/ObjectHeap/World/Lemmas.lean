/-
This file establishes how changes of the world compose. An attempt goes on only after a
success, an action runs to its end or stops at a fault, and each of the small changes that
all others are made of has one equation. Proofs about operations rest on these equations and
look at none of the definitions behind them.
-/

import ObjectHeap.World

namespace ObjectHeap

variable {Code Host : Type} {α β : Type}

/-! ### Actions -/

namespace Action

/-- An action that ended came through both of its parts. -/
theorem bind_eq_ok {action : Action Code Host α} {next : α → Action Code Host β}
    {before after : World Code Host} {answer : β} :
    (action >>= next) before = .ok (answer, after) ↔
      ∃ found between, action before = .ok (found, between) ∧
        next found between = .ok (answer, after) := by
  show (action before >>= fun pair => next pair.1 pair.2) = .ok (answer, after) ↔ _
  cases ended : action before with
  | error fault => simp [bind, Except.bind]
  | ok pair =>
    obtain ⟨found, between⟩ := pair
    constructor
    · intro rest
      exact ⟨found, between, rfl, rest⟩
    · rintro ⟨other, later, same, rest⟩
      cases same
      exact rest

/-- A fault comes from one of the two parts. -/
theorem bind_eq_error {action : Action Code Host α} {next : α → Action Code Host β}
    {before : World Code Host} {fault : Fault} :
    (action >>= next) before = .error fault ↔
      action before = .error fault ∨
        ∃ found between, action before = .ok (found, between) ∧
          next found between = .error fault := by
  show (action before >>= fun pair => next pair.1 pair.2) = .error fault ↔ _
  cases ended : action before with
  | error other => simp [bind, Except.bind]
  | ok pair =>
    obtain ⟨found, between⟩ := pair
    constructor
    · intro rest
      exact Or.inr ⟨found, between, rfl, rest⟩
    · rintro (stopped | ⟨other, later, same, rest⟩)
      · cases stopped
      · cases same
        exact rest

theorem pure_apply (answer : α) (world : World Code Host) :
    (pure answer : Action Code Host α) world = .ok (answer, world) := rfl

end Action

/-! ### Attempts -/

namespace Attempt

@[ext] theorem ext {first second : Attempt Code Host α} (same : first.run = second.run) :
    first = second := by
  cases first
  cases second
  exact congrArg Attempt.mk same

@[simp] theorem run_pure (answer : α) :
    (pure answer : Attempt Code Host α).run = pure (.ok answer) := rfl

theorem run_bind (attempt : Attempt Code Host α) (next : α → Attempt Code Host β) :
    (attempt >>= next).run =
      attempt.run >>= fun outcome =>
        match outcome with
        | .ok answer => (next answer).run
        | .error error => pure (.error error) := rfl

@[simp] theorem run_ofAction (action : Action Code Host α) :
    (ofAction action).run = action >>= fun answer => pure (.ok answer) := rfl

theorem run_ensuring (attempt : Attempt Code Host α) (action : Action Code Host Unit) :
    (attempt.ensuring action).run =
      attempt.run >>= fun outcome => action >>= fun _ => pure outcome := rfl

theorem map_id (attempt : Attempt Code Host α) : id <$> attempt = attempt := by
  apply ext
  show (attempt.run >>= fun outcome =>
    match outcome with
    | .ok answer => (pure (.ok (id answer)) : Action Code Host (Except Error α))
    | .error error => pure (.error error)) = attempt.run
  have same : (fun outcome : Except Error α =>
      match outcome with
      | .ok answer => (pure (.ok (id answer)) : Action Code Host (Except Error α))
      | .error error => pure (.error error)) = pure := by
    funext outcome
    cases outcome <;> rfl
  rw [same, bind_pure]

theorem pure_andThen (answer : α) (next : α → Attempt Code Host β) :
    pure answer >>= next = next answer := by
  apply ext
  rw [run_bind, run_pure, LawfulMonad.pure_bind]

theorem andThen_assoc {γ : Type} (attempt : Attempt Code Host α)
    (next : α → Attempt Code Host β) (last : β → Attempt Code Host γ) :
    attempt >>= next >>= last = attempt >>= fun answer => next answer >>= last := by
  apply ext
  rw [run_bind, run_bind, run_bind, LawfulMonad.bind_assoc]
  congr 1
  funext outcome
  cases outcome with
  | ok answer => rfl
  | error error => rw [LawfulMonad.pure_bind]

/-- Attempts obey the laws of sequencing. -/
instance : LawfulMonad (Attempt Code Host) :=
  LawfulMonad.mk' _ map_id pure_andThen andThen_assoc

/-- An attempt that succeeded came through both of its parts. -/
theorem bind_eq_ok {attempt : Attempt Code Host α} {next : α → Attempt Code Host β}
    {before after : World Code Host} {answer : β} :
    (attempt >>= next).run before = .ok (.ok answer, after) ↔
      ∃ found between, attempt.run before = .ok (.ok found, between) ∧
        (next found).run between = .ok (.ok answer, after) := by
  rw [run_bind, Action.bind_eq_ok]
  constructor
  · rintro ⟨outcome, between, first, rest⟩
    cases outcome with
    | ok found => exact ⟨found, between, first, rest⟩
    | error error => cases rest
  · rintro ⟨found, between, first, rest⟩
    exact ⟨.ok found, between, first, rest⟩

/-- After an action an attempt goes on in any case. -/
theorem run_ofAction_bind (action : Action Code Host α) (next : α → Attempt Code Host β) :
    (ofAction action >>= next).run = action >>= fun answer => (next answer).run := by
  rw [run_bind, run_ofAction, LawfulMonad.bind_assoc]
  congr 1

/-- What is ensured runs after a success and after an error. -/
theorem ensuring_eq_ok {attempt : Attempt Code Host α} {action : Action Code Host Unit}
    {before after : World Code Host} {outcome : Except Error α} :
    (attempt.ensuring action).run before = .ok (outcome, after) ↔
      ∃ between, attempt.run before = .ok (outcome, between) ∧
        action between = .ok ((), after) := by
  rw [run_ensuring, Action.bind_eq_ok]
  constructor
  · rintro ⟨found, between, first, rest⟩
    obtain ⟨_, later, ran, ended⟩ := Action.bind_eq_ok.mp rest
    cases ended
    exact ⟨between, first, ran⟩
  · rintro ⟨between, first, ran⟩
    exact ⟨outcome, between, first, Action.bind_eq_ok.mpr ⟨(), after, ran, rfl⟩⟩

/-- What runs in case of an error does not run after a success. -/
theorem onError_eq_ok_ok {attempt : Attempt Code Host α} {action : Action Code Host Unit}
    {before after : World Code Host} {answer : α} :
    (attempt.onError action).run before = .ok (.ok answer, after) ↔
      attempt.run before = .ok (.ok answer, after) := by
  show (attempt.run >>= fun outcome =>
    match outcome with
    | .ok _ => pure outcome
    | .error _ => action >>= fun _ => pure outcome) before = _ ↔ _
  rw [Action.bind_eq_ok]
  constructor
  · rintro ⟨outcome, between, first, rest⟩
    cases outcome with
    | ok found =>
      cases rest
      exact first
    | error error =>
      obtain ⟨_, later, _, ended⟩ := Action.bind_eq_ok.mp rest
      cases ended
  · intro first
    exact ⟨.ok answer, after, first, rfl⟩

end Attempt

/-! ### Attempts along a state -/

namespace Along

variable {State : Type} (state : State)

theorem run_bind (along : Along State Code Host α) (next : α → Along State Code Host β) :
    (along >>= next).run state =
      along.run state >>= fun result =>
        match result with
        | (.ok answer, state) => (next answer).run state
        | (.error error, state) => pure (.error error, state) := by
  refine bind_congr fun result => ?_
  obtain ⟨outcome, later⟩ := result
  cases outcome <;> rfl

theorem run_ofAttempt (attempt : Attempt Code Host α) :
    (ofAttempt attempt : Along State Code Host α).run state =
      attempt.run >>= fun outcome => pure (outcome, state) := rfl

theorem run_ensuring (along : Along State Code Host α) (action : Action Code Host Unit) :
    (along.ensuring action).run state =
      along.run state >>= fun result => action >>= fun _ => pure result := rfl

theorem run_starting (along : Along State Code Host α) :
    (along.starting state).run = along.run state >>= fun result => pure result.1 := rfl

end Along

/-! ### The small changes -/

section

variable (world : World Code Host)

theorem currentHeap_apply :
    (currentHeap : Action Code Host (Heap Code)) world = .ok (world.heap, world) := rfl

theorem modifyHeap_apply (change : Heap Code → Heap Code) :
    (modifyHeap change : Action Code Host Unit) world =
      .ok ((), { world with heap := change world.heap }) := rfl

theorem changeHeap_apply (change : Heap Code → α × Heap Code) :
    (changeHeap change : Action Code Host α) world =
      .ok ((change world.heap).1, { world with heap := (change world.heap).2 }) := rfl

/-- A question leaves the world as it is. -/
theorem ask_apply (question : Heap Code → Except Fault α) :
    (ask question : Action Code Host α) world =
      (question world.heap).map fun answer => (answer, world) := by
  cases answered : question world.heap with
  | ok answer =>
    refine (Action.bind_eq_ok.mpr ⟨world.heap, world, rfl, ?_⟩).trans rfl
    rw [answered]
    rfl
  | error fault =>
    refine (Action.bind_eq_error.mpr (Or.inr ⟨world.heap, world, rfl, ?_⟩)).trans rfl
    rw [answered]
    rfl

theorem ask_eq_ok {question : Heap Code → Except Fault α} {before after : World Code Host}
    {answer : α} :
    (ask question : Action Code Host α) before = .ok (answer, after) ↔
      question before.heap = .ok answer ∧ after = before := by
  rw [ask_apply]
  cases question before.heap with
  | error fault => simp [Except.map]
  | ok found => simp [Except.map, eq_comm]

namespace Attempt

/-- An attempt that begins with an action goes on with its answer. -/
theorem act_bind_eq_ok {action : Action Code Host α} {next : α → Attempt Code Host β}
    {before after : World Code Host} {outcome : Except Error β} :
    (ofAction action >>= next).run before = .ok (outcome, after) ↔
      ∃ answer between, action before = .ok (answer, between) ∧
        (next answer).run between = .ok (outcome, after) := by
  rw [run_ofAction_bind, Action.bind_eq_ok]

/-- An attempt that begins with a question goes on with its answer. -/
theorem ask_bind_eq_ok {question : Heap Code → Except Fault α} {next : α → Attempt Code Host β}
    {before after : World Code Host} {outcome : Except Error β} :
    (ask question >>= next).run before = .ok (outcome, after) ↔
      ∃ answer, question before.heap = .ok answer ∧
        (next answer).run before = .ok (outcome, after) := by
  refine act_bind_eq_ok.trans ?_
  constructor
  · rintro ⟨answer, between, asked, rest⟩
    obtain ⟨answered, same⟩ := (ask_eq_ok).mp asked
    rw [same] at rest
    exact ⟨answer, answered, rest⟩
  · rintro ⟨answer, answered, rest⟩
    exact ⟨answer, before, ask_eq_ok.mpr ⟨answered, rfl⟩, rest⟩

end Attempt

/-- A reference is taken to a live entry, and to nothing else. -/
theorem retain_apply (handle : Handle) :
    (retain handle : Action Code Host Unit) world =
      if world.heap.isLive handle then
        .ok ((), { world with heap := world.heap.increment handle })
      else
        .error .retainedFreed := by
  show (if world.heap.isLive handle then
      (modifyHeap (·.increment handle) : Action Code Host Unit)
    else stop .retainedFreed) world = _
  cases world.heap.isLive handle <;> rfl

end

end ObjectHeap
