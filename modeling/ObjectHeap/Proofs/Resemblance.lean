/-
This file establishes that a deep copy is never unequal to what was copied, as long as no instance is
in reach and no code of the host runs in the course of the copy. The copy leads back to the value by a
renaming: the form of what it reaches is that of the original with other names in it, or it is shared
with the original. A comparison goes through both side by side, always from an entry to what it is a
copy of, and so it finds no difference, however deep it looks and whatever was copied twice. When code
of the host does run, it may change the value after the copy has looked at it.
-/

import ObjectHeap.Proofs.DeepCopies
import ObjectHeap.Proofs.Dispatch
import ObjectHeap.Proofs.Likeness
import ObjectHeap.Proofs.Retries

namespace ObjectHeap

variable {Code Host : Type}

/-! ### Forms with other names -/

namespace Form

/-- A form with other values in the place of its parts. -/
def map (change : Value → Value) : Form → Form
  | .list items => .list (items.map change)
  | .tuple items => .tuple (items.map change)
  | .method counter receiver => .method counter (receiver.map change)
  | form => form

variable {equal : Value → Value → Except Error Bool} {change : Value → Value}

/-- No pair of items is unequal if no item is unequal to what it is changed to. -/
theorem allEqual_map_ne_false {items : List Value}
    (alike : ∀ item ∈ items, equal item (change item) ≠ .ok false) :
    allEqual equal items (items.map change) ≠ .ok false := by
  induction items with
  | nil => nofun
  | cons item rest inductionHypothesis =>
    intro unequal
    obtain ⟨verdict, here, later⟩ := Heap.bind_eq_ok.mp unequal
    cases verdict with
    | false => exact alike item List.mem_cons_self here
    | true => exact inductionHypothesis (fun other member => alike other (List.mem_cons_of_mem _ member)) later

/-- A form, unless it is an identity, is not unequal to the form that it is changed to, if no part of
it is unequal to what that is changed to. -/
theorem equal_map_ne_false {form : Form} (formed : form ≠ .identity)
    (alike : ∀ part ∈ form.parts, equal part (change part) ≠ .ok false) :
    Form.equal equal form (form.map change) ≠ .ok false := by
  cases form with
  | number one => simp [map, Form.equal, pure, Except.pure]
  | text one => simp [map, Form.equal, pure, Except.pure]
  | list items =>
    rw [map, Form.equal, if_pos (List.length_map _).symm]
    exact allEqual_map_ne_false alike
  | tuple items =>
    rw [map, Form.equal, if_pos (List.length_map _).symm]
    exact allEqual_map_ne_false alike
  | method counter receiver =>
    rw [map, Form.equal, if_pos rfl]
    cases receiver with
    | none => nofun
    | some receiver => exact alike receiver (List.mem_singleton_self receiver)
  | identity => exact (formed rfl).elim

end Form

namespace Heap

variable {heap before later : Heap Code} {value other : Value} {name : Handle → Handle}

/-- No instance is in reach of a value. -/
def Bare (heap : Heap Code) (value : Value) : Prop :=
  ∀ handle, heap.Reaches value handle → ∀ data, heap.payload? handle ≠ some (.object data)

/-! ### Renamings within a heap -/

/-- A renaming leads to any heap in which what it leads to remains. -/
theorem Renames.remains (renames : heap.Renames before name value other)
    (remains : ∀ handle, before.Reaches other handle → before.Remains later handle) :
    heap.Renames later name value other where
  root := renames.root
  live := renames.live
  copied handle payload reaches found kept := by
    obtain ⟨middle, there, shell, contents⟩ := renames.copied handle payload reaches found kept
    obtain ⟨_, _, last, same, placed, alike⟩ := remains _ (renames.reaches reaches)
    cases there.symm.trans same
    exact ⟨last, placed, alike.shell.trans shell, alike.contents.trans contents⟩
  shared handle payload reaches found absent := by
    obtain ⟨named, middle, there, shell⟩ := renames.shared handle payload reaches found absent
    obtain ⟨_, _, last, same, placed, alike⟩ := remains handle (named ▸ renames.reaches reaches)
    cases there.symm.trans same
    exact ⟨named, last, placed, alike.shell.trans shell⟩

/-- No instance is in reach of what is renamed to a value without one. -/
theorem Renames.bare (renames : heap.Renames before name value other) (bare : before.Bare other) :
    heap.Bare value := by
  intro handle reaches data found
  obtain ⟨later, there, shell, _⟩ := renames.copied handle (.object data) reaches found rfl
  cases later with
  | object data => exact bare _ (renames.reaches reaches) data there
  | _ => cases shell

theorem Bare.remains (bare : before.Bare value)
    (remains : ∀ handle, before.Sustained value.owns handle → before.Remains later handle) :
    later.Bare value := by
  intro handle reaches data found
  have reached := reaches.of_remains remains
  obtain ⟨_, payload, _, there, same, alike⟩ := remains handle reached.sustained
  cases found.symm.trans same
  cases payload with
  | object data => exact bare handle reached data there
  | _ => cases alike

/-- The form of a container is the form of what it is renamed to, with other names. -/
theorem form_of_shell {names : Handle → Handle} {handle place : Handle} {payload copy : Payload Code}
    (found : heap.payload? handle = some payload) (placed : heap.payload? place = some copy)
    (container : payload.shell.isSome) (bare : ∀ data, payload ≠ .object data)
    (shell : copy.shell = payload.shell)
    (contents : copy.contents = payload.contents.map (Value.rename names)) :
    heap.form (.ref place) = (heap.form (.ref handle)).map (Value.rename names) ∧
      heap.form (.ref handle) ≠ .identity ∧ (heap.form (.ref handle)).parts = payload.contents := by
  rw [form_of_payload? found, form_of_payload? placed]
  cases payload with
  | list items =>
    cases copy with
    | list others => exact ⟨congrArg Form.list contents, Form.noConfusion, rfl⟩
    | _ => cases shell
  | tuple items =>
    cases copy with
    | tuple others => exact ⟨congrArg Form.tuple contents, Form.noConfusion, rfl⟩
    | _ => cases shell
  | method data =>
    cases copy with
    | method other =>
      obtain ⟨function, _⟩ : other.function = data.function ∧ other.owner = data.owner := by
        simpa [Payload.shell] using shell
      have receiver : other.receiver = data.receiver.map (Value.rename names) := by
        simp only [Payload.contents] at contents
        cases there : other.receiver <;> cases here : data.receiver <;>
          simp_all [Option.toList]
      refine ⟨?_, Form.noConfusion, rfl⟩
      rw [Payload.form, Payload.form, Form.map, function, receiver]
    | _ => cases shell
  | object data => exact (bare data rfl).elim
  | _ => cases container

/-- What is renamed within a heap is not unequal to what it is renamed to, however deep the comparison
looks. -/
theorem Renames.equals_ne_false (renames : heap.Renames heap name value other) (bare : heap.Bare value)
    (levels : Nat) : heap.equals levels value other ≠ .ok false := by
  -- The parts of what is in reach are in reach.
  have parts (part : Value) (inside : ∀ handle, part = .ref handle → heap.Reaches value handle) :
      heap.equals levels part (part.rename name) ≠ .ok false := by
    induction levels generalizing part with
    | zero =>
      intro unequal
      cases unequal
    | succ levels inductionHypothesis =>
      have same (unchanged : part.rename name = part) :
          heap.equals (levels + 1) part (part.rename name) ≠ .ok false := by
        rw [unchanged, heap.equals_self]
        intro unequal
        cases unequal
      cases part with
      | ref handle =>
        have reaches := inside handle rfl
        obtain ⟨payload, found⟩ := exists_payload?_of_isLive (renames.live handle reaches)
        cases container : payload.shell with
        | none =>
          exact same (congrArg Value.ref (renames.shared handle payload reaches found container).1)
        | some shell =>
          have kept : payload.shell.isSome := by
            rw [container]
            rfl
          obtain ⟨copy, placed, shell, contents⟩ := renames.copied handle payload reaches found kept
          obtain ⟨form, formed, listed⟩ := form_of_shell found placed kept
            (fun data same => bare handle reaches data (same ▸ found)) shell contents
          rw [Heap.equals, Value.rename]
          split
          · intro unequal
            cases unequal
          · rw [form]
            refine Form.equal_map_ne_false formed fun item member => inductionHypothesis item fun _ same => ?_
            exact reaches.step ⟨payload, found, same ▸ listed ▸ member⟩
      | _ => exact same rfl
  have whole := parts value fun handle same => same ▸ .root handle
  rwa [← renames.root] at whole

/-- What looks at a value looks at what is in reach of it. -/
theorem Reaches.of_part {part : Value} (leads : Relation.ReflTransGen heap.HasPart value part)
    {handle : Handle} (same : part = .ref handle) : heap.Reaches value handle := by
  induction leads generalizing handle with
  | refl => exact same ▸ .root handle
  | @tail whole item _ isPart inductionHypothesis =>
    cases whole with
    | ref place =>
      cases found : heap.payload? place with
      | none =>
        simp only [HasPart, form, found] at isPart
        cases isPart
      | some payload =>
        refine (inductionHypothesis rfl).step ⟨payload, found, ?_⟩
        rw [HasPart, form_of_payload? found, same] at isPart
        cases payload <;> first | exact isPart | cases isPart
    | _ => cases isPart

/-- No class has a say in a comparison of values without an instance. -/
theorem Bare.plain (bare : heap.Bare value) (names : List String)
    (live : ∀ handle ∈ value.owns, heap.isLive handle) : heap.Plain names value where
  live := live
  lacks part leads name _ function special := by
    obtain ⟨type, isInstance, going⟩ := bind_eq_ok.mp special
    cases type with
    | none => cases going
    | some type =>
      obtain ⟨handle, data, rfl, found, _⟩ := instanceType?_eq_some.mp isInstance
      exact bare handle (.of_part leads rfl) data found

/-- Whether no instance is in any slot. -/
def hasNoInstance (heap : Heap Code) : Bool :=
  (List.range heap.slots.size).all fun handle =>
    match heap.payload? handle with
    | some (.object _) => false
    | _ => true

theorem bare_of_hasNoInstance (checked : heap.hasNoInstance) (value : Value) : heap.Bare value := by
  intro handle _ data found
  obtain ⟨entry, occupied, _⟩ := heap.payload?_eq_some.mp found
  have apart := List.all_eq_true.mp checked handle (List.mem_range.mpr (heap.lt_size_of_occupant? occupied))
  rw [found] at apart
  cases apart

end Heap

/-! ### Runs -/

namespace Reached

variable {held : Host → Multiset Handle} {hand : Multiset Handle}
  {bodies : Code → Arguments → Program Code Host} {config : Config}
  {state : World Code (Recorded Code Host)} {heap : Heap Code}

/-- A deep copy, at any moment of a run, of a value that is held outside and from which no instance can
be reached. The comparison of the copy to the value has one outcome from either side, and if it is no
error, they are equal. -/
theorem copies_are_never_unequal {Other : Type} (respectful : RespectfulBodies held bodies)
    (reached : Reached held bodies config hand state) (member : heap ∈ heaps state)
    {outside : Multiset Handle} (balanced : heap.Balanced outside) {value copied : Value}
    (lent : value.owns ⊆ outside) (bare : heap.Bare value) (engine : Engine Code Other)
    (enough : 0 < engine.rounds) {host : Other} {memo : Memo} {after : World Code Other}
    (alone : engine.CopiesAlone value { heap, host })
    (ended : engine.deepCopy value Memo.empty { heap, host } = .ok ((.ok copied, memo), after)) :
    ∃ outcome, (engine.equal copied value).Tells after outcome ∧
      (engine.equal value copied).Tells after outcome ∧
      ∀ verdict, outcome = .ok verdict → verdict = true := by
  obtain ⟨⟨all, limbo, sound⟩, settled⟩ := reached.orderly respectful member
  cases sound.balanced.unique balanced
  obtain ⟨made, stage, twins, _⟩ := engine.reproduced_deepCopy sound settled lent (alone.trans ended)
  have kept := stage.draft.remains
  have renames : after.heap.Renames after.heap (originalOf made) copied value :=
    (stage.renames twins).remains fun handle reaches => kept handle reaches.sustained
  have later : after.heap.Bare value := bare.remains kept
  have holds := stage.holds
  have shows := holds.sound.shows fun idle => holds.settled (holds.releasing.symm.trans idle)
  have original : after.heap.Plain ["__eq__"] value := later.plain _ fun handle inside =>
    holds.isLive (Multiset.mem_add.mpr (Or.inl (lent inside)))
  have copy : after.heap.Plain ["__eq__"] copied := (renames.bare later).plain _ fun handle inside =>
    holds.isLive (Multiset.mem_add.mpr (Or.inr (Multiset.mem_add.mpr (Or.inl inside))))
  have looks {left right : Value} (plain : after.heap.Plain ["__eq__"] left)
      (other : after.heap.Plain ["__eq__"] right) :
      (engine.equal left right).Tells after (after.heap.equals (maxDataDepth + 1) left right) :=
    (engine.equalWithin_looks holds.sound enough List.mem_cons_self _ plain other).tells shows
  refine ⟨_, looks copy original, ?_, fun verdict told => ?_⟩
  · rw [after.heap.equals_comm]
    exact looks original copy
  · cases verdict with
    | true => rfl
    | false => exact absurd told (renames.equals_ne_false (renames.bare later) _)

/-- A tuple of a list and of a method with that list as its receiver is equal to its copy. -/
theorem copy_equals_tuple : ∃ state : World Unit (Recorded Unit Unit),
    Reached (fun _ => 0) idleBodies Config.standard ({0} + {3}) state ∧ state.heap.Bare (.ref 3) ∧
    (bodiesEngine idleBodies 4).CopiesAlone (.ref 3) state ∧ ∃ copied memo after,
      (bodiesEngine idleBodies 4).deepCopy (.ref 3) Memo.empty state = .ok ((.ok copied, memo), after) ∧
      ((bodiesEngine idleBodies 4).equal copied (.ref 3)).Tells after (.ok true) := by
  have coded : Reached (fun _ : Unit => 0) idleBodies Config.standard {0} _ :=
    .perform (.newFunction "f" none none ()) 4 (.ok (.ref 0)) (.start () rfl)
      (fun _ member => member) rfl
  have listed : Reached (fun _ : Unit => 0) idleBodies Config.standard ({0} + {1}) _ :=
    .perform (.newList [.int 1]) 4 (.ok (.ref 1)) coded
      (fun _ member => absurd member (Multiset.notMem_zero _)) rfl
  have bound : Reached (fun _ : Unit => 0) idleBodies Config.standard ({0} + {1} + {2}) _ :=
    .perform (.newMethod (.ref 0) (.ref 1) .nil) 4 (.ok (.ref 2)) listed
      (Multiset.subset_of_le (by decide)) rfl
  have tupled : Reached (fun _ : Unit => 0) idleBodies Config.standard ({0} + {3}) _ :=
    .perform (.newTuple [.ref 1, .ref 2]) 4 (.ok (.ref 3)) (bound.congr (by decide))
      (fun _ member => absurd member (Multiset.notMem_zero _)) rfl
  have equals {state : World Unit (Recorded Unit Unit)}
      (reached : Reached (fun _ => 0) idleBodies Config.standard ({0} + {3}) state)
      (checked : state.heap.hasNoInstance)
      (alone : (bodiesEngine idleBodies 4).CopiesAlone (.ref 3) state)
      (answered : (((bodiesEngine idleBodies 4).deepCopy (.ref 3) Memo.empty state).toOption.bind
        fun result => result.1.1.toOption.bind fun copied =>
          ((bodiesEngine idleBodies 4).equal copied (.ref 3)).answer? result.2).isSome) :
      ∃ copied memo after,
        (bodiesEngine idleBodies 4).deepCopy (.ref 3) Memo.empty state =
          .ok ((.ok copied, memo), after) ∧
        ((bodiesEngine idleBodies 4).equal copied (.ref 3)).Tells after (.ok true) := by
    obtain ⟨verdict, compared⟩ := Option.isSome_iff_exists.mp answered
    obtain ⟨⟨⟨outcome, memo⟩, after⟩, ran, copies⟩ := Option.bind_eq_some_iff.mp compared
    obtain ⟨copied, made, found⟩ := Option.bind_eq_some_iff.mp copies
    cases eq_ok_of_toOption made
    have ended := eq_ok_of_toOption ran
    obtain ⟨outcome, tells, _, equal⟩ := copies_are_never_unequal respectful_idleBodies reached
      List.mem_cons_self (reached.balanced respectful_idleBodies)
      (Multiset.subset_of_le (by decide)) (Heap.bare_of_hasNoInstance checked _)
      (bodiesEngine idleBodies 4) (by decide) alone ended
    cases tells.eq_of_answer? found
    cases equal verdict rfl
    exact ⟨_, _, _, ended, tells⟩
  exact ⟨_, tupled, Heap.bare_of_hasNoInstance (by cbv) _, by unfold Engine.CopiesAlone; cbv,
    equals tupled (by cbv) (by unfold Engine.CopiesAlone; cbv) (by cbv)⟩

/-- Functions that append a number to their first argument, give up their arguments and answer nil. -/
def appendingBodies (_ : Unit) (arguments : Arguments) : Program Unit Unit :=
  match arguments.values with
  | [] => .finish (.ok .nil)
  | first :: rest =>
    .perform (.append first (.int 1)) fun _ => .dropping (.finish (.ok .nil)) (first :: rest)

theorem respectful_appendingBodies : RespectfulBodies (fun _ : Unit => 0) appendingBodies := by
  intro code arguments
  have finished : Program.Respects (fun _ : Unit => 0) 0 (.finish (.ok .nil) : Program Unit Unit) := rfl
  unfold appendingBodies
  rw [Arguments.owns]
  cases arguments.values with
  | nil => exact finished
  | cons first rest =>
    refine ⟨owned (first :: rest), (zero_add _).symm, fun _ member => ?_, fun answer => ?_⟩
    · rw [owned_cons]
      exact Multiset.mem_add.mpr (Or.inl member)
    · exact Program.respects_dropping finished (first :: rest)

/-- A list is copied, and cycles are collected on that occasion. A callback appends to the list what the
copy does not have, and the two are not equal. -/
theorem copy_of_changing_list : ∃ state : World Unit (Recorded Unit Unit),
    RespectfulBodies (fun _ : Unit => 0) appendingBodies ∧
    Reached (fun _ => 0) appendingBodies (Config.standard.set (.gcInterval 7)) ({0} + {2} + {3} + {5})
      state ∧ state.heap.Bare (.ref 2) ∧ ∃ copied memo after,
      (bodiesEngine appendingBodies 8).deepCopy (.ref 2) Memo.empty state =
        .ok ((.ok copied, memo), after) ∧
      ((bodiesEngine appendingBodies 8).equal copied (.ref 2)).answer? after = some false := by
  obtain ⟨state, reached, seen⟩ : ∃ state : World Unit (Recorded Unit Unit),
      Reached (fun _ => 0) appendingBodies (Config.standard.set (.gcInterval 7)) ({0} + {2} + {3} + {5})
        state ∧
        ((state.heap.payload? 2).bind Payload.shell, (state.heap.payload? 2).map Payload.contents,
          ((bodiesEngine appendingBodies 8).deepCopy (.ref 2) Memo.empty state).toOption.bind
            fun result => result.1.1.toOption.bind fun copied =>
              ((bodiesEngine appendingBodies 8).equal copied (.ref 2)).answer? result.2) =
        (some .list, some [], some false) :=
    exists_follow [.newClass "C" [], .newInstance (.ref 0), .share (.ref 1),
      .setAttribute (.ref 1) "self" (.ref 1), .newList [], .newFunction "f" none none (),
      .newMethod (.ref 3) (.ref 2) .nil, .newWeakref (.ref 1) (some (.ref 4)), .drop (.ref 1)]
      8 () _ _ rfl (by decide +kernel)
  simp only [Prod.mk.injEq] at seen
  obtain ⟨shaped, empty, ended⟩ := seen
  obtain ⟨payload, found, shell⟩ := Option.bind_eq_some_iff.mp shaped
  rw [found] at empty
  have contents : payload.contents = [] := Option.some.inj empty
  obtain ⟨⟨⟨outcome, memo⟩, after⟩, ran, copies⟩ := Option.bind_eq_some_iff.mp ended
  obtain ⟨copied, made, compared⟩ := Option.bind_eq_some_iff.mp copies
  cases eq_ok_of_toOption made
  refine ⟨state, respectful_appendingBodies, reached, fun handle reaches data instanced => ?_, copied, memo,
    after, eq_ok_of_toOption ran, compared⟩
  -- The list is empty, and so it leads to nothing but itself.
  have here : handle = 2 := by
    refine reaches.induction (fun root same => (Value.ref.inj same).symm)
      fun source target _ same contains => ?_
    obtain ⟨_, placed, member⟩ := contains
    cases found.symm.trans (same ▸ placed)
    rw [contents] at member
    cases member
  cases found.symm.trans (here ▸ instanced)
  cases shell

end Reached

end ObjectHeap
