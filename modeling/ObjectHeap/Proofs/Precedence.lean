/-
This file establishes that the order of values is consistent, in itself and with equality, as long as
no class has a say. The items of two sequences are first searched for a pair that is not equal, by
equality, and then this pair is ordered, by order. The laws that order and equality obey together at
one depth are therefore proved together, and each depth hands them on to the next one.
-/

import ObjectHeap.Proofs.Likeness

namespace ObjectHeap

/-! ### The laws of one depth -/

/-- An equality and an order of values that go together, where they have an answer. -/
structure Consistent (equal : Value → Value → Except Error Bool)
    (order : Value → Value → Except Error Ordering) : Prop where
  reflexive : ∀ value verdict, equal value value = .ok verdict → verdict = true
  symmetric : ∀ left right, equal left right = equal right left
  passes : ∀ first second third, equal first second = .ok true → equal second third = .ok true →
    equal first third = .ok true
  /-- The order from the other side is the reverse. -/
  swaps : ∀ left right one, order left right = .ok one → order right left = .ok one.swap
  /-- Two values are of one rank exactly if they are equal. -/
  agrees : ∀ left right one verdict, order left right = .ok one → equal left right = .ok verdict →
    (one = .eq ↔ verdict = true)
  /-- A value has one order to values that are equal. -/
  follows : ∀ left first second one two, equal first second = .ok true → order left first = .ok one →
    order left second = .ok two → two = one
  transitive : ∀ first second third one two three, order first second = .ok one →
    order second third = .ok two → order first third = .ok three → one.isLE → two.isLE → three.isLE

namespace Form

variable {equal : Value → Value → Except Error Bool} {order : Value → Value → Except Error Ordering}

theorem itemsOrder_cons_eq_ok {left right : Value} {lefts rights : List Value} {one : Ordering} :
    itemsOrder equal order (left :: lefts) (right :: rights) = .ok one ↔
      (equal left right = .ok true ∧ itemsOrder equal order lefts rights = .ok one) ∨
        (equal left right = .ok false ∧ order left right = .ok one) := by
  rw [itemsOrder]
  cases equal left right with
  | error error => simp [bind, Except.bind]
  | ok verdict => cases verdict <;> simp [bind, Except.bind]

/-- The order of two methods is that of their functions, unless these are the same. -/
theorem methodOrder_eq_ok {refused : Error} {counter other : Nat} {receiver otherReceiver : Option Value}
    {one : Ordering} :
    Form.order equal order refused (.method counter receiver) (.method other otherReceiver) = .ok one ↔
      (counter = other ∧ receiversOrder order receiver otherReceiver = .ok one) ∨
        (counter ≠ other ∧ compare counter other = one) := by
  rw [Form.order]
  split
  · rename_i same
    simp [same]
  · rename_i different
    simp [different, pure, Except.pure]

theorem receiversOrder_some_eq_ok {receiver other : Value} {one : Ordering} :
    receiversOrder order (some receiver) (some other) = .ok one ↔
      (receiver = other ∧ one = .eq) ∨ (receiver ≠ other ∧ order receiver other = .ok one) := by
  rw [receiversOrder]
  by_cases same : receiver = other
  · simp [same, Value.same, pure, Except.pure, eq_comm]
  · simp [same, Value.same]

end Form

namespace Consistent

variable {equal : Value → Value → Except Error Bool} {order : Value → Value → Except Error Ordering}
  (consistent : Consistent equal order)

include consistent

/-- What is equal is equal to the same values. -/
theorem equal_congr {value first second : Value} {one two : Bool} (same : equal first second = .ok true)
    (here : equal value first = .ok one) (there : equal value second = .ok two) : two = one := by
  have back := (consistent.symmetric second first).trans same
  cases one with
  | true => exact Except.ok.inj (there.symm.trans (consistent.passes _ _ _ here same))
  | false =>
    cases two with
    | false => rfl
    | true => exact Except.ok.inj ((consistent.passes _ _ _ there back).symm.trans here)

/-- Values that are equal have one order to another value. -/
theorem follows_left {first second right : Value} {one two : Ordering}
    (same : equal first second = .ok true) (here : order first right = .ok one)
    (there : order second right = .ok two) : two = one := by
  have swapped := consistent.follows right first second _ _ same (consistent.swaps _ _ _ here)
    (consistent.swaps _ _ _ there)
  exact Ordering.swap_inj.mp swapped

/-! ### Items -/

theorem items_swap {lefts rights : List Value} {one : Ordering}
    (ranked : Form.itemsOrder equal order lefts rights = .ok one) :
    Form.itemsOrder equal order rights lefts = .ok one.swap := by
  induction lefts generalizing rights with
  | nil =>
    cases ranked
    rw [Nat.compare_swap]
    cases rights <;> rfl
  | cons left lefts inductionHypothesis =>
    cases rights with
    | nil =>
      cases ranked
      rw [Nat.compare_swap]
      rfl
    | cons right rights =>
      refine Form.itemsOrder_cons_eq_ok.mpr ?_
      rw [consistent.symmetric right left]
      rcases Form.itemsOrder_cons_eq_ok.mp ranked with ⟨same, rest⟩ | ⟨different, here⟩
      · exact Or.inl ⟨same, inductionHypothesis rest⟩
      · exact Or.inr ⟨different, consistent.swaps _ _ _ here⟩

/-- Sequences are of one rank exactly if their items are equal in pairs. -/
theorem items_eq_iff {lefts rights : List Value} {one : Ordering}
    (ranked : Form.itemsOrder equal order lefts rights = .ok one) :
    one = .eq ↔ List.Forall₂ (fun left right => equal left right = .ok true) lefts rights := by
  induction lefts generalizing rights with
  | nil =>
    cases ranked
    cases rights with
    | nil => simp
    | cons right rights => simp
  | cons left lefts inductionHypothesis =>
    cases rights with
    | nil =>
      cases ranked
      simp
    | cons right rights =>
      rw [List.forall₂_cons]
      rcases Form.itemsOrder_cons_eq_ok.mp ranked with ⟨same, rest⟩ | ⟨different, here⟩
      · rw [inductionHypothesis rest, and_iff_right same]
      · have unlike := consistent.agrees _ _ _ _ here different
        simp [unlike, different]

theorem items_follow {lefts firsts seconds : List Value} {one two : Ordering}
    (same : List.Forall₂ (fun left right => equal left right = .ok true) firsts seconds)
    (here : Form.itemsOrder equal order lefts firsts = .ok one)
    (there : Form.itemsOrder equal order lefts seconds = .ok two) : two = one := by
  induction same generalizing lefts with
  | nil => exact Except.ok.inj (there.symm.trans here)
  | cons alike rest inductionHypothesis =>
    cases lefts with
    | nil =>
      cases here
      cases there
      rw [List.length_cons, List.length_cons, rest.length_eq]
    | cons left lefts =>
      rcases Form.itemsOrder_cons_eq_ok.mp here with ⟨matched, here⟩ | ⟨differs, here⟩ <;>
        rcases Form.itemsOrder_cons_eq_ok.mp there with ⟨also, there⟩ | ⟨also, there⟩
      · exact inductionHypothesis here there
      · cases consistent.equal_congr alike matched also
      · cases consistent.equal_congr alike differs also
      · exact consistent.follows _ _ _ _ _ alike here there

theorem items_trans {firsts seconds thirds : List Value} {one two three : Ordering}
    (here : Form.itemsOrder equal order firsts seconds = .ok one)
    (there : Form.itemsOrder equal order seconds thirds = .ok two)
    (across : Form.itemsOrder equal order firsts thirds = .ok three) (first : one.isLE)
    (second : two.isLE) : three.isLE := by
  induction firsts generalizing seconds thirds one two three with
  | nil =>
    cases across
    exact Nat.isLE_compare.mpr (Nat.zero_le _)
  | cons left lefts inductionHypothesis =>
    cases seconds with
    | nil =>
      cases here
      exact absurd (Nat.isLE_compare.mp first) (Nat.not_succ_le_zero _)
    | cons middle middles =>
      cases thirds with
      | nil =>
        cases there
        exact absurd (Nat.isLE_compare.mp second) (Nat.not_succ_le_zero _)
      | cons right rights =>
        rcases Form.itemsOrder_cons_eq_ok.mp here with ⟨matched, here⟩ | ⟨differs, here⟩ <;>
          rcases Form.itemsOrder_cons_eq_ok.mp there with ⟨alsoMatched, there⟩ | ⟨alsoDiffers, there⟩
        -- The first items are all equal.
        · have meets := consistent.passes _ _ _ matched alsoMatched
          rcases Form.itemsOrder_cons_eq_ok.mp across with ⟨_, across⟩ | ⟨parts, _⟩
          · exact inductionHypothesis here there across first second
          · cases meets.symm.trans parts
        -- One step is between equal items, and the other one decides.
        · have back := (consistent.symmetric middle left).trans matched
          rcases Form.itemsOrder_cons_eq_ok.mp across with ⟨meets, _⟩ | ⟨_, across⟩
          · cases (consistent.passes _ _ _ back meets).symm.trans alsoDiffers
          · rwa [consistent.follows_left back there across]
        · rcases Form.itemsOrder_cons_eq_ok.mp across with ⟨meets, _⟩ | ⟨_, across⟩
          · have back := (consistent.symmetric right middle).trans alsoMatched
            cases (consistent.passes _ _ _ meets back).symm.trans differs
          · rwa [consistent.follows _ _ _ _ _ alsoMatched here across]
        -- Neither step is, and then they cannot lead back to an equal item.
        · rcases Form.itemsOrder_cons_eq_ok.mp across with ⟨meets, _⟩ | ⟨_, across⟩
          · have turned := consistent.follows _ _ _ _ _ meets (consistent.swaps _ _ _ here) there
            have unlike := consistent.agrees _ _ _ _ here differs
            subst turned
            cases one with
            | lt => cases second
            | eq => cases unlike.mp rfl
            | gt => cases first
          · exact consistent.transitive _ _ _ _ _ _ here there across first second

/-! ### Receivers -/

theorem receivers_swap {receiver other : Option Value} {one : Ordering}
    (ranked : Form.receiversOrder order receiver other = .ok one) :
    Form.receiversOrder order other receiver = .ok one.swap := by
  cases receiver with
  | none => cases other <;> cases ranked <;> rfl
  | some receiver =>
    cases other with
    | none =>
      cases ranked
      rfl
    | some other =>
      refine Form.receiversOrder_some_eq_ok.mpr ?_
      rcases Form.receiversOrder_some_eq_ok.mp ranked with ⟨rfl, rfl⟩ | ⟨different, here⟩
      · exact Or.inl ⟨rfl, rfl⟩
      · exact Or.inr ⟨Ne.symm different, consistent.swaps _ _ _ here⟩

theorem receivers_eq_iff {receiver other : Option Value} {one : Ordering} {verdict : Bool}
    (ranked : Form.receiversOrder order receiver other = .ok one)
    (told : Form.receiversEqual equal receiver other = .ok verdict) : one = .eq ↔ verdict = true := by
  cases receiver with
  | none => cases other <;> cases ranked <;> cases told <;> simp
  | some receiver =>
    cases other with
    | none =>
      cases ranked
      cases told
      simp
    | some other =>
      rcases Form.receiversOrder_some_eq_ok.mp ranked with ⟨rfl, rfl⟩ | ⟨_, here⟩
      · exact iff_of_true rfl (consistent.reflexive _ _ told)
      · exact consistent.agrees _ _ _ _ here told

theorem receivers_follow {receiver first second : Option Value} {one two : Ordering}
    (same : Option.Rel (fun left right => equal left right = .ok true) first second)
    (here : Form.receiversOrder order receiver first = .ok one)
    (there : Form.receiversOrder order receiver second = .ok two) : two = one := by
  cases same with
  | none => exact Except.ok.inj (there.symm.trans here)
  | some alike =>
    cases receiver with
    | none => exact Except.ok.inj (there.symm.trans here)
    | some receiver =>
      rcases Form.receiversOrder_some_eq_ok.mp here with ⟨rfl, rfl⟩ | ⟨_, here⟩ <;>
        rcases Form.receiversOrder_some_eq_ok.mp there with ⟨rfl, rfl⟩ | ⟨_, there⟩
      · rfl
      · exact (consistent.agrees _ _ _ _ there alike).mpr rfl
      · have back := (consistent.symmetric _ _).trans alike
        exact ((consistent.agrees _ _ _ _ here back).mpr rfl).symm
      · exact consistent.follows _ _ _ _ _ alike here there

theorem receivers_trans {first second third : Option Value} {one two three : Ordering}
    (here : Form.receiversOrder order first second = .ok one)
    (there : Form.receiversOrder order second third = .ok two)
    (across : Form.receiversOrder order first third = .ok three) (before : one.isLE)
    (behind : two.isLE) : three.isLE := by
  cases first with
  | none => cases third <;> cases across <;> rfl
  | some first =>
    cases second with
    | none =>
      cases here
      cases before
    | some second =>
      cases third with
      | none =>
        cases there
        cases behind
      | some third =>
        rcases Form.receiversOrder_some_eq_ok.mp here with ⟨rfl, rfl⟩ | ⟨_, decided⟩
        · cases there.symm.trans across
          exact behind
        rcases Form.receiversOrder_some_eq_ok.mp there with ⟨rfl, rfl⟩ | ⟨_, alsoDecided⟩
        · cases here.symm.trans across
          exact before
        rcases Form.receiversOrder_some_eq_ok.mp across with ⟨rfl, rfl⟩ | ⟨_, across⟩
        · rfl
        · exact consistent.transitive _ _ _ _ _ _ decided alsoDecided across before behind

/-! ### Forms -/

variable {refused : Error}

theorem form_swap {left right : Form} {one : Ordering} (also : Error)
    (ranked : Form.order equal order refused left right = .ok one) :
    Form.order equal order also right left = .ok one.swap := by
  cases left with
  | number number =>
    cases right with
    | number other => cases ranked; exact congrArg Except.ok (Int.compare_swap _ _).symm
    | _ => cases ranked
  | text text =>
    cases right with
    | text other => cases ranked; exact congrArg Except.ok Std.OrientedOrd.eq_swap
    | _ => cases ranked
  | list lefts =>
    cases right with
    | list rights => exact consistent.items_swap ranked
    | _ => cases ranked
  | tuple lefts =>
    cases right with
    | tuple rights => exact consistent.items_swap ranked
    | _ => cases ranked
  | method counter receiver =>
    cases right with
    | method other otherReceiver =>
      refine Form.methodOrder_eq_ok.mpr ?_
      rcases Form.methodOrder_eq_ok.mp ranked with ⟨rfl, here⟩ | ⟨different, rfl⟩
      · exact Or.inl ⟨rfl, consistent.receivers_swap here⟩
      · exact Or.inr ⟨Ne.symm different, (Nat.compare_swap _ _).symm⟩
    | _ => cases ranked
  | identity => cases right <;> cases ranked

/-- A form that is ordered is of its own rank. -/
theorem form_self {form : Form} {one : Ordering}
    (ranked : Form.order equal order refused form form = .ok one) : one = .eq := by
  -- Items are compared in turn, and none differs from itself.
  have items {items : List Value} (ranked : Form.itemsOrder equal order items items = .ok one) :
      one = .eq := by
    induction items with
    | nil => cases ranked; rfl
    | cons item rest inductionHypothesis =>
      rcases Form.itemsOrder_cons_eq_ok.mp ranked with ⟨_, rest⟩ | ⟨different, _⟩
      · exact inductionHypothesis rest
      · cases consistent.reflexive _ _ different
  cases form with
  | number number => cases ranked; exact Std.ReflOrd.compare_self
  | text text => cases ranked; exact Std.ReflOrd.compare_self
  | list lefts => exact items ranked
  | tuple lefts => exact items ranked
  | method counter receiver =>
    rcases Form.methodOrder_eq_ok.mp ranked with ⟨_, here⟩ | ⟨different, _⟩
    · cases receiver with
      | none => cases here; rfl
      | some receiver =>
        rcases Form.receiversOrder_some_eq_ok.mp here with ⟨_, same⟩ | ⟨different, _⟩
        · exact same
        · exact absurd rfl different
    · exact absurd rfl different
  | identity => cases ranked

theorem form_agrees {left right : Form} {one : Ordering} {verdict : Bool}
    (ranked : Form.order equal order refused left right = .ok one)
    (told : Form.equal equal left right = .ok verdict) : one = .eq ↔ verdict = true := by
  have sequences {lefts rights : List Value}
      (ranked : Form.itemsOrder equal order lefts rights = .ok one)
      (told : (if lefts.length = rights.length then Form.allEqual equal lefts rights else .ok false) =
        .ok verdict) : one = .eq ↔ verdict = true := by
    rw [consistent.items_eq_iff ranked, ← Form.sequencesEqual_eq_true_iff, told, Except.ok.injEq]
  cases left with
  | number number =>
    cases right with
    | number other =>
      cases ranked
      cases told
      rw [Int.compare_eq_eq, Int64.toInt_inj, beq_iff_eq]
    | _ => cases ranked
  | text text =>
    cases right with
    | text other =>
      cases ranked
      cases told
      rw [Std.LawfulEqOrd.compare_eq_iff_eq, beq_iff_eq]
    | _ => cases ranked
  | list lefts =>
    cases right with
    | list rights => exact sequences ranked told
    | _ => cases ranked
  | tuple lefts =>
    cases right with
    | tuple rights => exact sequences ranked told
    | _ => cases ranked
  | method counter receiver =>
    cases right with
    | method other otherReceiver =>
      rw [Form.equal] at told
      rcases Form.methodOrder_eq_ok.mp ranked with ⟨same, here⟩ | ⟨different, rfl⟩
      · rw [if_pos same] at told
        exact consistent.receivers_eq_iff here told
      · rw [if_neg different] at told
        cases told
        rw [Nat.compare_eq_eq, iff_false_intro different]
        simp
    | _ => cases ranked
  | identity => cases ranked

theorem form_follows {form first second : Form} {one two : Ordering} {also : Error}
    (same : first.Alike (fun left right => equal left right = .ok true) second)
    (here : Form.order equal order refused form first = .ok one)
    (there : Form.order equal order also form second = .ok two) : two = one := by
  cases same with
  | number number =>
    cases form with
    | number other => exact Except.ok.inj (there.symm.trans here)
    | _ => cases here
  | text text =>
    cases form with
    | text other => exact Except.ok.inj (there.symm.trans here)
    | _ => cases here
  | list alike =>
    cases form with
    | list lefts => exact consistent.items_follow alike here there
    | _ => cases here
  | tuple alike =>
    cases form with
    | tuple lefts => exact consistent.items_follow alike here there
    | _ => cases here
  | method counter alike =>
    cases form with
    | method other receiver =>
      rcases Form.methodOrder_eq_ok.mp here with ⟨rfl, decided⟩ | ⟨different, rfl⟩ <;>
        rcases Form.methodOrder_eq_ok.mp there with ⟨same, alsoDecided⟩ | ⟨apart, rfl⟩
      · exact consistent.receivers_follow alike decided alsoDecided
      · exact absurd rfl apart
      · exact absurd same different
      · rfl
    | _ => cases here

theorem form_trans {first second third : Form} {one two three : Ordering} {also again : Error}
    (here : Form.order equal order refused first second = .ok one)
    (there : Form.order equal order also second third = .ok two)
    (across : Form.order equal order again first third = .ok three) (before : one.isLE)
    (behind : two.isLE) : three.isLE := by
  cases first with
  | number number =>
    cases second with
    | number middle =>
      cases third with
      | number last =>
        cases here
        cases there
        cases across
        exact Std.TransOrd.isLE_trans before behind
      | _ => cases there
    | _ => cases here
  | text text =>
    cases second with
    | text middle =>
      cases third with
      | text last =>
        cases here
        cases there
        cases across
        exact Std.TransOrd.isLE_trans before behind
      | _ => cases there
    | _ => cases here
  | list firsts =>
    cases second with
    | list seconds =>
      cases third with
      | list thirds => exact consistent.items_trans here there across before behind
      | _ => cases there
    | _ => cases here
  | tuple firsts =>
    cases second with
    | tuple seconds =>
      cases third with
      | tuple thirds => exact consistent.items_trans here there across before behind
      | _ => cases there
    | _ => cases here
  | method counter receiver =>
    cases second with
    | method middle middleReceiver =>
      cases third with
      | method last lastReceiver =>
        -- Receivers only decide between methods of one function; else the counters do.
        rcases Form.methodOrder_eq_ok.mp here with ⟨rfl, first⟩ | ⟨different, rfl⟩ <;>
          rcases Form.methodOrder_eq_ok.mp there with ⟨rfl, second⟩ | ⟨apart, rfl⟩ <;>
            rcases Form.methodOrder_eq_ok.mp across with ⟨same, third⟩ | ⟨_, rfl⟩
        · exact consistent.receivers_trans first second third before behind
        · exact Nat.isLE_compare.mpr le_rfl
        · exact absurd same apart
        · exact behind
        · exact absurd same different
        · exact before
        · have below := Nat.isLE_compare.mp before
          have above := Nat.isLE_compare.mp behind
          omega
        · exact Std.TransOrd.isLE_trans before behind
      | _ => cases there
    | _ => cases here
  | identity => cases here

end Consistent

namespace Heap

variable {Code : Type} (heap : Heap Code)

/-- At every depth equality and order go together. -/
theorem consistent (levels : Nat) : Consistent (heap.equals levels) (heap.orders levels) := by
  induction levels with
  | zero =>
    refine ⟨?_, fun _ _ => rfl, ?_, ?_, ?_, ?_, ?_⟩
    · intro _ _ told
      cases told
    · intro _ _ _ told
      cases told
    · intro _ _ _ ranked
      cases ranked
    · intro _ _ _ _ ranked
      cases ranked
    · intro _ _ _ _ _ told
      cases told
    · intro _ _ _ _ _ _ ranked
      cases ranked
  | succ levels inductionHypothesis =>
    refine ⟨?_, heap.equals_comm (levels + 1), fun _ _ _ => heap.equals_trans, ?_, ?_, ?_, ?_⟩
    · intro value verdict told
      exact (Except.ok.inj ((heap.equals_self levels value).symm.trans told)).symm
    · intro left right one ranked
      rw [orders] at ranked ⊢
      exact inductionHypothesis.form_swap _ ranked
    · intro left right one verdict ranked told
      rw [orders] at ranked
      -- A value that is compared with itself is equal without a look at what is in it.
      by_cases same : left = right
      · subst same
        have equal := Except.ok.inj ((heap.equals_self levels left).symm.trans told)
        exact iff_of_true (inductionHypothesis.form_self ranked) equal.symm
      · rw [equals, if_neg (by simpa [Value.same] using same)] at told
        exact inductionHypothesis.form_agrees ranked told
    · intro left first second one two same here there
      rcases heap.equals_eq_true_iff.mp same with rfl | alike
      · exact Except.ok.inj (there.symm.trans here)
      · rw [orders] at here there
        exact inductionHypothesis.form_follows alike here there
    · intro first second third one two three here there across
      rw [orders] at here there across
      exact inductionHypothesis.form_trans here there across

end Heap

/-! ### What the operations answer -/

/-- Order of values that no class has a say in is consistent. It fails in one direction exactly if it
fails in the other one, and is otherwise the reverse; two values are of one rank exactly if they are
equal; and what is not greater than a value is not greater than what this one is not greater than. -/
theorem Engine.order_is_consistent {Code Host : Type} (engine : Engine Code Host)
    (world : World Code Host) {outside : Multiset Handle} {limbo : List Handle}
    (sound : world.heap.Sound outside limbo)
    (settled : world.heap.releasing = false → world.heap.pending = []) (enough : 0 < engine.rounds)
    {first second third : Value}
    (plain : ∀ value ∈ [first, second, third], world.heap.Plain ["__eq__", "__lt__"] value) :
    (∃ one other, (engine.order first second).Tells world one ∧
      (engine.order second first).Tells world other ∧
      other.toOption = one.toOption.map Ordering.swap) ∧
    (∃ one verdict, (engine.order first second).Tells world one ∧
      (engine.equal first second).Tells world verdict ∧
      ∀ order equal, one = .ok order → verdict = .ok equal → (order = .eq ↔ equal = true)) ∧
    (∃ one two three, (engine.order first second).Tells world one ∧
      (engine.order second third).Tells world two ∧ (engine.order first third).Tells world three ∧
      ∀ here there across, one = .ok here → two = .ok there → three = .ok across →
        here ≠ .gt → there ≠ .gt → across ≠ .gt) := by
  have shows := sound.shows settled
  have first_mem : first ∈ [first, second, third] := List.mem_cons_self
  have second_mem : second ∈ [first, second, third] := List.mem_cons_of_mem _ List.mem_cons_self
  have third_mem : third ∈ [first, second, third] :=
    List.mem_cons_of_mem _ (List.mem_cons_of_mem _ List.mem_cons_self)
  have orders {left right : Value} (member : left ∈ [first, second, third])
      (other : right ∈ [first, second, third]) :
      (engine.order left right).Tells world (world.heap.orders (maxDataDepth + 1) left right) :=
    (engine.orderWithin_looks sound enough List.mem_cons_self (List.mem_cons_of_mem _ List.mem_cons_self)
      _ (plain left member) (plain right other)).tells shows
  have equals := (engine.equalWithin_looks sound enough List.mem_cons_self (maxDataDepth + 1)
    (plain first first_mem) (plain second second_mem)).tells shows
  have consistent := world.heap.consistent (maxDataDepth + 1)
  refine ⟨⟨_, _, orders first_mem second_mem, orders second_mem first_mem, ?_⟩,
    ⟨_, _, orders first_mem second_mem, equals, ?_⟩,
    ⟨_, _, _, orders first_mem second_mem, orders second_mem third_mem, orders first_mem third_mem, ?_⟩⟩
  · cases here : world.heap.orders (maxDataDepth + 1) first second with
    | ok one => rw [consistent.swaps _ _ _ here]; rfl
    | error error =>
      cases back : world.heap.orders (maxDataDepth + 1) second first with
      | error other => rfl
      | ok other => cases here.symm.trans (consistent.swaps _ _ _ back)
  · intro order equal ranked told
    exact consistent.agrees _ _ _ _ ranked told
  · intro here there across ranked then_ranked directly
    simp only [← Ordering.isLE_iff_ne_gt]
    exact consistent.transitive _ _ _ _ _ _ ranked then_ranked directly

/-- Of three methods of one function the unbound one comes first, and then the bound ones in the order
of their receivers. -/
theorem Engine.order_of_methods : ∃ world : World Unit (Recorded Unit Unit),
    Reached (fun _ => 0) idleBodies Config.standard ({0} + {1} + {2} + {3} + {4}) world ∧
    ((bodiesEngine idleBodies 4).order (.ref 2) (.ref 3)).Tells world (.ok .lt) ∧
    (∃ other, ((bodiesEngine idleBodies 4).order (.ref 3) (.ref 2)).Tells world other ∧
      other.toOption = some .gt) ∧
    ((bodiesEngine idleBodies 4).equal (.ref 2) (.ref 3)).Tells world (.ok false) ∧
    ((bodiesEngine idleBodies 4).order (.ref 3) (.ref 4)).Tells world (.ok .lt) ∧
    ∃ across, ((bodiesEngine idleBodies 4).order (.ref 2) (.ref 4)).Tells world (.ok across) ∧
      across ≠ .gt := by
  obtain ⟨world, reached, seen⟩ : ∃ world : World Unit (Recorded Unit Unit),
      Reached (fun _ => 0) idleBodies Config.standard ({0} + {1} + {2} + {3} + {4}) world ∧
      (world.heap.isSilent ["__eq__", "__lt__"],
        ((bodiesEngine idleBodies 4).order (.ref 2) (.ref 3)).answer? world,
        ((bodiesEngine idleBodies 4).order (.ref 3) (.ref 4)).answer? world,
        (((bodiesEngine idleBodies 4).order (.ref 2) (.ref 4)).answer? world).isSome,
        (((bodiesEngine idleBodies 4).equal (.ref 2) (.ref 3)).answer? world).isSome) =
        (true, some .lt, some .lt, true, true) :=
    Reached.exists_follow [.newFunction "f" none none (), .newClass "C" [],
      .newMethod (.ref 0) .nil (.ref 1), .newMethod (.ref 0) (.int 1) .nil,
      .newMethod (.ref 0) (.int 2) .nil] 4 () _ _ rfl (by decide +kernel)
  simp only [Prod.mk.injEq] at seen
  obtain ⟨silent, less, alsoLess, ordered, told⟩ := seen
  have holds := reached.holds respectful_idleBodies
  have plain : ∀ value ∈ [Value.ref 2, .ref 3, .ref 4], world.heap.Plain ["__eq__", "__lt__"] value :=
    fun value member => reached.plain respectful_idleBodies silent ((by decide :
      ∀ value ∈ [Value.ref 2, .ref 3, .ref 4], value.owns ≤ {0} + {1} + {2} + {3} + {4}) value member)
  obtain ⟨⟨one, other, first, back, swapped⟩, ⟨_, verdict, again, equal, agrees⟩,
      ⟨_, two, three, also, second, third, passes⟩⟩ :=
    (bodiesEngine idleBodies 4).order_is_consistent world holds.sound (fun _ => holds.settled rfl)
      (by decide) plain
  obtain ⟨same, answered⟩ := Option.isSome_iff_exists.mp told
  obtain ⟨across, ranked⟩ := Option.isSome_iff_exists.mp ordered
  cases first.eq_of_answer? less
  cases again.eq_of_answer? less
  cases also.eq_of_answer? less
  cases second.eq_of_answer? alsoLess
  cases third.eq_of_answer? ranked
  cases equal.eq_of_answer? answered
  have unequal : same = false := by
    have unlike := agrees _ _ rfl rfl
    simpa using unlike
  subst unequal
  exact ⟨world, reached, first, ⟨other, back, swapped⟩, equal, second, across, third,
    passes _ _ _ rfl rfl rfl nofun nofun⟩

end ObjectHeap
