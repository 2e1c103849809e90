/-
This file establishes that equality is an equivalence and that equal values have equal hashes, as
long as no class has a say. What makes two values equal is there in their forms: the same number or
text, items that are equal in pairs, or one function with receivers that are equal or both missing.
Equality that was found at some depth needs no more depth to be passed on, because each pair of
parts is compared with the same number of levels left on either side.
-/

import ObjectHeap.Proofs.Looking

namespace ObjectHeap

/-! ### Forms that are equal -/

namespace Form

/-- Two forms are equal, where `alike` says which parts are. -/
inductive Alike (alike : Value → Value → Prop) : Form → Form → Prop where
  | number (number : Int64) : Alike alike (.number number) (.number number)
  | text (text : String) : Alike alike (.text text) (.text text)
  | list {lefts rights : List Value} :
    List.Forall₂ alike lefts rights → Alike alike (.list lefts) (.list rights)
  | tuple {lefts rights : List Value} :
    List.Forall₂ alike lefts rights → Alike alike (.tuple lefts) (.tuple rights)
  | method (counter : Nat) {receiver other : Option Value} :
    Option.Rel alike receiver other → Alike alike (.method counter receiver) (.method counter other)

section

variable {equal : Value → Value → Except Error Bool}

theorem allEqual_eq_true_iff {lefts rights : List Value} (same : lefts.length = rights.length) :
    allEqual equal lefts rights = .ok true ↔
      List.Forall₂ (fun left right => equal left right = .ok true) lefts rights := by
  induction lefts generalizing rights with
  | nil =>
    obtain rfl := List.length_eq_zero_iff.mp same.symm
    simp [allEqual, pure, Except.pure]
  | cons left lefts inductionHypothesis =>
    cases rights with
    | nil => cases same
    | cons right rights =>
      rw [List.forall₂_cons, ← inductionHypothesis (Nat.succ.inj same), allEqual]
      cases equal left right with
      | error error => simp [bind, Except.bind]
      | ok verdict => cases verdict <;> simp [bind, Except.bind, pure, Except.pure]

theorem receiversEqual_eq_true_iff {receiver other : Option Value} :
    receiversEqual equal receiver other = .ok true ↔
      Option.Rel (fun left right => equal left right = .ok true) receiver other := by
  cases receiver <;> cases other <;> simp [receiversEqual, pure, Except.pure]

theorem sequencesEqual_eq_true_iff {lefts rights : List Value} :
    (if lefts.length = rights.length then allEqual equal lefts rights else .ok false) = .ok true ↔
      List.Forall₂ (fun left right => equal left right = .ok true) lefts rights := by
  split
  · rename_i same
    exact allEqual_eq_true_iff same
  · rename_i different
    exact ⟨nofun, fun alike => absurd alike.length_eq different⟩

theorem equal_eq_true_iff {left right : Form} : Form.equal equal left right = .ok true ↔
    left.Alike (fun part other => equal part other = .ok true) right := by
  constructor
  · intro found
    cases left with
    | number one =>
      cases right with
      | number other =>
        obtain rfl : one = other := eq_of_beq (Except.ok.inj found)
        exact .number one
      | _ => cases found
    | text one =>
      cases right with
      | text other =>
        obtain rfl : one = other := eq_of_beq (Except.ok.inj found)
        exact .text one
      | _ => cases found
    | list lefts =>
      cases right with
      | list rights => exact .list (sequencesEqual_eq_true_iff.mp found)
      | _ => cases found
    | tuple lefts =>
      cases right with
      | tuple rights => exact .tuple (sequencesEqual_eq_true_iff.mp found)
      | _ => cases found
    | method counter receiver =>
      cases right with
      | method other otherReceiver =>
        by_cases same : counter = other
        · subst same
          exact .method counter (receiversEqual_eq_true_iff.mp ((if_pos rfl).symm.trans found))
        · cases (if_neg same).symm.trans found
      | _ => cases found
    | identity => cases found
  · intro alike
    cases alike with
    | number one => exact congrArg Except.ok (beq_self_eq_true one)
    | text one => exact congrArg Except.ok (beq_self_eq_true one)
    | list alike => exact sequencesEqual_eq_true_iff.mpr alike
    | tuple alike => exact sequencesEqual_eq_true_iff.mpr alike
    | method counter alike => exact (if_pos rfl).trans (receiversEqual_eq_true_iff.mpr alike)

end

/-! ### Equality goes both ways -/

section

variable {equal : Value → Value → Except Error Bool}
  (symmetric : ∀ left right, equal left right = equal right left)

include symmetric

theorem allEqual_comm (lefts rights : List Value) :
    allEqual equal lefts rights = allEqual equal rights lefts := by
  induction lefts generalizing rights with
  | nil => cases rights <;> rfl
  | cons left lefts inductionHypothesis =>
    cases rights with
    | nil => rfl
    | cons right rights => rw [allEqual, allEqual, symmetric, inductionHypothesis]

theorem equal_comm (left right : Form) : Form.equal equal left right = Form.equal equal right left := by
  have sequences (lefts rights : List Value) :
      (if lefts.length = rights.length then allEqual equal lefts rights else return false) =
        if rights.length = lefts.length then allEqual equal rights lefts else return false :=
    if_congr eq_comm (allEqual_comm symmetric lefts rights) rfl
  cases left with
  | number one =>
    cases right with
    | number other => exact congrArg Except.ok Bool.beq_comm
    | _ => rfl
  | text one =>
    cases right with
    | text other => exact congrArg Except.ok Bool.beq_comm
    | _ => rfl
  | list lefts =>
    cases right with
    | list rights => exact sequences lefts rights
    | _ => rfl
  | tuple lefts =>
    cases right with
    | tuple rights => exact sequences lefts rights
    | _ => rfl
  | method counter receiver =>
    cases right with
    | method other otherReceiver =>
      refine if_congr eq_comm ?_ rfl
      cases receiver <;> cases otherReceiver <;> first | rfl | exact symmetric _ _
    | _ => rfl
  | identity => cases right <;> rfl

end

/-! ### Equality is passed on -/

theorem Alike.trans {alike : Value → Value → Prop}
    (passes : ∀ first second third, alike first second → alike second third → alike first third)
    {one two three : Form} (first : one.Alike alike two) (second : two.Alike alike three) :
    one.Alike alike three := by
  have parts {firsts seconds thirds : List Value} (first : List.Forall₂ alike firsts seconds)
      (second : List.Forall₂ alike seconds thirds) : List.Forall₂ alike firsts thirds := by
    induction first generalizing thirds with
    | nil => cases second; exact .nil
    | cons here _ inductionHypothesis =>
      cases second with
      | cons there later => exact .cons (passes _ _ _ here there) (inductionHypothesis later)
  cases first with
  | number one => exact second
  | text one => exact second
  | list here => cases second with | list there => exact .list (parts here there)
  | tuple here => cases second with | tuple there => exact .tuple (parts here there)
  | method counter here =>
    cases second with
    | method _ there =>
      refine .method counter ?_
      cases here with
      | none => exact there
      | some here => cases there with | some there => exact .some (passes _ _ _ here there)

/-! ### Hashes of what is equal -/

/-- Items that are equal in pairs have the same hashes, where they have any. -/
theorem allHashes_of_alike {hash : Value → Except Error Int64} {alike : Value → Value → Prop}
    (agree : ∀ left right one other, alike left right → hash left = .ok one → hash right = .ok other →
      other = one) {lefts rights : List Value} (equal : List.Forall₂ alike lefts rights)
    {ones others : List Int64} (hashed : allHashes hash lefts = .ok ones)
    (hashes : allHashes hash rights = .ok others) : others = ones := by
  induction equal generalizing ones others with
  | nil =>
    cases hashed
    cases hashes
    rfl
  | cons here _ inductionHypothesis =>
    obtain ⟨one, first, hashed⟩ := Heap.bind_eq_ok.mp hashed
    obtain ⟨other, second, hashes⟩ := Heap.bind_eq_ok.mp hashes
    obtain ⟨laters, rest, hashed⟩ := Heap.bind_eq_ok.mp hashed
    obtain ⟨otherLaters, others, hashes⟩ := Heap.bind_eq_ok.mp hashes
    cases hashed
    cases hashes
    rw [agree _ _ _ _ here first second, inductionHypothesis rest others]

/-- Forms that are equal have the same hash, where they have any. -/
theorem hash_of_alike {hash : Value → Except Error Int64} {alike : Value → Value → Prop}
    (agree : ∀ left right one other, alike left right → hash left = .ok one → hash right = .ok other →
      other = one) {left right : Form} (equal : left.Alike alike right) {identity also one other : Int64}
    (hashed : Form.hash hash identity left = .ok one) (hashes : Form.hash hash also right = .ok other) :
    other = one := by
  cases equal with
  | number number => exact Except.ok.inj (hashes.symm.trans hashed)
  | text text => exact Except.ok.inj (hashes.symm.trans hashed)
  | method counter _ => exact Except.ok.inj (hashes.symm.trans hashed)
  | list _ => cases hashed
  | tuple items =>
    obtain ⟨ones, first, hashed⟩ := Heap.bind_eq_ok.mp hashed
    obtain ⟨others, second, hashes⟩ := Heap.bind_eq_ok.mp hashes
    cases hashed
    cases hashes
    rw [allHashes_of_alike agree items first second]

end Form

namespace Heap

variable {Code : Type} (heap : Heap Code) {levels : Nat} {first second third : Value}

theorem equals_eq_true_iff : heap.equals (levels + 1) first second = .ok true ↔
    first = second ∨ (heap.form first).Alike (fun part other => heap.equals levels part other = .ok true)
      (heap.form second) := by
  rw [equals, ← Form.equal_eq_true_iff]
  by_cases same : first = second <;> simp [Value.same, same, pure, Except.pure]

theorem equals_self (levels : Nat) (value : Value) : heap.equals (levels + 1) value value = .ok true :=
  heap.equals_eq_true_iff.mpr (Or.inl rfl)

/-- Equality has one outcome from either side, an error included. -/
theorem equals_comm (levels : Nat) (left right : Value) :
    heap.equals levels left right = heap.equals levels right left := by
  induction levels generalizing left right with
  | zero => rfl
  | succ levels inductionHypothesis =>
    have same : left.same right ↔ right.same left := by
      rw [Value.same, Value.same, decide_eq_true_iff, decide_eq_true_iff, eq_comm]
    exact if_congr same rfl (Form.equal_comm inductionHypothesis _ _)

/-- Equality is passed on at the same depth. -/
theorem equals_trans (one : heap.equals levels first second = .ok true)
    (two : heap.equals levels second third = .ok true) : heap.equals levels first third = .ok true := by
  induction levels generalizing first second third with
  | zero => cases one
  | succ levels inductionHypothesis =>
    rcases heap.equals_eq_true_iff.mp one with rfl | here
    · exact two
    · rcases heap.equals_eq_true_iff.mp two with rfl | there
      · exact one
      · refine heap.equals_eq_true_iff.mpr (Or.inr (here.trans ?_ there))
        intro first second third one two
        exact inductionHypothesis one two

/-- Equal values have the same hash, where they have any, however deep either question looks. -/
theorem hashes_of_equals {depth : Nat} {one other : Int64}
    (equal : heap.equals levels first second = .ok true) (hashed : heap.hashes depth first = .ok one)
    (hashes : heap.hashes depth second = .ok other) : other = one := by
  induction levels generalizing depth first second one other with
  | zero => cases equal
  | succ levels inductionHypothesis =>
    cases depth with
    | zero => cases hashed
    | succ depth =>
      rcases heap.equals_eq_true_iff.mp equal with rfl | alike
      · exact Except.ok.inj (hashes.symm.trans hashed)
      · refine Form.hash_of_alike ?_ alike hashed hashes
        intro left right one other equal hashed hashes
        exact inductionHypothesis equal hashed hashes

end Heap

/-! ### What the operations answer -/

/-- What the host of a run has in its hands is there. -/
theorem Reached.plain {Code Host : Type} {held : Host → Multiset Handle}
    {bodies : Code → Arguments → Program Code Host} {config : Config} {hand : Multiset Handle}
    {world : World Code (Recorded Code Host)} (respectful : RespectfulBodies held bodies)
    (reached : Reached held bodies config hand world) {names : List String}
    (silent : world.heap.isSilent names) {value : Value} (inHand : value.owns ≤ hand) :
    world.heap.Plain names value where
  live _ member := (reached.balanced respectful).isLive_of_mem
    (Or.inl (Multiset.mem_add.mpr (Or.inl (Multiset.mem_of_le inHand member))))
  lacks := Heap.lacks_of_isSilent silent value

namespace Engine

variable {Code Host : Type} (engine : Engine Code Host) (world : World Code Host)
  {outside : Multiset Handle} {limbo : List Handle}

/-- Equality of values that no class has a say in is an equivalence. A value is equal to itself, the
outcome of a comparison is the same from either side even if it is an error, and equality is passed on
without an error. -/
theorem equality_is_equivalence (sound : world.heap.Sound outside limbo)
    (settled : world.heap.releasing = false → world.heap.pending = []) (enough : 0 < engine.rounds)
    {first second third : Value}
    (plain : ∀ value ∈ [first, second, third], world.heap.Plain ["__eq__"] value) :
    (engine.equal first first).Tells world (.ok true) ∧
      (∃ outcome, (engine.equal first second).Tells world outcome ∧
        (engine.equal second first).Tells world outcome) ∧
      ((engine.equal first second).Tells world (.ok true) →
        (engine.equal second third).Tells world (.ok true) →
        (engine.equal first third).Tells world (.ok true)) := by
  have shows := sound.shows settled
  have tells {left right : Value} (member : left ∈ [first, second, third])
      (other : right ∈ [first, second, third]) :
      (engine.equal left right).Tells world (world.heap.equals (maxDataDepth + 1) left right) :=
    (engine.equalWithin_looks sound enough List.mem_cons_self _ (plain left member)
      (plain right other)).tells shows
  have first_mem : first ∈ [first, second, third] := List.mem_cons_self
  have second_mem : second ∈ [first, second, third] := List.mem_cons_of_mem _ List.mem_cons_self
  have third_mem : third ∈ [first, second, third] :=
    List.mem_cons_of_mem _ (List.mem_cons_of_mem _ List.mem_cons_self)
  refine ⟨?_, ⟨_, tells first_mem second_mem, ?_⟩, fun one two => ?_⟩
  · rw [← world.heap.equals_self maxDataDepth first]
    exact tells first_mem first_mem
  · rw [world.heap.equals_comm]
    exact tells second_mem first_mem
  · have here := (tells first_mem second_mem).unique one
    have there := (tells second_mem third_mem).unique two
    rw [← world.heap.equals_trans here.symm there.symm]
    exact tells first_mem third_mem

/-- Lists of one list that contains itself are equal, and the first of them equals the last one. -/
theorem equality_of_lists_of_cycle : ∃ world : World Unit (Recorded Unit Unit),
    Reached (fun _ => 0) idleBodies Config.standard ({1} + {2} + {3}) world ∧
    ((bodiesEngine idleBodies 4).equal (.ref 1) (.ref 1)).Tells world (.ok true) ∧
    (∃ outcome, ((bodiesEngine idleBodies 4).equal (.ref 1) (.ref 2)).Tells world outcome ∧
      ((bodiesEngine idleBodies 4).equal (.ref 2) (.ref 1)).Tells world outcome) ∧
    ((bodiesEngine idleBodies 4).equal (.ref 1) (.ref 3)).Tells world (.ok true) := by
  obtain ⟨world, reached, seen⟩ : ∃ world : World Unit (Recorded Unit Unit),
      Reached (fun _ => 0) idleBodies Config.standard ({1} + {2} + {3}) world ∧
      (world.heap.isSilent ["__eq__"],
        ((bodiesEngine idleBodies 4).equal (.ref 1) (.ref 2)).answer? world,
        ((bodiesEngine idleBodies 4).equal (.ref 2) (.ref 3)).answer? world) =
        (true, some true, some true) :=
    Reached.exists_follow [.newList [], .share (.ref 0), .append (.ref 0) (.ref 0),
      .share (.ref 0), .share (.ref 0), .newList [.ref 0], .newList [.ref 0], .newList [.ref 0]] 4 () _ _
      rfl (by decide +kernel)
  simp only [Prod.mk.injEq] at seen
  obtain ⟨silent, one, two⟩ := seen
  have holds := reached.holds respectful_idleBodies
  have plain : ∀ value ∈ [Value.ref 1, .ref 2, .ref 3], world.heap.Plain ["__eq__"] value :=
    fun value member => reached.plain respectful_idleBodies silent
      ((by decide : ∀ value ∈ [Value.ref 1, .ref 2, .ref 3], value.owns ≤ {1} + {2} + {3}) value member)
  have later : ∀ value ∈ [Value.ref 2, .ref 3, .ref 3], world.heap.Plain ["__eq__"] value :=
    fun value member => plain value (List.mem_cons_of_mem _ (by simpa using member))
  obtain ⟨same, ⟨outcome, first, back⟩, passed⟩ := (bodiesEngine idleBodies 4).equality_is_equivalence
    world holds.sound (fun _ => holds.settled rfl) (by decide) plain
  obtain ⟨_, ⟨other, second, _⟩, _⟩ := (bodiesEngine idleBodies 4).equality_is_equivalence
    world holds.sound (fun _ => holds.settled rfl) (by decide) later
  cases first.eq_of_answer? one
  cases second.eq_of_answer? two
  exact ⟨world, reached, same, ⟨_, first, back⟩, passed first second⟩

/-- Equal values that no class has a say in have the same hash, if both have one. -/
theorem equal_values_hash_alike (sound : world.heap.Sound outside limbo)
    (settled : world.heap.releasing = false → world.heap.pending = []) (enough : 0 < engine.rounds)
    {left right : Value}
    (plain : ∀ value ∈ [left, right], world.heap.Plain ["__eq__", "__hash__"] value) :
    ∃ verdict one other, (engine.equal left right).Tells world verdict ∧
      (engine.hash left).Tells world one ∧ (engine.hash right).Tells world other ∧
      (verdict = .ok true → ∀ hash otherHash, one = .ok hash → other = .ok otherHash →
        hash = otherHash) := by
  have shows := sound.shows settled
  have hashes {value : Value} (member : value ∈ [left, right]) :
      (engine.hash value).Tells world (world.heap.hashes (maxDataDepth + 1) value) :=
    (engine.hashWithin_looks sound enough List.mem_cons_self
      (List.mem_cons_of_mem _ List.mem_cons_self) _ (plain value member)).tells shows
  have leftPlain := plain left List.mem_cons_self
  have rightPlain := plain right (List.mem_cons_of_mem _ List.mem_cons_self)
  refine ⟨_, _, _, (engine.equalWithin_looks sound enough List.mem_cons_self _ leftPlain rightPlain).tells
    shows, hashes List.mem_cons_self, hashes (List.mem_cons_of_mem _ List.mem_cons_self), ?_⟩
  intro equal hash otherHash hashed otherHashed
  exact (world.heap.hashes_of_equals equal hashed otherHashed).symm

/-- Two tuples of numbers that are equal and of methods with receivers that are equal but have no hash
are equal, and have the same hash. -/
theorem hash_of_equal_tuples : ∃ world : World Unit (Recorded Unit Unit),
    Reached (fun _ => 0) idleBodies Config.standard ({0} + {1} + {2} + {5} + {6}) world ∧
    ((bodiesEngine idleBodies 4).equal (.ref 5) (.ref 6)).Tells world (.ok true) ∧
    ∃ hash, ((bodiesEngine idleBodies 4).hash (.ref 5)).Tells world (.ok hash) ∧
      ((bodiesEngine idleBodies 4).hash (.ref 6)).Tells world (.ok hash) := by
  obtain ⟨world, reached, seen⟩ : ∃ world : World Unit (Recorded Unit Unit),
      Reached (fun _ => 0) idleBodies Config.standard ({0} + {1} + {2} + {5} + {6}) world ∧
      (world.heap.isSilent ["__eq__", "__hash__"],
        ((bodiesEngine idleBodies 4).equal (.ref 5) (.ref 6)).answer? world,
        (((bodiesEngine idleBodies 4).hash (.ref 5)).answer? world).isSome,
        (((bodiesEngine idleBodies 4).hash (.ref 6)).answer? world).isSome) =
        (true, some true, true, true) :=
    Reached.exists_follow [.newFunction "f" none none (), .newList [], .newList [],
      .newMethod (.ref 0) (.ref 1) .nil, .newMethod (.ref 0) (.ref 2) .nil,
      .newTuple [.bool true, .ref 3], .newTuple [.int 1, .ref 4]] 4 () _ _ rfl (by decide +kernel)
  simp only [Prod.mk.injEq] at seen
  obtain ⟨silent, same, left, right⟩ := seen
  have holds := reached.holds respectful_idleBodies
  have plain : ∀ value ∈ [Value.ref 5, .ref 6], world.heap.Plain ["__eq__", "__hash__"] value :=
    fun value member => reached.plain respectful_idleBodies silent ((by decide :
      ∀ value ∈ [Value.ref 5, .ref 6], value.owns ≤ {0} + {1} + {2} + {5} + {6}) value member)
  obtain ⟨verdict, one, other, equal, hashed, otherHashed, alike⟩ := (bodiesEngine idleBodies
    4).equal_values_hash_alike world holds.sound (fun _ => holds.settled rfl) (by decide) plain
  obtain ⟨hash, first⟩ := Option.isSome_iff_exists.mp left
  obtain ⟨otherHash, second⟩ := Option.isSome_iff_exists.mp right
  cases equal.eq_of_answer? same
  cases hashed.eq_of_answer? first
  cases otherHashed.eq_of_answer? second
  cases alike rfl hash otherHash rfl rfl
  exact ⟨world, reached, equal, hash, hashed, otherHashed⟩

end Engine

end ObjectHeap
