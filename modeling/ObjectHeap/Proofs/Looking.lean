/-
This file establishes that equality, order and hash of values that no class has a say in are what can
be told from the heap. The proofs go through the operations step by step: each question has one answer
wherever the heap shows, the references that are taken to items, receivers and owners are to entries
that are there, and they are given up again on every way out.
-/

import ObjectHeap.Proofs.Forms

namespace ObjectHeap

variable {Code Host : Type} {heap : Heap Code} {outside : Multiset Handle} {limbo : List Handle}
  {names : List String} {left right value : Value}

namespace Heap

/-! ### Questions that are answered wherever the heap shows -/

variable {shown : Heap Code}

theorem Shows.readValue (shows : heap.Shows shown) : shown.readValue = heap.readValue := by
  funext value
  cases value <;> simp only [Heap.readValue, shows.read]

theorem Shows.readValue_of_held (shows : heap.Shows shown) {handle : Handle} {payload : Payload Code}
    (held : heap.payload? handle = some payload) :
    shown.readValue (.ref handle) = .ok (some payload) := by
  rw [shows.readValue]
  exact bind_eq_ok.mpr ⟨_, heap.read_eq_ok.mpr held, rfl⟩

theorem Shows.method? (shows : heap.Shows shown) : shown.method? = heap.method? := by
  funext value
  simp only [Heap.method?, shows.readValue]

theorem Shows.method (shows : heap.Shows shown) : shown.method = heap.method := by
  funext handle
  simp only [Heap.method, shows.read]

theorem Shows.methodCounter (shows : heap.Shows shown) :
    shown.methodCounter = heap.methodCounter := by
  funext handle
  simp only [Heap.methodCounter, Heap.function, shows.method, shows.read]

theorem Shows.typeName (shows : heap.Shows shown) : shown.typeName = heap.typeName := by
  funext value
  have kind : shown.kind value = heap.kind value := by
    cases value <;> simp only [Heap.kind, shows.read]
  simp only [Heap.typeName, Heap.instanceType?, Heap.className, shows.readValue, shows.read, kind]

/-- The number shown for a slot depends on the entries that the slot has held. -/
theorem publicId_congr {handle : Handle} (same : shown.births handle = heap.births handle) :
    shown.publicId handle = heap.publicId handle := by
  have generation (heap : Heap Code) :
      ((heap.slots[handle]?).map Slot.generation).getD 0 = heap.births handle - 1 := by
    unfold Heap.births
    cases heap.slots[handle]? <;> rfl
  unfold Heap.publicId
  rw [generation, generation, same]

theorem Shows.publicId (shows : heap.Shows shown) (handle : Handle) :
    shown.publicId handle = heap.publicId handle :=
  publicId_congr (shows.births handle)

theorem identityHash_congr {handle : Handle} (same : shown.births handle = heap.births handle) :
    shown.identityHash handle = heap.identityHash handle := by
  unfold Heap.identityHash
  rw [publicId_congr same]

theorem Shows.identityHash (shows : heap.Shows shown) (handle : Handle) :
    shown.identityHash handle = heap.identityHash handle :=
  identityHash_congr (shows.births handle)

theorem form_of_number {number : Int64} (counted : value.number? = some number) :
    heap.form value = .number number := by
  cases value <;> cases counted <;> rfl

/-- A value that is there is a method, or compared as something else. -/
theorem method?_cases (live : ∀ handle ∈ value.owns, heap.isLive handle) :
    (heap.method? value = .ok none ∧ ∀ counter receiver, heap.form value ≠ .method counter receiver) ∨
      ∃ handle data, value = .ref handle ∧ heap.payload? handle = some (.method data) ∧
        heap.method? value = .ok (some handle) := by
  cases value with
  | ref handle =>
    obtain ⟨payload, held⟩ := exists_payload?_of_isLive (live handle (Multiset.mem_singleton_self _))
    have read := heap.read_eq_ok.mpr held
    rw [form_of_payload? held]
    simp only [Heap.method?, Heap.readValue, read]
    cases payload with
    | method data => exact Or.inr ⟨handle, data, rfl, held, rfl⟩
    | _ => exact Or.inl ⟨rfl, fun _ _ same => by cases same⟩
  | _ => exact Or.inl ⟨rfl, fun _ _ same => by cases same⟩

theorem method?_ok (live : ∀ handle ∈ value.owns, heap.isLive handle) :
    ∃ found, heap.method? value = .ok found := by
  rcases method?_cases live with ⟨missing, _⟩ | ⟨method, data, _, _, found⟩
  · exact ⟨none, missing⟩
  · exact ⟨some method, found⟩

theorem method?_of_held {method : Handle} {data : Method}
    (held : heap.payload? method = some (.method data)) :
    heap.method? (.ref method) = .ok (some method) := by
  simp only [Heap.method?, Heap.readValue, heap.read_eq_ok.mpr held]
  rfl

theorem methods_cases (live : ∀ handle ∈ left.owns, heap.isLive handle)
    (lives : ∀ handle ∈ right.owns, heap.isLive handle) :
    (heap.method? left = .ok none ∨ heap.method? right = .ok none) ∨
      ∃ method other data otherData, left = .ref method ∧ right = .ref other ∧
        heap.payload? method = some (.method data) ∧ heap.payload? other = some (.method otherData) := by
  rcases method?_cases live with ⟨missing, _⟩ | ⟨method, data, same, held, _⟩
  · exact Or.inl (Or.inl missing)
  · rcases method?_cases lives with ⟨missing, _⟩ | ⟨other, otherData, also, holds, _⟩
    · exact Or.inl (Or.inr missing)
    · exact Or.inr ⟨method, other, data, otherData, same, also, held, holds⟩

/-- The function of a method has a number. -/
theorem Sound.methodCounter_ok (sound : heap.Sound outside limbo) {method : Handle} {data : Method}
    (held : heap.payload? method = some (.method data)) :
    heap.methodCounter method = .ok (heap.counter data.function) := by
  obtain ⟨function, reached⟩ := sound.exists_function held
  rw [counter, reached]
  refine Heap.bind_eq_ok.mpr ⟨data, ?_, Heap.bind_eq_ok.mpr ⟨function, ?_, rfl⟩⟩
  · exact Heap.bind_eq_ok.mpr ⟨_, heap.read_eq_ok.mpr held, rfl⟩
  · exact Heap.bind_eq_ok.mpr ⟨_, heap.read_eq_ok.mpr reached, rfl⟩

/-- The receivers and the owners of two methods are there. -/
theorem Sound.isLive_of_bothParts (sound : heap.Sound outside limbo) {method other : Handle}
    {data otherData : Method} (held : heap.payload? method = some (.method data))
    (holds : heap.payload? other = some (.method otherData)) :
    ∀ place ∈ owned (data.parts ++ otherData.parts), heap.isLive place := by
  have visited (data : Method) (place : Handle) (member : Value.ref place ∈ data.parts) :
      place ∈ (Payload.method data : Payload Code).visits := by
    refine List.mem_cons_of_mem _ ?_
    rcases List.mem_append.mp member with receiver | owner
    · rw [Option.mem_toList.mp receiver]
      exact List.mem_append_left _ List.mem_cons_self
    · rw [Option.mem_toList.mp owner]
      exact List.mem_append_right _ List.mem_cons_self
  intro place member
  rcases List.mem_append.mp (mem_owned.mp member) with first | second
  · exact sound.balanced.isLive_of_visits held (visited data place first)
  · exact sound.balanced.isLive_of_visits holds (visited otherData place second)

theorem part_receiver {method : Handle} {data : Method} {receiver : Value}
    (held : heap.payload? method = some (.method data)) (bound : data.receiver = some receiver) :
    heap.HasPart (.ref method) receiver := by
  unfold HasPart
  rw [form_of_payload? held]
  exact Option.mem_toList.mpr bound

/-- The parts of two values are there. -/
theorem Balanced.isLive_of_parts (balanced : heap.Balanced outside) (left right : Value) :
    ∀ place ∈ owned ((heap.form left).parts ++ (heap.form right).parts), heap.isLive place := by
  intro place member
  rcases List.mem_append.mp (mem_owned.mp member) with isPart | isPart <;>
    exact balanced.isLive_part isPart place (Multiset.mem_singleton_self place)

end Heap

open Heap

/-! ### Equality -/

/-- Items are looked at one by one. -/
theorem allEqual_looks {equal : Value → Value → Attempt Code Host Bool}
    {equals : Value → Value → Except Error Bool} {lefts rights : List Value}
    (looks : ∀ left ∈ lefts, ∀ right ∈ rights, (equal left right).Looks heap [] (equals left right)) :
    (allEqual equal lefts rights).Looks heap [] (Form.allEqual equals lefts rights) := by
  induction lefts generalizing rights with
  | nil => exact .pure true
  | cons left lefts inductionHypothesis =>
    cases rights with
    | nil => exact .pure true
    | cons right rights =>
      refine .bind _ (looks left List.mem_cons_self right List.mem_cons_self) fun same _ => ?_
      cases same with
      | true =>
        exact inductionHypothesis fun other member another also =>
          looks other (List.mem_cons_of_mem _ member) another (List.mem_cons_of_mem _ also)
      | false => exact .pure false

/-- What is done with two methods is done with references to their receivers and owners. -/
theorem borrowed_looks {α : Type} (sound : heap.Sound outside limbo) {method other : Handle}
    {data otherData : Method} (held : heap.payload? method = some (.method data))
    (holds : heap.payload? other = some (.method otherData))
    {next : Method → Method → Attempt Code Host α} {outcome : Except Error α}
    (rest : (next data otherData).Looks heap (data.parts ++ otherData.parts) outcome) :
    (do
      let left ← ask fun heap => heap.method method
      retainAll left.parts
      let right ← ask fun heap => heap.method other
      retainAll right.parts
      next left right : Attempt Code Host α).Looks heap [] outcome := by
  have live := fun place member => sound.isLive_of_bothParts held holds place
    (owned_append data.parts otherData.parts ▸ member)
  refine .ask data (fun shown shows => ?_) (.retainAll
    (fun place member => live place (Multiset.mem_add.mpr (Or.inl member)))
    (.ask otherData (fun shown shows => ?_) (.retainAll
      (fun place member => live place (Multiset.mem_add.mpr (Or.inr member))) rest)))
  · rw [shows.method]
    exact bind_eq_ok.mpr ⟨_, heap.read_eq_ok.mpr held, rfl⟩
  · rw [shows.method]
    exact bind_eq_ok.mpr ⟨_, heap.read_eq_ok.mpr holds, rfl⟩

namespace Engine

variable (engine : Engine Code Host) (sound : heap.Sound outside limbo) (enough : 0 < engine.rounds)

section

variable {equal : Value → Value → Attempt Code Host Bool} {equals : Value → Value → Except Error Bool}
  (looks : ∀ part, heap.HasPart left part → ∀ other, heap.HasPart right other →
    (equal part other).Looks heap [] (equals part other))

include sound enough looks in
theorem methodsEqual_of_methods {method other : Handle} {data otherData : Method}
    (held : heap.payload? method = some (.method data))
    (holds : heap.payload? other = some (.method otherData)) (same : left = .ref method)
    (also : right = .ref other) (different : left ≠ right) :
    (engine.methodsEqual equal left right).Looks heap []
      ((heap.form left).equal equals (heap.form right) >>= fun verdict => .ok (some verdict)) := by
  subst same also
  have counter := sound.methodCounter_ok held
  have otherCounter := sound.methodCounter_ok holds
  refine .ask (some method) (fun shown shows => ?_) (.ask (some other) (fun shown shows => ?_) ?_)
  · rw [shows.method?, method?_of_held held]
  · rw [shows.method?, method?_of_held holds]
  rw [form_of_payload? held, form_of_payload? holds]
  dsimp only
  rw [if_neg fun same => different (congrArg Value.ref same.symm)]
  refine .ask _ (fun shown shows => (congrFun shows.methodCounter method).trans counter)
    (.ask _ (fun shown shows => (congrFun shows.methodCounter other).trans otherCounter) ?_)
  show Attempt.Looks heap [] _ ((if heap.counter data.function = heap.counter otherData.function then
      Form.receiversEqual equals data.receiver otherData.receiver else return false) >>= _)
  by_cases counted : heap.counter data.function = heap.counter otherData.function
  · rw [if_neg (not_not.mpr counted), if_pos counted]
    refine borrowed_looks sound held holds (.bind _ (.ensuring enough ?_ ?_) fun verdict _ => .pure _)
    · exact sound.isLive_of_bothParts held holds
    · cases bound : data.receiver with
      | none => cases otherData.receiver <;> exact .pure _
      | some receiver =>
        cases otherBound : otherData.receiver with
        | none => exact .pure _
        | some otherReceiver =>
          exact looks receiver (part_receiver held bound) otherReceiver (part_receiver holds otherBound)
  · rw [if_pos counted, if_neg counted]
    exact .pure _

end

section

variable {engine} {equal : Value → Value → Attempt Code Host Bool}

/-- Methods have no say unless both values are methods. -/
theorem methodsEqual_of_other (live : ∀ handle ∈ left.owns, heap.isLive handle)
    (other : heap.method? left = .ok none ∨ heap.method? right = .ok none) :
    (engine.methodsEqual equal left right).Looks heap [] (.ok none) := by
  rcases method?_cases live with ⟨missing, _⟩ | ⟨method, data, _, _, found⟩
  · refine .ask none (fun shown shows => ?_) (.pure none)
    rw [shows.method?, missing]
  · refine .ask (some method) (fun shown shows => ?_) (.ask none (fun shown shows => ?_) (.pure none))
    · rw [shows.method?, found]
    · rw [shows.method?]
      exact other.resolve_left fun missing => nomatch found.symm.trans missing

/-- A class that lacks a special function has no say. -/
theorem callSpecial_of_none {name : String} {values : List Value}
    (lacking : heap.special? value name = .ok none) :
    (engine.callSpecial value name values).Looks heap [] (.ok none) :=
  .ask none (fun _ shows => (special?_congr shows.payloads value name).trans lacking) (.pure none)

theorem specialEqual_of_none (lacking : heap.special? left "__eq__" = .ok none) :
    (engine.specialEqual left right).Looks heap [] (.ok none) :=
  .bind_ok (callSpecial_of_none lacking) (.pure none)

end

variable {equal : Value → Value → Attempt Code Host Bool} {equals : Value → Value → Except Error Bool}
  (looks : ∀ part, heap.HasPart left part → ∀ other, heap.HasPart right other →
    (equal part other).Looks heap [] (equals part other))

include sound enough looks in
theorem sequencesEqual_looks {lefts rights : List Value} (items : (heap.form left).parts = lefts)
    (others : (heap.form right).parts = rights) :
    (do
      retainAll (lefts ++ rights)
      let result : Attempt Code Host Bool :=
        if lefts.length = rights.length then allEqual equal lefts rights else return false
      result.ensuring (engine.releaseList (lefts ++ rights)) : Attempt Code Host Bool).Looks heap []
      (if lefts.length = rights.length then Form.allEqual equals lefts rights else return false) := by
  subst items others
  have live := sound.balanced.isLive_of_parts left right
  refine .retainAll live (.ensuring enough live ?_)
  split
  · exact allEqual_looks fun part member other also => looks part member other also
  · exact .pure false

include sound enough looks in
theorem contentsEqual_looks (live : ∀ handle ∈ left.owns, heap.isLive handle)
    (lives : ∀ handle ∈ right.owns, heap.isLive handle)
    (numbers : left.number? = none ∨ right.number? = none)
    (methods : heap.method? left = .ok none ∨ heap.method? right = .ok none) :
    (engine.contentsEqual equal left right).Looks heap []
      ((heap.form left).equal equals (heap.form right)) := by
  cases left with
  | ref handle =>
    cases right with
    | ref other =>
      obtain ⟨payload, held⟩ := exists_payload?_of_isLive (live handle (Multiset.mem_singleton_self _))
      obtain ⟨another, holds⟩ := exists_payload?_of_isLive (lives other (Multiset.mem_singleton_self _))
      have read := heap.read_eq_ok.mpr held
      have reads := heap.read_eq_ok.mpr holds
      have form := form_of_payload? held
      have otherForm := form_of_payload? holds
      refine .ask payload (fun shown shows => by rw [shows.read, read])
        (.ask another (fun shown shows => by rw [shows.read, reads]) ?_)
      have parts := sequencesEqual_looks engine sound enough looks (congrArg Form.parts form)
        (congrArg Form.parts otherForm)
      rw [form, otherForm]
      cases payload with
      | str text => cases another <;> exact .pure _
      | list lefts =>
        cases another with
        | list rights => exact parts
        | _ => exact .pure false
      | tuple lefts =>
        cases another with
        | tuple rights => exact parts
        | _ => exact .pure false
      | method data =>
        cases another with
        | method otherData =>
          rw [method?_of_held held, method?_of_held holds] at methods
          rcases methods with missing | missing <;> cases missing
        | _ => exact .pure false
      | _ => cases another <;> exact .pure false
    | _ =>
      obtain ⟨payload, held⟩ := exists_payload?_of_isLive (live handle (Multiset.mem_singleton_self _))
      rw [form_of_payload? held]
      cases payload <;> exact .pure false
  | nil => exact .pure false
  | _ =>
    cases right with
    | ref other =>
      obtain ⟨another, holds⟩ := exists_payload?_of_isLive (lives other (Multiset.mem_singleton_self _))
      rw [form_of_payload? holds]
      cases another <;> exact .pure false
    | nil => exact .pure false
    | _ => rcases numbers with small | small <;> cases small

include sound enough in
/-- Equality of plain values is what can be told from the heap. -/
theorem equalWithin_looks (listed : "__eq__" ∈ names) (levels : Nat) (plain : heap.Plain names left)
    (other : heap.Plain names right) :
    (engine.equalWithin levels left right).Looks heap [] (heap.equals levels left right) := by
  induction levels generalizing left right with
  | zero => exact .refuse .tooDeep
  | succ levels inductionHypothesis =>
    have looks (part) (isPart : heap.HasPart left part) (another) (alsoPart : heap.HasPart right another) :=
      inductionHypothesis (plain.part sound.balanced isPart) (other.part sound.balanced alsoPart)
    have lacking := sound.special?_eq_none plain listed
    have lackingOther := sound.special?_eq_none other listed
    unfold Engine.equalWithin Heap.equals
    by_cases same : left.same right
    · rw [if_pos same, if_pos same]
      exact .pure true
    rw [if_neg same, if_neg same]
    cases counted : left.number? <;> cases otherCounted : right.number?
    on_goal 4 =>
      rw [form_of_number counted, form_of_number otherCounted]
      exact .pure _
    -- The values are not both numbers, and are asked one after the other.
    all_goals
      have numbers : left.number? = none ∨ right.number? = none := by
        simp only [counted, otherCounted, true_or, or_true]
      have rest := contentsEqual_looks engine sound enough looks plain.live other.live numbers
      rcases methods_cases plain.live other.live with
        missing | ⟨method, another, data, otherData, isMethod, also, held, holds⟩
      -- No method has a say, nor has a class.
      · refine .bind_ok (methodsEqual_of_other plain.live missing) ?_
        refine .bind_ok (methodsEqual_of_other other.live missing.symm) ?_
        refine .bind_ok (specialEqual_of_none lacking) (.bind_ok (specialEqual_of_none lackingOther) ?_)
        exact rest missing
      · have answer := engine.methodsEqual_of_methods sound enough looks held holds isMethod also
          fun alike => same (decide_eq_true alike)
        refine .congr (.bind (fun verdict => .ok (verdict.getD false)) answer ?_) ?_
        · rintro (_ | verdict) told
          · cases judged : Form.equal (heap.equals levels) (heap.form left) (heap.form right) <;>
              rw [judged] at told <;> cases told
          · exact .pure _
        · cases Form.equal (heap.equals levels) (heap.form left) (heap.form right) <;> rfl

/-! ### Order -/

section

variable {order : Value → Value → Attempt Code Host Ordering}
  {orders : Value → Value → Except Error Ordering} {refused : Error}

theorem itemsOrder_looks {lefts rights : List Value}
    (looks : ∀ part ∈ lefts, ∀ other ∈ rights, (equal part other).Looks heap [] (equals part other))
    (ranks : ∀ part ∈ lefts, ∀ other ∈ rights, (order part other).Looks heap [] (orders part other)) :
    (itemsOrder equal order lefts rights).Looks heap [] (Form.itemsOrder equals orders lefts rights) := by
  induction lefts generalizing rights with
  | nil => exact .pure _
  | cons left lefts inductionHypothesis =>
    cases rights with
    | nil => exact .pure _
    | cons right rights =>
      refine .bind _ (looks left List.mem_cons_self right List.mem_cons_self) fun same _ => ?_
      cases same with
      | true =>
        refine inductionHypothesis (fun other member another also => ?_) fun other member another also => ?_
        · exact looks other (List.mem_cons_of_mem _ member) another (List.mem_cons_of_mem _ also)
        · exact ranks other (List.mem_cons_of_mem _ member) another (List.mem_cons_of_mem _ also)
      | false => exact ranks left List.mem_cons_self right List.mem_cons_self

variable (ranks : ∀ part, heap.HasPart left part → ∀ other, heap.HasPart right other →
    (order part other).Looks heap [] (orders part other))

include sound enough ranks in
theorem methodOrder_looks {method other : Handle} {data otherData : Method}
    (held : heap.payload? method = some (.method data))
    (holds : heap.payload? other = some (.method otherData)) (same : left = .ref method)
    (also : right = .ref other) :
    (engine.methodOrder order method other).Looks heap []
      ((heap.form left).order equals orders refused (heap.form right)) := by
  subst same also
  have counter := sound.methodCounter_ok held
  have otherCounter := sound.methodCounter_ok holds
  rw [form_of_payload? held, form_of_payload? holds]
  refine .ask _ (fun shown shows => (congrFun shows.methodCounter method).trans counter)
    (.ask _ (fun shown shows => (congrFun shows.methodCounter other).trans otherCounter) ?_)
  show Attempt.Looks heap [] _ (if heap.counter data.function = heap.counter otherData.function then
      Form.receiversOrder orders data.receiver otherData.receiver else return compare _ _)
  by_cases counted : heap.counter data.function = heap.counter otherData.function
  · rw [if_neg (not_not.mpr counted), if_pos counted]
    refine borrowed_looks sound held holds (.ensuring enough ?_ ?_)
    · exact sound.isLive_of_bothParts held holds
    · cases bound : data.receiver with
      | none => cases otherData.receiver <;> exact .pure _
      | some receiver =>
        cases otherBound : otherData.receiver with
        | none => exact .pure _
        | some otherReceiver =>
          dsimp only [Form.receiversOrder]
          split
          · exact .pure _
          · exact ranks receiver (part_receiver held bound) otherReceiver (part_receiver holds otherBound)
  · rw [if_pos counted, if_neg counted]
    exact .pure _

include sound enough looks ranks in
theorem sequencesOrder_looks {lefts rights : List Value} (items : (heap.form left).parts = lefts)
    (others : (heap.form right).parts = rights) :
    (do
      retainAll (lefts ++ rights)
      (itemsOrder equal order lefts rights).ensuring (engine.releaseList (lefts ++ rights)) :
        Attempt Code Host Ordering).Looks heap [] (Form.itemsOrder equals orders lefts rights) := by
  subst items others
  have live := sound.balanced.isLive_of_parts left right
  exact .retainAll live (.ensuring enough live (itemsOrder_looks looks ranks))

include sound in
/-- Where there is no order, the types are named. -/
theorem notOrdered_looks (live : ∀ handle ∈ left.owns, heap.isLive handle)
    (lives : ∀ handle ∈ right.owns, heap.isLive handle) :
    (do
      let leftType ← ask fun heap => heap.typeName left
      let rightType ← ask fun heap => heap.typeName right
      Attempt.refuse (.notOrdered leftType rightType) : Attempt Code Host Ordering).Looks heap []
      (.error (Refusal.notOrdered (heap.typeTitle left) (heap.typeTitle right)).error) :=
  .ask _ (fun _ shows => (congrFun shows.typeName left).trans (sound.typeName_ok live))
    (.ask _ (fun _ shows => (congrFun shows.typeName right).trans (sound.typeName_ok lives))
      (.refuse _))

include sound enough looks ranks in
theorem contentsOrder_looks (live : ∀ handle ∈ left.owns, heap.isLive handle)
    (lives : ∀ handle ∈ right.owns, heap.isLive handle)
    (numbers : left.number? = none ∨ right.number? = none)
    (methods : heap.method? left = .ok none ∨ heap.method? right = .ok none) :
    (engine.contentsOrder equal order left right).Looks heap []
      ((heap.form left).order equals orders
        (Refusal.notOrdered (heap.typeTitle left) (heap.typeTitle right)).error (heap.form right)) := by
  have refused := @notOrdered_looks _ Host _ _ _ _ _ sound live lives
  -- Numbers and methods were compared before it comes to the contents.
  cases left with
  | ref handle =>
    obtain ⟨payload, held⟩ := exists_payload?_of_isLive (live handle (Multiset.mem_singleton_self _))
    have form := form_of_payload? held
    refine .ask (some payload) (fun _ shows => shows.readValue_of_held held) ?_
    cases right with
    | ref other =>
      obtain ⟨another, holds⟩ := exists_payload?_of_isLive (lives other (Multiset.mem_singleton_self _))
      have otherForm := form_of_payload? holds
      refine .ask (some another) (fun _ shows => shows.readValue_of_held holds) ?_
      have parts := sequencesOrder_looks engine sound enough looks ranks (congrArg Form.parts form)
        (congrArg Form.parts otherForm)
      rw [form, otherForm]
      cases payload with
      | str text =>
        cases another with
        | str otherText => exact .pure _
        | _ => exact refused
      | list lefts =>
        cases another with
        | list rights => exact parts
        | _ => exact refused
      | tuple lefts =>
        cases another with
        | tuple rights => exact parts
        | _ => exact refused
      | method data =>
        cases another with
        | method otherData =>
          rw [method?_of_held held, method?_of_held holds] at methods
          rcases methods with missing | missing <;> cases missing
        | _ => exact refused
      | _ => cases another <;> exact refused
    | _ =>
      refine .ask none (fun _ _ => rfl) ?_
      rw [form]
      cases payload <;> exact refused
  | nil =>
    refine .ask none (fun _ _ => rfl) ?_
    cases right with
    | ref other =>
      obtain ⟨another, holds⟩ := exists_payload?_of_isLive (lives other (Multiset.mem_singleton_self _))
      exact .ask (some another) (fun _ shows => shows.readValue_of_held holds) refused
    | _ => exact .ask none (fun _ _ => rfl) refused
  | _ =>
    refine .ask none (fun _ _ => rfl) ?_
    cases right with
    | ref other =>
      obtain ⟨another, holds⟩ := exists_payload?_of_isLive (lives other (Multiset.mem_singleton_self _))
      refine .ask (some another) (fun _ shows => shows.readValue_of_held holds) ?_
      rw [form_of_payload? holds]
      cases another <;> exact refused
    | nil => exact .ask none (fun _ _ => rfl) refused
    | _ => rcases numbers with small | small <;> cases small

include sound enough in
/-- The order of plain values is what can be told from the heap. -/
theorem orderWithin_looks (compares : "__eq__" ∈ names) (listed : "__lt__" ∈ names) (levels : Nat)
    (plain : heap.Plain names left) (other : heap.Plain names right) :
    (engine.orderWithin levels left right).Looks heap [] (heap.orders levels left right) := by
  induction levels generalizing left right with
  | zero => exact .refuse .tooDeep
  | succ levels inductionHypothesis =>
    have plains {part} (isPart : heap.HasPart left part) := plain.part sound.balanced isPart
    have others {part} (isPart : heap.HasPart right part) := other.part sound.balanced isPart
    have looks (part) (isPart : heap.HasPart left part) (another) (alsoPart : heap.HasPart right another) :=
      engine.equalWithin_looks sound enough compares levels (plains isPart) (others alsoPart)
    have ranks (part) (isPart : heap.HasPart left part) (another) (alsoPart : heap.HasPart right another) :=
      inductionHypothesis (plains isPart) (others alsoPart)
    have lacking := sound.special?_eq_none plain listed
    unfold Engine.orderWithin Heap.orders
    cases counted : left.number? <;> cases otherCounted : right.number?
    on_goal 4 =>
      rw [form_of_number counted, form_of_number otherCounted]
      exact .pure _
    -- The values are not both numbers.
    all_goals
      have numbers : left.number? = none ∨ right.number? = none := by
        simp only [counted, otherCounted, true_or, or_true]
      have rest := contentsOrder_looks engine sound enough looks ranks plain.live other.live numbers
      rcases methods_cases plain.live other.live with
        missing | ⟨method, another, data, otherData, isMethod, also, held, holds⟩
      · obtain ⟨found, asked⟩ := method?_ok plain.live
        obtain ⟨otherFound, otherAsked⟩ := method?_ok other.live
        refine .ask found (fun shown shows => (congrFun shows.method? left).trans asked)
          (.ask otherFound (fun shown shows => (congrFun shows.method? right).trans otherAsked) ?_)
        have special (shown : Heap Code) (shows : heap.Shows shown) :=
          (special?_congr shows.payloads left "__lt__").trans lacking
        cases found with
        | none => exact .ask none special (rest missing)
        | some method =>
          cases otherFound with
          | none => exact .ask none special (rest missing)
          | some another =>
            rw [asked, otherAsked] at missing
            rcases missing with missing | missing <;> cases missing
      · refine .ask (some method) (fun shown shows => ?_) (.ask (some another) (fun shown shows => ?_) ?_)
        · rw [shows.method?, isMethod]
          exact method?_of_held held
        · rw [shows.method?, also]
          exact method?_of_held holds
        · exact methodOrder_looks engine sound enough ranks held holds isMethod also

end

/-! ### Hashes -/

theorem allHashes_looks {hash : Value → Attempt Code Host Int64} {hashes : Value → Except Error Int64}
    {items : List Value} (looks : ∀ item ∈ items, (hash item).Looks heap [] (hashes item)) :
    (allHashes hash items).Looks heap [] (Form.allHashes hashes items) := by
  induction items with
  | nil => exact .pure []
  | cons item rest inductionHypothesis =>
    refine .bind _ (looks item List.mem_cons_self) fun first _ => ?_
    exact .bind _ (inductionHypothesis fun other member => looks other (List.mem_cons_of_mem _ member))
      fun later _ => .pure _

/-- The hash by identity is read off the slot. -/
theorem identityHash_looks (handle : Handle) :
    (do return (← currentHeap).identityHash handle : Attempt Code Host Int64).Looks heap []
      (.ok (heap.identityHash handle)) := by
  intro world shows
  refine ⟨world.heap, ?_, .refl _⟩
  rw [← shows.identityHash]
  rfl

/-- An instance whose class says nothing about hashes or equality hashes by identity. -/
theorem instanceHash_looks {handle : Handle}
    (hashless : heap.special? (.ref handle) "__hash__" = .ok none)
    (equalless : heap.special? (.ref handle) "__eq__" = .ok none) :
    (engine.instanceHash (.ref handle) handle).Looks heap [] (.ok (heap.identityHash handle)) :=
  .bind_ok (callSpecial_of_none hashless)
    (.ask none (fun _ shows => (special?_congr shows.payloads _ _).trans equalless)
      (identityHash_looks handle))

include sound enough in
/-- The hash of a value that is hashed plainly is what can be told from the heap. -/
theorem hashWithin_looks_of_items (levels : Nat) (plain : heap.HashedPlainly value) :
    (engine.hashWithin levels value).Looks heap [] (heap.hashes levels value) := by
  induction levels generalizing value with
  | zero => exact .refuse .tooDeep
  | succ levels inductionHypothesis =>
    cases value with
    | ref handle =>
      obtain ⟨payload, held⟩ :=
        exists_payload?_of_isLive (plain.live handle (Multiset.mem_singleton_self _))
      have form := form_of_payload? held
      unfold Heap.hashes
      rw [form]
      refine .ask payload (fun shown shows => by rw [shows.read, heap.read_eq_ok.mpr held]) ?_
      cases payload with
      | str text => exact .pure _
      | list items => exact .refuse _
      | method data =>
        exact .ask _ (fun shown shows => (congrFun shows.methodCounter handle).trans
          (sound.methodCounter_ok held)) (.pure _)
      | object data =>
        exact engine.instanceHash_looks
          (sound.special?_eq_none_of_lacks plain.live (plain.lacks _ .refl "__hash__" (by simp)))
          (sound.special?_eq_none_of_lacks plain.live (plain.lacks _ .refl "__eq__" (by simp)))
      | tuple items =>
        have hasItem (item) (member : item ∈ items) : heap.HasItem (.ref handle) item :=
          ⟨items, form, member⟩
        -- The items are held while they are hashed, and given up again whatever comes out.
        have live (place) (member : place ∈ owned items) : heap.isLive place :=
          sound.balanced.isLive_part (hasItem _ (mem_owned.mp member)).hasPart place
            (Multiset.mem_singleton_self place)
        refine .retainAll live (.bind _ (.ensuring enough live (allHashes_looks fun item member => ?_))
          fun hashes _ => .pure _)
        exact inductionHypothesis (plain.item sound.balanced (hasItem item member))
      | _ => exact identityHash_looks handle
    | _ => exact .pure _

include sound enough in
/-- The hash of a plain value is what can be told from the heap. -/
theorem hashWithin_looks (compares : "__eq__" ∈ names) (listed : "__hash__" ∈ names) (levels : Nat)
    (plain : heap.Plain names value) :
    (engine.hashWithin levels value).Looks heap [] (heap.hashes levels value) :=
  engine.hashWithin_looks_of_items sound enough levels (plain.hashedPlainly compares listed)

end Engine

end ObjectHeap
