/-
This file says what the text of a value is, and shows that rendering comes to it. A list or a tuple is
written in full wherever it stands, however often, except inside itself: there it is cut short. So the
text of a value depends on the way that leads to it. Rendering keeps no such way, but only the lists and
tuples on it, and it gives up below a certain depth. It comes to the text all the same if no place that
belongs to the text lies deeper, and otherwise it fails.
-/

import ObjectHeap.Proofs.Texts

namespace ObjectHeap

variable {Code Host : Type} {heap : Heap Code} {way : List Handle} {value : Value} {text other : String}
  {handle : Handle}

/-! ### Texts of values -/

/-- How a sequence is written. -/
structure Layout where
  items : List Value
  /-- The text of the sequence in full, given the texts of its items. -/
  whole : List String → String
  /-- The text of the sequence inside itself. -/
  cut : String

/-- The text of a tuple, where a comma follows an item that is the only one. -/
def tupleText : List String → String
  | [single] => "(" ++ single ++ ",)"
  | texts => "(" ++ ", ".intercalate texts ++ ")"

/-- How a list or a tuple is written. -/
def Payload.layout? : Payload Code → Option Layout
  | .list items =>
    some { items, whole := fun texts => "[" ++ ", ".intercalate texts ++ "]", cut := "[...]" }
  | .tuple items => some { items, whole := tupleText, cut := "(...)" }
  | _ => none

namespace Heap

/-- How the sequence in a slot is written. -/
def layout? (heap : Heap Code) (handle : Handle) : Option Layout :=
  heap.payload? handle >>= Payload.layout?

/-- How a method is named in its text. -/
def methodName (heap : Heap Code) (method : Method) : String :=
  ((heap.function? method.function).map (heap.methodTitle method)).getD ""

/-- The text of an entry that shows no other values. -/
def entryText? (heap : Heap Code) (handle : Handle) : Payload Code → Option String
  | .str text => some (Text.Quoted.render text)
  | .function data => some ("<function " ++ data.qualifiedName ++ " at " ++ heap.location handle ++ ">")
  | .type data => some ("<class '" ++ data.name ++ "'>")
  | .weakref data => some (heap.weakrefTitle handle data)
  | .object _ =>
    some ("<" ++ heap.typeTitle (.ref handle) ++ " object at " ++ heap.location handle ++ ">")
  | .method _ | .list _ | .tuple _ => none

/-- The text of a value that shows no other values. -/
def simpleText? (heap : Heap Code) : Value → Option String
  | .ref handle => heap.payload? handle >>= heap.entryText? handle
  | value => value.text?

/-- The text of a value at the end of a way through lists, tuples and methods, the innermost one first.
A sequence is cut short just in case it is on the way. -/
inductive Depicts (heap : Heap Code) : List Handle → Value → String → Prop
  | simple {way : List Handle} {value : Value} {text : String}
    (told : heap.simpleText? value = some text) : Depicts heap way value text
  | unbound {way : List Handle} {handle : Handle} {data : Method}
    (held : heap.payload? handle = some (.method data)) (loose : data.receiver = none) :
    Depicts heap way (.ref handle) ("<unbound method " ++ heap.methodName data ++ ">")
  | bound {way : List Handle} {handle : Handle} {data : Method} {receiver : Value} {text : String}
    (held : heap.payload? handle = some (.method data)) (bound : data.receiver = some receiver)
    (shown : Depicts heap (handle :: way) receiver text) :
    Depicts heap way (.ref handle) ("<bound method " ++ heap.methodName data ++ " of " ++ text ++ ">")
  | again {way : List Handle} {handle : Handle} {layout : Layout}
    (held : heap.layout? handle = some layout) (inside : handle ∈ way) :
    Depicts heap way (.ref handle) layout.cut
  | whole {way : List Handle} {handle : Handle} {layout : Layout} {texts : List String}
    (held : heap.layout? handle = some layout) (outside : handle ∉ way)
    (paired : texts.length = layout.items.length)
    (shown : ∀ (place : Nat) item text, layout.items[place]? = some item → texts[place]? = some text →
      Depicts heap (handle :: way) item text) :
    Depicts heap way (.ref handle) (layout.whole texts)

/-- A place that belongs to the text of a value: what stands there, and the way that leads to it. -/
structure Spot where
  way : List Handle
  value : Value

/-- One place is next to another one on the way inside. Nothing is inside a sequence that is cut short. -/
inductive Enters (heap : Heap Code) : Spot → Spot → Prop
  | receiver {way : List Handle} {handle : Handle} {data : Method} {receiver : Value}
    (held : heap.payload? handle = some (.method data)) (bound : data.receiver = some receiver) :
    Enters heap ⟨way, .ref handle⟩ ⟨handle :: way, receiver⟩
  | item {way : List Handle} {handle : Handle} {layout : Layout} {item : Value}
    (held : heap.layout? handle = some layout) (outside : handle ∉ way)
    (member : item ∈ layout.items) : Enters heap ⟨way, .ref handle⟩ ⟨handle :: way, item⟩

/-- A place belongs to the text of what stands at another place. -/
def Visits (heap : Heap Code) : Spot → Spot → Prop :=
  Relation.ReflTransGen heap.Enters

/-! ### Values of three kinds -/

theorem simpleText?_of_method {data : Method} (held : heap.payload? handle = some (.method data)) :
    heap.simpleText? (.ref handle) = none := by
  rw [simpleText?, held]
  rfl

theorem layout?_of_method {data : Method} (held : heap.payload? handle = some (.method data)) :
    heap.layout? handle = none := by
  rw [layout?, held]
  rfl

/-- Sequences are lists and tuples. -/
theorem layout?_cases {layout : Layout} (laid : heap.layout? handle = some layout) :
    (∃ items, heap.payload? handle = some (.list items) ∧ layout =
      { items, whole := fun texts => "[" ++ ", ".intercalate texts ++ "]", cut := "[...]" }) ∨
    ∃ items, heap.payload? handle = some (.tuple items) ∧ layout =
      { items, whole := tupleText, cut := "(...)" } := by
  obtain ⟨payload, held, shaped⟩ := Option.bind_eq_some_iff.mp laid
  cases payload with
  | list items => exact .inl ⟨items, held, (Option.some.inj shaped).symm⟩
  | tuple items => exact .inr ⟨items, held, (Option.some.inj shaped).symm⟩
  | _ => cases shaped

theorem simpleText?_of_layout {layout : Layout} (laid : heap.layout? handle = some layout) :
    heap.simpleText? (.ref handle) = none := by
  rcases layout?_cases laid with ⟨items, held, _⟩ | ⟨items, held, _⟩ <;> rw [simpleText?, held] <;> rfl

/-- A value that is there shows no other values, or is a method or a sequence. -/
theorem value_cases (live : ∀ handle ∈ value.owns, heap.isLive handle) :
    (∃ text, heap.simpleText? value = some text) ∨
    (∃ handle data, value = .ref handle ∧ heap.payload? handle = some (.method data)) ∨
    ∃ handle layout, value = .ref handle ∧ heap.layout? handle = some layout := by
  cases value with
  | ref handle =>
    obtain ⟨payload, held⟩ := exists_payload?_of_isLive (live handle (Multiset.mem_singleton_self _))
    cases payload with
    | method data => exact .inr (.inl ⟨handle, data, rfl, held⟩)
    | list items | tuple items => exact .inr (.inr ⟨handle, _, rfl, by rw [layout?, held]; rfl⟩)
    | _ => exact .inl ⟨_, by rw [simpleText?, held]; rfl⟩
  | _ => exact .inl ⟨_, rfl⟩

theorem Depicts.eq_of_simple (depicts : heap.Depicts way value other)
    (told : heap.simpleText? value = some text) : other = text := by
  cases depicts with
  | simple also => exact Option.some.inj (also.symm.trans told)
  | unbound held | bound held =>
    rw [simpleText?_of_method held] at told
    cases told
  | again laid | whole laid =>
    rw [simpleText?_of_layout laid] at told
    cases told

/-- The text of a method has the text of its receiver in it, if there is one. -/
theorem Depicts.of_method {data : Method} (depicts : heap.Depicts way (.ref handle) text)
    (held : heap.payload? handle = some (.method data)) :
    (data.receiver = none ∧ text = "<unbound method " ++ heap.methodName data ++ ">") ∨
    ∃ receiver part, data.receiver = some receiver ∧ heap.Depicts (handle :: way) receiver part ∧
      text = "<bound method " ++ heap.methodName data ++ " of " ++ part ++ ">" := by
  cases depicts with
  | simple told =>
    rw [simpleText?_of_method held] at told
    cases told
  | unbound also loose =>
    cases held.symm.trans also
    exact .inl ⟨loose, rfl⟩
  | bound also bound shown =>
    cases held.symm.trans also
    exact .inr ⟨_, _, bound, shown, rfl⟩
  | again laid | whole laid =>
    rw [layout?_of_method held] at laid
    cases laid

/-- The text of a sequence is cut short inside itself, and has the texts of all items in it elsewhere. -/
theorem Depicts.of_layout {layout : Layout} (depicts : heap.Depicts way (.ref handle) text)
    (laid : heap.layout? handle = some layout) :
    (handle ∈ way ∧ text = layout.cut) ∨
    handle ∉ way ∧ ∃ texts, texts.length = layout.items.length ∧
      (∀ (place : Nat) item text, layout.items[place]? = some item → texts[place]? = some text →
        heap.Depicts (handle :: way) item text) ∧ text = layout.whole texts := by
  cases depicts with
  | simple told =>
    rw [simpleText?_of_layout laid] at told
    cases told
  | unbound held | bound held =>
    rw [layout?_of_method held] at laid
    cases laid
  | again also inside =>
    cases laid.symm.trans also
    exact .inl ⟨inside, rfl⟩
  | whole also outside paired shown =>
    cases laid.symm.trans also
    exact .inr ⟨outside, _, paired, shown, rfl⟩

/-- A value has one text at the end of a way. -/
theorem Depicts.unique (depicts : heap.Depicts way value text) (again : heap.Depicts way value other) :
    text = other := by
  induction depicts generalizing other with
  | simple told => exact (again.eq_of_simple told).symm
  | unbound held loose =>
    rcases again.of_method held with ⟨_, same⟩ | ⟨_, _, bound, _⟩
    · exact same.symm
    · cases loose.symm.trans bound
  | bound held bound shown inductionHypothesis =>
    rcases again.of_method held with ⟨loose, _⟩ | ⟨receiver, part, also, alsoShown, same⟩
    · cases bound.symm.trans loose
    · cases bound.symm.trans also
      rw [same, inductionHypothesis alsoShown]
  | again laid inside =>
    rcases again.of_layout laid with ⟨_, same⟩ | ⟨outside, _⟩
    · exact same.symm
    · exact absurd inside outside
  | @whole _ _ layout texts laid outside paired shown inductionHypothesis =>
    rcases again.of_layout laid with ⟨inside, _⟩ | ⟨_, others, alsoPaired, alsoShown, same⟩
    · exact absurd inside outside
    -- The items are the same in both, and each of them has one text.
    · have alike : texts = others := by
        refine List.ext_getElem (paired.trans alsoPaired.symm) fun place here there => ?_
        have within : place < layout.items.length := paired ▸ here
        exact inductionHypothesis place _ _ (List.getElem?_eq_getElem within)
          (List.getElem?_eq_getElem here)
          (alsoShown place _ _ (List.getElem?_eq_getElem within) (List.getElem?_eq_getElem there))
      rw [same, alike]

/-! ### Rendering step by step -/

variable {levels : Nat} {enclosing : List Handle}

theorem renders_of_simple (told : heap.simpleText? value = some text) :
    heap.renders (levels + 1) enclosing value = .ok text := by
  cases value with
  | ref handle =>
    obtain ⟨payload, held, shown⟩ := Option.bind_eq_some_iff.mp told
    unfold renders
    rw [held]
    cases payload <;> cases shown <;> rfl
  | _ => cases told; rfl

theorem renders_of_method {data : Method} (held : heap.payload? handle = some (.method data)) :
    heap.renders (levels + 1) enclosing (.ref handle) =
      match data.receiver with
      | none => .ok ("<unbound method " ++ heap.methodName data ++ ">")
      | some receiver => do
        let text ← heap.renders levels enclosing receiver
        return "<bound method " ++ heap.methodName data ++ " of " ++ text ++ ">" := by
  rw [renders, held]
  show heap.methodText _ data = _
  unfold methodText
  cases data.receiver <;> rfl

theorem renders_of_layout {layout : Layout} (laid : heap.layout? handle = some layout) :
    heap.renders (levels + 1) enclosing (.ref handle) =
      if handle ∈ enclosing then .ok layout.cut
      else do
        let texts ← Form.allTexts (heap.renders levels (handle :: enclosing)) layout.items
        return layout.whole texts := by
  rcases layout?_cases laid with ⟨items, held, rfl⟩ | ⟨items, held, rfl⟩
  · have enclose : Brackets.list.enclose = fun texts => "[" ++ ", ".intercalate texts ++ "]" := by
      funext texts
      simp [Brackets.enclose, Brackets.list]
    rw [renders, held]
    simp only [sequenceText, List.contains_iff_mem, enclose]
    rfl
  · have enclose : Brackets.tuple.enclose = tupleText := by
      funext texts
      unfold tupleText
      split
      · rename_i single
        show "(" ++ single ++ "," ++ ")" = "(" ++ single ++ ",)"
        rw [String.append_assoc]
        rfl
      · rename_i several
        have length : texts.length ≠ 1 := fun single => by
          obtain ⟨text, rfl⟩ := List.length_eq_one_iff.mp single
          exact several text rfl
        simp [Brackets.enclose, Brackets.tuple, length]
    rw [renders, held]
    simp only [sequenceText, List.contains_iff_mem, enclose]
    rfl

end Heap

/-- Items are rendered one by one. If one of them has no text, then all of them have none. -/
theorem Form.allTexts_cases (render : Value → Except Error String) (items : List Value) :
    (∃ texts, allTexts render items = .ok texts ∧ texts.length = items.length ∧
      (∀ item ∈ items, ∃ text, render item = .ok text) ∧
      ∀ (place : Nat) item text, items[place]? = some item → texts[place]? = some text →
        render item = .ok text) ∨
    ∃ item ∈ items, ∃ error, render item = .error error ∧ allTexts render items = .error error := by
  induction items with
  | nil => exact .inl ⟨[], rfl, rfl, nofun, fun _ _ _ found => by simp at found⟩
  | cons item rest inductionHypothesis =>
    cases rendered : render item with
    | error error =>
      exact .inr ⟨item, List.mem_cons_self, error, rendered, by rw [allTexts, rendered]; rfl⟩
    | ok text =>
      rcases inductionHypothesis with ⟨texts, all, paired, each, shown⟩ | ⟨other, member, error, refused, all⟩
      · refine .inl ⟨text :: texts, by rw [allTexts, rendered, all]; rfl, by simp [paired],
          fun other member => ?_, fun place other shownText found also => ?_⟩
        · rcases List.mem_cons.mp member with rfl | member
          · exact ⟨text, rendered⟩
          · exact each other member
        · cases place with
          | zero =>
            cases found
            cases also
            exact rendered
          | succ place => exact shown place other shownText found also
      · refine .inr ⟨other, List.mem_cons_of_mem _ member, error, refused, ?_⟩
        rw [allTexts, rendered, all]
        rfl

namespace Heap

/-! ### Places inside -/

variable {levels : Nat} {enclosing : List Handle} {spot next : Spot}

theorem Enters.length_way (enters : heap.Enters spot next) :
    next.way.length = spot.way.length + 1 := by
  cases enters <;> rfl

/-- A place next to another one is a part of what stands there. -/
theorem Enters.hasPart (enters : heap.Enters spot next) : heap.HasPart spot.value next.value := by
  cases enters with
  | receiver held bound => exact part_receiver held bound
  | item laid _ member =>
    rcases layout?_cases laid with ⟨items, held, rfl⟩ | ⟨items, held, rfl⟩
    all_goals
      show _ ∈ (heap.form _).parts
      rw [form_of_payload? held]
      exact member

/-- Nothing is inside a value that shows no other values. -/
theorem not_enters_of_simple (told : heap.simpleText? value = some text) :
    ¬ heap.Enters ⟨way, value⟩ next := by
  rintro (held | laid)
  · rw [simpleText?_of_method held] at told
    cases told
  · rw [simpleText?_of_layout laid] at told
    cases told

/-- Nothing but its receiver is inside a method. -/
theorem Enters.of_method {data : Method} (enters : heap.Enters ⟨way, .ref handle⟩ next)
    (held : heap.payload? handle = some (.method data)) :
    ∃ receiver, data.receiver = some receiver ∧ next = ⟨handle :: way, receiver⟩ := by
  cases enters with
  | receiver also bound =>
    cases held.symm.trans also
    exact ⟨_, bound, rfl⟩
  | item laid =>
    rw [layout?_of_method held] at laid
    cases laid

/-- Nothing but its items is inside a sequence, and they are only inside where it is not cut short. -/
theorem Enters.of_layout {layout : Layout} (enters : heap.Enters ⟨way, .ref handle⟩ next)
    (laid : heap.layout? handle = some layout) :
    handle ∉ way ∧ ∃ item ∈ layout.items, next = ⟨handle :: way, item⟩ := by
  cases enters with
  | receiver held =>
    rw [layout?_of_method held] at laid
    cases laid
  | item also outside member =>
    cases laid.symm.trans also
    exact ⟨outside, _, member, rfl⟩

/-! ### Rendering and texts -/

/-- What rendering has come to is the text of what stands at a place, and no place that belongs to it is
so many levels further inside; or it is an error, and there is such a place. -/
def Written (heap : Heap Code) (levels : Nat) (spot : Spot) : Except Error String → Prop
  | .ok text => heap.Depicts spot.way spot.value text ∧
    ∀ place, heap.Visits spot place → place.way.length < spot.way.length + levels
  | .error error => error = Refusal.tooDeep.error ∧
    ∃ place, heap.Visits spot place ∧ place.way.length = spot.way.length + levels

/-- A text is written with one level more if what is next inside has been written. -/
theorem Written.of_next (depicts : heap.Depicts spot.way spot.value text)
    (written : ∀ next, heap.Enters spot next → ∃ part, heap.Written levels next (.ok part)) :
    heap.Written (levels + 1) spot (.ok text) := by
  refine ⟨depicts, fun place visits => ?_⟩
  rcases visits.cases_head with rfl | ⟨next, enters, visits⟩
  · omega
  · obtain ⟨part, _, bounded⟩ := written next enters
    have deep := bounded place visits
    rw [enters.length_way] at deep
    omega

/-- What is too deep from a place next inside is too deep. -/
theorem Written.of_error {error : Error} (written : heap.Written levels next (.error error))
    (enters : heap.Enters spot next) : heap.Written (levels + 1) spot (.error error) := by
  obtain ⟨same, place, visits, deep⟩ := written
  refine ⟨same, place, .head enters visits, deep.trans ?_⟩
  rw [enters.length_way]
  omega

theorem Written.of_method {data : Method} (held : heap.payload? handle = some (.method data))
    (written : ∀ receiver, data.receiver = some receiver →
      heap.Written levels ⟨handle :: way, receiver⟩ (heap.renders levels enclosing receiver)) :
    heap.Written (levels + 1) ⟨way, .ref handle⟩
      (heap.renders (levels + 1) enclosing (.ref handle)) := by
  rw [renders_of_method held]
  cases bound : data.receiver with
  | none =>
    refine .of_next (.unbound held bound) fun next enters => ?_
    obtain ⟨receiver, also, _⟩ := enters.of_method held
    cases bound.symm.trans also
  | some receiver =>
    have inside := written receiver bound
    show heap.Written _ _ (heap.renders levels enclosing receiver >>= _)
    cases rendered : heap.renders levels enclosing receiver with
    | error error =>
      rw [rendered] at inside
      exact inside.of_error (.receiver held bound)
    | ok text =>
      rw [rendered] at inside
      refine .of_next (.bound held bound inside.1) fun next enters => ?_
      obtain ⟨other, also, rfl⟩ := enters.of_method held
      cases bound.symm.trans also
      exact ⟨text, inside⟩

theorem Written.of_layout {layout : Layout} (laid : heap.layout? handle = some layout)
    (agree : handle ∈ enclosing ↔ handle ∈ way)
    (written : handle ∉ way → ∀ item ∈ layout.items, heap.Written levels ⟨handle :: way, item⟩
      (heap.renders levels (handle :: enclosing) item)) :
    heap.Written (levels + 1) ⟨way, .ref handle⟩
      (heap.renders (levels + 1) enclosing (.ref handle)) := by
  rw [renders_of_layout laid]
  by_cases inside : handle ∈ way
  · rw [if_pos (agree.mpr inside)]
    exact .of_next (.again laid inside) fun next enters => absurd inside (enters.of_layout laid).1
  · rw [if_neg (mt agree.mp inside)]
    rcases Form.allTexts_cases (heap.renders levels (handle :: enclosing)) layout.items with
      ⟨texts, all, paired, each, shown⟩ | ⟨item, member, error, refused, all⟩
    · rw [all]
      refine .of_next (.whole laid inside paired fun place item text found also => ?_)
        fun next enters => ?_
      · have part := written inside item (List.mem_of_getElem? found)
        rw [shown place item text found also] at part
        exact part.1
      · obtain ⟨_, item, member, rfl⟩ := enters.of_layout laid
        obtain ⟨text, rendered⟩ := each item member
        exact ⟨text, rendered ▸ written inside item member⟩
    · rw [all]
      have part := written inside item member
      rw [refused] at part
      exact part.of_error (.item laid inside member)

/-- Rendering comes to the text, as long as the sequences that it keeps are those on the way. -/
theorem Balanced.written_renders {outside : Multiset Handle} (balanced : heap.Balanced outside)
    (live : ∀ handle ∈ value.owns, heap.isLive handle)
    (agree : ∀ handle layout, heap.layout? handle = some layout → (handle ∈ enclosing ↔ handle ∈ way)) :
    heap.Written levels ⟨way, value⟩ (heap.renders levels enclosing value) := by
  induction levels generalizing enclosing way value with
  | zero => exact ⟨rfl, _, .refl, rfl⟩
  | succ levels inductionHypothesis =>
    rcases value_cases live with ⟨text, told⟩ | ⟨handle, data, rfl, held⟩ | ⟨handle, layout, rfl, laid⟩
    · rw [renders_of_simple told]
      exact .of_next (.simple told) fun next enters => absurd enters (not_enters_of_simple told)
    · refine .of_method held fun receiver bound => ?_
      refine inductionHypothesis (balanced.isLive_part (part_receiver held bound)) fun other layout laid => ?_
      -- The method is on the way, but it is no sequence.
      have different : other ≠ handle := fun same => by
        rw [same, layout?_of_method held] at laid
        cases laid
      rw [agree other layout laid, List.mem_cons, or_iff_right different]
    · refine .of_layout laid (agree handle layout laid) fun outside item member => ?_
      have enters : heap.Enters ⟨way, .ref handle⟩ ⟨handle :: way, item⟩ := .item laid outside member
      refine inductionHypothesis (balanced.isLive_part enters.hasPart) fun other layout laid => ?_
      rw [List.mem_cons, List.mem_cons, agree other layout laid]

theorem Written.ok_iff {outcome : Except Error String} (written : heap.Written levels spot outcome) :
    outcome = .ok text ↔ heap.Depicts spot.way spot.value text ∧
      ∀ place, heap.Visits spot place → place.way.length < spot.way.length + levels := by
  constructor
  · rintro rfl
    exact written
  · rintro ⟨depicts, bounded⟩
    cases outcome with
    | ok other => rw [written.1.unique depicts]
    | error error =>
      obtain ⟨_, place, visits, deep⟩ := written
      exact absurd (bounded place visits) deep.not_lt

theorem Written.error_iff {outcome : Except Error String} {error : Error}
    (written : heap.Written levels spot outcome) :
    outcome = .error error ↔ error = Refusal.tooDeep.error ∧
      ∃ place, heap.Visits spot place ∧ spot.way.length + levels ≤ place.way.length := by
  constructor
  · rintro rfl
    obtain ⟨same, place, visits, deep⟩ := written
    exact ⟨same, place, visits, deep.ge⟩
  · rintro ⟨rfl, place, visits, deep⟩
    cases outcome with
    | ok other => exact absurd deep (Nat.not_le_of_lt (written.2 place visits))
    | error error => rw [written.1]

end Heap

namespace Engine

variable {outside : Multiset Handle} {limbo : List Handle}

/-- To render a value that no class has a say in comes to an end. It comes to the text of the value, in
which a list or a tuple is cut short inside itself and nowhere else, just in case no place that belongs
to the text is deeper than 200. Otherwise it fails with an error that says so. -/
theorem rendering_is_cut_inside_itself (engine : Engine Code Host) {world : World Code Host}
    (sound : world.heap.Sound outside limbo)
    (settled : world.heap.releasing = false → world.heap.pending = []) (enough : 0 < engine.rounds)
    {value : Value} (plain : world.heap.Plain ["__repr__"] value) :
    ∃ outcome, (engine.render value).Tells world outcome ∧
      (∀ text, outcome = .ok text ↔ world.heap.Depicts [] value text ∧
        ∀ place, world.heap.Visits ⟨[], value⟩ place → place.way.length ≤ 200) ∧
      (∀ error, outcome = .error error ↔ error = Refusal.tooDeep.error ∧
        ∃ place, world.heap.Visits ⟨[], value⟩ place ∧ 200 < place.way.length) ∧
      Refusal.tooDeep.error.kind? = some .recursionError ∧
      ∀ text other, world.heap.Depicts [] value text → world.heap.Depicts [] value other →
        text = other := by
  have written : world.heap.Written (maxDataDepth + 1) ⟨[], value⟩
      (world.heap.renders (maxDataDepth + 1) [] value) :=
    sound.balanced.written_renders plain.live fun _ _ _ => Iff.rfl
  refine ⟨_, (engine.render_looks sound enough (by decide) plain).tells (sound.shows settled),
    fun text => ?_, fun error => ?_, rfl, fun text other depicts again => depicts.unique again⟩
  · simpa only [List.length_nil, zero_add, maxDataDepth, Nat.lt_succ_iff] using written.ok_iff
  · simpa only [List.length_nil, zero_add, maxDataDepth, Nat.succ_le_iff] using written.error_iff

/-- The text of a list that contains itself, a method of itself, and the same tuple twice. -/
theorem rendering_of_list_in_itself : ∃ world : World Unit (Recorded Unit Unit),
    Reached (fun _ => 0) idleBodies Config.standard ({0} + {1}) world ∧
    ((bodiesEngine idleBodies 4).render (.ref 1)).Tells world
      (.ok "[[...], <bound method ?.f of [...]>, (1,), (1,)]") ∧
    world.heap.Depicts [] (.ref 1) "[[...], <bound method ?.f of [...]>, (1,), (1,)]" := by
  obtain ⟨world, reached, seen⟩ : ∃ world : World Unit (Recorded Unit Unit),
      Reached (fun _ => 0) idleBodies Config.standard ({0} + {1}) world ∧
      (world.heap.isSilent ["__repr__"],
        ((bodiesEngine idleBodies 4).render (.ref 1)).answer? world) =
        (true, some "[[...], <bound method ?.f of [...]>, (1,), (1,)]") :=
    Reached.exists_follow [.newFunction "f" none none (), .newList [], .share (.ref 1),
      .append (.ref 1) (.ref 1), .newMethod (.ref 0) (.ref 1) .nil, .append (.ref 1) (.ref 2),
      .newTuple [.int 1], .share (.ref 3), .append (.ref 1) (.ref 3), .append (.ref 1) (.ref 3)]
      4 () _ _ rfl (by decide +kernel)
  obtain ⟨silent, same⟩ := Prod.mk.inj seen
  have holds := reached.holds respectful_idleBodies
  have plain : world.heap.Plain ["__repr__"] (.ref 1) :=
    reached.plain respectful_idleBodies silent (by decide)
  obtain ⟨outcome, told, written, _⟩ := (bodiesEngine idleBodies 4).rendering_is_cut_inside_itself
    holds.sound (fun _ => holds.settled rfl) (by decide) plain
  cases told.eq_of_answer? same
  exact ⟨world, reached, told, ((written _).mp rfl).1⟩

end Engine

end ObjectHeap
