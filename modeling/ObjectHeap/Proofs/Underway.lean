/-
This file sets up what holds in the course of a deep copy, in a heap without callbacks, and after it,
whether it comes to an answer or not. What is copied remains as it was. Entries that came to be since
contain nothing but what came to be since, apart from what is shared. A transcript tells what became
of the memo: what was recorded is recorded still, and what is recorded in addition is finished, that
is, it has the shell of its original and as many contents, unless it is still to be filled.
-/

import ObjectHeap.Proofs.Calm
import ObjectHeap.Proofs.Copies
import ObjectHeap.Proofs.Correspondence

namespace ObjectHeap

variable {Code Host α β : Type}

/-! ### What classes find -/

namespace Heap

variable {before after : Heap Code} {frame outside : Multiset Handle} {handle type : Handle}
  {data : Class} {key : String}

/-- The ancestors of a class are sustained along with it. -/
theorem Sustained.of_ancestor (sustained : before.Sustained frame type) (formed : before.Formed)
    (balanced : before.Balanced outside) (held : before.payload? type = some (.type data))
    {other : Handle} (member : other ∈ data.ancestors) : before.Sustained frame other := by
  have leads := (formed.mem_ancestors_iff balanced held).mp member
  clear member
  induction leads with
  | single derives =>
    obtain ⟨_, same, member⟩ := derives
    exact sustained.of_owned same (List.mem_append_left _ member)
  | tail _ derives inductionHypothesis =>
    obtain ⟨_, same, member⟩ := derives
    exact inductionHypothesis.of_owned same (List.mem_append_left _ member)

/-- What sustained classes store is sustained. -/
theorem sustained_of_findAlong {types : List Handle} (sustained : ∀ type ∈ types, before.Sustained frame type)
    (found : before.findAlong key types = .ok (some (.ref handle))) : before.Sustained frame handle := by
  induction types with
  | nil => cases found
  | cons type rest inductionHypothesis =>
    have later := inductionHypothesis fun other member => sustained other (List.mem_cons_of_mem _ member)
    obtain ⟨payload, read, found⟩ := Heap.bind_eq_ok.mp found
    cases payload with
    | type data =>
      dsimp only at found
      split at found
      · rename_i stored there
        cases found
        refine (sustained type List.mem_cons_self).of_owned (before.read_eq_ok.mp read)
          (List.mem_append_right _ (List.mem_filterMap.mpr ⟨_, Attributes.mem_values there, rfl⟩))
      · exact later found
    | _ => exact later found

section

variable (remains : ∀ handle, before.Sustained frame handle → before.Remains after handle)

include remains

theorem findAlong_of_remains {types : List Handle}
    (sustained : ∀ type ∈ types, before.Sustained frame type) :
    after.findAlong key types = before.findAlong key types := by
  induction types with
  | nil => rfl
  | cons type rest inductionHypothesis =>
    have later := inductionHypothesis fun other member => sustained other (List.mem_cons_of_mem _ member)
    obtain ⟨_, payload, other, held, reached, alike⟩ := remains type (sustained type List.mem_cons_self)
    unfold findAlong
    rw [before.read_eq_ok.mpr held, after.read_eq_ok.mpr reached]
    cases payload <;> cases other <;> simp only [Payload.Alike, reduceCtorEq] at alike
    case type.type => cases alike; simp only [bind, Except.bind, later]
    all_goals exact later

/-- A class that remains with all that it refers to finds the same function under a name. -/
theorem findFunction_of_remains (formed : before.Formed) (balanced : before.Balanced outside)
    (sustained : before.Sustained frame type) :
    after.findFunction type key = before.findFunction type key := by
  obtain ⟨_, payload, other, held, reached, alike⟩ := remains type sustained
  cases payload <;> cases other <;> simp only [Payload.Alike, reduceCtorEq] at alike
  case type.type data _ =>
    cases alike
    have chain : ∀ other ∈ type :: data.ancestors, before.Sustained frame other := by
      rintro other (_ | ⟨_, member⟩)
      · exact sustained
      · exact sustained.of_ancestor formed balanced held member
    simp only [findFunction, find, before.read_eq_ok.mpr held, after.read_eq_ok.mpr reached, bind,
      Except.bind, findAlong_of_remains remains chain]
    cases found : before.findAlong key (type :: data.ancestors) with
    | error fault => rfl
    | ok stored =>
      rcases stored with _ | ⟨_ | _ | _ | function⟩ <;> try rfl
      obtain ⟨_, one, two, here, there, alike⟩ := remains function (sustained_of_findAlong chain found)
      simp only [before.read_eq_ok.mpr here, after.read_eq_ok.mpr there]
      cases one <;> cases two <;> first | rfl | simp only [Payload.Alike, reduceCtorEq] at alike
  all_goals
    simp only [findFunction, find, before.read_eq_ok.mpr held, after.read_eq_ok.mpr reached]
    rfl

/-- The class of what remains with all that it refers to finds the same function under a special
name. -/
theorem special?_of_remains (formed : before.Formed) (balanced : before.Balanced outside)
    (sustained : before.Sustained frame handle) :
    after.special? (.ref handle) key = before.special? (.ref handle) key := by
  obtain ⟨_, payload, other, held, reached, alike⟩ := remains handle sustained
  cases payload <;> cases other <;> simp only [Payload.Alike, reduceCtorEq] at alike
  case object.object data later =>
    have same : later.type = data.type := by rw [← alike]
    have inside : before.Sustained frame data.type := sustained.of_owned held List.mem_cons_self
    simp only [special?, instanceType?, readValue, before.read_eq_ok.mpr held,
      after.read_eq_ok.mpr reached, bind, Except.bind, pure, Except.pure, same,
      findFunction_of_remains remains formed balanced inside]
  all_goals
    simp only [special?, instanceType?, readValue, before.read_eq_ok.mpr held,
      after.read_eq_ok.mpr reached]
    rfl

end

end Heap

/-! ### Copies and their originals -/

/-- What is owned is recorded for something. -/
theorem Memo.exists_find? {memo : Memo} {target : Handle} (member : target ∈ memo.owns) :
    ∃ original, memo.find? original = some (.ref target) := by
  obtain ⟨⟨original, _⟩, inside, rfl⟩ := List.mem_map.mp (mem_owned.mp member)
  obtain ⟨earlier, later, split⟩ := List.append_of_mem inside
  refine ⟨original, List.lookup_eq_some_iff.mpr ⟨earlier, later, split, fun other member => ?_⟩⟩
  have distinct := memo.distinct
  rw [split, List.map_append, List.map_cons] at distinct
  refine bne_iff_ne.mpr fun same => ?_
  exact (List.disjoint_of_nodup_append distinct) (List.mem_map_of_mem member) (same ▸ List.mem_cons_self)

/-- Where a deep copy begins: the heap, the value at the top of all that is copied, the copies that
are recorded already, and the slots in limbo. -/
structure Outset (Code : Type) where
  heap : Heap Code
  top : Value
  old : Multiset Handle
  limbo : List Handle

namespace Heap

/-- An entry has the shell of a container of the source, and as many contents. -/
def Finished (source : Heap Code) (original : Handle) (heap : Heap Code) (place : Handle) : Prop :=
  ∃ payload later, source.payload? original = some payload ∧ payload.shell.isSome ∧
    heap.payload? place = some later ∧ later.shell = payload.shell ∧
    later.contents.length = payload.contents.length

/-- An entry is of the kind of a container of the source, but has fewer contents. -/
def HalfMade (source : Heap Code) (original : Handle) (heap : Heap Code) (place : Handle) : Prop :=
  ∃ payload later, source.payload? original = some payload ∧ heap.payload? place = some later ∧
    later.kind = payload.kind ∧ later.contents.length < payload.contents.length

variable {source before after : Heap Code} {original place : Handle}

/-- A copy that remains is as finished as it was. -/
theorem Finished.remains (finished : source.Finished original before place)
    (remains : before.Remains after place) : source.Finished original after place := by
  obtain ⟨payload, one, found, copied, held, shell, contents⟩ := finished
  obtain ⟨_, _, two, same, reached, alike⟩ := remains
  cases held.symm.trans same
  exact ⟨payload, two, found, copied, reached, alike.shell.trans shell, by rw [alike.contents, contents]⟩

theorem HalfMade.remains (half : source.HalfMade original before place)
    (remains : before.Remains after place) : source.HalfMade original after place := by
  obtain ⟨payload, one, found, held, kind, contents⟩ := half
  obtain ⟨_, _, two, same, reached, alike⟩ := remains
  cases held.symm.trans same
  exact ⟨payload, two, found, reached, alike.continues.kind.trans kind, by rwa [alike.contents]⟩

end Heap

namespace Outset

variable (outset : Outset Code)

/-- An entry that came to be since the outset, or that is not copied but shared, or that was
recorded before. -/
def Apart (heap : Heap Code) (handle : Handle) : Prop :=
  outset.heap.births handle < heap.births handle ∨ handle ∈ outset.old ∨
    outset.heap.Sustained outset.top.owns handle ∧
      ∃ payload, outset.heap.payload? handle = some payload ∧ payload.shell = none

/-- In the course of a copy, what is copied remains, and all that came to be since and all that is
recorded is apart from it. References that are `mine` are owned beside those of the memo and those
that others hold. -/
structure Underway (rest mine : Multiset Handle) (memo : Memo) (heap : Heap Code) : Prop where
  based : outset.top.owns ⊆ rest
  calm : heap.Calm (rest + mine + memo.owns) outset.limbo
  older : ∀ handle, outset.heap.births handle ≤ heap.births handle
  remains : ∀ handle, outset.heap.Sustained outset.top.owns handle →
    outset.heap.Remains heap handle
  closed : ∀ handle payload, heap.payload? handle = some payload →
    outset.heap.births handle < heap.births handle →
    ∀ target ∈ owned payload.contents, outset.Apart heap target
  recorded : ∀ target ∈ memo.owns, outset.Apart heap target

/-- Between two moments of a copy the memo has lost nothing, and what it has gained was made of what
it is recorded for, and is finished, unless that is one of the `unfinished`. -/
structure Transcript (rest : Multiset Handle) (memo : Memo) (before : Heap Code)
    (unfinished : Set Handle) (mine : Multiset Handle) (later : Memo) (after : Heap Code) : Prop extends
    outset.Underway rest mine later after where
  weathers : before.Weathers (rest + memo.owns) after
  kept : ∀ original copy, memo.find? original = some copy → later.find? original = some copy
  made : ∀ original copy, later.find? original = some copy → memo.find? original = some copy ∨
    ∃ place, copy = .ref place ∧ before.births place < after.births place ∧
      (original ∉ unfinished → outset.heap.Finished original after place)

variable {outset : Outset Code} {rest mine more pre less frame : Multiset Handle} {memo later : Memo}
  {heap before after : Heap Code} {unfinished others : Set Handle} {handle place original : Handle}

/-- What is apart stays apart. -/
theorem Apart.older (apart : outset.Apart before handle)
    (older : before.births handle ≤ after.births handle) : outset.Apart after handle :=
  apart.imp_left fun born => born.trans_le older

/-! ### Steps -/

namespace Underway

theorem congr (underway : outset.Underway rest mine memo heap) (same : mine = more) :
    outset.Underway rest more memo heap := same ▸ underway

/-- What is owned on the way may be counted as what others hold. -/
theorem framed (underway : outset.Underway rest (mine + more) memo heap) :
    outset.Underway (rest + mine) more memo heap :=
  { underway with
    based := fun _ member => Multiset.mem_add.mpr (Or.inl (underway.based member))
    calm := underway.calm.congr (by abel) }

theorem unframed (underway : outset.Underway (rest + mine) more memo heap)
    (based : outset.top.owns ⊆ rest) : outset.Underway rest (mine + more) memo heap :=
  { underway with
    based := based
    calm := underway.calm.congr (by abel) }

/-- What others hold is there. -/
theorem isLive (underway : outset.Underway rest mine memo heap)
    (sustained : heap.Sustained (rest + mine + memo.owns) handle) : heap.isLive handle :=
  underway.calm.sound.balanced.isLive_of_sustained sustained

/-- What the top sustains is sustained still. -/
theorem sustained (underway : outset.Underway rest mine memo heap)
    (sustained : outset.heap.Sustained outset.top.owns handle) : heap.Sustained rest handle :=
  (sustained.of_remains underway.remains).mono underway.based

/-- What others hold remains in the next step. -/
theorem remains_of_weathers (underway : outset.Underway rest mine memo before)
    (weathers : before.Weathers frame after) (sub : frame ⊆ rest + mine + memo.owns)
    (sustained : before.Sustained frame handle) : before.Remains after handle :=
  weathers.remains underway.calm.silent sustained (underway.isLive (sustained.mono sub))

/-- A step leads from one moment to another one if what others hold weathers at most, and what it puts
into containers that came to be is apart. -/
theorem step (underway : outset.Underway rest mine memo before)
    (calm : after.Calm (rest + more + later.owns) outset.limbo) (weathers : before.Weathers rest after)
    (closed : ∀ handle payload, after.payload? handle = some payload →
      outset.heap.births handle < after.births handle →
      ∀ target ∈ owned payload.contents, outset.Apart after target)
    (recorded : ∀ target ∈ later.owns, outset.Apart after target) :
    outset.Underway rest more later after where
  based := underway.based
  calm := calm
  older handle := (underway.older handle).trans (weathers.older handle)
  remains handle sustained := (underway.remains handle sustained).trans
    (underway.remains_of_weathers weathers (fun _ member => by simp [member]) (underway.sustained sustained))
  closed := closed
  recorded := recorded

/-- An action that is no part of the copy leaves what others hold as it was, but for what is gone. -/
theorem act {action : Action Code Host α} {mid : α → Multiset Handle} {answer : α}
    {world last : World Code Host} (underway : outset.Underway rest pre memo world.heap)
    (wanes : action.Wanes pre mid) (ended : action world = .ok (answer, last)) :
    outset.Underway rest (mid answer) memo last.heap ∧
      world.heap.Weathers (rest + memo.owns) last.heap := by
  obtain ⟨calm, waned⟩ := wanes (rest + memo.owns) outset.limbo world answer last
    (underway.calm.congr (by abel)) ended
  have weathers := waned.weathers underway.calm.silent calm.sound.balanced
    (Multiset.subset_of_le (Multiset.le_add_right (rest + memo.owns) (mid answer)))
  have births (handle : Handle) : last.heap.births handle = world.heap.births handle :=
    waned.births handle
  refine ⟨underway.step (calm.congr (by abel))
    (weathers.mono (Multiset.subset_of_le (Multiset.le_add_right _ _))) ?_
    fun target member => (underway.recorded target member).older (births target).ge, weathers⟩
  intro handle payload held born target member
  obtain ⟨earlier, there, alike⟩ := waned.exists_payload? underway.calm.silent held
  rw [births] at born
  rw [alike.contents] at member
  exact (underway.closed handle earlier there born target member).older (births target).ge

/-- A payload that is made of what is owned and apart is placed in an empty slot. -/
theorem admits {payload : Payload Code} (underway : outset.Underway rest payload.owns memo before)
    (admits : before.Admits payload place after) (founded : payload.Founded before)
    (unwatched : payload.watchers = []) (aimless : payload.target? = none)
    (quiet : Heap.callbackOf payload = none)
    (apart : ∀ target ∈ owned payload.contents, outset.Apart before target) :
    outset.Underway rest {place} memo after ∧ before.Weathers (rest + memo.owns) after := by
  have weathers : before.Weathers (rest + memo.owns) after := .of_admits admits
    underway.calm.sound.balanced fun target member => by
      rw [add_right_comm]
      exact Multiset.mem_add.mpr (Or.inl member)
  have calm : before.Calm (rest + memo.owns + payload.owns) outset.limbo :=
    underway.calm.congr (add_right_comm _ _ _)
  refine ⟨underway.step ((calm.admits admits founded unwatched aimless quiet).congr
    (add_right_comm _ _ _)) (weathers.mono (Multiset.subset_of_le (Multiset.le_add_right _ _)))
    (fun handle found held born target member => ?_)
    fun target member => (underway.recorded target member).older (weathers.older target), weathers⟩
  by_cases here : handle = place
  · subst here
    cases admits.payload?_here.symm.trans held
    exact (apart target member).older (weathers.older target)
  · rw [admits.steady handle here] at born
    rw [admits.payload?_others here] at held
    exact (underway.closed handle found held born target member).older (weathers.older target)

/-- A payload that nobody else sustains takes over what is owned and apart. -/
theorem exchange {payload grown : Payload Code} (underway : outset.Underway rest (mine + pre) memo heap)
    (unreached : ¬ heap.Sustained rest place) (held : heap.payload? place = some payload)
    (grows : payload.Grows grown) (taken : grown.owns = payload.owns + pre)
    (apart : ∀ target ∈ owned grown.contents, outset.Apart heap target) :
    outset.Underway rest mine memo (heap.mapPayload place fun _ => grown) := by
  have births (handle : Handle) : (heap.mapPayload place fun _ => grown).births handle = heap.births handle :=
    Heap.births_mapPayload _ _ handle _
  have calm : heap.Calm (rest + memo.owns + (mine + pre)) outset.limbo :=
    underway.calm.congr (add_right_comm _ _ _)
  refine underway.step ((calm.exchange held grows (?_ : grown.owns + mine = _)).congr (add_right_comm _ _ _))
    (.of_mapPayload unreached) (fun handle found here born target member => ?_)
    fun target member => (underway.recorded target member).older (births target).ge
  · rw [taken]
    abel
  · rw [births] at born
    rw [Heap.payload?_grown held] at here
    split at here
    · cases here
      exact (apart target member).older (births target).ge
    · exact (underway.closed handle found here born target member).older (births target).ge

/-- A copy that is owned and apart is recorded. -/
theorem insert {copy : Value} (underway : outset.Underway rest (mine + copy.owns) memo heap)
    (apart : ∀ target ∈ copy.owns, outset.Apart heap target) (original : Handle) :
    outset.Underway rest (mine + owned (memo.find? original).toList) (memo.insert original copy) heap := by
  have paid := memo.owns_insert original copy
  refine underway.step (underway.calm.congr ?_) (.refl _ _) underway.closed fun target member => ?_
  · calc rest + (mine + copy.owns) + memo.owns
        = rest + mine + (memo.owns + copy.owns) := by abel
      _ = rest + (mine + owned (memo.find? original).toList) + (memo.insert original copy).owns := by
        rw [← paid]
        abel
  · have inside : target ∈ memo.owns + copy.owns := paid ▸ Multiset.mem_add.mpr (Or.inl member)
    rcases Multiset.mem_add.mp inside with there | here
    · exact underway.recorded target there
    · exact apart target here

end Underway

/-! ### Transcripts -/

/-- An action that is no part of the copy leaves the memo alone. -/
theorem Underway.transcribe {action : Action Code Host α} {mid : α → Multiset Handle} {answer : α}
    {world last : World Code Host} (underway : outset.Underway rest pre memo world.heap)
    (wanes : action.Wanes pre mid) (ended : action world = .ok (answer, last)) :
    outset.Transcript rest memo world.heap ∅ (mid answer) memo last.heap := by
  obtain ⟨done, weathers⟩ := underway.act wanes ended
  exact { done with
    weathers := weathers
    kept := fun _ _ found => found
    made := fun _ _ found => Or.inl found }

namespace Transcript

/-- At first nothing is recorded in addition. -/
theorem start (underway : outset.Underway rest mine memo heap) :
    outset.Transcript rest memo heap ∅ mine memo heap :=
  { underway with
    weathers := .refl _ heap
    kept := fun _ _ found => found
    made := fun _ _ found => Or.inl found }

theorem congr (transcript : outset.Transcript rest memo before unfinished mine later after)
    (same : mine = more) : outset.Transcript rest memo before unfinished more later after := same ▸ transcript

theorem mono (transcript : outset.Transcript rest memo before unfinished mine later after)
    (sub : unfinished ⊆ others) : outset.Transcript rest memo before others mine later after :=
  { transcript with
    made := fun original copy found => (transcript.made original copy found).imp_right
      fun ⟨place, same, born, finished⟩ =>
        ⟨place, same, born, fun closed => finished fun opened => closed (sub opened)⟩ }

theorem unframed (transcript : outset.Transcript (rest + mine) memo before unfinished more later after)
    (based : outset.top.owns ⊆ rest) :
    outset.Transcript rest memo before unfinished (mine + more) later after :=
  { transcript with
    toUnderway := transcript.toUnderway.unframed based
    weathers := transcript.weathers.mono fun _ member => by
      rw [add_right_comm]
      exact Multiset.mem_add.mpr (Or.inl member) }

/-- What the memo owns it owns still. -/
theorem owns_subset (transcript : outset.Transcript rest memo before unfinished mine later after) :
    memo.owns ⊆ later.owns := by
  intro target member
  obtain ⟨original, found⟩ := Memo.exists_find? member
  exact Memo.owns_subset_of_find? (transcript.kept original _ found) (Multiset.mem_singleton_self target)

/-- What others or the memo hold at first remains. -/
theorem remains_of_held (transcript : outset.Transcript (rest + pre) memo before unfinished mine later after)
    (first : outset.Underway rest (pre + more) memo before)
    (sustained : before.Sustained (rest + pre + memo.owns) handle) : before.Remains after handle :=
  first.remains_of_weathers transcript.weathers (fun _ member => by
    simp only [Multiset.mem_add] at member ⊢
    tauto) sustained

/-- What happens beside references that are kept continues a transcript. -/
theorem trans {middle : Heap Code} {noted : Memo}
    (first : outset.Transcript rest memo before unfinished (mine + pre) noted middle)
    (second : outset.Transcript (rest + mine) noted middle others more later after) :
    outset.Transcript rest memo before (unfinished ∪ others) (mine + more) later after := by
  have sub : rest + memo.owns ⊆ rest + mine + noted.owns := fun target member => by
    have recorded : target ∈ memo.owns → target ∈ noted.owns := fun inside => first.owns_subset inside
    simp only [Multiset.mem_add] at member ⊢
    tauto
  refine { second.toUnderway.unframed first.based with
    weathers := first.weathers.trans (second.weathers.mono sub)
    kept := fun original copy found => second.kept original copy (first.kept original copy found)
    made := fun original copy found => ?_ }
  rcases second.made original copy found with known | ⟨place, same, born, finished⟩
  · rcases first.made original copy known with known | ⟨place, rfl, born, finished⟩
    · exact Or.inl known
    · have sustained : middle.Sustained (rest + mine + noted.owns) place :=
        .of_mem (Multiset.mem_add.mpr (Or.inr
          (Memo.owns_subset_of_find? known (Multiset.mem_singleton_self place))))
      refine Or.inr ⟨place, rfl, born.trans_le (second.weathers.older place), fun closed => ?_⟩
      exact (finished fun opened => closed (Or.inl opened)).remains
        (second.remains_of_held first.toUnderway sustained)
  · exact Or.inr ⟨place, same, (first.weathers.older place).trans_lt born,
      fun closed => finished fun opened => closed (Or.inr opened)⟩

/-- What happens after all was finished counts from the beginning. -/
theorem since {middle : Heap Code} {noted : Memo}
    (second : outset.Transcript rest noted middle others more later after)
    (first : outset.Transcript rest memo before ∅ mine noted middle) :
    outset.Transcript rest memo before others more later after := by
  have whole := (first.congr (zero_add mine).symm).trans
    (by rw [add_zero]; exact second)
  rwa [Set.empty_union, zero_add] at whole

/-- An action that is no part of the copy continues a transcript. -/
theorem act {action : Action Code Host α} {mid : α → Multiset Handle} {answer : α}
    {world last : World Code Host}
    (transcript : outset.Transcript rest memo before unfinished pre later world.heap)
    (wanes : action.Wanes pre mid) (ended : action world = .ok (answer, last)) :
    outset.Transcript rest memo before unfinished (mid answer) later last.heap := by
  have whole := (transcript.congr (zero_add pre).symm).trans
    (by rw [add_zero]; exact transcript.toUnderway.transcribe wanes ended)
  rwa [Set.union_empty, zero_add] at whole

end Transcript

end Outset

/-! ### Both ends -/

/-- Whenever an attempt comes to an end from here, `good` holds if that is a success, and `bad` holds
if it is an error. -/
def Attempt.Closes (attempt : Attempt Code Host α) (before : World Code Host)
    (good : α → World Code Host → Prop) (bad : World Code Host → Prop) : Prop :=
  ∀ outcome after, attempt.run before = .ok (outcome, after) →
    match outcome with
    | .ok answer => good answer after
    | .error _ => bad after

namespace Attempt.Closes

variable {attempt : Attempt Code Host α} {next : α → Attempt Code Host β} {before : World Code Host}
  {mid good : α → World Code Host → Prop} {last : β → World Code Host → Prop}
  {bad worse : World Code Host → Prop}

theorem refuse {refusal : Refusal} (fair : bad before) :
    (Attempt.refuse refusal : Attempt Code Host α).Closes before good bad := by
  intro outcome after ended
  cases ended
  exact fair

theorem act {action : Action Code Host α}
    (rest : ∀ answer between, action before = .ok (answer, between) →
      (next answer).Closes between last bad) :
    (Attempt.ofAction action >>= next).Closes before last bad := by
  intro outcome after ended
  obtain ⟨answer, between, ran, going⟩ := Attempt.act_bind_eq_ok.mp ended
  exact rest answer between ran outcome after going

theorem ask {question : Heap Code → Except Fault α}
    (rest : ∀ answer, question before.heap = .ok answer → (next answer).Closes before last bad) :
    (ObjectHeap.ask question >>= next).Closes before last bad := by
  intro outcome after ended
  obtain ⟨answer, asked, going⟩ := Attempt.ask_bind_eq_ok.mp ended
  exact rest answer asked outcome after going

theorem of_ok {answer : α} {after : World Code Host} (ended : attempt.run before = .ok (.ok answer, after))
    (granted : good answer after) : attempt.Closes before good bad := by
  intro outcome last done
  cases ended.symm.trans done
  exact granted

theorem imp (closes : attempt.Closes before mid worse)
    (better : ∀ answer after, mid answer after → good answer after)
    (fair : ∀ after, worse after → bad after) : attempt.Closes before good bad := by
  intro outcome after ended
  cases outcome with
  | ok answer => exact better answer after (closes _ _ ended)
  | error error => exact fair after (closes _ _ ended)

end Attempt.Closes

/-- Whenever a copy comes to an end from here, `good` holds if that is a success, and `bad` holds if
it is an error. -/
def Copying.Closes (copying : Copying Code Host α) (memo : Memo) (before : World Code Host)
    (good : α → Memo → World Code Host → Prop) (bad : Memo → World Code Host → Prop) : Prop :=
  ∀ outcome later after, copying.run memo before = .ok ((outcome, later), after) →
    match outcome with
    | .ok answer => good answer later after
    | .error _ => bad later after

namespace Copying.Closes

variable {copying : Copying Code Host α} {next : α → Copying Code Host β} {memo : Memo}
  {before : World Code Host} {mid good : α → Memo → World Code Host → Prop}
  {last : β → Memo → World Code Host → Prop} {bad worse : Memo → World Code Host → Prop}

theorem pure {answer : α} (granted : good answer memo before) :
    (Pure.pure answer : Copying Code Host α).Closes memo before good bad := by
  intro outcome later after ended
  cases ended
  exact granted

theorem bind (mid : α → Memo → World Code Host → Prop) (first : copying.Closes memo before mid bad)
    (rest : ∀ answer noted between, mid answer noted between →
      (next answer).Closes noted between last bad) : (copying >>= next).Closes memo before last bad := by
  intro outcome later after ended
  obtain ⟨⟨found, noted⟩, between, ran, going⟩ := Action.bind_eq_ok.mp ended
  cases found with
  | ok answer => exact rest answer noted between (first _ _ _ ran) outcome later after going
  | error error =>
    cases going
    exact first _ _ _ ran

theorem imp (closes : copying.Closes memo before mid worse)
    (better : ∀ answer later after, mid answer later after → good answer later after)
    (fair : ∀ later after, worse later after → bad later after) : copying.Closes memo before good bad := by
  intro outcome later after ended
  cases outcome with
  | ok answer => exact better answer later after (closes _ _ _ ended)
  | error error => exact fair later after (closes _ _ _ ended)

/-- What fails some way fails any way that follows from it. -/
theorem imp_bad (closes : copying.Closes memo before good worse)
    (fair : ∀ later after, worse later after → bad later after) : copying.Closes memo before good bad :=
  closes.imp (fun _ _ _ => id) fair

/-- What does not fail fails any way. -/
theorem sure (closes : copying.Closes memo before good fun _ _ => False) :
    copying.Closes memo before good bad :=
  closes.imp_bad fun _ _ => False.elim

theorem ofAttempt {attempt : Attempt Code Host α}
    (closes : attempt.Closes before (fun answer => good answer memo) (bad memo)) :
    (Copying.ofAttempt attempt).Closes memo before good bad := by
  intro outcome later after ended
  obtain ⟨found, between, ran, same⟩ := Action.bind_eq_ok.mp ended
  cases same
  exact closes _ _ ran

theorem ofAction {action : Action Code Host α}
    (well : ∀ answer after, action before = .ok (answer, after) → good answer memo after) :
    (Copying.ofAttempt (Attempt.ofAction action)).Closes memo before good bad := by
  refine .ofAttempt fun outcome after ended => ?_
  obtain ⟨answer, between, ran, same⟩ := Action.bind_eq_ok.mp ended
  cases same
  exact well answer after ran

theorem ask {question : Heap Code → Except Fault α}
    (rest : ∀ answer, question before.heap = .ok answer → (next answer).Closes memo before last bad) :
    (ObjectHeap.ask question >>= next).Closes memo before last bad :=
  .bind (fun answer noted after => question before.heap = .ok answer ∧ noted = memo ∧ after = before)
    (.ofAction fun answer after ended => by
      obtain ⟨asked, rfl⟩ := ask_eq_ok.mp ended
      exact ⟨asked, rfl, rfl⟩) fun answer noted between known => by
    obtain ⟨asked, rfl, rfl⟩ := known
    exact rest answer asked

theorem retainValue {value : Value} {good : Unit → Memo → World Code Host → Prop}
    (well : ∀ after, (ObjectHeap.retainValue value : Action Code Host Unit) before = .ok ((), after) →
      good () memo after) :
    (ObjectHeap.retainValue value : Copying Code Host Unit).Closes memo before good bad := by
  have same : (ObjectHeap.retainValue value : Copying Code Host Unit) =
      Copying.ofAttempt (Attempt.ofAction (ObjectHeap.retainValue value)) := by cases value <;> rfl
  rw [same]
  exact .ofAction fun _ after ended => well after ended

theorem memo_bind {next : Memo → Copying Code Host β} (rest : (next memo).Closes memo before last bad) :
    (Copying.memo >>= next).Closes memo before last bad := rest

/-- What is ensured happens after a success and after an error. -/
theorem ensuring {action : Action Code Host Unit} (closes : copying.Closes memo before mid worse)
    (well : ∀ answer later between after, mid answer later between → action between = .ok ((), after) →
      good answer later after)
    (badly : ∀ later between after, worse later between → action between = .ok ((), after) →
      bad later after) : (copying.ensuring action).Closes memo before good bad := by
  intro outcome later after ended
  obtain ⟨⟨found, noted⟩, between, ran, going⟩ := Action.bind_eq_ok.mp ended
  obtain ⟨_, middle, acted, same⟩ := Action.bind_eq_ok.mp going
  cases same
  cases outcome with
  | ok answer => exact well answer later between after (closes _ _ _ ran) acted
  | error error => exact badly later between after (closes _ _ _ ran) acted

theorem onError {action : Action Code Host Unit} (worse : Memo → World Code Host → Prop)
    (closes : copying.Closes memo before good worse)
    (badly : ∀ later between after, worse later between → action between = .ok ((), after) →
      bad later after) : (copying.onError action).Closes memo before good bad := by
  intro outcome later after ended
  obtain ⟨⟨found, noted⟩, between, ran, going⟩ := Action.bind_eq_ok.mp ended
  cases found with
  | ok answer =>
    cases going
    exact closes _ _ _ ran
  | error error =>
    obtain ⟨_, middle, acted, same⟩ := Action.bind_eq_ok.mp going
    cases same
    exact badly _ between after (closes _ _ _ ran) acted

end Copying.Closes

end ObjectHeap
