/-
This file follows a deep copy through all its levels, as long as no code of the host runs. Every
container that the copy makes mirrors what it was made of, and is recorded, unless it is a method
that leads back to itself: such a method is recorded only after its receiver was copied, and is
copied once more on the way. Hence the copy leads back to the value by a renaming under which only
copies of such methods can fall together.
-/

import ObjectHeap.Proofs.Drafts

namespace ObjectHeap

variable {Code Host : Type}

/-! ### No code of the host -/

/-- An engine whose code of the host never comes back. -/
def Engine.silenced (engine : Engine Code Host) : Engine Code Host :=
  { engine with
    run := fun _ _ => stop .exhausted
    callBack := fun _ _ => stop .exhausted }

theorem Engine.keeps_silenced (engine : Engine Code Host) :
    engine.silenced.Keeps Engine.blankLedger where
  run _ _ _ _ _ _ _ ended := nomatch ended
  callBack _ _ _ _ _ _ _ ended := nomatch ended
  calm _ _ _ _ _ _ ended := nomatch ended
  calls _ _ _ _ _ _ := trivial
  hollows _ _ _ _ _ _ := trivial

/-- A function comes to no answer when no code of the host comes back. -/
theorem Engine.silenced_call (engine : Engine Code Host) {world after : World Code Host}
    {function : Handle} {data : Function Code} {arguments : Arguments} {answer : Value}
    (found : world.heap.payload? function = some (.function data)) :
    (engine.silenced.call (.ref function) arguments).run world ≠ .ok (.ok answer, after) := by
  intro called
  obtain ⟨_, ran, _⟩ := Engine.call_function_eq_ok found called
  cases ran

/-! ### Storing in a copy -/

theorem Payload.Alike.list {Code : Type} {items : List Value} {later : Payload Code}
    (alike : (Payload.list items).Alike later) : later = .list items := by
  cases later <;> simp only [Payload.Alike, reduceCtorEq] at alike
  exact alike

theorem Payload.Alike.object {Code : Type} {data : Instance} {later : Payload Code}
    (alike : (Payload.object data).Alike later) :
    ∃ other : Instance, later = .object other ∧ other.type = data.type ∧
      other.attributes = data.attributes := by
  cases later <;> simp only [Payload.Alike] at alike
  case object other => exact ⟨other, rfl, by rw [← alike], by rw [← alike]⟩

/-- An item is appended to a list. -/
theorem Engine.append_list (engine : Engine Code Host) {world : World Code Host} {place : Handle}
    {items : List Value} (item : Value)
    (found : world.heap.payload? place = some (.list items)) :
    (engine.append (.ref place) item).run world = .ok (.ok (), { world with
      heap := world.heap.mapPayload place fun _ => .list (items ++ [item]) }) := by
  refine Attempt.ask_bind_eq_ok.mpr ⟨Payload.list items, ?_, rfl⟩
  rw [found]

theorem Attributes.find?_of_not_mem {attributes : Attributes} {name : String}
    (absent : name ∉ attributes.entries.map Prod.fst) : attributes.find? name = none := by
  unfold Attributes.find?
  rw [List.lookup_eq_none_iff]
  intro entry member
  refine bne_iff_ne.mpr ?_
  rintro rfl
  exact absent (List.mem_map.mpr ⟨entry, member, rfl⟩)

/-- An attribute that was not there is stored in an instance. -/
theorem Engine.setAttribute_object (engine : Engine Code Host) {world : World Code Host}
    {place : Handle} {data : Instance} {name : String} (content : Value)
    (found : world.heap.payload? place = some (.object data))
    (absent : name ∉ data.attributes.entries.map Prod.fst) :
    (engine.setAttribute (.ref place) name content).run world = .ok (.ok (), { world with
      heap := world.heap.mapPayload place fun _ =>
        .object { data with attributes := data.attributes.insert name content } }) := by
  refine Attempt.ask_bind_eq_ok.mpr ⟨.object data, ?_, Attempt.bind_eq_ok.mpr ⟨(), _, rfl, ?_⟩⟩
  · rw [found]
  · rw [Attributes.find?_of_not_mem absent]
    rfl

/-- An instance takes over what is stored in it. -/
theorem Payload.owns_insert_of_not_mem {Code : Type} {data : Instance} {name : String}
    (content : Value) (absent : name ∉ data.attributes.entries.map Prod.fst) :
    (Payload.object { data with attributes := data.attributes.insert name content } :
      Payload Code).owns = (Payload.object data : Payload Code).owns + content.owns := by
  rw [Payload.owns_object, Payload.owns_object, Attributes.values, Attributes.values,
    Attributes.entries_insert_of_not_mem content absent]
  simp

/-- The attributes of an instance are taken as they are. -/
theorem Copying.retainAttributes_eq_ok {before after : World Code Host} {memo later : Memo}
    {handle : Handle} {data : Instance} {entries : List (String × Value)}
    (found : before.heap.payload? handle = some (.object data))
    (ended : (retainAttributes handle : Copying Code Host _).run memo before =
      .ok ((.ok entries, later), after)) :
    entries = data.attributes.entries ∧ later = memo ∧
      (retainAll data.attributes.values : Action Code Host Unit) before = .ok ((), after) := by
  obtain ⟨payload, read, rest⟩ := ask_bind_eq_ok ended
  cases (before.heap.read_eq_ok.mpr found).symm.trans read
  obtain ⟨_, _, _, taken, last⟩ := bind_eq_ok rest
  cases last
  obtain ⟨retained, rfl⟩ := ofAction_eq_ok taken
  exact ⟨rfl, rfl, retained⟩

/-- An instance as it is created. -/
def newborn (type : Handle) : Payload Code :=
  .object { type, attributes := Attributes.empty, watchers := [] }

/-- An instance whose class has it copied by a function is not copied when no code of the host comes
back. -/
theorem Engine.silenced_copyInstance (engine : Engine Code Host)
    {copy : Value → Copying Code Host Value} {before after : World Code Host} {memo later : Memo}
    {value copied : Value} {handle type function : Handle}
    (special : before.heap.special? value "__deepcopy__" = .ok (some function)) :
    (engine.silenced.copyInstance copy value handle type).run memo before ≠
      .ok ((.ok copied, later), after) := by
  intro ended
  obtain ⟨code, held⟩ := Heap.special?_eq_some special
  obtain ⟨_, asked, going⟩ := Copying.ask_bind_eq_ok ended
  cases special.symm.trans asked
  obtain ⟨_, _, one, first, calling⟩ := Copying.bind_eq_ok going
  obtain ⟨taken, rfl⟩ := Copying.ofAction_eq_ok first
  obtain ⟨_, _, two, second, last⟩ := Copying.bind_eq_ok calling
  obtain ⟨taken', rfl⟩ := Copying.retainValue_eq_ok second
  obtain ⟨_, _, _, called, _⟩ := Copying.bind_eq_ok last
  obtain ⟨called, _⟩ := Copying.ofAttempt_eq_ok called
  obtain ⟨_, called, _⟩ := Attempt.ensuring_eq_ok.mp called
  have still : two.heap.payload? function = some (.function code) := by
    rw [payload?_of_retainValue taken', payload?_of_retain taken]
    exact held
  exact engine.silenced_call still called

/-! ### What copies come to -/

variable {source : Heap Code} {top : Value} {way : List Handle} {mine : Multiset Handle}
  {scene : Scene}
  {unfinished : Set Handle} {before : Sketch Code Host} {world : World Code Host} {memo : Memo}
  {value copied : Value}

/-- A copy of a value was made. -/
def Reproduced (source : Heap Code) (top : Value) (way : List Handle) (scene : Scene)
    (unfinished : Set Handle) (before : Sketch Code Host) (value copied : Value) (memo : Memo)
    (world : World Code Host) : Prop :=
  ∃ made, Stage source top way scene unfinished copied.owns ⟨world, memo, made⟩ ∧
    Twins source made value copied ∧
    Progress scene.frame {original | source.ReachesPast (source.fillsOf way) value original} before
      ⟨world, memo, made⟩

/-- What is not recorded is no list and no instance on the way. -/
theorem Stage.free {handle : Handle} (stage : Stage source top way scene unfinished mine before)
    (fresh : before.memo.find? handle = none) : handle ∉ source.fillsOf way :=
  fun member => stage.draft.passed handle member fresh

/-- What the contents of an entry reach past what is on the way, the entry reaches. -/
theorem Heap.reachesPast_of_contents {handle : Handle} {payload : Payload Code}
    (found : source.payload? handle = some payload) (free : handle ∉ source.fillsOf way) :
    {original | ∃ item ∈ payload.contents,
      source.ReachesPast (source.fillsOf (handle :: way)) item original} ⊆
    {original | source.ReachesPast (source.fillsOf way) (.ref handle) original} := by
  rintro _ ⟨item, member, reached⟩
  exact reached.of_contents (fillsOf_subset_cons handle way) found member free

variable {values : List Value} {first second third : Sketch Code Host}

/-- Copying the first of some values is a part of copying all of them. -/
theorem Progress.head (progress : Progress (scene.frame + mine)
      {original | source.ReachesPast (source.fillsOf way) value original} first second)
    (values : List Value) :
    Progress scene.frame {original | ∃ other ∈ value :: values,
      source.ReachesPast (source.fillsOf way) other original} first second :=
  progress.mono (Multiset.subset_of_le (Multiset.le_add_right _ _)) fun _ reached =>
    ⟨value, List.mem_cons_self, reached⟩

/-- Copying those after the first goes on from there. -/
theorem Progress.tail
    (early : Progress scene.frame {original | ∃ other ∈ value :: values,
      source.ReachesPast (source.fillsOf way) other original} first second)
    (late : Progress scene.frame {original | ∃ other ∈ values,
      source.ReachesPast (source.fillsOf way) other original} second third) :
    Progress scene.frame {original | ∃ other ∈ value :: values,
      source.ReachesPast (source.fillsOf way) other original} first third := by
  refine early.trans (late.mono (fun _ member => member) ?_)
  rintro _ ⟨other, member, reached⟩
  exact ⟨other, List.mem_cons_of_mem value member, reached⟩

/-- A step that records nothing. -/
theorem Progress.calmly {region : Set Handle} (early : Progress scene.frame region first second)
    (late : Progress scene.frame ∅ second third) : Progress scene.frame region first third :=
  early.trans (late.mono (fun _ member => member) (Set.empty_subset _))

/-- What was just recorded is found. -/
theorem Copying.memorized {engine : Engine Code Host} {original : Handle} {noted : Memo}
    {created : World Code Host} (recorded : (engine.memorize original copied).run noted created =
      .ok ((.ok (), memo), world)) : memo.find? original ≠ none := by
  obtain ⟨_, _, _, retained, going⟩ := bind_eq_ok recorded
  obtain ⟨_, rfl⟩ := retainValue_eq_ok retained
  obtain ⟨_, _, _, set, released⟩ := bind_eq_ok (memo_bind_eq_ok going)
  cases set
  obtain ⟨_, rfl⟩ := ofAction_eq_ok released
  rw [Memo.find?_insert, if_pos rfl]
  exact Option.some_ne_none _

/-- Whatever succeeds in copying a value that some way leads to makes a copy of it. -/
def Reproduces (source : Heap Code) (top : Value) (copy : Value → Copying Code Host Value) :
    Prop :=
  ∀ way scene unfinished before value copied memo world,
    Stage source top way scene unfinished 0 before → value.owns ⊆ scene.frame →
    (∀ handle, value = .ref handle → source.Way top (handle :: way)) →
    (copy value).run before.memo before.world = .ok ((.ok copied, memo), world) →
    Reproduced source top way scene unfinished before value copied memo world

/-- Nothing in reach of a copy that was just made refers to the copy. -/
def Unreferred (scene : Scene) (copied : Value) (memo : Memo) (world : World Code Host) : Prop :=
  ∀ place, copied = .ref place → ∀ handle,
    world.heap.Sustained (scene.frame + copied.owns + memo.owns) handle →
      ¬ world.heap.Refers handle place

section

variable {engine : Engine Code Host} (keeps : engine.Keeps Engine.blankLedger) {handle : Handle}
  {payload mirrored : Payload Code} {created : World Code Host}

include keeps

/-- An entry that is made of copies, and recorded, is a copy. As it is made last, nothing refers to
it. -/
theorem Stage.complete (stage : Stage source top way scene unfinished (0 + mirrored.owns) before)
    (allocates : Engine.Allocates Engine.blankLedger (scene.framing (0 + before.memo.owns))
      before.world mirrored (.ok copied) created)
    (aimless : mirrored.target? = none) (unwatched : mirrored.watchers = [])
    (recorded : (engine.memorize handle copied).run before.memo created =
      .ok ((.ok (), memo), world))
    (within : source.Sustained top.owns handle) (found : source.payload? handle = some payload)
    (shell : mirrored.shell = payload.shell) (container : payload.shell.isSome)
    (twins : List.Forall₂ (Twins source before.made) payload.contents mirrored.contents)
    (fresh : before.memo.find? handle = none ∨ source.Exposed top handle) :
    Reproduced source top way scene unfinished before (.ref handle) copied memo world ∧
      Unreferred scene copied memo world := by
  obtain ⟨place, later, rfl, staged, progress, placed, alike, apart, _, unreferred⟩ :=
    stage.enlist keeps allocates aimless unwatched recorded within fresh
  have mirrors : Mirrors source (Function.update before.made place (some handle)) payload
      mirrored := by
    refine ⟨shell, container, twins_congr twins fun other member => Function.update_of_ne ?_ _ _⟩
    rintro rfl
    exact apart (mirrored.owned_contents_subset member)
  refine ⟨⟨_, (staged.finish (Function.update_self _ _ _) found placed
    (mirrors.alike alike)).congr (zero_add _), .copied (Function.update_self _ _ _),
    progress.mono (Multiset.subset_of_le (Multiset.le_add_right _ _))
      (Set.singleton_subset_iff.mpr (.root _ handle))⟩, ?_⟩
  rw [zero_add] at unreferred
  intro _ same handle sustained
  cases same
  exact unreferred handle sustained

/-- The copy of an instance is made without attributes, and recorded. -/
theorem Stage.begin {type : Handle} (stage : Stage source top way scene unfinished 0 before)
    (held : before.world.heap.Sustained scene.frame type)
    (made : (engine.newInstance (.ref type)).run before.world = .ok (.ok value, created))
    (recorded : (engine.memorize handle value).run before.memo created =
      .ok ((.ok (), memo), world))
    (within : source.Sustained top.owns handle) (fresh : before.memo.find? handle = none) :
    ∃ place born, value = .ref place ∧
      Stage source top way scene (insert place unfinished) {place}
        ⟨world, memo, Function.update before.made place (some handle)⟩ ∧
      Progress scene.frame {handle} before
        ⟨world, memo, Function.update before.made place (some handle)⟩ ∧
      world.heap.payload? place = some (.object born) ∧ born.type = type ∧
      born.attributes = Attributes.empty ∧ ¬ world.heap.Sustained scene.frame place := by
  obtain ⟨found, known, made⟩ := Attempt.ask_bind_eq_ok.mp made
  cases found with
  | none =>
    obtain ⟨_, _, refused⟩ := Attempt.ask_bind_eq_ok.mp made
    cases refused
  | some type =>
    cases (Heap.type?_eq_some known).1
    obtain ⟨_, _, retained, allocated⟩ := Attempt.act_bind_eq_ok.mp made
    obtain ⟨opening, early⟩ := stage.gain (Action.Keeps.retain _) retained fun other member => by
      rw [Multiset.mem_singleton.mp member]
      exact held.mono fun _ member => by simp [member]
    have opened : Stage source top way scene unfinished
        (0 + (newborn type : Payload Code).owns) _ := opening
    obtain ⟨place, _, rfl, staged, late, placed, alike, _, unreached, _⟩ :=
      opened.enlist keeps (keeps.allocates (Payload.founded_of_isPlain rfl) rfl rfl opened.holding
        allocated) rfl rfl recorded within (Or.inl fresh)
    obtain ⟨born, rfl, same, empty⟩ := alike.object
    rw [add_zero] at unreached
    exact ⟨place, born, rfl, staged.congr (zero_add _),
      (early.mono (fun other member => by simp [member]) (Set.empty_subset _)).trans
        (late.mono (fun other member => by simp [member]) subset_rfl), placed, same, empty, unreached⟩

end

namespace Reproduces

variable {engine : Engine Code Host} {copy : Value → Copying Code Host Value}

/-- What is copied is held until then. -/
theorem held (copies : Reproduces source top copy) (keeps : engine.Keeps Engine.blankLedger)
    {item : Value} (stage : Stage source top way scene unfinished (mine + item.owns) before)
    (comes : ∀ handle, item = .ref handle → source.Way top (handle :: way))
    (ended : ((copy item).ensuring (engine.release item)).run before.memo before.world =
      .ok ((.ok copied, memo), world)) :
    ∃ made, Stage source top way scene unfinished (mine + copied.owns) ⟨world, memo, made⟩ ∧
      Twins source made item copied ∧
      Progress (scene.frame + mine)
        {original | source.ReachesPast (source.fillsOf way) item original} before
        ⟨world, memo, made⟩ := by
  obtain ⟨between, ran, released⟩ := Copying.ensuring_eq_ok ended
  obtain ⟨made, done, twins, progress⟩ := copies _ _ _ _ _ _ _ _
    (stage.congr (add_zero _).symm).framed (fun _ member => Multiset.mem_add.mpr
      (Or.inr (Multiset.mem_add.mpr (Or.inr member)))) comes ran
  have owning : Stage source top way scene unfinished (mine + copied.owns + item.owns)
      ⟨between, memo, made⟩ := (done.unframed stage.based).congr (by abel)
  obtain ⟨last, later⟩ := owning.spend (keeps.release item) released
  refine ⟨made, last, twins, (progress.mono ?_ subset_rfl).trans
    (later.mono ?_ (Set.empty_subset _))⟩
  · rw [Scene.framing, ← add_assoc]
    exact Multiset.subset_of_le (Multiset.le_add_right _ _)
  · rw [← add_assoc]
    exact Multiset.subset_of_le ((Multiset.le_add_right _ _).trans (Multiset.le_add_right _ _))

/-- The items that are left are copied into a list that is new. -/
theorem into (copies : Reproduces source top copy) (keeps : engine.Keeps Engine.blankLedger)
    {place original : Handle} {items done sources : List Value}
    (stage : Stage source top way scene unfinished ({place} + owned items) before)
    (opened : place ∈ unfinished) (known : before.made place = some original)
    (unreached : ¬ before.world.heap.Sustained scene.frame place)
    (placed : before.world.heap.payload? place = some (.list done))
    (twins : List.Forall₂ (Twins source before.made) sources done)
    (comes : ∀ handle, .ref handle ∈ items → source.Way top (handle :: way))
    (ended : (engine.copyInto copy (.ref place) items).run before.memo before.world =
      .ok ((.ok (), memo), world)) :
    ∃ made copied, Stage source top way scene unfinished {place} ⟨world, memo, made⟩ ∧
      made place = some original ∧ world.heap.payload? place = some (.list copied) ∧
      List.Forall₂ (Twins source made) (sources ++ items) copied ∧
      Progress scene.frame
        {original | ∃ item ∈ items, source.ReachesPast (source.fillsOf way) item original} before
        ⟨world, memo, made⟩ := by
  induction items generalizing before done sources with
  | nil =>
    cases ended
    refine ⟨before.made, done, stage.congr (add_zero _), known, placed, ?_,
      ⟨stage.holds.carries_refl, fun _ _ => rfl, fun _ _ => rfl⟩⟩
    rwa [List.append_nil]
  | cons item items inductionHypothesis =>
    rw [owned_cons] at stage
    obtain ⟨_, _, _, first, rest⟩ := Copying.bind_eq_ok ended
    obtain ⟨copied, _, _, ran, stored⟩ := Copying.bind_eq_ok (Copying.onError_eq_ok first)
    obtain ⟨appended, rfl⟩ := Copying.ofAttempt_eq_ok stored
    obtain ⟨made, held, twin, progress⟩ := copies.held keeps (stage.congr (by abel) :
      Stage source top way scene unfinished ({place} + owned items + item.owns) before)
      (fun handle same => comes handle (same ▸ List.mem_cons_self)) ran
    have here : place ∈ scene.frame + ({place} + owned items) := by simp
    obtain ⟨later, found, alike⟩ := progress.alike here placed
    cases alike.list
    have same : made place = some original := (progress.same place (.of_mem here)).trans known
    have early := progress.head items
    have taken : (Payload.list (done ++ [copied]) : Payload Code).owns =
        (Payload.list done : Payload Code).owns + copied.owns := by simp
    -- The new list was reached by nobody else, so it is as it was when the item was copied.
    cases (engine.append_list copied found).symm.trans appended
    obtain ⟨extended, changed, filled⟩ := held.extend (.list (done ++ [copied])) opened
      same (by simp) (early.not_sustained unreached) found (.list done copied) taken rfl
    have longer : List.Forall₂ (Twins source made) (sources ++ [item]) (done ++ [copied]) :=
      List.rel_append (progress.twins here placed (fun _ member => member) twins)
        (.cons twin .nil)
    obtain ⟨last, copies, finished, kept, final, twins, late⟩ := inductionHypothesis extended same
      (changed.not_sustained (early.not_sustained unreached)) filled longer
      (fun handle member => comes handle (List.mem_cons_of_mem item member)) rest
    rw [List.append_assoc] at twins
    exact ⟨last, copies, finished, kept, final, twins, (early.calmly changed).tail late⟩

theorem list (copies : Reproduces source top copy) (keeps : engine.Keeps Engine.blankLedger)
    {handle : Handle} {items : List Value} {payload : Payload Code}
    (stage : Stage source top way scene unfinished (owned items) before)
    (comes : source.Way top (handle :: way)) (found : source.payload? handle = some payload)
    (shell : payload.shell = some .list) (contents : payload.contents = items)
    (fresh : before.memo.find? handle = none)
    (ended : (engine.copyList copy handle items).run before.memo before.world =
      .ok ((.ok copied, memo), world)) :
    Reproduced source top way scene unfinished before (.ref handle) copied memo world := by
  obtain ⟨value, _, created, first, rest⟩ := Copying.bind_eq_ok ended
  obtain ⟨allocated, rfl⟩ := Copying.ofAttempt_eq_ok (Copying.onError_eq_ok first)
  obtain ⟨_, _, _, recorded, rest⟩ := Copying.bind_eq_ok rest
  have opening := stage.congr (add_zero _).symm
  obtain ⟨place, later, rfl, staged, early, placed, alike, _, unreached, _⟩ :=
    opening.enlist keeps (keeps.allocates (Payload.founded_of_isPlain rfl) rfl rfl opening.holding
        allocated) rfl rfl recorded comes.reaches.sustained (Or.inl fresh)
  cases alike.list
  obtain ⟨_, _, _, filled, last⟩ := Copying.bind_eq_ok rest
  cases last
  have sub : scene.frame ⊆ scene.frame + owned items :=
    Multiset.subset_of_le (Multiset.le_add_right _ _)
  obtain ⟨made, copied, done, known, final, twins, late⟩ := copies.into keeps
    ((staged.congr (add_comm _ _)).enter fun _ _ _ _ _ => Copying.memorized recorded)
    (Set.mem_insert place unfinished) (Function.update_self _ _ _)
    (fun sustained => unreached (sustained.mono sub)) placed .nil
    (fun _ member => comes.step ⟨payload, found, contents ▸ member⟩) filled
  refine ⟨made, done.leave.finish known found final ⟨shell.symm, by rw [shell]; rfl, ?_⟩,
    .copied known, (early.mono sub ?_).trans (late.mono (fun _ member => member) ?_)⟩
  · rw [contents]
    exact twins
  · exact Set.singleton_subset_iff.mpr (.root _ handle)
  · rw [← contents]
    exact Heap.reachesPast_of_contents found (stage.free fresh)

/-- The items that are left are copied, while those that were copied before are held. -/
theorem items (copies : Reproduces source top copy) (keeps : engine.Keeps Engine.blankLedger)
    {items done sources answer : List Value}
    (stage : Stage source top way scene unfinished (owned done + owned items) before)
    (twins : List.Forall₂ (Twins source before.made) sources done)
    (comes : ∀ handle, .ref handle ∈ items → source.Way top (handle :: way))
    (ended : (engine.copyItems copy done items).run before.memo before.world =
      .ok ((.ok answer, memo), world)) :
    ∃ made, Stage source top way scene unfinished (owned answer) ⟨world, memo, made⟩ ∧
      List.Forall₂ (Twins source made) (sources ++ items) answer ∧
      Progress scene.frame
        {original | ∃ item ∈ items, source.ReachesPast (source.fillsOf way) item original} before
        ⟨world, memo, made⟩ := by
  induction items generalizing before done sources with
  | nil =>
    cases ended
    refine ⟨before.made, stage.congr (add_zero _), ?_,
      ⟨stage.holds.carries_refl, fun _ _ => rfl, fun _ _ => rfl⟩⟩
    rwa [List.append_nil]
  | cons item items inductionHypothesis =>
    rw [owned_cons] at stage
    obtain ⟨copied, _, _, ran, rest⟩ := Copying.bind_eq_ok ended
    obtain ⟨made, held, twin, progress⟩ := copies.held keeps (stage.congr (by abel) :
      Stage source top way scene unfinished (owned done + owned items + item.owns) before)
      (fun handle same => comes handle (same ▸ List.mem_cons_self)) (Copying.onError_eq_ok ran)
    have longer : List.Forall₂ (Twins source made) (sources ++ [item]) (done ++ [copied]) := by
      refine List.rel_append (twins_congr twins fun handle member => ?_) (.cons twin .nil)
      exact progress.same handle (.of_mem (Multiset.mem_add.mpr (Or.inr
        (Multiset.mem_add.mpr (Or.inl member)))))
    obtain ⟨last, finished, twins, late⟩ := inductionHypothesis
      (held.congr (by rw [owned_append, owned_cons, owned_nil]; abel)) longer
      (fun handle member => comes handle (List.mem_cons_of_mem item member)) rest
    rw [List.append_assoc] at twins
    exact ⟨last, finished, twins, (progress.head items).tail late⟩

theorem tuple (copies : Reproduces source top copy) (keeps : engine.Keeps Engine.blankLedger)
    {handle : Handle} {items : List Value} {payload : Payload Code}
    (stage : Stage source top way scene unfinished (owned items) before)
    (comes : source.Way top (handle :: way)) (found : source.payload? handle = some payload)
    (shell : payload.shell = some .tuple) (contents : payload.contents = items)
    (fresh : before.memo.find? handle = none)
    (ended : (engine.copyTuple copy handle items).run before.memo before.world =
      .ok ((.ok copied, memo), world)) :
    Reproduced source top way scene unfinished before (.ref handle) copied memo world := by
  obtain ⟨done, noted, between, first, rest⟩ := Copying.bind_eq_ok ended
  have opening : Stage source top (handle :: way) scene unfinished (owned [] + owned items)
      before := (stage.congr (zero_add _).symm).enter fun _ _ same kept fills => by
    cases found.symm.trans same
    cases shell.symm.trans kept
    cases fills
  obtain ⟨made, entered, twins, early⟩ := copies.items keeps opening .nil
    (fun _ member => comes.step ⟨payload, found, contents ▸ member⟩) first
  have owning := entered.leave
  have inside := Heap.reachesPast_of_contents found (stage.free fresh)
  rw [contents] at inside
  obtain ⟨recorded, _, held, looked, rest⟩ := Copying.bind_eq_ok rest
  obtain ⟨rfl, same, retained⟩ := Copying.recorded?_eq_ok looked
  rw [same] at rest
  -- The items may have led back to the tuple; then it is their copy that is answered.
  cases known : noted.find? handle with
  | some existing =>
    rw [known] at rest retained
    obtain ⟨place, rfl, copy⟩ := owning.draft.found handle existing known
    obtain ⟨gained, middle⟩ := owning.gain (Action.Keeps.retainAll _) retained
      fun other member => .of_mem (Multiset.mem_add.mpr (Or.inr (by
        have here : other = place := by simpa using member
        rw [here]
        exact Draft.mem_of_find? known)))
    obtain ⟨_, _, _, released, last⟩ := Copying.bind_eq_ok rest
    cases last
    obtain ⟨gone, rfl⟩ := Copying.ofAction_eq_ok released
    obtain ⟨finished, late⟩ := (gained.congr (add_comm _ _)).spend (keeps.releaseList done) gone
    refine ⟨made, finished.congr (by simp), .copied copy, (early.mono (fun _ member => member)
      inside).trans ((middle.mono ?_ (Set.empty_subset _)).trans
        (late.mono ?_ (Set.empty_subset _)))⟩
    · rw [add_assoc]
      exact Multiset.subset_of_le (Multiset.le_add_right _ _)
    · rw [add_assoc]
      exact Multiset.subset_of_le (Multiset.le_add_right _ _)
  | none =>
    rw [known] at rest retained
    cases retained
    obtain ⟨value, _, created, first, going⟩ := Copying.bind_eq_ok rest
    obtain ⟨allocated, rfl⟩ := Copying.ofAttempt_eq_ok first
    obtain ⟨_, _, _, recorded, last⟩ := Copying.bind_eq_ok going
    cases last
    have opening : Stage source top way scene unfinished (0 + (Payload.tuple done : Payload Code).owns)
        ⟨between, _, made⟩ := owning.congr (zero_add _).symm
    obtain ⟨last, finished, copy, late⟩ := (opening.complete keeps
      (keeps.allocates (Payload.founded_of_isPlain rfl) rfl rfl opening.holding allocated) rfl rfl
      recorded comes.reaches.sustained found shell.symm (by rw [shell]; rfl) (contents ▸ twins)
      (Or.inl known)).1
    exact ⟨last, finished, copy, (early.mono (fun _ member => member) inside).trans late⟩

/-- The attributes that are left are copied to an instance that is new. -/
theorem attributes (copies : Reproduces source top copy) (keeps : engine.Keeps Engine.blankLedger)
    {place original : Handle} {entries sources : List (String × Value)} {data : Instance}
    (stage : Stage source top way scene unfinished ({place} + owned (entries.map Prod.snd)) before)
    (opened : place ∈ unfinished) (known : before.made place = some original)
    (unreached : ¬ before.world.heap.Sustained scene.frame place)
    (placed : before.world.heap.payload? place = some (.object data))
    (names : data.attributes.entries.map Prod.fst = sources.map Prod.fst)
    (distinct : ((sources ++ entries).map Prod.fst).Nodup)
    (twins : List.Forall₂ (Twins source before.made) (sources.map Prod.snd) data.attributes.values)
    (comes : ∀ handle, .ref handle ∈ entries.map Prod.snd → source.Way top (handle :: way))
    (ended : (engine.copyAttributes copy (.ref place) entries).run before.memo before.world =
      .ok ((.ok (), memo), world)) :
    ∃ made later, Stage source top way scene unfinished {place} ⟨world, memo, made⟩ ∧
      made place = some original ∧ world.heap.payload? place = some (.object later) ∧
      later.type = data.type ∧
      later.attributes.entries.map Prod.fst = (sources ++ entries).map Prod.fst ∧
      List.Forall₂ (Twins source made) ((sources ++ entries).map Prod.snd)
        later.attributes.values ∧
      Progress scene.frame {original | ∃ value ∈ entries.map Prod.snd,
        source.ReachesPast (source.fillsOf way) value original} before ⟨world, memo, made⟩ := by
  -- The names that the copy has so far are those of the sources, so the next one is new to it.
  induction entries generalizing before sources data with
  | nil =>
    cases ended
    rw [List.append_nil]
    exact ⟨before.made, data, stage.congr (add_zero _), known, placed, rfl, names, twins,
      ⟨stage.holds.carries_refl, fun _ _ => rfl, fun _ _ => rfl⟩⟩
  | cons entry entries inductionHypothesis =>
    obtain ⟨name, value⟩ := entry
    rw [List.map_cons, owned_cons] at stage
    obtain ⟨_, _, _, first, rest⟩ := Copying.bind_eq_ok ended
    obtain ⟨copied, _, _, ran, stored⟩ := Copying.bind_eq_ok (Copying.onError_eq_ok first)
    obtain ⟨assigned, rfl⟩ := Copying.ofAttempt_eq_ok stored
    obtain ⟨made, held, twin, progress⟩ := copies.held keeps (stage.congr (by abel) :
      Stage source top way scene unfinished
        ({place} + owned (entries.map Prod.snd) + value.owns) before)
      (fun handle same => comes handle (same ▸ List.mem_cons_self)) ran
    have here : place ∈ scene.frame + ({place} + owned (entries.map Prod.snd)) := by simp
    obtain ⟨_, found, alike⟩ := progress.alike here placed
    obtain ⟨other, rfl, type, same⟩ := alike.object
    have still : made place = some original := (progress.same place (.of_mem here)).trans known
    have early := progress.head (entries.map Prod.snd)
    have absent : name ∉ other.attributes.entries.map Prod.fst := by
      rw [same, names]
      rw [List.map_append, List.map_cons] at distinct
      exact fun member => (List.disjoint_of_nodup_append distinct) member List.mem_cons_self
    have stores := Attributes.entries_insert_of_not_mem copied absent
    have longerNames : (other.attributes.insert name copied).entries.map Prod.fst =
        (sources ++ [(name, value)]).map Prod.fst := by
      rw [stores, same, List.map_append, names, List.map_append]
      rfl
    have longer : List.Forall₂ (Twins source made) ((sources ++ [(name, value)]).map Prod.snd)
        (other.attributes.insert name copied).values := by
      have still := progress.twins here placed (fun _ member => by
        rw [Payload.owns_object]
        exact Multiset.mem_add.mpr (Or.inr member)) twins
      rw [Attributes.values, stores, List.map_append, List.map_append, same]
      exact List.rel_append still (.cons twin .nil)
    cases (engine.setAttribute_object copied found absent).symm.trans assigned
    obtain ⟨extended, changed, filled⟩ := held.extend
      (.object { other with attributes := other.attributes.insert name copied }) opened still
      (by simp) (early.not_sustained unreached) found (.object other name copied)
      (Payload.owns_insert_of_not_mem copied absent) rfl
    obtain ⟨last, later, finished, kept, final, types, stored, twins, late⟩ :=
      inductionHypothesis extended still
        (changed.not_sustained (early.not_sustained unreached)) filled longerNames
        (by rwa [List.append_assoc]) longer
        (fun handle member => comes handle (List.mem_cons_of_mem value member)) rest
    rw [List.append_assoc] at stored twins
    exact ⟨last, later, finished, kept, final, types.trans type, stored, twins,
      (early.calmly changed).tail late⟩

theorem object (copies : Reproduces source top copy) {handle : Handle} {data : Instance}
    {payload : Payload Code} (stage : Stage source top way scene unfinished 0 before)
    (here : handle ∈ scene.frame) (comes : source.Way top (handle :: way))
    (found : source.payload? handle = some payload)
    (placed : before.world.heap.payload? handle = some (.object data))
    (alike : payload.Alike (.object data)) (fresh : before.memo.find? handle = none)
    (ended : (engine.silenced.copyInstance copy (.ref handle) handle data.type).run before.memo
      before.world = .ok ((.ok copied, memo), world)) :
    Reproduced source top way scene unfinished before (.ref handle) copied memo world := by
  have keeps := engine.keeps_silenced
  obtain ⟨special, asked, rest⟩ := Copying.ask_bind_eq_ok ended
  -- No code of the host runs, so a copy that comes to an end was not made by the class.
  cases special with
  | some function => exact absurd ended (engine.silenced_copyInstance asked)
  | none =>
    have refers : before.world.heap.Sustained scene.frame data.type :=
      (Heap.Sustained.of_mem here).of_owned placed List.mem_cons_self
    obtain ⟨value, _, created, first, going⟩ := Copying.bind_eq_ok rest
    obtain ⟨made, rfl⟩ := Copying.ofAttempt_eq_ok first
    obtain ⟨_, _, _, recorded, filling⟩ := Copying.bind_eq_ok going
    obtain ⟨place, new, rfl, staged, start, filled, newType, empty, unreached⟩ :=
      stage.begin keeps refers made recorded comes.reaches.sustained fresh
    obtain ⟨_, there, alike'⟩ := start.alike here placed
    obtain ⟨same, rfl, _, attributes⟩ := alike'.object
    obtain ⟨entries, _, _, looked, storing⟩ := Copying.bind_eq_ok filling
    obtain ⟨rfl, rfl, taken⟩ := Copying.retainAttributes_eq_ok there looked
    obtain ⟨_, _, _, stored, last⟩ := Copying.bind_eq_ok storing
    cases last
    obtain ⟨gained, later⟩ := staged.gain (Action.Keeps.retainAll _) taken
      fun other member => Heap.Sustained.of_contents (.of_mem (by simp [here])) there member
    obtain ⟨_, filled, still⟩ := later.alike (by simp) filled
    obtain ⟨new', rfl, newType', empty'⟩ := still.object
    have contents : payload.contents = same.attributes.values := by
      rw [← alike.contents, attributes]
      rfl
    have bare : new'.attributes.entries.map Prod.fst =
        ([] : List (String × Value)).map Prod.fst := by
      rw [empty', empty]
      rfl
    have nothing : List.Forall₂ (Twins source (Function.update before.made place (some handle)))
        (([] : List (String × Value)).map Prod.snd) new'.attributes.values := by
      rw [empty', empty]
      exact .nil
    have held : Progress scene.frame ∅ _ _ :=
      later.mono (fun other member => by simp [member]) subset_rfl
    obtain ⟨made, final, done, known, finished, type, names, twins, late⟩ :=
      copies.attributes keeps (gained.enter fun _ _ _ _ _ => Copying.memorized recorded)
        (Set.mem_insert _ _) (Function.update_self _ _ _) (held.not_sustained unreached) filled bare
        same.attributes.distinct nothing
        (fun _ member => comes.step ⟨payload, found, contents ▸ member⟩) stored
    refine ⟨made, done.leave.finish known found finished ⟨?_, ?_, ?_⟩, .copied known,
      ((start.mono (fun _ member => member) (Set.singleton_subset_iff.mpr (.root _ handle))).calmly
        held).trans (late.mono (fun _ member => member) ?_)⟩
    · rw [← alike.shell, Payload.shell, Payload.shell, type, newType', newType, names,
        List.nil_append, attributes]
    · rw [← alike.shell]
      rfl
    · rw [contents]
      exact twins
    · have inside := Heap.reachesPast_of_contents found (stage.free fresh)
      rwa [contents] at inside

end Reproduces

/-- A method that is made of what was copied, and recorded, is a copy of the method. It is made
last, so that nothing refers to it. -/
theorem Stage.method {engine : Engine Code Host} (keeps : engine.Keeps Engine.blankLedger)
    {handle function : Handle} {receiver owner : Option Value} {payload : Payload Code}
    {created : World Code Host}
    (stage : Stage source top way scene unfinished (owned receiver.toList + owned owner.toList) before)
    (held : before.world.heap.Sustained scene.frame function) {data : Function Code}
    (wraps : before.world.heap.payload? function = some (.function data))
    (grounded : Method.Grounded { function, receiver, owner, watchers := [] })
    (within : source.Sustained top.owns handle) (found : source.payload? handle = some payload)
    (shell : payload.shell = some (.method function owner))
    (twins : List.Forall₂ (Twins source before.made) payload.contents receiver.toList)
    (fresh : before.memo.find? handle = none ∨ source.Exposed top handle)
    (allocated : (engine.allocateMethod function receiver owner).run before.world =
      .ok (.ok copied, created))
    (recorded : (engine.memorize handle copied).run before.memo created =
      .ok ((.ok (), memo), world)) :
    Reproduced source top way scene unfinished before (.ref handle) copied memo world ∧
      Unreferred scene copied memo world := by
  have opening := stage.congr (zero_add _).symm
  obtain ⟨taken, allocates, retained, _⟩ := keeps.allocatesMethod wraps grounded
    (fun _ => Or.inl trivial) opening.holding allocated
  let made : Method := { function, receiver, owner, watchers := [] }
  obtain ⟨gained, early⟩ := stage.gain (Action.Keeps.retain function) retained
    fun other member => by
      rw [Multiset.mem_singleton.mp member]
      refine held.mono ?_
      rw [add_assoc]
      exact Multiset.subset_of_le (Multiset.le_add_right _ _)
  have owns : owned receiver.toList + owned owner.toList + {function} =
      0 + (Payload.method made : Payload Code).owns := by
    rw [Payload.owns_method, Method.parts, owned_append, zero_add]
    exact add_comm _ _
  obtain ⟨⟨last, finished, copy, late⟩, unreferred⟩ := (gained.congr owns).complete keeps allocates
    rfl rfl recorded within found shell.symm (by rw [shell]; rfl) twins fresh
  refine ⟨⟨last, finished, copy, (early.mono ?_ (Set.empty_subset _)).trans late⟩, unreferred⟩
  rw [add_assoc]
  exact Multiset.subset_of_le (Multiset.le_add_right _ _)

/-- If copying the receiver of a method has recorded the method, then the receiver leads back to it. -/
theorem Progress.fresh_or_exposed {handle function : Handle} {owner : Option Value}
    {payload : Payload Code} {receiver : Value} {frame : Multiset Handle}
    {first second : Sketch Code Host}
    (progress : Progress frame {original |
      source.ReachesPast (source.fillsOf (handle :: way)) receiver original} first second)
    (fresh : first.memo.find? handle = none) (comes : source.Way top (handle :: way))
    (found : source.payload? handle = some payload)
    (shell : payload.shell = some (.method function owner)) (inside : receiver ∈ payload.contents) :
    second.memo.find? handle = none ∨ source.Exposed top handle := by
  by_cases reached : source.ReachesPast (source.fillsOf (handle :: way)) receiver handle
  · cases payload with
    | method other =>
      exact Or.inr ⟨other, found, way, comes, receiver, Option.mem_toList.mp inside, reached⟩
    | _ => cases shell
  · exact Or.inl ((progress.memo handle reached).trans fresh)

/-- A method is copied with its receiver. By the time it is recorded, the receiver may have led
back to it. -/
theorem Reproduces.method {engine : Engine Code Host} {copy : Value → Copying Code Host Value}
    (copies : Reproduces source top copy) (keeps : engine.Keeps Engine.blankLedger)
    {handle : Handle} {data : Method} {payload : Payload Code} {noted : Memo}
    {created : World Code Host} (stage : Stage source top way scene unfinished 0 before)
    (here : handle ∈ scene.frame) (comes : source.Way top (handle :: way))
    (found : source.payload? handle = some payload)
    (placed : before.world.heap.payload? handle = some (.method data))
    (alike : payload.Alike (.method data)) (fresh : before.memo.find? handle = none)
    (ended : (engine.copyMethod copy handle).run before.memo before.world =
      .ok ((.ok copied, noted), created))
    (recorded : (engine.memorize handle copied).run noted created =
      .ok ((.ok (), memo), world)) :
    Reproduced source top way scene unfinished before (.ref handle) copied memo world ∧
      Unreferred scene copied memo world := by
  have shell : payload.shell = some (.method data.function data.owner) := alike.shell.symm
  have contents : payload.contents = data.receiver.toList := alike.contents.symm
  have refers (other : Handle) (member : other ∈ (Payload.method data : Payload Code).owns) :
      before.world.heap.Sustained scene.frame other :=
    (Heap.Sustained.of_mem here).of_owned placed member
  have grounded := stage.holds.sound.formed.grounded handle data placed
  obtain ⟨_, asked, rest⟩ := Copying.ask_bind_eq_ok ended
  cases placed.symm.trans (Heap.method_eq_ok.mp asked)
  obtain ⟨_, _, _, retained, going⟩ := Copying.bind_eq_ok rest
  obtain ⟨taken, rfl⟩ := Copying.ofAction_eq_ok retained
  obtain ⟨gained, early⟩ := stage.gain (Action.Keeps.retainAll data.parts) taken
    fun part member => by
      refine (refers part ?_).mono fun _ member => by simp [member]
      rw [Payload.owns_method]
      exact Multiset.mem_add.mpr (Or.inr member)
  have first : Progress scene.frame
      {original | source.ReachesPast (source.fillsOf way) (.ref handle) original} before _ :=
    early.mono (fun other member => by simp [member]) (Set.empty_subset _)
  have function : before.world.heap.Sustained scene.frame data.function :=
    refers data.function (by simp)
  rw [Method.parts, owned_append] at gained
  -- Without a receiver there is nothing that could lead back to the method.
  cases bound : data.receiver with
  | none =>
    rw [bound] at going gained contents
    obtain ⟨allocated, rfl⟩ := Copying.ofAttempt_eq_ok going
    obtain ⟨_, wraps⟩ := gained.holds.sound.exists_function
      ((payload?_of_retainAll taken handle).trans placed)
    obtain ⟨⟨made, done, twins, late⟩, unreferred⟩ := (gained.congr (zero_add _)).method keeps
      (function.of_remains (first.carries.remains trivial)) wraps (grounded.remade rfl fun _ => bound)
      comes.reaches.sustained found shell
      (by rw [contents]; exact .nil) (Or.inl fresh) allocated recorded
    exact ⟨⟨made, done, twins, first.trans late⟩, unreferred⟩
  | some receiver =>
    rw [bound] at going gained contents
    obtain ⟨copiedReceiver, _, _, ran, last⟩ := Copying.bind_eq_ok going
    obtain ⟨allocated, rfl⟩ := Copying.ofAttempt_eq_ok last
    have inside : receiver ∈ payload.contents := by
      rw [contents]
      exact List.mem_singleton_self receiver
    have entered : Stage source top (handle :: way) scene unfinished
        (owned data.owner.toList + receiver.owns) _ :=
      (gained.congr (by simp [add_comm])).enter fun _ _ same kept fills => by
        cases found.symm.trans same
        cases shell.symm.trans kept
        cases fills
    obtain ⟨made, held, twin, middle⟩ := copies.held keeps entered
      (fun _ same => comes.step ⟨payload, found, same ▸ inside⟩) (Copying.onError_eq_ok ran)
    have second : Progress scene.frame
        {original | source.ReachesPast (source.fillsOf way) (.ref handle) original} _ _ :=
      middle.mono (Multiset.subset_of_le (Multiset.le_add_right _ _)) fun _ reached =>
        Heap.reachesPast_of_contents found (stage.free fresh) ⟨receiver, inside, reached⟩
    -- By now the way past the receiver may have led to the method, and it may be recorded already.
    have fresh' := middle.fresh_or_exposed fresh comes found shell inside
    have carries := (first.trans second).carries
    obtain ⟨_, still, same⟩ := carries.evolves.method (carries.kept handle here)
      (held.holds.isLive (Multiset.mem_add.mpr (Or.inl here))) placed
    obtain ⟨_, wraps⟩ := held.holds.sound.exists_function still
    rw [same] at wraps
    obtain ⟨⟨made', done, twins, late⟩, unreferred⟩ := (held.leave.congr (by simp [add_comm]) :
        Stage source top way scene unfinished
          (owned (some copiedReceiver).toList + owned data.owner.toList) _).method keeps
      ((function.of_remains (first.carries.remains trivial)).of_remains
        (second.carries.remains trivial)) wraps
      (grounded.remade rfl fun missing => absurd missing (Option.some_ne_none _))
      comes.reaches.sustained found shell
      (by rw [contents]; exact .cons twin .nil) fresh' allocated recorded
    exact ⟨⟨made', done, twins, (first.trans second).trans late⟩, unreferred⟩

/-! ### All levels -/

theorem Reproduced.after {middle : Sketch Code Host} (progress : Progress scene.frame ∅ before middle)
    (reproduced : Reproduced source top way scene unfinished middle value copied memo world) :
    Reproduced source top way scene unfinished before value copied memo world := by
  obtain ⟨made, stage, twins, later⟩ := reproduced
  exact ⟨made, stage, twins, (progress.mono (fun _ member => member) (Set.empty_subset _)).trans
    later⟩

/-- What was recorded is answered again. -/
theorem Stage.recorded {handle : Handle} {existing : Value}
    (stage : Stage source top way scene unfinished 0 before)
    (known : before.memo.find? handle = some existing)
    (taken : (retainAll [existing] : Action Code Host Unit) before.world = .ok ((), world)) :
    Reproduced source top way scene unfinished before (.ref handle) existing before.memo world := by
  obtain ⟨place, rfl, made⟩ := stage.draft.found handle existing known
  obtain ⟨gained, progress⟩ := stage.gain (Action.Keeps.retainAll _) taken fun other member => by
    have here : other = place := by simpa using member
    rw [here]
    exact .of_mem (Multiset.mem_add.mpr (Or.inr (Draft.mem_of_find? known)))
  refine ⟨before.made, gained.congr (by simp), .copied made,
    progress.mono (fun other member => by simp [member]) (Set.empty_subset _)⟩

/-- What is shared is its own copy. -/
theorem Stage.share {handle : Handle} {payload : Payload Code} {answer : Unit}
    (stage : Stage source top way scene unfinished 0 before) (here : handle ∈ scene.frame)
    (comes : source.Way top (handle :: way)) (found : source.payload? handle = some payload)
    (shared : payload.shell = none)
    (taken : (retain handle : Action Code Host Unit) before.world = .ok (answer, world)) :
    Reproduced source top way scene unfinished before (.ref handle) (.ref handle) before.memo
      world := by
  obtain ⟨gained, progress⟩ := stage.gain (Action.Keeps.retain handle) taken fun other member => by
    rw [Multiset.mem_singleton.mp member]
    exact .of_mem (by simp [here])
  exact ⟨before.made, gained.congr (zero_add _),
    .shared found shared (stage.draft.apart handle comes.reaches.sustained),
    progress.mono (fun other member => by simp [member]) (Set.empty_subset _)⟩

/-- The items of a sequence are held while they are copied. -/
theorem Stage.holdContents {handle : Handle} {payload : Payload Code} {answer : Unit}
    (stage : Stage source top way scene unfinished 0 before) (here : handle ∈ scene.frame)
    (found : before.world.heap.payload? handle = some payload)
    (taken : (retainAll payload.contents : Action Code Host Unit) before.world =
      .ok (answer, world)) :
    Stage source top way scene unfinished (owned payload.contents) { before with world } ∧
      Progress scene.frame ∅ before { before with world } := by
  obtain ⟨gained, progress⟩ := stage.gain (Action.Keeps.retainAll payload.contents) taken
    fun other member => Heap.Sustained.of_contents (.of_mem (by simp [here])) found member
  exact ⟨gained.congr (zero_add _), progress.mono (fun other member => by simp [member]) subset_rfl⟩

/-- What a deep copy does at any level makes a copy of the value. -/
theorem Engine.reproduces_copyWithin (engine : Engine Code Host) (source : Heap Code)
    (top : Value) (levels : Nat) :
    Reproduces source top (engine.silenced.copyWithin levels) := by
  have keeps := engine.keeps_silenced
  induction levels with
  | zero =>
    intro way scene unfinished before value copied memo world stage lent comes ended
    cases value with
    | ref handle =>
      obtain ⟨found, _, _, looked, rest⟩ := Copying.bind_eq_ok ended
      obtain ⟨rfl, rfl, taken⟩ := Copying.recorded?_eq_ok looked
      cases known : before.memo.find? handle with
      | some existing =>
        rw [known] at rest taken
        cases rest
        exact stage.recorded known taken
      | none =>
        rw [known] at rest
        obtain ⟨refused, _⟩ := Copying.ofAttempt_eq_ok rest
        cases refused
    | _ =>
      cases ended
      exact ⟨before.made, stage, .small rfl,
        ⟨stage.holds.carries_refl, fun _ _ => rfl, fun _ _ => rfl⟩⟩
  | succ levels inductionHypothesis =>
    intro way scene unfinished before value copied memo world stage lent comes ended
    cases value with
    | ref handle =>
      have here : handle ∈ scene.frame := lent (by simp)
      have inside := comes handle rfl
      obtain ⟨found, _, _, looked, rest⟩ := Copying.bind_eq_ok ended
      obtain ⟨rfl, rfl, taken⟩ := Copying.recorded?_eq_ok looked
      -- A copy in the memo was made of this very entry, since nothing on the way was freed.
      cases known : before.memo.find? handle with
      | some existing =>
        rw [known] at rest taken
        cases rest
        exact stage.recorded known taken
      | none =>
        rw [known] at rest taken
        cases taken
        obtain ⟨_, payload, later, found, placed, alike⟩ := stage.draft.remains handle
          inside.reaches.sustained
        obtain ⟨_, fetched, going⟩ := Copying.ask_bind_eq_ok rest
        cases (before.world.heap.read_eq_ok.mpr placed).symm.trans fetched
        have shell := alike.shell.symm
        have contents := alike.contents.symm
        cases later with
        | list items =>
          obtain ⟨_, _, _, retained, last⟩ := Copying.bind_eq_ok going
          obtain ⟨taken, rfl⟩ := Copying.ofAction_eq_ok retained
          obtain ⟨held, early⟩ := stage.holdContents here placed taken
          exact (inductionHypothesis.list keeps held inside found shell contents known last).after
            early
        | tuple items =>
          obtain ⟨_, _, _, retained, last⟩ := Copying.bind_eq_ok going
          obtain ⟨taken, rfl⟩ := Copying.ofAction_eq_ok retained
          obtain ⟨held, early⟩ := stage.holdContents here placed taken
          exact (inductionHypothesis.tuple keeps held inside found shell contents known last).after
            early
        | object data =>
          exact inductionHypothesis.object stage here inside found placed alike known going
        | method data =>
          obtain ⟨_, _, _, copiedMethod, rest⟩ := Copying.bind_eq_ok going
          obtain ⟨_, _, _, recorded, last⟩ := Copying.bind_eq_ok rest
          cases last
          exact (inductionHypothesis.method keeps stage here inside found placed alike known
            copiedMethod recorded).1
        | _ =>
          obtain ⟨_, _, _, retained, last⟩ := Copying.bind_eq_ok going
          obtain ⟨taken, rfl⟩ := Copying.ofAction_eq_ok retained
          cases last
          exact stage.share here inside found shell taken
    | _ =>
      cases ended
      exact ⟨before.made, stage, .small rfl,
        ⟨stage.holds.carries_refl, fun _ _ => rfl, fun _ _ => rfl⟩⟩

end ObjectHeap
