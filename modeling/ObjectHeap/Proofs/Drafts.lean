/-
This file sets up what is known in the course of a deep copy as long as no code of the host runs.
The entries that the copy has made are told by what they are copies of. They do not disturb what is
copied; those that are finished mirror what they are copies of; and all of them are in the memo,
apart from methods that lead back to themselves. This is kept when references are taken and given
up, when an entry is made and recorded, and when an unfinished copy takes more contents.
-/

import ObjectHeap.Proofs.Copies
import ObjectHeap.Proofs.Correspondence

namespace ObjectHeap

variable {Code Host : Type} {α β : Type}

/-! ### Twins -/

/-- A value and its copy: small values and what is shared stay the same, and a container has
a copy that was made of it. -/
inductive Twins (source : Heap Code) (made : Handle → Option Handle) : Value → Value → Prop
  | small {value : Value} (small : value.handle? = none) : Twins source made value value
  | shared {handle : Handle} {payload : Payload Code}
    (found : source.payload? handle = some payload) (shared : payload.shell = none)
    (unmade : made handle = none) : Twins source made (.ref handle) (.ref handle)
  | copied {original copy : Handle} (known : made copy = some original) :
    Twins source made (.ref original) (.ref copy)

/-- A container and one with the same shell whose contents are copies of its contents. -/
structure Mirrors (source : Heap Code) (made : Handle → Option Handle)
    (payload later : Payload Code) : Prop where
  shell : later.shell = payload.shell
  copied : payload.shell.isSome
  contents : List.Forall₂ (Twins source made) payload.contents later.contents

variable {source : Heap Code} {made later : Handle → Option Handle} {value copy : Value}

theorem Twins.congr (twins : Twins source made value copy)
    (same : ∀ handle ∈ copy.owns, later handle = made handle) : Twins source later value copy := by
  cases twins with
  | small small => exact .small small
  | shared found shared unmade => exact .shared found shared ((same _ (by simp)).trans unmade)
  | copied known => exact .copied ((same _ (by simp)).trans known)

theorem twins_congr {values copies : List Value}
    (twins : List.Forall₂ (Twins source made) values copies)
    (same : ∀ handle ∈ owned copies, later handle = made handle) :
    List.Forall₂ (Twins source later) values copies := by
  induction twins with
  | nil => exact .nil
  | cons first _ inductionHypothesis =>
    refine .cons (first.congr fun handle member => same handle ?_)
      (inductionHypothesis fun handle member => same handle ?_)
    · rw [owned_cons]
      exact Multiset.mem_add.mpr (Or.inl member)
    · rw [owned_cons]
      exact Multiset.mem_add.mpr (Or.inr member)

theorem Mirrors.congr {payload mirrored : Payload Code}
    (mirrors : Mirrors source made payload mirrored)
    (same : ∀ handle ∈ mirrored.owns, later handle = made handle) :
    Mirrors source later payload mirrored where
  shell := mirrors.shell
  copied := mirrors.copied
  contents := twins_congr mirrors.contents fun handle member =>
    same handle (mirrored.owned_contents_subset member)

theorem Mirrors.alike {payload mirrored last : Payload Code}
    (mirrors : Mirrors source made payload mirrored) (alike : mirrored.Alike last) :
    Mirrors source made payload last where
  shell := alike.shell.trans mirrors.shell
  copied := mirrors.copied
  contents := by
    rw [alike.contents]
    exact mirrors.contents

/-! ### Drafts -/

/-- What is known in the course of a copy of a value at the `top`, on the `way` from there, where
`made` tells of which entry of the source an entry is a copy. -/
structure Draft (source : Heap Code) (top : Value) (way : List Handle) (unfinished : Set Handle)
    (made : Handle → Option Handle) (memo : Memo) (heap : Heap Code) (roots : Multiset Handle) :
    Prop where
  based : top.owns ⊆ roots
  held : memo.owns ⊆ roots
  /-- The lists and instances on the way are recorded. -/
  passed : ∀ handle ∈ source.fillsOf way, memo.find? handle ≠ none
  /-- What is copied stays as it was. -/
  remains : ∀ handle, source.Sustained top.owns handle → source.Remains heap handle
  apart : ∀ handle, source.Sustained top.owns handle → made handle = none
  /-- Only what the value sustains is copied. -/
  within : ∀ copy original, made copy = some original → heap.Sustained roots copy →
    source.Sustained top.owns original
  finished : ∀ copy original, made copy = some original → heap.Sustained roots copy →
    copy ∉ unfinished → ∃ payload mirrored, source.payload? original = some payload ∧
      heap.payload? copy = some mirrored ∧ Mirrors source made payload mirrored
  recorded : ∀ copy original, made copy = some original → heap.Sustained roots copy →
    memo.find? original = some (.ref copy) ∨ source.Exposed top original
  found : ∀ original copy, memo.find? original = some copy →
    ∃ handle, copy = .ref handle ∧ made handle = some original

/-- What is sustained was sustained before, as long as all that was sustained remains and the
references come from there. -/
theorem Heap.Sustained.of_remained {before after : Heap Code} {kept roots : Multiset Handle}
    (remains : ∀ handle, before.Sustained kept handle → before.Remains after handle)
    (within : ∀ root ∈ roots, before.Sustained kept root) {handle : Handle}
    (sustained : after.Sustained roots handle) : before.Sustained kept handle :=
  sustained.of_unchanged within fun source _ held => (remains source held).visits.symm

namespace Draft

variable {top : Value} {way : List Handle} {roots kept more : Multiset Handle}
  {unfinished : Set Handle} {memo : Memo} {before after : Heap Code} {place original : Handle}
  {payload : Payload Code}

/-- What is recorded is owned by the memo. -/
theorem mem_of_find? {copy : Handle} (found : memo.find? original = some (.ref copy)) :
    copy ∈ memo.owns := by
  unfold Memo.find? at found
  unfold Memo.owns Memo.values
  rw [mem_owned, List.mem_map]
  have member := List.lookup_eq_some_iff.mp found
  obtain ⟨front, back, split, _⟩ := member
  exact ⟨(original, .ref copy), by rw [split]; simp, rfl⟩

/-- A draft stays one as long as what is kept remains. -/
theorem carried (draft : Draft source top way unfinished made memo before roots)
    (remains : ∀ handle, before.Sustained kept handle → before.Remains after handle)
    (sub : kept ⊆ roots) (based : top.owns ⊆ kept) (held : memo.owns ⊆ kept)
    (gained : ∀ handle ∈ more, before.Sustained kept handle) :
    Draft source top way unfinished made memo after (kept + more) := by
  have back {handle : Handle} (sustained : after.Sustained (kept + more) handle) :
      before.Sustained kept handle := by
    refine sustained.of_remained remains fun root member => ?_
    rcases Multiset.mem_add.mp member with inside | inside
    · exact .of_mem inside
    · exact gained root inside
  refine ⟨fun _ member => Multiset.mem_add.mpr (Or.inl (based member)),
    fun _ member => Multiset.mem_add.mpr (Or.inl (held member)), draft.passed,
    fun handle sustained => ?_, draft.apart, fun copy original known sustained => ?_,
    fun copy original known sustained closed => ?_, fun copy original known sustained => ?_,
    draft.found⟩
  · have stays := draft.remains handle sustained
    exact stays.trans (remains handle
      ((sustained.of_remains draft.remains).mono based))
  · exact draft.within copy original known ((back sustained).mono sub)
  · obtain ⟨payload, mirrored, found, placed, mirrors⟩ :=
      draft.finished copy original known ((back sustained).mono sub) closed
    obtain ⟨_, other, last, same, reached, alike⟩ := remains copy (back sustained)
    cases placed.symm.trans same
    exact ⟨payload, last, found, reached, mirrors.alike alike⟩
  · exact draft.recorded copy original known ((back sustained).mono sub)

/-- A copy that mirrors what it is a copy of is finished. -/
theorem finish (draft : Draft source top way (insert place unfinished) made memo before roots)
    (known : made place = some original) (found : source.payload? original = some payload)
    {mirrored : Payload Code} (placed : before.payload? place = some mirrored)
    (mirrors : Mirrors source made payload mirrored) :
    Draft source top way unfinished made memo before roots :=
  { draft with
    finished := fun copy other same sustained closed => by
      by_cases here : copy = place
      · subst here
        cases known.symm.trans same
        exact ⟨payload, mirrored, found, placed, mirrors⟩
      · refine draft.finished copy other same sustained fun member => ?_
        rcases Set.mem_insert_iff.mp member with same | member
        · exact here same
        · exact closed member }

/-- An unfinished copy takes more contents from those that are held. -/
theorem extend (draft : Draft source top way unfinished made memo before roots)
    (opened : place ∈ unfinished) (known : made place = some original) (held : place ∈ roots)
    {mirrored : Payload Code} (placed : before.payload? place = some payload)
    (owns : ∀ handle ∈ mirrored.owns, handle ∈ payload.owns + roots) (sub : kept ⊆ roots)
    (based : top.owns ⊆ kept) (recorded : memo.owns ⊆ kept) :
    Draft source top way unfinished made memo (before.mapPayload place fun _ => mirrored) kept := by
  have others {other : Handle} (different : other ≠ place) :
      (before.mapPayload place fun _ => mirrored).payload? other = before.payload? other :=
    (Heap.payload?_grown placed other).trans (if_neg different)
  have back {handle : Handle}
      (sustained : (before.mapPayload place fun _ => mirrored).Sustained kept handle) :
      before.Sustained roots handle := by
    refine .of_grown placed (fun root member => .of_mem (sub member)) (fun target member => ?_)
      sustained
    rcases Multiset.mem_add.mp (owns target member) with inside | inside
    · exact (Heap.Sustained.of_mem held).of_owned placed inside
    · exact .of_mem inside
  refine ⟨based, recorded, draft.passed, fun handle sustained => ?_, draft.apart,
    fun copy other same sustained => draft.within copy other same (back sustained),
    fun copy other same sustained closed => ?_,
    fun copy other same sustained => draft.recorded copy other same (back sustained), draft.found⟩
  · obtain ⟨same, one, two, held, reached, alike⟩ := draft.remains handle sustained
    have different : handle ≠ place := by
      rintro rfl
      rw [draft.apart handle sustained] at known
      cases known
    exact ⟨(before.births_mapPayload place handle _).trans same, one, two, held,
      (others different).trans reached, alike⟩
  · have different : copy ≠ place := by
      rintro rfl
      exact closed opened
    rw [others different]
    exact draft.finished copy other same (back sustained) closed

/-- An entry is made of what is held and recorded as a copy that is not finished yet. -/
theorem enlist (draft : Draft source top way unfinished made memo before roots)
    {outside : Multiset Handle} (balanced : before.Balanced outside) (sub : roots ⊆ outside)
    (admits : before.Admits payload place after) (owns : payload.owns ⊆ roots)
    (within : source.Sustained top.owns original)
    (fresh : memo.find? original = none ∨ source.Exposed top original)
    (gained : ∀ handle ∈ kept, handle = place ∨ handle ∈ roots) (based : top.owns ⊆ kept)
    (recorded : (memo.insert original (.ref place)).owns ⊆ kept) :
    Draft source top way (insert place unfinished) (Function.update made place (some original))
      (memo.insert original (.ref place)) after kept := by
  have born {handle : Handle} (sustained : before.Sustained roots handle) : handle ≠ place :=
    admits.ne_of_sustained balanced (sustained.mono sub)
  have other {handle : Handle} (sustained : before.Sustained roots handle) :
      Function.update made place (some original) handle = made handle :=
    Function.update_of_ne (born sustained) _ _
  -- What is a copy afterwards is the entry, or was a copy before.
  have back {copy source : Handle} (sustained : after.Sustained kept copy)
      (known : Function.update made place (some original) copy = some source) :
      copy = place ∧ source = original ∨ made copy = some source ∧ before.Sustained roots copy := by
    rcases admits.eq_or_sustained balanced sub owns gained sustained with rfl | reached
    · rw [Function.update_self] at known
      exact Or.inl ⟨rfl, (Option.some.inj known).symm⟩
    · exact Or.inr ⟨(other reached).symm.trans known, reached⟩
  refine ⟨based, recorded, fun handle member => ?_, fun handle sustained => ?_,
    fun handle sustained => ?_, fun copy source known sustained => ?_,
    fun copy source known sustained closed => ?_, fun copy source known sustained => ?_,
    fun source copy found => ?_⟩
  · rw [Memo.find?_insert]
    split
    · exact Option.some_ne_none _
    · exact draft.passed handle member
  · obtain ⟨same, one, two, held, reached, alike⟩ := draft.remains handle sustained
    have different := born ((sustained.of_remains draft.remains).mono draft.based)
    exact ⟨(admits.steady handle different).trans same, one, two, held,
      (admits.payload?_others different).trans reached, alike⟩
  · rw [other ((sustained.of_remains draft.remains).mono draft.based)]
    exact draft.apart handle sustained
  · rcases back sustained known with ⟨_, rfl⟩ | ⟨known, reached⟩
    · exact within
    · exact draft.within copy source known reached
  · rcases back sustained known with ⟨rfl, _⟩ | ⟨known, reached⟩
    · exact absurd (Set.mem_insert copy unfinished) closed
    · obtain ⟨payload, mirrored, found, placed, mirrors⟩ := draft.finished copy source known reached
        fun member => closed (Set.mem_insert_of_mem _ member)
      exact ⟨payload, mirrored, found, (admits.payload?_others (born reached)).trans placed,
        mirrors.congr fun handle member => other (reached.of_owned placed member)⟩
  · rw [Memo.find?_insert]
    rcases back sustained known with ⟨rfl, rfl⟩ | ⟨known, reached⟩
    · exact Or.inl (if_pos rfl)
    · rcases draft.recorded copy source known reached with found | circular
      · by_cases same : source = original
        · subst same
          exact fresh.imp (fun absent => nomatch absent.symm.trans found) id
        · exact Or.inl ((if_neg same).trans found)
      · exact Or.inr circular
  · rw [Memo.find?_insert] at found
    by_cases same : source = original
    · rw [if_pos same] at found
      cases found
      exact ⟨place, rfl, by rw [Function.update_self, same]⟩
    · rw [if_neg same] at found
      obtain ⟨handle, rfl, known⟩ := draft.found source copy found
      exact ⟨handle, rfl, (other (.of_mem (draft.held (mem_of_find? found)))).trans known⟩

end Draft

/-! ### Stages of a copy -/

/-- A state of a copy: the world, the memo, and of which entries the entries that were made are
copies. -/
structure Sketch (Code Host : Type) where
  world : World Code Host
  memo : Memo
  made : Handle → Option Handle

/-- A copy that owns references that are `mine` beside those of its memo is in order. -/
structure Stage (source : Heap Code) (top : Value) (way : List Handle) (scene : Scene)
    (unfinished : Set Handle) (mine : Multiset Handle) (sketch : Sketch Code Host) : Prop where
  based : top.owns ⊆ scene.frame
  holds : Engine.blankLedger.Holds scene sketch.world (mine + sketch.memo.owns)
  draft : Draft source top way unfinished sketch.made sketch.memo sketch.world.heap
    (scene.frame + mine + sketch.memo.owns)

/-- What a copy leaves as it is: what the frame sustains, of what this is a copy, and what the
memo records of anything but what was `reached`. -/
structure Progress (frame : Multiset Handle) (reached : Set Handle)
    (before after : Sketch Code Host) : Prop where
  carries : before.world.heap.Carries True frame after.world.heap
  same : ∀ handle, before.world.heap.Sustained frame handle → after.made handle = before.made handle
  memo : ∀ original ∉ reached, after.memo.find? original = before.memo.find? original

variable {frame less : Multiset Handle} {region : Set Handle}
  {first second third : Sketch Code Host}

theorem Progress.trans (one : Progress frame region first second)
    (two : Progress frame region second third) : Progress frame region first third where
  carries := one.carries.trans two.carries
  same handle sustained :=
    (two.same handle (sustained.of_remains (one.carries.remains trivial))).trans
      (one.same handle sustained)
  memo original apart := (two.memo original apart).trans (one.memo original apart)

theorem Progress.mono (progress : Progress frame region first second) (sub : less ⊆ frame)
    {more : Set Handle} (wide : region ⊆ more) : Progress less more first second where
  carries := progress.carries.mono sub
  same handle sustained := progress.same handle (sustained.mono sub)
  memo original apart := progress.memo original fun member => apart (wide member)

/-- What is not sustained by the frame does not come to be. -/
theorem Progress.not_sustained (progress : Progress frame region first second) {handle : Handle}
    (fresh : ¬ first.world.heap.Sustained frame handle) :
    ¬ second.world.heap.Sustained frame handle := fun sustained =>
  fresh (sustained.of_remained (progress.carries.remains trivial) fun _ member => .of_mem member)

/-- What the frame holds has the payload that it had, but for weak references to it. -/
theorem Progress.alike (progress : Progress frame region first second) {handle : Handle}
    (member : handle ∈ frame) {payload : Payload Code}
    (found : first.world.heap.payload? handle = some payload) :
    ∃ later, second.world.heap.payload? handle = some later ∧ payload.Alike later := by
  obtain ⟨_, one, two, held, reached, alike⟩ :=
    progress.carries.remains trivial handle (.of_mem member)
  cases found.symm.trans held
  exact ⟨two, reached, alike⟩

/-- Copies in what the frame holds stay copies. -/
theorem Progress.twins (progress : Progress frame region first second) {handle : Handle}
    (member : handle ∈ frame) {payload : Payload Code}
    (found : first.world.heap.payload? handle = some payload) {source : Heap Code}
    {values copies : List Value} (within : owned copies ⊆ payload.owns)
    (twins : List.Forall₂ (Twins source first.made) values copies) :
    List.Forall₂ (Twins source second.made) values copies :=
  twins_congr twins fun other inside =>
    progress.same other ((Heap.Sustained.of_mem member).of_owned found (within inside))

namespace Stage

variable {source : Heap Code} {top : Value} {way : List Handle}
  {mine pre rest : Multiset Handle} {scene : Scene} {unfinished : Set Handle}
  {before : Sketch Code Host} {world : World Code Host}

theorem congr (stage : Stage source top way scene unfinished mine before) (same : mine = rest) :
    Stage source top way scene unfinished rest before := same ▸ stage

/-- A part of what is owned can be counted among what others hold. -/
theorem framed (stage : Stage source top way scene unfinished (rest + mine) before) :
    Stage source top way (scene.framing rest) unfinished mine before where
  based _ member := Multiset.mem_add.mpr (Or.inl (stage.based member))
  holds := Ledger.Holds.framing_iff.mpr (stage.holds.congr (add_assoc _ _ _))
  draft := by
    have draft := stage.draft
    rwa [← add_assoc scene.frame] at draft

/-- What was counted among what others hold is owned again. -/
theorem unframed (stage : Stage source top way (scene.framing rest) unfinished mine before)
    (based : top.owns ⊆ scene.frame) :
    Stage source top way scene unfinished (rest + mine) before where
  based := based
  holds := (Ledger.Holds.framing_iff.mp stage.holds).congr (add_assoc _ _ _).symm
  draft := by
    rw [← add_assoc]
    exact stage.draft

/-- A copy goes on to the contents of an entry, which is recorded if it is a list or an instance. -/
theorem enter (stage : Stage source top way scene unfinished mine before) {handle : Handle}
    (recorded : ∀ payload shell, source.payload? handle = some payload →
      payload.shell = some shell → shell.fills → before.memo.find? handle ≠ none) :
    Stage source top (handle :: way) scene unfinished mine before where
  based := stage.based
  holds := stage.holds
  draft := { stage.draft with
    passed := fun other member => by
      obtain ⟨inside, payload, shell, found, kept, fills⟩ := member
      rcases List.mem_cons.mp inside with rfl | inside
      · exact recorded payload shell found kept fills
      · exact stage.draft.passed other ⟨inside, payload, shell, found, kept, fills⟩ }

theorem leave {handle : Handle} (stage : Stage source top (handle :: way) scene unfinished mine before) :
    Stage source top way scene unfinished mine before where
  based := stage.based
  holds := stage.holds
  draft := { stage.draft with
    passed := fun other member => stage.draft.passed other
      (Heap.fillsOf_subset_cons handle way member) }

/-- What goes on beside everything else that is owned. -/
theorem holding (stage : Stage source top way scene unfinished (mine + pre) before) :
    Engine.blankLedger.Holds (scene.framing (mine + before.memo.owns)) before.world pre :=
  Ledger.Holds.framing_iff.mpr (stage.holds.congr (by abel))

/-- An action that gives up some references and takes others, among those that are sustained. -/
theorem act (stage : Stage source top way scene unfinished (mine + pre) before)
    {action : Action Code Host α} {owns : α → Multiset Handle} {answer : α}
    (keeps : action.Keeps Engine.blankLedger pre owns) (ended : action before.world = .ok (answer, world))
    (gained : ∀ handle ∈ owns answer,
      before.world.heap.Sustained (scene.frame + mine + before.memo.owns) handle) :
    Stage source top way scene unfinished (mine + owns answer) { before with world } ∧
      Progress (scene.frame + mine + before.memo.owns) ∅ before { before with world } := by
  obtain ⟨done, framed⟩ := keeps _ _ stage.holding _ _ ended
  have carries : before.world.heap.Carries True (scene.frame + mine + before.memo.owns)
      world.heap := by
    rw [add_assoc]
    exact framed.toCarries
  refine ⟨⟨stage.based, (Ledger.Holds.framing_iff.mp done).congr (by abel), ?_⟩, carries,
    fun _ _ => rfl, fun _ _ => rfl⟩
  have carried := stage.draft.carried (carries.remains trivial) (fun handle => ?_)
    (fun handle member => ?_) (fun handle => ?_) gained
  · convert carried using 1
    abel
  · simp only [Multiset.mem_add]
    tauto
  · simp only [Multiset.mem_add]
    exact Or.inl (Or.inl (stage.based member))
  · simp only [Multiset.mem_add]
    tauto

/-- An action that gives up references. -/
theorem spend (stage : Stage source top way scene unfinished (mine + pre) before)
    {action : Action Code Host Unit} (keeps : action.Keeps Engine.blankLedger pre fun _ => 0)
    (ended : action before.world = .ok ((), world)) :
    Stage source top way scene unfinished mine { before with world } ∧
      Progress (scene.frame + mine + before.memo.owns) ∅ before { before with world } := by
  obtain ⟨done, progress⟩ := stage.act keeps ended fun _ member =>
    absurd member (Multiset.notMem_zero _)
  exact ⟨done.congr (add_zero _), progress⟩

/-- An action that takes references to what is sustained. -/
theorem gain (stage : Stage source top way scene unfinished mine before)
    {action : Action Code Host Unit} (keeps : action.Keeps Engine.blankLedger 0 fun _ => rest)
    (ended : action before.world = .ok ((), world))
    (gained : ∀ handle ∈ rest,
      before.world.heap.Sustained (scene.frame + mine + before.memo.owns) handle) :
    Stage source top way scene unfinished (mine + rest) { before with world } ∧
      Progress (scene.frame + mine + before.memo.owns) ∅ before { before with world } :=
  (stage.congr (add_zero mine).symm).act keeps ended gained

/-- A copy that mirrors what it is a copy of is finished. -/
theorem finish {place original : Handle} {payload mirrored : Payload Code}
    (stage : Stage source top way scene (insert place unfinished) mine before)
    (known : before.made place = some original) (found : source.payload? original = some payload)
    (placed : before.world.heap.payload? place = some mirrored)
    (mirrors : Mirrors source before.made payload mirrored) :
    Stage source top way scene unfinished mine before where
  based := stage.based
  holds := stage.holds
  draft := stage.draft.finish known found placed mirrors

/-- An entry that is made of what is owned is new, and is drafted as a copy. -/
theorem admitted {payload : Payload Code} {original : Handle} {value : Value}
    {created : World Code Host}
    (stage : Stage source top way scene unfinished (mine + payload.owns) before)
    (allocates : Engine.Allocates Engine.blankLedger (scene.framing (mine + before.memo.owns))
      before.world payload (.ok value) created)
    (aimless : payload.target? = none) (unwatched : payload.watchers = [])
    (within : source.Sustained top.owns original)
    (fresh : before.memo.find? original = none ∨ source.Exposed top original) :
    ∃ place, value = .ref place ∧
      Engine.blankLedger.Holds scene created (mine + before.memo.owns + {place}) ∧
      Draft source top way (insert place unfinished)
        (Function.update before.made place (some original))
        (before.memo.insert original (.ref place)) created.heap
        (scene.frame + mine + before.memo.owns + {place}) ∧
      before.world.heap.Carries True (scene.frame + mine) created.heap ∧
      created.heap.payload? place = some payload ∧ place ∉ payload.owns ∧
      (∀ handle, before.world.heap.Sustained (scene.frame + mine) handle → handle ≠ place) ∧
      ¬ created.heap.Sustained (scene.frame + mine) place ∧
      ∀ handle, ¬ created.heap.Refers handle place := by
  obtain ⟨createdHolds, createdCarries⟩ := allocates.holds aimless unwatched
  obtain ⟨place, paid, rfl, paidHolds, paidCarries, admits, founded, same, _⟩ := allocates
  obtain ⟨_, admitCarries⟩ := paidHolds.admitted rfl admits founded
    (admits.watched paidHolds.sound.watched aimless unwatched)
  let kept := scene.frame + mine + before.memo.owns + payload.owns
  have framed : (scene.framing (mine + before.memo.owns)).frame + payload.owns = kept := by
    simp only [Scene.framing, kept]
    abel
  rw [framed] at paidCarries
  have balanced : paid.heap.Balanced kept := by
    have counted := paidHolds.sound.balanced
    rwa [framed, Engine.blankLedger, add_zero] at counted
  have subset : scene.frame + mine ⊆ kept :=
    Multiset.subset_of_le ((Multiset.le_add_right _ _).trans (Multiset.le_add_right _ _))
  -- What others hold is still there when the entry is placed, and the slot is empty then.
  have apart {handle : Handle} (sustained : paid.heap.Sustained kept handle) : handle ≠ place :=
    admits.ne_of_sustained balanced sustained
  have owned : payload.owns ⊆ kept := fun _ member => Multiset.mem_add.mpr (Or.inr member)
  have drafted : Draft source top way unfinished before.made before.memo paid.heap (kept + 0) := by
    refine stage.draft.carried (paidCarries.remains trivial) (fun handle => ?_)
      (fun handle member => subset (Multiset.mem_add.mpr (Or.inl (stage.based member))))
      (fun handle => ?_) fun _ member => absurd member (Multiset.notMem_zero _)
    · simp only [kept, Multiset.mem_add]
      tauto
    · simp only [kept, Multiset.mem_add]
      tauto
  rw [add_zero] at drafted
  have held : scene.frame + mine ⊆ (scene.framing (mine + before.memo.owns)).frame := by
    rw [Scene.framing, ← add_assoc]
    exact Multiset.subset_of_le (Multiset.le_add_right _ _)
  refine ⟨place, rfl, (Ledger.Holds.framing_iff.mp createdHolds), ?_,
    (createdCarries.mono held).toCarries, admits.payload?_here,
    fun member => apart (.of_mem (owned member)) rfl,
    fun handle sustained => apart ((sustained.mono subset).of_remains (paidCarries.remains trivial)),
    fun sustained => ?_, admits.not_refers balanced owned⟩
  · refine drafted.enlist balanced (fun _ member => member) admits owned within fresh
      (fun handle member => ?_) (fun handle member => ?_) fun handle member => ?_
    · rcases Multiset.mem_add.mp member with inside | here
      · exact Or.inr (Multiset.mem_add.mpr (Or.inl inside))
      · exact Or.inl (Multiset.mem_singleton.mp here)
    · exact Multiset.subset_of_le (Multiset.le_add_right _ _)
        (Multiset.mem_add.mpr (Or.inl (Multiset.mem_add.mpr (Or.inl (stage.based member)))))
    · have recorded : handle ∈ before.memo.owns + {place} := by
        rw [← Value.owns_ref, ← Memo.owns_insert before.memo original]
        exact Multiset.mem_add.mpr (Or.inl member)
      rw [add_assoc]
      exact Multiset.mem_add.mpr (Or.inr recorded)
  · refine apart (Heap.Sustained.mono ?_ subset) rfl
    exact sustained.of_remained ((admitCarries.mono held).remains trivial) fun _ member =>
      .of_mem member

/-- Recording an entry that was drafted takes a reference to it and gives up what was recorded in
its place. -/
theorem memorized {engine : Engine Code Host} (keeps : engine.Keeps Engine.blankLedger)
    {place original : Handle} {memo earlier : Memo} {made : Handle → Option Handle}
    {created : World Code Host} (based : top.owns ⊆ scene.frame)
    (holds : Engine.blankLedger.Holds scene created (mine + earlier.owns + {place}))
    (draft : Draft source top way unfinished made (earlier.insert original (.ref place)) created.heap
      (scene.frame + mine + earlier.owns + {place}))
    (recorded : (engine.memorize original (.ref place)).run earlier created =
      .ok ((.ok (), memo), world)) :
    memo = earlier.insert original (.ref place) ∧
      Stage source top way scene unfinished (mine + {place}) ⟨world, memo, made⟩ ∧
      created.heap.Carries True (scene.frame + (mine + {place}) + memo.owns) world.heap := by
  obtain ⟨_, _, held, retained, going⟩ := Copying.bind_eq_ok recorded
  obtain ⟨taken, same⟩ := Copying.retainValue_eq_ok retained
  rw [same] at going
  obtain ⟨_, _, _, set, released⟩ := Copying.bind_eq_ok (Copying.memo_bind_eq_ok going)
  cases set
  obtain ⟨gone, rfl⟩ := Copying.ofAction_eq_ok released
  have paid := Memo.owns_insert earlier original (.ref place)
  have framed : scene.frame + mine + earlier.owns + {place} =
      (scene.framing (mine + earlier.owns + {place})).frame := by
    simp only [Scene.framing]
    abel
  rw [framed] at draft
  have here : place ∈ (scene.framing (mine + earlier.owns + {place})).frame := by
    rw [← framed]
    exact Multiset.mem_add.mpr (Or.inr (Multiset.mem_singleton_self place))
  obtain ⟨heldHolds, heldCarries⟩ := Action.Keeps.retainValue (.ref place)
    (scene.framing (mine + earlier.owns + {place})) created
    (Ledger.Holds.framing_iff.mpr (holds.congr (add_zero _).symm)) _ _ taken
  -- What was recorded before is still held at this point, and is given up at the end.
  have staged : Stage source top way scene unfinished
      (mine + {place} + owned (earlier.find? original).toList)
      ⟨held, earlier.insert original (.ref place), made⟩ := by
    refine ⟨based, (Ledger.Holds.framing_iff.mp heldHolds).congr ?_, ?_⟩
    · calc mine + earlier.owns + {place} + (Value.ref place).owns
          = mine + {place} + (earlier.owns + (Value.ref place).owns) := by abel
        _ = mine + {place} + owned (earlier.find? original).toList +
            (earlier.insert original (.ref place)).owns := by
          rw [← paid]
          abel
    · have carried : Draft source top way unfinished _ _ held.heap
          ((scene.framing (mine + earlier.owns + {place})).frame + {place}) :=
        draft.carried (heldCarries.remains trivial) (fun _ member => member) draft.based draft.held
          fun handle member => by
            rw [Multiset.mem_singleton.mp member]
            exact .of_mem here
      convert carried using 1
      calc scene.frame + (mine + {place} + owned (earlier.find? original).toList) +
            (earlier.insert original (.ref place)).owns
          = scene.frame + mine + {place} + ((earlier.insert original (.ref place)).owns +
              owned (earlier.find? original).toList) := by abel
        _ = (scene.framing (mine + earlier.owns + {place})).frame + {place} := by
          rw [paid, Value.owns_ref, ← framed]
          abel
  obtain ⟨done, progress⟩ := staged.spend (keeps.release? _) gone
  refine ⟨rfl, done, (heldCarries.toCarries.mono fun handle member => ?_).trans progress.carries⟩
  rcases Multiset.mem_add.mp member with inside | inside
  · rw [← framed]
    simp only [Multiset.mem_add] at inside ⊢
    tauto
  · exact draft.held inside

/-- An entry that is made of what is owned, and then recorded, is a copy that is not finished yet.
Nothing that others hold leads to it, and no entry refers to it. -/
theorem enlist {engine : Engine Code Host} (keeps : engine.Keeps Engine.blankLedger)
    {payload : Payload Code} {original : Handle} {value : Value} {created : World Code Host}
    {memo : Memo} (stage : Stage source top way scene unfinished (mine + payload.owns) before)
    (allocates : Engine.Allocates Engine.blankLedger (scene.framing (mine + before.memo.owns))
      before.world payload (.ok value) created)
    (aimless : payload.target? = none) (unwatched : payload.watchers = [])
    (recorded : (engine.memorize original value).run before.memo created =
      .ok ((.ok (), memo), world))
    (within : source.Sustained top.owns original)
    (fresh : before.memo.find? original = none ∨ source.Exposed top original) :
    ∃ place later, value = .ref place ∧
      Stage source top way scene (insert place unfinished) (mine + {place})
        ⟨world, memo, Function.update before.made place (some original)⟩ ∧
      Progress (scene.frame + mine) {original} before
        ⟨world, memo, Function.update before.made place (some original)⟩ ∧
      world.heap.payload? place = some later ∧ payload.Alike later ∧ place ∉ payload.owns ∧
      ¬ world.heap.Sustained (scene.frame + mine) place ∧
      ∀ handle, world.heap.Sustained (scene.frame + (mine + {place}) + memo.owns) handle →
        ¬ world.heap.Refers handle place := by
  obtain ⟨place, rfl, holds, draft, carries, placed, outside, apart, unreached, unreferred⟩ :=
    stage.admitted allocates aimless unwatched within fresh
  obtain ⟨rfl, done, going⟩ := memorized keeps stage.based holds draft recorded
  obtain ⟨_, _, later, found, reached, alike⟩ := going.remains trivial place (.of_mem (by simp))
  cases placed.symm.trans found
  have onward : created.heap.Carries True (scene.frame + mine) world.heap :=
    going.mono fun handle => by
      simp only [Multiset.mem_add]
      tauto
  refine ⟨place, later, rfl, done, ⟨carries.trans onward, fun handle sustained => ?_,
    fun other different => ?_⟩, reached, alike, outside, fun sustained => ?_,
    fun handle sustained refers => unreferred handle ?_⟩
  · exact Function.update_of_ne (apart handle sustained) _ _
  · exact (Memo.find?_insert _ _ _ _).trans (if_neg different)
  · exact unreached (sustained.of_remained (onward.remains trivial) fun _ member => .of_mem member)
  · have first := sustained.of_remained (going.remains trivial) fun _ member => .of_mem member
    unfold Heap.Refers at refers ⊢
    rwa [(going.remains trivial handle first).visits] at refers

/-- An unfinished copy that nothing leads to, apart from what the copy itself owns, takes over what
is stored in it. -/
theorem extend {place original : Handle} {payload : Payload Code}
    (stage : Stage source top way scene unfinished (mine + pre) before) (mirrored : Payload Code)
    (opened : place ∈ unfinished) (known : before.made place = some original)
    (here : place ∈ mine) (unreached : ¬ before.world.heap.Sustained scene.frame place)
    (placed : before.world.heap.payload? place = some payload)
    (grows : payload.Grows mirrored) (taken : mirrored.owns = payload.owns + pre)
    (changed : world = { before.world with
      heap := before.world.heap.mapPayload place fun _ => mirrored }) :
    Stage source top way scene unfinished mine { before with world } ∧
      Progress scene.frame ∅ before { before with world } ∧
      world.heap.payload? place = some mirrored := by
  subst changed
  have traded : mirrored.owns + (mine + before.memo.owns) =
      payload.owns + (mine + pre + before.memo.owns) := by
    rw [taken]
    abel
  obtain ⟨done, carries⟩ := stage.holds.exchange mirrored (fun _ => unreached) placed grows traded
  refine ⟨⟨stage.based, done, ?_⟩, ⟨carries.toCarries, fun _ _ => rfl, fun _ _ => rfl⟩,
    (Heap.payload?_grown placed place).trans (if_pos rfl)⟩
  refine stage.draft.extend opened known ?_ placed (fun handle member => ?_) (fun handle => ?_)
    (fun handle member => ?_) fun handle => ?_
  · simp only [Multiset.mem_add]
    exact Or.inl (Or.inr (Or.inl here))
  · rw [taken] at member
    simp only [Multiset.mem_add] at member ⊢
    tauto
  · simp only [Multiset.mem_add]
    tauto
  · simp only [Multiset.mem_add]
    exact Or.inl (Or.inl (stage.based member))
  · simp only [Multiset.mem_add]
    tauto

end Stage

end ObjectHeap
