/-
This file follows the single steps of a deep copy in a heap without callbacks. A copy is recorded with
a reference of its own, and what was recorded before stays as it is. A tuple or a method is created
when all that it is to contain is there, and is finished from the beginning. A list or an instance is
created empty, recorded, and then filled with one thing after another, and nobody has it meanwhile
who was there at first.
-/

import ObjectHeap.Proofs.Reproduction
import ObjectHeap.Proofs.Underway

namespace ObjectHeap

variable {Code Host α β : Type}

/-! ### What is recorded -/

namespace Outset

variable {outset : Outset Code} {rest mine : Multiset Handle} {memo noted : Memo} {start : Heap Code}
  {before : World Code Host} {unfinished : Set Handle} {original place : Handle}

/-- A copy is recorded with a reference of its own. What is held before and after that weathers. -/
theorem Underway.closes_memorize (engine : Engine Code Host) (copy : Value)
    (underway : outset.Underway rest mine memo before.heap)
    (apart : ∀ target ∈ copy.owns, outset.Apart before.heap target) (original : Handle) :
    (engine.memorize original copy).Closes memo before
      (fun _ later after => later = memo.insert original copy ∧
        outset.Underway rest mine later after.heap ∧
        ∀ frame ⊆ rest + mine + memo.owns, frame ⊆ rest + mine + later.owns →
          before.heap.Weathers frame after.heap)
      fun _ _ => False := by
  have held := (underway.congr (add_zero mine).symm).framed
  refine .bind (fun _ later after => later = memo ∧
    outset.Underway (rest + mine) copy.owns memo after.heap ∧
      before.heap.Weathers (rest + mine + memo.owns) after.heap)
    (.retainValue fun after taken => ?_) fun _ noted between taken => ?_
  · have gained := held.act (Action.Wanes.retainValue copy) taken
    exact ⟨rfl, gained⟩
  obtain ⟨rfl, owning, early⟩ := taken
  have recorded := (owning.congr (zero_add _).symm).insert
    (fun target member => (apart target member).older (early.older target)) original
  have released : (Copying.ofAttempt (Attempt.ofAction (engine.release? (noted.find? original)))).Closes
      (noted.insert original copy) between
      (fun _ later after => later = noted.insert original copy ∧
        outset.Underway rest mine later after.heap ∧
        ∀ frame ⊆ rest + mine + noted.owns, frame ⊆ rest + mine + later.owns →
          before.heap.Weathers frame after.heap) fun _ _ => False := by
    refine .ofAction fun _ after gone => ?_
    obtain ⟨done, late⟩ := (recorded.congr (zero_add _)).act (engine.wanes_release? _) gone
    exact ⟨rfl, (done.unframed underway.based).congr (add_zero mine), fun frame first second =>
      (early.mono first).trans (late.mono second)⟩
  exact released

/-- What is recorded for something is answered with a reference of its own. -/
theorem Underway.closes_recorded? (source : Handle)
    (underway : outset.Underway rest mine memo before.heap) :
    (Copying.recorded? source : Copying Code Host (Option Value)).Closes memo before
      (fun found later after => later = memo ∧ found = memo.find? source ∧
        outset.Transcript rest memo before.heap ∅ (mine + owned found.toList) memo after.heap)
      fun _ _ => False := by
  refine .memo_bind ?_
  split
  · rename_i copy found
    refine .bind (fun _ later after => later = memo ∧
        outset.Transcript rest memo before.heap ∅ (mine + copy.owns) memo after.heap)
      (.retainValue fun after taken => ⟨rfl, ?_⟩)
      fun _ later after ⟨same, taken⟩ => .pure ⟨same, found.symm, ?_⟩
    · have gained := (underway.congr (add_zero mine).symm).transcribe
        ((Action.Wanes.retainValue copy).frame mine) taken
      exact gained
    · exact taken.congr (by simp)
  · rename_i unrecorded
    exact .pure ⟨rfl, unrecorded.symm, (Transcript.start underway).congr (add_zero mine).symm⟩

namespace Transcript

/-- A copy that is new is recorded for something of which none was recorded at first. -/
theorem closes_memorize (engine : Engine Code Host)
    (transcript : outset.Transcript rest memo start unfinished mine noted before.heap)
    (fresh : memo.find? original = none) (born : start.births place < before.heap.births place)
    (apart : outset.Apart before.heap place) :
    (engine.memorize original (.ref place)).Closes noted before
      (fun _ later after => later = noted.insert original (.ref place) ∧
        outset.Transcript rest memo start (insert original unfinished) mine later after.heap ∧
        ∀ frame ⊆ rest + mine + noted.owns, frame ⊆ rest + mine + later.owns →
          before.heap.Weathers frame after.heap)
      fun _ _ => False := by
  refine (transcript.toUnderway.closes_memorize engine (.ref place) (fun target member => ?_)
    original).imp (fun _ later after done => ?_) fun _ _ => id
  · rw [Multiset.mem_singleton.mp member]
    exact apart
  obtain ⟨rfl, underway, weathers⟩ := done
  have found (other : Handle) := noted.find?_insert original other (.ref place)
  have kept (other : Handle) (copy : Value) (known : memo.find? other = some copy) :
      (noted.insert original (.ref place)).find? other = some copy := by
    have different : other ≠ original := by
      rintro rfl
      rw [fresh] at known
      cases known
    rw [found, if_neg different]
    exact transcript.kept other copy known
  have sub : memo.owns ⊆ (noted.insert original (.ref place)).owns := fun target member => by
    obtain ⟨other, known⟩ := Memo.exists_find? member
    exact Memo.owns_subset_of_find? (kept other _ known) (Multiset.mem_singleton_self target)
  have framed : before.heap.Weathers (rest + memo.owns) after.heap := by
    refine weathers _ (fun target member => ?_) fun target member => ?_
    · have inside : target ∈ memo.owns → target ∈ noted.owns := fun there => transcript.owns_subset there
      simp only [Multiset.mem_add] at member ⊢
      tauto
    · have inside : target ∈ memo.owns → _ := fun there => sub there
      simp only [Multiset.mem_add] at member ⊢
      tauto
  refine ⟨rfl, { underway with
    weathers := transcript.weathers.trans framed
    kept := kept
    made := fun other copy known => ?_ }, weathers⟩
  have recorded := known
  rw [found] at known
  split at known
  · rename_i same
    cases known
    exact Or.inr ⟨place, rfl, born.trans_le (framed.older place),
      fun closed => absurd (Or.inl same) closed⟩
  -- A copy that was finished earlier is in the memo before and after, so it is left as it is.
  · rcases transcript.made other copy known with earlier | ⟨image, rfl, created, finished⟩
    · exact Or.inl earlier
    · have early := Memo.owns_subset_of_find? known (Multiset.mem_singleton_self image)
      have late := Memo.owns_subset_of_find? recorded (Multiset.mem_singleton_self image)
      refine Or.inr ⟨image, rfl, created.trans_le (framed.older image), fun closed => ?_⟩
      refine (finished fun opened => closed (Or.inr opened)).remains
        (transcript.toUnderway.remains_of_weathers
          (weathers {image} (fun target member => ?_) fun target member => ?_)
          (fun target member => ?_) (.of_mem (Multiset.mem_singleton_self image)))
      all_goals
        rw [Multiset.mem_singleton.mp member]
        first
          | exact Multiset.mem_add.mpr (Or.inr early)
          | exact Multiset.mem_add.mpr (Or.inr late)

/-- What is recorded as a copy that turns out to be finished is no longer unfinished. -/
theorem finish {later : Memo} {after : Heap Code}
    (transcript : outset.Transcript rest memo start (insert original unfinished) mine later after)
    (known : later.find? original = some (.ref place))
    (finished : outset.heap.Finished original after place) :
    outset.Transcript rest memo start unfinished mine later after :=
  { transcript with
    made := fun other copy found => (transcript.made other copy found).imp_right
      fun ⟨image, same, born, done⟩ => ⟨image, same, born, fun closed => by
        by_cases here : other = original
        · subst here
          cases same
          cases known.symm.trans found
          exact finished
        · exact done fun member => (Set.mem_insert_iff.mp member).elim here closed⟩ }

end Transcript

/-! ### What is created -/

/-- An entry was created, and nobody else has it. -/
structure Creates (outset : Outset Code) (rest : Multiset Handle) (memo : Memo) (before : Heap Code)
    (payload : Payload Code) (place : Handle) (after : Heap Code) : Prop where
  transcript : outset.Transcript rest memo before ∅ {place} memo after
  born : before.births place < after.births place
  came : outset.heap.births place < after.births place
  held : after.payload? place = some payload
  unreached : ¬ after.Sustained (rest + memo.owns) place

/-- What is paid for before it is created is not created by that. -/
theorem Creates.since {mine : Multiset Handle} {middle after : Heap Code} {payload : Payload Code}
    (creates : outset.Creates rest memo middle payload place after)
    (paid : outset.Transcript rest memo start ∅ mine memo middle) :
    outset.Creates rest memo start payload place after where
  transcript := creates.transcript.since paid
  born := (paid.weathers.older place).trans_lt creates.born
  came := creates.came
  held := creates.held
  unreached := creates.unreached

namespace Underway

/-- What is placed in an empty slot is created. -/
theorem creates_of_admits {heap after : Heap Code} {payload : Payload Code}
    (underway : outset.Underway rest payload.owns memo heap) (admits : heap.Admits payload place after)
    (founded : payload.Founded heap) (unwatched : payload.watchers = [])
    (aimless : payload.target? = none) (quiet : Heap.callbackOf payload = none)
    (apart : ∀ target ∈ owned payload.contents, outset.Apart heap target) :
    outset.Creates rest memo heap payload place after := by
  obtain ⟨done, weathers⟩ := underway.admits admits founded unwatched aimless quiet apart
  have born := Nat.lt_of_lt_of_eq (Nat.lt_succ_self _) admits.born.symm
  refine ⟨{ done with
    weathers := weathers
    kept := fun _ _ found => found
    made := fun _ _ found => Or.inl found }, born, (underway.older place).trans_lt born,
    admits.payload?_here, fun sustained => ?_⟩
  have live := underway.isLive ((weathers.sustained_iff.mp sustained).mono fun target member => by
    rw [add_right_comm]
    exact Multiset.mem_add.mpr (Or.inl member))
  rw [Heap.isLive_eq, admits.empty] at live
  cases live

theorem closes_place {payload : Payload Code} {take : Heap Code → Option Handle × Heap Code}
    (underway : outset.Underway rest payload.owns memo before.heap)
    (admits : before.heap.Admits payload
      ((take before.heap).2.place payload (take before.heap).1).1
      ((take before.heap).2.place payload (take before.heap).1).2)
    (founded : payload.Founded before.heap) (unwatched : payload.watchers = [])
    (aimless : payload.target? = none) (quiet : Heap.callbackOf payload = none)
    (apart : ∀ target ∈ owned payload.contents, outset.Apart before.heap target) :
    Attempt.Closes (do
        let slot ← changeHeap take
        let handle ← changeHeap (·.place payload slot)
        return .ref handle : Attempt Code Host Value) before
      (fun value after => ∃ place, value = .ref place ∧
        outset.Creates rest memo before.heap payload place after.heap) fun _ => False := by
  intro outcome after ended
  obtain ⟨_, _, first, going⟩ := Attempt.act_bind_eq_ok.mp ended
  cases first
  obtain ⟨_, _, second, last⟩ := Attempt.act_bind_eq_ok.mp going
  cases second
  cases last
  exact ⟨_, rfl, underway.creates_of_admits admits founded unwatched aimless quiet apart⟩

/-- A method that is copied is there, with its function. -/
theorem exists_method {handle : Handle} {heap : Heap Code} {whole : Method}
    (underway : outset.Underway rest mine memo heap)
    (sustained : outset.heap.Sustained outset.top.owns handle)
    (found : outset.heap.payload? handle = some (.method whole)) :
    ∃ watchers, heap.payload? handle = some (.method { whole with watchers }) ∧
      heap.Sustained rest whole.function ∧
      ∃ function, heap.payload? whole.function = some (.function function) := by
  obtain ⟨_, _, later, there, held, alike⟩ := underway.remains handle sustained
  cases found.symm.trans there
  cases later <;> simp only [Payload.Alike] at alike
  case method data =>
    have same : data = { whole with watchers := data.watchers } := by rw [← alike]
    rw [same] at held
    obtain ⟨function, made⟩ := underway.calm.sound.exists_function held
    exact ⟨data.watchers, held,
      (underway.sustained sustained).of_owned held List.mem_cons_self, function, made⟩

/-- A payload is allocated or given up. -/
theorem closes_allocate (engine : Engine Code Host) (payload : Payload Code)
    (underway : outset.Underway rest payload.owns memo before.heap) (plain : payload.isPlain = true)
    (unwatched : payload.watchers = []) (aimless : payload.target? = none)
    (quiet : Heap.callbackOf payload = none)
    (apart : ∀ target ∈ owned payload.contents, outset.Apart before.heap target) :
    (engine.allocate payload).Closes before
      (fun value after => ∃ place, value = .ref place ∧
        outset.Creates rest memo before.heap payload place after.heap)
      fun after => outset.Transcript rest memo before.heap ∅ 0 memo after.heap := by
  refine .act fun refusal between charged => ?_
  have paid := underway.transcribe (engine.wanes_charge payload) charged
  cases refusal with
  | some exceeded => exact .refuse paid
  | none =>
    exact (paid.toUnderway.closes_place
      (between.heap.admits_takeFree payload paid.calm.sound.housed)
      (Payload.founded_of_isPlain plain) unwatched aimless quiet fun target member =>
        (apart target member).older (paid.weathers.older target)).imp
      (fun value after ⟨place, same, creates⟩ => ⟨place, same, creates.since paid⟩) fun _ => False.elim

/-- An instance of a class is created with a reference to the class. -/
theorem closes_newInstance (engine : Engine Code Host) (type : Handle)
    (underway : outset.Underway rest 0 memo before.heap) :
    (engine.newInstance (.ref type)).Closes before
      (fun value after => ∃ place, value = .ref place ∧
        outset.Creates rest memo before.heap (newborn type) place after.heap)
      fun after => outset.Transcript rest memo before.heap ∅ 0 memo after.heap := by
  refine .ask fun found asked => ?_
  cases found with
  | none => exact .ask fun _ _ => .refuse (.start underway)
  | some handle =>
    cases (Heap.type?_eq_some asked).1
    refine .act fun _ between taken => ?_
    have paid := underway.transcribe (Action.Wanes.retain type) taken
    exact (paid.toUnderway.closes_allocate engine (newborn type) rfl rfl rfl rfl
      fun _ member => absurd member (Multiset.notMem_zero _)).imp
      (fun value after ⟨place, same, creates⟩ => ⟨place, same, creates.since paid⟩)
      fun after refused => refused.since paid

/-- A method is made of a function that is there. -/
theorem closes_allocateMethod (engine : Engine Code Host) {function : Handle}
    {receiver owner : Option Value} {data : Function Code}
    (underway : outset.Underway rest (owned receiver.toList + owned owner.toList) memo before.heap)
    (wraps : before.heap.payload? function = some (.function data))
    (lasts : before.heap.Sustained (rest + memo.owns) function)
    (grounded : Method.Grounded { function, receiver, owner, watchers := [] })
    (apart : ∀ target ∈ owned receiver.toList, outset.Apart before.heap target) :
    (engine.allocateMethod function receiver owner).Closes before
      (fun value after => ∃ place, value = .ref place ∧ outset.Creates rest memo before.heap
        (.method { function, receiver, owner, watchers := [] }) place after.heap)
      fun after => outset.Transcript rest memo before.heap ∅ 0 memo after.heap := by
  refine .act fun _ between taken => ?_
  have first := underway.transcribe
    (((Action.Wanes.retain function).frame (owned receiver.toList + owned owner.toList)).congr
      (add_zero _)) taken
  let method : Method := { function, receiver, owner, watchers := [] }
  have owns : owned receiver.toList + owned owner.toList + {function} =
      (Payload.method method : Payload Code).owns := by
    rw [Payload.owns_method, Method.parts, owned_append, add_comm]
  have owning := first.congr owns
  refine .act fun refusal last charged => ?_
  have paid := owning.act (engine.wanes_charge (.method method)) charged
  cases refusal with
  | some exceeded => exact .ask fun _ _ => .refuse paid
  | none =>
    have still : last.heap.payload? function = some (.function data) := by
      obtain ⟨_, _, later, held, reached, alike⟩ := underway.remains_of_weathers paid.weathers
        (fun target member => by
          rw [add_right_comm]
          exact Multiset.mem_add.mpr (Or.inl member)) lasts
      cases wraps.symm.trans held
      cases later <;> simp only [Payload.Alike, reduceCtorEq] at alike
      rw [reached, alike]
    exact (paid.toUnderway.closes_place
      (last.heap.admits_takeFreeForMethod (show (Payload.method method : Payload Code).isMethod from rfl)
        paid.calm.sound.housed)
      ⟨⟨data, still⟩, grounded⟩ rfl rfl rfl fun target member =>
        (apart target member).older (paid.weathers.older target)).imp
      (fun value after made => made.imp fun place => And.imp_right fun creates => creates.since paid)
      fun _ => False.elim

end Underway

/-! ### Copies that are being filled -/

/-- In the course of a copy, an entry that is new is recorded for something and for nothing else, and
nobody has it who was there at first. It holds a payload that is still to grow. -/
structure Filling (outset : Outset Code) (rest : Multiset Handle) (memo : Memo) (start : Heap Code)
    (unfinished : Set Handle) (original place : Handle) (mine : Multiset Handle) (later : Memo)
    (after : Heap Code) (payload : Payload Code) : Prop extends
    outset.Transcript rest memo start unfinished mine later after where
  opened : original ∈ unfinished
  known : later.find? original = some (.ref place)
  alone : ∀ other, later.find? other = some (.ref place) → other = original
  born : outset.heap.births place < after.births place
  unreached : ¬ after.Sustained (rest + memo.owns) place
  held : after.payload? place = some payload

/-- A finished copy was made, and is not recorded yet. -/
structure Makes (outset : Outset Code) (rest : Multiset Handle) (memo : Memo) (start : Heap Code)
    (original place : Handle) (later : Memo) (after : Heap Code) : Prop where
  transcript : outset.Transcript rest memo start ∅ {place} later after
  born : start.births place < after.births place
  came : outset.heap.births place < after.births place
  finished : outset.heap.Finished original after place

/-- What is created with all the contents of an original in the same shell is finished. -/
theorem Creates.makes {middle after : Heap Code} {payload source : Payload Code}
    (creates : outset.Creates rest noted middle payload place after)
    (first : outset.Transcript rest memo start ∅ mine noted middle)
    (found : outset.heap.payload? original = some source) (copied : source.shell.isSome)
    (shell : payload.shell = source.shell) (length : payload.contents.length = source.contents.length) :
    outset.Makes rest memo start original place noted after where
  transcript := creates.transcript.since first
  born := (first.weathers.older place).trans_lt creates.born
  came := creates.came
  finished := ⟨source, payload, found, copied, creates.held, shell, length⟩

/-- A method of the same function and owner is made. -/
theorem Transcript.closes_allocateMethod (engine : Engine Code Host) {whole : Method}
    {receiver : Option Value}
    (first : outset.Transcript rest memo start ∅ (owned receiver.toList + owned whole.owner.toList) noted
      before.heap)
    (sustained : outset.heap.Sustained outset.top.owns original)
    (found : outset.heap.payload? original = some (.method whole))
    (length : receiver.toList.length = whole.receiver.toList.length)
    (apart : ∀ target ∈ owned receiver.toList, outset.Apart before.heap target) :
    (engine.allocateMethod whole.function receiver whole.owner).Closes before
      (fun value after => ∃ place, value = .ref place ∧
        outset.Makes rest memo start original place noted after.heap)
      fun after => outset.Transcript rest memo start ∅ 0 noted after.heap := by
  obtain ⟨watchers, held, reached, function, wraps⟩ := first.toUnderway.exists_method sustained found
  have grounded := first.calm.sound.formed.grounded original _ held
  have unbound : receiver = none → whole.receiver = none := by
    rintro rfl
    cases bound : whole.receiver with
    | none => rfl
    | some _ =>
      rw [bound] at length
      cases length
  exact (first.toUnderway.closes_allocateMethod engine wraps
    (reached.mono (Multiset.subset_of_le (Multiset.le_add_right _ _))) (grounded.remade rfl unbound)
    apart).imp
    (fun value after ⟨place, same, creates⟩ => ⟨place, same, creates.makes first found rfl rfl length⟩)
    fun after refused => refused.since first

/-- What was created is recorded, and is to be filled from then on. -/
theorem Creates.closes_memorize (engine : Engine Code Host) {payload : Payload Code}
    (creates : outset.Creates (rest + mine) memo start payload place before.heap)
    (based : outset.top.owns ⊆ rest) (fresh : memo.find? original = none) :
    (engine.memorize original (.ref place)).Closes memo before
      (fun _ later after => ∃ last, payload.Alike last ∧
        outset.Filling rest memo start {original} original place (mine + {place}) later after.heap last)
      fun _ _ => False := by
  have transcript := creates.transcript.unframed based
  refine (transcript.closes_memorize engine fresh creates.born (Or.inl creates.came)).imp
    (fun _ later after done => ?_) fun _ _ => id
  obtain ⟨rfl, noted, weathers⟩ := done
  have inside {target : Handle} (member : target ∈ memo.owns) :
      target ∈ (memo.insert original (.ref place)).owns := noted.owns_subset member
  have framed : before.heap.Weathers (rest + memo.owns) after.heap := by
    refine weathers _ (fun target member => ?_) fun target member => ?_
    all_goals
      have kept : target ∈ memo.owns → _ := fun there => inside there
      simp only [Multiset.mem_add] at member ⊢
      tauto
  have here : before.heap.Weathers {place} after.heap :=
    weathers _ (by simp) (by simp)
  obtain ⟨same, _, last, found, reached, alike⟩ := transcript.toUnderway.remains_of_weathers here
    (by simp) (.of_mem (Multiset.mem_singleton_self place))
  cases creates.held.symm.trans found
  rw [insert_empty_eq] at noted
  refine ⟨last, alike, { noted with
    opened := rfl
    known := by rw [memo.find?_insert, if_pos rfl]
    alone := fun other known => ?_
    born := creates.came.trans_eq same.symm
    unreached := fun sustained => creates.unreached
      ((framed.sustained_iff.mp sustained).mono fun target member => ?_)
    held := reached }⟩
  · rw [memo.find?_insert] at known
    split at known
    · assumption
    · refine absurd (.of_mem (Multiset.mem_add.mpr (Or.inr ?_))) creates.unreached
      exact Memo.owns_subset_of_find? known (Multiset.mem_singleton_self place)
  · simp only [Multiset.mem_add] at member ⊢
    tauto

namespace Filling

variable {more pre : Multiset Handle} {later : Memo} {middle after : Heap Code} {others : Set Handle}
  {payload grown : Payload Code}

theorem congr (filling : outset.Filling rest memo start unfinished original place mine noted middle payload)
    (same : mine = more) :
    outset.Filling rest memo start unfinished original place more noted middle payload := same ▸ filling

/-- What happens beside references that are kept leaves alone what is being filled. -/
theorem trans (filling : outset.Filling rest memo start unfinished original place (mine + pre) noted middle
      payload)
    (second : outset.Transcript (rest + mine) noted middle others more later after) :
    ∃ last, payload.Alike last ∧ outset.Filling rest memo start (unfinished ∪ others) original place
      (mine + more) later after last := by
  have recorded : place ∈ noted.owns :=
    Memo.owns_subset_of_find? filling.known (Multiset.mem_singleton_self place)
  have sustained : middle.Sustained (rest + mine + noted.owns) place :=
    .of_mem (Multiset.mem_add.mpr (Or.inr recorded))
  obtain ⟨same, _, last, found, reached, alike⟩ :=
    second.remains_of_held filling.toUnderway sustained
  cases filling.held.symm.trans found
  refine ⟨last, alike, { filling.toTranscript.trans second with
    opened := Or.inl filling.opened
    known := second.kept original _ filling.known
    alone := fun other known => ?_
    born := filling.born.trans_eq same.symm
    unreached := fun inside => filling.unreached ?_
    held := reached }⟩
  · rcases second.made other _ known with early | ⟨image, same', born, _⟩
    · exact filling.alone other early
    · cases same'
      exact absurd same born.ne'
  · refine (second.weathers.mono fun target member => ?_).sustained_iff.mp inside
    have kept : target ∈ memo.owns → target ∈ noted.owns := fun there => filling.owns_subset there
    simp only [Multiset.mem_add] at member ⊢
    tauto

/-- An action that is no part of the copy leaves alone what is being filled. -/
theorem act {action : Action Code Host α} {mid : α → Multiset Handle} {answer : α}
    {world last : World Code Host}
    (filling : outset.Filling rest memo start unfinished original place pre noted world.heap payload)
    (wanes : action.Wanes pre mid) (ended : action world = .ok (answer, last)) :
    ∃ later, payload.Alike later ∧ outset.Filling rest memo start unfinished original place (mid answer)
      noted last.heap later := by
  have beside : outset.Filling rest memo start unfinished original place (0 + pre) noted world.heap
      payload := filling.congr (zero_add pre).symm
  obtain ⟨later, alike, done⟩ := beside.trans
    (beside.toUnderway.framed.transcribe wanes ended)
  rw [Set.union_empty, zero_add] at done
  exact ⟨later, alike, done⟩

/-- What is being filled takes over something that is apart. -/
theorem store {content : Value}
    (filling : outset.Filling rest memo start unfinished original place (mine + content.owns) noted middle
      payload)
    (grows : payload.Grows grown) (contents : grown.contents = payload.contents ++ [content])
    (taken : grown.owns = payload.owns + content.owns)
    (apart : ∀ target ∈ content.owns, outset.Apart middle target) :
    outset.Filling rest memo start unfinished original place mine noted
      (middle.mapPayload place fun _ => grown) grown := by
  have weathers : middle.Weathers (rest + memo.owns) (middle.mapPayload place fun _ => grown) :=
    .of_mapPayload filling.unreached
  have births (handle : Handle) : (middle.mapPayload place fun _ => grown).births handle = middle.births handle :=
    Heap.births_mapPayload _ _ handle _
  have underway := filling.toUnderway.exchange
    (fun inside => filling.unreached (inside.mono (Multiset.subset_of_le (Multiset.le_add_right _ _))))
    filling.held grows taken fun target member => by
      rw [contents, owned_append, owned_cons, owned_nil, add_zero] at member
      exact (Multiset.mem_add.mp member).elim
        (filling.closed place payload filling.held filling.born target) (apart target)
  refine { underway with
    weathers := filling.weathers.trans weathers
    kept := filling.kept
    made := fun other copy found => (filling.made other copy found).imp_right
      fun ⟨image, same, created, finished⟩ => ⟨image, same, created.trans_eq (births image).symm,
        fun closed => ?_⟩
    opened := filling.opened
    known := filling.known
    alone := filling.alone
    born := filling.born.trans_eq (births place).symm
    unreached := fun inside => filling.unreached (weathers.sustained_iff.mp inside)
    held := by rw [Heap.payload?_grown filling.held, if_pos rfl] }
  obtain ⟨one, two, here, copied, there, shell, length⟩ := finished closed
  refine ⟨one, two, here, copied, ?_, shell, length⟩
  rw [Heap.payload?_grown filling.held, if_neg]
  · exact there
  · rintro rfl
    subst same
    exact closed (filling.alone other found ▸ filling.opened)

/-- What has all the contents of its original in the same shell is filled. -/
theorem finish {source : Payload Code}
    (filling : outset.Filling rest memo start {original} original place mine later after payload)
    (found : outset.heap.payload? original = some source) (copied : source.shell.isSome)
    (shell : payload.shell = source.shell) (length : payload.contents.length = source.contents.length) :
    outset.Transcript rest memo start ∅ mine later after := by
  have transcript := filling.toTranscript
  rw [← insert_empty_eq] at transcript
  exact transcript.finish filling.known ⟨source, payload, found, copied, filling.held, shell, length⟩

end Filling

end Outset

end ObjectHeap
