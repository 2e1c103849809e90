/-
This file follows a deep copy through all its levels in a heap without callbacks, as long as no class
has a say in it, and to either end. A copy that succeeds has finished all that it recorded. A copy
that fails stopped on a way from the value: it has finished all that it recorded, but for the lists
and instances on that way, which were recorded before their contents were copied, and lack those at
which it stopped and all that come after.
-/

import ObjectHeap.Proofs.Transcripts

namespace ObjectHeap

variable {Code Host α β : Type}

/-! ### Ways from what is in a container -/

/-- A way from what is in a container continues one from the container. -/
theorem Heap.Way.under {heap : Heap Code} {value : Value} {way : List Handle} {handle : Handle}
    {payload : Payload Code} (leads : heap.Way value way) (found : heap.payload? handle = some payload)
    (member : value ∈ payload.contents) : heap.Way (.ref handle) (way ++ [handle]) := by
  induction leads with
  | root same => exact .step (.root rfl) ⟨payload, found, same ▸ member⟩
  | step _ contains inductionHypothesis => exact .step inductionHypothesis contains

namespace Outset

variable {outset : Outset Code} {rest mine : Multiset Handle} {memo noted : Memo} {start : Heap Code}
  {before : World Code Host} {unfinished : Set Handle} {original place : Handle}

/-! ### What copies come to -/

/-- The copies of the lists and instances on a way that are recorded are half made. -/
def Halves (outset : Outset Code) (way : List Handle) (memo : Memo) (heap : Heap Code) : Prop :=
  ∀ original ∈ outset.heap.fillsOf way, ∀ copy, memo.find? original = some copy →
    ∃ place, copy = .ref place ∧ outset.heap.HalfMade original heap place

theorem Halves.act {way : List Handle} {pre : Multiset Handle} {action : Action Code Host α}
    {mid : α → Multiset Handle} {answer : α} {world last : World Code Host}
    (halves : outset.Halves way memo world.heap) (underway : outset.Underway rest pre memo world.heap)
    (wanes : action.Wanes pre mid) (ended : action world = .ok (answer, last)) :
    outset.Halves way memo last.heap := by
  intro original member copy found
  obtain ⟨place, rfl, half⟩ := halves original member copy found
  have recorded := Memo.owns_subset_of_find? found (Multiset.mem_singleton_self place)
  refine ⟨place, rfl, half.remains (underway.remains_of_weathers (underway.act wanes ended).2
    (fun target member => ?_) (.of_mem (Multiset.mem_add.mpr (Or.inr recorded))))⟩
  simp only [Multiset.mem_add] at member ⊢
  tauto

/-- A copy of a value was made. It is what is recorded for the value, or the value itself if that is
no container. -/
structure Copied (outset : Outset Code) (rest : Multiset Handle) (memo : Memo) (start : Heap Code)
    (value copied : Value) (later : Memo) (after : Heap Code) : Prop extends
    outset.Transcript rest memo start ∅ copied.owns later after where
  apart : ∀ target ∈ copied.owns, outset.Apart after target
  settled : (∃ handle, value = .ref handle ∧ later.find? handle = some copied) ∨
    copied = value ∧ ∀ handle payload, value = .ref handle →
      outset.heap.payload? handle = some payload → payload.shell = none

/-- A copy of a value failed on the way. -/
structure Halted (outset : Outset Code) (rest : Multiset Handle) (memo : Memo) (start : Heap Code)
    (value : Value) (way : List Handle) (mine : Multiset Handle) (later : Memo) (after : Heap Code) :
    Prop extends outset.Transcript rest memo start (outset.heap.fillsOf way) mine later after where
  leads : outset.heap.Way value way
  halves : outset.Halves way later after

/-- What was being filled is abandoned with fewer contents than its original has, because one of these
was not copied. -/
def Abandons (outset : Outset Code) (rest : Multiset Handle) (memo : Memo) (start : Heap Code)
    (original place : Handle) (source : Payload Code) (later : Memo) (after : Heap Code) : Prop :=
  ∃ item ∈ source.contents, ∃ way last, outset.heap.Way item way ∧ outset.Halves way later after ∧
    outset.Filling rest memo start ({original} ∪ outset.heap.fillsOf way) original place 0 later after last ∧
    last.kind = source.kind ∧ last.contents.length < source.contents.length

/-- A copy that is abandoned stopped on a way from its original. -/
theorem Abandons.exists_halted {source : Payload Code} {shell : Shell} {later : Memo} {after : Heap Code}
    (abandons : outset.Abandons rest memo start original place source later after)
    (found : outset.heap.payload? original = some source) (copied : source.shell = some shell)
    (fills : shell.fills) :
    ∃ way, outset.Halted rest memo start (.ref original) way 0 later after := by
  obtain ⟨item, member, way, last, leads, halves, filling, kind, fewer⟩ := abandons
  refine ⟨way ++ [original], { filling.toTranscript.mono ?_ with
    leads := leads.under found member
    halves := ?_ }⟩
  · rintro other (rfl | ⟨inside, fills⟩)
    · exact ⟨List.mem_append_right _ List.mem_cons_self, source, shell, found, copied, fills⟩
    · exact ⟨List.mem_append_left _ inside, fills⟩
  · rintro other ⟨inside, there⟩ copy known
    rcases List.mem_append.mp inside with inside | last
    · exact halves other ⟨inside, there⟩ copy known
    · cases List.mem_singleton.mp last
      cases filling.known.symm.trans known
      exact ⟨place, rfl, source, _, found, filling.held, kind, fewer⟩

/-- A copy that has recorded nothing for a list or an instance failed there. -/
theorem Transcript.halt {handle : Handle} {later : Memo} {after : Heap Code}
    (transcript : outset.Transcript rest memo start ∅ 0 later after)
    (unrecorded : ∀ original ∈ outset.heap.fillsOf [handle], later.find? original = none) :
    outset.Halted rest memo start (.ref handle) [handle] 0 later after :=
  { transcript.mono (Set.empty_subset _) with
    leads := .root rfl
    halves := fun original member copy found => by
      rw [unrecorded original member] at found
      cases found }

/-- A copy of a tuple or a method that cannot be made failed there. -/
theorem Transcript.halt_of_unfilled {handle : Handle} {later : Memo} {after : Heap Code}
    {payload : Payload Code} {shell : Shell}
    (transcript : outset.Transcript rest memo start ∅ 0 later after)
    (found : outset.heap.payload? handle = some payload) (copied : payload.shell = some shell)
    (unfilled : shell.fills = false) :
    outset.Halted rest memo start (.ref handle) [handle] 0 later after := by
  refine transcript.halt ?_
  rintro original ⟨member, other, kept, held, shelled, fills⟩
  cases List.mem_singleton.mp member
  cases found.symm.trans held
  cases copied.symm.trans shelled
  exact Bool.noConfusion (unfilled.symm.trans fills)

namespace Halted

variable {value : Value} {way : List Handle} {more pre : Multiset Handle} {later : Memo}
  {middle after : Heap Code}

theorem congr (halted : outset.Halted rest memo start value way mine later after) (same : mine = more) :
    outset.Halted rest memo start value way more later after := same ▸ halted

theorem unframed (halted : outset.Halted (rest + mine) memo start value way more later after)
    (based : outset.top.owns ⊆ rest) :
    outset.Halted rest memo start value way (mine + more) later after :=
  { halted with toTranscript := halted.toTranscript.unframed based }

theorem act {action : Action Code Host α} {mid : α → Multiset Handle} {answer : α}
    {world last : World Code Host} (halted : outset.Halted rest memo start value way pre later world.heap)
    (wanes : action.Wanes pre mid) (ended : action world = .ok (answer, last)) :
    outset.Halted rest memo start value way (mid answer) later last.heap :=
  { halted.toTranscript.act wanes ended with
    leads := halted.leads
    halves := halted.halves.act halted.toUnderway wanes ended }

/-- What fails after something was copied failed from the beginning. -/
theorem since (halted : outset.Halted rest noted middle value way more later after)
    (first : outset.Transcript rest memo start ∅ mine noted middle) :
    outset.Halted rest memo start value way more later after :=
  { halted.toTranscript.since first with
    leads := halted.leads
    halves := halted.halves }

/-- What fails for what is in a tuple or a method fails for that. -/
theorem under {handle : Handle} {payload : Payload Code} {shell : Shell}
    (halted : outset.Halted rest memo start value way mine later after)
    (found : outset.heap.payload? handle = some payload) (member : value ∈ payload.contents)
    (copied : payload.shell = some shell) (unfilled : shell.fills = false) :
    outset.Halted rest memo start (.ref handle) (way ++ [handle]) mine later after := by
  have same (original : Handle) (there : original ∈ outset.heap.fillsOf (way ++ [handle])) :
      original ∈ outset.heap.fillsOf way := by
    obtain ⟨inside, other, kept, held, shelled, fills⟩ := there
    refine ⟨(List.mem_append.mp inside).resolve_right fun last => ?_, other, kept, held, shelled, fills⟩
    cases List.mem_singleton.mp last
    cases found.symm.trans held
    cases copied.symm.trans shelled
    exact Bool.noConfusion (unfilled.symm.trans fills)
  refine { halted.toTranscript.mono fun original there => ?_ with
    leads := halted.leads.under found member
    halves := fun original there => halted.halves original (same original there) }
  exact ⟨List.mem_append_left _ there.1, there.2⟩

end Halted

/-- Whatever copies a value comes to one of these, if the value is held by others and is part of what
is copied. -/
def Copies (outset : Outset Code) (copy : Value → Copying Code Host Value) : Prop :=
  ∀ rest memo before value, outset.Underway rest 0 memo before.heap → value.owns ⊆ rest →
    (∀ handle, value = .ref handle → outset.heap.Reaches outset.top handle) →
    (copy value).Closes memo before
      (fun copied later after => outset.Copied rest memo before.heap value copied later after.heap)
      fun later after => ∃ way, outset.Halted rest memo before.heap value way 0 later after.heap

/-- A finished copy is recorded. -/
theorem Makes.closes_memorize (engine : Engine Code Host)
    (makes : outset.Makes rest memo start original place noted before.heap)
    (fresh : memo.find? original = none) :
    (engine.memorize original (.ref place)).Closes noted before
      (fun _ later after =>
        outset.Copied rest memo start (.ref original) (.ref place) later after.heap)
      fun _ _ => False := by
  refine (makes.transcript.closes_memorize engine fresh makes.born (Or.inl makes.came)).imp
    (fun _ later after ⟨same, recorded, weathers⟩ => ?_) fun _ _ => id
  have here : before.heap.Weathers {place} after.heap := weathers _ (by simp) (by simp)
  have remains := makes.transcript.toUnderway.remains_of_weathers here (by simp)
    (.of_mem (Multiset.mem_singleton_self place))
  have known : later.find? original = some (.ref place) := by
    rw [same, noted.find?_insert, if_pos rfl]
  exact { recorded.finish known (makes.finished.remains remains) with
    apart := fun target member => Multiset.mem_singleton.mp member ▸
      Or.inl (makes.came.trans_eq remains.1.symm)
    settled := Or.inl ⟨original, rfl, known⟩ }

namespace Copies

variable (engine : Engine Code Host) {copy : Value → Copying Code Host Value}

/-- What is copied is held until then. -/
theorem held (copies : outset.Copies copy) {item : Value}
    (underway : outset.Underway rest item.owns memo before.heap)
    (comes : ∀ handle, item = .ref handle → outset.heap.Reaches outset.top handle) :
    ((copy item).ensuring (engine.release item)).Closes memo before
      (fun copied later after => outset.Copied rest memo before.heap item copied later after.heap)
      fun later after => ∃ way, outset.Halted rest memo before.heap item way 0 later after.heap := by
  have ends := copies (rest + item.owns) memo before item
    (underway.congr (add_zero _).symm).framed (fun _ member => Multiset.mem_add.mpr (Or.inr member)) comes
  refine ends.ensuring (fun copied later between after done released => ?_)
    fun later between after ⟨way, halted⟩ released => ?_
  · have owning := (done.toTranscript.unframed underway.based).congr (add_comm _ _)
    have last := owning.act ((engine.wanes_release item).spend copied.owns) released
    refine { last with
      apart := fun target member => (done.apart target member).older ?_
      settled := done.settled }
    exact (owning.toUnderway.act ((engine.wanes_release item).spend copied.owns) released).2.older target
  · have last := ((halted.unframed underway.based).congr (add_zero _)).act
      (engine.wanes_release item) released
    exact ⟨way, last⟩

section

variable (copies : outset.Copies copy) {noted : Memo}

include copies

/-- One of the contents is copied and stored, or what was being filled is abandoned. -/
theorem stores (source : Payload Code) (good : Payload Code → Prop)
    {store : Value → Attempt Code Host Unit} {item : Value} {left : List Value} {payload : Payload Code}
    (filling : outset.Filling rest memo start {original} original place ({place} + owned (item :: left))
      noted before.heap payload)
    (kind : payload.kind = source.kind) (fewer : payload.contents.length < source.contents.length)
    (member : item ∈ source.contents)
    (comes : ∀ handle, item = .ref handle → outset.heap.Reaches outset.top handle)
    (stored : ∀ content last (world : World Code Host), payload.Alike last →
      world.heap.payload? place = some last → ∃ grown, good grown ∧ last.Grows grown ∧
        grown.contents = last.contents ++ [content] ∧ grown.owns = last.owns + content.owns ∧
        (store content).run world = .ok (.ok (), { world with
          heap := world.heap.mapPayload place fun _ => grown })) :
    Copying.Closes (Copying.onError (do
        let copied ← (copy item).ensuring (engine.release item)
        store copied : Copying Code Host Unit) (do
        engine.releaseList left
        engine.release (.ref place))) noted before
      (fun _ later after => ∃ grown, good grown ∧ outset.Filling rest memo start {original} original
        place ({place} + owned left) later after.heap grown)
      fun later after => outset.Abandons rest memo start original place source later after.heap := by
  have owning := filling.congr (show _ = {place} + owned left + item.owns by rw [owned_cons]; abel)
  refine .onError (fun later after => ∃ way last, outset.heap.Way item way ∧
      outset.Halves way later after.heap ∧ payload.Alike last ∧
      outset.Filling rest memo start ({original} ∪ outset.heap.fillsOf way) original place
        ({place} + owned left) later after.heap last)
    (.bind _ ((copies.held engine owning.toUnderway.framed comes).imp_bad
      fun later after ⟨way, halted⟩ => ?_) fun content later between copied => ?_)
    fun later between after ⟨way, last, leads, halves, alike, broken⟩ ended => ?_
  · obtain ⟨last, alike, broken⟩ := owning.trans halted.toTranscript
    exact ⟨way, last, halted.leads, halted.halves, alike, broken.congr (add_zero _)⟩
  · obtain ⟨last, alike, still⟩ := owning.trans copied.toTranscript
    rw [Set.union_empty] at still
    obtain ⟨grown, granted, grows, contents, owns, ran⟩ := stored content last between alike still.held
    exact .ofAttempt (.of_ok ran ⟨grown, granted, still.store grows contents owns copied.apart⟩)
  · have gone : (do
        engine.releaseList left
        engine.release (.ref place) : Action Code Host Unit).Wanes ({place} + owned left) fun _ => 0 :=
      .bind ((engine.wanes_releaseList left).spend {place}) fun _ => engine.wanes_release (.ref place)
    obtain ⟨final, unchanged, rest⟩ := broken.act gone ended
    have same := alike.trans unchanged
    exact ⟨item, member, way, final, leads, halves.act broken.toUnderway gone ended, rest,
      same.continues.kind.trans kind, by rwa [same.contents]⟩

/-- The items that are left are copied into a list that is new, or it is abandoned. -/
theorem into (source : Payload Code) {items done : List Value}
    (filling : outset.Filling rest memo start {original} original place ({place} + owned items) noted
      before.heap (.list done))
    (kind : source.kind = .list) (length : source.contents.length = done.length + items.length)
    (sub : ∀ item ∈ items, item ∈ source.contents)
    (comes : ∀ handle, .ref handle ∈ items → outset.heap.Reaches outset.top handle) :
    (engine.copyInto copy (.ref place) items).Closes noted before
      (fun _ later after => ∃ copied, copied.length = source.contents.length ∧
        outset.Filling rest memo start {original} original place {place} later after.heap (.list copied))
      fun later after => outset.Abandons rest memo start original place source later after.heap := by
  induction items generalizing done noted before with
  | nil => exact .pure ⟨done, length.symm, filling.congr (add_zero _)⟩
  | cons item items inductionHypothesis =>
    -- Only a list that is complete was filled; one that is given up on the way is abandoned.
    refine .bind _ (copies.stores engine source (fun grown => ∃ content, grown = .list (done ++ [content]))
      filling kind.symm ?_ (sub item List.mem_cons_self)
      (fun handle same => comes handle (same ▸ List.mem_cons_self))
      fun content last world alike held => ?_) fun _ later between ⟨grown, ⟨content, same⟩, stored⟩ => ?_
    · rw [length, List.length_cons]
      exact Nat.lt_add_of_pos_right (Nat.succ_pos _)
    · cases alike.list
      refine ⟨.list (done ++ [content]), ⟨content, rfl⟩, .list done content, rfl, ?_,
        engine.append_list content held⟩
      rw [Payload.owns_list, Payload.owns_list, owned_append, owned_cons, owned_nil, add_zero]
    · subst same
      refine inductionHypothesis stored ?_ (fun item member => sub item (List.mem_cons_of_mem _ member))
        fun handle member => comes handle (List.mem_cons_of_mem _ member)
      rw [length, List.length_cons, List.length_append, List.length_singleton]
      omega

/-- A list is copied. -/
theorem list {handle : Handle} {items : List Value}
    (underway : outset.Underway rest (owned items) memo before.heap)
    (found : outset.heap.payload? handle = some (.list items))
    (reaches : outset.heap.Reaches outset.top handle) (fresh : memo.find? handle = none) :
    (engine.copyList copy handle items).Closes memo before
      (fun copied later after => outset.Copied rest memo before.heap (.ref handle) copied later after.heap)
      fun later after => ∃ way, outset.Halted rest memo before.heap (.ref handle) way 0 later after.heap := by
  have opening := (underway.congr (add_zero _).symm).framed
  have created := (opening.closes_allocate engine (.list []) rfl rfl rfl rfl
    fun _ member => absurd member (Multiset.notMem_zero _))
  refine .bind (fun value later after => later = memo ∧ ∃ place, value = .ref place ∧
      outset.Creates (rest + owned items) memo before.heap (.list []) place after.heap)
    (.onError (fun later after => later = memo ∧
      outset.Transcript (rest + owned items) memo before.heap ∅ 0 memo after.heap)
    (.ofAttempt (created.imp (fun _ _ made => ⟨rfl, made⟩) fun _ refused => ⟨rfl, refused⟩))
    fun later between after ⟨same, refused⟩ ended => ?_)
    fun value noted between made => ?_
  · subst same
    have gone := ((refused.unframed underway.based).congr (add_zero _)).act
      (engine.wanes_releaseList items) ended
    exact ⟨[handle], gone.halt fun original member => (List.mem_singleton.mp member.1) ▸ fresh⟩
  · obtain ⟨rfl, place, rfl, creates⟩ := made
    refine .bind _ (creates.closes_memorize engine underway.based fresh).sure
      fun _ noted between ⟨last, alike, filling⟩ => ?_
    cases alike.list
    refine .bind _ ((copies.into engine (.list items) (filling.congr (add_comm _ _)) rfl
      (zero_add _).symm (fun _ member => member)
      fun target member => reaches.step ⟨_, found, member⟩).imp_bad
      fun later after abandons => abandons.exists_halted found rfl rfl)
      fun _ later after ⟨copied, length, filled⟩ => .pure ?_
    exact { filled.finish found rfl rfl length with
      apart := fun target member => Multiset.mem_singleton.mp member ▸ Or.inl filled.born
      settled := Or.inl ⟨handle, rfl, filled.known⟩ }

/-- The items that are left are copied, while the copies that were made before are held. -/
theorem items (done : List Value) {items : List Value}
    (underway : outset.Underway rest (owned done + owned items) memo before.heap)
    (apart : ∀ target ∈ owned done, outset.Apart before.heap target)
    (comes : ∀ handle, .ref handle ∈ items → outset.heap.Reaches outset.top handle) :
    (engine.copyItems copy done items).Closes memo before
      (fun copied later after => copied.length = done.length + items.length ∧
        outset.Transcript rest memo before.heap ∅ (owned copied) later after.heap ∧
        ∀ target ∈ owned copied, outset.Apart after.heap target)
      fun later after => ∃ item ∈ items, ∃ way,
        outset.Halted rest memo before.heap item way 0 later after.heap := by
  induction items generalizing done memo before with
  | nil => exact .pure ⟨rfl, (Transcript.start underway).congr (add_zero _), apart⟩
  | cons item items inductionHypothesis =>
    have owning := underway.congr
      (show _ = owned done + owned items + item.owns by rw [owned_cons]; abel)
    -- On a failure, what is left of the items is given up, and then the copies.
    have gone : (do
        engine.releaseList items
        engine.releaseList done : Action Code Host Unit).Wanes (owned done + owned items) fun _ => 0 :=
      .bind ((engine.wanes_releaseList items).spend (owned done)) fun _ => engine.wanes_releaseList done
    refine .bind _ (.onError _ (copies.held engine owning.framed
      fun handle same => comes handle (same ▸ List.mem_cons_self))
      fun later between after ⟨way, halted⟩ ended => ?_) fun content noted between copied => ?_
    · have last := ((halted.unframed underway.based).congr (add_zero _)).act gone ended
      exact ⟨item, List.mem_cons_self, way, last⟩
    · have first := (copied.toTranscript.unframed underway.based).congr
        (show _ = owned (done ++ [content]) + owned items by
          rw [owned_append, owned_cons, owned_nil]
          abel)
      refine (inductionHypothesis _ first.toUnderway (fun target member => ?_)
        fun handle member => comes handle (List.mem_cons_of_mem _ member)).imp
        (fun values later after ⟨length, last, separate⟩ => ⟨?_, ?_, separate⟩)
        fun later after ⟨other, member, way, halted⟩ =>
          ⟨other, List.mem_cons_of_mem _ member, way, halted.since first⟩
      · rw [owned_append, owned_cons, owned_nil, add_zero] at member
        exact (Multiset.mem_add.mp member).elim
          (fun there => (apart target there).older (first.weathers.older target)) (copied.apart target)
      · rw [length, List.length_append]
        simp only [List.length_cons, List.length_nil]
        omega
      · exact last.since first

/-- A tuple is copied, unless its items lead back to it, so that it was copied on the way. -/
theorem tuple {handle : Handle} {items : List Value}
    (underway : outset.Underway rest (owned items) memo before.heap)
    (found : outset.heap.payload? handle = some (.tuple items))
    (reaches : outset.heap.Reaches outset.top handle) (fresh : memo.find? handle = none) :
    (engine.copyTuple copy handle items).Closes memo before
      (fun copied later after => outset.Copied rest memo before.heap (.ref handle) copied later after.heap)
      fun later after => ∃ way,
        outset.Halted rest memo before.heap (.ref handle) way 0 later after.heap := by
  refine .bind _ ((copies.items engine [] (underway.congr (zero_add _).symm)
    (fun _ member => absurd member (Multiset.notMem_zero _))
    fun target member => reaches.step ⟨_, found, member⟩).imp_bad
    fun later after ⟨item, member, way, halted⟩ => ⟨_, halted.under found member rfl rfl⟩)
    fun values noted between ⟨length, first, apart⟩ => ?_
  refine .bind _ (first.toUnderway.closes_recorded? handle).sure fun existing later middle looked => ?_
  obtain ⟨rfl, known, taken⟩ := looked
  have owning := taken.since first
  cases existing with
  | some copy =>
    have held := owning.congr (show _ = copy.owns + owned values by simp [add_comm])
    refine .bind (fun _ noted after => noted = later ∧
        outset.Transcript rest memo before.heap ∅ copy.owns later after.heap)
      (.ofAction fun _ after released => ?_) fun _ noted after ⟨same, done⟩ => .pure ?_
    · have left := held.act ((engine.wanes_releaseList values).spend copy.owns) released
      exact ⟨rfl, left⟩
    · subst same
      exact { done with
        apart := fun target member =>
          done.recorded target (Memo.owns_subset_of_find? known.symm member)
        settled := Or.inl ⟨handle, rfl, known.symm⟩ }
  | none =>
    have held := owning.congr (show _ = owned values by simp)
    have allocates := held.toUnderway.closes_allocate engine (.tuple values) rfl rfl rfl rfl
      fun target member => (apart target member).older (taken.weathers.older target)
    refine .bind (fun value noted after => noted = later ∧ ∃ place, value = .ref place ∧
        outset.Creates rest later middle.heap (.tuple values) place after.heap)
      (.ofAttempt (allocates.imp (fun _ _ made => ⟨rfl, made⟩) fun after refused => ?_))
      fun value noted created made => ?_
    · exact ⟨[handle], (refused.since owning).halt_of_unfilled found rfl rfl⟩
    · obtain ⟨rfl, place, rfl, creates⟩ := made
      have makes := creates.makes owning found rfl rfl (length.trans (zero_add _))
      exact .bind _ (makes.closes_memorize engine fresh).sure fun _ _ _ copied => .pure copied

/-- The attributes that are left are copied to an instance that is new, or it is abandoned. -/
theorem attributes {entries sources : List (String × Value)} {data whole : Instance}
    (filling : outset.Filling rest memo start {original} original place
      ({place} + owned (entries.map Prod.snd)) noted before.heap (.object data))
    (all : whole.attributes.entries = sources ++ entries)
    (names : data.attributes.entries.map Prod.fst = sources.map Prod.fst)
    (comes : ∀ handle, .ref handle ∈ entries.map Prod.snd → outset.heap.Reaches outset.top handle) :
    (engine.copyAttributes copy (.ref place) entries).Closes noted before
      (fun _ later after => ∃ made : Instance, made.type = data.type ∧
        made.attributes.entries.map Prod.fst = whole.attributes.entries.map Prod.fst ∧
        outset.Filling rest memo start {original} original place {place} later after.heap (.object made))
      fun later after => outset.Abandons rest memo start original place (.object whole) later after.heap := by
  -- The names that the new instance has so far are those of the sources.
  induction entries generalizing data sources noted before with
  | nil =>
    refine .pure ⟨data, rfl, ?_, filling.congr (add_zero _)⟩
    rw [names, all, List.append_nil]
  | cons entry entries inductionHypothesis =>
    obtain ⟨name, value⟩ := entry
    have size : data.attributes.values.length = sources.length := by
      rw [Attributes.values, List.length_map, ← List.length_map (f := Prod.fst), names, List.length_map]
    have fresh (other : Instance) (same : other.attributes = data.attributes) :
        name ∉ other.attributes.entries.map Prod.fst := by
      have distinct := whole.attributes.distinct
      rw [all, List.map_append, List.map_cons] at distinct
      rw [same, names]
      exact fun member => (List.disjoint_of_nodup_append distinct) member List.mem_cons_self
    refine .bind _ (copies.stores engine (.object whole) (fun grown => ∃ made : Instance,
        grown = .object made ∧ made.type = data.type ∧
          made.attributes.entries.map Prod.fst = (sources ++ [(name, value)]).map Prod.fst)
      filling rfl ?_ ?_ (fun handle same => comes handle (same ▸ List.mem_cons_self))
      fun content last world alike held => ?_) fun _ later between stored => ?_
    · show data.attributes.values.length < whole.attributes.values.length
      rw [size, Attributes.values, List.length_map, all, List.length_append, List.length_cons]
      exact Nat.lt_add_of_pos_right (Nat.succ_pos _)
    · refine List.mem_map.mpr ⟨(name, value), ?_, rfl⟩
      rw [all]
      exact List.mem_append_right _ List.mem_cons_self
    · obtain ⟨other, rfl, type, same⟩ := alike.object
      have absent := fresh other same
      have entriesOf := Attributes.entries_insert_of_not_mem content absent
      refine ⟨.object { other with attributes := other.attributes.insert name content },
        ⟨_, rfl, type, ?_⟩, .object other name content, ?_,
        Payload.owns_insert_of_not_mem content absent, engine.setAttribute_object content held absent⟩
      · rw [entriesOf, same, List.map_append, names, List.map_append]
        rfl
      · show (other.attributes.insert name content).values = other.attributes.values ++ [content]
        rw [Attributes.values, entriesOf, List.map_append]
        rfl
    · obtain ⟨_, ⟨made, rfl, type, longer⟩, stored⟩ := stored
      refine (inductionHypothesis stored (by rw [all, List.append_assoc]; rfl) longer
        fun handle member => comes handle (List.mem_cons_of_mem _ member)).imp
        (fun _ later after filled => ?_) fun _ _ => id
      obtain ⟨last, same, filled⟩ := filled
      exact ⟨last, same.trans type, filled⟩

omit copies in
/-- The attributes of what is copied are retained, while the copy stays as it is. -/
theorem closes_retainAttributes {handle : Handle} {whole new : Instance}
    (filling : outset.Filling rest memo start {handle} handle place {place} noted before.heap
      (.object new))
    (found : outset.heap.payload? handle = some (.object whole))
    (reaches : outset.heap.Reaches outset.top handle) :
    (Copying.retainAttributes handle).Closes noted before
      (fun entries later after => entries = whole.attributes.entries ∧ ∃ bare : Instance,
        bare.type = new.type ∧ bare.attributes = new.attributes ∧
        outset.Filling rest memo start {handle} handle place
          ({place} + owned (whole.attributes.entries.map Prod.snd)) later after.heap (.object bare))
      fun _ _ => False := by
  obtain ⟨_, _, _, there, still, same⟩ := filling.remains handle reaches.sustained
  cases found.symm.trans there
  obtain ⟨other, rfl, _, attributes⟩ := same.object
  refine .ask fun payload read => ?_
  cases still.symm.trans (before.heap.read_eq_ok.mp read)
  refine .bind (fun _ later after => later = noted ∧ ∃ payload, (Payload.object new).Alike payload ∧
      outset.Filling rest memo start {handle} handle place ({place} + owned other.attributes.values)
        noted after.heap payload)
    (.ofAction fun _ later retained => ?_) fun _ later after ⟨same, payload, alike, gained⟩ => .pure ?_
  · have taking := (@Action.Wanes.retainAll Code Host other.attributes.values).frame {place}
    have gained := (filling.congr (add_zero _).symm).act taking retained
    exact ⟨rfl, gained⟩
  · subst same
    obtain ⟨bare, rfl, type, empty⟩ := alike.object
    rw [attributes] at gained ⊢
    exact ⟨rfl, bare, type, empty, gained⟩

/-- An instance whose class has no say in it is copied attribute by attribute. -/
theorem object {handle : Handle} {data whole : Instance}
    (underway : outset.Underway rest 0 memo before.heap)
    (found : outset.heap.payload? handle = some (.object whole))
    (held : before.heap.payload? handle = some (.object data))
    (reaches : outset.heap.Reaches outset.top handle) (fresh : memo.find? handle = none)
    (plain : ∀ function, before.heap.special? (.ref handle) "__deepcopy__" ≠ .ok (some function)) :
    (engine.copyInstance copy (.ref handle) handle data.type).Closes memo before
      (fun copied later after => outset.Copied rest memo before.heap (.ref handle) copied later after.heap)
      fun later after => ∃ way,
        outset.Halted rest memo before.heap (.ref handle) way 0 later after.heap := by
  obtain ⟨_, _, _, there, here, alike⟩ := underway.remains handle reaches.sustained
  cases found.symm.trans there
  cases held.symm.trans here
  obtain ⟨_, same, sameType, _⟩ := alike.object
  cases same
  refine .ask fun special asked => ?_
  -- The class has no say, so the instance is created empty and filled.
  cases special with
  | some function => exact absurd asked (plain function)
  | none => ?_
  have creating := underway.closes_newInstance engine data.type
  refine .bind (fun value later after => later = memo ∧ ∃ place, value = .ref place ∧
      outset.Creates rest memo before.heap (newborn data.type) place after.heap)
    (.ofAttempt (creating.imp (fun _ _ made => ⟨rfl, made⟩) fun after refused => ?_))
    fun value noted created made => ?_
  · exact ⟨[handle], refused.halt fun original member => (List.mem_singleton.mp member.1) ▸ fresh⟩
  · obtain ⟨rfl, place, rfl, creates⟩ := made
    have alone : outset.Creates (rest + 0) noted before.heap (newborn data.type) place created.heap := by
      rw [add_zero]
      exact creates
    refine .bind _ (alone.closes_memorize engine underway.based fresh).sure
      fun _ last after ⟨payload, alike, filling⟩ => ?_
    obtain ⟨new, rfl, newType, empty⟩ := alike.object
    refine .bind _ (closes_retainAttributes filling found reaches).sure
      fun entries gained taken ⟨same, bare, bareType, nothing, filling⟩ => ?_
    subst same
    have none : bare.attributes.entries.map Prod.fst = ([] : List (String × Value)).map Prod.fst := by
      rw [nothing, empty]
      rfl
    refine .bind _ ((copies.attributes engine filling (List.nil_append _).symm none
      fun target member => reaches.step ⟨_, found, member⟩).imp_bad
      fun later after abandons => abandons.exists_halted found rfl rfl)
      fun _ later after ⟨made, type, names, filled⟩ => .pure ?_
    have shell : (Payload.object made : Payload Code).shell =
        (Payload.object whole : Payload Code).shell := by
      rw [Payload.shell, Payload.shell, names, type, bareType, newType, sameType]
    have length : made.attributes.values.length = whole.attributes.values.length := by
      rw [Attributes.values, Attributes.values, List.length_map, List.length_map,
        ← List.length_map (f := Prod.fst), names, List.length_map]
    exact { filled.finish found rfl shell length with
      apart := fun target member => Multiset.mem_singleton.mp member ▸ Or.inl filled.born
      settled := Or.inl ⟨handle, rfl, filled.known⟩ }

/-- A method is copied with its receiver. -/
theorem method {handle : Handle} {whole : Method}
    (underway : outset.Underway rest 0 memo before.heap)
    (found : outset.heap.payload? handle = some (.method whole))
    (reaches : outset.heap.Reaches outset.top handle) :
    (engine.copyMethod copy handle).Closes memo before
      (fun value later after => ∃ place, value = .ref place ∧
        outset.Makes rest memo before.heap handle place later after.heap)
      fun later after => ∃ way,
        outset.Halted rest memo before.heap (.ref handle) way 0 later after.heap := by
  obtain ⟨watchers, held, _⟩ := underway.exists_method reaches.sustained found
  refine .ask fun data asked => ?_
  cases held.symm.trans (Heap.method_eq_ok.mp asked)
  refine .bind (fun _ later after => later = memo ∧ outset.Transcript rest memo before.heap ∅
      (owned whole.receiver.toList + owned whole.owner.toList) memo after.heap)
    (.ofAction fun _ after retained => ?_) fun _ noted between ⟨same, taken⟩ => ?_
  · have gained := underway.transcribe (Action.Wanes.retainAll whole.parts) retained
    rw [Method.parts, owned_append] at gained
    exact ⟨rfl, gained⟩
  subst same
  split
  · rename_i receiver bound
    change whole.receiver = some receiver at bound
    have member : receiver ∈ (Payload.method whole : Payload Code).contents :=
      Option.mem_toList.mpr bound
    have owning := taken.congr (show _ = owned whole.owner.toList + receiver.owns by
      rw [bound, Option.toList_some, owned_cons, owned_nil, add_zero, add_comm])
    refine .bind _ (.onError _ (copies.held engine owning.toUnderway.framed
      fun target same => reaches.step ⟨_, found, same ▸ member⟩)
      fun later middle after stopped ended => ?_) fun content later middle copied => ?_
    · obtain ⟨way, halted⟩ := stopped
      have left := ((halted.unframed underway.based).congr (add_zero _)).act
        (engine.wanes_release? whole.owner) ended
      exact ⟨_, (left.since owning).under found member rfl rfl⟩
    · have first := ((copied.toTranscript.unframed underway.based).since owning).congr
        (show _ = owned (some content).toList + owned whole.owner.toList by
          rw [Option.toList_some, owned_cons, owned_nil, add_zero, add_comm])
      refine .ofAttempt ((first.closes_allocateMethod engine reaches.sustained found (by rw [bound]; rfl)
        fun target member => copied.apart target ?_).imp (fun _ _ => id) fun after refused =>
          ⟨_, refused.halt_of_unfilled found rfl rfl⟩)
      rwa [Option.toList_some, owned_cons, owned_nil, add_zero] at member
  · rename_i unbound
    change whole.receiver = none at unbound
    rw [unbound] at taken
    exact .ofAttempt ((taken.closes_allocateMethod engine reaches.sustained found (by rw [unbound])
      fun target member => absurd member (Multiset.notMem_zero _)).imp (fun _ _ => id)
      fun after refused => ⟨_, refused.halt_of_unfilled found rfl rfl⟩)

end

end Copies

/-! ### All levels -/

/-- What is recorded is answered again. -/
theorem Transcript.copied {handle : Handle} {copy : Value} {later : Memo} {after : Heap Code}
    (transcript : outset.Transcript rest memo start ∅ copy.owns later after)
    (known : later.find? handle = some copy) :
    outset.Copied rest memo start (.ref handle) copy later after :=
  { transcript with
    apart := fun target member => transcript.recorded target (Memo.owns_subset_of_find? known member)
    settled := Or.inl ⟨handle, rfl, known⟩ }

/-- A copy goes on if none is recorded. -/
theorem closes_unless_recorded {handle : Handle} {copying : Copying Code Host Value}
    (underway : outset.Underway rest 0 memo before.heap)
    (fresh : memo.find? handle = none → copying.Closes memo before
      (fun copied later after => outset.Copied rest memo before.heap (.ref handle) copied later after.heap)
      fun later after => ∃ way, outset.Halted rest memo before.heap (.ref handle) way 0 later after.heap) :
    Copying.Closes (Copying.recorded? handle >>= fun recorded : Option Value => match recorded with
        | some copy => return copy
        | none => copying) memo before
      (fun copied later after => outset.Copied rest memo before.heap (.ref handle) copied later after.heap)
      fun later after => ∃ way, outset.Halted rest memo before.heap (.ref handle) way 0 later after.heap := by
  cases unrecorded : memo.find? handle with
  | none =>
    refine .bind (fun found noted between => found = none ∧ noted = memo ∧ between = before)
      (fun outcome noted between looked => ?_) fun found noted between ⟨same, noted', before'⟩ => ?_
    · cases (Copying.recorded?_of_none unrecorded).symm.trans looked
      exact ⟨rfl, rfl, rfl⟩
    · subst same noted' before'
      exact fresh unrecorded
  | some copy =>
    refine .bind _ (underway.closes_recorded? handle).sure fun found noted between ⟨same, known, taken⟩ => ?_
    subst same
    rw [unrecorded] at known
    subst known
    exact .pure ((taken.congr (by simp)).copied unrecorded)

/-- The items of a sequence are held while they are copied. -/
theorem closes_holding {handle : Handle} {copying : Copying Code Host Value}
    (underway : outset.Underway rest 0 memo before.heap) (items : List Value)
    (copies : ∀ after : World Code Host,
      outset.Transcript rest memo before.heap ∅ (owned items) memo after.heap →
      copying.Closes memo after
        (fun copied later last => outset.Copied rest memo after.heap (.ref handle) copied later last.heap)
        fun later last => ∃ way, outset.Halted rest memo after.heap (.ref handle) way 0 later last.heap) :
    Copying.Closes (do
        retainAll items
        copying) memo before
      (fun copied later after => outset.Copied rest memo before.heap (.ref handle) copied later after.heap)
      fun later after => ∃ way, outset.Halted rest memo before.heap (.ref handle) way 0 later after.heap := by
  refine .bind (fun _ later after => later = memo ∧
      outset.Transcript rest memo before.heap ∅ (owned items) memo after.heap)
    (.ofAction fun _ after retained => ?_) fun _ noted after ⟨same, taken⟩ => ?_
  · have gained := underway.transcribe (Action.Wanes.retainAll items) retained
    exact ⟨rfl, gained⟩
  · subst same
    exact (copies after taken).imp (fun value later last copied => { copied.toTranscript.since taken with
      apart := copied.apart
      settled := copied.settled }) fun later last ⟨way, halted⟩ => ⟨way, halted.since taken⟩

/-- What is no container is shared. -/
theorem closes_share {handle : Handle} {payload : Payload Code}
    (underway : outset.Underway rest 0 memo before.heap)
    (sustained : outset.heap.Sustained outset.top.owns handle)
    (found : outset.heap.payload? handle = some payload) (shared : payload.shell = none) :
    Copying.Closes (do
        retainValue (.ref handle)
        return .ref handle : Copying Code Host Value) memo before
      (fun copied later after => outset.Copied rest memo before.heap (.ref handle) copied later after.heap)
      fun later after => ∃ way, outset.Halted rest memo before.heap (.ref handle) way 0 later after.heap := by
  refine .bind (fun _ later after => later = memo ∧
      outset.Transcript rest memo before.heap ∅ (Value.ref handle).owns memo after.heap)
    (.retainValue fun after retained => ?_) fun _ noted after ⟨same, taken⟩ => .pure ?_
  · have gained := underway.transcribe (Action.Wanes.retainValue (.ref handle)) retained
    exact ⟨rfl, gained⟩
  · subst same
    exact { taken with
      apart := fun target member => by
        rw [Multiset.mem_singleton.mp member]
        exact Or.inr (Or.inr ⟨sustained, payload, found, shared⟩)
      settled := Or.inr ⟨rfl, fun other kept same held => by
        cases same
        cases found.symm.trans held
        exact shared⟩ }

/-- A deep copy of what is part of the top comes to an end well or on a way, as long as no class has
a say in it. -/
theorem copies_copyWithin (engine : Engine Code Host)
    (formed : outset.heap.Formed) {outside : Multiset Handle} (balanced : outset.heap.Balanced outside)
    (plain : ∀ handle, outset.heap.Reaches outset.top handle → ∀ function,
      outset.heap.special? (.ref handle) "__deepcopy__" ≠ .ok (some function))
    (levels : Nat) : outset.Copies (engine.copyWithin levels) := by
  -- Small values are their own copies, at every level.
  have small {rest : Multiset Handle} {memo : Memo} {before : World Code Host} {value : Value}
      (underway : outset.Underway rest 0 memo before.heap) (small : value.handle? = none) :
      outset.Copied rest memo before.heap value value memo before.heap :=
    have nothing : value.owns = 0 := by cases value <;> first | rfl | cases small
    { (Transcript.start underway).congr nothing.symm with
      apart := fun target member => absurd (nothing ▸ member) (Multiset.notMem_zero _)
      settled := Or.inr ⟨rfl, fun handle payload same => by
        subst same
        cases small⟩ }
  induction levels with
  | zero =>
    intro rest memo before value underway inside comes
    cases value with
    | ref handle =>
      exact closes_unless_recorded underway fun fresh => .ofAttempt (.refuse ⟨[handle],
        (Transcript.start underway).halt fun original member => List.mem_singleton.mp member.1 ▸ fresh⟩)
    | _ => exact .pure (small underway rfl)
  | succ levels inductionHypothesis =>
    intro rest memo before value underway inside comes
    cases value with
    | ref handle =>
      have reaches := comes handle rfl
      have sustained := reaches.sustained
      refine closes_unless_recorded underway fun fresh => .ask fun later read => ?_
      obtain ⟨_, payload, _, found, held, alike⟩ := underway.remains handle sustained
      cases held.symm.trans (before.heap.read_eq_ok.mp read)
      cases later with
      | list items =>
        cases payload <;> simp only [Payload.Alike, reduceCtorEq] at alike
        cases alike
        exact closes_holding underway items fun after holding =>
          inductionHypothesis.list engine holding.toUnderway found reaches fresh
      | tuple items =>
        cases payload <;> simp only [Payload.Alike, reduceCtorEq] at alike
        cases alike
        exact closes_holding underway items fun after holding =>
          inductionHypothesis.tuple engine holding.toUnderway found reaches fresh
      | object data =>
        cases payload <;> simp only [Payload.Alike, reduceCtorEq] at alike
        refine inductionHypothesis.object engine underway found held reaches fresh fun function asked => ?_
        rw [Heap.special?_of_remains underway.remains formed balanced sustained] at asked
        exact plain handle reaches function asked
      | method data =>
        cases payload <;> simp only [Payload.Alike, reduceCtorEq] at alike
        refine .bind _ (inductionHypothesis.method engine underway found reaches)
          fun value noted between made => ?_
        obtain ⟨place, rfl, makes⟩ := made
        exact .bind _ (makes.closes_memorize engine fresh).sure fun _ _ _ copied => .pure copied
      | _ => exact closes_share underway sustained found alike.shell.symm
    | _ => exact .pure (small underway rfl)

end Outset

end ObjectHeap
