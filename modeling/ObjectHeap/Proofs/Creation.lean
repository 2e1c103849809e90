/-
This file establishes that the operations that create entries keep every ledger. A slot that is
taken was free or is new, so that an entry that is placed comes to an empty slot, begins a new
life there and owns what its payload owns. A weak reference is enrolled as soon as it is placed,
and its target cannot have died meanwhile, because whoever creates the weak reference holds it.
-/

import ObjectHeap.Create
import ObjectHeap.Proofs.Ancestry
import ObjectHeap.Proofs.Collect

namespace ObjectHeap

namespace Payload

variable {Code : Type}

/-- Whether a payload is neither a method nor a class. Only those are made of other entries. -/
def isPlain : Payload Code → Bool
  | .method _ | .type _ => false
  | _ => true

/-- What a method or a class is made of is there: the function of a method, and the bases of a
class, from which it has its ancestors. -/
def Founded (payload : Payload Code) (heap : Heap Code) : Prop :=
  match payload with
  | .method data =>
    (∃ function, heap.payload? data.function = some (.function function)) ∧ data.Grounded
  | .type data =>
    (∀ base ∈ data.bases, heap.IsType base) ∧
      data.ancestors = (data.bases.flatMap heap.lineage).eraseDups
  | _ => True

theorem isMethod_of_isPlain {payload : Payload Code} (plain : payload.isPlain = true) :
    payload.isMethod = false := by
  cases payload <;> first | rfl | cases plain

/-- Only methods are bound. -/
theorem receiver?_of_isMethod {payload : Payload Code} (unlike : payload.isMethod = false) :
    payload.receiver? = none := by
  cases payload <;> first | rfl | cases unlike

theorem founded_of_isPlain {payload : Payload Code} {heap : Heap Code}
    (plain : payload.isPlain = true) : payload.Founded heap := by
  cases payload <;> trivial

end Payload

namespace Heap

variable {Code : Type} {before after : Heap Code} {outside frame moved : Multiset Handle}
  {limbo : List Handle} {calm : Prop} {place : Handle} {payload : Payload Code}

/-! ### An entry that is born -/

/-- An entry with one reference was put into an empty slot. -/
structure Admits (before : Heap Code) (payload : Payload Code) (place : Handle)
    (after : Heap Code) : Prop where
  empty : before.occupant? place = none
  here : after.occupant? place = some { count := 1, payload }
  others : ∀ other, other ≠ place → after.occupant? other = before.occupant? other
  born : after.births place = before.births place + 1
  steady : ∀ other, other ≠ place → after.births other = before.births other
  pending : after.pending = before.pending
  releasing : after.releasing = before.releasing
  tracker : after.tracker = before.tracker
  unraisable : after.unraisable = before.unraisable
  home : before.Home place payload.isMethod after
  housed : ∀ limbo, before.Housed limbo → after.Housed limbo

/-- A new slot at the end. -/
theorem admits_place_none (heap : Heap Code) (payload : Payload Code) :
    heap.Admits payload heap.slots.size (heap.place payload none).2 where
  empty := by
    cases occupied : heap.occupant? heap.slots.size with
    | none => rfl
    | some entry => exact absurd (heap.lt_size_of_occupant? occupied) (Nat.lt_irrefl _)
  here := by rw [occupant?_place_none, if_pos rfl]
  others other different := by rw [occupant?_place_none, if_neg different]
  born := by simp [births, place]
  steady other different := by
    unfold births place
    dsimp only
    rw [Array.getElem?_push, if_neg different]
  pending := rfl
  releasing := rfl
  tracker := rfl
  unraisable := rfl
  home := .new rfl rfl rfl
  housed limbo housed := by
    have births (other : Handle) : 0 < (heap.place payload none).2.births other ↔
        0 < heap.births other ∨ other = heap.slots.size := by
      rw [births_pos_iff, births_pos_iff]
      show other < (heap.slots.push _).size ↔ _
      rw [Array.size_push]
      exact Nat.lt_succ_iff_lt_or_eq
    constructor
    · intro other
      show other ∈ heap.free ++ heap.pool.slots ++ limbo ↔ _
      rw [housed.vacant, births, occupant?_place_none]
      by_cases same : other = heap.slots.size
      · subst same
        rw [if_pos rfl, births_pos_iff]
        simp
      · rw [if_neg same, or_iff_left same]
    · exact housed.apart

/-- A slot that was free. -/
theorem admits_place_some (heap : Heap Code) (payload : Payload Code) {slot : Handle}
    {taken : Heap Code} (slots : taken.slots = heap.slots) (pending : taken.pending = heap.pending)
    (releasing : taken.releasing = heap.releasing) (tracker : taken.tracker = heap.tracker)
    (unraisable : taken.unraisable = heap.unraisable) (born : 0 < heap.births slot)
    (empty : heap.occupant? slot = none)
    (home : heap.Home slot payload.isMethod (taken.place payload (some slot)).2)
    (freed : ∀ limbo, (heap.free ++ heap.pool.slots ++ limbo).Perm
      (slot :: (taken.free ++ taken.pool.slots ++ limbo))) :
    heap.Admits payload slot (taken.place payload (some slot)).2 := by
  have inside : slot < taken.slots.size := by
    rw [slots]
    exact (heap.births_pos_iff slot).mp born
  have occupants (other : Handle) : taken.occupant? other = heap.occupant? other :=
    occupant?_congr slots other
  have births (other : Handle) : (taken.place payload (some slot)).2.births other =
      if other = slot then heap.births other + 1 else heap.births other := by
    unfold Heap.births Heap.place
    dsimp only
    rw [Array.getElem?_modify, slots]
    by_cases same : slot = other
    · subst same
      rw [if_pos rfl, if_pos rfl, Array.getElem?_eq_getElem (slots ▸ inside)]
      rfl
    · rw [if_neg same, if_neg (Ne.symm same)]
  refine ⟨empty, ?_, fun other different => ?_, ?_, fun other different => ?_, pending, releasing,
    tracker, unraisable, home, fun limbo housed => ⟨fun other => ?_, ?_⟩⟩
  · rw [occupant?_place_some _ _ inside, if_pos rfl]
  · rw [occupant?_place_some _ _ inside, if_neg different, occupants]
  · rw [births, if_pos rfl]
  · rw [births, if_neg different]
  · have distinct := housed.apart
    rw [(freed limbo).nodup_iff] at distinct
    have vacant := housed.vacant other
    rw [(freed limbo).mem_iff, List.mem_cons] at vacant
    show other ∈ taken.free ++ taken.pool.slots ++ limbo ↔ _
    rw [births, occupant?_place_some _ _ inside, occupants]
    by_cases same : other = slot
    · subst same
      rw [if_pos rfl, if_pos rfl]
      exact iff_of_false (List.nodup_cons.mp distinct).1 fun both => nomatch both.2
    · rw [if_neg same, if_neg same, ← vacant, or_iff_right same]
  · have distinct := housed.apart
    rw [(freed limbo).nodup_iff] at distinct
    exact (List.nodup_cons.mp distinct).2

/-- The slot that was freed last is free. -/
theorem admits_takeFree (heap : Heap Code) (payload : Payload Code) (housed : heap.Housed limbo) :
    heap.Admits payload (heap.takeFree.2.place payload heap.takeFree.1).1
      (heap.takeFree.2.place payload heap.takeFree.1).2 := by
  cases free : heap.free with
  | nil =>
    have taken : heap.takeFree = (none, heap) := by
      unfold takeFree
      rw [free]
    rw [taken]
    exact admits_place_none heap payload
  | cons slot rest =>
    have taken : heap.takeFree = (some slot, { heap with free := rest }) := by
      unfold takeFree
      rw [free]
    have vacant := (housed.vacant slot).mp (by simp [free])
    rw [taken]
    exact admits_place_some heap payload rfl rfl rfl rfl rfl vacant.1 vacant.2 (.free free rfl)
      fun limbo => by
        rw [free]
        exact List.Perm.refl _

/-- A slot that a method has left is free for the next method. -/
theorem admits_takeFreeForMethod (heap : Heap Code) {payload : Payload Code}
    (isMethod : payload.isMethod = true) (housed : heap.Housed limbo) :
    heap.Admits payload
      (heap.takeFreeForMethod.2.place payload heap.takeFreeForMethod.1).1
      (heap.takeFreeForMethod.2.place payload heap.takeFreeForMethod.1).2 := by
  cases kept : heap.pool.take? with
  | none =>
    have taken : heap.takeFreeForMethod = heap.takeFree := by
      unfold takeFreeForMethod
      rw [kept]
    rw [taken]
    exact admits_takeFree heap payload housed
  | some pair =>
    obtain ⟨slot, pool⟩ := pair
    have taken : heap.takeFreeForMethod = (some slot, { heap with pool }) := by
      unfold takeFreeForMethod
      rw [kept]
    have pooled := MethodPool.slots_of_take? kept
    have vacant := (housed.vacant slot).mp (by simp [pooled])
    rw [taken]
    have home : heap.Home slot payload.isMethod
        (({ heap with pool } : Heap Code).place payload (some slot)).2 := by
      rw [isMethod]
      exact .pooled rfl kept
    refine admits_place_some heap payload rfl rfl rfl rfl rfl vacant.1 vacant.2 home fun limbo => ?_
    rw [pooled, List.append_assoc, List.append_assoc, List.cons_append]
    exact List.perm_middle

namespace Admits

variable (admits : before.Admits payload place after)

include admits

theorem payload?_here : after.payload? place = some payload := by
  rw [payload?_eq, admits.here]
  rfl

theorem payload?_others {other : Handle} (different : other ≠ place) :
    after.payload? other = before.payload? other :=
  payload?_congr (admits.others other different)

theorem payload?_empty : before.payload? place = none := by
  rw [payload?_eq, admits.empty]
  rfl

theorem balanced (balanced : before.Balanced (outside + payload.owns)) :
    after.Balanced (outside + {place}) :=
  balanced.fill rfl admits.empty admits.here admits.others admits.pending

/-- A payload that was charged is placed. -/
theorem places {charged : Heap Code} {tracker : Tracker} (unwatched : payload.watchers = [])
    (same : before = { charged with tracker }) (housed : before.Housed limbo)
    (accepted : charged.tracker.charge (UInt64.ofNat payload.size) = .ok tracker) :
    charged.Places payload place after := by
  subst same
  have home := admits.home
  exact
    { empty := admits.payload?_empty
      here := admits.payload?_here
      others := fun _ different => admits.payload?_others different
      born := admits.born
      steady := admits.steady
      unwatched
      charged := by rw [admits.tracker]; exact accepted
      home := by
        generalize payload.isMethod = isMethod at home ⊢
        cases home with
        | new last free pool => exact .new last free pool
        | free taken pool => exact .free taken pool
        | pooled free taken => exact .pooled free taken
      unlisted := (admits.housed limbo housed).unlisted admits.here
      releasing := admits.releasing
      unraisable := admits.unraisable }

/-- An entry that is born is in no register and has none, unless it brings them along. -/
theorem watched (watched : before.Watched) (aimless : payload.target? = none)
    (unwatched : payload.watchers = []) : after.Watched := by
  refine watched.congr (fun other => ?_) fun other => ?_
  · by_cases same : other = place
    · rw [same, target?_of_payload? admits.payload?_here, aimless]
      unfold target?
      rw [admits.payload?_empty]
      rfl
    · exact target?_congr (admits.payload?_others same)
  · by_cases same : other = place
    · rw [same, watchers_of_payload? admits.payload?_here, unwatched]
      unfold watchers
      rw [admits.payload?_empty]
      rfl
    · exact watchers_congr (admits.payload?_others same)

theorem ne_of_isLive {handle : Handle} (live : before.isLive handle) : handle ≠ place := by
  rintro rfl
  rw [isLive_eq, admits.empty] at live
  cases live

theorem ne_of_sustained (balanced : before.Balanced outside) {handle : Handle}
    (sustained : before.Sustained outside handle) : handle ≠ place :=
  admits.ne_of_isLive (balanced.isLive_of_sustained sustained)

/-- Nothing refers to an entry that is born of what is held. -/
theorem not_refers (balanced : before.Balanced outside) (owns : payload.owns ⊆ outside)
    (handle : Handle) : ¬ after.Refers handle place := by
  intro refers
  unfold Refers visits at refers
  by_cases same : handle = place
  · rw [same, admits.payload?_here] at refers
    exact admits.ne_of_sustained balanced (.of_mem (owns refers)) rfl
  · rw [admits.payload?_others same] at refers
    exact admits.ne_of_isLive (balanced.isLive_of_refers refers) rfl

/-- What is sustained once an entry is born of what is held is the entry or was sustained before. -/
theorem eq_or_sustained (balanced : before.Balanced outside) {roots kept : Multiset Handle}
    (sub : roots ⊆ outside) (owns : payload.owns ⊆ roots)
    (gained : ∀ handle ∈ kept, handle = place ∨ handle ∈ roots) {handle : Handle}
    (sustained : after.Sustained kept handle) :
    handle = place ∨ before.Sustained roots handle := by
  refine sustained.induction (fun root member => (gained root member).imp_right .of_mem)
    fun source target _ reached refers => Or.inr ?_
  unfold Refers visits at refers
  rcases reached with rfl | reached
  · rw [admits.payload?_here] at refers
    exact .of_mem (owns refers)
  · rw [admits.payload?_others (admits.ne_of_sustained balanced (reached.mono sub))] at refers
    exact reached.step refers

/-- A method or a class that is born is formed of what is there. -/
theorem formed (balanced : before.Balanced outside) (formed : before.Formed)
    (founded : payload.Founded before) : after.Formed where
  wraps method data found held reached := by
    by_cases new : method = place
    · rw [new, admits.payload?_here] at held
      cases held
      obtain ⟨⟨function, there⟩, _⟩ := founded
      rw [admits.payload?_others (admits.ne_of_isLive (isLive_of_payload? there)), there] at reached
      cases reached
      rfl
    · rw [admits.payload?_others new] at held
      rw [admits.payload?_others (admits.ne_of_isLive (balanced.isLive_function held))] at reached
      exact formed.wraps method data found held reached
  grounded method data held := by
    by_cases new : method = place
    · rw [new, admits.payload?_here] at held
      cases held
      exact founded.2
    · exact formed.grounded method data ((admits.payload?_others new).symm.trans held)
  derives type data base found held member reached := by
    by_cases new : type = place
    · rw [new, admits.payload?_here] at held
      cases held
      obtain ⟨inherited, there⟩ := founded.1 base member
      rw [admits.payload?_others (admits.ne_of_isLive (isLive_of_payload? there)), there] at reached
      cases reached
      rfl
    · rw [admits.payload?_others new] at held
      rw [admits.payload?_others (admits.ne_of_isLive (balanced.isLive_base held member))] at reached
      exact formed.derives type data base found held member reached
  inherits type data held _ := by
    -- Bases are older than the new entry, so what they inherit from is the same before and after.
    have steady {bases : List Handle} (live : ∀ base ∈ bases, before.isLive base) :
        bases.flatMap before.lineage = bases.flatMap after.lineage :=
      List.flatMap_congr fun base member =>
        (lineage_congr (admits.payload?_others (admits.ne_of_isLive (live base member)))).symm
    by_cases new : type = place
    · rw [new, admits.payload?_here] at held
      cases held
      obtain ⟨types, same⟩ := founded
      exact same.trans (congrArg List.eraseDups (steady fun base member => by
        obtain ⟨_, there⟩ := types base member
        exact isLive_of_payload? there))
    · rw [admits.payload?_others new] at held
      exact (formed.ancestors_eq balanced held).trans (congrArg List.eraseDups
        (steady fun _ member => balanced.isLive_base held member))
  apart type data held := by
    by_cases new : type = place
    · rw [new, admits.payload?_here] at held
      cases held
      obtain ⟨_, same⟩ := founded
      rw [new, same, List.mem_eraseDups, List.mem_flatMap]
      rintro ⟨base, _, above⟩
      obtain ⟨inherited, found, rfl | further⟩ := mem_lineage.mp above
      · exact admits.ne_of_isLive (isLive_of_payload? found) rfl
      · obtain ⟨_, there⟩ := formed.isType_of_mem_ancestors balanced found further
        exact admits.ne_of_isLive (isLive_of_payload? there) rfl
    · exact formed.apart type data ((admits.payload?_others new).symm.trans held)

/-- What is born changes nothing that was there. -/
theorem carries (balanced : before.Balanced outside) (watched : before.Watched)
    (sub : frame ⊆ outside) : before.Carries calm frame after := by
  have live {handle : Handle} (sustained : before.Sustained frame handle) : handle ≠ place := by
    rintro rfl
    have alive := balanced.isLive_of_sustained (sustained.mono sub)
    rw [isLive_eq, admits.empty] at alive
    cases alive
  refine ⟨⟨fun handle => ?_, fun handle empty alive => ?_, fun handle payload later held reached same => ?_,
    fun weakref target aimed still same => ?_, fun handle payload target held member _ _ => ?_⟩,
    fun handle member => ?_, fun _ handle sustained => ?_⟩
  · by_cases same : handle = place
    · rw [same, admits.born]
      exact Nat.le_succ _
    · exact (admits.steady handle same).ge
  · by_cases same : handle = place
    · rw [same, admits.born]
      exact Nat.lt_succ_self _
    · rw [isLive_eq, admits.others handle same, empty] at alive
      cases alive
  · have different : handle ≠ place := by
      rintro rfl
      rw [admits.payload?_empty] at held
      cases held
    rw [admits.payload?_others different, held] at reached
    cases reached
    exact .refl payload
  · refine admits.steady target ?_
    rintro rfl
    have registered := (watched.registered _ _).mp aimed
    unfold watchers at registered
    rw [admits.payload?_empty] at registered
    cases registered
  · exact admits.steady target (admits.ne_of_isLive (balanced.isLive_of_visits held
      (payload.constituents_subset_visits member)))
  · exact admits.steady handle (live (.of_mem member))
  · obtain ⟨payload, held⟩ :=
      exists_payload?_of_isLive (balanced.isLive_of_sustained (sustained.mono sub))
    exact ⟨admits.steady handle (live sustained), payload, payload, held,
      (admits.payload?_others (live sustained)).trans held, .refl payload⟩

end Admits

end Heap

variable {Code Host : Type} {ledger : Ledger Code Host} {scene : Scene}
  {before : World Code Host} {mine rest : Multiset Handle} {α β : Type}

/-- What a method or a class is to be made of is there as long as its references are, and as long
as what they lead to continues. -/
theorem Payload.Founded.of_continues {before after : Heap Code} {payload : Payload Code}
    (founded : payload.Founded before) (lives : ∀ handle ∈ payload.owns, after.isLive handle)
    (continues : ∀ handle ∈ payload.owns, ∀ former later, before.payload? handle = some former →
      after.payload? handle = some later → former.Continues later) :
    payload.Founded after := by
  cases payload with
  | method data =>
    obtain ⟨⟨function, found⟩, grounded⟩ := founded
    have owned : data.function ∈ (Payload.method data : Payload Code).owns := by simp
    obtain ⟨later, there⟩ := Heap.exists_payload?_of_isLive (lives _ owned)
    have continued := continues _ owned _ later found there
    cases later with
    | function later => exact ⟨⟨later, there⟩, grounded⟩
    | _ => exact continued.elim
  | type data =>
    obtain ⟨types, same⟩ := founded
    have owned {base : Handle} (member : base ∈ data.bases) :
        base ∈ (Payload.type data : Payload Code).owns := List.mem_append_left _ member
    have steady (base : Handle) (member : base ∈ data.bases) :
        after.IsType base ∧ before.lineage base = after.lineage base := by
      obtain ⟨inherited, found⟩ := types base member
      obtain ⟨later, there⟩ := Heap.exists_payload?_of_isLive (lives base (owned member))
      have continued := continues base (owned member) _ later found there
      obtain ⟨next, rfl, _⟩ := continued.of_type
      exact ⟨⟨next, there⟩, (Heap.lineage_of_continues found there continued).symm⟩
    exact ⟨fun base member => (steady base member).1, same.trans
      (congrArg List.eraseDups (List.flatMap_congr fun base member => (steady base member).2))⟩
  | _ => trivial

theorem Heap.Carries.founded {before after : Heap Code} {calm : Prop} {frame : Multiset Handle}
    {payload : Payload Code} (carries : before.Carries calm (frame + payload.owns) after)
    (lives : ∀ handle ∈ payload.owns, after.isLive handle) (founded : payload.Founded before) :
    payload.Founded after :=
  founded.of_continues lives fun handle member former later found there =>
    carries.evolves.continues handle former later found there
      (carries.kept handle (Multiset.mem_add.mpr (Or.inr member)))

/-- Looking at the heap changes nothing. -/
theorem Action.Keeps.currentHeap :
    (ObjectHeap.currentHeap : Action Code Host (Heap Code)).Keeps ledger mine fun _ => mine :=
  fun _ before holds => .of_eq (currentHeap_apply before) holds holds.passes_refl

/-- A reference that is taken in the course of an attempt. -/
theorem Attempt.retainValue_eq (value : Value) :
    (retainValue value : Attempt Code Host Unit) = Attempt.ofAction (retainValue value) := by
  cases value <;> rfl

namespace Attempt.Keeps

variable {next : α → Attempt Code Host β} {start : Unit → Attempt Code Host β}
  {post : β → Multiset Handle} {lost : Multiset Handle}

theorem currentHeap {next : Heap Code → Attempt Code Host β}
    (rest : ∀ heap, (next heap).Keeps ledger mine post lost) :
    (ObjectHeap.currentHeap >>= next).Keeps ledger mine post lost :=
  .act .currentHeap rest

theorem modifyHeap {change : Heap Code → Heap Code} (books : Heap.Bookkeeping change)
    (rest : (start ()).Keeps ledger mine post lost) :
    (ObjectHeap.modifyHeap change >>= start).Keeps ledger mine post lost :=
  .act (.bookkeeping books) fun _ => rest

theorem retain {handle : Handle} (rest : (start ()).Keeps ledger (mine + {handle}) post lost) :
    (ObjectHeap.retain handle >>= start).Keeps ledger mine post lost :=
  .act ((Action.Keeps.retain handle).gain mine) fun _ => rest

theorem retainValue {value : Value} (rest : (start ()).Keeps ledger (mine + value.owns) post lost) :
    (ObjectHeap.retainValue value >>= start).Keeps ledger mine post lost := by
  rw [retainValue_eq]
  exact .act ((Action.Keeps.retainValue value).gain mine) fun _ => rest

theorem retainAll {values : List Value}
    (rest : (start ()).Keeps ledger (mine + owned values) post lost) :
    (ObjectHeap.retainAll values >>= start).Keeps ledger mine post lost :=
  .act ((Action.Keeps.retainAll values).gain mine) fun _ => rest

/-- An action that gives up all that it owns, in the course of an attempt that owns more. -/
theorem spend {action : Action Code Host Unit} {pre : Multiset Handle}
    (spends : action.Keeps ledger pre fun _ => 0)
    (rest : (start ()).Keeps ledger mine post lost) :
    (Attempt.ofAction action >>= start).Keeps ledger (mine + pre) post lost :=
  .act (spends.spend mine) fun _ => rest

end Attempt.Keeps

/-- References are taken without any change of what is there. -/
theorem payload?_of_retain {handle : Handle} {answer : Unit} {after : World Code Host}
    (ended : (retain handle : Action Code Host Unit) before = .ok (answer, after)) (other : Handle) :
    after.heap.payload? other = before.heap.payload? other := by
  rw [retain_apply] at ended
  split at ended
  · cases ended
    exact before.heap.payload?_increment handle other
  · cases ended

theorem payload?_of_retainValue {value : Value} {answer : Unit} {after : World Code Host}
    (ended : (retainValue value : Action Code Host Unit) before = .ok (answer, after))
    (other : Handle) : after.heap.payload? other = before.heap.payload? other := by
  cases value with
  | ref handle => exact payload?_of_retain ended other
  | _ =>
    cases ended
    rfl

theorem payload?_of_retainAll {values : List Value} {answer : Unit} {after : World Code Host}
    (ended : (retainAll values : Action Code Host Unit) before = .ok (answer, after))
    (other : Handle) : after.heap.payload? other = before.heap.payload? other := by
  induction values generalizing before with
  | nil =>
    cases ended
    rfl
  | cons value rest inductionHypothesis =>
    change (retainValue value >>= fun _ => retainAll rest : Action Code Host Unit) before = _ at ended
    obtain ⟨_, between, taken, going⟩ := Action.bind_eq_ok.mp ended
    exact (inductionHypothesis going).trans (payload?_of_retainValue taken other)

namespace Attempt.Yields

variable {next : Unit → Attempt Code Host β} {post : β → Multiset Handle} {lost : Multiset Handle}

theorem retainAll {values : List Value} (holds : ledger.Holds scene before mine)
    (rest : ∀ after, ledger.Holds scene after (mine + owned values) →
      (∀ other, after.heap.payload? other = before.heap.payload? other) →
      (next ()).Yields ledger scene after post lost) :
    (ObjectHeap.retainAll values >>= next).Yields ledger scene before post lost := by
  intro outcome last ended
  change (Attempt.ofAction (ObjectHeap.retainAll values) >>= next).run before = _ at ended
  rw [run_ofAction_bind] at ended
  obtain ⟨_, after, taken, going⟩ := Action.bind_eq_ok.mp ended
  obtain ⟨held, passes⟩ := (Action.Keeps.retainAll values).gain mine scene before holds _ _ taken
  obtain ⟨done, later⟩ := rest after held (payload?_of_retainAll taken) _ _ going
  exact ⟨done, passes.trans later⟩

theorem retainValue {value : Value} (holds : ledger.Holds scene before mine)
    (rest : ∀ after, ledger.Holds scene after (mine + value.owns) →
      (∀ other, after.heap.payload? other = before.heap.payload? other) →
      (next ()).Yields ledger scene after post lost) :
    (ObjectHeap.retainValue value >>= next).Yields ledger scene before post lost := by
  rw [retainValue_eq]
  intro outcome last ended
  rw [run_ofAction_bind] at ended
  obtain ⟨_, after, taken, going⟩ := Action.bind_eq_ok.mp ended
  obtain ⟨held, passes⟩ := (Action.Keeps.retainValue value).gain mine scene before holds _ _ taken
  obtain ⟨done, later⟩ := rest after held (payload?_of_retainValue taken) _ _ going
  exact ⟨done, passes.trans later⟩

end Attempt.Yields

/-- An entry that was placed is owned by whoever placed it. -/
theorem Ledger.Holds.admitted (holds : ledger.Holds scene before mine) {payload : Payload Code}
    {place : Handle} {heap : Heap Code} (same : mine = payload.owns)
    (admits : before.heap.Admits payload place heap) (founded : payload.Founded before.heap)
    (watched : heap.Watched) : ledger.Holds scene { before with heap } {place} ∧
      before.heap.Carries ledger.calm scene.frame heap := by
  have carries : before.heap.Carries ledger.calm scene.frame heap :=
    admits.carries holds.sound.balanced holds.sound.watched (scene.frame_subset _ _)
  refine ⟨⟨⟨⟨?_, watched, admits.housed _ holds.sound.housed,
    admits.formed holds.sound.balanced holds.sound.formed founded⟩,
    admits.releasing.trans holds.releasing, ledger.lasts holds.fits carries.evolves⟩,
    fun idle => admits.pending.trans (holds.settled idle), holds.tidy⟩, carries⟩
  have balanced := holds.sound.balanced
  rw [same, add_right_comm] at balanced
  have admitted := admits.balanced balanced
  rwa [add_right_comm] at admitted

/-! ### Methods that are bound to nil -/

/-- If a payload is a method that is bound to nil, then there has been reason to, or another one is
held. -/
def Ledger.Binds (ledger : Ledger Code Host) (frame : Multiset Handle) (payload : Payload Code)
    (world : World Code Host) : Prop :=
  payload.receiver? = some .nil →
    ledger.conduct.hollows world.host ∨ ∃ method ∈ frame, world.heap.receiver? method = some .nil

namespace Ledger.Binds

variable {frame : Multiset Handle} {payload : Payload Code} {after : World Code Host}

theorem of_unbound (unbound : payload.receiver? ≠ some .nil) : ledger.Binds frame payload before :=
  fun bound => absurd bound unbound

theorem passes (binds : ledger.Binds frame payload before) (passes : ledger.Passes frame before after)
    (live : ∀ handle ∈ frame, after.heap.isLive handle) : ledger.Binds frame payload after := by
  intro bound
  exact (binds bound).imp passes.story.hollows fun ⟨method, member, held⟩ =>
    ⟨method, member, passes.toCarries.receiver? member (live method member) held⟩

theorem bound (binds : ledger.Binds frame payload before) (bound : payload.receiver? = some .nil) :
    ledger.conduct.hollows before.host ∨ before.heap.Hollow :=
  (binds bound).imp_right fun ⟨method, _, held⟩ => ⟨method, held⟩

end Ledger.Binds

namespace Engine

variable {engine : Engine Code Host}

/-! ### Allocation -/

theorem Keeps.countAllocation (keeps : engine.Keeps ledger) (payload : Payload Code) :
    (engine.countAllocation payload).Keeps ledger 0 fun _ => 0 := by
  unfold Engine.countAllocation
  split
  · refine .bind (.bookkeeping (by constructor <;> intro heap <;> rfl)) fun _ => ?_
    refine .bind .currentHeap fun heap => ?_
    split
    · exact .bind keeps.collect fun _ => .pure () rfl
    · exact .pure () rfl
  · exact .pure () rfl

/-- What a payload owned is given up. -/
theorem Keeps.surrender (keeps : engine.Keeps ledger) (payload : Payload Code) :
    Action.Keeps ledger payload.owns (do
      modifyHeap fun heap => { heap with pending := payload.leavings heap.pending }
      engine.drain) fun _ => 0 := by
  intro scene before holds
  obtain ⟨stands, carries⟩ := holds.of_slots
    { before.heap with pending := payload.leavings before.heap.pending } 0 rfl rfl rfl
    holds.releasing (by rw [Payload.leavings_eq]; abel)
  have quiet : before.heap.Quiet
      { before.heap with pending := payload.leavings before.heap.pending } :=
    .of_slots rfl rfl rfl rfl rfl rfl
  exact .bind_of_eq (modifyHeap_apply before _) (.of_quiet carries quiet)
    (keeps.yields_drain stands holds.tidy)

/-- A charge counts the allocation first. Then the tracker accepts it, or the payload is given up. -/
theorem charge_eq_ok {payload : Payload Code} {refusal : Option LimitExceeded}
    {after : World Code Host} (charged : engine.charge payload before = .ok (refusal, after)) :
    ∃ counted, engine.countAllocation payload before = .ok ((), counted) ∧
      ((∃ tracker, refusal = none ∧
          counted.heap.tracker.charge (UInt64.ofNat payload.size) = .ok tracker ∧
          after = { counted with heap := { counted.heap with tracker } }) ∨
        ∃ exceeded, refusal = some exceeded ∧ (do
          modifyHeap fun heap => { heap with pending := payload.leavings heap.pending }
          engine.drain : Action Code Host Unit) counted = .ok ((), after)) := by
  obtain ⟨_, counted, count, going⟩ := Action.bind_eq_ok.mp charged
  refine ⟨counted, count, ?_⟩
  obtain ⟨_, _, looked, going⟩ := Action.bind_eq_ok.mp going
  cases looked
  cases afforded : counted.heap.tracker.charge (UInt64.ofNat payload.size) with
  | ok tracker =>
    rw [afforded] at going
    cases going
    exact Or.inl ⟨tracker, rfl, rfl, rfl⟩
  | error exceeded =>
    rw [afforded] at going
    obtain ⟨_, between, left, going⟩ := Action.bind_eq_ok.mp going
    obtain ⟨_, _, drained, last⟩ := Action.bind_eq_ok.mp going
    cases last
    exact Or.inr ⟨exceeded, rfl, Action.bind_eq_ok.mpr ⟨_, between, left, drained⟩⟩

/-- A payload that is refused is given up. -/
theorem Keeps.refuses_charge (keeps : engine.Keeps ledger) {payload : Payload Code}
    {exceeded : LimitExceeded} {after : World Code Host}
    (holds : ledger.Holds scene before payload.owns)
    (charged : engine.charge payload before = .ok (some exceeded, after)) :
    ledger.Holds scene after 0 ∧ ledger.Passes scene.frame before after := by
  obtain ⟨counted, count, accepted | ⟨_, _, surrendered⟩⟩ := charge_eq_ok charged
  · obtain ⟨_, refused, _⟩ := accepted
    cases refused
  · obtain ⟨stands, early⟩ := (keeps.countAllocation payload).gain payload.owns scene before holds _ _
      count
    obtain ⟨done, late⟩ := keeps.surrender payload scene counted (stands.congr (add_zero _)) _ _
      surrendered
    exact ⟨done, early.trans late⟩

/-- While a payload is paid for, what it refers to is kept as others keep what is in the frame. Once
it was paid for, it only has to be placed. -/
theorem Keeps.accepts_charge (keeps : engine.Keeps ledger) {payload : Payload Code}
    {after : World Code Host} (holds : ledger.Holds scene before payload.owns)
    (unwatched : payload.watchers = []) (binds : ledger.Binds scene.frame payload before)
    (charged : engine.charge payload before = .ok (none, after)) :
    ledger.Holds scene after payload.owns ∧
      before.heap.Carries ledger.calm (scene.frame + payload.owns) after.heap ∧
      ∀ place heap, after.heap.Admits payload place heap →
        Story ledger.conduct .operating before { after with heap } := by
  obtain ⟨counted, count, ⟨tracker, _, accepted, rfl⟩ | refused⟩ := charge_eq_ok charged
  · obtain ⟨stands, early⟩ := keeps.countAllocation payload (scene.framing payload.owns) before
      (Ledger.Holds.framing_iff.mpr (holds.congr (add_zero _).symm)) _ _ count
    obtain ⟨paid, late⟩ := stands.of_slots { counted.heap with tracker } 0 rfl rfl rfl stands.releasing
      rfl
    refine ⟨(Ledger.Holds.framing_iff.mp ⟨paid, stands.settled, stands.tidy⟩).congr (add_zero _),
      early.toCarries.trans late, fun place heap admits => ?_⟩
    have lasts := binds.passes (early.mono fun _ member => Multiset.mem_add.mpr (Or.inl member))
      fun _ member => stands.isLive (Multiset.mem_add.mpr (Or.inl (Multiset.mem_add.mpr (Or.inl member))))
    exact early.story.andThen
      (.place (admits.places unwatched rfl paid.sound.housed accepted) lasts.bound)
  · obtain ⟨_, refused, _⟩ := refused
    cases refused

/-- What an allocation comes to: a refusal, which gives the payload up, or an entry that was put
into an empty slot once the payload was paid for. -/
def Allocates (ledger : Ledger Code Host) (scene : Scene) (before : World Code Host)
    (payload : Payload Code) (outcome : Except Error Value) (after : World Code Host) : Prop :=
  match outcome with
  | .error _ => ledger.Holds scene after 0 ∧ ledger.Passes scene.frame before after
  | .ok value => ∃ place between, value = .ref place ∧ ledger.Holds scene between payload.owns ∧
      before.heap.Carries ledger.calm (scene.frame + payload.owns) between.heap ∧
      between.heap.Admits payload place after.heap ∧ payload.Founded between.heap ∧
      after = { between with heap := after.heap } ∧ Story ledger.conduct .operating before after

/-- Taking a slot and placing a payload there, once the payload was paid for. -/
theorem Keeps.allocates_of_charge (keeps : engine.Keeps ledger) {payload : Payload Code}
    (refuse : LimitExceeded → Attempt Code Host Value) {take : Heap Code → Option Handle × Heap Code}
    (refuses : ∀ exceeded, (refuse exceeded).Keeps ledger 0 (fun _ => 0) 0)
    (fails : ∀ exceeded before value after, (refuse exceeded).run before ≠ .ok (.ok value, after))
    (admits : ∀ heap limbo, Heap.Housed heap limbo →
      heap.Admits payload ((take heap).2.place payload (take heap).1).1
        ((take heap).2.place payload (take heap).1).2)
    (unwatched : payload.watchers = []) (founded : payload.Founded before.heap)
    (binds : ledger.Binds scene.frame payload before) {outcome : Except Error Value} {after : World Code Host}
    (holds : ledger.Holds scene before payload.owns)
    (ended : (Attempt.ofAction (engine.charge payload) >>= fun refusal =>
      match refusal with
      | some exceeded => refuse exceeded
      | none => do
        let slot ← changeHeap take
        let handle ← changeHeap (·.place payload slot)
        return Value.ref handle : Attempt Code Host Value).run before = .ok (outcome, after)) :
    Allocates ledger scene before payload outcome after := by
  rw [Attempt.run_ofAction_bind] at ended
  obtain ⟨refusal, between, charged, ended⟩ := Action.bind_eq_ok.mp ended
  cases refusal with
  | some exceeded =>
    obtain ⟨paid, passes⟩ := keeps.refuses_charge holds charged
    obtain ⟨done, later⟩ := refuses exceeded scene between paid _ _ ended
    cases outcome with
    | ok value => exact absurd ended (fails exceeded between value after)
    | error error => exact ⟨done, passes.trans later⟩
  | none =>
    obtain ⟨paid, carries, story⟩ := keeps.accepts_charge holds unwatched binds charged
    have placed := admits between.heap scene.limbo paid.sound.housed
    cases ended
    exact ⟨_, between, rfl, paid, carries, placed, carries.founded
      (fun _ member => paid.isLive (Multiset.mem_add.mpr (Or.inr member))) founded, rfl,
      story _ _ placed⟩

/-- What is allocated is owned through the handle of its entry. -/
theorem Allocates.holds {payload : Payload Code} {outcome : Except Error Value}
    {after : World Code Host} (allocates : Allocates ledger scene before payload outcome after)
    (aimless : payload.target? = none) (unwatched : payload.watchers = []) :
    ledger.Holds scene after (outcomeOwns Value.owns 0 outcome) ∧
      ledger.Passes scene.frame before after := by
  cases outcome with
  | error error => exact allocates
  | ok value =>
    obtain ⟨place, between, rfl, paid, carries, admits, founded, same, story⟩ := allocates
    obtain ⟨done, later⟩ := paid.admitted rfl admits founded
      (admits.watched paid.sound.watched aimless unwatched)
    refine ⟨same ▸ done, ?_, story⟩
    exact (carries.mono (Multiset.subset_of_le (Multiset.le_add_right _ _))).trans later

theorem Keeps.allocates (keeps : engine.Keeps ledger) {payload : Payload Code}
    (founded : payload.Founded before.heap) (unwatched : payload.watchers = [])
    (unlike : payload.isMethod = false) {outcome : Except Error Value}
    {after : World Code Host} (holds : ledger.Holds scene before payload.owns)
    (ended : (engine.allocate payload).run before = .ok (outcome, after)) :
    Allocates ledger scene before payload outcome after :=
  keeps.allocates_of_charge (fun exceeded => Attempt.refuse (.limit exceeded)) (fun _ => .refuse _)
    (fun _ _ _ _ refused => nomatch refused)
    (fun heap _ housed => heap.admits_takeFree payload housed) unwatched founded
    (.of_unbound (by rw [Payload.receiver?_of_isMethod unlike]; exact nofun)) holds ended

theorem Keeps.allocate (keeps : engine.Keeps ledger) (payload : Payload Code)
    (plain : payload.isPlain = true) (aimless : payload.target? = none)
    (unwatched : payload.watchers = []) :
    (engine.allocate payload).Keeps ledger payload.owns Value.owns 0 :=
  fun _ _ holds _ _ ended =>
    (keeps.allocates (Payload.founded_of_isPlain plain) unwatched (Payload.isMethod_of_isPlain plain) holds
      ended).holds aimless unwatched

/-! ### Payloads that refer to nothing weakly -/

theorem Keeps.newString (keeps : engine.Keeps ledger) (text : String) :
    (engine.newString text).Keeps ledger 0 Value.owns 0 :=
  keeps.allocate (.str text) rfl rfl rfl

theorem Keeps.newList (keeps : engine.Keeps ledger) (items : List Value) :
    (engine.newList items).Keeps ledger (owned items) Value.owns 0 :=
  keeps.allocate (.list items) rfl rfl rfl

theorem Keeps.newTuple (keeps : engine.Keeps ledger) (items : List Value) :
    (engine.newTuple items).Keeps ledger (owned items) Value.owns 0 :=
  keeps.allocate (.tuple items) rfl rfl rfl

theorem Keeps.newFunction (keeps : engine.Keeps ledger) (name : String)
    (qualifiedName doc : Option String) (code : Code) :
    (engine.newFunction name qualifiedName doc code).Keeps ledger 0 Value.owns 0 := by
  refine .currentHeap fun heap => .modifyHeap ?_ ((keeps.allocate _ rfl rfl rfl).congr ?_)
  · constructor <;> intro heap <;> rfl
  · simp [Attributes.empty, Attributes.values]

theorem keeps_baseHandles (bases : List Value) :
    (baseHandles bases : Attempt Code Host (List Handle)).Keeps ledger mine (fun _ => mine) mine := by
  induction bases with
  | nil => exact .pure [] rfl
  | cons base others inductionHypothesis =>
    refine .ask fun found => ?_
    cases found with
    | some handle => exact .bind inductionHypothesis fun _ => .pure _ rfl
    | none => exact .ask fun _ => .refuse _

theorem keeps_retainEach (handles : List Handle) (lost : Multiset Handle) :
    (handles.forM fun handle => retain handle : Attempt Code Host Unit).Keeps ledger mine
      (fun _ => mine + (handles : Multiset Handle)) lost := by
  induction handles generalizing mine with
  | nil => exact .pure () (add_zero mine).symm
  | cons handle others inductionHypothesis =>
    rw [← Multiset.cons_coe, ← Multiset.singleton_add, ← add_assoc]
    exact .retain inductionHypothesis

/-- The bases of a new class are classes. -/
theorem baseHandles_eq_ok {bases : List Value} {handles : List Handle}
    {before after : World Code Host} (ended : (baseHandles bases : Attempt Code Host (List Handle)).run before =
      .ok (.ok handles, after)) :
    after = before ∧ ∀ handle ∈ handles, before.heap.IsType handle := by
  induction bases generalizing handles with
  | nil =>
    cases ended
    exact ⟨rfl, fun _ member => nomatch member⟩
  | cons base others inductionHypothesis =>
    obtain ⟨found, asked, ended⟩ := Attempt.ask_bind_eq_ok.mp ended
    cases found with
    | none =>
      obtain ⟨_, _, refused⟩ := Attempt.ask_bind_eq_ok.mp ended
      cases refused
    | some handle =>
      obtain ⟨rest, between, first, last⟩ := Attempt.bind_eq_ok.mp ended
      cases last
      obtain ⟨rfl, types⟩ := inductionHypothesis first
      refine ⟨rfl, fun other member => ?_⟩
      rcases List.mem_cons.mp member with rfl | member
      · exact (Heap.type?_eq_some asked).2
      · exact types other member

/-- References that are retained one by one change no payload. -/
theorem payload?_of_retainEach {handles : List Handle} {after : World Code Host}
    (ended : (handles.forM fun handle => retain handle : Attempt Code Host Unit).run before =
      .ok (.ok (), after)) (handle : Handle) :
    after.heap.payload? handle = before.heap.payload? handle := by
  induction handles generalizing before with
  | nil =>
    cases ended
    rfl
  | cons first others inductionHypothesis =>
    obtain ⟨_, between, retained, rest⟩ := Attempt.act_bind_eq_ok.mp ended
    exact (inductionHypothesis rest).trans (payload?_of_retain retained handle)

/-- A class that is created is made of its bases, which the class itself keeps. -/
theorem Keeps.newClass (keeps : engine.Keeps ledger) (name : String) (bases : List Value) :
    (engine.newClass name bases).Keeps ledger 0 Value.owns 0 := by
  intro scene before holds
  refine .bindOk (keeps_baseHandles bases scene before holds) fun handles between based stands _ => ?_
  obtain ⟨rfl, types⟩ := baseHandles_eq_ok based
  refine .ask fun ancestors inherited => ?_
  refine .bindOk (keeps_retainEach handles 0 scene between stands) fun _ held retained stood _ => ?_
  intro outcome after ended
  refine (keeps.allocates ?_ rfl rfl (stood.congr ?_) ended).holds rfl rfl
  · have steady := payload?_of_retainEach retained
    refine ⟨fun base member => ?_, ?_⟩
    · obtain ⟨data, found⟩ := types base member
      exact ⟨data, (steady base).trans found⟩
    · rw [Heap.ancestors_eq_ok inherited]
      exact congrArg List.eraseDups
        (List.flatMap_congr fun base _ => (Heap.lineage_congr (steady base)).symm)
  · simp [Attributes.empty, Attributes.values]

theorem Keeps.newInstance (keeps : engine.Keeps ledger) (type : Value) :
    (engine.newInstance type).Keeps ledger 0 Value.owns 0 := by
  refine .ask fun found => ?_
  cases found with
  | none => exact .ask fun name => .refuse _
  | some handle =>
    refine .retain ((keeps.allocate _ rfl rfl rfl).congr ?_)
    simp [Attributes.empty, Attributes.values]

/-! ### Methods -/

/-- A method that is made of values that are not both nil has an owner or is bound. -/
theorem grounded_present? (function : Handle) {receiver owner : Value}
    (needed : ¬(receiver.isNil && owner.isNil) = true) :
    Method.Grounded { function, receiver := receiver.present?, owner := owner.present?, watchers := [] } where
  present held := by
    cases owner <;> cases held
  owned missing := by
    cases receiver <;> cases owner <;> first | rfl | exact absurd rfl needed | cases missing

/-- A method that is allocated takes a reference to its function, and takes the other parts over. -/
theorem Keeps.allocatesMethod (keeps : engine.Keeps ledger) {function : Handle}
    {receiver owner : Option Value} {data : Function Code} {outcome : Except Error Value}
    {after : World Code Host} (found : before.heap.payload? function = some (.function data))
    (grounded : Method.Grounded { function, receiver, owner, watchers := [] })
    (binds : ledger.Binds scene.frame
      (.method { function, receiver, owner, watchers := [] }) before)
    (holds : ledger.Holds scene before (owned receiver.toList + owned owner.toList))
    (ended : (engine.allocateMethod function receiver owner).run before = .ok (outcome, after)) :
    ∃ held, Allocates ledger scene held (.method { function, receiver, owner, watchers := [] })
      outcome after ∧ (retain function : Action Code Host Unit) before = .ok ((), held) ∧
      ledger.Passes scene.frame before held := by
  let payload : Payload Code := .method { function, receiver, owner, watchers := [] }
  let refuse (_ : LimitExceeded) : Attempt Code Host Value := do
    let data ← ask fun heap => heap.function function
    Attempt.refuse (.methodNotCreated data.name)
  have fails (exceeded before value after) :
      (refuse exceeded).run before ≠ .ok (.ok value, after) := fun refused => by
    obtain ⟨data, between, _, stopped⟩ := Attempt.bind_eq_ok.mp refused
    cases stopped
  unfold Engine.allocateMethod at ended
  have ran := ended
  change (Attempt.ofAction (retain function) >>= fun _ => _).run before = _ at ran
  rw [Attempt.run_ofAction_bind] at ran
  obtain ⟨_, held, retained, ran⟩ := Action.bind_eq_ok.mp ran
  obtain ⟨taken, carries⟩ := (Action.Keeps.retain function).gain _ scene before holds _ _ retained
  have owns : owned receiver.toList + owned owner.toList + {function} = payload.owns := by
    rw [Payload.owns_method, Method.parts, owned_append]
    exact add_comm _ _
  have founded : payload.Founded held.heap :=
    ⟨⟨data, (payload?_of_retain retained function).trans found⟩, grounded⟩
  exact ⟨held, keeps.allocates_of_charge refuse (fun _ => .ask fun _ => .refuse _)
    fails (fun heap _ housed => heap.admits_takeFreeForMethod rfl housed) rfl founded
    (binds.passes carries fun _ member => taken.isLive (Multiset.mem_add.mpr (Or.inl member)))
    (taken.congr owns) ran, retained, carries⟩

theorem Keeps.allocateMethod (keeps : engine.Keeps ledger) {function : Handle}
    {receiver owner : Option Value} {data : Function Code}
    (found : before.heap.payload? function = some (.function data))
    (grounded : Method.Grounded { function, receiver, owner, watchers := [] })
    (binds : ledger.Binds scene.frame
      (.method { function, receiver, owner, watchers := [] }) before)
    (holds : ledger.Holds scene before (owned receiver.toList + owned owner.toList)) :
    (engine.allocateMethod function receiver owner).Yields ledger scene before Value.owns 0 := by
  intro outcome after ended
  obtain ⟨held, allocates, _, carries⟩ := keeps.allocatesMethod found grounded binds holds ended
  obtain ⟨done, later⟩ := allocates.holds rfl rfl
  exact ⟨done, carries.trans later⟩

theorem keeps_methodFunction (function : Value) :
    (methodFunction function : Attempt Code Host Handle).Keeps ledger mine (fun _ => mine) mine := by
  cases function with
  | ref handle =>
    refine .ask fun payload => ?_
    cases payload <;> first | exact .pure _ rfl | exact .refuse _
  | _ => exact .refuse _

/-- A method is made of what is there and a function. -/
theorem methodFunction_eq_ok {value : Value} {handle : Handle} {after : World Code Host}
    (ended : (methodFunction value : Attempt Code Host Handle).run before =
      .ok (.ok handle, after)) :
    after = before ∧ value = .ref handle ∧
      ∃ data, before.heap.payload? handle = some (.function data) := by
  cases value with
  | ref other =>
    obtain ⟨payload, read, answered⟩ := Attempt.ask_bind_eq_ok.mp ended
    cases payload with
    | function data =>
      cases answered
      exact ⟨rfl, rfl, data, before.heap.read_eq_ok.mp read⟩
    | _ => cases answered
  | _ => cases ended

theorem Keeps.newMethod (keeps : engine.Keeps ledger) (function receiver owner : Value) :
    (engine.newMethod function receiver owner).Keeps ledger 0 Value.owns 0 := by
  intro scene before holds
  refine .bindOk (keeps_methodFunction function scene before holds) fun handle between found stands _ => ?_
  obtain ⟨rfl, _, data, there⟩ := methodFunction_eq_ok found
  split
  · exact .refuse stands
  · rename_i needed
    refine .retainValue stands fun middle taken same => .retainValue taken fun last held same' => ?_
    refine keeps.allocateMethod ((same' handle).trans ((same handle).trans there))
      (grounded_present? _ needed) (.of_unbound receiver.present?_ne_nil) (held.congr ?_)
    rw [Value.owned_present?, Value.owned_present?, zero_add]

end Engine

/-! ### Weak references -/

/-- Only a live entry of a kind that can be weakly referenced is weakly referenced. -/
theorem Heap.referable?_eq_some {Code : Type} {heap : Heap Code} {value : Value} {handle : Handle}
    (found : heap.referable? value = .ok (some handle)) :
    value = .ref handle ∧ ∃ payload, heap.payload? handle = some payload ∧ payload.isReferable := by
  obtain ⟨read, asked, answered⟩ := Heap.bind_eq_ok.mp found
  cases value with
  | ref place =>
    obtain ⟨payload, held, same⟩ := Heap.bind_eq_ok.mp asked
    cases same
    have referable : (if payload.isReferable then some place else none) = some handle :=
      Except.ok.inj answered
    split at referable
    · rename_i able
      cases referable
      exact ⟨rfl, payload, heap.read_eq_ok.mp held, able⟩
    · cases referable
  | _ =>
    cases asked
    cases answered

theorem Payload.isReferable_of_continues {Code : Type} {payload later : Payload Code}
    (continues : payload.Continues later) (referable : payload.isReferable) :
    later.isReferable := by
  cases payload <;> cases later <;> first | exact referable | exact continues.elim

theorem Payload.watchers_mapWatchers_of_isReferable {Code : Type} {payload : Payload Code}
    (referable : payload.isReferable) (change : List Handle → List Handle) :
    (payload.mapWatchers change).watchers = change payload.watchers := by
  cases payload <;> first | rfl | cases referable

namespace Heap

variable {Code : Type} {before heap : Heap Code} {payload : Payload Code} {callback : Option Value}
  {place target : Handle}

namespace Admits

variable (admits : before.Admits (.weakref { target := some target, callback }) place heap)

include admits

/-- Whatever is in no register before is in none after. -/
theorem not_mem_watchers_placed {weakref : Handle} (unlisted : ∀ other, weakref ∉ before.watchers other)
    (other : Handle) : weakref ∉ heap.watchers other := by
  by_cases new : other = place
  · rw [new, watchers_of_payload? admits.payload?_here]
    exact List.not_mem_nil
  · rw [watchers_congr (admits.payload?_others new)]
    exact unlisted other

variable (found : before.payload? target = some payload)

include found

theorem ne_of_payload? : target ≠ place := by
  rintro rfl
  rw [admits.payload?_empty] at found
  cases found

theorem payload?_registered (other : Handle) : (heap.register target place).payload? other =
    if other = target then some (payload.mapWatchers (· ++ [place])) else heap.payload? other := by
  unfold register
  rw [payload?_mapPayload]
  split
  · rename_i here
    rw [here, admits.payload?_others (admits.ne_of_payload? found), found]
    rfl
  · rfl

theorem payload?_registered_place : (heap.register target place).payload? place =
    some (.weakref { target := some target, callback }) :=
  (admits.payload?_registered found place).trans
    ((if_neg (Ne.symm (admits.ne_of_payload? found))).trans admits.payload?_here)

theorem payload?_registered_others {other : Handle} (here : other ≠ target) (new : other ≠ place) :
    (heap.register target place).payload? other = before.payload? other :=
  (admits.payload?_registered found other).trans ((if_neg here).trans (admits.payload?_others new))

theorem target?_registered (other : Handle) : (heap.register target place).target? other =
    if other = place then some target else before.target? other := by
  by_cases new : other = place
  · rw [if_pos new, new]
    exact target?_eq_some.mpr ⟨_, admits.payload?_registered_place found, rfl⟩
  · rw [if_neg new]
    by_cases here : other = target
    · rw [here, target?_of_payload? ((admits.payload?_registered found target).trans (if_pos rfl)),
        target?_mapWatchers, target?_of_payload? found]
    · exact target?_congr (admits.payload?_registered_others found here new)

theorem watchers_registered (referable : payload.isReferable) (other : Handle) :
    (heap.register target place).watchers other =
      if other = target then before.watchers other ++ [place] else before.watchers other := by
  by_cases here : other = target
  · rw [if_pos here, here,
      watchers_of_payload? ((admits.payload?_registered found target).trans (if_pos rfl)),
      Payload.watchers_mapWatchers_of_isReferable referable, watchers_of_payload? found]
  · rw [if_neg here]
    by_cases new : other = place
    · rw [new, watchers_of_payload? (admits.payload?_registered_place found)]
      unfold watchers
      rw [admits.payload?_empty]
      rfl
    · exact watchers_congr (admits.payload?_registered_others found here new)

end Admits

end Heap

/-- A weak reference that was placed is enrolled with its target. -/
theorem Ledger.Holds.enroll (holds : ledger.Holds scene before mine) {callback : Option Value}
    {place target : Handle} {payload : Payload Code} {heap : Heap Code}
    (same : mine = owned callback.toList)
    (admits : before.heap.Admits (.weakref { target := some target, callback }) place heap)
    (found : before.heap.payload? target = some payload) (referable : payload.isReferable) :
    ledger.Holds scene { before with heap := heap.register target place } {place} ∧
      before.heap.Carries ledger.calm scene.frame (heap.register target place) ∧
      Story ledger.conduct .operating { before with heap }
        { before with heap := heap.register target place } ∧
      (heap.register target place).target? place = some target := by
  have balanced : heap.Balanced (scene.frame + ledger.held before.host + {place}) := by
    refine admits.balanced ?_
    convert holds.sound.balanced using 1
    rw [same, Payload.owns_weakref]
    abel
  have targets := admits.target?_registered found
  have carries : before.heap.Carries ledger.calm scene.frame (heap.register target place) :=
    (admits.carries holds.sound.balanced holds.sound.watched (scene.frame_subset _ _)).trans
      (.mapWatchers balanced (fun _ member => by
        rw [add_assoc]
        exact Multiset.mem_add.mpr (Or.inl member)) target _)
  have unlisted := holds.sound.watched.not_mem_of_empty admits.payload?_empty
  have formed : heap.Formed := admits.formed holds.sound.balanced holds.sound.formed trivial
  refine ⟨⟨⟨⟨?_, holds.sound.watched.enroll unlisted targets
    (admits.watchers_registered found referable),
    (admits.housed _ holds.sound.housed).mapWatchers target _,
    formed.mapWatchers target _⟩,
    admits.releasing.trans holds.releasing, ledger.lasts holds.fits carries.evolves⟩,
    fun idle => admits.pending.trans (holds.settled idle), holds.tidy⟩, carries,
    .enroll (Heap.target?_of_payload? admits.payload?_here) (admits.not_mem_watchers_placed unlisted),
    (targets place).trans (if_pos rfl)⟩
  rw [add_right_comm]
  exact balanced.mapWatchers target _

/-- What a weak reference that was created refers to is what it was asked for, which is still
there. -/
def aimsAt (before after : Heap Code) (target : Value) : Except Error Value → Prop
  | .ok value => ∃ handle weakref, target = .ref handle ∧ value = .ref weakref ∧
      after.target? weakref = some handle ∧ after.births handle = before.births handle
  | .error _ => True

/-- Creating a weak reference takes the callback over and takes no reference to the target, which
others hold in the meantime. -/
theorem Engine.Keeps.yields_newWeakref {engine : Engine Code Host} (keeps : engine.Keeps ledger)
    {target : Value} {callback : Option Value} (held : target.owns ⊆ scene.frame)
    (holds : ledger.Holds scene before (owned callback.toList))
    {outcome : Except Error Value} {after : World Code Host}
    (ended : (engine.newWeakref target callback).run before = .ok (outcome, after)) :
    (ledger.Holds scene after (outcomeOwns Value.owns 0 outcome) ∧
      ledger.Passes scene.frame before after) ∧
    aimsAt before.heap after.heap target outcome := by
  obtain ⟨found, asked, ended⟩ := Attempt.ask_bind_eq_ok.mp ended
  have present : owned (callback.bind Value.present?).toList = owned callback.toList := by
    cases callback with
    | none => rfl
    | some value => simpa using value.owned_present?
  cases found with
  | none =>
    obtain ⟨type, _, ended⟩ := Attempt.ask_bind_eq_ok.mp ended
    obtain ⟨done, carries⟩ := (Attempt.Keeps.act (keeps.release? _) fun _ => .refuse _ :
      Attempt.Keeps ledger _ _ Value.owns 0) scene before (holds.congr present.symm) _ _ ended
    refine ⟨⟨done, carries⟩, ?_⟩
    cases outcome with
    | error error => trivial
    | ok value =>
      obtain ⟨_, between, _, refused⟩ := Attempt.bind_eq_ok.mp ended
      cases refused
  | some handle =>
    obtain ⟨rfl, payload, live, referable⟩ := Heap.referable?_eq_some asked
    have member : handle ∈ scene.frame := held (by rw [Value.owns_ref]; simp)
    rw [Attempt.run_bind] at ended
    obtain ⟨first, between, allocated, rest⟩ := Action.bind_eq_ok.mp ended
    have founded : Payload.Founded (.weakref
        { target := some handle, callback := callback.bind Value.present? }) before.heap := trivial
    -- The target is not owned. It outlives the allocation since the frame holds it.
    have allocates := keeps.allocates founded rfl rfl (holds.congr (by rw [Payload.owns_weakref, present]))
      allocated
    cases first with
    | error error =>
      cases rest
      exact ⟨allocates, trivial⟩
    | ok value =>
      obtain ⟨place, paid, rfl, done, kept, admits, _, same, placed⟩ := allocates
      have carries : before.heap.Carries ledger.calm scene.frame paid.heap :=
        kept.mono (Multiset.subset_of_le (Multiset.le_add_right _ _))
      obtain ⟨_, _, rest⟩ := Attempt.ask_bind_eq_ok.mp rest
      cases rest
      have kept := carries.kept handle member
      obtain ⟨later, found⟩ := Heap.exists_payload?_of_isLive
        (done.isLive (Multiset.mem_add.mpr (Or.inl member)))
      obtain ⟨enrolled, further, registered, aimed⟩ := done.enroll (Payload.owns_weakref _) admits found
        (Payload.isReferable_of_continues
          (carries.evolves.continues handle payload later live found kept) referable)
      rw [← same] at registered
      rw [same]
      exact ⟨⟨enrolled, carries.trans further, placed.andThen registered⟩, handle, place, rfl, rfl,
        aimed, (further.kept handle member).trans kept⟩

end ObjectHeap
