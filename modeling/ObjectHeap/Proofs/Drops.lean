/-
This file says what it comes to when references are dropped. An entry is doomed when all its
references are dropped or come from doomed entries; the doomed entries are the least set for which
this is so, a notion that knows neither a stack nor an order. The loop that works releases off
frees exactly them. What it frees next is always doomed, because the counts are exact, and when
nothing waits any more, every doomed entry is freed, because no live entry has a count of zero. So
the order of the drops is of no account.
-/

import ObjectHeap.Proofs.Freeing
import ObjectHeap.Proofs.Runs

namespace ObjectHeap

variable {Code Host : Type}

namespace Heap

/-! ### Doomed entries -/

/-- The references that the entries in some slots hold to one entry. -/
def edgesFrom (heap : Heap Code) (slots : Finset Handle) (handle : Handle) : Nat :=
  ∑ place ∈ slots, (heap.visits place).count handle

/-- A set of slots is closed under drops if it contains every entry whose references all come from
the set or are dropped. -/
def Closed (heap : Heap Code) (drops : Multiset Handle) (slots : Finset Handle) : Prop :=
  ∀ handle, heap.isLive handle →
    heap.tally handle = heap.edgesFrom slots handle + drops.count handle → handle ∈ slots

/-- No weak reference to an entry in some slots has a callback. -/
def Uncalled (heap : Heap Code) (slots : Finset Handle) : Prop :=
  ∀ weakref, ∀ target ∈ slots, heap.target? weakref = some target → heap.callback? weakref = none

variable {heap : Heap Code} {outside drops : Multiset Handle} {slots others : Finset Handle}
  {handle : Handle}

theorem edgesFrom_mono (sub : slots ⊆ others) (handle : Handle) :
    heap.edgesFrom slots handle ≤ heap.edgesFrom others handle :=
  Finset.sum_le_sum_of_subset sub

theorem edgesFrom_le (heap : Heap Code) (slots : Finset Handle) (handle : Handle) :
    heap.edgesFrom slots handle ≤ heap.edges.count handle := by
  obtain ⟨bound, inside⟩ := slots.exists_nat_subset_range
  rw [heap.count_edges_of_le (max heap.slots.size bound) (le_max_left _ _)]
  exact edgesFrom_mono (inside.trans (Finset.range_mono (le_max_right _ _))) handle

theorem Balanced.tally_eq (balanced : heap.Balanced outside) (settled : heap.pending = [])
    (handle : Handle) : heap.tally handle = heap.edges.count handle + outside.count handle := by
  rw [balanced.exact, settled, List.count_nil, add_zero]

/-- An entry has at least the references that are dropped or come from a set. -/
theorem Balanced.edgesFrom_add_le (balanced : heap.Balanced outside) (settled : heap.pending = [])
    (within : drops ≤ outside) (slots : Finset Handle) (handle : Handle) :
    heap.edgesFrom slots handle + drops.count handle ≤ heap.tally handle := by
  rw [balanced.tally_eq settled]
  exact Nat.add_le_add (heap.edgesFrom_le slots handle) (Multiset.count_le_of_le handle within)

/-- What is in every closed set is closed. -/
theorem Balanced.exists_isLeast_closed (balanced : heap.Balanced outside)
    (settled : heap.pending = []) (within : drops ≤ outside) :
    ∃ doomed, IsLeast {slots | heap.Closed drops slots} doomed := by
  classical
  refine ⟨(Finset.range heap.slots.size).filter fun handle =>
    ∀ slots, heap.Closed drops slots → handle ∈ slots, fun handle live counted => ?_,
    fun slots closed handle member => (Finset.mem_filter.mp member).2 slots closed⟩
  obtain ⟨entry, occupied⟩ := (heap.isLive_iff handle).mp live
  refine Finset.mem_filter.mpr ⟨Finset.mem_range.mpr (heap.lt_size_of_occupant? occupied),
    fun slots closed => closed handle live (le_antisymm ?_ ?_)⟩
  · rw [counted]
    refine Nat.add_le_add_right (edgesFrom_mono (fun other member => ?_) handle) _
    exact (Finset.mem_filter.mp member).2 slots closed
  · exact balanced.edgesFrom_add_le settled within slots handle

/-! ### What is left -/

/-- Some entries were freed, all of them doomed, and the others have forgotten them. -/
structure Thins (first : Heap Code) (doomed gone : Finset Handle) (later : Heap Code) : Prop where
  lives : ∀ place ∈ gone, first.isLive place
  within : gone ⊆ doomed
  payloads : ∀ handle, later.payload? handle =
    if handle ∈ gone then none
    else (first.payload? handle).map (Payload.without fun other => decide (other ∈ gone))
  births : ∀ handle, later.births handle = first.births handle

namespace Thins

variable {first later last : Heap Code} {doomed gone : Finset Handle} {place : Handle}

theorem refl (heap : Heap Code) (doomed : Finset Handle) : heap.Thins doomed ∅ heap where
  lives _ member := absurd member (Finset.notMem_empty _)
  within := Finset.empty_subset doomed
  payloads handle := by
    rw [if_neg (Finset.notMem_empty handle)]
    cases heap.payload? handle with
    | none => rfl
    | some payload => exact congrArg some payload.without_nothing.symm
  births _ := rfl

theorem congr (thins : first.Thins doomed gone later)
    (payloads : ∀ handle, last.payload? handle = later.payload? handle)
    (births : ∀ handle, last.births handle = later.births handle) :
    first.Thins doomed gone last where
  lives := thins.lives
  within := thins.within
  payloads handle := (payloads handle).trans (thins.payloads handle)
  births handle := (births handle).trans (thins.births handle)

theorem of_slots (thins : first.Thins doomed gone later) (slots : last.slots = later.slots) :
    first.Thins doomed gone last :=
  thins.congr (fun handle => payload?_congr (occupant?_congr slots handle)) (births_congr slots)

variable (thins : first.Thins doomed gone later)

include thins

/-- A weak reference that is left refers to what it referred to. -/
theorem target? {weakref target : Handle} (aimed : later.target? weakref = some target) :
    first.target? weakref = some target := by
  unfold Heap.target? at aimed ⊢
  rw [thins.payloads] at aimed
  split at aimed
  · cases aimed
  · cases found : first.payload? weakref with
    | none =>
      rw [found] at aimed
      cases aimed
    | some payload =>
      rw [found] at aimed
      exact (Payload.target?_without.mp aimed).1

theorem not_mem_of_payload? {payload : Payload Code} (held : later.payload? place = some payload) :
    place ∉ gone := by
  intro member
  rw [thins.payloads, if_pos member] at held
  cases held

theorem isLive_of_payload? {payload : Payload Code} (held : later.payload? place = some payload) :
    first.isLive place := by
  have kept := thins.payloads place
  rw [if_neg (thins.not_mem_of_payload? held), held] at kept
  obtain ⟨before, found, _⟩ := Option.map_eq_some_iff.mp kept.symm
  exact Heap.isLive_of_payload? found

/-- One more entry was freed. -/
theorem free {payload : Payload Code} {cleared : Heap Code}
    {callbacks : List (Handle × Value)}
    (frees : later.Frees place payload callbacks cleared) (member : place ∈ doomed) :
    first.Thins doomed (insert place gone) (cleared.bury place payload) where
  lives other inside := by
    rcases Finset.mem_insert.mp inside with rfl | inside
    · exact thins.isLive_of_payload? frees.held
    · exact thins.lives other inside
  within := Finset.insert_subset member thins.within
  payloads handle := by
    rw [frees.payload?_bury, thins.payloads]
    by_cases same : handle = place
    · rw [if_pos same, if_pos (Finset.mem_insert.mpr (Or.inl same))]
    · rw [if_neg same]
      by_cases inside : handle ∈ gone
      · rw [if_pos inside, if_pos (Finset.mem_insert_of_mem inside)]
        rfl
      · rw [if_neg inside, if_neg fun new => (Finset.mem_insert.mp new).elim same inside,
          Option.map_map]
        refine congrArg (Option.map · _) (funext fun payload => ?_)
        refine (payload.without_without _ _).trans (congrArg payload.without (funext fun other => ?_))
        simp [Finset.mem_insert, Bool.or_comm]
  births handle := (Heap.births_bury cleared place payload handle).trans
    ((frees.births handle).trans (thins.births handle))

theorem size_eq : later.slots.size = first.slots.size := by
  have same (handle : Handle) : handle < later.slots.size ↔ handle < first.slots.size := by
    rw [← births_pos_iff, ← births_pos_iff, thins.births]
  exact le_antisymm (Nat.le_of_not_lt fun more => Nat.lt_irrefl _ ((same _).mp more))
    (Nat.le_of_not_lt fun more => Nat.lt_irrefl _ ((same _).mpr more))

section

variable (uncalled : first.Uncalled doomed)

include uncalled

/-- What is left refers to what it referred to. -/
theorem visits_eq (handle : Handle) :
    later.visits handle = if handle ∈ gone then [] else first.visits handle := by
  unfold Heap.visits
  rw [thins.payloads]
  split
  · rfl
  · cases found : first.payload? handle with
    | none => rfl
    | some payload =>
      refine Payload.visits_without fun target aimed dead => ?_
      have silent := uncalled handle target (thins.within (of_decide_eq_true dead))
        ((target?_of_payload? found).trans aimed)
      unfold Heap.callback? at silent
      rwa [found] at silent

/-- The references between entries are those that are left and those of what was freed. -/
theorem measure_edges (measure : List Handle → Nat) (nothing : measure [] = 0)
    (append : ∀ left right, measure (left ++ right) = measure left + measure right) :
    measure later.edges + ∑ place ∈ gone, measure (first.visits place) = measure first.edges := by
  have inside : gone ⊆ Finset.range first.slots.size := fun place member => by
    obtain ⟨entry, occupied⟩ := (first.isLive_iff place).mp (thins.lives place member)
    exact Finset.mem_range.mpr (first.lt_size_of_occupant? occupied)
  have split (value : Handle → Nat) := Finset.sum_sdiff (f := value) inside
  have freed : ∑ place ∈ gone, measure (later.visits place) = 0 :=
    Finset.sum_eq_zero fun place member => by
      rw [thins.visits_eq uncalled, if_pos member, nothing]
  have kept : ∑ place ∈ Finset.range first.slots.size \ gone, measure (later.visits place) =
      ∑ place ∈ Finset.range first.slots.size \ gone, measure (first.visits place) :=
    Finset.sum_congr rfl fun place member => by
      rw [thins.visits_eq uncalled, if_neg (Finset.mem_sdiff.mp member).2]
  rw [Heap.measure_edges measure nothing append later, Heap.measure_edges measure nothing append first,
    thins.size_eq, ← split, ← split, freed, kept, add_zero]

theorem count_edges (handle : Handle) :
    later.edges.count handle + first.edgesFrom gone handle = first.edges.count handle :=
  thins.measure_edges uncalled (List.count handle) rfl fun _ _ => List.count_append

theorem length_edges :
    later.edges.length + ∑ place ∈ gone, (first.visits place).length = first.edges.length :=
  thins.measure_edges uncalled List.length rfl fun _ _ => List.length_append

end

end Thins

end Heap

/-! ### The loop -/

/-- What is known while references are dropped: how many were owned at first, which of them are
dropped, and what is doomed by that. No callback is due for what is doomed. -/
structure Heap.Doom (first : Heap Code) (outside drops : Multiset Handle) (doomed : Finset Handle) : Prop where
  balanced : first.Balanced outside
  settled : first.pending = []
  within : drops ≤ outside
  least : IsLeast {slots | first.Closed drops slots} doomed
  uncalled : first.Uncalled doomed

namespace Heap.Doom

variable {first later : Heap Code} {outside drops left : Multiset Handle} {doomed gone : Finset Handle}
  {limbo : List Handle} {place : Handle} {entry : Entry Code} (doom : first.Doom outside drops doomed)

include doom

/-- Whatever has come to its last reference is doomed: all others were dropped, or came from entries
that were freed. -/
theorem mem_doomed (thins : first.Thins doomed gone later) (balanced : later.Balanced (left + {place}))
    (kept : outside ≤ left + drops) (held : later.occupant? place = some entry)
    (last : entry.count ≤ 1) : place ∈ doomed := by
  obtain ⟨unreferred, unowned⟩ := balanced.unreferred held last
  have live : first.isLive place :=
    thins.isLive_of_payload? (later.payload?_eq_some.mpr ⟨entry, held, rfl⟩)
  have edges := thins.count_edges doom.uncalled place
  have freed : first.edgesFrom gone place ≤ first.edgesFrom doomed place :=
    Heap.edgesFrom_mono thins.within place
  have dropped := Multiset.count_le_of_le place kept
  have least := doom.balanced.edgesFrom_add_le doom.settled doom.within doomed place
  rw [List.count_eq_zero.mpr unreferred] at edges
  rw [Multiset.count_add, Multiset.count_eq_zero.mpr unowned] at dropped
  refine doom.least.1 place live (le_antisymm ?_ least)
  rw [doom.balanced.tally_eq doom.settled]
  omega

/-- What is freed next is freed without a callback. -/
theorem undue (thins : first.Thins doomed gone later) (watched : later.Watched)
    (member : place ∈ doomed) :
    ∀ weakref ∈ later.watchers place, later.callback? weakref = none := by
  intro weakref registered
  have silent := doom.uncalled weakref place member
    (thins.target? ((watched.registered weakref place).mpr registered))
  unfold Heap.callback? at silent ⊢
  rw [thins.payloads]
  split
  · rfl
  · cases found : first.payload? weakref with
    | none => rfl
    | some payload =>
      rw [found] at silent
      exact Payload.callbackOf_without silent _

/-- When nothing waits any more, each count has fallen by what was dropped and what was freed. -/
theorem tally_eq (thins : first.Thins doomed gone later) (balanced : later.Balanced left)
    (settled : later.pending = []) (split : outside = left + drops) (handle : Handle) :
    first.tally handle = later.tally handle + (first.edgesFrom gone handle + drops.count handle) := by
  have edges := thins.count_edges doom.uncalled handle
  have owned := congrArg (Multiset.count handle) split
  rw [Multiset.count_add] at owned
  rw [doom.balanced.tally_eq doom.settled, balanced.tally_eq settled]
  omega

/-- When nothing waits any more, all that is doomed was freed: a live entry has references left. -/
theorem gone_eq (thins : first.Thins doomed gone later) (balanced : later.Balanced left)
    (settled : later.pending = []) (split : outside = left + drops) : gone = doomed := by
  refine le_antisymm thins.within (doom.least.2 fun handle live counted => ?_)
  have fallen := doom.tally_eq thins balanced settled split handle
  by_contra spared
  obtain ⟨payload, held⟩ := Heap.exists_payload?_of_isLive live
  have there : later.isLive handle := by
    rw [Heap.isLive_eq_payload?, thins.payloads, if_neg spared, held]
    rfl
  have positive := balanced.positive handle there
  omega

/-- An entry that is left has its count, less what was dropped and what was freed. -/
theorem occupant?_eq (thins : first.Thins doomed doomed later) (balanced : later.Balanced left)
    (settled : later.pending = []) (split : outside = left + drops) (handle : Handle) :
    later.occupant? handle =
      if handle ∈ doomed then none
      else (first.occupant? handle).map fun entry =>
        { count := entry.count - (first.edgesFrom doomed handle + drops.count handle)
          payload := entry.payload.without fun other => decide (other ∈ doomed) } := by
  have fallen := doom.tally_eq thins balanced settled split handle
  have payloads := thins.payloads handle
  rw [Heap.payload?_eq, Heap.payload?_eq] at payloads
  split
  · rename_i member
    rwa [if_pos member, Option.map_eq_none_iff] at payloads
  · rename_i spared
    rw [if_neg spared] at payloads
    cases found : first.occupant? handle with
    | none =>
      rw [found] at payloads
      exact Option.map_eq_none_iff.mp payloads
    | some entry =>
      rw [found] at payloads
      obtain ⟨left, held, same⟩ := Option.map_eq_some_iff.mp payloads
      rw [Heap.tally_of_occupant? found, Heap.tally_of_occupant? held] at fallen
      rw [held, Option.map_some, ← same, fallen, Nat.add_sub_cancel]

end Heap.Doom

namespace Engine

variable {first : Heap Code} {outside drops left : Multiset Handle} {doomed gone : Finset Handle}
  {limbo : List Handle} (engine : Engine Code Host) (before : World Code Host)

section

variable (doom : first.Doom outside drops doomed)

include doom

/-- One reference is given up. One reference less is left, in the entries and on the stack
together. -/
theorem exists_releaseNext {place : Handle} (thins : first.Thins doomed gone before.heap)
    (sound : before.heap.Sound (left + {place}) limbo) (busy : before.heap.releasing = true)
    (kept : outside ≤ left + drops) :
    ∃ heap gone, engine.releaseNext place before = .ok ((), { before with heap }) ∧
      first.Thins doomed gone heap ∧ heap.Sound left limbo ∧ heap.releasing = true ∧
      heap.pending.length + heap.edges.length =
        before.heap.pending.length + before.heap.edges.length := by
  obtain ⟨after, ended, lessens, done⟩ := engine.exists_lessens sound busy fun _ held last =>
    doom.undue thins sound.watched (doom.mem_doomed thins sound.balanced kept held last)
  have still := lessens.releasing.trans busy
  have edges := thins.length_edges doom.uncalled
  cases lessens with
  | counted held more =>
    have spared := thins.congr
      (fun other => before.heap.payload?_mapEntry_count place other (· - 1))
      fun other => Heap.births_mapEntry _ _ _ _
    have same := spared.length_edges doom.uncalled
    refine ⟨_, gone, ended, spared, done, still, ?_⟩
    show before.heap.pending.length + _ = _
    omega
  | @freed entry cleared held last frees =>
    have freed := thins.free frees (doom.mem_doomed thins sound.balanced kept held last)
    have same := freed.length_edges doom.uncalled
    have absent := thins.not_mem_of_payload? frees.held
    have owned : (first.visits place) = entry.payload.visits := by
      have visits := thins.visits_eq doom.uncalled place
      rw [if_neg absent, Heap.visits_of_occupant? held] at visits
      exact visits.symm
    have waiting : (cleared.bury place entry.payload).pending.length =
        entry.payload.visits.length + before.heap.pending.length := by
      have left := congrArg Multiset.card (entry.payload.leavings_eq cleared.pending)
      have unchanged : cleared.pending = before.heap.pending := (congrArg Heap.pending frees.books :)
      rw [Heap.pending_bury, ← unchanged]
      simpa [Payload.owns] using left
    rw [Finset.sum_insert absent, owned] at same
    exact ⟨_, _, ended, freed, done, still, by omega⟩

/-- The loop ends when no reference waits any more. -/
theorem exists_releaseAll (rounds : Nat) (thins : first.Thins doomed gone before.heap)
    (sound : before.heap.Sound left limbo) (busy : before.heap.releasing = true)
    (kept : outside ≤ left + drops)
    (enough : before.heap.pending.length + before.heap.edges.length ≤ rounds) :
    ∃ heap gone, engine.releaseAll rounds before = .ok ((), { before with heap }) ∧
      first.Thins doomed gone heap ∧ heap.Sound left limbo ∧ heap.pending = [] := by
  induction rounds generalizing before gone with
  | zero =>
    have pending : before.heap.pending = [] := List.length_eq_zero_iff.mp (by omega)
    exact ⟨before.heap, gone, engine.releaseAll_of_settled 0 pending, thins, sound, pending⟩
  | succ rounds inductionHypothesis =>
    cases pending : before.heap.pending with
    | nil =>
      exact ⟨before.heap, gone, engine.releaseAll_of_settled (rounds + 1) pending, thins, sound,
        pending⟩
    | cons place waiting =>
      let taken : Heap Code := { before.heap with pending := waiting }
      obtain ⟨heap, freed, released, thinner, done, still, fewer⟩ :=
        engine.exists_releaseNext { before with heap := taken } doom (thins.of_slots rfl)
          (sound.dequeue pending) busy kept
      rw [pending, List.length_cons] at enough
      have fewer : heap.pending.length + heap.edges.length =
        waiting.length + before.heap.edges.length := fewer
      obtain ⟨last, gone, ended, reached⟩ := inductionHypothesis { before with heap } thinner
        done still (by show heap.pending.length + heap.edges.length ≤ rounds; omega)
      exact ⟨last, gone, engine.releaseAll_of_cons pending released ended, reached⟩

/-- One of the references that are owned is dropped. -/
theorem exists_release {place : Handle} (thins : first.Thins doomed gone before.heap)
    (sound : before.heap.Sound (left + {place}) limbo) (idle : before.heap.releasing = false)
    (settled : before.heap.pending = []) (kept : outside ≤ left + drops)
    (enough : first.edges.length < engine.rounds) :
    ∃ heap gone, engine.release (.ref place) before = .ok ((), { before with heap }) ∧
      first.Thins doomed gone heap ∧ heap.Sound left limbo ∧ heap.releasing = false ∧
      heap.pending = [] := by
  let started : Heap Code := { before.heap with pending := [place], releasing := true }
  have waits : started.Sound left limbo :=
    sound.of_slots rfl rfl rfl (by
      rw [settled]
      show ({place} : Multiset Handle) + left = 0 + (left + {place})
      abel)
  have edges := thins.length_edges doom.uncalled
  obtain ⟨heap, gone, ended, thinner, done, empty⟩ :=
    engine.exists_releaseAll { before with heap := started } doom engine.rounds
      (thins.of_slots rfl) waits rfl kept (by
        show 1 + before.heap.edges.length ≤ engine.rounds
        omega)
  refine ⟨{ heap with releasing := false }, gone, ?_, thinner.of_slots rfl,
    done.of_slots rfl rfl rfl rfl, rfl, empty⟩
  let waiting : World Code Host :=
    { before with heap := { before.heap with pending := [place] } }
  have still : waiting.heap.releasing = false := idle
  rw [engine.release_ref, settled]
  exact engine.drain_of_releaseAll still ended

/-- References that are owned are dropped one after the other. -/
theorem exists_releaseList (order : List Handle) (thins : first.Thins doomed gone before.heap)
    (sound : before.heap.Sound (left + order) limbo) (idle : before.heap.releasing = false)
    (settled : before.heap.pending = []) (kept : outside ≤ left + drops)
    (enough : first.edges.length < engine.rounds) :
    ∃ heap gone, engine.releaseList (order.map .ref) before = .ok ((), { before with heap }) ∧
      first.Thins doomed gone heap ∧ heap.Sound left limbo ∧ heap.releasing = false ∧
      heap.pending = [] := by
  induction order generalizing before gone with
  | nil => exact ⟨before.heap, gone, rfl, thins, sound.congr (add_zero left), idle, settled⟩
  | cons place order inductionHypothesis =>
    have owned : before.heap.Sound (left + order + {place}) limbo :=
      sound.congr (by rw [← Multiset.cons_coe, ← Multiset.singleton_add]; abel)
    obtain ⟨heap, freed, released, thinner, done, still, empty⟩ :=
      engine.exists_release before doom thins owned idle settled
        (kept.trans (add_le_add_left (Multiset.le_add_right left order) drops)) enough
    obtain ⟨last, gone, ended, reached⟩ :=
      inductionHypothesis { before with heap } thinner done still empty
    exact ⟨last, gone, Action.bind_eq_ok.mpr ⟨(), _, released, ended⟩, reached⟩

end

/-- In a heap whose counts are exact and in which nothing waits, references that are owned are
dropped, in any order. The doomed entries are the least set that is closed under the drops; if none
of them has a weak reference with a callback, they are what is freed. All other entries stay as they
were, except that they have forgotten what was freed, and their counts fall by as much as was dropped
and freed. -/
theorem drops_are_exact (sound : before.heap.Sound outside []) (idle : before.heap.releasing = false)
    (settled : before.heap.pending = []) (owned : drops ≤ outside)
    (enough : before.heap.edges.length < engine.rounds) :
    ∃ doomed, IsLeast {slots | before.heap.Closed drops slots} doomed ∧
      (before.heap.Uncalled doomed →
        (∀ handle ∈ doomed, before.heap.isLive handle) ∧
        (∀ handle entry, before.heap.occupant? handle = some entry → handle ∉ doomed →
          before.heap.edgesFrom doomed handle + drops.count handle < entry.count) ∧
        ∀ order : List Handle, (order : Multiset Handle) = drops → ∃ after : Heap Code,
          engine.releaseList (order.map .ref) before = .ok ((), { before with heap := after }) ∧
          after.pending = [] ∧ after.releasing = false ∧ after.Sound (outside - drops) [] ∧
          ∀ handle, after.occupant? handle =
            if handle ∈ doomed then none
            else (before.heap.occupant? handle).map fun entry =>
              { count := entry.count - (before.heap.edgesFrom doomed handle + drops.count handle)
                payload := entry.payload.without fun other => decide (other ∈ doomed) }) := by
  obtain ⟨doomed, least⟩ := sound.balanced.exists_isLeast_closed settled owned
  refine ⟨doomed, least, fun uncalled => ?_⟩
  have doom : before.heap.Doom outside drops doomed :=
    ⟨sound.balanced, settled, owned, least, uncalled⟩
  have split : outside = outside - drops + drops := (tsub_add_cancel_of_le owned).symm
  have dropped (order : List Handle) (same : (order : Multiset Handle) = drops) :
      ∃ after : Heap Code,
        engine.releaseList (order.map .ref) before = .ok ((), { before with heap := after }) ∧
        before.heap.Thins doomed doomed after ∧ after.Sound (outside - drops) [] ∧
        after.releasing = false ∧ after.pending = [] := by
    obtain ⟨after, gone, ended, thins, done, still, empty⟩ :=
      engine.exists_releaseList before doom order (.refl before.heap doomed)
        (sound.congr (same ▸ split)) idle settled split.le enough
    cases doom.gone_eq thins done.balanced empty split
    exact ⟨after, ended, thins, done, still, empty⟩
  obtain ⟨last, _, thins, done, _, empty⟩ := dropped drops.toList (Multiset.coe_toList drops)
  refine ⟨thins.lives, fun handle entry found spared => ?_, fun order same => ?_⟩
  · have fallen := doom.tally_eq thins done.balanced empty split handle
    have there : last.isLive handle := by
      rw [Heap.isLive_eq_payload?, thins.payloads, if_neg spared, Heap.payload?_eq, found]
      rfl
    have positive := done.balanced.positive handle there
    rw [Heap.tally_of_occupant? found] at fallen
    omega
  · obtain ⟨after, ended, thins, done, still, empty⟩ := dropped order same
    exact ⟨after, ended, empty, still, done, doom.occupant?_eq thins done.balanced empty split⟩

/-- A list that contains another one twice is dropped, and so is the other one. Both are freed,
although the list that is dropped first is still referred to then. -/
theorem drops_of_nested_lists : ∃ (world : World Unit (Recorded Unit Unit)) (after : Heap Unit),
    Reached (fun _ => 0) idleBodies Config.standard ({0} + {1}) world ∧
    world.heap.Sound ({0} + {1}) [] ∧ world.heap.releasing = false ∧ world.heap.pending = [] ∧
    world.heap.edges.length < (bodiesEngine idleBodies 8).rounds ∧
    (bodiesEngine idleBodies 8).releaseList ([0, 1].map .ref) world =
      .ok ((), { world with heap := after }) ∧
    after.occupant? 0 = none ∧ after.occupant? 1 = none := by
  obtain ⟨world, reached, seen⟩ : ∃ world : World Unit (Recorded Unit Unit),
      Reached (fun _ => 0) idleBodies Config.standard ({0} + {1}) world ∧
      (world.heap.releasing, [world.heap.tally 0, world.heap.tally 1],
        [world.heap.pending, world.heap.edges, world.heap.visits 1,
          (List.range world.heap.slots.size).filterMap world.heap.target?]) =
        (false, [3, 1], [[], [0, 0], [0, 0], []]) :=
    Reached.exists_follow [.newList [], .share (.ref 0), .share (.ref 0), .newList [.ref 0, .ref 0]] 8 () _ _
      rfl (by decide +kernel)
  simp only [Prod.mk.injEq, List.cons.injEq, and_true] at seen
  obtain ⟨idle, ⟨three, one⟩, settled, edges, inner, unaimed⟩ := seen
  have sound : world.heap.Sound ({0} + {1}) [] :=
    (reached.holds respectful_idleBodies).sound.congr (by simp [Reached.atRest, recordedLedger, recordingLedger])
  have enough : world.heap.edges.length < (bodiesEngine idleBodies 8).rounds := by
    rw [edges]
    decide
  obtain ⟨doomed, least, freed⟩ :=
    (bodiesEngine idleBodies 8).drops_are_exact world sound idle settled le_rfl enough
  have uncalled : world.heap.Uncalled doomed := fun weakref target _ aimed => by
    obtain ⟨_, held, _⟩ := Heap.target?_eq_some.mp aimed
    obtain ⟨entry, occupied, _⟩ := world.heap.payload?_eq_some.mp held
    have listed : target ∈ (List.range world.heap.slots.size).filterMap world.heap.target? :=
      List.mem_filterMap.mpr
        ⟨weakref, List.mem_range.mpr (world.heap.lt_size_of_occupant? occupied), aimed⟩
    rw [unaimed] at listed
    cases listed
  have live (handle : Handle) (member : handle ∈ ({0} + {1} : Multiset Handle)) :=
    sound.balanced.isLive_of_mem (Or.inl member)
  have bounds := sound.balanced.edgesFrom_add_le settled le_rfl doomed
  have outer : 1 ∈ doomed := by
    refine least.1 1 (live 1 (by decide)) (le_antisymm ?_ (bounds 1))
    rw [one]
    exact Nat.le_add_left _ _
  have twice : 2 ≤ world.heap.edgesFrom doomed 0 := by
    have counted : world.heap.edgesFrom {1} 0 ≤ world.heap.edgesFrom doomed 0 :=
      Heap.edgesFrom_mono (Finset.singleton_subset_iff.mpr outer) 0
    rwa [Heap.edgesFrom, Finset.sum_singleton, inner] at counted
  have within : 0 ∈ doomed := by
    refine least.1 0 (live 0 (by decide)) (le_antisymm ?_ (bounds 0))
    rw [three]
    exact Nat.add_le_add_right twice 1
  obtain ⟨_, _, dropped⟩ := freed uncalled
  obtain ⟨after, ended, _, _, _, occupants⟩ := dropped [0, 1] rfl
  exact ⟨world, after, reached, sound, idle, settled, enough, ended, (occupants 0).trans (if_pos within),
    (occupants 1).trans (if_pos outer)⟩

end Engine

end ObjectHeap
