/-
This file says which of several classes wins when a name is looked up. The ancestors of a class stand
in the order in which a walk up the bases comes to them first, where each base goes with all that is
above it before the next base. So a class stands before an ancestor of its own exactly if the first way
up to that ancestor leads through the class. Where two ways part and meet again, the first one may pass
by the class, and what the class overrides is then found in its place. Where no two ways meet, an
override is never hidden.
-/

import ObjectHeap.Proofs.Classes

namespace ObjectHeap

variable {Code Host : Type}

/-! ### Places in lists -/

section

variable {α : Type} [DecidableEq α] {one other : α}

/-- Of two values, the one that comes first is the first one in the list, or comes first in the rest. -/
theorem idxOf_cons_lt {value : α} {rest : List α} :
    (value :: rest).idxOf one < (value :: rest).idxOf other ↔
      value ≠ other ∧ (value = one ∨ rest.idxOf one < rest.idxOf other) := by
  by_cases second : value = other
  · subst second
    simp [List.idxOf_cons_self]
  · rw [List.idxOf_cons_ne rest second]
    by_cases first : value = one
    · subst first
      simp [List.idxOf_cons_self, second]
    · rw [List.idxOf_cons_ne rest first]
      simp [first, second]

/-- Leaving out what is neither of two values does not change which of them comes first. -/
theorem idxOf_filter_lt {values : List α} {keep : α → Bool} (keepOne : keep one = true)
    (keepOther : keep other = true) :
    (values.filter keep).idxOf one < (values.filter keep).idxOf other ↔
      values.idxOf one < values.idxOf other := by
  induction values with
  | nil => rfl
  | cons value rest inductionHypothesis =>
    by_cases kept : keep value = true
    · rw [List.filter_cons_of_pos kept, idxOf_cons_lt, idxOf_cons_lt, inductionHypothesis]
    · have notOne : value ≠ one := fun same => kept (same ▸ keepOne)
      have notOther : value ≠ other := fun same => kept (same ▸ keepOther)
      rw [List.filter_cons_of_neg kept, inductionHypothesis, idxOf_cons_lt, and_iff_right notOther,
        or_iff_right notOne]

/-- Leaving out what has come before does not change which of two values comes first. -/
theorem idxOf_eraseDups_lt (values : List α) :
    values.eraseDups.idxOf one < values.eraseDups.idxOf other ↔
      values.idxOf one < values.idxOf other := by
  induction length : values.length using Nat.strong_induction_on generalizing values with
  | h bound inductionHypothesis =>
    cases values with
    | nil => rfl
    | cons value rest =>
      have shorter : (rest.filter fun each => !each == value).length < bound :=
        length ▸ Nat.lt_succ_of_le (List.length_filter_le _ rest)
      rw [List.eraseDups_cons, idxOf_cons_lt, idxOf_cons_lt, inductionHypothesis _ shorter _ rfl]
      by_cases first : value = one
      · simp [first]
      · refine and_congr_right fun second => ?_
        rw [idxOf_filter_lt (by simpa using Ne.symm first) (by simpa using Ne.symm second)]

/-- What follows a list that has a value does not come before that value. -/
theorem idxOf_append_lt {values more : List α} (member : other ∈ values) :
    (values ++ more).idxOf one < (values ++ more).idxOf other ↔ values.idxOf one < values.idxOf other := by
  rw [List.idxOf_append_of_mem member]
  by_cases present : one ∈ values
  · rw [List.idxOf_append_of_mem present]
  · have late := List.idxOf_lt_length_iff.mpr member
    rw [List.idxOf_append_of_notMem present, List.idxOf_eq_length present]
    omega

/-- A list that has neither of two values does not change which of them comes first. -/
theorem idxOf_lt_of_skipped {skipped values : List α} (noOne : one ∉ skipped) (noOther : other ∉ skipped) :
    (skipped ++ values).idxOf one < (skipped ++ values).idxOf other ↔
      values.idxOf one < values.idxOf other := by
  rw [List.idxOf_append_of_notMem noOne, List.idxOf_append_of_notMem noOther]
  omega

end

namespace Heap

variable {heap : Heap Code} {outside : Multiset Handle} {type base middle target : Handle}
  {data : Class} {path : List Handle}

/-! ### The first way up -/

/-- A chain of bases leads from a class to another one, or they are the same. -/
def Ascends (heap : Heap Code) : Handle → Handle → Prop :=
  Relation.ReflTransGen heap.Derives

/-- The first way from a class up to another one, by the classes that it comes through before the last:
it goes on through the first base from which the last class can be reached at all. -/
inductive FirstWay (heap : Heap Code) : Handle → Handle → List Handle → Prop
  | here (type : Handle) : FirstWay heap type type []
  | up {type base target : Handle} {data : Class} {earlier later path : List Handle}
    (held : heap.payload? type = some (.type data)) (bases : data.bases = earlier ++ base :: later)
    (skipped : ∀ other ∈ earlier, ¬ heap.Ascends other target)
    (rest : FirstWay heap base target path) : FirstWay heap type target (type :: path)

/-- No two ways up from a class meet: no class is reached through two bases of one class. -/
def Branches (heap : Heap Code) (type : Handle) : Prop :=
  ∀ sub data, heap.Ascends type sub → heap.payload? sub = some (.type data) →
    data.bases.Pairwise fun one other => ∀ target, heap.Ascends one target → ¬ heap.Ascends other target

/-- A class stores a value under a name itself. -/
def Defines (heap : Heap Code) (type : Handle) (name : String) (value : Value) : Prop :=
  ∃ data, heap.payload? type = some (.type data) ∧ data.members.find? name = some value

theorem derives_of_bases {earlier later : List Handle} (held : heap.payload? type = some (.type data))
    (bases : data.bases = earlier ++ base :: later) : heap.Derives type base :=
  ⟨data, held, bases ▸ List.mem_append_right _ List.mem_cons_self⟩

theorem FirstWay.ascends (way : heap.FirstWay type target path) : heap.Ascends type target := by
  induction way with
  | here => exact .refl
  | up held bases _ _ inductionHypothesis => exact .head (derives_of_bases held bases) inductionHypothesis

theorem lineage_of_type (held : heap.payload? type = some (.type data)) :
    heap.lineage type = type :: data.ancestors := by
  unfold lineage
  rw [held]

namespace Formed

variable (formed : heap.Formed) (balanced : heap.Balanced outside)

include formed balanced

theorem mem_lineage_iff (isType : heap.IsType type) :
    target ∈ heap.lineage type ↔ heap.Ascends type target := by
  obtain ⟨data, held⟩ := isType
  unfold Ascends
  rw [lineage_of_type held, List.mem_cons, formed.mem_ancestors_iff balanced held,
    Relation.reflTransGen_iff_eq_or_transGen]

/-- If a class can be reached at all, there is a first way up to it. -/
theorem exists_firstWay (held : heap.payload? type = some (.type data))
    (ascends : heap.Ascends type target) : ∃ path, heap.FirstWay type target path := by
  induction length : data.ancestors.length using Nat.strong_induction_on generalizing type data with
  | h bound inductionHypothesis =>
    rcases Relation.ReflTransGen.cases_head ascends with rfl | ⟨step, ⟨_, same, member⟩, further⟩
    · exact ⟨[], .here type⟩
    · cases held.symm.trans same
      classical
      obtain ⟨base, found⟩ := Option.isSome_iff_exists.mp (List.find?_isSome.mpr
        ⟨step, member, decide_eq_true further⟩ :
          (data.bases.find? fun base => decide (heap.Ascends base target)).isSome)
      obtain ⟨onward, earlier, later, bases, skipped⟩ := List.find?_eq_some_iff_append.mp found
      have listed : base ∈ data.bases := bases ▸ List.mem_append_right _ List.mem_cons_self
      obtain ⟨inherited, there⟩ := formed.isType_base balanced held listed
      have shorter := formed.length_ancestors_lt balanced held listed there
      obtain ⟨path, way⟩ := inductionHypothesis _ (length ▸ shorter) there (of_decide_eq_true onward) rfl
      exact ⟨_, .up held bases (fun other member => by simpa using skipped other member) way⟩

/-- A class stands before an ancestor of its own exactly if the first way up to that ancestor leads
through the class. -/
theorem idxOf_lineage_lt_iff (isType : heap.IsType type) (way : heap.FirstWay type target path)
    (derives : Relation.TransGen heap.Derives middle target) :
    (heap.lineage type).idxOf middle < (heap.lineage type).idxOf target ↔ middle ∈ path := by
  induction way with
  | here type =>
    obtain ⟨data, held⟩ := isType
    rw [lineage_of_type held, List.idxOf_cons_self]
    exact iff_of_false (Nat.not_lt_zero _) List.not_mem_nil
  | @up type base target data earlier later path held bases skipped rest inductionHypothesis =>
    have above : heap.Derives type base := derives_of_bases held bases
    have isBase (other : Handle) (member : other ∈ data.bases) : heap.IsType other :=
      formed.isType_base balanced held member
    have base_listed : base ∈ data.bases := bases ▸ List.mem_append_right _ List.mem_cons_self
    have apart : type ≠ target := fun same =>
      formed.not_leads_self balanced (Relation.TransGen.head' above (same ▸ rest.ascends))
    -- The bases that the first way skips do not lead up to the target, nor to what derives from it.
    have unlisted (other : Handle) (onward : heap.Ascends other target) :
        other ∉ earlier.flatMap heap.lineage := by
      intro listed
      obtain ⟨first, member, reached⟩ := List.mem_flatMap.mp listed
      have isFirst := isBase first (bases ▸ List.mem_append_left _ member)
      exact skipped first member
        (((formed.mem_lineage_iff balanced isFirst).mp reached).trans onward)
    have there : target ∈ heap.lineage base :=
      (formed.mem_lineage_iff balanced (isBase base base_listed)).mpr rest.ascends
    rw [lineage_of_type held, idxOf_cons_lt, and_iff_right apart, formed.ancestors_eq balanced held,
      idxOf_eraseDups_lt, bases, List.flatMap_append, List.flatMap_cons,
      idxOf_lt_of_skipped (unlisted middle derives.to_reflTransGen) (unlisted target .refl),
      idxOf_append_lt there, inductionHypothesis (isBase base base_listed) derives, List.mem_cons]
    exact or_congr_left eq_comm

/-- Where no two ways meet, the first way up leads through every class on any way up. -/
theorem mem_firstWay (isType : heap.IsType type) (branches : heap.Branches type)
    (way : heap.FirstWay type target path) (ascends : heap.Ascends type middle)
    (derives : Relation.TransGen heap.Derives middle target) : middle ∈ path := by
  -- A way up that leaves the first one at some class would meet it again at the target.
  induction way with
  | here type =>
    exact (formed.not_leads_self balanced (derives.trans_left ascends)).elim
  | @up type base target data earlier later path held bases skipped rest inductionHypothesis =>
    rcases Relation.ReflTransGen.cases_head ascends with rfl | ⟨step, ⟨_, same, member⟩, further⟩
    · exact List.mem_cons_self
    · cases held.symm.trans same
      have onward : heap.Ascends step target := further.trans derives.to_reflTransGen
      have above : heap.Derives type base := derives_of_bases held bases
      have apart := branches type data .refl held
      rw [bases, List.pairwise_append] at apart
      rw [bases] at member
      rcases List.mem_append.mp member with early | member
      · exact (skipped step early onward).elim
      · rcases List.mem_cons.mp member with rfl | late
        · exact List.mem_cons_of_mem _ (inductionHypothesis
            (formed.isType_base balanced held (bases ▸ List.mem_append_right _ List.mem_cons_self))
            (fun sub data reached => branches sub data (.head above reached)) further derives)
        · exact ((List.pairwise_cons.mp apart.2.1).1 step late target rest.ascends onward).elim

end Formed

/-! ### Lookup -/

/-- What is found along a chain of classes is what the first one of them stores that has the name. -/
theorem findAlong_eq {types : List Handle} (areTypes : ∀ type ∈ types, heap.IsType type) (name : String) :
    ∃ found, heap.findAlong name types = .ok found ∧
      (found = none → ∀ type ∈ types, ∀ value, ¬ heap.Defines type name value) ∧
      ∀ value, found = some value → ∃ owner ∈ types, heap.Defines owner name value ∧
        ∀ other value, heap.Defines other name value → types.idxOf owner ≤ types.idxOf other := by
  induction types with
  | nil => exact ⟨none, rfl, fun _ _ member => (List.not_mem_nil member).elim, fun _ found => nomatch found⟩
  | cons type rest inductionHypothesis =>
    obtain ⟨data, held⟩ := areTypes type List.mem_cons_self
    obtain ⟨found, along, missing, present⟩ :=
      inductionHypothesis fun other member => areTypes other (List.mem_cons_of_mem _ member)
    have read : heap.read type = .ok (.type data) := heap.read_eq_ok.mpr held
    have own (value : Value) : heap.Defines type name value ↔ data.members.find? name = some value := by
      constructor
      · rintro ⟨_, same, stored⟩
        cases held.symm.trans same
        exact stored
      · exact fun stored => ⟨data, held, stored⟩
    cases stored : data.members.find? name with
    | some value =>
      refine ⟨some value, ?_, nofun, fun _ same => ?_⟩
      · unfold findAlong
        rw [read]
        simp only [stored, bind, Except.bind, pure, Except.pure]
      · cases same
        refine ⟨type, List.mem_cons_self, (own value).mpr stored, fun _ _ _ => ?_⟩
        rw [List.idxOf_cons_self]
        exact Nat.zero_le _
    | none =>
      refine ⟨found, ?_, fun nothing other member value defines => ?_, fun value same => ?_⟩
      · unfold findAlong
        rw [read]
        simp only [stored, bind, Except.bind]
        exact along
      · rcases List.mem_cons.mp member with rfl | member
        · rw [own value, stored] at defines
          cases defines
        · exact missing nothing other member value defines
      · obtain ⟨owner, member, defines, first⟩ := present value same
        -- The first class has no such name, so whoever has it comes later in the list.
        have apart (other : Handle) (value : Value) (defines : heap.Defines other name value) :
            type ≠ other := by
          rintro rfl
          rw [own value, stored] at defines
          cases defines
        refine ⟨owner, List.mem_cons_of_mem _ member, defines, fun other value known => ?_⟩
        rw [List.idxOf_cons_ne rest (apart owner _ defines), List.idxOf_cons_ne rest (apart other _ known)]
        exact Nat.succ_le_succ (first other value known)

/-- What a class finds under a name is stored by a class that it ascends to, and the first way up there
passes by every other class that stores something under the name and derives from that one. -/
theorem Formed.find_eq (formed : heap.Formed) (balanced : heap.Balanced outside)
    (isType : heap.IsType type) (name : String) :
    ∃ found, heap.find type name = .ok found ∧
      (found = none → ∀ other, heap.Ascends type other → ∀ value, ¬ heap.Defines other name value) ∧
      ∀ value, found = some value → ∃ owner, heap.Ascends type owner ∧ heap.Defines owner name value ∧
        ∀ path, heap.FirstWay type owner path → ∀ other value, heap.Defines other name value →
          Relation.TransGen heap.Derives other owner → other ∉ path := by
  have mem_iff {other : Handle} :
      other ∈ heap.lineage type ↔ heap.Ascends type other :=
    formed.mem_lineage_iff balanced isType
  have areTypes : ∀ other ∈ heap.lineage type, heap.IsType other := by
    intro other member
    rcases Relation.reflTransGen_iff_eq_or_transGen.mp (mem_iff.mp member) with rfl | leads
    · exact isType
    · exact formed.isType_of_leads balanced leads
  obtain ⟨found, along, missing, present⟩ := findAlong_eq areTypes name
  obtain ⟨data, held⟩ := isType
  refine ⟨found, ?_, fun nothing other ascends => missing nothing other (mem_iff.mpr ascends),
    fun value same => ?_⟩
  · rw [lineage_of_type held] at along
    exact Heap.bind_eq_ok.mpr ⟨_, heap.read_eq_ok.mpr held, along⟩
  · obtain ⟨owner, member, defines, first⟩ := present value same
    refine ⟨owner, mem_iff.mp member, defines, fun path way other value known derives onTheWay => ?_⟩
    have before := (formed.idxOf_lineage_lt_iff balanced ⟨data, held⟩ way derives).mpr onTheWay
    exact absurd (first other value known) (Nat.not_le.mpr before)

end Heap

namespace Reached

variable {bodies : Code → Arguments → Program Code Host} {held : Host → Multiset Handle}
  {config : Config} {hand : Multiset Handle} {world : World Code (Recorded Code Host)}
  {heap : Heap Code} {type : Handle} {data : Class}

/-- At every moment of a run, an ancestor of a class stands before an ancestor of its own exactly if the
first way up to that one leads through it. What the class finds under a name is stored by a class that
it ascends to, such that the first way up there passes by every class that derives from that one and
stores something under the name as well. Where no two ways up meet, every ancestor stands before all of
its own, and no class that stores something under the name derives from the one whose value is found. -/
theorem lookup_goes_the_first_way (respectful : RespectfulBodies held bodies)
    (reached : Reached held bodies config hand world) (member : heap ∈ heaps world)
    (there : heap.payload? type = some (.type data)) :
    (∀ target ∈ data.ancestors, (∃ path, heap.FirstWay type target path) ∧
      ∀ path, heap.FirstWay type target path → ∀ middle ∈ data.ancestors,
        Relation.TransGen heap.Derives middle target →
          (data.ancestors.idxOf middle < data.ancestors.idxOf target ↔ middle ∈ path)) ∧
    (∀ name, ∃ found, heap.find type name = .ok found ∧
      (found = none → ∀ other, heap.Ascends type other → ∀ value, ¬ heap.Defines other name value) ∧
      ∀ value, found = some value → ∃ owner, heap.Ascends type owner ∧ heap.Defines owner name value ∧
        ∀ path, heap.FirstWay type owner path → ∀ other value, heap.Defines other name value →
          Relation.TransGen heap.Derives other owner → other ∉ path) ∧
    (heap.Branches type →
      (∀ middle ∈ data.ancestors, ∀ target, Relation.TransGen heap.Derives middle target →
        data.ancestors.idxOf middle < data.ancestors.idxOf target) ∧
      ∀ name value, heap.find type name = .ok (some value) →
        ∃ owner, heap.Ascends type owner ∧ heap.Defines owner name value ∧
          ∀ other value, heap.Ascends type other → heap.Defines other name value →
            ¬ Relation.TransGen heap.Derives other owner) := by
  obtain ⟨⟨outside, _, sound⟩, _⟩ := reached.orderly respectful member
  have formed := sound.formed
  have balanced := sound.balanced
  have isType : heap.IsType type := ⟨data, there⟩
  have above (other : Handle) : other ∈ data.ancestors ↔ Relation.TransGen heap.Derives type other :=
    formed.mem_ancestors_iff balanced there
  -- The lineage of a class is the class before its ancestors, and the class is none of them.
  have precedes (middle : Handle) (listed : middle ∈ data.ancestors) (target : Handle)
      (derives : Relation.TransGen heap.Derives middle target) (path : List Handle)
      (way : heap.FirstWay type target path) :
      data.ancestors.idxOf middle < data.ancestors.idxOf target ↔ middle ∈ path := by
    have notMiddle : type ≠ middle := fun same =>
      formed.apart type data there (same ▸ listed)
    have notTarget : type ≠ target := fun same =>
      formed.not_leads_self balanced (((above middle).mp listed).trans (same ▸ derives))
    rw [← formed.idxOf_lineage_lt_iff balanced isType way derives, Heap.lineage_of_type there,
      idxOf_cons_lt, and_iff_right notTarget, or_iff_right notMiddle]
  refine ⟨fun target listed => ⟨?_, fun path way middle inside derives =>
      precedes middle inside target derives path way⟩,
    fun name => formed.find_eq balanced isType name, fun branches => ⟨fun middle listed target derives => ?_,
      fun name value found => ?_⟩⟩
  · exact formed.exists_firstWay balanced there ((above target).mp listed).to_reflTransGen
  · have ascends := (above middle).mp listed
    obtain ⟨path, way⟩ :=
      formed.exists_firstWay balanced there (ascends.trans derives).to_reflTransGen
    exact (precedes middle listed target derives path way).mpr
      (formed.mem_firstWay balanced isType branches way ascends.to_reflTransGen derives)
  · obtain ⟨_, same, _, present⟩ := formed.find_eq balanced isType name
    cases found.symm.trans same
    obtain ⟨owner, ascends, defines, passed⟩ := present value rfl
    refine ⟨owner, ascends, defines, fun other value reached known derives => ?_⟩
    obtain ⟨path, way⟩ := formed.exists_firstWay balanced there ascends
    exact passed path way other value known derives
      (formed.mem_firstWay balanced isType branches way reached derives)

/-- The bases and ancestors of a class, and what it stores under a name itself. -/
def classAt (name : String) (heap : Heap Code) (type : Handle) :
    Option (List Handle × List Handle × Option Value) :=
  match heap.payload? type with
  | some (.type data) => some (data.bases, data.ancestors, data.members.find? name)
  | _ => none

theorem exists_of_classAt {name : String} {bases ancestors : List Handle} {stored : Option Value}
    (seen : classAt name heap type = some (bases, ancestors, stored)) :
    ∃ data, heap.payload? type = some (.type data) ∧ data.bases = bases ∧
      data.ancestors = ancestors ∧ data.members.find? name = stored := by
  unfold classAt at seen
  split at seen
  · rename_i data there
    cases seen
    exact ⟨data, there, rfl, rfl, rfl⟩
  · cases seen

/-- A class of two classes with a base in common, where the second one of them and the base store
something under one name. -/
def diamond : List (Operation Unit) :=
  [.newClass "A" [], .newClass "B" [.ref 0], .newClass "C" [.ref 0], .newClass "D" [.ref 1, .ref 2],
    .setAttribute (.ref 0) "f" (.int 1), .setAttribute (.ref 2) "f" (.int 2)]

/-- The first way from the class to the base leads through the first one of the two classes. -/
theorem first_way_in_diamond : ∃ (world : World Unit (Recorded Unit Unit)) (data : Class),
    Reached (fun _ => 0) idleBodies Config.standard ({0} + {1} + {2} + {3}) world ∧
    world.heap.payload? 3 = some (.type data) ∧ data.ancestors = [1, 0, 2] ∧
    world.heap.FirstWay 3 0 [3, 1] ∧
    (data.ancestors.idxOf 1 < data.ancestors.idxOf 0 ↔ 1 ∈ [3, 1]) ∧
    (data.ancestors.idxOf 2 < data.ancestors.idxOf 0 ↔ 2 ∈ [3, 1]) := by
  obtain ⟨world, reached, seen⟩ : ∃ world : World Unit (Recorded Unit Unit),
      Reached (fun _ => 0) idleBodies Config.standard ({0} + {1} + {2} + {3}) world ∧
      decide ([1, 2, 3].map (classAt "f" world.heap) = [some ([0], [0], none),
        some ([0], [0], some (.int 2)), some ([1, 2], [1, 0, 2], none)]) = true :=
    exists_follow diamond 8 () _ _ rfl (by decide +kernel)
  simp only [List.map_cons, List.map_nil, decide_eq_true_eq, List.cons.injEq, and_true] at seen
  obtain ⟨first, second, last⟩ := seen
  obtain ⟨one, thereOne, basesOne, _⟩ := exists_of_classAt first
  obtain ⟨two, thereTwo, basesTwo, _⟩ := exists_of_classAt second
  obtain ⟨data, there, bases, ancestors, _⟩ := exists_of_classAt last
  have way : world.heap.FirstWay 3 0 [3, 1] :=
    .up there (bases.trans (List.nil_append _).symm) (fun _ member => (List.not_mem_nil member).elim)
      (.up thereOne (basesOne.trans (List.nil_append _).symm)
        (fun _ member => (List.not_mem_nil member).elim) (.here 0))
  obtain ⟨order, _⟩ := lookup_goes_the_first_way respectful_idleBodies reached List.mem_cons_self there
  have precedes := (order 0 (by rw [ancestors]; decide)).2 _ way
  exact ⟨world, data, reached, there, ancestors, way,
    precedes 1 (by rw [ancestors]; decide) (.single ⟨one, thereOne, by rw [basesOne]; decide⟩),
    precedes 2 (by rw [ancestors]; decide) (.single ⟨two, thereTwo, by rw [basesTwo]; decide⟩)⟩

/-- In a diamond, the base stands before a class that is derived from it, and what that class overrides
is found in the base. -/
theorem override_is_hidden_in_diamond : ∃ (world : World Unit (Recorded Unit Unit)) (data : Class),
    Reached (fun _ => 0) idleBodies Config.standard ({0} + {1} + {2} + {3}) world ∧
    world.heap.payload? 3 = some (.type data) ∧ 2 ∈ data.ancestors ∧
    Relation.TransGen world.heap.Derives 2 0 ∧
    ¬ data.ancestors.idxOf 2 < data.ancestors.idxOf 0 ∧
    world.heap.Defines 0 "f" (.int 1) ∧ world.heap.Defines 2 "f" (.int 2) ∧
    world.heap.find 3 "f" = .ok (some (.int 1)) := by
  obtain ⟨world, reached, seen⟩ : ∃ world : World Unit (Recorded Unit Unit),
      Reached (fun _ => 0) idleBodies Config.standard ({0} + {1} + {2} + {3}) world ∧
      decide ([0, 2, 3].map (classAt "f" world.heap) = [some ([], [], some (.int 1)),
        some ([0], [0], some (.int 2)), some ([1, 2], [1, 0, 2], none)] ∧
        world.heap.find 3 "f" = .ok (some (.int 1))) = true :=
    exists_follow diamond 8 () _ _ rfl (by decide +kernel)
  simp only [List.map_cons, List.map_nil, decide_eq_true_eq, List.cons.injEq, and_true] at seen
  obtain ⟨⟨base, middle, last⟩, found⟩ := seen
  obtain ⟨zero, thereZero, _, _, storedZero⟩ := exists_of_classAt base
  obtain ⟨two, thereTwo, basesTwo, _, storedTwo⟩ := exists_of_classAt middle
  obtain ⟨data, there, _, ancestors, _⟩ := exists_of_classAt last
  exact ⟨world, data, reached, there, by rw [ancestors]; decide,
    .single ⟨two, thereTwo, by rw [basesTwo]; decide⟩, by rw [ancestors]; decide,
    ⟨zero, thereZero, storedZero⟩, ⟨two, thereTwo, storedTwo⟩, found⟩

end Reached

end ObjectHeap
