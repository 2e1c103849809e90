/-
This file says what the ancestors of a class are. The list of them is put together when the class
is made, from the lists of its bases, and nothing keeps the classes on it alive but the chains of
bases that lead to them. In a heap whose entries are counted and formed this is enough: the list is
exactly what the bases lead to. A class is never on its own list, so that the list of a base is
always shorter than that of the class, and going up through the bases comes to an end.
-/

import ObjectHeap.Lookup
import ObjectHeap.Proofs.Evolution

namespace ObjectHeap

theorem nodup_eraseDups {α : Type} [DecidableEq α] (values : List α) : values.eraseDups.Nodup := by
  induction length : values.length using Nat.strong_induction_on generalizing values with
  | h bound inductionHypothesis =>
    cases values with
    | nil => exact List.nodup_nil
    | cons value rest =>
      rw [List.eraseDups_cons, List.nodup_cons, List.mem_eraseDups]
      have shorter : (rest.filter fun other => !other == value).length < bound :=
        length ▸ Nat.lt_succ_of_le (List.length_filter_le _ rest)
      exact ⟨by simp, inductionHypothesis _ shorter _ rfl⟩

namespace Heap

variable {Code : Type} {heap : Heap Code} {outside : Multiset Handle} {type base other : Handle}
  {data : Class}

/-- A class is derived from another one directly. -/
def Derives (heap : Heap Code) (type base : Handle) : Prop :=
  ∃ data, heap.payload? type = some (.type data) ∧ base ∈ data.bases

/-- A slot holds a class. -/
def IsType (heap : Heap Code) (handle : Handle) : Prop :=
  ∃ data, heap.payload? handle = some (.type data)

theorem mem_lineage : other ∈ heap.lineage base ↔
    ∃ data, heap.payload? base = some (.type data) ∧ (other = base ∨ other ∈ data.ancestors) := by
  unfold lineage
  cases heap.payload? base with
  | none => simp
  | some payload => cases payload <;> simp

/-- What is asked for as a class is one. -/
theorem type?_eq_some {value : Value} (found : heap.type? value = .ok (some type)) :
    value = .ref type ∧ heap.IsType type := by
  obtain ⟨payload, asked, found⟩ := Heap.bind_eq_ok.mp found
  cases value with
  | ref handle =>
    obtain ⟨held, read, same⟩ := Heap.bind_eq_ok.mp asked
    cases same
    cases held with
    | type data =>
      cases found
      exact ⟨rfl, data, heap.read_eq_ok.mp read⟩
    | _ => cases found
  | _ =>
    cases asked
    cases found

/-- The ancestors of a new class are its bases with their ancestors. -/
theorem ancestors_eq_ok {bases ancestors : List Handle} (found : heap.ancestors bases = .ok ancestors) :
    ancestors = (bases.flatMap heap.lineage).eraseDups := by
  obtain ⟨chains, mapped, same⟩ := Heap.bind_eq_ok.mp found
  cases same
  rw [List.flatMap_def]
  congr 2
  clear found
  induction bases generalizing chains with
  | nil =>
    cases mapped
    rfl
  | cons base others inductionHypothesis =>
    rw [List.mapM_cons] at mapped
    obtain ⟨chain, read, further⟩ := Heap.bind_eq_ok.mp mapped
    obtain ⟨rest, above, same⟩ := Heap.bind_eq_ok.mp further
    cases same
    rw [List.map_cons, inductionHypothesis rest above]
    obtain ⟨payload, held, answered⟩ := Heap.bind_eq_ok.mp read
    unfold lineage
    rw [heap.read_eq_ok.mp held]
    cases payload <;> cases answered <;> rfl

/-- The bases of a class are kept alive by it. -/
theorem Balanced.isLive_base (balanced : heap.Balanced outside)
    (held : heap.payload? type = some (.type data)) (member : base ∈ data.bases) :
    heap.isLive base :=
  balanced.isLive_of_visits held (List.mem_append_left _ member)

namespace Formed

variable (formed : heap.Formed) (balanced : heap.Balanced outside)

include formed balanced

theorem isType_base (held : heap.payload? type = some (.type data)) (member : base ∈ data.bases) :
    heap.IsType base := by
  obtain ⟨payload, found⟩ := exists_payload?_of_isLive (balanced.isLive_base held member)
  have kind := formed.derives type data base payload held member found
  cases payload with
  | type inherited => exact ⟨inherited, found⟩
  | _ => cases kind

theorem ancestors_eq (held : heap.payload? type = some (.type data)) :
    data.ancestors = (data.bases.flatMap heap.lineage).eraseDups :=
  formed.inherits type data held fun _ member => balanced.isLive_base held member

theorem nodup_ancestors (held : heap.payload? type = some (.type data)) : data.ancestors.Nodup :=
  formed.ancestors_eq balanced held ▸ nodup_eraseDups _

theorem mem_ancestors (held : heap.payload? type = some (.type data)) :
    other ∈ data.ancestors ↔ ∃ base ∈ data.bases, other ∈ heap.lineage base := by
  rw [formed.ancestors_eq balanced held, List.mem_eraseDups, List.mem_flatMap]

/-- The list of a base is shorter than that of the class. -/
theorem length_ancestors_lt {inherited : Class} (held : heap.payload? type = some (.type data))
    (member : base ∈ data.bases) (found : heap.payload? base = some (.type inherited)) :
    inherited.ancestors.length < data.ancestors.length := by
  have distinct : (base :: inherited.ancestors).Nodup :=
    List.nodup_cons.mpr ⟨formed.apart base inherited found, formed.nodup_ancestors balanced found⟩
  refine (distinct.subperm fun other listed => ?_).length_le
  exact (formed.mem_ancestors balanced held).mpr
    ⟨base, member, mem_lineage.mpr ⟨inherited, found, List.mem_cons.mp listed⟩⟩

/-- The ancestors of a class are what its bases lead to. -/
theorem mem_ancestors_iff (held : heap.payload? type = some (.type data)) :
    other ∈ data.ancestors ↔ Relation.TransGen heap.Derives type other := by
  constructor
  · intro listed
    -- Bases have fewer ancestors, so the way up is found by induction on their number.
    induction length : data.ancestors.length using Nat.strong_induction_on
      generalizing type data with
    | h bound inductionHypothesis =>
      obtain ⟨base, member, above⟩ := (formed.mem_ancestors balanced held).mp listed
      obtain ⟨inherited, found, same | further⟩ := mem_lineage.mp above
      · exact .single ⟨data, held, same ▸ member⟩
      · have shorter := formed.length_ancestors_lt balanced held member found
        exact .head ⟨data, held, member⟩
          (inductionHypothesis _ (length ▸ shorter) found further rfl)
  · intro leads
    induction leads using Relation.TransGen.head_induction_on generalizing data with
    | single derives =>
      obtain ⟨other, same, member⟩ := derives
      cases held.symm.trans same
      obtain ⟨inherited, found⟩ := formed.isType_base balanced held member
      exact (formed.mem_ancestors balanced held).mpr
        ⟨_, member, mem_lineage.mpr ⟨inherited, found, Or.inl rfl⟩⟩
    | head derives _ inductionHypothesis =>
      obtain ⟨other, same, member⟩ := derives
      cases held.symm.trans same
      obtain ⟨inherited, found⟩ := formed.isType_base balanced held member
      exact (formed.mem_ancestors balanced held).mpr
        ⟨_, member, mem_lineage.mpr ⟨inherited, found, Or.inr (inductionHypothesis found)⟩⟩

/-- Every ancestor of a class is a class that is there. -/
theorem isType_of_leads (leads : Relation.TransGen heap.Derives type other) : heap.IsType other := by
  obtain ⟨last, _, data, held, member⟩ := Relation.TransGen.tail'_iff.mp leads
  exact formed.isType_base balanced held member

theorem isType_of_mem_ancestors (held : heap.payload? type = some (.type data))
    (member : other ∈ data.ancestors) : heap.IsType other :=
  formed.isType_of_leads balanced ((formed.mem_ancestors_iff balanced held).mp member)

/-- No chain of bases leads back to where it began. -/
theorem not_leads_self (leads : Relation.TransGen heap.Derives type type) : False := by
  obtain ⟨data, held⟩ := formed.isType_of_leads balanced leads
  exact formed.apart type data held ((formed.mem_ancestors_iff balanced held).mpr leads)

end Formed

end Heap

end ObjectHeap
