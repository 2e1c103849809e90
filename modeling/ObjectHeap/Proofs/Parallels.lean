/-
This file follows the operations of a host through two heaps that mirror each other. What a value
is looked up for is the same in both heaps, so that an operation takes the same way through both of
them: it is refused for the same reason, or it makes the corresponding change. Whatever a host hands
over or lends for an operation is held, and therefore there.
-/

import ObjectHeap.Proofs.Births
import ObjectHeap.Proofs.Operations

namespace ObjectHeap

variable {Code Host : Type}

/-! ### What is asked of values -/

namespace Heap

variable {heap : Heap Code} {value : Value}

theorem exists_readValue (live : ∀ handle ∈ value.owns, heap.isLive handle) :
    ∃ found, heap.readValue value = .ok found := by
  cases value with
  | ref handle =>
    obtain ⟨payload, held⟩ :=
      exists_payload?_of_isLive (live handle (Multiset.mem_singleton_self handle))
    exact ⟨some payload, Heap.bind_eq_ok.mpr ⟨payload, heap.read_eq_ok.mpr held, rfl⟩⟩
  | _ => exact ⟨none, rfl⟩

/-- Whether a value that is there is a class can be told. -/
theorem exists_type? (live : ∀ handle ∈ value.owns, heap.isLive handle) :
    ∃ found, heap.type? value = .ok found := by
  obtain ⟨found, asked⟩ := exists_readValue live
  unfold type?
  rw [asked]
  cases found with
  | none => exact ⟨none, rfl⟩
  | some payload => cases payload <;> exact ⟨_, rfl⟩

/-- Whether a value that is there can be weakly referenced can be told. -/
theorem exists_referable? (live : ∀ handle ∈ value.owns, heap.isLive handle) :
    ∃ found, heap.referable? value = .ok found := by
  obtain ⟨found, asked⟩ := exists_readValue live
  unfold referable?
  rw [asked]
  cases found <;> exact ⟨_, rfl⟩

theorem function_eq_ok {handle : Handle} {data : Function Code}
    (held : heap.payload? handle = some (.function data)) : heap.function handle = .ok data :=
  Heap.bind_eq_ok.mpr ⟨.function data, heap.read_eq_ok.mpr held, rfl⟩

/-- Questions that have answers one by one have answers together. -/
theorem mapM_eq_ok {Cause α β : Type} {items : List α} {question : α → Except Cause β} {answer : α → β}
    (answered : ∀ item ∈ items, question item = .ok (answer item)) :
    items.mapM question = .ok (items.map answer) := by
  induction items with
  | nil => rfl
  | cons item others inductionHypothesis =>
    rw [List.mapM_cons, answered item List.mem_cons_self,
      inductionHypothesis fun other member => answered other (List.mem_cons_of_mem item member)]
    rfl

/-- What derives from classes has them and their ancestors as ancestors. -/
theorem ancestors_of_isType {bases : List Handle} (types : ∀ base ∈ bases, heap.IsType base) :
    heap.ancestors bases = .ok (bases.flatMap heap.lineage).eraseDups := by
  refine Heap.bind_eq_ok.mpr ⟨bases.map heap.lineage, mapM_eq_ok fun base member => ?_, rfl⟩
  obtain ⟨data, held⟩ := types base member
  unfold lineage
  rw [heap.read_eq_ok.mpr held, held]
  rfl

variable {one two : Heap Code} {name : Equiv.Perm Handle} {outside : Multiset Handle}

theorem Rests.isLive_of_mem (rests : one.Rests name outside two) {handle : Handle}
    (member : handle ∈ outside) : one.isLive handle :=
  rests.sound.balanced.isLive_of_mem (Or.inl member)

theorem Forgets.length_edges_le {later : Heap Code} (forgets : one.Forgets later)
    (silent : one.Silent) : later.edges.length ≤ one.edges.length := by
  have fewer := Multiset.card_le_card (forgets.edges_le silent)
  rwa [Multiset.coe_card, Multiset.coe_card] at fewer

theorem Rests.settles (rests : one.Rests name outside two) : one.Settles name outside one two :=
  ⟨rests, fun _ live => live⟩

end Heap

/-! ### Payloads that grow -/

/-- A payload that continues another one continues it under other names. -/
theorem Payload.Continues.rename {payload later : Payload Code} (continues : payload.Continues later)
    (name : Handle → Handle) : (payload.rename name).Continues (later.rename name) := by
  cases payload <;> cases later
  case function.function =>
    exact congrArg (fun data : Function Code =>
      { data with attributes := data.attributes.rename name }) continues
  case type.type =>
    exact congrArg (fun data : Class => { data with
      bases := data.bases.map name
      ancestors := data.ancestors.map name
      members := data.members.rename name }) continues
  case method.method =>
    exact congrArg (fun data : Method => { data with
      function := name data.function
      receiver := data.receiver.map (Value.rename name)
      owner := data.owner.map (Value.rename name)
      watchers := data.watchers.map name }) continues
  case tuple.tuple => exact congrArg (List.map (Value.rename name)) continues
  case object.object => exact congrArg name continues
  case weakref.weakref =>
    exact continues.imp (congrArg (Option.map name)) fun cleared => congrArg (Option.map name) cleared
  all_goals exact continues

theorem Payload.Grows.rename {payload later : Payload Code} (grows : payload.Grows later)
    (name : Handle → Handle) : (payload.rename name).Grows (later.rename name) where
  continues := grows.continues.rename name
  target := by rw [target?_rename, target?_rename, grows.target]
  callback := by rw [callbackOf_rename, callbackOf_rename, grows.callback]
  watchers := by rw [watchers_rename, watchers_rename, grows.watchers]
  size := by
    rw [bareSize_rename, bareSize_rename]
    exact grows.size

namespace Heap

variable {one two heap : Heap Code} {name : Equiv.Perm Handle} {outside mine rest : Multiset Handle}
  {place : Handle} {payload grown : Payload Code}

/-- A payload grows, out of what is owned beside the heap. -/
theorem Sound.exchange {limbo : List Handle} (sound : heap.Sound (outside + mine) limbo)
    (settled : heap.releasing = false → heap.pending = [])
    (held : heap.payload? place = some payload) (grows : payload.Grows grown)
    (traded : grown.owns + rest = payload.owns + mine) :
    (heap.mapPayload place fun _ => grown).Sound (outside + rest) limbo := by
  have holds := (sound.congr (zero_add _).symm).holds_blank settled
  refine (holds.exchange grown (fun _ sustained => ?_) held grows
    (show grown.owns + (outside + rest) = _ from ?_)).1.sound.congr ?_
  · obtain ⟨_, member, _⟩ := sustained
    exact Multiset.notMem_zero _ member
  · rw [add_left_comm, traded, add_left_comm]
  · rw [zero_add]
    exact add_zero _

/-- A payload grows in both heaps. -/
theorem Rests.exchange (rests : one.Rests name (outside + mine) two)
    (held : one.payload? place = some payload) (grows : payload.Grows grown)
    (traded : grown.owns + rest = payload.owns + mine) :
    (one.mapPayload place fun _ => grown).Rests name (outside + rest)
      (two.mapPayload (name place) fun _ => grown.rename name) := by
  have heldImage : two.payload? (name place) = some (payload.rename name) :=
    (rests.payloads place).trans (congrArg (Option.map _) held)
  have tradedImage : (grown.rename name).owns + rest.map name =
      (payload.rename name).owns + mine.map name := by
    rw [Payload.owns_rename, Payload.owns_rename, ← Multiset.map_add, traded, Multiset.map_add]
  have image : two.Sound (outside.map name + mine.map name) [] :=
    rests.image.congr (Multiset.map_add _ _ _)
  exact {
    payloads := fun handle => by
      rw [payload?_grown held, payload?_grown heldImage, if_congr name.apply_eq_iff_eq rfl rfl]
      split
      · rfl
      · exact rests.payloads handle
    pending := rests.pending
    releasing := rests.releasing
    meters := rests.meters
    sound := rests.sound.exchange (fun _ => rests.settled) held grows traded
    image := (image.exchange (fun _ => rests.settledImage) heldImage (grows.rename name)
      tradedImage).congr (Multiset.map_add _ _ _).symm
    silent := fun weakref => by
      unfold callback?
      rw [payload?_grown held]
      split
      · exact grows.callback.trans (rests.silent.callbackOf held)
      · exact rests.silent weakref
    idle := rests.idle
    settled := rests.settled }

/-- What an entry exchanges is exchanged among the references between entries. -/
theorem length_edges_exchange (held : heap.payload? place = some payload)
    (traded : grown.owns + rest = payload.owns + mine) :
    (heap.mapPayload place fun _ => grown).edges.length + rest.card = heap.edges.length + mine.card := by
  have others (other : Handle) (different : other ≠ place) :
      (heap.mapPayload place fun _ => grown).visits other = heap.visits other := by
    unfold Heap.visits
    rw [payload?_grown held, if_neg different]
  have exchanged := congrArg Multiset.card (edges_of_others place others)
  have balance := congrArg Multiset.card traded
  unfold Heap.visits at exchanged
  rw [payload?_grown held, if_pos rfl, held] at exchanged
  simp only [Multiset.card_add, Multiset.coe_card, Option.map_some, Option.getD_some, Payload.owns]
    at exchanged balance
  omega

end Heap

/-- An entry that is to be changed is there in both heaps. -/
theorem Attempt.Tandem.fetchToChange {β : Type} {one two : World Code Host}
    {next nextImage : Payload Code → Attempt Code Host β}
    {post : β → Heap Code → β → Heap Code → Prop} {lost : Heap Code → Heap Code → Prop}
    {handle image : Handle} {payload other : Payload Code}
    (held : one.heap.payload? handle = some payload)
    (heldImage : two.heap.payload? image = some other)
    (rest : Tandem one two (next payload) (nextImage other) post lost) :
    Tandem one two (ObjectHeap.fetchToChange handle >>= next)
      (ObjectHeap.fetchToChange image >>= nextImage) post lost :=
  .ask (by rw [held]) (by rw [heldImage]) rest

end ObjectHeap
