/-
This file allocates in two heaps side by side. An allocation is counted in both heaps, so that a
collection is due in both of them or in neither one. The trackers agree, and accept or refuse the
same payload. What is refused is given up in both heaps; what is accepted is placed in a slot that
each heap finds for itself, be it in its method pool, among its free slots or at the end.
-/

import ObjectHeap.Proofs.Placement

namespace ObjectHeap

variable {Code Host : Type}

namespace Heap

variable {one two paid later last : Heap Code} {name : Equiv.Perm Handle}
  {outside : Multiset Handle} {place image : Handle} {payload : Payload Code}

/-! ### Meters -/

/-- Changes what a heap counts beside references. -/
def changeMeters (heap : Heap Code) (change : Meters → Meters) : Heap Code :=
  { heap with
    tracker := (change heap.meters).tracker
    nextCounter := (change heap.meters).nextCounter
    sinceCollection := (change heap.meters).sinceCollection }

theorem Rests.changeMeters (rests : one.Rests name outside two) (change : Meters → Meters) :
    (one.changeMeters change).Rests name outside (two.changeMeters change) where
  payloads := rests.payloads
  pending := rests.pending
  releasing := rests.releasing
  meters := congrArg change rests.meters
  sound := rests.sound.of_slots rfl rfl rfl rfl
  image := rests.image.of_slots rfl rfl rfl rfl
  silent := rests.silent
  idle := rests.idle
  settled := rests.settled

theorem meters_place (heap : Heap Code) (payload : Payload Code) (slot : Option Handle) :
    (heap.place payload slot).2.meters = heap.meters := by
  cases slot <;> rfl

/-! ### Slots to take -/

/-- A way to take a slot for payloads that are methods, or for payloads that are none: the slot is
empty, and nothing else is used up. -/
structure Supplies (take : Heap Code → Option Handle × Heap Code) (isMethod : Bool) : Prop where
  admits : ∀ (heap : Heap Code) (payload : Payload Code), payload.isMethod = isMethod →
    heap.Housed [] → heap.Admits payload ((take heap).2.place payload (take heap).1).1
      ((take heap).2.place payload (take heap).1).2
  meters : ∀ heap, (take heap).2.meters = heap.meters

theorem supplies_takeFree (isMethod : Bool) :
    Supplies (takeFree : Heap Code → Option Handle × Heap Code) isMethod where
  admits heap payload _ housed := heap.admits_takeFree payload housed
  meters heap := by
    unfold takeFree
    split <;> rfl

theorem supplies_takeFreeForMethod :
    Supplies (takeFreeForMethod : Heap Code → Option Handle × Heap Code) true where
  admits heap payload isMethod housed := heap.admits_takeFreeForMethod isMethod housed
  meters heap := by
    unfold takeFreeForMethod
    split
    · rfl
    · exact (supplies_takeFree true).meters heap

/-! ### What an allocation comes to -/

/-- An entry was born in each heap, and is owned through its handle. -/
inductive Creates (one : Heap Code) (name : Equiv.Perm Handle) (outside : Multiset Handle) :
    Value → Heap Code → Value → Heap Code → Prop
  | intro {later last : Heap Code} {place image : Handle}
    (bears : one.Bears name outside place image later last) :
    Creates one name outside (.ref place) later (.ref image) last

/-- Both heaps are at rest again, and nothing has come. -/
structure Settles (one : Heap Code) (name : Equiv.Perm Handle) (outside : Multiset Handle)
    (later last : Heap Code) : Prop where
  rests : later.Rests name outside last
  older : ∀ handle, later.isLive handle → one.isLive handle

theorem Settles.of_forgets (rests : later.Rests name outside last) (forgets : one.Forgets later) :
    one.Settles name outside later last := ⟨rests, fun _ live => forgets.isLive live⟩

theorem Settles.congr {others : Multiset Handle} (settles : one.Settles name outside later last)
    (same : outside = others) : one.Settles name others later last := same ▸ settles

/-- Nothing but the entry that was born has come since an earlier heap that forgot things. -/
theorem Bears.of_forgets (bears : paid.Bears name outside place image later last)
    (forgets : one.Forgets paid) : one.Bears name outside place image later last where
  rests := bears.rests
  fresh := bears.fresh
  older handle live different :=
    (bears.older handle live different).imp_left fun before => forgets.isLive before

end Heap

namespace Engine

variable (engine : Engine Code Host) {one two : World Code Host} {name : Equiv.Perm Handle}
  {outside : Multiset Handle} {payload : Payload Code} {former : Heap Code}

/-! ### Allocation -/

theorem tandem_countAllocation (payload : Payload Code)
    (rests : one.heap.Rests name outside two.heap)
    (enough : one.heap.edges.length ≤ engine.rounds) :
    Action.Tandem one two (engine.countAllocation payload)
      (engine.countAllocation (payload.rename name))
      fun _ later _ last => later.Rests name outside last ∧ one.heap.Forgets later := by
  unfold countAllocation
  rw [Payload.isContainer_rename]
  split
  · let started : Heap Code := { one.heap with sinceCollection := one.heap.sinceCollection + 1 }
    let startedImage : Heap Code :=
      { two.heap with sinceCollection := two.heap.sinceCollection + 1 }
    have counted : started.Rests name outside startedImage := rests.changeMeters fun meters =>
      { meters with sinceCollection := meters.sinceCollection + 1 }
    have forgets : one.heap.Forgets started := .of_payloads fun _ => rfl
    have due : startedImage.tracker.collectionDue startedImage.sinceCollection =
        started.tracker.collectionDue started.sinceCollection :=
      congrArg (fun meters : Heap.Meters => meters.tracker.collectionDue meters.sinceCollection)
        counted.meters
    refine .bind_of_ok (modifyHeap_apply one _) (modifyHeap_apply two _)
      (.bind_of_ok (currentHeap_apply _) (currentHeap_apply _) ?_)
    show Action.Tandem { one with heap := started } { two with heap := startedImage }
      (if started.tracker.collectionDue started.sinceCollection then _ else _)
      (if startedImage.tracker.collectionDue startedImage.sinceCollection then _ else _) _
    rw [due]
    split
    · refine .bind (engine.tandem_collect counted enough) ?_
      rintro _ later _ last ⟨_, done, further⟩
      exact .pure ⟨done, forgets.trans further⟩
    · exact .pure ⟨counted, forgets⟩
  · exact .pure ⟨rests, .refl _⟩

/-- The trackers charge for a payload alike. A payload that is refused is given up. -/
theorem tandem_charge (rests : one.heap.Rests name (outside + payload.owns) two.heap)
    (enough : one.heap.edges.length + payload.owns.card ≤ engine.rounds) :
    Action.Tandem one two (engine.charge payload) (engine.charge (payload.rename name))
      fun refusal later other last => other = refusal ∧ one.heap.Forgets later ∧
        later.Rests name (outside + if refusal.isNone then payload.owns else 0) last := by
  refine (engine.tandem_countAllocation payload rests (by omega)).bind ?_
  rintro _ counted _ countedImage ⟨still, forgets⟩
  refine .bind_of_ok (currentHeap_apply _) (currentHeap_apply _) ?_
  dsimp only
  have tracker : countedImage.tracker = counted.tracker :=
    congrArg Heap.Meters.tracker still.meters
  rw [tracker, Payload.size_rename]
  cases charged : counted.tracker.charge (UInt64.ofNat payload.size) with
  | ok tracker =>
    refine .bind_of_ok (modifyHeap_apply _ _) (modifyHeap_apply _ _) (.pure ⟨rfl, ?_, ?_⟩)
    · exact forgets.trans (.of_payloads fun _ => rfl)
    · exact still.changeMeters fun meters => { meters with tracker }
  | error exceeded =>
    have waits := still.move (payload.leavings counted.pending)
      (show _ + outside = _ by rw [Payload.leavings_eq]; abel)
    rw [← Payload.leavings_rename, ← still.pending] at waits
    have fewer := Multiset.card_le_card (forgets.edges_le rests.silent)
    have waiting := congrArg Multiset.card (payload.leavings_eq counted.pending)
    rw [Multiset.coe_card, Multiset.coe_card] at fewer
    rw [Multiset.card_add, Multiset.coe_card, Multiset.coe_card, still.settled, List.length_nil,
      ← still.settled] at waiting
    refine .bind_of_ok (modifyHeap_apply _ _) (modifyHeap_apply _ _)
      ((engine.tandem_drain waits still.idle ?_).bind ?_)
    · show (payload.leavings counted.pending).length + counted.edges.length ≤ _
      omega
    · rintro _ later _ last ⟨done, further⟩
      exact .pure ⟨rfl, forgets.trans ((Heap.Forgets.of_payloads fun _ => rfl).trans further),
        done.congr (add_zero outside).symm⟩

end Engine

end ObjectHeap
