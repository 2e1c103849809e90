/-
This file shows that two heaps that mirror each other are in accord. Whatever is there is the same in
both of them, so that collections are due in both heaps or in neither one, and what is given up or
refused leaves the same. A weak reference, which shows whether its target is there, is created alike as
well.
-/

import ObjectHeap.Proofs.Accord

namespace ObjectHeap

variable {Code Host : Type}

namespace Heap

variable {one two later last : Heap Code} {name : Equiv.Perm Handle} {outside : Multiset Handle}
  {place : Handle}

/-- What one heap has forgotten the other one has forgotten, if they mirror each other still. -/
theorem Mirrors.forgets (mirrors : one.Mirrors name two) (still : later.Mirrors name last)
    (forgets : one.Forgets later) : two.Forgets last := by
  intro image payload held
  obtain ⟨handle, rfl⟩ := name.surjective image
  rw [still.payloads] at held
  obtain ⟨left, there, rfl⟩ := Option.map_eq_some_iff.mp held
  obtain ⟨former, gone, found, rfl⟩ := forgets handle left there
  refine ⟨former.rename name, fun other => gone (name.symm other), ?_, ?_⟩
  · rw [mirrors.payloads, found]
    rfl
  · exact (Payload.without_rename fun other => by rw [name.symm_apply_apply]).symm

namespace Rests

variable (rests : one.Rests name outside two)

include rests

theorem atRest : one.AtRest outside :=
  ⟨rests.sound, rests.silent, rests.idle, rests.settled⟩

theorem atRest_image : two.AtRest (outside.map name) :=
  ⟨rests.image, rests.toMirrors.silent rests.silent, rests.idleImage, rests.settledImage⟩

/-- One more reference is taken to what is there, in both heaps. -/
theorem increment (live : one.isLive place) :
    (one.increment place).Rests name (outside + {place}) (two.increment (name place)) where
  payloads other := by
    rw [payload?_increment, payload?_increment]
    exact rests.payloads other
  pending := rests.pending
  releasing := rests.releasing
  meters := rests.meters
  sound := rests.sound.increment live
  image := (rests.image.increment ((rests.isLive place).trans live)).congr
    (by rw [Multiset.map_add, Multiset.map_singleton])
  silent := (rests.atRest.increment live).silent
  idle := rests.idle
  settled := rests.settled

end Rests

end Heap

open Heap (Rests Fades)

/-- Whatever is there is the same in heaps that mirror each other. -/
def Rapport.mirror : Rapport Code where
  holds := Rests
  knows heap _ := {handle | heap.isLive handle}
  rest rests := rests.atRest
  image rests := rests.atRest_image
  isLive _ live := live
  known rests sustained := rests.sound.balanced.isLive_of_sustained sustained
  reflects rests :=
    ⟨fun handle _ => rests.payloads handle,
      fun _ _ _ held _ member => rests.sound.isLive_of_mentions held member⟩
  counter rests := congrArg Heap.Meters.nextCounter rests.meters
  advance rests := rests.changeMeters fun meters =>
    { meters with nextCounter := meters.nextCounter + 1 }
  increment rests live := rests.increment live
  exchange rests _ held grows traded := rests.exchange held grows traded

namespace Engine

variable (engine : Engine Code Host)

/-- An engine works alike in two heaps that mirror each other. -/
def mirroring : Accord Code Host where
  toRapport := .mirror
  engine
  other := engine
  release rests serves := (engine.tandem_release rests serves.enough).imp
    fun _ _ _ _ ⟨left, forgets⟩ => ⟨left, forgets, rests.toMirrors.forgets left.toMirrors forgets⟩
  charge rests serves := (engine.tandem_charge rests serves.enough).imp
    fun _ _ _ _ ⟨same, forgets, left⟩ =>
      ⟨same, left, forgets, rests.toMirrors.forgets left.toMirrors forgets⟩

end Engine

variable {engine : Engine Code Host} {one two : World Code Host} {former formerImage : Heap Code}
  {name : Equiv.Perm Handle} {outside : Multiset Handle}

/-- As many rounds are needed in one heap as in the other one. -/
theorem Heap.Rests.serves {one two : Heap Code} {more : Nat} (rests : one.Rests name outside two)
    (enough : one.edges.length + more ≤ engine.rounds) : Serves engine engine one two more :=
  ⟨enough, by rwa [rests.length_edges]⟩

namespace Accord

theorem Resumes.settles {later last : Heap Code}
    (resumes : engine.mirroring.Resumes former name outside later last) :
    former.Settles name outside later last :=
  ⟨resumes.holds, resumes.older⟩

/-- What is bought is born in the slot that each heap has found. -/
theorem Begets.creates {value image : Value} {later last : Heap Code}
    (begets : engine.mirroring.Begets former formerImage name outside value later image last) :
    former.Creates name outside value later image last := by
  obtain ⟨@⟨paid, paidImage, _, _, place, slot, fades, first, second, meters, metersImage⟩, suits⟩ :=
    begets
  have rests : paid.Rests name _ paidImage := fades.holds
  have fits := fades.forgets.suits suits fun handle member =>
    rests.isLive_of_mem (Multiset.mem_add.mpr (Or.inr member))
  exact .intro ((rests.bears first second meters metersImage fits.founded fits.unwatched fits.aimless
    fits.quiet).of_forgets fades.forgets)

end Accord

/-- A weak reference is registered in both heaps with what it refers to, which is held. -/
theorem Engine.tandem_newWeakref {target : Value} (rests : one.heap.Rests name outside two.heap)
    (held : ∀ handle ∈ target.owns, handle ∈ outside)
    (enough : one.heap.edges.length ≤ engine.rounds) :
    Attempt.Tandem one two (engine.newWeakref target none)
      (engine.newWeakref (target.rename name) none)
      (one.heap.Creates name outside) (one.heap.Settles name outside) := by
  have live (handle : Handle) (member : handle ∈ target.owns) :=
    rests.isLive_of_mem (held handle member)
  obtain ⟨found, asked⟩ := Heap.exists_referable? live
  refine .ask asked (by rw [rests.referable?, asked]; rfl) ?_
  cases found with
  | none =>
    have named := rests.sound.typeName_ok live
    exact .ask named ((rests.typeName target).trans named)
      (.act_of_ok (Action.pure_apply () one) (Action.pure_apply () two) (.refuse rests.settles))
  | some handle =>
    obtain ⟨rfl, payload, there, referable⟩ := Heap.referable?_eq_some asked
    have paying : one.heap.Rests name (outside + 0) two.heap := rests.congr (add_zero outside).symm
    refine ((engine.mirroring.tandem_allocate_buys (.weakref { target := some handle, callback := none })
      (.refl paying) (rests.serves enough)).imp (fun _ _ _ _ buys => buys) fun _ _ lost =>
        lost.settles).bind ?_
    rintro _ later _ last buys
    cases buys with
    | @intro paid paidImage _ _ place image fades first second meters metersImage =>
      have still : paid.Rests name outside paidImage := Rests.congr fades.holds (add_zero outside)
      obtain ⟨aimed, here⟩ := Heap.exists_payload?_of_isLive
        (still.isLive_of_mem (held handle (Multiset.mem_singleton_self handle)))
      have able : aimed.isReferable :=
        Payload.isReferable_of_continues (fades.forgets.continues there here) referable
      have hereImage : paidImage.payload? (name handle) = some (aimed.rename name) :=
        (still.payloads handle).trans (congrArg (Option.map _) here)
      have apart : handle ≠ place := by
        rintro rfl
        rw [first.payload?_empty] at here
        cases here
      have apartImage : name handle ≠ image := by
        rintro same
        rw [same, second.payload?_empty] at hereImage
        cases hereImage
      have bears := still.bears_weakref first second meters metersImage here able
      refine .fetchToChange ((first.payload?_others apart).trans here)
        ((second.payload?_others apartImage).trans hereImage)
        (.act_of_ok (modifyHeap_apply _ fun heap => heap.register handle place)
          (modifyHeap_apply _ fun heap => heap.register (name handle) image)
          (.pure (.intro (bears.of_forgets fades.forgets))))

end ObjectHeap
