/-
This file shows that two heaps that echo each other are in accord. A collection may be due in one of
them and not in the other one, so that they lose different entries, but nothing that is owned then or
that leads on from there. What is in the hands of an operation counts as owned, and so does what a
payload owns that is not placed yet. An allocation is accepted in both heaps or refused in both.
-/

import ObjectHeap.Proofs.Accord
import ObjectHeap.Proofs.Echoes

namespace ObjectHeap

variable {Code Host : Type}

namespace Heap

variable {one two later last : Heap Code} {name : Equiv.Perm Handle}
  {outside others mine : Multiset Handle} {handle : Handle} {value : Value}

/-- A value was delivered by both heaps, each of which may have placed a new entry for it. What was
owned before has kept its name. -/
inductive Delivers (name : Equiv.Perm Handle) (outside : Multiset Handle) :
    Value → Heap Code → Value → Heap Code → Prop
  | intro {answer : Value} {later last : Heap Code} (further : Equiv.Perm Handle)
    (kept : ∀ handle ∈ outside, further handle = name handle)
    (echoes : later.Echoes further (outside + answer.owns) last) :
    Delivers name outside answer later (answer.rename further) last

namespace Echoes

/-- A value that is there already is delivered. -/
theorem delivers (echoes : one.Echoes name (outside + value.owns) two) :
    Delivers name outside value one (value.rename name) two :=
  .intro name (fun _ _ => rfl) echoes

/-- What was sustained while something else was forgotten is sustained still. -/
theorem sustained (echoes : one.Echoes name mine two)
    (fades : Fades Echoes one two name others later last) (owned : outside ≤ others)
    (sustained : one.Sustained outside handle) : later.Sustained outside handle :=
  fades.forgets.sustained echoes.rest.silent fades.holds.rest.sound.balanced owned sustained

/-- When heaps forget things, there are rounds enough still. -/
theorem serves {engine other : Engine Code Host} {more : Nat} (echoes : one.Echoes name mine two)
    (fades : Fades Echoes one two name others later last)
    (serves : Serves engine other one two more) : Serves engine other later last more :=
  serves.fades echoes.rest.silent echoes.image.silent fades

end Echoes

end Heap

open Heap (Echoes Fades)

/-- What is owned from outside, and all that leads on from there, is the same in heaps that echo each
other. -/
def Rapport.echo : Rapport Code where
  holds := Echoes
  knows heap outside := {handle | heap.Sustained outside handle}
  rest echoes := echoes.rest
  image echoes := echoes.image
  isLive echoes sustained := echoes.isLive sustained
  known _ sustained := sustained
  reflects echoes := echoes.reflects
  counter echoes := echoes.counter
  advance echoes := echoes.of_payloads ⟨congrArg (· + 1) echoes.counter, echoes.allocations,
    echoes.limit, echoes.unlimited, echoes.unlimitedImage⟩ (echoes.rest.of_slots rfl rfl rfl rfl rfl)
    (echoes.image.of_slots rfl rfl rfl rfl rfl) (fun _ => rfl) (fun _ => rfl) fun _ member =>
      .of_mem member
  increment echoes sustained := echoes.increment sustained
  exchange echoes sustained held grows traded := echoes.exchange sustained held grows traded

/-- Actions that shed entries come to their ends in both heaps, whatever each of them sheds. -/
theorem Action.Tandem.of_clears {one two : World Code Host} {name : Equiv.Perm Handle}
    {outside others : Multiset Handle} {start startImage : Heap Code}
    {rounds roundsImage work workImage : Nat} {action actionImage : Action Code Host Unit}
    (echoes : start.Echoes name outside startImage)
    (began : start.Sheds one.heap) (beganImage : startImage.Sheds two.heap)
    (first : action.Clears rounds work (fun after => after.AtRest others) one)
    (second : actionImage.Clears roundsImage workImage (fun after => after.AtRest (others.map name))
      two)
    (enough : work ≤ rounds) (enoughImage : workImage ≤ roundsImage) (fewer : others ⊆ outside) :
    Action.Tandem one two action actionImage
      fun _ later _ last => Fades Echoes start startImage name others later last := by
  obtain ⟨_, later, ended, sheds, rest⟩ := first.exists_ok enough
  obtain ⟨_, last, endedImage, shedsImage, image⟩ := second.exists_ok enoughImage
  have whole := began.trans sheds
  have wholeImage := beganImage.trans shedsImage
  exact ⟨(), later, (), last, ended, endedImage,
    echoes.sheds whole wholeImage rest image fewer, whole.forgets, wholeImage.forgets⟩

namespace Engine

variable (engine other : Engine Code Host) {one two : World Code Host} {name : Equiv.Perm Handle}
  {outside : Multiset Handle} {payload : Payload Code}

/-! ### Releases and allocation -/

theorem lockstep_release {value : Value} (echoes : one.heap.Echoes name (outside + value.owns) two.heap)
    (serves : Serves engine other one.heap two.heap value.owns.card) :
    Action.Tandem one two (engine.release value) (other.release (value.rename name))
      fun _ later _ last => Fades Echoes one.heap two.heap name outside later last := by
  have image : two.heap.AtRest (outside.map name + (value.rename name).owns) :=
    echoes.image.congr (by rw [Multiset.map_add, Value.owns_rename])
  have enoughImage : two.heap.edges.length + (value.rename name).owns.card ≤ other.rounds := by
    rw [Value.owns_rename, Multiset.card_map]
    exact serves.enoughImage
  exact .of_clears echoes (.refl _) (.refl _) (engine.clears_release echoes.rest)
    (other.clears_release image) serves.enough enoughImage
    (Multiset.subset_of_le (Multiset.le_add_right _ _))

/-- A collection may be due in one heap and not in the other one. -/
theorem lockstep_countAllocation (echoes : one.heap.Echoes name outside two.heap)
    (serves : Serves engine other one.heap two.heap 0) :
    Action.Tandem one two (engine.countAllocation payload)
      (other.countAllocation (payload.rename name))
      fun _ later _ last => Fades Echoes one.heap two.heap name outside later last :=
  .of_clears echoes (.refl _) (.refl _) (engine.clears_countAllocation payload echoes.rest)
    (other.clears_countAllocation (payload.rename name) echoes.image) serves.enough serves.enoughImage
    (Multiset.Subset.refl _)

/-- The trackers charge for a payload alike. A payload that is refused is given up. -/
theorem lockstep_charge (echoes : one.heap.Echoes name (outside + payload.owns) two.heap)
    (serves : Serves engine other one.heap two.heap payload.owns.card) :
    Action.Tandem one two (engine.charge payload) (other.charge (payload.rename name))
      fun refusal later answer last => answer = refusal ∧ Fades Echoes one.heap two.heap name
        (outside + if refusal.isNone then payload.owns else 0) later last := by
  refine (engine.lockstep_countAllocation other echoes (serves.mono (Nat.zero_le _))).bind ?_
  rintro _ counted _ countedImage fades
  have still := fades.holds
  refine .bind_of_ok (currentHeap_apply _) (currentHeap_apply _) ?_
  dsimp only
  rw [Payload.size_rename]
  rcases still.charge (UInt64.ofNat payload.size) with
    ⟨accepted, acceptedImage⟩ | ⟨exceeded, refused, refusedImage⟩
  · rw [accepted, acceptedImage]
    refine .bind_of_ok (modifyHeap_apply _ _) (modifyHeap_apply _ _) (.pure ⟨rfl, ?_⟩)
    refine fades.trans ⟨still.of_payloads ⟨still.counter, ?_, still.limit, still.unlimited,
      still.unlimitedImage⟩ (still.rest.of_slots rfl rfl rfl rfl rfl)
      (still.image.of_slots rfl rfl rfl rfl rfl) (fun _ => rfl) (fun _ => rfl)
      fun root member => .of_mem member, .of_payloads fun _ => rfl, .of_payloads fun _ => rfl⟩
    exact congrArg (· + 1) still.allocations
  · rw [refused, refusedImage]
    have image : countedImage.AtRest (outside.map name + (payload.rename name).owns) :=
      still.image.congr (by rw [Multiset.map_add, Payload.owns_rename])
    have left := echoes.serves fades serves
    refine .bind_of_ok (modifyHeap_apply _ _) (modifyHeap_apply _ _) (.bind
      (.of_clears still (.of_payloads (fun _ => rfl) (fun _ => rfl) rfl rfl)
        (.of_payloads (fun _ => rfl) (fun _ => rfl) rfl rfl)
        (engine.clears_refusal payload still.rest) (other.clears_refusal (payload.rename name) image)
        left.enough ?_ (Multiset.subset_of_le (Multiset.le_add_right _ _))) ?_)
    · rw [Payload.owns_rename, Multiset.card_map]
      exact left.enoughImage
    · rintro _ later _ last gone
      exact .pure ⟨rfl, fades.trans (gone.congr (add_zero outside).symm)⟩

/-! ### The accord -/

/-- Two heaps that echo each other have in common all that is owned from outside or leads on from
there. -/
def echoing : Accord Code Host where
  toRapport := .echo
  engine
  other
  release echoes serves := engine.lockstep_release other echoes serves
  charge echoes serves := engine.lockstep_charge other echoes serves

end Engine

namespace Accord

variable {engine other : Engine Code Host} {one two later last : Heap Code} {name : Equiv.Perm Handle}
  {outside : Multiset Handle}

/-- What is bought is placed in the slot that each heap has found, and the two slots correspond from
then on. -/
theorem Begets.delivers {value image : Value}
    (begets : (engine.echoing other).Begets one two name outside value later image last) :
    Heap.Delivers name outside value later image last := by
  obtain ⟨@⟨paid, paidImage, _, _, place, slot, fades, first, second, meters, metersImage⟩, suits⟩ :=
    begets
  have echoes : paid.Echoes name _ paidImage := fades.holds
  have fits := fades.forgets.suits suits fun handle member =>
    echoes.isLive (.of_mem (Multiset.mem_add.mpr (Or.inr member)))
  have placed := echoes.admits first second meters metersImage fits.founded fits.unwatched
    fits.aimless fits.quiet
  have delivered := @Heap.Delivers.intro Code name outside (.ref _) _ _ _ (fun handle member =>
    echoes.reassign_of_sustained first.empty second.empty
      (.of_mem (Multiset.mem_add.mpr (Or.inl member)))) placed
  rwa [Value.rename, reassign_apply_self] at delivered

/-- A new entry is delivered. -/
theorem delivering {one two : World Code Host} {first second : Attempt Code Host Value}
    {former formerImage : Heap Code} (start : Attempt.Tandem one two first second
      ((engine.echoing other).Begets former formerImage name outside)
      ((engine.echoing other).Resumes former name outside)) :
    Attempt.Tandem one two first second (Heap.Delivers name outside)
      fun later last => later.Echoes name outside last :=
  start.imp (fun _ _ _ _ begets => begets.delivers) fun _ _ resumes => resumes.holds

end Accord

end ObjectHeap
