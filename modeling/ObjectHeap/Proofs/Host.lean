/-
This file sets up hosts. A host asks operations of the heap, one after the other, and decides by
the answers how to go on. It may keep values between its operations, and the bodies of its
functions are programs of the same kind, which run in the course of an operation. A host respects
ownership when it hands over and drops only what it has in its hands, and lends only what stays
there. Runs are recorded: the heap is noted whenever code of the host begins to run, and after
every operation that such code asks for.
-/

import ObjectHeap.Proofs.Copies
import ObjectHeap.Proofs.Inspection

namespace ObjectHeap

variable {Code Host : Type}

/-! ### Operations -/

/-- What a host can ask of a heap. Reading a heap without an effect on it is no operation. -/
inductive Operation (Code : Type) where
  | newString (text : String)
  | newList (items : List Value)
  | newTuple (items : List Value)
  | newFunction (name : String) (qualifiedName doc : Option String) (code : Code)
  | newClass (name : String) (bases : List Value)
  | newInstance (type : Value)
  | newMethod (function receiver owner : Value)
  | methodOfArguments (arguments : Arguments)
  | newWeakref (target : Value) (callback : Option Value)
  | append (list item : Value)
  | unpack (value : Value)
  | getAttribute (value : Value) (name : String)
  | setAttribute (value : Value) (name : String) (content : Value)
  /-- A call of an attribute. The walk is the one through the memo of a call that copies. -/
  | callAttribute (value : Value) (name : String) (arguments : Arguments) (walk : Memo.Walk)
  | call (callable : Value) (arguments : Arguments)
  | bind (value object type : Value)
  | reduce (method : Value)
  | reduceBy (method : Value) (arguments : Arguments)
  | isInstance (value type : Value)
  | isSubtype (sub sup : Value)
  | equal (left right : Value)
  | order (left right : Value)
  | hash (value : Value)
  | render (value : Value)
  /-- A deep copy with the copies in a memo, which is taken over and comes back. -/
  | deepCopy (value : Value) (memo : Memo)
  | dropMemo (memo : Memo) (walk : Memo.Walk)
  | withoutKeywords (callable : String) (arguments : Arguments)
  | atMostOne (callable : String) (arguments : Arguments)
  | exactlyOne (callable : String) (arguments : Arguments)
  /-- One more reference to what a value refers to. -/
  | share (value : Value)
  | drop (value : Value)
  | collect
  /-- The errors that no caller could receive. -/
  | takeUnraisable

namespace Operation

/-- What an operation answers. -/
def Answer : Operation Code → Type
  | append .. | setAttribute .. => Except Error Unit
  | unpack _ => Option (List Value)
  | isInstance .. | isSubtype .. | equal .. => Except Error Bool
  | order .. => Except Error Ordering
  | hash _ => Except Error Int64
  | render _ => Except Error String
  | deepCopy .. => Except Error Value × Memo
  | withoutKeywords .. => Except Error Arguments
  | atMostOne .. => Except Error (Option Value)
  | dropMemo .. | share _ | drop _ => Unit
  | collect => Nat
  | takeUnraisable => List Error
  | _ => Except Error Value

/-- Runs an operation. -/
def perform (engine : Engine Code Host) :
    (operation : Operation Code) → Action Code Host operation.Answer
  | newString text => (engine.newString text).run
  | newList items => (engine.newList items).run
  | newTuple items => (engine.newTuple items).run
  | newFunction name qualifiedName doc code => (engine.newFunction name qualifiedName doc code).run
  | newClass name bases => (engine.newClass name bases).run
  | newInstance type => (engine.newInstance type).run
  | newMethod function receiver owner => (engine.newMethod function receiver owner).run
  | methodOfArguments arguments => (engine.methodOfArguments arguments).run
  | newWeakref target callback => (engine.newWeakref target callback).run
  | append list item => (engine.append list item).run
  | unpack value => retainItems value
  | getAttribute value name => (engine.getAttribute value name).run
  | setAttribute value name content => (engine.setAttribute value name content).run
  | callAttribute value name arguments walk => (engine.callAttribute value name arguments walk).run
  | call callable arguments => (engine.call callable arguments).run
  | bind value object type => (engine.bind value object type).run
  | reduce method => (ObjectHeap.reduce method).run
  | reduceBy method arguments => (engine.reduceBy method arguments).run
  | isInstance value type => (ObjectHeap.isInstance value type).run
  | isSubtype sub sup => (ObjectHeap.isSubtype sub sup).run
  | equal left right => (engine.equal left right).run
  | order left right => (engine.order left right).run
  | hash value => (engine.hash value).run
  | render value => (engine.render value).run
  | deepCopy value memo => engine.deepCopy value memo
  | dropMemo memo walk => engine.releaseMemo memo walk
  | withoutKeywords callable arguments => (engine.withoutKeywords callable arguments).run
  | atMostOne callable arguments => (engine.atMostOne callable arguments).run
  | exactlyOne callable arguments => (engine.exactlyOne callable arguments).run
  | share value => retainValue value
  | drop value => engine.release value
  | collect => engine.collect
  | takeUnraisable => changeHeap fun heap => (heap.unraisable, { heap with unraisable := [] })

/-- The references that an operation takes over. -/
def consumes : Operation Code → Multiset Handle
  | newList items | newTuple items => owned items
  | newWeakref _ callback => owned callback.toList
  | append _ item => item.owns
  | setAttribute _ _ content => content.owns
  | methodOfArguments arguments | callAttribute _ _ arguments _ | call _ arguments
  | reduceBy _ arguments | withoutKeywords _ arguments | atMostOne _ arguments
  | exactlyOne _ arguments => arguments.owns
  | deepCopy _ memo | dropMemo memo _ => memo.owns
  | drop value => value.owns
  | _ => 0

/-- The references that an operation borrows. -/
def borrows : Operation Code → Multiset Handle
  | newClass _ bases => owned bases
  | newInstance value | newWeakref value _ | append value _ | unpack value | getAttribute value _
  | setAttribute value _ _ | callAttribute value _ _ _ | call value _ | reduce value
  | reduceBy value _ | hash value | render value | deepCopy value _ | share value => value.owns
  | isInstance one other | isSubtype one other | equal one other | order one other =>
    owned [one, other]
  | newMethod one other third | bind one other third => owned [one, other, third]
  | _ => 0

/-- The references that an answer brings. -/
def gains : (operation : Operation Code) → operation.Answer → Multiset Handle
  | newString _, outcome | newList _, outcome | newTuple _, outcome | newFunction .., outcome
  | newClass .., outcome | newInstance _, outcome | newMethod .., outcome
  | methodOfArguments _, outcome | newWeakref .., outcome | getAttribute .., outcome
  | callAttribute .., outcome | call .., outcome | bind .., outcome | reduce _, outcome
  | reduceBy .., outcome | exactlyOne .., outcome => outcomeOwns Value.owns 0 outcome
  | unpack _, answer => owned (answer.getD [])
  | deepCopy .., answer => outcomeOwns Value.owns 0 answer.1 + answer.2.owns
  | withoutKeywords .., outcome => outcomeOwns Arguments.owns 0 outcome
  | atMostOne .., outcome => outcomeOwns (fun value => owned value.toList) 0 outcome
  | share value, _ => value.owns
  | _, _ => 0

/-- An operation is handed no memo but one of those that are known. -/
def Threads (known : Set Memo) : Operation Code → Prop
  | deepCopy _ memo => memo ∈ known
  | _ => True

/-- The memos that an answer brings. -/
def memos : (operation : Operation Code) → operation.Answer → Set Memo
  | deepCopy .., answer => {answer.2}
  | _, _ => ∅

theorem Threads.mono {operation : Operation Code} {known more : Set Memo}
    (threads : operation.Threads known) (sub : known ⊆ more) : operation.Threads more := by
  cases operation with
  | deepCopy value memo => exact sub threads
  | _ => trivial

variable {ledger : Ledger Code Host} {engine : Engine Code Host}

/-- Every operation keeps a ledger as far as it has nothing to do with calm runs. What it borrows
is counted among what others hold. -/
theorem yields_perform (operation : Operation Code) (keeps : engine.Keeps ledger)
    (wild : ¬ ledger.calm) {scene : Scene} {before : World Code Host}
    (lent : operation.borrows ⊆ scene.frame)
    (threads : operation.Threads {memo | ledger.Trusts memo before.host})
    (holds : ledger.Holds scene before operation.consumes) :
    (operation.perform engine).Yields ledger scene before operation.gains := by
  cases operation with
  | newString text => exact keeps.newString text scene before holds
  | newList items => exact keeps.newList items scene before holds
  | newTuple items => exact keeps.newTuple items scene before holds
  | newFunction name qualifiedName doc code =>
    exact keeps.newFunction name qualifiedName doc code scene before holds
  | newClass name bases => exact keeps.newClass name bases scene before holds
  | newInstance type => exact keeps.newInstance type scene before holds
  | newMethod function receiver owner => exact keeps.newMethod function receiver owner scene before holds
  | methodOfArguments arguments => exact keeps.methodOfArguments arguments scene before holds
  | newWeakref target callback =>
    exact fun _ _ ended => (keeps.yields_newWeakref lent holds ended).1
  | append list item => exact (keeps.append wild list item).nothing scene before holds
  | unpack value => exact Action.Keeps.retainItems value scene before holds
  | getAttribute value name => exact keeps.getAttribute value name scene before holds
  | setAttribute value name content =>
    exact (keeps.setAttribute wild value name content).nothing scene before holds
  | callAttribute value name arguments walk =>
    exact keeps.yields_callAttribute wild walk lent holds
  | call callable arguments => exact keeps.call callable arguments scene before holds
  | bind value object type => exact keeps.bind value object type scene before holds
  | reduce method => exact Engine.keeps_reduce method scene before holds
  | reduceBy method arguments => exact keeps.reduceBy method arguments scene before holds
  | isInstance value type =>
    exact (Attempt.Keeps.isInstance value type).nothing scene before holds
  | isSubtype sub sup => exact (Attempt.Keeps.isSubtype sub sup).nothing scene before holds
  | equal left right => exact (keeps.equal left right).nothing scene before holds
  | order left right => exact (keeps.order left right).nothing scene before holds
  | hash value => exact (keeps.hash value).nothing scene before holds
  | render value => exact (keeps.render value).nothing scene before holds
  | deepCopy value memo => exact keeps.yields_deepCopy wild lent holds threads
  | dropMemo memo walk => exact keeps.releaseMemo memo walk scene before holds
  | withoutKeywords callable arguments =>
    exact keeps.withoutKeywords callable arguments (fun _ => rfl) scene before holds
  | atMostOne callable arguments => exact keeps.atMostOne callable arguments scene before holds
  | exactlyOne callable arguments => exact keeps.exactlyOne callable arguments scene before holds
  | share value => exact Action.Keeps.retainValue value scene before holds
  | drop value => exact keeps.release value scene before holds
  | collect => exact keeps.collect scene before holds
  | takeUnraisable =>
    obtain ⟨stands, carries⟩ := holds.of_slots { before.heap with unraisable := [] } 0 rfl rfl rfl
      holds.releasing rfl
    exact .of_eq (changeHeap_apply before fun heap => (heap.unraisable, { heap with unraisable := [] }))
      ⟨stands, holds.settled, holds.tidy⟩ ⟨carries, .relieve before⟩

/-- A memo that comes back from a copy is as good as the one that was handed in. -/
theorem trusts_perform (operation : Operation Code) (keeps : engine.Keeps ledger)
    (wild : ¬ ledger.calm) {scene : Scene} {before after : World Code Host} {answer : operation.Answer}
    (lent : operation.borrows ⊆ scene.frame)
    (threads : operation.Threads {memo | ledger.Trusts memo before.host})
    (holds : ledger.Holds scene before operation.consumes)
    (ended : operation.perform engine before = .ok (answer, after)) :
    operation.memos answer ⊆ {memo | ledger.Trusts memo after.host} := by
  cases operation with
  | deepCopy value memo =>
    rintro _ rfl
    exact ((keeps.copyWithin wild _ value scene memo before lent holds threads).notes answer after
      ended).trusts
  | _ => exact Set.empty_subset _

/-- A weak reference that an operation has created refers to what the operation was asked for. -/
def Aims : (operation : Operation Code) → operation.Answer → Heap Code → Prop
  | newWeakref target _, .ok value, heap =>
    ∃ handle weakref, target = .ref handle ∧ value = .ref weakref ∧
      heap.target? weakref = some handle
  | _, _, _ => True

theorem aims_perform (operation : Operation Code) (keeps : engine.Keeps ledger) {scene : Scene}
    {before after : World Code Host} {answer : operation.Answer}
    (lent : operation.borrows ⊆ scene.frame)
    (holds : ledger.Holds scene before operation.consumes)
    (ended : operation.perform engine before = .ok (answer, after)) :
    operation.Aims answer after.heap := by
  cases operation with
  | newWeakref target callback =>
    have aims := (keeps.yields_newWeakref lent holds ended).2
    cases answer with
    | ok value =>
      obtain ⟨handle, weakref, asked, answered, aimed, _⟩ := aims
      exact ⟨handle, weakref, asked, answered, aimed⟩
    | error error => trivial
  | _ => trivial

end Operation

/-! ### Recorded runs -/

/-- A moment of a run: the heap as it is, and the operation that led there with its answer, unless
code has only begun to run. -/
structure Moment (Code : Type) where
  heap : Heap Code
  latest : Option ((operation : Operation Code) × operation.Answer)

/-- A host with the moments of its run, the latest one first. -/
structure Recorded (Code Host : Type) where
  host : Host
  moments : List (Moment Code)

/-- Notes the heap as it is. -/
def note (latest : Option ((operation : Operation Code) × operation.Answer)) :
    Action Code (Recorded Code Host) Unit :=
  modify fun world =>
    { world with host :=
      { world.host with moments := { heap := world.heap, latest } :: world.host.moments } }

/-- Runs an operation and notes the heap after it. -/
def Operation.noted (operation : Operation Code) (engine : Engine Code (Recorded Code Host)) :
    Action Code (Recorded Code Host) operation.Answer := do
  let answer ← operation.perform engine
  note (some ⟨operation, answer⟩)
  return answer

/-! ### Programs -/

/-- What a host does: it ends with an outcome, asks for an operation and goes on with the answer,
or looks at its own state and at the heap, changes its state and goes on. -/
inductive Program (Code Host : Type) where
  | finish (outcome : Except Error Value)
  | perform (operation : Operation Code) (next : operation.Answer → Program Code Host)
  | consult (change : Host → Heap Code → Host) (next : Host → Heap Code → Program Code Host)

namespace Program

/-- Runs a program. -/
def run (engine : Engine Code (Recorded Code Host)) :
    Program Code Host → Action Code (Recorded Code Host) (Except Error Value)
  | finish outcome => return outcome
  | perform operation next => do
    let answer ← operation.noted engine
    (next answer).run engine
  | consult change next => do
    let world ← get
    set { world with host := { world.host with host := change world.host.host world.heap } }
    (next world.host.host world.heap).run engine

/-- Runs a program as the body of a function, from the moment in which it begins. -/
def body (engine : Engine Code (Recorded Code Host)) (program : Program Code Host) :
    Attempt Code (Recorded Code Host) Value :=
  ⟨do
    note none
    program.run engine⟩

/-- A program that has some references in its hands respects ownership, where `held` tells what
the host keeps: an operation takes over what the program hands over and borrows from the rest,
what the program keeps it has no longer in its hands, and in the end its hands are empty but for
the outcome. -/
def Respects (held : Host → Multiset Handle) : Multiset Handle → Program Code Host → Prop
  | hand, finish outcome => hand = outcomeOwns Value.owns 0 outcome
  | hand, perform operation next =>
    ∃ rest, hand = operation.consumes + rest ∧ operation.borrows ⊆ rest ∧
      ∀ answer, (next answer).Respects held (rest + operation.gains answer)
  | hand, consult change next =>
    ∀ host heap, ∃ left, held host + hand = held (change host heap) + left ∧
      (next host heap).Respects held left

/-- A program does not make memos up: beside those that are known, it hands in only what came back
from a copy. -/
def Threads : Set Memo → Program Code Host → Prop
  | _, finish _ => True
  | known, perform operation next =>
    operation.Threads known ∧ ∀ answer, (next answer).Threads (known ∪ operation.memos answer)
  | known, consult _ next => ∀ host heap, (next host heap).Threads known

theorem threads_of_forall (program : Program Code Host) {known : Set Memo}
    (every : ∀ memo, memo ∈ known) : program.Threads known := by
  induction program generalizing known with
  | finish => trivial
  | perform operation next inductionHypothesis =>
    refine ⟨?_, fun answer => inductionHypothesis answer fun memo => Or.inl (every memo)⟩
    cases operation with
    | deepCopy value memo => exact every memo
    | _ => trivial
  | consult change next inductionHypothesis => exact fun host heap => inductionHypothesis host heap every

variable {held : Host → Multiset Handle}

/-- A program that first drops values, in order. -/
def dropping (next : Program Code Host) : List Value → Program Code Host
  | [] => next
  | value :: rest => perform (.drop value) fun _ => dropping next rest

theorem respects_dropping {next : Program Code Host} {hand : Multiset Handle}
    (respects : next.Respects held hand) (values : List Value) :
    (dropping next values).Respects held (owned values + hand) := by
  induction values with
  | nil =>
    rw [owned_nil, zero_add]
    exact respects
  | cons value rest inductionHypothesis =>
    refine ⟨owned rest + hand, ?_, fun _ member => absurd member (Multiset.notMem_zero _), fun _ => ?_⟩
    · rw [owned_cons, add_assoc]
      rfl
    · exact (add_zero (owned rest + hand)).symm ▸ inductionHypothesis

end Program

end ObjectHeap
