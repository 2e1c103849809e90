/-
This file reads attributes in two heaps that echo each other. What an instance, a class, a function or
a method answers to is sustained along with it, so that the same is found in both heaps. What is read
is handed out as it is, or a string or a method is created for it, and the host cannot tell in which
slots.
-/

import ObjectHeap.Proofs.Lockstep

namespace ObjectHeap

open Heap (Echoes Fades)

variable {Code Host α : Type} {one two : World Code Host} {name : Equiv.Perm Handle}
  {outside : Multiset Handle}

/-- What is stored under a name is owned by the table. -/
theorem Attributes.owns_subset_of_find? {attributes : Attributes} {key : String} {value : Value}
    (found : attributes.find? key = some value) : value.owns ⊆ owned attributes.values := by
  have member := Attributes.mem_values found
  cases value with
  | ref handle => exact Multiset.singleton_subset.mpr (mem_owned.mpr member)
  | _ => exact Multiset.zero_subset _

/-- An attempt that fails in both worlds is followed by a clean-up in both. -/
theorem Attempt.Tandem.onError {first second : Attempt Code Host α}
    {action actionImage : Action Code Host Unit} {post : α → Heap Code → α → Heap Code → Prop}
    {dropped lost : Heap Code → Heap Code → Prop}
    (start : Tandem one two first second post dropped)
    (last : ∀ later last, dropped later last →
      Action.Tandem { one with heap := later } { two with heap := last } action actionImage
        fun _ left _ gone => lost left gone) :
    Tandem one two (first.onError action) (second.onError actionImage) post lost :=
  Action.Tandem.bind start fun _ later _ after ends => by
    cases ends with
    | ok holds => exact .pure (.ok holds)
    | error holds => exact .bind (last later after holds) fun _ _ _ _ gone => .pure (.error gone)

/-! ### What is handed out as it is -/

/-- A value that is sustained is handed out with a reference of its own. -/
theorem lockstep_answer {value : Value} {lost : Heap Code → Heap Code → Prop}
    (echoes : one.heap.Echoes name outside two.heap)
    (sustained : ∀ handle ∈ value.owns, one.heap.Sustained outside handle) :
    Attempt.Tandem one two
      (do
        retainValue value
        return value)
      (do
        retainValue (value.rename name)
        return value.rename name)
      (Heap.Delivers name outside) lost := by
  rw [Attempt.retainValue_eq, Attempt.retainValue_eq]
  exact .act (Rapport.echo.tandem_retainValue echoes sustained) fun _ _ _ _ taken => .pure taken.holds.delivers

/-- Values are retained one after the other. -/
theorem lockstep_retainAll {values : List Value} (echoes : one.heap.Echoes name outside two.heap)
    (sustained : ∀ handle ∈ owned values, one.heap.Sustained outside handle) :
    Action.Tandem one two (retainAll values) (retainAll (values.map (Value.rename name)))
      fun _ later _ last => Fades Echoes one.heap two.heap name (outside + owned values) later last := by
  induction values generalizing one two outside with
  | nil => exact .pure (.refl (echoes.congr (add_zero outside).symm))
  | cons value others inductionHypothesis =>
    rw [owned_cons] at sustained
    show Action.Tandem one two (retainValue value >>= fun _ => retainAll others)
      (retainValue (value.rename name) >>= fun _ => retainAll (others.map (Value.rename name))) _
    refine .bind (Rapport.echo.tandem_retainValue echoes fun handle member =>
      sustained handle (Multiset.mem_add.mpr (Or.inl member))) ?_
    rintro _ later _ last taken
    have more := Multiset.le_add_right outside value.owns
    -- What is still to be retained is sustained as it was, since counts only went up.
    have still (handle : Handle) (member : handle ∈ owned others) :
        later.Sustained (outside + value.owns) handle :=
      (echoes.sustained taken more (sustained handle
        (Multiset.mem_add.mpr (Or.inr member)))).mono (Multiset.subset_of_le more)
    have whole : ({ one with heap := later } : World Code Host).heap.Echoes name
        (outside + value.owns) ({ two with heap := last } : World Code Host).heap := taken.holds
    refine (inductionHypothesis whole still).imp ?_
    rintro _ _ _ _ further
    exact (taken.trans further).congr (by rw [owned_cons, add_assoc])

/-- What a value has as items, it owns. -/
theorem Heap.exists_items? {heap : Heap Code} {value : Value}
    (live : ∀ handle ∈ value.owns, heap.isLive handle) :
    heap.items? value = .ok none ∨ ∃ items handle payload, heap.items? value = .ok (some items) ∧
      value = .ref handle ∧ heap.payload? handle = some payload ∧ payload.owns = owned items := by
  cases value with
  | ref handle =>
    obtain ⟨payload, held⟩ := exists_payload?_of_isLive (live handle (Multiset.mem_singleton_self _))
    simp only [Heap.items?, Heap.readValue, heap.read_eq_ok.mpr held]
    cases payload with
    | list items => exact Or.inr ⟨items, handle, _, rfl, rfl, held, Payload.owns_list items⟩
    | tuple items => exact Or.inr ⟨items, handle, _, rfl, rfl, held, Payload.owns_tuple items⟩
    | _ => exact Or.inl rfl
  | _ => exact Or.inl rfl

/-- The items of a list or a tuple are handed out with references of their own. -/
theorem lockstep_retainItems {value : Value} (echoes : one.heap.Echoes name outside two.heap)
    (sustained : ∀ handle ∈ value.owns, one.heap.Sustained outside handle) :
    Action.Tandem one two (retainItems value) (retainItems (value.rename name))
      fun items later others last => others = items.map (List.map (Value.rename name)) ∧
        Fades Echoes one.heap two.heap name (outside + owned (items.getD [])) later last := by
  rcases Heap.exists_items? (echoes.areLive sustained) with
    asked | ⟨items, handle, payload, asked, rfl, held, owns⟩
  · have askedImage := (echoes.reflects.items? sustained).trans (congrArg (Except.map _) asked)
    exact .bind_of_ok (ask_eq_ok.mpr ⟨asked, rfl⟩) (ask_eq_ok.mpr ⟨askedImage, rfl⟩)
      (.pure ⟨rfl, .refl (echoes.congr (add_zero outside).symm)⟩)
  · have askedImage := (echoes.reflects.items? sustained).trans (congrArg (Except.map _) asked)
    refine .bind_of_ok (ask_eq_ok.mpr ⟨asked, rfl⟩) (ask_eq_ok.mpr ⟨askedImage, rfl⟩)
      (.bind (lockstep_retainAll echoes fun part member => ?_) fun _ _ _ _ taken => .pure ⟨rfl, taken⟩)
    rw [← owns] at member
    exact (sustained handle (Multiset.mem_singleton_self handle)).of_owned held member

/-! ### Comparing classes -/

/-- Whether a class derives from another one is told alike in both heaps. -/
theorem lockstep_isSubtype {sub sup : Value} (echoes : one.heap.Echoes name outside two.heap)
    (sustained : ∀ handle ∈ sub.owns, one.heap.Sustained outside handle)
    (sustainedSup : ∀ handle ∈ sup.owns, one.heap.Sustained outside handle) :
    Attempt.Tandem one two (isSubtype sub sup) (isSubtype (sub.rename name) (sup.rename name))
      (fun answer later other last => later = one.heap ∧ last = two.heap ∧ other = answer)
      fun later last => later = one.heap ∧ last = two.heap := by
  refine Rapport.echo.tandem_type? echoes sustained (.refuse ⟨rfl, rfl⟩) ?_
  rintro sub rfl _
  have inside := sustained sub (Multiset.mem_singleton_self sub)
  refine Rapport.echo.tandem_type? echoes sustainedSup (.refuse ⟨rfl, rfl⟩) ?_
  rintro sup rfl _
  have sound := echoes.rest.sound
  obtain ⟨answer, derives, _⟩ := sound.formed.derives_ok sound.balanced (echoes.isLive inside) sup
  have derivesImage := (echoes.reflects.derives inside sup).trans derives
  exact .ofAction ⟨answer, one.heap, answer, two.heap, ask_eq_ok.mpr ⟨derives, rfl⟩,
    ask_eq_ok.mpr ⟨derivesImage, rfl⟩, rfl, rfl, rfl⟩

/-- A method that is unbound can be made again with any receiver. -/
theorem Heap.AtRest.founded_rebound {heap : Heap Code} {method : Handle} {data : Method}
    (rest : heap.AtRest outside) (there : heap.payload? method = some (.method data))
    (unbound : data.receiver = none) (object : Value) :
    (Payload.method { data with receiver := object.present?, watchers := [] } : Payload Code).Founded
      heap := by
  obtain ⟨found, made⟩ := rest.sound.exists_function there
  exact ⟨⟨found, made⟩, (rest.sound.formed.grounded method data there).remade rfl fun _ => unbound⟩

namespace Engine

variable (engine other : Engine Code Host)

/-! ### Functions and methods -/

/-- A function answers to its texts, for which strings are created, and to its attributes. -/
theorem lockstep_functionAttribute {function : Handle} (key : String)
    (echoes : one.heap.Echoes name outside two.heap) (sustained : one.heap.Sustained outside function)
    (serves : Serves engine other one.heap two.heap 0) :
    Attempt.Tandem one two (engine.functionAttribute function key)
      (other.functionAttribute (name function) key)
      (Heap.Delivers name outside) fun later last => later.Echoes name outside last := by
  obtain ⟨payload, there, thereImage⟩ := echoes.exists_payload? sustained
  refine .ask (one.heap.read_eq_ok.mpr there) (two.heap.read_eq_ok.mpr thereImage) ?_
  cases payload with
  | function data =>
    dsimp only [Payload.rename]
    split
    · exact Accord.delivering ((engine.echoing other).tandem_newString _ echoes serves)
    · exact Accord.delivering ((engine.echoing other).tandem_newString _ echoes serves)
    · cases data.doc with
      | some doc => exact Accord.delivering ((engine.echoing other).tandem_newString doc echoes serves)
      | none =>
        have bare : one.heap.Echoes name (outside + Value.nil.owns) two.heap :=
          echoes.congr (add_zero outside).symm
        exact .pure bare.delivers
    · rw [Attributes.find?_rename]
      cases found : data.attributes.find? key with
      | some value =>
        have owns : value.owns ⊆ (Payload.function data).owns :=
          Attributes.owns_subset_of_find? found
        exact lockstep_answer echoes fun handle member => sustained.of_owned there (owns member)
      | none => exact .refuse echoes
  | _ => exact Action.Tandem.pure (.error echoes)

/-- A method answers to its parts, and hands on everything else to its function. -/
theorem lockstep_methodAttribute {method : Handle} (key : String)
    (echoes : one.heap.Echoes name outside two.heap) (sustained : one.heap.Sustained outside method)
    (isMethod : ∃ data, one.heap.payload? method = some (.method data))
    (serves : Serves engine other one.heap two.heap 0) :
    Attempt.Tandem one two (engine.methodAttribute method key)
      (other.methodAttribute (name method) key)
      (Heap.Delivers name outside) fun later last => later.Echoes name outside last := by
  obtain ⟨data, there⟩ := isMethod
  have thereImage := (echoes.payloads method sustained).trans (congrArg (Option.map _) there)
  have function : one.heap.Sustained outside data.function := sustained.of_owned there (by simp)
  have itself : ∀ handle ∈ (Value.ref data.function).owns, one.heap.Sustained outside handle := by
    simpa using function
  have part (value : Option Value)
      (among : owned value.toList ⊆ (Payload.method data : Payload Code).owns) :
      Attempt.Tandem one two
        (do
          retainValue (value.getD .nil)
          return value.getD .nil)
        (do
          retainValue ((value.map (Value.rename name)).getD .nil)
          return (value.map (Value.rename name)).getD .nil)
        (Heap.Delivers name outside) fun later last => later.Echoes name outside last := by
    have same : (value.map (Value.rename name)).getD .nil = (value.getD .nil).rename name := by
      cases value <;> rfl
    rw [same]
    refine lockstep_answer echoes fun handle member => sustained.of_owned there (among ?_)
    cases value with
    | none => cases member
    | some value => rwa [Option.toList_some, owned_cons, owned_nil, add_zero]
  have receiver : owned data.receiver.toList ⊆ (Payload.method data : Payload Code).owns :=
    fun handle member => by simp [Method.parts, member]
  have owner : owned data.owner.toList ⊆ (Payload.method data : Payload Code).owns :=
    fun handle member => by simp [Method.parts, member]
  refine .ask (Heap.method_eq_ok.mpr there) (Heap.method_eq_ok.mpr thereImage) ?_
  dsimp only
  split
  · exact lockstep_answer echoes itself
  · exact lockstep_answer echoes itself
  · exact part data.receiver receiver
  · exact part data.receiver receiver
  · exact part data.owner owner
  · exact engine.lockstep_functionAttribute other key echoes function serves

/-! ### Classes and instances -/

/-- A method is created with a new receiver. -/
theorem lockstep_rebind {function : Handle} {object : Value} {owner : Option Value}
    (echoes : one.heap.Echoes name (outside + owned owner.toList) two.heap)
    (sustained : one.heap.Sustained outside function)
    (sustainedObject : ∀ handle ∈ object.owns, one.heap.Sustained outside handle)
    (founded : (Payload.method { function, receiver := object.present?, owner, watchers := [] }).Founded
      one.heap)
    (serves : Serves engine other one.heap two.heap 3) :
    Attempt.Tandem one two
      (do
        retainValue object
        engine.allocateMethod function object.present? owner)
      (do
        retainValue (object.rename name)
        other.allocateMethod (name function) (object.rename name).present?
          (owner.map (Value.rename name)))
      (Heap.Delivers name outside) fun later last => later.Echoes name outside last := by
  have more := Multiset.le_add_right outside (owned owner.toList)
  have whole := more.trans (Multiset.le_add_right _ object.owns)
  have single : (owned owner.toList).card ≤ 1 := by cases owner <;> simp [Value.card_owns_le_one]
  rw [Attempt.retainValue_eq, Attempt.retainValue_eq, Value.present?_rename]
  refine .act (Rapport.echo.tandem_retainValue echoes fun handle member =>
    (sustainedObject handle member).mono (Multiset.subset_of_le more)) ?_
  rintro _ later _ last taken
  refine Accord.delivering ((engine.echoing other).tandem_allocateMethod (taken.congr ?_)
    (echoes.sustained taken whole sustained) founded ((echoes.serves taken serves).mono ?_))
  · rw [Value.owned_present?, add_assoc, add_comm (owned owner.toList)]
  · rw [Value.owned_present?, Multiset.card_add]
    exact Nat.add_le_add_right (Nat.add_le_add object.card_owns_le_one single) 1

/-- A method stays as it is, and its owner is given up again. -/
theorem lockstep_keepMethod {method : Handle} {owner : Option Value}
    (echoes : one.heap.Echoes name (outside + owned owner.toList) two.heap)
    (sustained : one.heap.Sustained outside method) (serves : Serves engine other one.heap two.heap 1) :
    Attempt.Tandem one two
      (do
        engine.release? owner
        retain method
        return Value.ref method)
      (do
        other.release? (owner.map (Value.rename name))
        retain (name method)
        return Value.ref (name method))
      (Heap.Delivers name outside) fun later last => later.Echoes name outside last := by
  have single : (owned owner.toList).card ≤ 1 := by cases owner <;> simp [Value.card_owns_le_one]
  refine .act ((engine.echoing other).tandem_release? echoes (serves.mono single)) ?_
  rintro _ later _ last gone
  have still := echoes.sustained gone (le_refl outside) sustained
  have whole : ({ one with heap := later } : World Code Host).heap.Echoes name outside
      ({ two with heap := last } : World Code Host).heap := gone.holds
  have itself : ∀ handle ∈ (Value.ref method).owns, later.Sustained outside handle := by
    simpa using still
  exact lockstep_answer whole itself

/-- Whether a class derives from the owner of a method is told alike. The owner is given up if that
cannot be told. -/
theorem lockstep_derivesFromOwner {type owner : Value}
    (echoes : one.heap.Echoes name (outside + owner.owns) two.heap)
    (sustained : ∀ handle ∈ type.owns, one.heap.Sustained outside handle)
    (serves : Serves engine other one.heap two.heap owner.owns.card) :
    Attempt.Tandem one two ((isSubtype type owner).onError (engine.release owner))
      ((isSubtype (type.rename name) (owner.rename name)).onError (other.release (owner.rename name)))
      (fun answer later other last => later = one.heap ∧ last = two.heap ∧ other = answer)
      fun later last => later.Echoes name outside last := by
  have more := Multiset.subset_of_le (Multiset.le_add_right outside owner.owns)
  have compared := lockstep_isSubtype echoes (fun handle member => (sustained handle member).mono more)
    fun handle member => .of_mem (Multiset.mem_add.mpr (Or.inr member))
  refine compared.onError ?_
  rintro _ _ ⟨rfl, rfl⟩
  exact (engine.lockstep_release other echoes serves).imp fun _ _ _ _ gone => gone.holds

/-- An unbound method turns into a bound one when it is read through an instance of its owner. -/
theorem lockstep_bindMethod {method : Handle} {object type : Value}
    (echoes : one.heap.Echoes name outside two.heap) (sustained : one.heap.Sustained outside method)
    (isMethod : ∃ data, one.heap.payload? method = some (.method data))
    (sustainedObject : ∀ handle ∈ object.owns, one.heap.Sustained outside handle)
    (sustainedType : ∀ handle ∈ type.owns, one.heap.Sustained outside handle)
    (serves : Serves engine other one.heap two.heap 3) :
    Attempt.Tandem one two (engine.bindMethod method object type)
      (other.bindMethod (name method) (object.rename name) (type.rename name))
      (Heap.Delivers name outside) fun later last => later.Echoes name outside last := by
  obtain ⟨data, there⟩ := isMethod
  have thereImage := (echoes.payloads method sustained).trans (congrArg (Option.map _) there)
  have function : one.heap.Sustained outside data.function := sustained.of_owned there (by simp)
  refine .ask (Heap.method_eq_ok.mpr there) (Heap.method_eq_ok.mpr thereImage) ?_
  dsimp only
  -- A method that is bound already is handed out as it is.
  cases bound : data.receiver with
  | some receiver =>
    have itself : ∀ handle ∈ (Value.ref method).owns, one.heap.Sustained outside handle := by
      simpa using sustained
    exact lockstep_answer echoes itself
  | none =>
    have parts : data.parts = data.owner.toList := by rw [Method.parts, bound]; rfl
    have partsImage : Method.parts {
        function := name data.function, receiver := none
        owner := data.owner.map (Value.rename name), watchers := data.watchers.map name } =
        data.owner.toList.map (Value.rename name) := by
      cases data.owner <;> rfl
    have owner (handle : Handle) (member : handle ∈ owned data.owner.toList) :
        one.heap.Sustained outside handle :=
      sustained.of_owned there (by simp [parts, member])
    dsimp only [Option.map_none]
    rw [parts, partsImage]
    refine .act (lockstep_retainAll echoes owner) ?_
    rintro _ held _ heldImage taken
    have more := Multiset.le_add_right outside (owned data.owner.toList)
    have still (handle : Handle) (before : one.heap.Sustained outside handle) :=
      echoes.sustained taken more before
    have served := echoes.serves taken serves
    have founded : (Payload.method { data with receiver := object.present?, watchers := [] } :
        Payload Code).Founded held := by
      refine taken.forgets.founded (echoes.rest.founded_rebound there bound object)
        fun handle member => taken.holds.isLive ((still handle ?_).mono (Multiset.subset_of_le more))
      rw [Payload.owns_method, Method.parts, owned_append, Value.owned_present?] at member
      rcases Multiset.mem_add.mp member with itself | part
      · rw [Multiset.mem_singleton.mp itself]
        exact function
      · rcases Multiset.mem_add.mp part with receiver | inside
        · exact sustainedObject handle receiver
        · exact owner handle inside
    have whole : ({ one with heap := held } : World Code Host).heap.Echoes name
        (outside + owned data.owner.toList) ({ two with heap := heldImage } : World Code Host).heap :=
      taken.holds
    have rebound := engine.lockstep_rebind other whole (still _ function)
      (fun handle member => still handle (sustainedObject handle member)) founded served
    -- Without an owner, or with nil for one, every type derives from it.
    cases owned : data.owner with
    | none =>
      rw [owned] at rebound
      simp only [pure_bind, if_true]
      exact rebound
    | some sup =>
      rw [owned] at rebound whole
      rw [Option.map_some, Value.isNil_rename]
      dsimp only
      split
      · simp only [pure_bind, if_true]
        exact rebound
      · have holding : ({ one with heap := held } : World Code Host).heap.Echoes name
            (outside + sup.owns) ({ two with heap := heldImage } : World Code Host).heap :=
          whole.congr (by rw [Option.toList_some, owned_cons, owned_nil, add_zero])
        have derives := engine.lockstep_derivesFromOwner other holding
          (fun handle member => still handle (sustainedType handle member))
          (served.mono (sup.card_owns_le_one.trans (by omega)))
        refine derives.bind ?_
        rintro _ _ applies _ ⟨rfl, rfl, rfl⟩
        cases applies with
        | true => exact rebound
        | false =>
          exact engine.lockstep_keepMethod other whole (still method sustained)
            (served.mono (by omega))

/-- What a class has found is handed out, and turns into a method if it is a function. -/
theorem lockstep_readThrough {found object type : Value}
    (echoes : one.heap.Echoes name outside two.heap)
    (sustained : ∀ handle ∈ found.owns, one.heap.Sustained outside handle)
    (sustainedObject : ∀ handle ∈ object.owns, one.heap.Sustained outside handle)
    (sustainedType : ∀ handle ∈ type.owns, one.heap.Sustained outside handle)
    (serves : Serves engine other one.heap two.heap 3) :
    Attempt.Tandem one two (engine.readThrough found object type)
      (other.readThrough (found.rename name) (object.rename name) (type.rename name))
      (Heap.Delivers name outside) fun later last => later.Echoes name outside last := by
  obtain ⟨payload, asked⟩ := Heap.exists_readValue (echoes.areLive sustained)
  refine .ask asked (by rw [echoes.reflects.readValue sustained, asked]; rfl) ?_
  cases found with
  | ref handle =>
    obtain ⟨payload, read, same⟩ := Heap.bind_eq_ok.mp asked
    cases same
    cases payload with
    | function data =>
      have few : (owned [.ref handle, object, type]).card ≤ 3 := by
        rw [owned_cons, owned_cons, owned_cons, owned_nil, add_zero, Multiset.card_add,
          Multiset.card_add]
        exact Nat.add_le_add (Value.card_owns_le_one _)
          (Nat.add_le_add object.card_owns_le_one type.card_owns_le_one)
      refine Accord.delivering
        ((engine.echoing other).tandem_newMethod echoes (fun part member => ?_) (serves.mono few))
      simp only [owned_cons, owned_nil, add_zero, Multiset.mem_add] at member
      rcases member with function | receiver | owner
      · exact sustained part function
      · exact sustainedObject part receiver
      · exact sustainedType part owner
    | method data =>
      have itself := sustained handle (Multiset.mem_singleton_self handle)
      exact engine.lockstep_bindMethod other echoes itself
        ⟨data, one.heap.read_eq_ok.mp read⟩ sustainedObject sustainedType serves
    | _ => exact lockstep_answer echoes sustained
  | _ =>
    cases asked
    exact lockstep_answer echoes sustained

/-- A class finds the same in both heaps, or nothing in both. -/
theorem lockstep_find {type : Handle} {key : String} {β : Type}
    {next nextImage : Option Value → Attempt Code Host β} {post : β → Heap Code → β → Heap Code → Prop}
    {lost : Heap Code → Heap Code → Prop} (echoes : one.heap.Echoes name outside two.heap)
    (sustained : one.heap.Sustained outside type)
    (rest : ∀ found : Option Value,
      (∀ handle ∈ owned found.toList, one.heap.Sustained outside handle) →
      Attempt.Tandem one two (next found) (nextImage (found.map (Value.rename name))) post lost) :
    Attempt.Tandem one two (ask (fun heap => heap.find type key) >>= next)
      (ask (fun heap => heap.find (name type) key) >>= nextImage) post lost := by
  obtain ⟨found, asked, _⟩ := echoes.rest.sound.find_ok (echoes.isLive sustained) key
  refine .ask asked (by rw [echoes.reflects.find sustained, asked]; rfl) (rest found ?_)
  cases found with
  | none => exact fun _ member => nomatch member
  | some value =>
    rw [Option.toList_some, owned_cons, owned_nil, add_zero]
    exact echoes.reflects.mem_of_find sustained asked

/-- The name of a class is told alike. -/
theorem lockstep_className {type : Handle} {β : Type} {next nextImage : String → Attempt Code Host β}
    {post : β → Heap Code → β → Heap Code → Prop} {lost : Heap Code → Heap Code → Prop}
    (echoes : one.heap.Echoes name outside two.heap) (sustained : one.heap.Sustained outside type)
    (rest : ∀ title, Attempt.Tandem one two (next title) (nextImage title) post lost) :
    Attempt.Tandem one two (ask (fun heap => heap.className type) >>= next)
      (ask (fun heap => heap.className (name type)) >>= nextImage) post lost := by
  obtain ⟨payload, there⟩ := Heap.exists_payload?_of_isLive (echoes.isLive sustained)
  obtain ⟨title, named⟩ : ∃ title, one.heap.className type = .ok title := by
    unfold Heap.className
    rw [one.heap.read_eq_ok.mpr there]
    cases payload <;> exact ⟨_, rfl⟩
  exact .ask named ((echoes.reflects.className sustained).trans named) (rest title)

/-- An instance answers to what its class has found, unless it has the attribute itself. -/
theorem lockstep_instanceTypeAttribute {object : Value} {type : Handle} (key : String)
    (echoes : one.heap.Echoes name outside two.heap)
    (sustainedObject : ∀ handle ∈ object.owns, one.heap.Sustained outside handle)
    (sustained : one.heap.Sustained outside type) (serves : Serves engine other one.heap two.heap 3) :
    Attempt.Tandem one two (engine.instanceTypeAttribute object type key)
      (other.instanceTypeAttribute (object.rename name) (name type) key)
      (Heap.Delivers name outside) fun later last => later.Echoes name outside last := by
  have itself : ∀ handle ∈ (Value.ref type).owns, one.heap.Sustained outside handle := by
    simpa using sustained
  unfold instanceTypeAttribute
  split
  · exact lockstep_answer echoes itself
  · refine lockstep_find echoes sustained fun found inside => ?_
    cases found with
    | some value =>
      rw [Option.toList_some, owned_cons, owned_nil, add_zero] at inside
      exact engine.lockstep_readThrough other echoes inside sustainedObject itself serves
    | none => exact lockstep_className echoes sustained fun _ => .refuse echoes

/-- A class answers to its name and to what it has found. -/
theorem lockstep_typeAttribute {type : Handle} (key : String)
    (echoes : one.heap.Echoes name outside two.heap) (sustained : one.heap.Sustained outside type)
    (serves : Serves engine other one.heap two.heap 3) :
    Attempt.Tandem one two (engine.typeAttribute type key) (other.typeAttribute (name type) key)
      (Heap.Delivers name outside) fun later last => later.Echoes name outside last := by
  have itself : ∀ handle ∈ (Value.ref type).owns, one.heap.Sustained outside handle := by
    simpa using sustained
  unfold typeAttribute
  split
  · exact lockstep_className echoes sustained fun title => Accord.delivering
      ((engine.echoing other).tandem_newString title echoes (serves.mono (Nat.zero_le _)))
  · refine lockstep_find echoes sustained fun found inside => ?_
    cases found with
    | some value =>
      rw [Option.toList_some, owned_cons, owned_nil, add_zero] at inside
      have nothing : ∀ handle ∈ Value.nil.owns, one.heap.Sustained outside handle := nofun
      exact engine.lockstep_readThrough other echoes inside nothing itself serves
    | none => exact lockstep_className echoes sustained fun _ => .refuse echoes

/-- Whatever attribute is read of a value, both heaps deliver the same or refuse alike. -/
theorem lockstep_getAttribute {value : Value} (key : String)
    (echoes : one.heap.Echoes name outside two.heap)
    (sustained : ∀ handle ∈ value.owns, one.heap.Sustained outside handle)
    (serves : Serves engine other one.heap two.heap 3) :
    Attempt.Tandem one two (engine.getAttribute value key) (other.getAttribute (value.rename name) key)
      (Heap.Delivers name outside) fun later last => later.Echoes name outside last := by
  have refused : Attempt.Tandem one two (refuseAttribute value key)
      (refuseAttribute (value.rename name) key)
      (Heap.Delivers name outside) fun later last => later.Echoes name outside last :=
    Rapport.echo.tandem_typeName echoes sustained fun _ => .refuse echoes
  cases value with
  | ref handle =>
    have inside := sustained handle (Multiset.mem_singleton_self handle)
    obtain ⟨payload, there, thereImage⟩ := echoes.exists_payload? inside
    refine .ask (one.heap.read_eq_ok.mpr there) (two.heap.read_eq_ok.mpr thereImage) ?_
    cases payload with
    | object data =>
      dsimp only [Payload.rename]
      rw [Attributes.find?_rename]
      cases found : data.attributes.find? key with
      | some content =>
        have owns := Attributes.owns_subset_of_find? found
        exact lockstep_answer echoes fun part member =>
          inside.of_owned there (by simp [owns member])
      | none =>
        exact engine.lockstep_instanceTypeAttribute other key echoes sustained
          (inside.of_owned there (by simp)) serves
    | type data => exact engine.lockstep_typeAttribute other key echoes inside serves
    | method data =>
      exact engine.lockstep_methodAttribute other key echoes inside ⟨data, there⟩
        (serves.mono (Nat.zero_le _))
    | function data =>
      exact engine.lockstep_functionAttribute other key echoes inside (serves.mono (Nat.zero_le _))
    | _ => exact refused
  | _ => exact refused

/-- A value is read through an instance or a class, which changes methods only. -/
theorem lockstep_bind {value object type : Value} (echoes : one.heap.Echoes name outside two.heap)
    (sustained : ∀ handle ∈ value.owns, one.heap.Sustained outside handle)
    (sustainedObject : ∀ handle ∈ object.owns, one.heap.Sustained outside handle)
    (sustainedType : ∀ handle ∈ type.owns, one.heap.Sustained outside handle)
    (serves : Serves engine other one.heap two.heap 3) :
    Attempt.Tandem one two (engine.bind value object type)
      (other.bind (value.rename name) (object.rename name) (type.rename name))
      (Heap.Delivers name outside) fun later last => later.Echoes name outside last := by
  obtain ⟨found, asked⟩ := Heap.method?_ok (echoes.areLive sustained)
  refine .ask asked (by rw [echoes.reflects.method? sustained, asked]; rfl) ?_
  cases found with
  | none => exact lockstep_answer echoes sustained
  | some method =>
    obtain ⟨rfl, isMethod⟩ := Heap.method?_eq_some.mp asked
    have itself := sustained method (Multiset.mem_singleton_self method)
    exact engine.lockstep_bindMethod other echoes itself isMethod sustainedObject sustainedType serves

end Engine

end ObjectHeap
