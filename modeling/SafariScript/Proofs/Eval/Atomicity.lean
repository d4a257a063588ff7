import SafariScript.Proofs.Eval.CatchAttempts

/-!
# Operations on objects that fail change nothing

Every constructor, property and method checks its arguments and the object before it changes anything, so one that
fails leaves the whole world as it was. The only exception is an attempt to catch a Pokemon that is not there: the
ball is spent before the name is looked up (`Operation.Misses`, `operations_atomic`).
-/

namespace SafariScript

open Eval Objects

/-- An operation on objects, with the word at which a fault is reported. -/
inductive Operation where
  | read (object : Object) (property : String) (place : Word)
  | write (object : Object) (property : String) (value : Value) (place : Word)
  | call (object : Object) (method : String) (args : List Value) (place : Word)
  | makeZone (place : Word) (positional : List Value) (named : List (Word × Value))
  | makeTeam (place : Word) (positional : List Value) (named : List (Word × Value))

/-- Perform an operation; writing a property gives no value of its own. -/
def Operation.perform : Operation → Eval Value
  | .read object property place => getProperty object property place
  | .write object property value place => do
    setProperty object property value place
    return .null
  | .call object method args place => callMethod object method args place
  | .makeZone place positional named => createZone place positional named
  | .makeTeam place positional named => createTeam place positional named

/-- A ball is thrown in vain: an attempt on acceptable terms for which a zone pays that has a ball, though no Pokemon
of the name is there. -/
def Operation.Misses (op : Operation) (w : World) (payer : Nat) : Prop :=
  ∃ owner name terms place, op = .call (.collection owner) "attemptCatch" (.text name :: CatchTerms.args terms) place ∧
    terms.Acceptable ∧ terms.payer? owner = some payer ∧ 0 < (w.zone payer).balls ∧ name ∉ w.pokemon owner

namespace Objects

/-! ## Constructors and properties -/

theorem atomic_createZone (place : Word) (positional : List Value) (named : List (Word × Value)) :
    Atomic (createZone place positional named) := by
  refine (inert_ofFault _).check fun given => (inert_atLeast 0 place _ _ _).check fun balls => ?_
  exact (inert_atLeast 0 place _ _ _).check fun turns => (unfailing_modifyGet _).atomic

theorem atomic_createTeam (place : Word) (positional : List Value) (named : List (Word × Value)) :
    Atomic (createTeam place positional named) := by
  refine (inert_ofFault _).check fun given => (inert_trainer place _).check fun name => ?_
  exact (inert_atLeast 1 place _ _ _).check fun size => (unfailing_modifyGet _).atomic

theorem inert_getProperty (object : Object) (name : String) (place : Word) :
    Inert (getProperty object name place) := by
  refine inert_get.bind fun w => ?_
  split
  · split
    · exact inert_pure _
    · exact inert_pure _
    · exact inert_pure _
    · exact inert_pure _
    · exact inert_pure _
    · exact inert_pure _
    · exact inert_raise _ _
  · split
    · exact inert_pure _
    · exact inert_pure _
    · exact inert_pure _
    · exact inert_pure _
    · exact inert_raise _ _
  · exact inert_raise _ _

theorem atomic_setProperty (object : Object) (name : String) (value : Value) (place : Word) :
    Atomic (setProperty object name value place) := by
  unfold setProperty
  split
  · split
    · exact (inert_atLeast 0 place _ _ value).check fun n => (unfailing_modify _).atomic
    · exact (inert_atLeast 0 place _ _ value).check fun n => (unfailing_modify _).atomic
    · exact (inert_raise _ _).atomic
    · exact (inert_raise _ _).atomic
    · exact (inert_raise _ _).atomic
    · exact (inert_raise _ _).atomic
    · exact (inert_raise _ _).atomic
  · exact (inert_raise _ _).atomic
  · exact (inert_raise _ _).atomic

/-! ## Methods of zones and teams -/

theorem atomic_spendBall (id : Nat) (place : Word) : Atomic (spendBall id place) := by
  refine inert_get.check fun w => ?_
  split
  · exact (unfailing_modify _).atomic
  · exact (inert_raise _ _).atomic

theorem atomic_spendTurn (id : Nat) (place : Word) : Atomic (spendTurn id place) := by
  refine inert_get.check fun w => ?_
  split
  · exact (unfailing_modify _).atomic
  · exact (inert_raise _ _).atomic

/-- A method without arguments that gives something of the world. -/
theorem atomic_query (method : String) (args : List Value) (place : Word) (f : World → Value) :
    Atomic (do noArgs method args place; return f (← get)) :=
  ((inert_noArgs method args place).bind fun _ => inert_get.bind fun w => inert_pure (f w)).atomic

/-- The string that a method has as its only argument, and what is done with it. -/
theorem atomic_oneString (method : String) (args : List Value) (place : Word) {f : String → Eval Value}
    (h : ∀ s, Atomic (f s)) : Atomic (do f (← stringArg method place (← oneArg method args place))) :=
  (inert_oneArg method args place).check fun value => (inert_stringArg method place value).check h

theorem atomic_callZone (id : Nat) (name : String) (args : List Value) (place : Word) :
    Atomic (callZone id name args place) := by
  unfold callZone
  split
  · refine (inert_noArgs _ args place).check fun _ => ?_
    exact (atomic_spendBall id place).commit fun _ => unfailing_pure _
  · refine (inert_noArgs _ args place).check fun _ => ?_
    exact (atomic_spendTurn id place).commit fun _ => unfailing_pure _
  · refine (inert_noArgs _ args place).check fun _ => ?_
    exact ((unfailing_modify _).bind fun _ => unfailing_pure _).atomic
  · exact atomic_query _ args place fun w => .bool (w.zone id).isGameOver
  · exact (inert_raise _ _).atomic

theorem atomic_callTeam (id : Nat) (name : String) (args : List Value) (place : Word) :
    Atomic (callTeam id name args place) := by
  unfold callTeam
  split
  · exact atomic_query _ args place fun w => .bool (w.team id).isFull
  · exact atomic_query _ args place fun w => .bool (w.team id).pokemon.isEmpty
  · exact atomic_oneString _ args place fun wanted => (inert_get.bind fun w => inert_pure _).atomic
  · exact (inert_raise _ _).atomic

/-! ## Methods of collections -/

/-- Names are added behind a check for room. -/
theorem atomic_join (owner : Owner) (names : List String) (place : Word) :
    Atomic (do
      makeRoom owner names.length place
      modify (·.modifyPokemon owner (· ++ names))
      return Value.null) :=
  (inert_makeRoom owner names.length place).check fun _ =>
    ((unfailing_modify _).bind fun _ => unfailing_pure _).atomic

theorem atomic_setSpeciesRate (args : List Value) (place : Word) : Atomic (setSpeciesRate args place) := by
  unfold setSpeciesRate
  split
  · refine (inert_stringArg _ place _).check fun name => (inert_percentArg _ place _).check fun rate => ?_
    exact ((unfailing_modify _).bind fun _ => unfailing_pure _).atomic
  · exact (inert_raise _ _).atomic

/-- All methods of a collection but one. -/
theorem atomic_callCollection (owner : Owner) {name : String} (hname : name ≠ "attemptCatch") (args : List Value)
    (place : Word) : Atomic (callCollection owner name args place) := by
  unfold callCollection
  split
  · -- add
    exact atomic_oneString _ args place fun added => atomic_join owner [added] place
  · -- remove
    refine atomic_oneString _ args place fun wanted => inert_get.check fun w => ?_
    dsimp only
    split
    · exact ((unfailing_modify _).bind fun _ => unfailing_pure _).atomic
    · exact (unfailing_pure _).atomic
  · -- list
    exact atomic_query _ args place fun w => .text (", ".intercalate (w.pokemon owner))
  · -- find
    refine atomic_oneString _ args place fun wanted => inert_get.check fun w => ?_
    split
    · exact (unfailing_pure _).atomic
    · exact (unfailing_pure _).atomic
  · -- random
    refine (inert_noArgs _ args place).check fun _ => inert_get.check fun w => atomic_check ?_
    exact ((unfailing_choose _).bind fun _ => unfailing_pure _).atomic
  · -- count
    exact atomic_query _ args place fun w => .int (w.pokemon owner).length
  · -- clear
    refine (inert_noArgs _ args place).check fun _ => ?_
    exact ((unfailing_modify _).bind fun _ => unfailing_pure _).atomic
  · -- isEmpty
    exact atomic_query _ args place fun w => .bool (w.pokemon owner).isEmpty
  · -- addAll
    refine (inert_oneArg _ args place).check fun value => (inert_namesArg _ place value).check fun names => ?_
    exact atomic_join owner names place
  · -- removeAll
    refine (inert_oneArg _ args place).check fun value => (inert_namesArg _ place value).check fun names => ?_
    refine inert_get.check fun w => ?_
    exact ((unfailing_modify _).bind fun _ => unfailing_pure _).atomic
  · -- attemptCatch
    exact absurd rfl hname
  · -- setCatchRate
    refine (inert_oneArg _ args place).check fun value => (inert_percentArg _ place value).check fun rate => ?_
    exact ((unfailing_modify _).bind fun _ => unfailing_pure _).atomic
  · exact atomic_setSpeciesRate args place
  · exact (inert_raise _ _).atomic

/-- An attempt to catch a Pokemon that fails leaves the world as it is, unless a zone has paid and the Pokemon is not
there. -/
theorem attemptCatch_fails {owner : Owner} {args : List Value} {place : Word} {w w' : World} {e : Interrupt}
    (hrate : w.rates.overall.isSome = true) (h : attemptCatch owner args place w = .error e w') :
    w' = w ∨ ∃ payer, (Operation.call (.collection owner) "attemptCatch" args place).Misses w payer := by
  rcases attemptCatch_refused owner args place w with ⟨e', herror⟩ | ⟨name, terms, rfl, hterms, hball⟩
  · rw [herror] at h
    cases h
    exact .inl rfl
  · rw [attemptCatch_thrown hterms hball] at h
    by_cases hpresent : name ∈ w.pokemon owner
    · -- the overall rate is known, so the ball that is thrown decides
      obtain ⟨rate, hoverall⟩ := Option.isSome_iff_exists.1 hrate
      obtain ⟨chance, hchance⟩ := terms.exists_chance? hoverall name
      rw [← chance?_eq, ← w.rates_paid (terms.payer? owner)] at hchance
      rw [← w.pokemon_paid (terms.payer? owner)] at hpresent
      rw [throwAt_present hpresent hchance] at h
      cases h
    · rw [throwAt_absent (by rwa [World.pokemon_paid])] at h
      cases h
      cases hpayer : terms.payer? owner with
      | none => exact .inl rfl
      | some payer =>
          exact .inr ⟨payer, owner, name, terms, place, rfl, hterms, hpayer, hball payer hpayer, hpresent⟩

end Objects

namespace Operation

variable {op : Operation} {w w' : World} {e : Interrupt} {payer : Nat}

/-- The exception fails, and the zone that pays has a ball less. -/
theorem perform_of_misses (h : op.Misses w payer) :
    ∃ f, op.perform w = .error (.fault f) (w.paid (some payer)) := by
  obtain ⟨owner, name, terms, place, rfl, hterms, hpayer, hball, habsent⟩ := h
  have hballs : ∀ id ∈ terms.payer? owner, 0 < (w.zone id).balls := by
    intro id hid
    rw [hpayer] at hid
    cases hid
    exact hball
  show ∃ f, attemptCatch owner (.text name :: terms.args) place w = _
  rw [attemptCatch_thrown hterms hballs, hpayer]
  rw [throwAt_absent (by rwa [World.pokemon_paid])]
  exact ⟨_, rfl⟩

theorem eq_or_misses (hrate : w.rates.overall.isSome = true) (h : op.perform w = .error e w') :
    w' = w ∨ ∃ payer, op.Misses w payer := by
  cases op with
  | read object property place => exact .inl ((inert_getProperty object property place).atomic w e w' h)
  | write object property value place =>
      have hatomic := (atomic_setProperty object property value place).commit fun _ => unfailing_pure Value.null
      exact .inl (hatomic w e w' h)
  | makeZone place positional named => exact .inl (atomic_createZone place positional named w e w' h)
  | makeTeam place positional named => exact .inl (atomic_createTeam place positional named w e w' h)
  | call object method args place =>
      cases object with
      | zone id => exact .inl (atomic_callZone id method args place w e w' h)
      | team id => exact .inl (atomic_callTeam id method args place w e w' h)
      | collection owner =>
          by_cases hmethod : method = "attemptCatch"
          · subst hmethod
            exact attemptCatch_fails hrate h
          · exact .inl (atomic_callCollection owner hmethod args place w e w' h)

end Operation

/-- In a world with an overall catch rate, let an operation on objects fail. Unless it throws a ball in vain, the world
is as it was: all objects, rates and variables, the source of chance, the output and the log. An operation that does
throw a ball in vain always fails, and the zone that pays has exactly one ball less and nothing else has changed. -/
theorem operations_atomic (op : Operation) (w : World) (hrate : w.rates.overall.isSome = true) :
    ((¬ ∃ payer, op.Misses w payer) → ∀ e w', op.perform w = .error e w' → w' = w) ∧
    ∀ payer, op.Misses w payer →
      (∃ f, op.perform w = .error (.fault f) (w.paid (some payer))) ∧
        ((w.paid (some payer)).zone payer).balls = (w.zone payer).balls - 1 := by
  refine ⟨fun hmisses e w' h => ?_, fun payer hmisses => ⟨Operation.perform_of_misses hmisses, ?_⟩⟩
  · rcases Operation.eq_or_misses hrate h with hsame | hmissed
    · exact hsame
    · exact absurd hmissed hmisses
  · obtain ⟨_, _, _, _, _, _, _, hball, _⟩ := hmisses
    have hballs : ∀ id ∈ some payer, 0 < (w.zone id).balls := by
      rintro id ⟨⟩
      exact hball
    rw [World.balls_paid hballs, if_pos rfl]

/-- A zone with two balls has one Pokemon. Removing it along with something that is not a name is refused as a whole;
an attempt to catch another one costs a ball. -/
theorem operations_atomic_in_vain :
    let w : World := { World.initial (.ofScript [7]) (.uniform 50) [] with
      zones := #[⟨2, 3, 2, 3, ["Mew"]⟩], arrays := #[#[.text "Mew", .int 3]] }
    let remove : Operation := .call (.collection (.zone 0)) "removeAll" [.array 0] ⟨"removeAll", 1⟩
    let attempt : Operation := .call (.collection (.zone 0)) "attemptCatch" [.text "Pidgey"] ⟨"attemptCatch", 2⟩
    w.rates.overall.isSome = true ∧
      (∃ e, remove.perform w = .error e w) ∧
      ∃ f, attempt.perform w = .error (.fault f) { w with zones := #[⟨2, 3, 1, 3, ["Mew"]⟩] } := by
  intro w remove attempt
  have hrate : w.rates.overall.isSome = true := rfl
  have hmisses : attempt.Misses w 0 :=
    ⟨.zone 0, "Pidgey", .usual, ⟨"attemptCatch", 2⟩, rfl, trivial, rfl, by decide, by decide⟩
  refine ⟨hrate, ?_, ?_⟩
  · have hother : ¬ ∃ payer, remove.Misses w payer := by
      rintro ⟨payer, owner, name, terms, place, hremove, -⟩
      exact absurd (Operation.call.inj hremove).2.1 (by decide)
    obtain ⟨e, w', herror⟩ : ∃ e w', remove.perform w = .error e w' := ⟨_, _, rfl⟩
    have hsame := (operations_atomic remove w hrate).1 hother e w' herror
    exact ⟨e, hsame ▸ herror⟩
  · obtain ⟨f, hf⟩ := ((operations_atomic attempt w hrate).2 0 hmisses).1
    exact ⟨f, hf⟩

end SafariScript
