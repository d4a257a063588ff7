import SafariScript.Proofs.Eval.Refusals

/-!
# Where operations on objects fail

A constructor, a property or a method is refused at the word that stands for it: the name of the constructor, of the
property or of the method. Only what is wrong with a named argument of a constructor is reported at the name of that
argument (`place_of_resolve`).
-/

namespace SafariScript

variable {sound : Closure → Prop} {known : Word → Prop} {α : Type} {place : Word}

namespace Objects

open Eval

/-! ## Changes and checks -/

theorem refuses_modifyZone (id : Nat) (change : Zone → Zone) :
    Refuses sound known (modify (·.modifyZone id change) : Eval Unit) :=
  obeys_modify fun _ => rfl

theorem refuses_modifyPokemon (owner : Owner) (change : List String → List String) :
    Refuses sound known (modify (·.modifyPokemon owner change) : Eval Unit) :=
  obeys_modify fun w => w.modifyPokemon_functions owner change

theorem refuses_setRates (change : CatchRates → CatchRates) :
    Refuses sound known (modify fun w => { w with rates := change w.rates } : Eval Unit) :=
  obeys_modify fun _ => rfl

theorem refuses_percentArg (hplace : known place) (method : String) (value : Value) :
    Refuses sound known (percentArg method place value) := by
  unfold percentArg
  split
  · split
    · exact obeys_pure _
    · exact (refuses_showInt _).bind fun _ => refuses_raise hplace _
  · exact refuses_raise hplace _

theorem refuses_noArgs (hplace : known place) (method : String) (args : List Value) :
    Refuses sound known (noArgs method args place) := by
  unfold noArgs
  split
  · exact obeys_pure ()
  · exact refuses_raise hplace _

theorem refuses_oneArg (hplace : known place) (method : String) (args : List Value) :
    Refuses sound known (oneArg method args place) := by
  unfold oneArg
  split
  · exact obeys_pure _
  · exact refuses_raise hplace _

theorem refuses_stringArg (hplace : known place) (method : String) (value : Value) :
    Refuses sound known (stringArg method place value) := by
  unfold stringArg
  split
  · exact obeys_pure _
  · exact refuses_raise hplace _

theorem refuses_namesArg (hplace : known place) (method : String) (value : Value) :
    Refuses sound known (namesArg method place value) := by
  unfold namesArg
  split
  · exact Obeys.look fun w _ => Obeys.mapM fun v _ => refuses_stringArg hplace method v
  · exact refuses_raise hplace _

/-! ## Constructors and properties -/

/-- The arguments of a constructor are refused at the constructor, or at the name that one of them has. -/
theorem place_of_resolve (hplace : known place) {params : List String} {positional : List α}
    {named : List (Word × α)} {defaults : List (String × α)} (hnamed : ∀ a ∈ named, known a.1) {f : Fault}
    (h : Arguments.resolve place params positional named defaults = .error f) : ∃ word ∈ f.place, known word := by
  have hadded {given : List (String × α)} {named : List (Word × α)} (hnamed : ∀ a ∈ named, known a.1)
      (h : Arguments.addNamed params given named = .error f) : ∃ word ∈ f.place, known word := by
    induction named generalizing given with
    | nil => cases h
    | cons first named ih =>
        obtain ⟨hfirst, hothers⟩ := List.forall_mem_cons.1 hnamed
        unfold Arguments.addNamed at h
        split at h
        · cases h
          exact ⟨_, rfl, hfirst⟩
        · split at h
          · cases h
            exact ⟨_, rfl, hfirst⟩
          · exact ih hothers h
  have hfilled {given : List (String × α)} {rest : List String}
      (h : Arguments.addDefaults place defaults rest given = .error f) : ∃ word ∈ f.place, known word := by
    induction rest generalizing given with
    | nil => cases h
    | cons param rest ih =>
        unfold Arguments.addDefaults at h
        split at h
        · exact ih h
        · split at h
          · exact ih h
          · cases h
            exact ⟨place, rfl, hplace⟩
  unfold Arguments.resolve at h
  split at h
  · cases h
    exact ⟨place, rfl, hplace⟩
  · cases hgiven : Arguments.addNamed params (Arguments.ofPositional params positional) named with
    | error f' =>
        rw [hgiven] at h
        cases h
        exact hadded hnamed hgiven
    | ok given =>
        rw [hgiven] at h
        exact hfilled h

theorem refuses_createZone (hplace : known place) (positional : List Value) {named : List (Word × Value)}
    (hnamed : ∀ a ∈ named, known a.1) : Refuses sound known (createZone place positional named) := by
  refine (refuses_ofFault fun f hf => place_of_resolve hplace hnamed hf).bind fun given => ?_
  refine (refuses_atLeast hplace 0 _ _ _).bind fun balls => (refuses_atLeast hplace 0 _ _ _).bind fun turns => ?_
  exact obeys_modifyGet fun _ => rfl

theorem refuses_trainer (hplace : known place) (value : Value) : Refuses sound known (trainer place value) := by
  unfold trainer
  split
  · exact obeys_pure _
  · exact refuses_raise hplace _

theorem refuses_createTeam (hplace : known place) (positional : List Value) {named : List (Word × Value)}
    (hnamed : ∀ a ∈ named, known a.1) : Refuses sound known (createTeam place positional named) := by
  refine (refuses_ofFault fun f hf => place_of_resolve hplace hnamed hf).bind fun given => ?_
  refine (refuses_trainer hplace _).bind fun name => (refuses_atLeast hplace 1 _ _ _).bind fun size => ?_
  exact obeys_modifyGet fun _ => rfl

theorem refuses_construct {maker : Maker} {line : Int} (hplace : known ⟨maker.spelling, line⟩)
    (positional : List Value) {named : List (Word × Value)} (hnamed : ∀ a ∈ named, known a.1) :
    Refuses sound known (construct maker line positional named) := by
  cases maker with
  | safariZone => exact refuses_createZone hplace positional hnamed
  | team => exact refuses_createTeam hplace positional hnamed

theorem refuses_getProperty (hplace : known place) (object : Object) (name : String) :
    Refuses sound known (getProperty object name place) := by
  refine Obeys.look fun w _ => ?_
  split
  · split
    · exact obeys_pure _
    · exact obeys_pure _
    · exact obeys_pure _
    · exact obeys_pure _
    · exact obeys_pure _
    · exact obeys_pure _
    · exact refuses_raise hplace _
  · split
    · exact obeys_pure _
    · exact obeys_pure _
    · exact obeys_pure _
    · exact obeys_pure _
    · exact refuses_raise hplace _
  · exact refuses_raise hplace _

theorem refuses_setProperty (hplace : known place) (object : Object) (name : String) (value : Value) :
    Refuses sound known (setProperty object name value place) := by
  unfold setProperty
  split
  · next id =>
    split
    · exact (refuses_atLeast hplace 0 _ _ value).bind fun n => refuses_modifyZone id _
    · exact (refuses_atLeast hplace 0 _ _ value).bind fun n => refuses_modifyZone id _
    · exact refuses_raise hplace _
    · exact refuses_raise hplace _
    · exact refuses_raise hplace _
    · exact refuses_raise hplace _
    · exact refuses_raise hplace _
  · exact refuses_raise hplace _
  · exact refuses_raise hplace _

/-! ## Methods -/

theorem refuses_spendBall (hplace : known place) (id : Nat) : Refuses sound known (spendBall id place) := by
  refine Obeys.look fun w _ => ?_
  split
  · exact refuses_modifyZone id _
  · exact refuses_raise hplace _

theorem refuses_spendTurn (hplace : known place) (id : Nat) : Refuses sound known (spendTurn id place) := by
  refine Obeys.look fun w _ => ?_
  split
  · exact refuses_modifyZone id _
  · exact refuses_raise hplace _

/-- A method without arguments that gives something of the world. -/
theorem refuses_query (hplace : known place) (method : String) (args : List Value) (f : World → Value) :
    Refuses sound known (do noArgs method args place; return f (← get)) :=
  (refuses_noArgs hplace method args).bind fun _ => Obeys.look fun w _ => obeys_pure (f w)

/-- The string that a method has as its only argument, and what is done with it. -/
theorem refuses_oneString (hplace : known place) (method : String) (args : List Value) {f : String → Eval Value}
    (h : ∀ s, Refuses sound known (f s)) :
    Refuses sound known (do f (← stringArg method place (← oneArg method args place))) :=
  (refuses_oneArg hplace method args).bind fun value => (refuses_stringArg hplace method value).bind h

/-- The names that a method has in an array as its only argument, and what is done with them. -/
theorem refuses_oneArray (hplace : known place) (method : String) (args : List Value)
    {f : List String → Eval Value} (h : ∀ names, Refuses sound known (f names)) :
    Refuses sound known (do f (← namesArg method place (← oneArg method args place))) :=
  (refuses_oneArg hplace method args).bind fun value => (refuses_namesArg hplace method value).bind h

theorem refuses_callZone (hplace : known place) (id : Nat) (name : String) (args : List Value) :
    Refuses sound known (callZone id name args place) := by
  unfold callZone
  split
  · exact (refuses_noArgs hplace _ args).bind fun _ => (refuses_spendBall hplace id).bind fun _ => obeys_pure _
  · exact (refuses_noArgs hplace _ args).bind fun _ => (refuses_spendTurn hplace id).bind fun _ => obeys_pure _
  · exact (refuses_noArgs hplace _ args).bind fun _ => (refuses_modifyZone id _).bind fun _ => obeys_pure _
  · exact refuses_query hplace _ args fun w => .bool (w.zone id).isGameOver
  · exact refuses_raise hplace _

theorem refuses_callTeam (hplace : known place) (id : Nat) (name : String) (args : List Value) :
    Refuses sound known (callTeam id name args place) := by
  unfold callTeam
  split
  · exact refuses_query hplace _ args fun w => .bool (w.team id).isFull
  · exact refuses_query hplace _ args fun w => .bool (w.team id).pokemon.isEmpty
  · exact refuses_oneString hplace _ args fun wanted => Obeys.look fun w _ => obeys_pure _
  · exact refuses_raise hplace _

/-- Names are added behind a check for room. -/
theorem refuses_join (hplace : known place) (owner : Owner) (names : List String) :
    Refuses sound known (do
      makeRoom owner names.length place
      modify (·.modifyPokemon owner (· ++ names))
      return Value.null) := by
  refine Obeys.bind (Obeys.look fun w _ => ?_) fun _ => (refuses_modifyPokemon owner _).bind fun _ => obeys_pure _
  split
  · split
    · exact refuses_raise hplace _
    · exact obeys_pure _
  · exact obeys_pure _

theorem refuses_catchTerms (hplace : known place) (args : List Value) :
    Refuses sound known (catchTerms place args) := by
  unfold catchTerms
  split
  · exact obeys_pure _
  · exact obeys_pure _
  · exact (refuses_percentArg hplace _ _).bind fun _ => obeys_pure _
  · exact refuses_raise hplace _

theorem refuses_known (given : Option Int) : Refuses sound known (Objects.known given) := by
  cases given with
  | some chance => exact obeys_pure chance
  | none => exact obeys_throw .unknownChance

theorem refuses_pay (hplace : known place) (payer : Option Nat) : Refuses sound known (pay payer place) := by
  cases payer with
  | some id => exact refuses_spendBall hplace id
  | none => exact obeys_pure ()

theorem refuses_endCatch (owner : Owner) (name : String) (caught : Bool) :
    Refuses sound known (endCatch owner name caught) := by
  unfold endCatch
  split
  · exact (refuses_modifyPokemon owner _).bind fun _ => refuses_say _
  · exact refuses_say _

theorem refuses_throwAt (hplace : known place) (owner : Owner) (name : String) (given : Option Int) :
    Refuses sound known (throwAt owner name given place) := by
  refine Obeys.look fun w _ => refuses_check hplace ?_
  refine (obeys_modifyGet fun _ => rfl).bind fun drawn => (refuses_known _).bind fun chance => ?_
  exact (refuses_note _).bind fun _ => (refuses_endCatch owner name _).bind fun _ => obeys_pure _

theorem refuses_attemptCatch (hplace : known place) (owner : Owner) (args : List Value) :
    Refuses sound known (attemptCatch owner args place) := by
  unfold attemptCatch
  split
  · refine refuses_check hplace ((refuses_stringArg hplace _ _).bind fun name => ?_)
    refine (refuses_catchTerms hplace _).bind fun terms => (refuses_pay hplace _).bind fun _ => ?_
    exact refuses_throwAt hplace owner name terms.1
  · exact refuses_raise hplace _

theorem refuses_setSpeciesRate (hplace : known place) (args : List Value) :
    Refuses sound known (setSpeciesRate args place) := by
  unfold setSpeciesRate
  split
  · refine (refuses_stringArg hplace _ _).bind fun name => (refuses_percentArg hplace _ _).bind fun rate => ?_
    exact (refuses_setRates (·.setSpecies name rate)).bind fun _ => obeys_pure _
  · exact refuses_raise hplace _

theorem refuses_callCollection (hplace : known place) (owner : Owner) (name : String) (args : List Value) :
    Refuses sound known (callCollection owner name args place) := by
  unfold callCollection
  split
  · -- add
    exact refuses_oneString hplace _ args fun added => refuses_join hplace owner [added]
  · -- remove
    refine refuses_oneString hplace _ args fun wanted => Obeys.look fun w _ => ?_
    dsimp only
    split
    · exact (refuses_modifyPokemon owner _).bind fun _ => obeys_pure _
    · exact obeys_pure _
  · -- list
    exact refuses_query hplace _ args fun w => .text (", ".intercalate (w.pokemon owner))
  · -- find
    refine refuses_oneString hplace _ args fun wanted => Obeys.look fun w _ => ?_
    split
    · exact obeys_pure _
    · exact obeys_pure _
  · -- random
    refine (refuses_noArgs hplace _ args).bind fun _ => Obeys.look fun w _ => refuses_check hplace ?_
    exact (refuses_choose _).bind fun _ => obeys_pure _
  · -- count
    exact refuses_query hplace _ args fun w => .int (w.pokemon owner).length
  · -- clear
    refine (refuses_noArgs hplace _ args).bind fun _ => ?_
    exact (refuses_modifyPokemon owner _).bind fun _ => obeys_pure _
  · -- isEmpty
    exact refuses_query hplace _ args fun w => .bool (w.pokemon owner).isEmpty
  · -- addAll
    exact refuses_oneArray hplace _ args fun names => refuses_join hplace owner names
  · -- removeAll
    refine refuses_oneArray hplace _ args fun names => Obeys.look fun w _ => ?_
    exact (refuses_modifyPokemon owner _).bind fun _ => obeys_pure _
  · exact refuses_attemptCatch hplace owner args
  · -- setCatchRate
    refine (refuses_oneArg hplace _ args).bind fun value => (refuses_percentArg hplace _ value).bind fun rate => ?_
    exact (refuses_setRates (·.setOverall rate)).bind fun _ => obeys_pure _
  · exact refuses_setSpeciesRate hplace args
  · exact refuses_raise hplace _

theorem refuses_callMethod (hplace : known place) (object : Object) (name : String) (args : List Value) :
    Refuses sound known (callMethod object name args place) := by
  cases object with
  | zone id => exact refuses_callZone hplace id name args
  | team id => exact refuses_callTeam hplace id name args
  | collection owner => exact refuses_callCollection hplace owner name args

end Objects

theorem Eval.refuses_throwBall {line : Int} (hplace : known ⟨"throwBall", line⟩) (target : Value) :
    Refuses sound known (throwBall line target) := by
  refine (refuses_zoneOf hplace target _).bind fun zone => Obeys.look fun w _ => refuses_check hplace ?_
  refine (refuses_choose _).bind fun caught => ?_
  exact (Objects.refuses_modifyPokemon (.zone zone) _).bind fun _ => refuses_say _

end SafariScript
