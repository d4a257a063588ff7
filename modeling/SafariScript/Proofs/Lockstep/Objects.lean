import SafariScript.Proofs.Lockstep.Basic

/-!
# Objects in lockstep

Constructors, properties and methods are in lockstep with themselves: they change zones, teams and rates by what
these are and by the chance, never the variables, and they only add to what was written.
-/

namespace SafariScript
namespace Objects

open Eval

variable {declares : Bool}

/-! ## Arguments -/

theorem steady_noArgs (method : String) (args : List Value) (place : Word) :
    Steady declares (noArgs method args place) := by
  unfold noArgs
  split
  · exact .pure ()
  · exact steady_raise _ _

theorem steady_oneArg (method : String) (args : List Value) (place : Word) :
    Steady declares (oneArg method args place) := by
  unfold oneArg
  split
  · exact .pure _
  · exact steady_raise _ _

theorem steady_stringArg (method : String) (place : Word) (value : Value) :
    Steady declares (stringArg method place value) := by
  unfold stringArg
  split
  · exact .pure _
  · exact steady_raise _ _

theorem steady_percentArg (method : String) (place : Word) (value : Value) :
    Steady declares (percentArg method place value) := by
  unfold percentArg
  split
  · split
    · exact .pure _
    · exact (steady_showInt _).bind fun _ => steady_raise _ _
  · exact steady_raise _ _

theorem steady_namesArg (method : String) (place : Word) (value : Value) :
    Steady declares (namesArg method place value) := by
  unfold namesArg
  split
  · exact .look (fun _ _ => rfl) fun w => Lockstep.mapM (steady_stringArg method place) _
  · exact steady_raise _ _

/-- The string that a method has as its only argument, and what is done with it. -/
theorem steady_oneString (method : String) (args : List Value) (place : Word) {f : String → Eval Value}
    (h : ∀ s, Steady declares (f s)) :
    Steady declares (do f (← stringArg method place (← oneArg method args place))) :=
  (steady_oneArg method args place).bind fun value => (steady_stringArg method place value).bind h

/-! ## Constructors -/

theorem steady_trainer (place : Word) (value : Value) : Steady declares (trainer place value) := by
  unfold trainer
  split
  · exact .pure _
  · exact steady_raise _ _

theorem steady_construct (maker : Maker) (line : Int) (positional : List Value)
    (named : List (Word × Value)) : Steady declares (construct maker line positional named) := by
  cases maker with
  | safariZone =>
      refine (steady_ofFault _).bind fun given => (steady_atLeast 0 _ _ _ _).bind fun balls => ?_
      refine (steady_atLeast 0 _ _ _ _).bind fun turns => ?_
      exact .change (fun _ _ => rfl) (fun _ => rfl) (fun _ => rfl)
  | team =>
      refine (steady_ofFault _).bind fun given => (steady_trainer _ _).bind fun name => ?_
      refine (steady_atLeast 1 _ _ _ _).bind fun size => ?_
      exact .change (fun _ _ => rfl) (fun _ => rfl) (fun _ => rfl)

/-! ## Properties -/

theorem steady_getProperty (object : Object) (name : String) (place : Word) :
    Steady declares (getProperty object name place) := by
  refine .look (fun _ _ => rfl) fun w => ?_
  split
  · split
    · exact .pure _
    · exact .pure _
    · exact .pure _
    · exact .pure _
    · exact .pure _
    · exact .pure _
    · exact steady_raise _ _
  · split
    · exact .pure _
    · exact .pure _
    · exact .pure _
    · exact .pure _
    · exact steady_raise _ _
  · exact steady_raise _ _

theorem steady_modifyZone (id : Nat) (change : Zone → Zone) :
    Steady declares (modify (·.modifyZone id change)) :=
  steady_modify (fun _ _ => rfl) (fun _ => rfl) (fun _ => rfl)

theorem steady_setProperty (object : Object) (name : String) (value : Value) (place : Word) :
    Steady declares (setProperty object name value place) := by
  unfold setProperty
  split
  · split
    · exact (steady_atLeast 0 place _ _ value).bind fun n => steady_modifyZone _ _
    · exact (steady_atLeast 0 place _ _ value).bind fun n => steady_modifyZone _ _
    · exact steady_raise _ _
    · exact steady_raise _ _
    · exact steady_raise _ _
    · exact steady_raise _ _
    · exact steady_raise _ _
  · exact steady_raise _ _
  · exact steady_raise _ _

/-! ## Methods of zones and teams -/

theorem steady_spendBall (id : Nat) (place : Word) : Steady declares (spendBall id place) := by
  refine .look (fun _ _ => rfl) fun w => ?_
  split
  · exact steady_modifyZone id _
  · exact steady_raise _ _

theorem steady_spendTurn (id : Nat) (place : Word) : Steady declares (spendTurn id place) := by
  refine .look (fun _ _ => rfl) fun w => ?_
  split
  · exact steady_modifyZone id _
  · exact steady_raise _ _

/-- A method without arguments that gives something of the world. -/
theorem steady_query (method : String) (args : List Value) (place : Word) {f : World → Value}
    (blind : ∀ w output, f (w.wrote output) = f w) :
    Steady declares (do noArgs method args place; return f (← get)) := by
  refine (steady_noArgs method args place).bind fun _ => .look (fun w output => ?_) fun w => .pure _
  rw [blind]

theorem steady_callZone (id : Nat) (name : String) (args : List Value) (place : Word) :
    Steady declares (callZone id name args place) := by
  unfold callZone
  split
  · exact (steady_noArgs _ args place).bind fun _ => (steady_spendBall id place).bind fun _ => .pure _
  · exact (steady_noArgs _ args place).bind fun _ => (steady_spendTurn id place).bind fun _ => .pure _
  · exact (steady_noArgs _ args place).bind fun _ => (steady_modifyZone id _).bind fun _ => .pure _
  · exact steady_query _ args place fun _ _ => rfl
  · exact steady_raise _ _

theorem steady_callTeam (id : Nat) (name : String) (args : List Value) (place : Word) :
    Steady declares (callTeam id name args place) := by
  unfold callTeam
  split
  · exact steady_query _ args place fun _ _ => rfl
  · exact steady_query _ args place fun _ _ => rfl
  · exact steady_oneString _ args place fun wanted => .look (fun _ _ => rfl) fun w => .pure _
  · exact steady_raise _ _

/-! ## Methods of collections -/

theorem steady_modifyPokemon (owner : Owner) (change : List String → List String) :
    Steady declares (modify (·.modifyPokemon owner change)) := by
  cases owner with
  | zone id => exact steady_modifyZone id _
  | team id => exact steady_modify (fun _ _ => rfl) (fun _ => rfl) (fun _ => rfl)

theorem steady_makeRoom (owner : Owner) (count : Nat) (place : Word) :
    Steady declares (makeRoom owner count place) := by
  refine .look (fun _ _ => rfl) fun w => ?_
  split
  · split
    · exact steady_raise _ _
    · exact .pure ()
  · exact .pure ()

theorem steady_join (owner : Owner) (names : List String) (place : Word) :
    Steady declares (do
      makeRoom owner names.length place
      modify (·.modifyPokemon owner (· ++ names))
      return Value.null) :=
  (steady_makeRoom owner names.length place).bind fun _ =>
    (steady_modifyPokemon owner _).bind fun _ => .pure _

theorem steady_catchTerms (place : Word) (args : List Value) : Steady declares (catchTerms place args) := by
  unfold catchTerms
  split
  · exact .pure _
  · exact .pure _
  · exact (steady_percentArg _ place _).bind fun _ => .pure _
  · exact steady_raise _ _

theorem steady_known (chance : Option Int) : Steady declares (known chance) := by
  cases chance with
  | some chance => exact .pure chance
  | none => exact .throw _

theorem steady_pay (payer : Option Nat) (place : Word) : Steady declares (pay payer place) := by
  cases payer with
  | some id => exact steady_spendBall id place
  | none => exact .pure ()

theorem steady_endCatch (owner : Owner) (name : String) (caught : Bool) :
    Steady declares (endCatch owner name caught) := by
  unfold endCatch
  split
  · exact (steady_modifyPokemon owner _).bind fun _ => steady_say _
  · exact steady_say _

theorem steady_throwAt (owner : Owner) (name : String) (given : Option Int) (place : Word) :
    Steady declares (throwAt owner name given place) := by
  refine .look (fun _ _ => rfl) fun w => lockstep_check ?_
  refine (steady_draw 100).bind fun drawn => (steady_known _).bind fun chance => ?_
  exact (steady_note _).bind fun _ => (steady_endCatch owner name _).bind fun _ => .pure _

theorem steady_attemptCatch (owner : Owner) (args : List Value) (place : Word) :
    Steady declares (attemptCatch owner args place) := by
  unfold attemptCatch
  split
  · refine lockstep_check ((steady_stringArg _ place _).bind fun name => ?_)
    refine (steady_catchTerms place _).bind fun terms => (steady_pay _ place).bind fun _ => ?_
    exact steady_throwAt owner name terms.1 place
  · exact steady_raise _ _

theorem steady_setSpeciesRate (args : List Value) (place : Word) :
    Steady declares (setSpeciesRate args place) := by
  unfold setSpeciesRate
  split
  · refine (steady_stringArg _ place _).bind fun name => (steady_percentArg _ place _).bind fun rate => ?_
    refine Lockstep.bind ?_ fun _ => .pure _
    exact steady_modify (fun _ _ => rfl) (fun _ => rfl) (fun _ => rfl)
  · exact steady_raise _ _

theorem steady_callCollection (owner : Owner) (name : String) (args : List Value) (place : Word) :
    Steady declares (callCollection owner name args place) := by
  unfold callCollection
  split
  · -- add
    exact steady_oneString _ args place fun added => steady_join owner [added] place
  · -- remove
    refine steady_oneString _ args place fun wanted => .look (fun _ _ => rfl) fun w => ?_
    dsimp only
    split
    · exact (steady_modifyPokemon owner _).bind fun _ => .pure _
    · exact .pure _
  · -- list
    exact steady_query _ args place fun _ _ => rfl
  · -- find
    refine steady_oneString _ args place fun wanted => .look (fun _ _ => rfl) fun w => ?_
    split
    · exact .pure _
    · exact .pure _
  · -- random
    refine (steady_noArgs _ args place).bind fun _ => .look (fun _ _ => rfl) fun w => ?_
    exact lockstep_check ((steady_choose _).bind fun _ => .pure _)
  · -- count
    exact steady_query _ args place fun _ _ => rfl
  · -- clear
    exact (steady_noArgs _ args place).bind fun _ => (steady_modifyPokemon owner _).bind fun _ => .pure _
  · -- isEmpty
    exact steady_query _ args place fun _ _ => rfl
  · -- addAll
    refine (steady_oneArg _ args place).bind fun value => (steady_namesArg _ place value).bind fun names => ?_
    exact steady_join owner names place
  · -- removeAll
    refine (steady_oneArg _ args place).bind fun value => (steady_namesArg _ place value).bind fun names => ?_
    exact .look (fun _ _ => rfl) fun w => (steady_modifyPokemon owner _).bind fun _ => .pure _
  · exact steady_attemptCatch owner args place
  · -- setCatchRate
    refine (steady_oneArg _ args place).bind fun value => (steady_percentArg _ place value).bind fun rate => ?_
    refine Lockstep.bind ?_ fun _ => .pure _
    exact steady_modify (fun _ _ => rfl) (fun _ => rfl) (fun _ => rfl)
  · exact steady_setSpeciesRate args place
  · exact steady_raise _ _

theorem steady_callMethod (object : Object) (name : String) (args : List Value) (place : Word) :
    Steady declares (callMethod object name args place) := by
  cases object with
  | zone id => exact steady_callZone id name args place
  | team id => exact steady_callTeam id name args place
  | collection owner => exact steady_callCollection owner name args place

end Objects
end SafariScript
