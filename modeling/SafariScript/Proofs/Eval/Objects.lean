import SafariScript.Proofs.Eval.Operations

/-!
# Objects keep the contract

Constructors, properties and methods are safe. Each of them checks its arguments before it changes an object,
and the check is what the update needs: a number of balls that is not negative, a rate that is a percentage, a
team with room for those who join it.
-/

namespace SafariScript

variable {code : List Stmt → Prop} {here : Placement} {α : Type}

namespace Objects

open Eval

/-! ## Checks -/

theorem safe_atLeast (least : Int) (place : Word) (less : Cause) (other : Kind → Cause) (value : Value) :
    Safe code here (atLeast least place less other value) := by
  unfold atLeast
  split
  · split
    · exact safe_raise _ _
    · exact safe_pure _
  · exact safe_raise _ _

theorem atLeast_eq_ok {least n : Int} {place : Word} {less : Cause} {other : Kind → Cause} {value : Value}
    {w w' : World} (h : atLeast least place less other value w = .ok n w') : least ≤ n ∧ w' = w := by
  unfold atLeast at h
  split at h
  · split at h
    · cases h
    · next hn =>
      cases h
      exact ⟨by omega, rfl⟩
  · cases h

theorem safe_percentArg (method : String) (place : Word) (value : Value) :
    Safe code here (percentArg method place value) := by
  unfold percentArg
  split
  · split
    · exact safe_pure _
    · exact (safe_showInt _).bind fun _ => safe_raise _ _
  · exact safe_raise _ _

theorem percentArg_eq_ok {method : String} {place : Word} {value : Value} {n : Int} {w w' : World}
    (h : percentArg method place value w = .ok n w') : (0 ≤ n ∧ n ≤ 100) ∧ w' = w := by
  unfold percentArg at h
  split at h
  · next m =>
    split at h
    · next hm =>
      cases h
      exact ⟨hm, rfl⟩
    · rw [bind_apply] at h
      split at h <;> cases h
  · cases h

theorem safe_noArgs (method : String) (args : List Value) (place : Word) :
    Safe code here (noArgs method args place) := by
  unfold noArgs
  split
  · exact safe_pure ()
  · exact safe_raise _ _

theorem safe_oneArg (method : String) (args : List Value) (place : Word) :
    Safe code here (oneArg method args place) := by
  unfold oneArg
  split
  · exact safe_pure _
  · exact safe_raise _ _

theorem safe_stringArg (method : String) (place : Word) (value : Value) :
    Safe code here (stringArg method place value) := by
  unfold stringArg
  split
  · exact safe_pure _
  · exact safe_raise _ _

theorem safe_namesArg (method : String) (place : Word) (value : Value) :
    Safe code here (namesArg method place value) := by
  unfold namesArg
  split
  · refine Safe.get_bind fun w hw => ?_
    exact Safe.mapM (safe_stringArg method place) _ w hw
  · exact safe_raise _ _

/-! ## Constructors -/

theorem safe_createZone (place : Word) (positional : List Value) (named : List (Word × Value)) :
    Safe code here (createZone place positional named) := by
  refine (safe_ofFault _).bind fun given w hw => ?_
  refine (safe_atLeast 0 place _ _ _ w hw).bind hw fun balls w₁ hballs hw₁ => ?_
  refine (safe_atLeast 0 place _ _ _ w₁ hw₁).bind hw₁ fun turns w₂ hturns hw₂ => ?_
  have hballs' : 0 ≤ balls := (atLeast_eq_ok hballs).1
  have hturns' : 0 ≤ turns := (atLeast_eq_ok hturns).1
  exact Effect.update (.newZone balls turns hballs' hturns')

theorem safe_trainer (place : Word) (value : Value) : Safe code here (trainer place value) := by
  unfold trainer
  split
  · exact safe_pure _
  · exact safe_raise _ _

theorem safe_createTeam (place : Word) (positional : List Value) (named : List (Word × Value)) :
    Safe code here (createTeam place positional named) := by
  refine (safe_ofFault _).bind fun given => (safe_trainer place _).bind fun name w hw => ?_
  refine (safe_atLeast 1 place _ _ _ w hw).bind hw fun size w₁ hsize _ => ?_
  have hsize' : 1 ≤ size := (atLeast_eq_ok hsize).1
  exact Effect.update (.newTeam name size hsize')

theorem safe_construct (maker : Maker) (line : Int) (positional : List Value)
    (named : List (Word × Value)) : Safe code here (construct maker line positional named) := by
  cases maker with
  | safariZone => exact safe_createZone _ positional named
  | team => exact safe_createTeam _ positional named

/-! ## Properties -/

theorem safe_getProperty (object : Object) (name : String) (place : Word) :
    Safe code here (getProperty object name place) := by
  refine Safe.get_bind fun w hw => ?_
  split
  · split
    · exact safe_pure _ w hw
    · exact safe_pure _ w hw
    · exact safe_pure _ w hw
    · exact safe_pure _ w hw
    · exact safe_pure _ w hw
    · exact safe_pure _ w hw
    · exact safe_raise _ _ w hw
  · split
    · exact safe_pure _ w hw
    · exact safe_pure _ w hw
    · exact safe_pure _ w hw
    · exact safe_pure _ w hw
    · exact safe_raise _ _ w hw
  · exact safe_raise _ _ w hw

theorem safe_setProperty (object : Object) (name : String) (value : Value) (place : Word) :
    Safe code here (setProperty object name value place) := by
  unfold setProperty
  split
  · next id =>
    split
    · intro w hw
      refine (safe_atLeast 0 place _ _ value w hw).bind hw fun n w₁ hn _ => ?_
      exact settles_modify (.changeZone id _ (.setBalls n (atLeast_eq_ok hn).1))
    · intro w hw
      refine (safe_atLeast 0 place _ _ value w hw).bind hw fun n w₁ hn _ => ?_
      exact settles_modify (.changeZone id _ (.setTurns n (atLeast_eq_ok hn).1))
    · exact safe_raise _ _
    · exact safe_raise _ _
    · exact safe_raise _ _
    · exact safe_raise _ _
    · exact safe_raise _ _
  · exact safe_raise _ _
  · exact safe_raise _ _

/-! ## Methods of zones and teams -/

theorem safe_spendBall (id : Nat) (place : Word) : Safe code here (spendBall id place) := by
  refine Safe.get_bind fun w hw => ?_
  split
  · next zone hspend =>
    refine settles_modify (.changeZone id _ ?_)
    unfold Zone.spendBall? at hspend
    split at hspend
    · cases hspend
    · next hballs =>
      cases hspend
      exact .spendBall (by omega)
  · exact safe_raise _ _ w hw

theorem safe_spendTurn (id : Nat) (place : Word) : Safe code here (spendTurn id place) := by
  refine Safe.get_bind fun w hw => ?_
  split
  · next zone hspend =>
    refine settles_modify (.changeZone id _ ?_)
    unfold Zone.spendTurn? at hspend
    split at hspend
    · cases hspend
    · next hturns =>
      cases hspend
      exact .spendTurn (by omega)
  · exact safe_raise _ _ w hw

theorem safe_callZone (id : Nat) (name : String) (args : List Value) (place : Word) :
    Safe code here (callZone id name args place) := by
  unfold callZone
  split
  · exact (safe_noArgs _ args place).bind fun _ => (safe_spendBall id place).bind fun _ => safe_pure _
  · exact (safe_noArgs _ args place).bind fun _ => (safe_spendTurn id place).bind fun _ => safe_pure _
  · refine (safe_noArgs _ args place).bind fun _ => ?_
    exact (safe_modify fun _ => .changeZone id _ .reset).bind fun _ => safe_pure _
  · exact (safe_noArgs _ args place).bind fun _ => Safe.get_bind fun w hw => safe_pure _ w hw
  · exact safe_raise _ _

theorem safe_callTeam (id : Nat) (name : String) (args : List Value) (place : Word) :
    Safe code here (callTeam id name args place) := by
  unfold callTeam
  split
  · exact (safe_noArgs _ args place).bind fun _ => Safe.get_bind fun w hw => safe_pure _ w hw
  · exact (safe_noArgs _ args place).bind fun _ => Safe.get_bind fun w hw => safe_pure _ w hw
  · refine (safe_oneArg _ args place).bind fun value => (safe_stringArg _ place value).bind fun wanted => ?_
    exact Safe.get_bind fun w hw => safe_pure _ w hw
  · exact safe_raise _ _

/-! ## Methods of collections -/

theorem safe_makeRoom (owner : Owner) (count : Nat) (place : Word) :
    Safe code here (makeRoom owner count place) := by
  refine Safe.get_bind fun w hw => ?_
  split
  · split
    · exact safe_raise _ _ w hw
    · exact safe_pure _ w hw
  · exact safe_pure _ w hw

/-- Behind the check for room there is room, in the world as it was. -/
theorem makeRoom_eq_ok {owner : Owner} {count : Nat} {place : Word} {w w' : World}
    (h : makeRoom owner count place w = .ok () w') :
    w' = w ∧ ∀ capacity ∈ w.capacity? owner, ((w.pokemon owner).length : Int) + count ≤ capacity := by
  simp only [makeRoom, bind_apply, get_apply] at h
  cases hcapacity : w.capacity? owner with
  | none =>
      simp only [hcapacity] at h
      cases h
      exact ⟨rfl, by simp⟩
  | some capacity =>
      simp only [hcapacity] at h
      split at h
      · cases h
      · next hroom =>
        cases h
        refine ⟨rfl, fun c hc => ?_⟩
        obtain rfl : capacity = c := by simpa using hc
        omega

/-- Names are added to a collection only behind a check for room. -/
theorem safe_join (owner : Owner) (names : List String) (place : Word) (result : Value) :
    Safe code here (do
      makeRoom owner names.length place
      modify (·.modifyPokemon owner (· ++ names))
      return result) := by
  intro w hw
  refine (safe_makeRoom owner names.length place w hw).bind hw fun _ w₁ hok hw₁ => ?_
  -- the check leaves the world as it is, so the room is still there
  obtain ⟨rfl, hroom⟩ := makeRoom_eq_ok hok
  have hfits : w₁.Fits owner (w₁.pokemon owner ++ names) := by
    refine Or.inr fun capacity hcapacity => ?_
    have h := hroom capacity hcapacity
    rw [List.length_append]
    omega
  refine (settles_modify (.changePokemon owner _ hfits)).bind hw₁ fun _ w₂ _ hw₂ => ?_
  exact safe_pure _ w₂ hw₂

/-- A list of Pokemon may always become shorter. -/
theorem safe_shrink (owner : Owner) {change : List String → List String}
    (h : ∀ names, (change names).length ≤ names.length) :
    Safe code here (modify (·.modifyPokemon owner change)) :=
  safe_modify fun w => .changePokemon owner change (Or.inl (h (w.pokemon owner)))

theorem length_erase_le (name : String) (names : List String) : (names.erase name).length ≤ names.length :=
  List.erase_sublist.length_le

theorem length_removeEach_le (wanted names : List String) :
    (removeEach wanted names).2.length ≤ names.length := by
  fun_induction removeEach wanted names with
  | case1 => exact Nat.le_refl _
  | case2 name rest names _ removed left hremove ih =>
      rw [hremove] at ih
      exact Nat.le_trans ih (length_erase_le name names)
  | case3 => assumption

theorem safe_catchTerms (place : Word) (args : List Value) : Safe code here (catchTerms place args) := by
  unfold catchTerms
  split
  · exact safe_pure _
  · exact safe_pure _
  · exact (safe_percentArg _ place _).bind fun _ => safe_pure _
  · exact safe_raise _ _

/-- A chance is wanting only if the overall rate is. -/
theorem settles_known {w : World} {given : Option Int} {rates : CatchRates} {name : String}
    (h : w.rates.overall.isSome = true → rates.overall.isSome = true) :
    Settles code here w (known (given.or (rates.chanceFor? name))) := by
  cases hchance : given.or (rates.chanceFor? name) with
  | some chance => exact Effect.refl w
  | none =>
      simp only [CatchRates.chanceFor?, Option.or_eq_none_iff] at hchance
      refine ⟨.refl w, ?_⟩
      show w.rates.overall.isSome = false
      rw [← Bool.not_eq_true]
      intro hrate
      have hknown := h hrate
      rw [hchance.2.2] at hknown
      cases hknown

theorem safe_pay (payer : Option Nat) (place : Word) : Safe code here (pay payer place) := by
  cases payer with
  | some id => exact safe_spendBall id place
  | none => exact safe_pure ()

theorem safe_endCatch (owner : Owner) (name : String) (caught : Bool) :
    Safe code here (endCatch owner name caught) := by
  unfold endCatch
  split
  · exact (safe_shrink owner (length_erase_le name)).bind fun _ => safe_say _
  · exact safe_say _

theorem safe_throwAt (owner : Owner) (name : String) (given : Option Int) (place : Word) :
    Safe code here (throwAt owner name given place) := by
  refine Safe.get_bind fun w hw => settles_check fun _ => ?_
  refine (safe_draw 100 w hw).bind hw fun drawn w₁ hdraw hw₁ => ?_
  -- the rates are those of the world in which the ball is thrown; drawing does not change them
  have hrates : w₁.rates = w.rates := by
    cases hdraw
    rfl
  have hknown : w₁.rates.overall.isSome = true → w.rates.overall.isSome = true := by
    rw [hrates]
    exact id
  refine (settles_known hknown).bind hw₁ fun chance w₂ _ hw₂ => ?_
  exact ((safe_note _).bind fun _ => (safe_endCatch owner name _).bind fun _ => safe_pure _) w₂ hw₂

theorem safe_attemptCatch (owner : Owner) (args : List Value) (place : Word) :
    Safe code here (attemptCatch owner args place) := by
  unfold attemptCatch
  split
  · refine safe_check ((safe_stringArg _ place _).bind fun name => ?_)
    refine (safe_catchTerms place _).bind fun terms => (safe_pay _ place).bind fun _ => ?_
    exact safe_throwAt owner name terms.1 place
  · exact safe_raise _ _

theorem safe_setSpeciesRate (args : List Value) (place : Word) :
    Safe code here (setSpeciesRate args place) := by
  unfold setSpeciesRate
  split
  · refine (safe_stringArg _ place _).bind fun name w hw => ?_
    refine (safe_percentArg _ place _ w hw).bind hw fun rate w₁ hrate hw₁ => ?_
    have hpercent : 0 ≤ rate ∧ rate ≤ 100 := (percentArg_eq_ok hrate).1
    exact (settles_modify (.setSpeciesRate name rate hpercent)).bind hw₁ fun _ w₂ _ hw₂ => safe_pure _ w₂ hw₂
  · exact safe_raise _ _

theorem safe_callCollection (owner : Owner) (name : String) (args : List Value) (place : Word) :
    Safe code here (callCollection owner name args place) := by
  unfold callCollection
  split
  · -- add
    refine (safe_oneArg _ args place).bind fun value => (safe_stringArg _ place value).bind fun added => ?_
    exact safe_join owner [added] place .null
  · -- remove
    refine (safe_oneArg _ args place).bind fun value => (safe_stringArg _ place value).bind fun wanted => ?_
    refine Safe.get_bind fun w hw => ?_
    dsimp only
    split
    · exact ((safe_shrink owner (length_erase_le wanted)).bind fun _ => safe_pure _) w hw
    · exact safe_pure _ w hw
  · -- list
    exact (safe_noArgs _ args place).bind fun _ => Safe.get_bind fun w hw => safe_pure _ w hw
  · -- find
    refine (safe_oneArg _ args place).bind fun value => (safe_stringArg _ place value).bind fun wanted => ?_
    refine Safe.get_bind fun w hw => ?_
    split
    · exact safe_pure _ w hw
    · exact safe_pure _ w hw
  · -- random
    refine (safe_noArgs _ args place).bind fun _ => Safe.get_bind fun w hw => ?_
    exact safe_check ((safe_choose _).bind fun _ => safe_pure _) w hw
  · -- count
    exact (safe_noArgs _ args place).bind fun _ => Safe.get_bind fun w hw => safe_pure _ w hw
  · -- clear
    refine (safe_noArgs _ args place).bind fun _ => ?_
    exact (safe_shrink owner fun _ => Nat.zero_le _).bind fun _ => safe_pure _
  · -- isEmpty
    exact (safe_noArgs _ args place).bind fun _ => Safe.get_bind fun w hw => safe_pure _ w hw
  · -- addAll
    refine (safe_oneArg _ args place).bind fun value => (safe_namesArg _ place value).bind fun names => ?_
    exact safe_join owner names place .null
  · -- removeAll
    refine (safe_oneArg _ args place).bind fun value => (safe_namesArg _ place value).bind fun names => ?_
    refine Safe.get_bind fun w hw => ?_
    -- the list is replaced as a whole by what the world had when it was looked at
    have hfits : w.Fits owner (removeEach names (w.pokemon owner)).2 := Or.inl (length_removeEach_le _ _)
    refine (settles_modify (.changePokemon owner _ hfits)).bind hw fun _ w₁ _ hw₁ => ?_
    exact safe_pure _ w₁ hw₁
  · exact safe_attemptCatch owner args place
  · -- setCatchRate
    refine (safe_oneArg _ args place).bind fun value w hw => ?_
    refine (safe_percentArg _ place value w hw).bind hw fun rate w₁ hrate hw₁ => ?_
    have hpercent : 0 ≤ rate ∧ rate ≤ 100 := (percentArg_eq_ok hrate).1
    exact (settles_modify (.setRate rate hpercent)).bind hw₁ fun _ w₂ _ hw₂ => safe_pure _ w₂ hw₂
  · exact safe_setSpeciesRate args place
  · exact safe_raise _ _

theorem safe_callMethod (object : Object) (name : String) (args : List Value) (place : Word) :
    Safe code here (callMethod object name args place) := by
  cases object with
  | zone id => exact safe_callZone id name args place
  | team id => exact safe_callTeam id name args place
  | collection owner => exact safe_callCollection owner name args place

end Objects
end SafariScript
