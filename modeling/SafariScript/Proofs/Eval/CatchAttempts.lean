import SafariScript.Proofs.Chance
import SafariScript.Proofs.Eval.Interruption
import SafariScript.Proofs.Eval.ObjectBounds

/-!
# What an attempt to catch a Pokemon costs and gives

An attempt goes through three gates, one behind the other: the arguments must be acceptable, the zone that pays must
have a ball, and the Pokemon must be there. What passes the first two is a ball paid and a throw
(`attemptCatch_thrown`), and all else is refused (`attemptCatch_refused`). Behind the third one a number is drawn, and
the Pokemon is caught if it is below the chance (`throwAt_present`).

`CatchAccount` is the whole account of an attempt that went through: who paid, which chance was used, what became of
the Pokemon, and that nothing else changed (`attemptCatch_accounts`).
-/

namespace SafariScript

/-- What is said besides the name in an attempt to catch a Pokemon: nothing, the chance, or the zone that pays. -/
inductive CatchTerms where
  | usual
  | chance (percent : Int)
  | paidBy (zone : Nat)

namespace CatchTerms

/-- The arguments behind the name. -/
def args : CatchTerms → List Value
  | usual => []
  | chance percent => [.int percent]
  | paidBy zone => [.object (.zone zone)]

/-- A chance must be a percentage. -/
def Acceptable : CatchTerms → Prop
  | chance percent => Percent percent
  | usual | paidBy _ => True

/-- The zone that is given with the attempt. -/
def zone? : CatchTerms → Option Nat
  | paidBy zone => some zone
  | usual | chance _ => none

/-- The zone that pays for an attempt on a Pokemon of an owner: the one that is given, or else the owner if it is a
zone. -/
def payer? (terms : CatchTerms) : Owner → Option Nat
  | .zone id => terms.zone?.or (some id)
  | .team _ => terms.zone?

/-- The chance that is given with the attempt. -/
def given? : CatchTerms → Option Int
  | chance percent => some percent
  | usual | paidBy _ => none

/-- The chance that is used: the one that is given, or else that of the species, which is found by the name in lower
case, or else the overall one. -/
def chance? (rates : CatchRates) (name : String) (terms : CatchTerms) : Option Int :=
  terms.given?.or ((rates.species.lookup (Text.lower name)).or rates.overall)

/-- The terms of an attempt are read off its arguments. -/
theorem args_injective {terms terms' : CatchTerms} (h : terms.args = terms'.args) : terms = terms' := by
  cases terms <;> cases terms' <;> simp_all [args]

/-- A chance that is used is a percentage if those that are given and those of the species are. -/
theorem percent_of_chance? {terms : CatchTerms} {rates : CatchRates} {name : String} {chance : Int}
    (hterms : terms.Acceptable) (hrates : rates.Bounded) (h : terms.chance? rates name = some chance) :
    Percent chance := by
  unfold chance? at h
  rcases Option.or_eq_some_iff.1 h with hgiven | ⟨-, hrate⟩
  · cases terms with
    | chance percent =>
        cases hgiven
        exact hterms
    | usual | paidBy zone => cases hgiven
  · rcases Option.or_eq_some_iff.1 hrate with hspecies | ⟨-, hoverall⟩
    · obtain ⟨before, behind, hentries, -⟩ := List.lookup_eq_some_iff.1 hspecies
      exact hrates.species (Text.lower name, chance) (by rw [hentries]; simp)
    · obtain ⟨rate, hrate, hpercent⟩ := hrates.overall
      rw [hrate] at hoverall
      cases hoverall
      exact hpercent

/-- There is a chance to use if the overall one is known. -/
theorem exists_chance? {rates : CatchRates} {rate : Int} (h : rates.overall = some rate) (terms : CatchTerms)
    (name : String) : ∃ chance, terms.chance? rates name = some chance := by
  unfold chance?
  rw [h]
  cases terms.given? <;> cases rates.species.lookup (Text.lower name) <;> exact ⟨_, rfl⟩

end CatchTerms

/-- What is printed at the end of an attempt. -/
def catchReport (name : String) (caught : Bool) : String :=
  if caught then "Caught a " ++ name ++ "!" else name ++ " escaped!"

/-! ## One object of the world -/

namespace World

/-- The world after a zone has paid a ball, if one pays. -/
def paid (w : World) : Option Nat → World
  | some id => w.modifyZone id fun z => { z with balls := z.balls - 1 }
  | none => w

/-- Writing back what was computed from a zone is to change the zone. -/
theorem modifyZone_const (w : World) (id : Nat) (change : Zone → Zone) :
    w.modifyZone id (fun _ => change (w.zone id)) = w.modifyZone id change := by
  have hzones : w.zones.modify id (fun _ => change (w.zone id)) = w.zones.modify id change := by
    refine Array.ext_getElem? fun i => ?_
    rw [Array.getElem?_modify, Array.getElem?_modify]
    split
    · next hi =>
      subst hi
      cases hz : w.zones[id]? with
      | none => rfl
      | some z =>
          rw [Option.map_some, Option.map_some, zone_eq hz]
    · rfl
  unfold modifyZone
  rw [hzones]

/-- What a change of zones leaves as it is, it leaves in every zone. -/
theorem field_modifyZone {γ : Type} (w : World) (id : Nat) (change : Zone → Zone) (field : Zone → γ)
    (h : ∀ z, field (change z) = field z) (i : Nat) : field ((w.modifyZone id change).zone i) = field (w.zone i) := by
  unfold modifyZone zone
  rw [Array.getD_eq_getD_getElem?, Array.getD_eq_getD_getElem?, Array.getElem?_modify]
  split
  · cases w.zones[i]? with
    | some z => exact h z
    | none => rfl
  · rfl

/-- A zone that is not there has neither balls nor turns, nor Pokemon. -/
theorem lt_size_of_balls {w : World} {id : Nat} (h : 0 < (w.zone id).balls) : id < w.zones.size := by
  refine lt_size_of_zone_ne fun hdefault => ?_
  rw [hdefault] at h
  exact absurd h (by decide)

@[simp] theorem pokemon_paid (w : World) (payer : Option Nat) (owner : Owner) :
    (w.paid payer).pokemon owner = w.pokemon owner := by
  cases payer with
  | none => rfl
  | some id =>
      cases owner with
      | team t => rfl
      | zone i =>
          exact w.field_modifyZone id (fun z => { z with balls := z.balls - 1 }) Zone.pokemon (fun _ => rfl) i

/-- The Pokemon of an owner are those that they were changed to; where there is no owner there are none. -/
theorem pokemon_modifyPokemon (w : World) (owner : Owner) {change : List String → List String}
    (hnil : change [] = []) : (w.modifyPokemon owner change).pokemon owner = change (w.pokemon owner) := by
  cases owner with
  | zone id =>
      show ((w.zones.modify id _).getD id default).pokemon = change (w.zones.getD id default).pokemon
      rw [Array.getD_eq_getD_getElem?, Array.getD_eq_getD_getElem?, Array.getElem?_modify, if_pos rfl]
      cases w.zones[id]? with
      | some z => rfl
      | none => exact hnil.symm
  | team id =>
      show ((w.teams.modify id _).getD id default).pokemon = change (w.teams.getD id default).pokemon
      rw [Array.getD_eq_getD_getElem?, Array.getD_eq_getD_getElem?, Array.getElem?_modify, if_pos rfl]
      cases w.teams[id]? with
      | some t => rfl
      | none => exact hnil.symm

/-- The world after a ball was thrown at a Pokemon of an owner with a chance to catch it. -/
def thrown (w : World) (owner : Owner) (name : String) (chance : Int) (caught : Bool) : World :=
  { (if caught then w.modifyPokemon owner (·.erase name) else w) with
    chance := (w.chance.draw 100).2
    output := w.output ++ (catchReport name caught ++ "\n")
    log := w.log.push (.attempted name chance caught) }

theorem balls_thrown (w : World) (owner : Owner) (name : String) (chance : Int) (caught : Bool) (i : Nat) :
    ((w.thrown owner name chance caught).zone i).balls = (w.zone i).balls := by
  cases caught with
  | false => rfl
  | true =>
      cases owner with
      | team id => rfl
      | zone id =>
          exact w.field_modifyZone id (fun z => { z with pokemon := z.pokemon.erase name }) Zone.balls (fun _ => rfl) i

theorem pokemon_thrown (w : World) (owner : Owner) (name : String) (chance : Int) (caught : Bool) :
    (w.thrown owner name chance caught).pokemon owner =
      if caught then (w.pokemon owner).erase name else w.pokemon owner := by
  cases caught with
  | false => cases owner <;> rfl
  | true =>
      have herase : (w.modifyPokemon owner (·.erase name)).pokemon owner = (w.pokemon owner).erase name :=
        w.pokemon_modifyPokemon owner (List.erase_nil name)
      cases owner <;> exact herase

theorem balls_paid {w : World} {payer : Option Nat} (h : ∀ id ∈ payer, 0 < (w.zone id).balls) (i : Nat) :
    ((w.paid payer).zone i).balls = (w.zone i).balls - if payer = some i then 1 else 0 := by
  cases payer with
  | none => simp [paid]
  | some id =>
      rw [paid, zone_modifyZone (lt_size_of_balls (h id rfl))]
      by_cases hi : i = id
      · simp [hi]
      · simp [hi, Ne.symm hi]

theorem rates_paid (w : World) (payer : Option Nat) : (w.paid payer).rates = w.rates := by
  cases payer <;> rfl

theorem chance_paid (w : World) (payer : Option Nat) : (w.paid payer).chance = w.chance := by
  cases payer <;> rfl

theorem output_paid (w : World) (payer : Option Nat) : (w.paid payer).output = w.output := by
  cases payer <;> rfl

end World

/-! ## The three gates -/

namespace Objects

open Eval

variable {owner : Owner} {name : String} {terms : CatchTerms} {place : Word} {w w' : World} {v : Value}

theorem payer?_zone? (owner : Owner) (terms : CatchTerms) : payer? owner terms.zone? = terms.payer? owner := by
  cases owner <;> cases terms <;> rfl

theorem percentArg_of_percent {n : Int} (h : Percent n) (method : String) (place : Word) :
    percentArg method place (.int n) = pure n :=
  if_pos h

/-- The message of the refusal has the number, so it must be possible to write it. -/
theorem percentArg_of_not_percent {n : Int} (h : ¬ Percent n) (method : String) (place : Word) :
    percentArg method place (.int n) = showInt n >>= fun text => raise place (.rateOutOfRange text) :=
  if_neg h

theorem catchTerms_args (hterms : terms.Acceptable) (place : Word) (w : World) :
    catchTerms place terms.args w = .ok (terms.given?, terms.zone?) w := by
  cases terms with
  | usual => rfl
  | paidBy zone => rfl
  | chance percent =>
      unfold catchTerms CatchTerms.args
      dsimp only
      rw [percentArg_of_percent hterms]
      rfl

/-- What follows the name is refused unless it is acceptable. -/
theorem catchTerms_refused (place : Word) {rest : List Value} (hrest : rest.length ≤ 1) (w : World) :
    (∃ e, catchTerms place rest w = .error e w) ∨ ∃ terms : CatchTerms, rest = terms.args ∧ terms.Acceptable := by
  match rest, hrest with
  | [], _ => exact .inr ⟨.usual, rfl, trivial⟩
  | [.object (.zone id)], _ => exact .inr ⟨.paidBy id, rfl, trivial⟩
  | [.int n], _ =>
      by_cases hn : Percent n
      · exact .inr ⟨.chance n, rfl, hn⟩
      · left
        rcases inert_percentArg "attemptCatch" place (.int n) w with ⟨m, hok⟩ | ⟨e, herror⟩
        · rw [percentArg_of_not_percent hn] at hok
          obtain ⟨text, w₁, -, hraise⟩ := bind_eq_ok.1 hok
          cases hraise
        · exact ⟨e, bind_eq_error.2 (.inl herror)⟩
  | [.null], _ | [.bool _], _ | [.text _], _ | [.array _], _ | [.function _], _ | [.object (.team _)], _
  | [.object (.collection _)], _ => exact .inl ⟨_, rfl⟩

theorem spendBall_of_pos {id : Nat} (h : 0 < (w.zone id).balls) (place : Word) :
    spendBall id place w = .ok () (w.paid (some id)) := by
  have hspend : (w.zone id).spendBall? = some { w.zone id with balls := (w.zone id).balls - 1 } :=
    if_neg (by omega)
  unfold spendBall
  rw [bind_of_ok (get_apply w), hspend]
  show EStateM.Result.ok () (w.modifyZone id fun _ => { w.zone id with balls := (w.zone id).balls - 1 }) = _
  rw [w.modifyZone_const id fun z => { z with balls := z.balls - 1 }]
  rfl

theorem spendBall_of_not_pos {id : Nat} (h : ¬ 0 < (w.zone id).balls) (place : Word) :
    spendBall id place w = .error (.fault ⟨.noBalls, some place⟩) w := by
  have hspend : (w.zone id).spendBall? = none := if_pos (by omega)
  unfold spendBall
  rw [bind_of_ok (get_apply w), hspend]
  rfl

theorem pay_of_pos {payer : Option Nat} (h : ∀ id ∈ payer, 0 < (w.zone id).balls) (place : Word) :
    pay payer place w = .ok () (w.paid payer) := by
  cases payer with
  | none => rfl
  | some id => exact spendBall_of_pos (h id rfl) place

theorem pay_refused {payer : Option Nat} (h : ¬ ∀ id ∈ payer, 0 < (w.zone id).balls) (place : Word) :
    ∃ e, pay payer place w = .error e w := by
  cases payer with
  | none => exact absurd (fun id hid => by cases hid) h
  | some id =>
      refine ⟨_, spendBall_of_not_pos (fun hballs => h fun i hi => ?_) place⟩
      cases hi
      exact hballs

/-- An attempt with acceptable terms for which there is a ball: the ball is spent and thrown. -/
theorem attemptCatch_thrown (hterms : terms.Acceptable) (hball : ∀ id ∈ terms.payer? owner, 0 < (w.zone id).balls)
    (name : String) (place : Word) :
    attemptCatch owner (.text name :: terms.args) place w =
      throwAt owner name terms.given? place (w.paid (terms.payer? owner)) := by
  have hlength : ¬ 1 < terms.args.length := by
    cases terms with
    | usual => exact Nat.not_lt_zero 1
    | chance percent | paidBy zone => exact Nat.lt_irrefl 1
  unfold attemptCatch
  dsimp only
  rw [if_neg hlength]
  show (catchTerms place terms.args >>= fun given => pay (payer? owner given.2) place >>= fun _ =>
    throwAt owner name given.1 place) w = _
  rw [bind_of_ok (catchTerms_args hterms place w), payer?_zone?, bind_of_ok (pay_of_pos hball place)]

/-- Every other attempt is refused, and nothing has changed. -/
theorem attemptCatch_refused (owner : Owner) (args : List Value) (place : Word) (w : World) :
    (∃ e, attemptCatch owner args place w = .error e w) ∨
      ∃ name terms, args = .text name :: CatchTerms.args terms ∧ terms.Acceptable ∧
        ∀ id ∈ terms.payer? owner, 0 < (w.zone id).balls := by
  cases args with
  | nil => exact .inl ⟨_, rfl⟩
  | cons first rest =>
      by_cases hlength : 1 < rest.length
      · left
        unfold attemptCatch
        dsimp only
        rw [if_pos hlength]
        exact ⟨_, rfl⟩
      · have hattempt : attemptCatch owner (first :: rest) place =
            stringArg "attemptCatch" place first >>= fun name => catchTerms place rest >>= fun given =>
              pay (payer? owner given.2) place >>= fun _ => throwAt owner name given.1 place := if_neg hlength
        rw [hattempt]
        cases first with
        | text name =>
            show (∃ e, (catchTerms place rest >>= fun given => pay (payer? owner given.2) place >>= fun _ =>
              throwAt owner name given.1 place) w = .error e w) ∨ _
            rcases catchTerms_refused place (Nat.not_lt.1 hlength) w with ⟨e, herror⟩ | ⟨terms, rfl, hterms⟩
            · exact .inl ⟨e, bind_eq_error.2 (.inl herror)⟩
            · by_cases hball : ∀ id ∈ terms.payer? owner, 0 < (w.zone id).balls
              · exact .inr ⟨name, terms, rfl, hterms, hball⟩
              · obtain ⟨e, herror⟩ := pay_refused hball place
                left
                rw [bind_of_ok (catchTerms_args hterms place w), payer?_zone?]
                exact ⟨e, bind_eq_error.2 (.inl herror)⟩
        | _ => exact .inl ⟨_, rfl⟩

/-! ## The ball in the air -/

/-- A ball that is thrown at a Pokemon that is not there. -/
theorem throwAt_absent (h : name ∉ w.pokemon owner) (given : Option Int) (place : Word) :
    throwAt owner name given place w = .error (.fault ⟨.notPresent name owner.kind, some place⟩) w := by
  unfold throwAt
  rw [bind_of_ok (get_apply w)]
  have hcontains : (!(w.pokemon owner).contains name) = true := by simpa using h
  rw [if_pos hcontains]
  rfl

theorem endCatch_apply (owner : Owner) (name : String) (caught : Bool) (w : World) :
    endCatch owner name caught w =
      .ok () ((if caught then w.modifyPokemon owner (·.erase name) else w).writeLine (catchReport name caught)) := by
  cases caught <;> rfl

/-- A ball that is thrown at a Pokemon that is there: one number is drawn, and the chance decides. -/
theorem throwAt_present (h : name ∈ w.pokemon owner) {given : Option Int} {chance : Int}
    (hchance : given.or (w.rates.chanceFor? name) = some chance) (place : Word) :
    throwAt owner name given place w =
      .ok (.bool (((w.chance.draw 100).1 : Int) < chance))
        (w.thrown owner name chance (((w.chance.draw 100).1 : Int) < chance)) := by
  have hcontains : ¬ (!(w.pokemon owner).contains name) = true := by simpa using h
  have hthrow : throwAt owner name given place w =
      (endCatch owner name (((w.chance.draw 100).1 : Int) < chance) >>= fun _ =>
        pure (.bool (((w.chance.draw 100).1 : Int) < chance)))
        { w with
          chance := (w.chance.draw 100).2
          log := w.log.push (.attempted name chance (((w.chance.draw 100).1 : Int) < chance)) } := by
    unfold throwAt
    rw [bind_of_ok (get_apply w), if_neg hcontains]
    dsimp only
    rw [bind_of_ok (draw_apply 100 w), hchance]
    rfl
  rw [hthrow, bind_of_ok (endCatch_apply owner name _ _), pure_apply]
  unfold World.thrown
  cases owner <;> cases (((w.chance.draw 100).1 : Int) < chance : Bool) <;> rfl

/-! ## The account -/

/-- An attempt to catch a Pokemon by a name, on some terms. -/
def catchAttempt (owner : Owner) (name : String) (terms : CatchTerms) (place : Word) : Eval Value :=
  callMethod (.collection owner) "attemptCatch" (.text name :: terms.args) place

/-- The account of an attempt that went through: one number below 100 is drawn, and the Pokemon is caught if it is
below the chance. The zone that pays has one ball less; the first Pokemon of the name is gone if it was caught. The
worlds differ in nothing but this and what was printed and noted down. -/
structure CatchAccount (w : World) (owner : Owner) (name : String) (terms : CatchTerms) (chance : Int) (caught : Bool)
    (w' : World) : Prop where
  used : terms.chance? w.rates name = some chance
  drawn : (w.chance.draw 100).1 < 100
  decided : caught = true ↔ ((w.chance.draw 100).1 : Int) < chance
  balls (id : Nat) : (w'.zone id).balls = (w.zone id).balls - if terms.payer? owner = some id then 1 else 0
  removed (h : caught = true) : ∃ before behind, name ∉ before ∧ w.pokemon owner = before ++ name :: behind ∧
    w'.pokemon owner = before ++ behind
  kept (h : caught = false) : w'.pokemon owner = w.pokemon owner
  output : w'.output = w.output ++ (catchReport name caught ++ "\n")
  world : w' = (w.paid (terms.payer? owner)).thrown owner name chance caught

theorem catchAttempt_eq (owner : Owner) (name : String) (terms : CatchTerms) (place : Word) :
    catchAttempt owner name terms place = attemptCatch owner (.text name :: terms.args) place := rfl

theorem chance?_eq (terms : CatchTerms) (rates : CatchRates) (name : String) :
    terms.given?.or (rates.chanceFor? name) = terms.chance? rates name := rfl

theorem throwAt_eq_ok {given : Option Int} (h : throwAt owner name given place w = .ok v w') :
    name ∈ w.pokemon owner ∧ ∃ chance, given.or (w.rates.chanceFor? name) = some chance := by
  by_cases hpresent : name ∈ w.pokemon owner
  · refine ⟨hpresent, ?_⟩
    cases hchance : given.or (w.rates.chanceFor? name) with
    | some chance => exact ⟨chance, rfl⟩
    | none =>
        have hcontains : ¬ (!(w.pokemon owner).contains name) = true := by simpa using hpresent
        unfold throwAt at h
        rw [bind_of_ok (get_apply w), if_neg hcontains] at h
        dsimp only at h
        rw [bind_of_ok (draw_apply 100 w), hchance] at h
        cases h
  · rw [throwAt_absent hpresent] at h
    cases h

/-- An attempt that went through has its account. -/
theorem exists_account (h : catchAttempt owner name terms place w = .ok v w') :
    terms.Acceptable ∧ (∀ id ∈ terms.payer? owner, 0 < (w.zone id).balls) ∧ name ∈ w.pokemon owner ∧
      ∃ chance caught, v = .bool caught ∧ CatchAccount w owner name terms chance caught w' := by
  rw [catchAttempt_eq] at h
  rcases attemptCatch_refused owner (.text name :: terms.args) place w with
    ⟨e, herror⟩ | ⟨name', terms', hargs, hterms, hball⟩
  · rw [herror] at h
    cases h
  · obtain ⟨hname, hrest⟩ := List.cons.inj hargs
    cases hname
    obtain rfl := CatchTerms.args_injective hrest
    rw [attemptCatch_thrown hterms hball] at h
    obtain ⟨hpresent, chance, hchance⟩ := throwAt_eq_ok h
    rw [throwAt_present hpresent hchance] at h
    cases h
    rw [World.pokemon_paid] at hpresent
    rw [World.rates_paid, chance?_eq] at hchance
    refine ⟨hterms, hball, hpresent, chance, _, rfl, ?_⟩
    rw [World.chance_paid]
    exact {
      used := hchance
      drawn := w.chance.draw_lt (by decide)
      decided := decide_eq_true_iff
      balls := fun i => by rw [World.balls_thrown, World.balls_paid hball]
      removed := fun hcaught => by
        obtain ⟨before, behind, hbefore, hnames, herase⟩ := List.exists_erase_eq hpresent
        refine ⟨before, behind, hbefore, hnames, ?_⟩
        rw [World.pokemon_thrown, if_pos hcaught, World.pokemon_paid, herase]
      kept := fun hescaped => by
        rw [World.pokemon_thrown, hescaped, World.pokemon_paid]
        rfl
      output := by
        rw [← World.output_paid w (terms.payer? owner)]
        rfl
      world := rfl }

/-- Let all rates be percentages. An attempt goes through exactly if its terms are acceptable, the zone that pays has
a ball and the Pokemon is there; then it has its account, with a chance that is a percentage. So at a hundred percent
the Pokemon is caught, and at none it escapes; and another attempt, in whatever world, for which the same number is
drawn and whose chance is not lower, catches its Pokemon if this one does. -/
theorem attemptCatch_accounts (w : World) (hrates : w.rates.Bounded) (owner : Owner) (name : String)
    (terms : CatchTerms) (place : Word) :
    ((∃ v w', catchAttempt owner name terms place w = .ok v w') ↔
      terms.Acceptable ∧ (∀ id ∈ terms.payer? owner, 0 < (w.zone id).balls) ∧ name ∈ w.pokemon owner) ∧
    ∀ v w', catchAttempt owner name terms place w = .ok v w' →
      ∃ chance caught, v = .bool caught ∧ Percent chance ∧ CatchAccount w owner name terms chance caught w' ∧
        (chance = 100 → caught = true) ∧ (chance = 0 → caught = false) ∧
        ∀ owner₂ name₂ terms₂ place₂ u u' chance₂ caught₂,
          catchAttempt owner₂ name₂ terms₂ place₂ u = .ok (.bool caught₂) u' →
          CatchTerms.chance? u.rates name₂ terms₂ = some chance₂ →
          (u.chance.draw 100).1 = (w.chance.draw 100).1 → chance ≤ chance₂ → caught = true → caught₂ = true := by
  constructor
  · constructor
    · rintro ⟨v, w', h⟩
      obtain ⟨hterms, hball, hpresent, -⟩ := exists_account h
      exact ⟨hterms, hball, hpresent⟩
    · rintro ⟨hterms, hball, hpresent⟩
      obtain ⟨rate, hoverall, -⟩ := hrates.overall
      obtain ⟨chance, hchance⟩ := terms.exists_chance? hoverall name
      rw [catchAttempt_eq, attemptCatch_thrown hterms hball]
      rw [← chance?_eq, ← w.rates_paid (terms.payer? owner)] at hchance
      rw [← w.pokemon_paid (terms.payer? owner)] at hpresent
      exact ⟨_, _, throwAt_present hpresent hchance place⟩
  · intro v w' h
    obtain ⟨hterms, -, -, chance, caught, hv, account⟩ := exists_account h
    have hpercent : Percent chance := CatchTerms.percent_of_chance? hterms hrates account.used
    have hdrawn := account.drawn
    refine ⟨chance, caught, hv, hpercent, account, fun hsure => ?_, fun hnever => ?_, ?_⟩
    · exact account.decided.2 (by omega)
    · rw [← Bool.not_eq_true, account.decided]
      omega
    · intro owner₂ name₂ terms₂ place₂ u u' chance₂ caught₂ h₂ hchance₂ hsame hle hcaught
      obtain ⟨-, -, -, chance', caught', hv', account'⟩ := exists_account h₂
      cases hv'
      obtain rfl : chance' = chance₂ := Option.some.inj (account'.used.symm.trans hchance₂)
      have hbelow := account.decided.1 hcaught
      rw [account'.decided, hsame]
      omega

/-- A team has two Pokemon of a name, and one of another in between; a zone with two balls pays. The number drawn is
42, and the rate of the species, which is set by the name in other letters, is one more. -/
theorem attemptCatch_accounts_borrowed :
    let w : World := { World.initial (.ofScript [142]) ⟨some 0, [("eevee", 43)]⟩ [] with
      zones := #[⟨2, 5, 2, 5, []⟩], teams := #[⟨"Ash", 6, ["Mew", "EEVEE", "Pidgey", "EEVEE"]⟩] }
    w.rates.Bounded ∧ ∃ w', catchAttempt (.team 0) "EEVEE" (.paidBy 0) ⟨"attemptCatch", 1⟩ w = .ok (.bool true) w' ∧
      CatchAccount w (.team 0) "EEVEE" (.paidBy 0) 43 true w' ∧
      w'.pokemon (.team 0) = ["Mew", "Pidgey", "EEVEE"] ∧ w'.zones = #[⟨2, 5, 1, 5, []⟩] ∧
      w'.output = "Caught a EEVEE!\n" := by
  intro w
  have hrates : w.rates.Bounded := by
    refine ⟨⟨0, rfl, by decide, by decide⟩, fun entry hentry => ?_⟩
    obtain rfl := List.mem_singleton.1 hentry
    exact ⟨by decide, by decide⟩
  have haccounts := attemptCatch_accounts w hrates (.team 0) "EEVEE" (.paidBy 0) ⟨"attemptCatch", 1⟩
  obtain ⟨v, w', h⟩ := haccounts.1.2 ⟨trivial, by decide +kernel, by decide +kernel⟩
  obtain ⟨chance, caught, rfl, -, account, -⟩ := haccounts.2 v w' h
  have hchance : CatchTerms.chance? w.rates "EEVEE" (.paidBy 0) = some 43 := by decide +kernel
  obtain rfl : chance = 43 := Option.some.inj (account.used.symm.trans hchance)
  obtain rfl : caught = true := account.decided.2 (by decide +kernel)
  refine ⟨hrates, w', h, account, ?_, ?_, ?_⟩
  · rw [account.world]
    decide +kernel
  · rw [account.world]
    decide +kernel
  · rw [account.world]
    decide +kernel

end Objects

end SafariScript
