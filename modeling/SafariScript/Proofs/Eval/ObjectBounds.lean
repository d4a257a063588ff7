import Mathlib.Logic.Relation
import SafariScript.Proofs.Eval.Execution

/-!
# Objects stay within their bounds

The world moves by elementary updates and by setting its registers (`Move`), whatever programs are run and
however they end. A move never takes balls or turns below zero, never puts more Pokemon into a team than it has
room for, and never sets a rate that is not a percentage; nor does it change what an object was made with. So
all this holds in every world that is reached from one in which it holds (`Reaches.bounded`, `Reaches.kept`).

Zones and teams are kept in arrays that only grow, so both are treated alike: `Grown` says how an array of
objects changes in one move.
-/

namespace SafariScript

/-- A rate in percent. -/
def Percent (rate : Int) : Prop := 0 ≤ rate ∧ rate ≤ 100

/-- What a zone has left, and what it started with, is not negative. -/
structure Zone.Bounded (z : Zone) : Prop where
  balls : 0 ≤ z.balls
  turns : 0 ≤ z.turns
  initialBalls : 0 ≤ z.initialBalls
  initialTurns : 0 ≤ z.initialTurns

/-- A team has room for someone, and for all who are in it. -/
structure Team.Bounded (t : Team) : Prop where
  maxSize : 1 ≤ t.maxSize
  pokemon : (t.pokemon.length : Int) ≤ t.maxSize

/-- The overall rate is known, and all rates are percentages. -/
structure CatchRates.Bounded (rates : CatchRates) : Prop where
  overall : ∃ rate, rates.overall = some rate ∧ Percent rate
  species : ∀ entry ∈ rates.species, Percent entry.2

/-- All objects and rates are within their bounds. -/
structure World.Bounded (w : World) : Prop where
  zones : ∀ z ∈ w.zones, z.Bounded
  teams : ∀ t ∈ w.teams, t.Bounded
  rates : w.rates.Bounded

/-- A zone is still the one that was made. -/
def Zone.Same (z z' : Zone) : Prop :=
  z'.initialBalls = z.initialBalls ∧ z'.initialTurns = z.initialTurns

/-- A team is still the one that was made. -/
def Team.Same (t t' : Team) : Prop :=
  t'.trainerName = t.trainerName ∧ t'.maxSize = t.maxSize

/-- Every object of the first world is still there in the second, as it was made. -/
structure World.Kept (w w' : World) : Prop where
  zones : ∀ (id : Nat) (z : Zone), w.zones[id]? = some z → ∃ z', w'.zones[id]? = some z' ∧ z.Same z'
  teams : ∀ (id : Nat) (t : Team), w.teams[id]? = some t → ∃ t', w'.teams[id]? = some t' ∧ t.Same t'

/-! ## How arrays of objects grow -/

section Grown

variable {α : Type} {same : α → α → Prop} {bounded : α → Prop} {xs ys : Array α}

/-- Every object stays in its place, the same and within its bounds if it was, and new ones are within them. -/
structure Grown (same : α → α → Prop) (bounded : α → Prop) (xs ys : Array α) : Prop where
  old : ∀ (i : Nat) (x : α), xs[i]? = some x → ∃ y, ys[i]? = some y ∧ same x y ∧ (bounded x → bounded y)
  new : ∀ (i : Nat) (y : α), xs[i]? = none → ys[i]? = some y → bounded y

theorem Grown.refl (hsame : ∀ x, same x x) (xs : Array α) : Grown same bounded xs xs := by
  constructor
  · intro i x hx
    exact ⟨x, hx, hsame x, id⟩
  · intro i y hnone hy
    rw [hnone] at hy
    cases hy

theorem Grown.push (hsame : ∀ x, same x x) (xs : Array α) {y : α} (hy : bounded y) :
    Grown same bounded xs (xs.push y) := by
  constructor
  · intro i x hx
    have hi : i ≠ xs.size := by
      rintro rfl
      simp at hx
    exact ⟨x, by rw [Array.getElem?_push, if_neg hi, hx], hsame x, id⟩
  · intro i y' hnone hy'
    rw [Array.getElem?_push] at hy'
    split at hy'
    · cases hy'
      exact hy
    · rw [hnone] at hy'
      cases hy'

theorem Grown.modify (hsame : ∀ x, same x x) (xs : Array α) (id : Nat) {change : α → α}
    (hchange : ∀ x, xs[id]? = some x → same x (change x) ∧ (bounded x → bounded (change x))) :
    Grown same bounded xs (xs.modify id change) := by
  constructor
  · intro i x hx
    rw [Array.getElem?_modify, hx]
    by_cases hi : id = i
    · subst hi
      exact ⟨change x, by simp, hchange x hx⟩
    · exact ⟨x, by simp [hi], hsame x, fun h => h⟩
  · intro i y hnone hy
    rw [Array.getElem?_modify, hnone] at hy
    split at hy <;> cases hy

theorem Grown.bounded_of_mem (h : Grown same bounded xs ys) (hxs : ∀ x ∈ xs, bounded x) {y : α}
    (hy : y ∈ ys) : bounded y := by
  obtain ⟨i, hi⟩ := Array.mem_iff_getElem?.1 hy
  cases hx : xs[i]? with
  | none => exact h.new i y hx hi
  | some x =>
      obtain ⟨y', hy', -, hbounded⟩ := h.old i x hx
      obtain rfl : y = y' := by
        rw [hi] at hy'
        exact Option.some.inj hy'
      exact hbounded (hxs x (Array.mem_of_getElem? hx))

end Grown

/-! ## One update -/

theorem World.zone_eq {w : World} {id : Nat} {z : Zone} (h : w.zones[id]? = some z) : w.zone id = z := by
  rw [World.zone, Array.getD_eq_getD_getElem?, h]
  rfl

theorem World.zone_modifyZone {w : World} {id : Nat} (h : id < w.zones.size) (change : Zone → Zone) (i : Nat) :
    (w.modifyZone id change).zone i = if i = id then change (w.zone i) else w.zone i := by
  unfold modifyZone zone
  rw [Array.getD_eq_getD_getElem?, Array.getD_eq_getD_getElem?, Array.getElem?_modify]
  by_cases hi : i = id
  · subst hi
    simp [h]
  · rw [if_neg hi, if_neg (Ne.symm hi)]

theorem World.lt_size_of_zone_ne {w : World} {id : Nat} (h : w.zone id ≠ default) : id < w.zones.size := by
  refine Nat.lt_of_not_le fun hid => h ?_
  unfold zone
  rw [Array.getD_eq_getD_getElem?, Array.getElem?_eq_none hid]
  rfl

theorem World.team_eq {w : World} {id : Nat} {t : Team} (h : w.teams[id]? = some t) : w.team id = t := by
  rw [World.team, Array.getD_eq_getD_getElem?, h]
  rfl

theorem Zone.Same.refl (z : Zone) : z.Same z := ⟨rfl, rfl⟩

theorem Team.Same.refl (t : Team) : t.Same t := ⟨rfl, rfl⟩

theorem Zone.Change.same {z z' : Zone} (h : z.Change z') : z.Same z' := by
  cases h <;> exact ⟨rfl, rfl⟩

theorem Zone.Change.bounded {z z' : Zone} (h : z.Change z') (hz : z.Bounded) : z'.Bounded := by
  cases h with
  | setBalls n natural => exact { hz with balls := natural }
  | setTurns n natural => exact { hz with turns := natural }
  | spendBall left => exact { hz with balls := by show 0 ≤ z.balls - 1; omega }
  | spendTurn left => exact { hz with turns := by show 0 ≤ z.turns - 1; omega }
  | reset => exact { hz with balls := hz.initialBalls, turns := hz.initialTurns }

/-- A list of Pokemon that fits into a team is within the bounds of the team. -/
theorem Team.Bounded.pokemon_of_fits {w : World} {id : Nat} {t : Team} {names : List String} (ht : t.Bounded)
    (hid : w.teams[id]? = some t) (fits : w.Fits (.team id) names) :
    Team.Bounded { t with pokemon := names } := by
  have hteam : w.team id = t := World.team_eq hid
  refine ⟨ht.maxSize, ?_⟩
  show (names.length : Int) ≤ t.maxSize
  -- no longer than before, or checked against the size of the team
  rcases fits with hshorter | hroom
  · have hlength : names.length ≤ t.pokemon.length := by
      rw [← hteam]
      exact hshorter
    have hpokemon := ht.pokemon
    omega
  · have hcapacity := hroom (w.team id).maxSize rfl
    rw [hteam] at hcapacity
    exact hcapacity

theorem CatchRates.Bounded.setSpecies {rates : CatchRates} (h : rates.Bounded) (name : String) {rate : Int}
    (hrate : Percent rate) : (rates.setSpecies name rate).Bounded := by
  refine ⟨h.overall, fun entry hentry => ?_⟩
  rcases List.mem_cons.1 hentry with rfl | hentry
  · exact hrate
  · exact h.species entry (List.mem_filter.1 hentry).1

theorem Update.zones {code : List Stmt → Prop} {w w' : World} (h : Update code w w') :
    Grown Zone.Same Zone.Bounded w.zones w'.zones := by
  cases h with
  | newZone balls turns balls_natural turns_natural =>
      exact .push Zone.Same.refl w.zones ⟨balls_natural, turns_natural, balls_natural, turns_natural⟩
  | changeZone id change allowed =>
      -- without a zone of that number nothing changes, so the zone that is read is the one that is changed
      refine .modify Zone.Same.refl w.zones id fun z hz => ?_
      rw [World.zone_eq hz] at allowed
      exact ⟨allowed.same, allowed.bounded⟩
  | changePokemon owner change fits =>
      cases owner with
      | zone id =>
          show Grown _ _ w.zones (w.zones.modify id fun z => { z with pokemon := change z.pokemon })
          refine .modify Zone.Same.refl w.zones id fun z _ => ⟨⟨rfl, rfl⟩, fun hz => ?_⟩
          exact ⟨hz.balls, hz.turns, hz.initialBalls, hz.initialTurns⟩
      | team id => exact .refl Zone.Same.refl w.zones
  | _ => exact .refl Zone.Same.refl w.zones

theorem Update.teams {code : List Stmt → Prop} {w w' : World} (h : Update code w w') :
    Grown Team.Same Team.Bounded w.teams w'.teams := by
  cases h with
  | newTeam trainerName maxSize room =>
      refine .push Team.Same.refl w.teams ⟨room, ?_⟩
      show (0 : Int) ≤ maxSize
      omega
  | changePokemon owner change fits =>
      cases owner with
      | zone id => exact .refl Team.Same.refl w.teams
      | team id =>
          show Grown _ _ w.teams (w.teams.modify id fun t => { t with pokemon := change t.pokemon })
          refine .modify Team.Same.refl w.teams id fun t ht => ⟨⟨rfl, rfl⟩, fun hbounded => ?_⟩
          have hpokemon : w.pokemon (.team id) = t.pokemon := by
            show (w.team id).pokemon = t.pokemon
            rw [World.team_eq ht]
          rw [hpokemon] at fits
          exact hbounded.pokemon_of_fits ht fits
  | _ => exact .refl Team.Same.refl w.teams

theorem Update.rates {code : List Stmt → Prop} {w w' : World} (h : Update code w w') (hw : w.rates.Bounded) :
    w'.rates.Bounded := by
  cases h with
  | setRate rate percent => exact ⟨⟨rate, rfl, percent⟩, hw.species⟩
  | setSpeciesRate name rate percent => exact hw.setSpecies name percent
  | changePokemon owner change fits =>
      rw [World.modifyPokemon_rates]
      exact hw
  | _ => exact hw

/-! ## Moves -/

/-- The world moves by an elementary update, or by setting a register. -/
inductive Move : World → World → Prop
  | update {code : List Stmt → Prop} {w w' : World} (update : Update code w w') : Move w w'
  | setScope (w : World) (scope : Nat) : Move w { w with scope }
  | setRunning (w : World) (running : Nat) : Move w { w with running }

/-- The world moves from one state to another, by any number of moves. -/
def Reaches : World → World → Prop := Relation.ReflTransGen Move

theorem Move.bounded {w w' : World} (h : Move w w') (hw : w.Bounded) : w'.Bounded := by
  cases h with
  | update update =>
      constructor
      · exact fun z hz => update.zones.bounded_of_mem hw.zones hz
      · exact fun t ht => update.teams.bounded_of_mem hw.teams ht
      · exact update.rates hw.rates
  | setScope scope => exact ⟨hw.zones, hw.teams, hw.rates⟩
  | setRunning running => exact ⟨hw.zones, hw.teams, hw.rates⟩

theorem World.Kept.refl (w : World) : w.Kept w :=
  ⟨fun _ z hz => ⟨z, hz, .refl z⟩, fun _ t ht => ⟨t, ht, .refl t⟩⟩

theorem World.Kept.trans {w₁ w₂ w₃ : World} (h₁ : w₁.Kept w₂) (h₂ : w₂.Kept w₃) : w₁.Kept w₃ := by
  constructor
  · intro id z hz
    obtain ⟨z', hz', hsame'⟩ := h₁.zones id z hz
    obtain ⟨z'', hz'', hsame''⟩ := h₂.zones id z' hz'
    exact ⟨z'', hz'', hsame''.1.trans hsame'.1, hsame''.2.trans hsame'.2⟩
  · intro id t ht
    obtain ⟨t', ht', hsame'⟩ := h₁.teams id t ht
    obtain ⟨t'', ht'', hsame''⟩ := h₂.teams id t' ht'
    exact ⟨t'', ht'', hsame''.1.trans hsame'.1, hsame''.2.trans hsame'.2⟩

theorem Move.kept {w w' : World} (h : Move w w') : w.Kept w' := by
  cases h with
  | update update =>
      constructor
      · intro id z hz
        obtain ⟨z', hz', hsame, -⟩ := update.zones.old id z hz
        exact ⟨z', hz', hsame⟩
      · intro id t ht
        obtain ⟨t', ht', hsame, -⟩ := update.teams.old id t ht
        exact ⟨t', ht', hsame⟩
  | setScope scope => exact ⟨(World.Kept.refl w).zones, (World.Kept.refl w).teams⟩
  | setRunning running => exact ⟨(World.Kept.refl w).zones, (World.Kept.refl w).teams⟩

theorem Reaches.bounded {w w' : World} (h : Reaches w w') (hw : w.Bounded) : w'.Bounded := by
  induction h with
  | refl => exact hw
  | tail _ move ih => exact move.bounded ih

theorem Reaches.kept {w w' : World} (h : Reaches w w') : w.Kept w' := by
  induction h with
  | refl => exact .refl w
  | tail _ move ih => exact ih.trans move.kept

/-- An effect is a sequence of moves: to run in another scope is to set the register before and after. -/
theorem Effect.reaches {code : List Stmt → Prop} {w w' : World} (h : Effect code w w') : Reaches w w' := by
  induction h with
  | refl w => exact .refl
  | update update => exact .single (.update update)
  | trans _ _ ih₁ ih₂ => exact ih₁.trans ih₂
  | @inScope w w' scope _ _ ih => exact (ih.head (.setScope w scope)).tail (.setScope w' w.scope)
  | @running w w' _ ih => exact (ih.head (.setRunning w _)).tail (.setRunning w' _)

/-! ## Runs -/

/-- The world after some programs, each run with or without echo and ended in whatever way. -/
def World.afterAll (w : World) (budget room : Nat) (programs : List (Bool × Program)) : World :=
  programs.foldl (fun w (echo, program) => w.after (Eval.interpretWithin budget room echo program)) w

theorem World.reaches_eval (w : World) (budget room : Nat) (e : Expr) :
    Reaches w (w.after (Eval.eval budget room e)) :=
  (w.effect_eval budget room e).reaches

theorem World.reaches_exec (w : World) (budget room : Nat) (s : Stmt) :
    Reaches w (w.after (Eval.exec budget room s)) :=
  (w.effect_exec budget room s).reaches

theorem World.reaches_afterAll (w : World) (budget room : Nat) (programs : List (Bool × Program)) :
    Reaches w (w.afterAll budget room programs) := by
  induction programs generalizing w with
  | nil => exact .refl
  | cons first rest ih =>
      have hfirst : Reaches w (w.after (Eval.interpretWithin budget room first.1 first.2)) :=
        (w.effect_interpretWithin budget room first.1 first.2).reaches
      exact hfirst.trans (ih (w.after (Eval.interpretWithin budget room first.1 first.2)))

theorem bounded_initial (chance : Random.Source) (input : List String) {rate : Int} (hrate : Percent rate) :
    (World.initial chance (.uniform rate) input).Bounded := by
  constructor
  · exact fun z hz => absurd hz (Array.not_mem_empty z)
  · exact fun t ht => absurd ht (Array.not_mem_empty t)
  · exact ⟨⟨rate, rfl, hrate⟩, fun entry hentry => absurd hentry List.not_mem_nil⟩

/-- Let the overall rate be in percent before anything is run. In every world that is reached, all objects and
rates are within their bounds, and later on every object is still as it was made; and whatever expression,
statement or programs are run there, however that ends, it leads to a world that is reached again. -/
theorem reached_bounded (chance : Random.Source) (input : List String) {rate : Int} (hrate : Percent rate) :
    let start := World.initial chance (.uniform rate) input
    ∀ w, Reaches start w →
      w.Bounded ∧
      (∀ w', Reaches w w' → w.Kept w') ∧
      ∀ budget room,
        (∀ e, Reaches w (w.after (Eval.eval budget room e))) ∧
        (∀ s, Reaches w (w.after (Eval.exec budget room s))) ∧
        ∀ programs, Reaches w (w.afterAll budget room programs) := by
  intro start w hw
  have hbounded : w.Bounded := Reaches.bounded hw (bounded_initial chance input hrate)
  refine ⟨hbounded, fun w' hw' => Reaches.kept hw', fun budget room => ⟨?_, ?_, ?_⟩⟩
  · exact fun e => w.reaches_eval budget room e
  · exact fun s => w.reaches_exec budget room s
  · exact fun programs => w.reaches_afterAll budget room programs

/-- A zone with two balls and three turns, one ball of which is spent before a negative number of turns is
refused. -/
theorem reached_bounded_spent :
    let start := World.initial (.ofScript []) (.uniform 100) []
    let zone : Expr := .construct .safariZone 1 [.literal (.int 2), .literal (.int 3)] []
    let negative : Expr := .unary .negate 3 (.literal (.int 1))
    let w := start.afterAll 5 40
      [(false, ⟨[.var ⟨"z", 1⟩ (some zone), .expr (.method (.ident ⟨"z", 2⟩) ⟨"useBall", 2⟩ [] []),
        .expr (.setProperty (.ident ⟨"z", 3⟩) ⟨"turns", 3⟩ negative)]⟩)]
    Percent 100 ∧ w.zones = #[⟨2, 3, 1, 3, []⟩] ∧ w.Bounded := by
  intro start zone negative w
  have hrate : Percent 100 := ⟨by decide, by decide⟩
  have hbounded := reached_bounded (.ofScript []) [] hrate
  have hw : Reaches start w := ((hbounded start .refl).2.2 5 40).2.2 _
  exact ⟨hrate, by decide +kernel, (hbounded w hw).1⟩

end SafariScript
