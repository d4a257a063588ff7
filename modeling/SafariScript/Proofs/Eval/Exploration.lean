import SafariScript.Proofs.Chance
import SafariScript.Proofs.Eval.ObjectBounds
import SafariScript.Proofs.Eval.Passes

/-!
# Exploring a zone

Before each pass an exploration takes one turn of the zone and meets one of the Pokemon that are there (`Meets`). The
body may catch or add Pokemon, change the turns of the zone or have all of them again, and it may give other values to
the variable of the zone and to that of the encounter; the number of the zone is settled when the exploration begins.

`Closing` tells for every way in which the passes can come to an end what is printed then. Which of them it is follows
from the last pass and from the zone that it leaves (`exists_encounters`); here it matters that the turns of a zone are
never negative in a world that is reached. As a turn is taken before every pass, an exploration whose body adds no
turns comes to its end (`explore_meets_until_over`).
-/

namespace SafariScript

open Eval

/-- A turn of a zone is taken. -/
def World.turned (w : World) (zone : Nat) : World :=
  w.modifyZone zone fun z => { z with turns := z.turns - 1 }

/-- The world in which a pass begins that meets a Pokemon. -/
def World.meeting (w : World) (line : Int) (zone : Nat) (name : String) : World :=
  { w.turned zone with
    scopes := w.scopes.replace w.scope encounterName (.text name)
    chance := (w.chance.draw (w.zone zone).pokemon.length).2
    log := w.log.push (.encountered line name ((w.zone zone).turns - 1)) }

/-- Before a pass there is a turn left and it is taken, and the encounter is one of the Pokemon of the zone. -/
structure Meets (line : Int) (zone own : Nat) (w start : World) : Prop where
  left : 0 < (w.zone zone).turns
  turns : (start.zone zone).turns = (w.zone zone).turns - 1
  scope : start.scope = own
  met : ∃ name ∈ (w.zone zone).pokemon, start = w.meeting line zone name ∧
    start.scopes.local? own encounterName = some (.text name)

/-- The end of an exploration after so many passes, of at most so many: what left the last pass and the world that it
leaves, what leaves the exploration and the world at its end. -/
inductive Closing (zone passes budget : Nat) : Option Interrupt → World → Option Interrupt → World → Prop
  | spent {w : World} (spent : (w.zone zone).turns = 0) :
      Closing zone passes budget none w none (w.writeLine "Explore: Out of turns!")
  | deserted {w : World} (left : 0 < (w.zone zone).turns) (empty : (w.zone zone).pokemon = []) :
      Closing zone passes budget none w none ((w.turned zone).writeLine "No Pokemon left to encounter!")
  | brokenSpent {w : World} (spent : (w.zone zone).turns = 0) :
      Closing zone passes budget (some .breakLoop) w none (w.writeLine "Explore: Out of turns!")
  | broken {w : World} (left : 0 < (w.zone zone).turns) : Closing zone passes budget (some .breakLoop) w none w
  | ran (w : World) : Closing zone passes budget (some .run) w none w
  | interrupted {e : Interrupt} (w : World) (uncaught : outside (some e) = some e) :
      Closing zone passes budget (some e) w (some e) w
  | unfinished (w : World) (exhausted : budget ≤ passes) : Closing zone passes budget none w (some .endless) w

theorem Closing.succ {zone passes budget : Nat} {ending stop : Option Interrupt} {w final : World}
    (h : Closing zone passes budget ending w stop final) :
    Closing zone (passes + 1) (budget + 1) ending w stop final := by
  cases h with
  | spent spent => exact .spent spent
  | deserted left empty => exact .deserted left empty
  | brokenSpent spent => exact .brokenSpent spent
  | broken left => exact .broken left
  | ran w => exact .ran w
  | interrupted w uncaught => exact .interrupted w uncaught
  | unfinished w exhausted => exact .unfinished w (Nat.succ_le_succ exhausted)

/-! ## Zones of a world that is reached -/

/-- All zones are within their bounds. -/
def World.ZonesBounded (w : World) : Prop :=
  ∀ z ∈ w.zones, z.Bounded

section Zones

variable {w w' : World} {zone : Nat}

theorem World.zonesBounded_initial (chance : Random.Source) (rates : CatchRates) (input : List String) :
    (World.initial chance rates input).ZonesBounded :=
  fun z hz => absurd hz (Array.not_mem_empty z)

theorem World.ZonesBounded.of_update {code : List Stmt → Prop} (hw : w.ZonesBounded) (h : Update code w w') :
    w'.ZonesBounded :=
  fun _ hz => h.zones.bounded_of_mem hw hz

theorem World.ZonesBounded.of_reaches (hw : w.ZonesBounded) (h : Reaches w w') : w'.ZonesBounded := by
  induction h with
  | refl => exact hw
  | tail _ move ih =>
      cases move with
      | update update => exact ih.of_update update
      | setScope | setRunning => exact ih

theorem World.ZonesBounded.turns_nonneg (hw : w.ZonesBounded) (zone : Nat) : 0 ≤ (w.zone zone).turns := by
  cases hz : w.zones[zone]? with
  | some z =>
      rw [World.zone_eq hz]
      exact (hw z (Array.mem_of_getElem? hz)).turns
  | none =>
      unfold World.zone
      rw [Array.getD_eq_getD_getElem?, hz]
      exact Int.le_refl 0

/-- The turns are spent, or there is one left and nobody to meet, or somebody. -/
theorem World.ZonesBounded.turn_cases (hw : w.ZonesBounded) (zone : Nat) :
    (w.zone zone).turns = 0 ∨
    (0 < (w.zone zone).turns ∧ (w.zone zone).pokemon = []) ∨
    (0 < (w.zone zone).turns ∧ (w.zone zone).pokemon ≠ []) := by
  have hnonneg := hw.turns_nonneg zone
  by_cases left : 0 < (w.zone zone).turns
  · by_cases empty : (w.zone zone).pokemon = []
    · exact Or.inr (Or.inl ⟨left, empty⟩)
    · exact Or.inr (Or.inr ⟨left, empty⟩)
  · exact Or.inl (by omega)

theorem lt_size_of_turns (h : 0 < (w.zone zone).turns) : zone < w.zones.size := by
  refine World.lt_size_of_zone_ne fun hdefault => ?_
  rw [hdefault] at h
  exact absurd h (by decide)

theorem zone_turned (h : 0 < (w.zone zone).turns) :
    (w.turned zone).zone zone = { w.zone zone with turns := (w.zone zone).turns - 1 } := by
  rw [World.turned, World.zone_modifyZone (lt_size_of_turns h), if_pos rfl]

theorem World.ZonesBounded.turned (hw : w.ZonesBounded) (h : 0 < (w.zone zone).turns) :
    (w.turned zone).ZonesBounded := by
  have hupdate : Update (fun _ => True) w (w.turned zone) := .changeZone zone _ (.spendTurn h)
  exact hw.of_update hupdate

end Zones

/-! ## The passes -/

/-- What is printed at the end of an exploration. -/
def announce (zone : Nat) : Outcome → Eval Unit
  | .deserted => say "No Pokemon left to encounter!"
  | .left => pure ()
  | .over => do
    if ((← get).zone zone).turns = 0 then say "Explore: Out of turns!"

theorem exploreLoop_eq (line : Int) (zone : Nat) (body : Eval Unit) (budget : Nat) :
    exploreLoop line zone body budget = (do
      let scope ← enterHere
      inScope scope (do
        declare ⟨encounterName, 0⟩ .null
        explorePasses line zone body budget >>= announce zone)) := by
  rfl

/-- However a block ends, it leads to a world that is reached. -/
theorem reaches_block (w : World) (budget room : Nat) (body : List Stmt) :
    Reaches w (w.after (inBlock (body.forM (exec budget room)))) := by
  have hbody := (keeps .anywhere budget room).execAll (Placement.le_refl _) body (Stmt.placedAll_anywhere body)
  exact (safe_inBlock hbody w w.sane).effect_after.reaches

section Passes

variable {line : Int} {zone own budget : Nat} {body : Eval Unit} {w : World}

theorem explorePasses_spent (spent : (w.zone zone).turns ≤ 0) :
    explorePasses line zone body (budget + 1) w = .ok .over w := by
  unfold explorePasses
  rw [bind_of_ok (get_apply w)]
  dsimp only
  rw [if_pos spent]
  rfl

theorem announce_spent (spent : (w.zone zone).turns = 0) :
    announce zone .over w = .ok () (w.writeLine "Explore: Out of turns!") := by
  rw [announce, bind_of_ok (get_apply w), if_pos spent]
  rfl

theorem announce_left (left : 0 < (w.zone zone).turns) : announce zone .over w = .ok () w := by
  rw [announce, bind_of_ok (get_apply w), if_neg (by omega)]
  rfl

/-- While there are turns, one is taken first. -/
theorem explorePasses_of_pos (left : 0 < (w.zone zone).turns) :
    explorePasses line zone body (budget + 1) w = (do
      if (w.zone zone).pokemon.isEmpty then return .deserted
      let met ← choose (w.zone zone).pokemon
      note (.encountered line met ((w.zone zone).turns - 1))
      assign ⟨encounterName, 0⟩ (.text met)
      match ← once body with
      | some outcome => return outcome
      | none => explorePasses line zone body budget : Eval Outcome) (w.turned zone) := by
  have hpokemon : ((w.turned zone).zone zone).pokemon = (w.zone zone).pokemon := by
    rw [zone_turned left]
  rw [explorePasses, bind_of_ok (get_apply w)]
  dsimp only
  rw [if_neg (by omega), ← hpokemon]
  rfl

theorem explorePasses_deserted (left : 0 < (w.zone zone).turns) (empty : (w.zone zone).pokemon = []) :
    explorePasses line zone body (budget + 1) w = .ok .deserted (w.turned zone) := by
  rw [explorePasses_of_pos left, empty]
  rfl

/-- While there are turns and Pokemon, one of them is met and a pass begins. -/
theorem explorePasses_meeting (line : Int) (body : Eval Unit) (budget : Nat) (hw : w.AtLoop own encounterName)
    (left : 0 < (w.zone zone).turns) (inhabited : (w.zone zone).pokemon ≠ []) :
    ∃ name ∈ (w.zone zone).pokemon, (w.meeting line zone name).AtLoop own encounterName ∧
      (w.meeting line zone name).scopes.local? own encounterName = some (.text name) ∧
      explorePasses line zone body (budget + 1) w = (do
        match ← once body with
        | some outcome => return outcome
        | none => explorePasses line zone body budget : Eval Outcome) (w.meeting line zone name) := by
  obtain ⟨name, hname, hchoose⟩ := exists_choose inhabited (w.turned zone)
  have hscopes : (w.meeting line zone name).scopes = w.scopes.replace own encounterName (.text name) := by
    rw [← hw.scope]
    rfl
  obtain ⟨hloop, hvalue⟩ : (w.meeting line zone name).AtLoop own encounterName ∧
      (w.meeting line zone name).scopes.local? own encounterName = some (.text name) := hw.of_scopes rfl hscopes
  refine ⟨name, hname, hloop, hvalue, ?_⟩
  rw [explorePasses_of_pos left, if_neg (by simpa using inhabited), bind_of_ok hchoose]
  -- the encounter is assigned in the scope of the exploration
  let chosen : World :=
    { w.turned zone with
      chance := (w.chance.draw (w.zone zone).pokemon.length).2
      log := w.log.push (.encountered line name ((w.zone zone).turns - 1)) }
  have hchosen : chosen.AtLoop own encounterName := ⟨hw.scope, hw.names⟩
  have hassign : assign ⟨encounterName, 0⟩ (.text name) chosen = .ok () (w.meeting line zone name) := by
    rw [World.AtLoop.assign_eq hchosen, ← hw.scope]
    rfl
  exact bind_of_ok hassign _

/-- How a pass ends decides what follows. -/
theorem explorePasses_met (line : Int) (body : Eval Unit) (budget : Nat) (hw : w.AtLoop own encounterName)
    (left : 0 < (w.zone zone).turns) (inhabited : (w.zone zone).pokemon ≠ []) :
    ∃ start, Meets line zone own w start ∧ start.AtLoop own encounterName ∧
      (explorePasses line zone body (budget + 1) >>= announce zone) w = (do
        match ← once body with
        | some outcome => announce zone outcome
        | none => explorePasses line zone body budget >>= announce zone : Eval Unit) start := by
  obtain ⟨name, hname, hloop, hvalue, hpass⟩ := explorePasses_meeting line body budget hw left inhabited
  refine ⟨w.meeting line zone name, ⟨left, ?_, hloop.scope, name, hname, rfl, hvalue⟩, hloop, ?_⟩
  · show ((w.turned zone).zone zone).turns = _
    rw [zone_turned left]
  · rw [bind_apply, hpass, ← bind_apply, bind_assoc]
    refine congrFun (congrArg (once body >>= ·) (funext fun outcome => ?_)) (w.meeting line zone name)
    cases outcome <;> rfl

theorem Meets.zonesBounded {start : World} (h : Meets line zone own w start) (hw : w.ZonesBounded) :
    start.ZonesBounded := by
  obtain ⟨name, -, rfl, -⟩ := h.met
  exact hw.turned h.left

/-- What follows a pass that was left by `break` in a world in which turns are not negative. -/
theorem closing_of_break (hzones : w.ZonesBounded) (passes : Nat) :
    ∃ final, Closing zone passes budget (some .breakLoop) w none final ∧ announce zone .over w = .ok () final := by
  rcases hzones.turn_cases zone with spent | ⟨left, -⟩ | ⟨left, -⟩
  · exact ⟨_, .brokenSpent spent, announce_spent spent⟩
  · exact ⟨w, .broken left, announce_left left⟩
  · exact ⟨w, .broken left, announce_left left⟩

/-- From wherever an exploration stands, it meets a Pokemon before each of the passes that follow, and `Closing` tells
what comes behind the last one. -/
theorem exists_encounters (line : Int) (zone budget : Nat) (hbody : Confined false body)
    (hreaches : ∀ w : World, Reaches w (w.after body)) (hw : w.AtLoop own encounterName) (hzones : w.ZonesBounded) :
    ∃ starts ending w' stop final, Laps (Meets line zone own) body w starts ending w' ∧
      Closing zone starts.length budget ending w' stop final ∧
      (explorePasses line zone body budget >>= announce zone) w = ended stop final := by
  induction budget generalizing w with
  | zero => exact ⟨[], none, w, some .endless, w, .done w, .unfinished w (Nat.le_refl 0), rfl⟩
  | succ budget ih =>
      rcases hzones.turn_cases zone with spent | ⟨left, empty⟩ | ⟨left, inhabited⟩
      · refine ⟨[], none, w, none, _, .done w, .spent spent, ?_⟩
        rw [bind_of_ok (explorePasses_spent (Int.le_of_eq spent))]
        exact announce_spent spent
      · refine ⟨[], none, w, none, _, .done w, .deserted left empty, ?_⟩
        rw [bind_of_ok (explorePasses_deserted left empty)]
        rfl
      · obtain ⟨start, hmeets, hstart, hpass⟩ := explorePasses_met line body budget hw left inhabited
        have hafter : (start.after body).ZonesBounded := (hmeets.zonesBounded hzones).of_reaches (hreaches start)
        rw [hpass]
        rcases once_cases body start with
          ⟨hgoes, honce⟩ | ⟨hleft, honce⟩ | ⟨hleft, honce⟩ | ⟨e, hleft, hgoes, hout, honce⟩
        · -- the rest is an exploration from where the pass has ended
          obtain ⟨starts, ending, w', stop, final, hlaps, hclosing, hlater⟩ := ih (hstart.after hbody) hafter
          refine ⟨start :: starts, ending, w', stop, final, .pass hmeets hgoes hlaps, hclosing.succ, ?_⟩
          rw [bind_of_ok honce]
          exact hlater
        · obtain ⟨final, hclosing, hannounce⟩ := closing_of_break hafter 1
          refine ⟨[start], _, _, none, final, .left hmeets hleft rfl, hclosing, ?_⟩
          rw [bind_of_ok honce]
          exact hannounce
        · refine ⟨[start], _, _, none, _, .left hmeets hleft rfl, .ran _, ?_⟩
          rw [bind_of_ok honce]
          rfl
        · refine ⟨[start], _, _, some e, _, .left hmeets hleft hgoes, .interrupted _ hout, ?_⟩
          exact bind_eq_error.2 (Or.inl honce)

end Passes

theorem exploredZone_of_get? {name : Word} {zone : Nat} {w : World}
    (h : w.scopes.get? w.scope name.text = some (.object (.zone zone))) : exploredZone name w = .ok zone w := by
  unfold exploredZone
  rw [bind_of_ok (lookup_of_get? h)]
  rfl

/-- Let a world be reached from any beginning, and let a variable hold a zone there. Exploring it takes one turn before
each pass and gives the encounter, in a scope that was not there before, the name of a Pokemon that is in the zone at
that moment. What is printed at the end is told by `Closing`. If no pass leaves more turns than it began with, there
are not more passes than the zone had turns; so, with a budget that allows for these, the exploration ends if each
pass does. -/
theorem explore_meets_until_over (budget room : Nat) (line : Int) (zone : Word) (body : List Stmt)
    {chance : Random.Source} {rates : CatchRates} {input : List String} {w : World} {id : Nat}
    (hw : Reaches (World.initial chance rates input) w)
    (hzone : w.scopes.get? w.scope zone.text = some (.object (.zone id))) :
    let explore := exec budget (room + 6) (.explore line zone body)
    let block := inBlock (body.forM (exec budget (room + 1)))
    ∃ starts ending w' stop final,
      Laps (Meets line id w.scopes.all.size) block (w.opened encounterName) starts ending w' ∧
      Closing id starts.length budget ending w' stop final ∧
      explore w = ended stop { final with scope := w.scope } ∧
      ((∀ start ∈ starts, ((start.after block).zone id).turns ≤ (start.zone id).turns) →
        (starts.length : Int) ≤ (w.zone id).turns ∧
        ((w.zone id).turns < budget → (∀ start ∈ starts, start.ending block ≠ some .endless) →
          stop ≠ some .endless)) := by
  intro explore block
  have hzones : w.ZonesBounded := (World.zonesBounded_initial chance rates input).of_reaches hw
  have hbody : Confined false block := confined_block budget (room + 1) body
  have hreaches (w : World) : Reaches w (w.after block) := reaches_block w budget (room + 1) body
  obtain ⟨starts, ending, w', stop, final, hlaps, hclosing, hrun⟩ :=
    exists_encounters line id budget hbody hreaches (w.atLoop_opened encounterName) hzones
  have hexplore : explore w = ended stop { final with scope := w.scope } := by
    have hloop : explore w = exploreLoop line id block budget w := by
      show (exploredZone zone >>= fun id => exploreLoop line id block budget) w = _
      rw [bind_of_ok (exploredZone_of_get? hzone)]
    rw [hloop, exploreLoop_eq, inOwnScope_apply, hrun, onWorld_ended]
  refine ⟨starts, ending, w', stop, final, hlaps, hclosing, hexplore, fun hturns => ?_⟩
  have hpasses : (starts.length : Int) ≤ (w.zone id).turns := by
    have hmax : (starts.length : Int) ≤ max (w.zone id).turns 0 :=
      hlaps.length_le (fun w => (w.zone id).turns) (fun _ _ h => ⟨h.left, h.turns⟩) hturns
    rwa [Int.max_eq_left (hzones.turns_nonneg id)] at hmax
  refine ⟨hpasses, fun hbudget hfinishes hendless => ?_⟩
  cases hclosing with
  | interrupted w uncaught =>
      obtain ⟨start, hstart, hleft⟩ := hlaps.exists_of_ending_eq_some hendless
      exact hfinishes start hstart hleft
  | unfinished w exhausted => omega
  | _ => cases hendless

/-- A zone with three turns and one Pokemon, which the first pass catches before it gives other values to the variable
of the zone and to that of the encounter. The second turn is taken in vain. -/
theorem explore_meets_until_over_deserted :
    let zone : Expr := .construct .safariZone 1 [.literal (.int 2), .literal (.int 3)] []
    let pokemon : Expr := .property (.ident ⟨"z", 2⟩) ⟨"pokemon", 2⟩
    let beginning := World.initial (.ofScript []) (.uniform 50) []
    let w := beginning.afterAll 5 60
      [(false, ⟨[.var ⟨"z", 1⟩ (some zone), .expr (.method pokemon ⟨"add", 2⟩ [.literal (.text "Eevee")] [])]⟩)]
    let body : List Stmt := [.throwBall 4 (.ident ⟨"z", 4⟩), .expr (.assign ⟨"z", 5⟩ (.literal .null)),
      .expr (.assign ⟨"encounter", 6⟩ (.literal .null))]
    let explore := exec 5 60 (.explore 3 ⟨"z", 3⟩ body)
    Reaches beginning w ∧
      w.scopes.get? w.scope "z" = some (.object (.zone 0)) ∧
      (w.after explore).output = "Caught a Eevee!\nNo Pokemon left to encounter!\n" ∧
      (w.after explore).zones = #[⟨2, 3, 2, 1, []⟩] ∧
      ∃ starts ending w' stop final,
        Laps (Meets 3 0 1) (inBlock (body.forM (exec 5 55))) (w.opened "encounter") starts ending w' ∧
        Closing 0 starts.length 5 ending w' stop final ∧ explore w = ended stop { final with scope := w.scope } := by
  intro zone pokemon beginning w body explore
  have hreached : Reaches beginning w := beginning.reaches_afterAll 5 60 _
  have hget : w.scopes.get? w.scope "z" = some (.object (.zone 0)) := by decide +kernel
  have hsize : w.scopes.all.size = 1 := by decide +kernel
  obtain ⟨starts, ending, w', stop, final, hlaps, hclosing, hexplore, -⟩ :=
    explore_meets_until_over 5 54 3 ⟨"z", 3⟩ body hreached hget
  rw [hsize] at hlaps
  exact ⟨hreached, hget, by decide +kernel, by decide +kernel, starts, ending, w', stop, final, hlaps, hclosing,
    hexplore⟩

end SafariScript
