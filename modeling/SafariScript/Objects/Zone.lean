import SafariScript.Text.Integer

/-!
# Safari zones

A zone has so many balls and turns, and Pokemon in the order in which they were added.
-/

namespace SafariScript

/-- A zone: what it started with, what is left, and its Pokemon. -/
structure Zone where
  initialBalls : Int
  initialTurns : Int
  balls : Int
  turns : Int
  pokemon : List String
deriving DecidableEq, Inhabited

namespace Zone

/-- A fresh zone without Pokemon. -/
def create (balls turns : Int) : Zone :=
  ⟨balls, turns, balls, turns, []⟩

/-- Spend a ball, if one is left. -/
def spendBall? (z : Zone) : Option Zone :=
  if z.balls ≤ 0 then none else some { z with balls := z.balls - 1 }

/-- Spend a turn, if one is left. -/
def spendTurn? (z : Zone) : Option Zone :=
  if z.turns ≤ 0 then none else some { z with turns := z.turns - 1 }

/-- Have all balls and turns again. -/
def reset (z : Zone) : Zone :=
  { z with balls := z.initialBalls, turns := z.initialTurns }

/-- Nothing is left to throw or no turn to do it. -/
def isGameOver (z : Zone) : Bool :=
  z.balls ≤ 0 || z.turns ≤ 0

/-- A zone as text, unless one of its numbers is too long to be written. -/
def text? (z : Zone) : Option String := do
  let balls ← Text.showInt? z.balls
  let initialBalls ← Text.showInt? z.initialBalls
  let turns ← Text.showInt? z.turns
  let initialTurns ← Text.showInt? z.initialTurns
  return "SafariZone(balls=" ++ balls ++ "/" ++ initialBalls ++ ", turns=" ++ turns ++ "/" ++ initialTurns
    ++ ", pokemon=" ++ toString z.pokemon.length ++ ")"

end Zone
end SafariScript
