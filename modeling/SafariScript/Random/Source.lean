import SafariScript.Random.Twister

/-!
# Sources of chance

Encounters and catches draw numbers below a bound from a source: a seeded generator or a fixed script.
-/

namespace SafariScript
namespace Random

/-- Where random numbers come from. -/
inductive Source where
  /-- The given numbers in turn, again and again; `count` draws were made. -/
  | scripted (values : Array Int) (count : Nat)
  /-- A seeded generator. -/
  | seeded (twister : Twister)

namespace Source

/-- A source that repeats the given numbers; no numbers at all stand for zeros. -/
def ofScript (values : List Int) : Source :=
  .scripted (if values.isEmpty then [0] else values).toArray 0

/-- The source for an integer seed. -/
def ofSeed (seed : Int) : Source :=
  .seeded (Twister.ofSeed seed)

/-- Draw a number below a bound. -/
def draw (bound : Nat) : Source → Nat × Source
  | .scripted values count =>
    ((values.getD (count % values.size) 0 % bound).toNat, .scripted values (count + 1))
  | .seeded twister =>
    let (value, twister) := twister.draw bound
    (value, .seeded twister)

end Source
end Random
end SafariScript
