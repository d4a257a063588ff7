import SafariScript.Text.Lowercase

/-!
# Catch rates

The chance in percent that a catch succeeds: one for all Pokemon, which may be unknown, and others for
single species, which are found by their name in lower case.
-/

namespace SafariScript

/-- The overall rate, if it is known, and those of single species. -/
structure CatchRates where
  overall : Option Int
  species : List (String × Int)
deriving DecidableEq, Inhabited

namespace CatchRates

/-- The same rate for all. -/
def uniform (rate : Int) : CatchRates :=
  ⟨some rate, []⟩

/-- No rate is known. -/
def unknown : CatchRates :=
  ⟨none, []⟩

/-- The chance to catch a Pokemon by name, if it is known. -/
def chanceFor? (rates : CatchRates) (name : String) : Option Int :=
  (rates.species.lookup (Text.lower name)).or rates.overall

/-- Set the overall rate. -/
def setOverall (rates : CatchRates) (rate : Int) : CatchRates :=
  { rates with overall := some rate }

/-- Set the rate of a species. -/
def setSpecies (rates : CatchRates) (name : String) (rate : Int) : CatchRates :=
  let key := Text.lower name
  { rates with species := (key, rate) :: rates.species.filter (·.1 != key) }

end CatchRates
end SafariScript
