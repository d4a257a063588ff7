/-!
# Words of the source

A piece of source text with the line it stands on: the name of a variable, or the spelling of the token
at which a problem is reported.
-/

namespace SafariScript

/-- A spelling and its line. The end of the source has the empty spelling. -/
structure Word where
  text : String
  line : Int
deriving DecidableEq, Inhabited

end SafariScript
