import SafariScript.Text.Quoted

/-!
# Literals

The constants that can be written in a program.
-/

namespace SafariScript

/-- A constant of the language. -/
inductive Literal where
  | null
  | bool (value : Bool)
  | int (value : Int)
  | text (value : String)
deriving DecidableEq, Inhabited

/-- How a constant is shown in a listing of tokens or of a syntax tree. -/
def Literal.display : Literal → String
  | .null => "None"
  | .bool true => "True"
  | .bool false => "False"
  | .int value => toString value
  | .text value => Text.quoted value

end SafariScript
