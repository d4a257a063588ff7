import SafariScript.Diagnostic

/-!
# Complaints of the parser

What can be wrong with the order of tokens, its wording, and the notes that go with it.
-/

namespace SafariScript

/-- What is wrong at a token. -/
inductive Complaint where
  /-- A symbol or keyword had to stand here. -/
  | missing (spelling : String) (position : String)
  /-- A name had to stand here. -/
  | missingName (role : String)
  | missingExpression
  /-- The left side of an assignment cannot be assigned to. -/
  | invalidTarget
  /-- `break` or `continue` without a loop around it. -/
  | outsideLoop (keyword : String)
  /-- `run` without a loop or `if` around it. -/
  | outsideControl
  /-- A call of what follows a dot. -/
  | calledProperty (name : String)
  /-- An arrow without a call behind it. -/
  | uncalledMethod (name : String)
deriving DecidableEq, Inhabited, Repr

namespace Complaint

/-- The wording of a complaint, without the token it is about. -/
def message : Complaint → String
  | .missing spelling position => "Expected '" ++ spelling ++ "' " ++ position
  | .missingName role => "Expected " ++ role
  | .missingExpression => "Expected primary expression"
  | .invalidTarget => "Invalid assignment target"
  | .outsideLoop keyword => "'" ++ keyword ++ "' can only be used inside a loop"
  | .outsideControl => "'run' statement is only allowed inside control blocks"
  | .calledProperty name =>
    "Cannot call method with '.' operator. Use '->' for methods: " ++ name ++ "()"
  | .uncalledMethod name =>
    "Arrow operator '->' is for method calls only. Use '.' for properties: ." ++ name

/-- The notes for a missing closing symbol. -/
def hints : Complaint → List String
  | .missing ")" _ =>
    ["Missing ')' to close the expression.", "Missing ';' at the end of the statement."]
  | .missing "\x7d" _ => ["Missing '\x7d' to close the block."]
  | .missing ";" _ => ["Try adding a ';' at the end of the previous expression or statement."]
  | _ => []

/-- The record of a complaint at a place, without notes. -/
def diagnostic (complaint : Complaint) (place : Word) : Diagnostic where
  category := .parse
  cause := complaint.message
  lexeme := some place.text
  line := place.line

end Complaint
end SafariScript
