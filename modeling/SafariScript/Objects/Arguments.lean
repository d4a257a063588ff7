import SafariScript.Fault

/-!
# Arguments of constructors

Positional arguments fill the parameters from the left, named ones the parameters they name, and defaults
the rest.
-/

namespace SafariScript
namespace Arguments

variable {α : Type}

/-- Bind parameters to positional arguments from the left. A parameter listed twice has its later argument. -/
def ofPositional : List String → List α → List (String × α)
  | param :: params, arg :: args =>
    let others := ofPositional params args
    if (others.lookup param).isSome then others else (param, arg) :: others
  | _, _ => []

/-- Take in the named arguments one after the other. -/
def addNamed (params : List String) :
    List (String × α) → List (Word × α) → Except Fault (List (String × α))
  | given, [] => .ok given
  | given, (name, value) :: rest =>
    if !params.contains name.text then .error ⟨.unknownParameter name.text, some name⟩
    else if (given.lookup name.text).isSome then .error ⟨.repeatedParameter name.text, some name⟩
    else addNamed params (given ++ [(name.text, value)]) rest

/-- Fill in defaults for the parameters that no argument was given for. -/
def addDefaults (place : Word) (defaults : List (String × α)) :
    List String → List (String × α) → Except Fault (List (String × α))
  | [], given => .ok given
  | param :: rest, given =>
    if (given.lookup param).isSome then addDefaults place defaults rest given
    else match defaults.lookup param with
      | some value => addDefaults place defaults rest (given ++ [(param, value)])
      | none => .error ⟨.missingParameter param, some place⟩

/-- Bind the parameters to arguments. Faults of the call as a whole are reported at its own word. -/
def resolve (place : Word) (params : List String) (positional : List α) (named : List (Word × α))
    (defaults : List (String × α)) : Except Fault (List (String × α)) := do
  if params.length < positional.length then
    .error ⟨.tooManyArguments params.length positional.length, some place⟩
  else
    let given ← addNamed params (ofPositional params positional) named
    addDefaults place defaults params given

end Arguments
end SafariScript
