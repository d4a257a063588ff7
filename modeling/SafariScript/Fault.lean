import SafariScript.Diagnostic
import SafariScript.Value

/-!
# Faults

What can go wrong while a script runs: the causes, the category and wording of each, and the place where
one arises.
-/

namespace SafariScript

/-- What an index goes into. -/
inductive Indexed where
  | array
  | string
deriving DecidableEq, Inhabited, Repr

/-- What named arguments cannot be given to. -/
inductive Callee where
  | methods
  | builtins
  | functions
deriving DecidableEq, Inhabited, Repr

/-- The wording for what was called. -/
def Callee.label : Callee → String
  | .methods => "methods"
  | .builtins => "built-in functions"
  | .functions => "functions"

/-- Why a script fails. -/
inductive Cause where
  -- computing
  | divisionByZero
  | moduloByZero
  | negatedOperand
  | addedOperands (left right : Kind)
  | numericOperands (left : Kind) (operator : String) (right : Kind)
  -- variables and functions
  | redeclared (name : String)
  | undefinedVariable (name : String)
  | assignedUndefined (name : String)
  | undefinedFunction (name : String)
  | notFunction (name : String)
  | notCallable (kind : Kind)
  | callArity (expected got : Nat)
  | namedArguments (callee : Callee)
  | returnOutsideFunction
  | recursionLimit
  -- arrays and strings
  | notIndexable (kind : Kind)
  | indexNotInt (indexed : Indexed)
  | indexOutOfBounds (indexed : Indexed) (index : String) (size : Nat)
  | immutableString
  -- loops and Safari statements
  | rangeStart (kind : Kind)
  | rangeEnd (kind : Kind)
  | notIterable (kind : Kind)
  | exploreTarget (name : String)
  | throwTarget
  | emptyZone
  -- constructors
  | tooManyArguments (expected got : Nat)
  | unknownParameter (name : String)
  | repeatedParameter (name : String)
  | missingParameter (name : String)
  | parameterKind (name : String) (expected got : Kind)
  | negativeParameter (name : String)
  | smallTeam
  -- properties and methods
  | noProperties (kind : Kind)
  | noMethods (name : String) (kind : Kind)
  | unknownProperty (kind : Kind) (name : String)
  | fixedProperty (name : String)
  | teamProperty
  | collectionProperty
  | setCollectionProperty
  | propertyNotInt (name : String)
  | negativeProperty (name : String)
  | unknownMethod (kind : Kind) (name : String)
  | methodArity (method : String) (expected : String) (got : Nat)
  | stringArgument (method : String)
  | arrayArgument (method : String) (kind : Kind)
  | rateNotInt (method : String) (kind : Kind)
  | rateOutOfRange (rate : String)
  | catchArgument (kind : Kind)
  | noBalls
  | noTurns
  | teamFull (capacity : Int)
  | noPokemon (owner : Kind)
  | notPresent (name : String) (owner : Kind)
  -- built-in functions
  | builtinArity (name : String) (expected got : Nat)
  | emptyInput (name : String)
  | notInteger (line : String)
  | noLength (kind : Kind)
  | arrayExpected (name : String)
  | arraysExpected
deriving DecidableEq, Inhabited, Repr

namespace Cause

/-- The category that a cause is reported under. -/
def category : Cause → Category
  | .negatedOperand | .addedOperands .. | .numericOperands .. | .notFunction _ | .notCallable _
  | .notIndexable _ | .indexNotInt _ | .rangeStart _ | .rangeEnd _ | .notIterable _
  | .exploreTarget _ | .throwTarget | .parameterKind .. | .noProperties _ | .noMethods ..
  | .propertyNotInt _ | .stringArgument _ | .arrayArgument .. | .rateNotInt .. | .catchArgument _
  | .noLength _ | .arrayExpected _ | .arraysExpected => .type
  | .redeclared _ | .undefinedVariable _ | .assignedUndefined _ | .undefinedFunction _ => .name
  | .callArity .. | .namedArguments _ | .tooManyArguments .. | .unknownParameter _
  | .repeatedParameter _ | .missingParameter _ | .negativeParameter _ | .smallTeam
  | .negativeProperty _ | .methodArity .. | .rateOutOfRange _ | .builtinArity .. => .argument
  | .unknownProperty .. | .fixedProperty _ | .teamProperty | .collectionProperty
  | .setCollectionProperty => .property
  | _ => .runtime

/-- The methods of an object, in the order they are listed in. -/
def methodNames : Kind → List String
  | .zone => ["useBall", "useTurn", "reset", "isGameOver"]
  | .team => ["isFull", "isEmpty", "has"]
  | .collection =>
    ["add", "remove", "list", "find", "random", "count", "clear", "isEmpty", "addAll", "removeAll",
      "attemptCatch", "setCatchRate", "setSpeciesCatchRate"]
  | _ => []

/-- The advice between the name of an unknown method and the list of methods. -/
def methodAdvice : Kind → String
  | .zone | .team => "Use .pokemon-> for Pokemon management. "
  | _ => ""

/-- The name of what an index goes into. -/
def indexedLabel : Indexed → String
  | .array => "Array"
  | .string => "String"

/-- The name of the size of what an index goes into. -/
def sizeLabel : Indexed → String
  | .array => "size"
  | .string => "length"

/-- The type of an owner in running text. -/
def ownerLabel : Kind → String
  | .zone => "safarizone"
  | _ => "team"

/-- The wording of a cause. -/
def message : Cause → String
  | .divisionByZero => "Division by zero"
  | .moduloByZero => "Modulo by zero"
  | .negatedOperand => "Operand must be a number"
  | .addedOperands left right =>
    "Operands must be two numbers or at least one string. Got " ++ left.label ++ " + " ++ right.label
  | .numericOperands left operator right =>
    "Operands must be numbers. Got " ++ left.label ++ " " ++ operator ++ " " ++ right.label
  | .redeclared name => "Variable '" ++ name ++ "' already declared in this scope"
  | .undefinedVariable name => "Undefined variable '" ++ name ++ "'"
  | .assignedUndefined name => "Cannot assign to undefined variable '" ++ name ++ "'"
  | .undefinedFunction name => "Undefined function '" ++ name ++ "'"
  | .notFunction name => "'" ++ name ++ "' is not a function"
  | .notCallable kind => "Can only call functions, got " ++ kind.label
  | .callArity expected got =>
    "Expected " ++ toString expected ++ " arguments but got " ++ toString got
  | .namedArguments callee =>
    "Named arguments are only supported for built-in constructors, not " ++ callee.label
  | .returnOutsideFunction => "Return statement not allowed outside function"
  | .recursionLimit => "Maximum recursion depth exceeded"
  | .notIndexable kind => "Can only index arrays and strings, got " ++ kind.label
  | .indexNotInt indexed => indexedLabel indexed ++ " index must be an integer"
  | .indexOutOfBounds indexed index size =>
    indexedLabel indexed ++ " index " ++ index ++ " out of bounds (" ++ sizeLabel indexed ++ " "
      ++ toString size ++ ")"
  | .immutableString =>
    "Strings are immutable and cannot be modified. Use string concatenation instead."
  | .rangeStart kind => "Range loop start must be an integer, got " ++ kind.label
  | .rangeEnd kind => "Range loop end must be an integer, got " ++ kind.label
  | .notIterable kind => "Can only iterate over strings or arrays, got " ++ kind.label
  | .exploreTarget name => "Explore expects a SafariZone object for '" ++ name ++ "'"
  | .throwTarget => "throwBall target must be a SafariZone object"
  | .emptyZone => "No Pokemon in this Safari Zone!"
  | .tooManyArguments expected got =>
    "Expected at most " ++ toString expected ++ " arguments, got " ++ toString got
  | .unknownParameter name => "Unknown parameter '" ++ name ++ "'"
  | .repeatedParameter name => "Parameter '" ++ name ++ "' already specified"
  | .missingParameter name => "Missing required parameter '" ++ name ++ "'"
  | .parameterKind name expected got =>
    "Parameter '" ++ name ++ "' must be " ++ expected.label ++ ", got " ++ got.label
  | .negativeParameter name => name ++ " cannot be negative"
  | .smallTeam => "maxSize must be at least 1"
  | .noProperties kind => "Only objects have properties, got " ++ kind.label
  | .noMethods name kind => "Cannot call method '" ++ name ++ "' on " ++ kind.label
  | .unknownProperty kind name => kind.label ++ " has no property '" ++ name ++ "'"
  | .fixedProperty name => "Cannot modify property '" ++ name ++ "'."
  | .teamProperty => "Team properties are read-only."
  | .collectionProperty => "PokemonCollection has no properties. Use methods with '->' operator."
  | .setCollectionProperty => "Cannot set properties on PokemonCollection."
  | .propertyNotInt name => name ++ " must be an integer."
  | .negativeProperty name => name ++ " cannot be negative."
  | .unknownMethod kind name =>
    kind.label ++ " has no method '" ++ name ++ "'. " ++ methodAdvice kind ++ "Available methods: "
      ++ ", ".intercalate (methodNames kind)
  | .methodArity method expected got =>
    "Method '" ++ method ++ "' expects " ++ expected ++ " argument(s), got " ++ toString got
  | .stringArgument method => "Method '" ++ method ++ "' requires a string argument."
  | .arrayArgument method kind =>
    "Method '" ++ method ++ "' requires an array argument, got " ++ kind.label
  | .rateNotInt method kind =>
    "Method '" ++ method ++ "' requires an integer catch rate, got " ++ kind.label
  | .rateOutOfRange rate => "Catch rate must be between 0 and 100, got " ++ rate
  | .catchArgument kind =>
    "Second argument to attemptCatch must be a SafariZone or a catch chance, got " ++ kind.label
  | .noBalls => "No Safari Balls remaining!"
  | .noTurns => "No turns remaining!"
  | .teamFull capacity => "Team is full (max " ++ toString capacity ++ " Pokemon)."
  | .noPokemon owner => owner.label ++ " has no Pokemon."
  | .notPresent name owner => name ++ " is not in the " ++ ownerLabel owner ++ "."
  | .builtinArity name expected got =>
    name ++ "() expects " ++ toString expected ++ " argument(s), got " ++ toString got
  | .emptyInput name => "Input for " ++ name ++ "() cannot be empty"
  | .notInteger line => "Input '" ++ line ++ "' is not a valid integer for readInt()"
  | .noLength kind =>
    "length() only works for strings, arrays, or collections - not " ++ kind.label
  | .arrayExpected name => "First argument to " ++ name ++ "() must be an array"
  | .arraysExpected => "concat() requires two arrays"

/-- The notes that go with a cause. -/
def hints : Cause → List String
  | .redeclared _ => ["Variables can only be declared once per scope"]
  | .undefinedVariable _ => ["Did you forget to declare this variable with 'var'?"]
  | .assignedUndefined _ => ["Variable must be declared with 'var' before assignment"]
  | _ => []

end Cause

/-- A cause and the word of the script where it arises; exhausting the stack outside all functions has no
such word. -/
structure Fault where
  cause : Cause
  place : Option Word
deriving DecidableEq, Inhabited

/-- The report of a fault. -/
def Fault.diagnostic (f : Fault) : Diagnostic where
  category := f.cause.category
  cause := f.cause.message
  lexeme := f.place.map Word.text
  line := (f.place.map Word.line).getD 0
  hints := f.cause.hints

end SafariScript
