import SafariScript.Eval.Basic

/-!
# Failures

Why the work on a piece of source, or the whole interpreter, comes to an early end.
-/

namespace SafariScript

/-- The phases that collect problems instead of stopping at the first one. -/
inductive Phase where
  | scan
  | parse
deriving DecidableEq, Inhabited, Repr

/-- The name of a phase. -/
def Phase.label : Phase → String
  | .scan => "scan"
  | .parse => "parse"

/-- An early end. -/
inductive Failure where
  /-- A single problem, marked if it is the interpreter's own. -/
  | single (problem : Diagnostic) (internal : Bool)
  /-- A phase found problems. -/
  | phase (phase : Phase) (problems : Diagnostics)
  /-- The stack is exhausted. -/
  | stackExhausted
  /-- The user interrupted the work. -/
  | interrupted
  /-- The interpreter was asked to exit with a status. -/
  | exit (status : Int)
  /-- Something else went wrong: the name of the failure and its text. -/
  | crash (name text : String)

namespace Failure

/-- The text of the failure to read or write an integer of too many digits. -/
def digitText (detail : String) : String :=
  "Exceeds the limit (" ++ toString Text.digitLimit ++ " digits) for integer string conversion" ++ detail
    ++ "; use sys.set_int_max_str_digits() to increase the limit"

/-- A number of too many digits in a source. -/
def longNumber (digits : Nat) : Failure :=
  .crash "ValueError" (digitText (": value has " ++ toString digits ++ " digits"))

/-- An integer of too many digits to be written. -/
def longInteger : Failure :=
  .crash "ValueError" (digitText "")

/-- A draw compared with a chance that is not known. -/
def unknownChance : Failure :=
  .crash "TypeError" "'<' not supported between instances of 'int' and 'list'"

/-- A seed that is not a number. -/
def unusableSeed : Failure :=
  .crash "TypeError"
    "The only supported seed types are: None,\nint, float, str, bytes, and bytearray."

/-- The name of a file that no file can have. -/
def nullByte : Failure :=
  .crash "ValueError" "embedded null byte"

/-- The text of the failure of a phase. -/
def phaseText (phase : Phase) (problems : Diagnostics) : String :=
  phase.label ++ " failed with " ++ toString problems.length ++ " error(s)"

/-- How an interruption that nothing caught ends the work. -/
def ofInterrupt : Interrupt → Failure
  | .fault f => .single f.diagnostic false
  | .overflow => .stackExhausted
  | .longInteger => longInteger
  | .unknownChance => unknownChance
  | .endless => .interrupted
  | .breakLoop => .crash "BreakSignal" ""
  | .continueLoop => .crash "ContinueSignal" ""
  | .run => .crash "RunSignal" ""
  | .ret _ => .crash "ReturnSignal" ""

/-- A problem of the whole script without a place. -/
def plain (message : String) : Failure :=
  .single { category := .runtime, cause := message } false

end Failure
end SafariScript
