import SafariScript.Text.Integer
import SafariScript.Text.Quoted

/-!
# Options of the command line

One file at most, two settings with a value, and flags. An option may be shortened as long as only one
begins that way, a value may follow an equals sign, short flags may be written together, and behind `--`
nothing is an option. A setting whose value is `--` itself is set to nothing.
-/

namespace SafariScript
namespace CommandLine

/-- What a setting is set to. -/
inductive Entry where
  | number (value : Int)
  /-- The separator was written as the value. -/
  | nothing
deriving DecidableEq, Inhabited, Repr

/-- What the command line asks for. -/
structure Options where
  file : Option String := none
  seed : Option Entry := none
  catchRate : Entry := .number 50
  ast : Bool := false
  verbose : Bool := false
deriving DecidableEq, Inhabited, Repr

/-- Options without a value. -/
inductive Flag where
  | help
  | ast
  | noColor
  | verbose
deriving DecidableEq, Inhabited, Repr

/-- Options with a value. -/
inductive Setting where
  | seed
  | catchRate
deriving DecidableEq, Inhabited, Repr

/-- An option. -/
inductive Choice where
  | flag (flag : Flag)
  | setting (setting : Setting)
deriving DecidableEq, Inhabited, Repr

/-- The short spelling of an option, if it has one. -/
def Choice.short? : Choice → Option Char
  | .flag .help => some 'h'
  | .flag .verbose => some 'v'
  | _ => none

/-- The long spelling of an option. -/
def Choice.long : Choice → String
  | .flag .help => "--help"
  | .setting .seed => "--seed"
  | .setting .catchRate => "--catch-rate"
  | .flag .ast => "--ast"
  | .flag .noColor => "--no-color"
  | .flag .verbose => "--verbose"

/-- Every option, in the order of the usage line. -/
def Choice.all : List Choice :=
  [.flag .help, .setting .seed, .setting .catchRate, .flag .ast, .flag .noColor, .flag .verbose]

/-- An option as messages name it. -/
def Choice.label (c : Choice) : String :=
  match c.short? with
  | some short => String.ofList ['-', short] ++ "/" ++ c.long
  | none => c.long

/-- What is wrong with the arguments. -/
inductive UsageError where
  | ambiguous (argument : String) (candidates : List Choice)
  | unusedValue (choice : Choice) (value : String)
  | missingValue (setting : Setting)
  | invalidValue (setting : Setting) (value : String)
  | rateOutOfRange (rate : Int)
  | unrecognized (arguments : List String)
deriving DecidableEq, Inhabited, Repr

/-- The name of the type of a setting's value. -/
def Setting.typeName : Setting → String
  | .seed => "int"
  | .catchRate => "catch_rate"

/-- The wording of an error. -/
def UsageError.message : UsageError → String
  | .ambiguous argument candidates =>
    "ambiguous option: " ++ argument ++ " could match "
      ++ ", ".intercalate (candidates.map Choice.long)
  | .unusedValue choice value =>
    "argument " ++ choice.label ++ ": ignored explicit argument " ++ Text.quoted value
  | .missingValue setting =>
    "argument " ++ (Choice.setting setting).label ++ ": expected one argument"
  | .invalidValue setting value =>
    "argument " ++ (Choice.setting setting).label ++ ": invalid " ++ setting.typeName ++ " value: "
      ++ Text.quoted value
  | .rateOutOfRange rate =>
    "argument --catch-rate: catch rate must be between 0 and 100, got " ++ toString rate
  | .unrecognized arguments => "unrecognized arguments: " ++ " ".intercalate arguments

/-- What an argument is. -/
inductive Argument where
  /-- A file name or a value. -/
  | plain (text : String)
  /-- The mark behind which nothing is an option. -/
  | separator
  /-- It looks like an option but is none. -/
  | unknown (text : String)
  /-- A long option, with the value behind its equals sign. -/
  | long (choice : Choice) (value : Option String)
  /-- A short flag, with what follows it; an equals sign between them does not count. -/
  | short (flag : Flag) (value : Option (List Char))
deriving DecidableEq, Inhabited, Repr

/-- The short flag of a character. -/
def shortFlag? (c : Char) : Option Flag :=
  if c == 'h' then some .help else if c == 'v' then some .verbose else none

/-- Split at the first equals sign, if there is one. -/
def splitEquals (cs : List Char) : List Char × Option (List Char) :=
  match cs.dropWhile (· != '=') with
  | [] => (cs, none)
  | _ :: value => (cs.takeWhile (· != '='), some value)

/-- An argument that is a negative number, which is never taken for an option. -/
def isNegativeNumber (cs : List Char) : Bool :=
  let isDigit := fun c => (Text.digitValue? c).isSome
  let cs := if cs.getLast? == some '\n' then cs.dropLast else cs
  match cs with
  | '-' :: number =>
    (!number.isEmpty && number.all isDigit)
      || match number.dropWhile isDigit with
        | '.' :: fraction => !fraction.isEmpty && fraction.all isDigit
        | _ => false
  | _ => false

/-- An argument that no option explains. -/
def unexplained (cs : List Char) : Argument :=
  if isNegativeNumber cs || cs.contains ' ' then .plain (String.ofList cs)
  else .unknown (String.ofList cs)

/-- The options whose long spelling starts with a text. -/
def candidates (start : List Char) : List Choice :=
  Choice.all.filter fun c => start.isPrefixOf c.long.toList

/-- What an argument before the separator is. -/
def classify (argument : String) : Except UsageError Argument :=
  let cs := argument.toList
  match cs with
  | '-' :: '-' :: _ =>
    let (start, value) := splitEquals cs
    match Choice.all.find? (·.long.toList == start), candidates start with
    | some choice, _ => .ok (.long choice (value.map String.ofList))
    | none, [choice] => .ok (.long choice (value.map String.ofList))
    | none, [] => .ok (unexplained cs)
    | none, several => .error (.ambiguous argument several)
  | ['-'] => .ok (.plain argument)
  | '-' :: c :: rest =>
    match shortFlag? c, rest with
    | some flag, [] => .ok (.short flag none)
    | some flag, '=' :: value => .ok (.short flag (some value))
    | some flag, value => .ok (.short flag (some value))
    | none, _ => .ok (unexplained cs)
  | _ => .ok (.plain argument)

/-- What the arguments are. -/
def classifyAll : List String → Except UsageError (List Argument)
  | [] => .ok []
  | "--" :: rest => .ok (.separator :: rest.map .plain)
  | argument :: rest => do
    let first ← classify argument
    let others ← classifyAll rest
    return first :: others

/-- Short flags written together: a flag and those that the characters behind it stand for. A character that
stands for none is taken, with all that follows, for a value that the flag before it has no use for. -/
def cluster (flag : Flag) : List Char → Except UsageError (List Flag)
  | [] => .error (.unusedValue (.flag flag) "")
  | c :: rest =>
    match shortFlag? c with
    | none => .error (.unusedValue (.flag flag) (String.ofList (c :: rest)))
    | some next => if rest.isEmpty then .ok [flag, next] else (cluster next rest).map (flag :: ·)

/-- Read the value of a setting; a catch rate is a percentage. -/
def readEntry (setting : Setting) (text : String) : Except UsageError Entry :=
  if text = "--" then .ok .nothing
  else match setting, Text.readInt? text with
    | _, none => .error (.invalidValue setting text)
    | .seed, some n => .ok (.number n)
    | .catchRate, some n => if 0 ≤ n ∧ n ≤ 100 then .ok (.number n) else .error (.rateOutOfRange n)

/-- The options read so far, whether the place of the file is taken, what means nothing, and whether help was
asked for. -/
structure Progress where
  options : Options := {}
  fileTaken : Bool := false
  extras : List String := []
  help : Bool := false

namespace Progress

/-- Take a flag into account. -/
def setFlag (p : Progress) : Flag → Progress
  | .help => { p with help := true }
  | .ast => { p with options := { p.options with ast := true } }
  | .noColor => p
  | .verbose => { p with options := { p.options with verbose := true } }

/-- Take a setting into account. -/
def setSetting (p : Progress) (setting : Setting) (text : String) : Except UsageError Progress := do
  let entry ← readEntry setting text
  match setting with
  | .seed => return { p with options := { p.options with seed := some entry } }
  | .catchRate => return { p with options := { p.options with catchRate := entry } }

/-- Take a file name into account; only the first one counts. -/
def setFile (p : Progress) (text : String) : Progress :=
  if p.fileTaken then { p with extras := p.extras ++ [text] }
  else { p with options := { p.options with file := some text }, fileTaken := true }

end Progress

/-- Read classified arguments from the left. Asking for help ends it. -/
def consume (p : Progress) : List Argument → Except UsageError Progress
  | [] => .ok p
  | .plain text :: .separator :: rest =>
    if p.fileTaken then consume { p with extras := p.extras ++ [text, "--"] } rest
    else consume (p.setFile text) rest
  | .plain text :: rest => consume (p.setFile text) rest
  | .separator :: .plain text :: rest =>
    if p.fileTaken then consume { p with extras := p.extras ++ ["--", text] } rest
    else consume (p.setFile text) rest
  | .separator :: rest =>
    if p.fileTaken then consume { p with extras := p.extras ++ ["--"] } rest
    else consume { p with fileTaken := true } rest
  | .unknown text :: rest => consume { p with extras := p.extras ++ [text] } rest
  | .long (.setting setting) (some value) :: rest => do consume (← p.setSetting setting value) rest
  | .long (.setting setting) none :: .plain value :: rest => do
    consume (← p.setSetting setting value) rest
  | .long (.setting setting) none :: _ => .error (.missingValue setting)
  | .long (.flag flag) (some value) :: _ => .error (.unusedValue (.flag flag) value)
  | .long (.flag flag) none :: rest =>
    if (p.setFlag flag).help then .ok (p.setFlag flag) else consume (p.setFlag flag) rest
  | .short flag none :: rest =>
    if (p.setFlag flag).help then .ok (p.setFlag flag) else consume (p.setFlag flag) rest
  | .short flag (some value) :: rest => do
    let p := (← cluster flag value).foldl Progress.setFlag p
    if p.help then return p else consume p rest

/-- What the arguments ask for: nothing stands for help. -/
def parseArguments (arguments : List String) : Except UsageError (Option Options) := do
  let p ← consume {} (← classifyAll arguments)
  if p.help then return none
  else if p.extras.isEmpty then return some p.options
  else .error (.unrecognized p.extras)

/-- The usage lines. -/
def usage : String :=
  "usage: pukimo [-h] [--seed SEED] [--catch-rate CATCH_RATE] [--ast]\n"
    ++ "              [--no-color] [-v]\n"
    ++ "              [file]\n"

/-- What is written for help. -/
def helpText : String :=
  usage
    ++ "\nPukiMO interpreter\n"
    ++ "\npositional arguments:\n"
    ++ "  file                  file to interpret and run (if empty, goes to command-\n"
    ++ "                        line mode)\n"
    ++ "\noptions:\n"
    ++ "  -h, --help            show this help message and exit\n"
    ++ "  --seed SEED           seed for encounters and catch attempts\n"
    ++ "  --catch-rate CATCH_RATE\n"
    ++ "                        default percent chance that attemptCatch succeeds\n"
    ++ "                        (default: 50)\n"
    ++ "  --ast                 print the syntax tree of file instead of running it\n"
    ++ "  --no-color            do not color error messages\n"
    ++ "  -v, --verbose         log interpreter internals to stderr\n"

end CommandLine
end SafariScript
