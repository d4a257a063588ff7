import SafariScript.Session

/-!
# The shell

The shell takes lines as they are typed. A line that opens more braces than it closes starts a block, and
the lines of a block are kept until the braces balance or a blank line comes. Outside a block, `help`,
`exit` and the end of input are commands.
-/

namespace SafariScript

/-- What the shell shows before it reads a line. -/
inductive Prompt where
  | primary
  | continuation
deriving DecidableEq, Inhabited, Repr

/-- The text of a prompt. -/
def Prompt.text : Prompt → String
  | .primary => "> "
  | .continuation => "... "

/-- The shell: the lines of an unfinished block with their first line's number and their depth of braces,
and how many lines the interpreter was given. -/
structure Shell where
  session : Session
  pending : List String
  firstLine : Nat
  depth : Int
  lineNumber : Nat
  prompt : Prompt

/-- What a line asks the shell for. -/
inductive Request where
  /-- Give a line to the interpreter. -/
  | interpret (line : String)
  | help
  | exit
  | endOfInput
  | nothing
deriving DecidableEq, Inhabited, Repr

/-- What happens after a line. -/
inductive ShellStep where
  | proceed
  | stop
  | escape (failure : Failure)

namespace Shell

/-- A fresh shell. -/
def start (session : Session) : Shell :=
  ⟨session, [], 1, 0, 0, .primary⟩

/-- The first thing the shell writes. -/
def intro : String :=
  "PukiMO interpreter :: Python backend\nType 'help' for more information, 'exit' to quit."

/-- A short tour of the language. -/
def helpText : String :=
  "Welcome to the PukiMO interpreter!\n\n"
    ++ "PukiMO is a small scripting language for Safari Zone adventures. Declare \n"
    ++ "variables with 'var', print with 'print(...)', and build a zone with \n"
    ++ "'var zone = SafariZone(balls=5, turns=10);'. Fill it with \n"
    ++ "'zone.pokemon->add(\"Pikachu\");' and wander around with \n"
    ++ "'explore(zone) \x7b print(encounter); \x7d'.\n\n"
    ++ "Semicolons are optional at the end of a line, blocks may span several lines, \n"
    ++ "and the value of an expression is printed back. Type 'exit' to quit."

/-- Write to the output. -/
def write (sh : Shell) (text : String) : Shell :=
  { sh with session := sh.session.write text }

/-- Run the kept lines as one piece of source. A blank piece is dropped. -/
def flush (sh : Shell) (lines : List String) (firstLine : Nat) : Shell × ShellStep :=
  let source := "\n".intercalate lines
  let sh := { sh with pending := [], depth := 0, prompt := .primary }
  if Text.isAllBlank source then (sh, .proceed)
  else match sh.session.chunk source firstLine with
    | (session, .escaped failure) => ({ sh with session }, .escape failure)
    | (session, .exited status) => ({ sh with session }, .escape (.exit status))
    | (session, .resumed) => ({ sh with session }, .proceed)

/-- Give a line to the interpreter. -/
def interpretLine (sh : Shell) (line : String) : Shell × ShellStep :=
  let lineNumber := sh.lineNumber + 1
  let firstLine := if sh.pending.isEmpty then lineNumber else sh.firstLine
  let depth := braceDepth sh.depth line
  let pending := sh.pending ++ [line]
  let sh := { sh with lineNumber, firstLine }
  if 0 < depth && !Text.isAllBlank line then
    ({ sh with pending, depth, prompt := .continuation }, .proceed)
  else sh.flush pending firstLine

/-- A character of a command's name. -/
def isCommandChar (c : Char) : Bool :=
  Segment.isWordChar c

/-- The name of the command that a stripped line starts with. -/
def commandName (line : String) : String :=
  if line.toList.head? == some '?' then "help"
  else if line.toList.head? == some '!' then ""
  else String.ofList (line.toList.takeWhile isCommandChar)

/-- What a line asks for. Inside a block every line but the end of input is for the interpreter, as it is. Otherwise
the line is stripped, and it is for the interpreter unless it is blank or names a command. -/
def request (sh : Shell) (line : String) : Request :=
  if !sh.pending.isEmpty && line != "EOF" then .interpret line
  else
    let line := Text.strip line
    if line == "" then .nothing
    else match commandName line with
      | "help" => .help
      | "exit" => .exit
      | "EOF" => .endOfInput
      | _ => .interpret line

/-- Take one line. -/
def feed (sh : Shell) (line : String) : Shell × ShellStep :=
  match sh.request line with
  | .interpret given => sh.interpretLine given
  | .help => (sh.write (helpText ++ "\n"), .proceed)
  | .exit => (sh, .stop)
  | .endOfInput => (sh.write "\n", .stop)
  | .nothing => (sh, .proceed)

end Shell
end SafariScript
