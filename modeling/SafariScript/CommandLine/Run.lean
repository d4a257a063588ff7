import SafariScript.CommandLine.Options
import SafariScript.Program.Height
import SafariScript.Shell
import SafariScript.Text.Newline
import SafariScript.Text.Utf8

/-!
# Running the command line

With a file its program is run or its syntax tree is shown; without one the shell reads the standard input.
-/

namespace SafariScript
namespace CommandLine

/-- How a run ends. -/
inductive Ending where
  | exited (status : Int)
  | escaped (failure : Failure)

/-- What a run writes and how it ends. -/
structure Result where
  stdout : String
  stderr : String
  ending : Ending

/-- What a run depends on: the files, the standard input, and a seed for when none is given. -/
structure Surround where
  file? : String → Option (List UInt8)
  stdin : String
  seed : Int

/-- A byte as two hexadecimal digits. -/
def hexByte (b : UInt8) : String :=
  "0x" ++ String.ofList (Text.hexDigits 2 b.toNat)

/-- The text of the failure to decode a file. -/
def decodeText (fault : Text.Utf8Fault) : String :=
  let what :=
    if fault.length == 1 then
      "byte " ++ hexByte fault.byte ++ " in position " ++ toString fault.start
    else
      "bytes in position " ++ toString fault.start ++ "-" ++ toString (fault.start + fault.length - 1)
  "'utf-8' codec can't decode " ++ what ++ ": " ++ fault.reason.text

/-- The text of a file, with one kind of line break. -/
def readSource (around : Surround) (path : String) : Except Failure String :=
  if path.toList.contains '\x00' then .error .nullByte
  else match around.file? path with
    | none => .error (.plain ("'" ++ path ++ "' could not be opened"))
    | some bytes =>
      match Text.decodeUtf8 bytes with
      | .ok cs => .ok (String.ofList (Text.unifyNewlines cs))
      | .error fault => .error (.crash "UnicodeDecodeError" (decodeText fault))

/-- The source of chance for a seed, or for the seed of the surroundings if there is none to use. -/
def chanceOf (around : Surround) : Option Entry → Random.Source
  | some (.number seed) => .ofSeed seed
  | _ => .ofSeed around.seed

/-- The catch rates to begin with. -/
def ratesOf : Entry → CatchRates
  | .number rate => .uniform rate
  | .nothing => .unknown

/-- A session for a command line. -/
def newSession (around : Surround) (options : Options) (path : String) (interactive : Bool) : Session where
  path := path
  interactive := interactive
  reporter := { fatal := !interactive, color := false }
  world := .initial (chanceOf around options.seed) (ratesOf options.catchRate)
    (Text.inputLines (String.ofList (Text.unifyNewlines around.stdin.toList)))
  queue := []

/-- How a run ends after a failure was dealt with. -/
def Ending.ofAftermath : Aftermath → Ending
  | .resumed => .exited 0
  | .exited status => .exited status
  | .escaped failure => .escaped failure

/-- Report a failure that ends the run. -/
def fail (s : Session) (failure : Failure) : Session × Ending :=
  let (s, aftermath) := s.handle failure
  (s, .ofAftermath aftermath)

/-- Show the syntax tree of a file. -/
def showTree (around : Surround) (s : Session) : Session × Ending :=
  match readSource around s.path with
  | .error failure => fail s failure
  | .ok source =>
    let parsed := parseSource 1 false source
    let s := s.noteAll parsed.events
    match parsed.result with
    | .error failure => fail s failure
    | .ok program =>
      match program.display? 0 with
      | some text => (s.write (text ++ "\n"), .exited 0)
      | none => fail s .stackExhausted

/-- Run the program of a file. -/
def runFile (around : Surround) (s : Session) : Session × Ending :=
  if s.path == Session.typedPath then
    fail s (.plain ("'" ++ s.path ++ "' is a reserved filename"))
  else match readSource around s.path with
    | .error failure => fail s failure
    | .ok source =>
      match s.chunk source 1 with
      | (s, aftermath) => (s, .ofAftermath aftermath)

/-- The next line of the standard input, or the end of input. -/
def nextLine (sh : Shell) : String × Shell :=
  match sh.session.world.input with
  | [] => ("EOF", sh)
  | line :: rest =>
    (line, { sh with session := { sh.session with world := { sh.session.world with input := rest } } })

/-- Prompt for lines and obey them, so many at most. -/
def converse : Nat → Shell → Session × Ending
  | 0, sh => (sh.session, .exited 0)
  | fuel + 1, sh =>
    let (line, sh) := nextLine (sh.write sh.prompt.text)
    match sh.feed line with
    | (sh, .proceed) => converse fuel sh
    | (sh, .stop) => (sh.session, .exited 0)
    | (sh, .escape failure) => fail sh.session failure

/-- Run the shell over the standard input; every line but the last turn consumes one. -/
def runShell (s : Session) : Session × Ending :=
  converse (s.world.input.length + 2) (.start (s.write (Shell.intro ++ "\n")))

/-- Run a file or, without one, the shell. -/
def runOptions (around : Surround) (options : Options) : Session × Ending :=
  match options.file with
  | some path => runFile around (newSession around options path false)
  | none => runShell (newSession around options Session.typedPath true)

/-- Do what the options ask for. To show a tree needs no seed, but to run anything fails without a usable
one. -/
def perform (around : Surround) (options : Options) : Session × Ending :=
  match options.ast, options.file with
  | true, some path => showTree around (newSession around options path false)
  | _, _ =>
    if options.seed = some .nothing then
      fail (newSession around options Session.typedPath false) .unusableSeed
    else runOptions around options

/-- The log, one event a line. -/
def logText (events : List Event) : String :=
  String.join (events.map fun e => e.text ++ "\n")

/-- Run a command line. -/
def run (around : Surround) (arguments : List String) : Result :=
  match parseArguments arguments with
  | .error error => ⟨"", usage ++ "pukimo: error: " ++ error.message ++ "\n", .exited 2⟩
  | .ok none => ⟨helpText, "", .exited 0⟩
  | .ok (some options) =>
    let (s, ending) := perform around options
    ⟨s.world.output, if options.verbose then logText s.world.log.toList else "", ending⟩

end CommandLine
end SafariScript
