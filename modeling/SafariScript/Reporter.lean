import SafariScript.Failure

/-!
# Reporting failures

A reporter writes the problems of a failure and decides what happens next: the work resumes, the
interpreter exits, or the failure escapes to the outside.
-/

namespace SafariScript

/-- How a failure is reported: a fatal reporter exits after it. Counts the problems reported so far. -/
structure Reporter where
  fatal : Bool
  color : Bool
  reported : Nat := 0
deriving DecidableEq, Inhabited

/-- What happens after a failure was reported. -/
inductive Aftermath where
  | resumed
  | exited (status : Int)
  | escaped (failure : Failure)

/-- The colours of a report. -/
inductive Paint where
  | red
  | magenta
deriving DecidableEq, Inhabited, Repr

/-- The terminal code of a colour. -/
def Paint.code : Paint → String
  | .red => "31"
  | .magenta => "35"

namespace Reporter

/-- A text in bold and in a colour, if colours are wanted. -/
def paint (r : Reporter) (paint : Paint) (text : String) : String :=
  if r.color then "\x1b[1m\x1b[" ++ paint.code ++ "m" ++ text ++ "\x1b[0m" else text

/-- A problem as it is written. -/
def format (r : Reporter) (d : Diagnostic) (internal : Bool) : String :=
  (if internal then r.paint .red "[internal] " else "") ++ d.header
    ++ r.paint .red (d.category.label ++ " error: ") ++ d.message
    ++ String.join (d.hints.map fun hint => "\n  " ++ r.paint .magenta "Note: " ++ hint)

/-- The lines that report problems, and the reporter afterwards. -/
def reportAll (r : Reporter) (ds : Diagnostics) (internal : Bool) : String × Reporter :=
  (String.join (ds.map fun d => r.format d internal ++ "\n"),
    { r with reported := r.reported + ds.length })

/-- After a report, a fatal reporter exits with status 1. -/
def conclude (r : Reporter) (otherwise : Aftermath) : Aftermath :=
  if r.fatal then .exited 1 else otherwise

/-- Report the problems of a failure of a script, and go on unless fatal. -/
def report (r : Reporter) (ds : Diagnostics) (internal : Bool) (otherwise : Aftermath) :
    String × Reporter × Aftermath :=
  let (text, r') := r.reportAll ds internal
  (text, r', r.conclude otherwise)

/-- Deal with a failure: the text that reports it, the reporter afterwards, and what happens next. What is
not the script's own fault is reported as internal and escapes. -/
def handle (r : Reporter) (failure : Failure) : String × Reporter × Aftermath :=
  match failure with
  | .single d internal => r.report [d] internal .resumed
  | .phase _ ds => r.report ds false .resumed
  | .stackExhausted =>
    r.report [{ category := .runtime, cause := "Maximum recursion depth exceeded" }] false .resumed
  | .interrupted => r.report [{ category := .runtime, cause := "keyboard interrupt" }] false .resumed
  | .exit status => ("", r, .exited status)
  | .crash name text =>
    r.report
      [{ category := .runtime, cause := "unknown error: '" ++ name ++ ": " ++ text ++ "'" }] true
      (.escaped failure)

end Reporter
end SafariScript
