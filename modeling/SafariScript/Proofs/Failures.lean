import SafariScript.Proofs.Eval.ControlFlow
import SafariScript.Session

/-!
# Failures of accepted programs

A program that was accepted fails by a fault, which is the script's own problem: it is reported as such and the
session goes on. One failure is of another kind. Integers have no bounds, but one of more than 4300 digits cannot be
written, and a script that prints it, joins it to a string or needs it in a message fails in a way that is reported
as internal and ends the session (`longInteger_not_ofScript`). There is no third kind (`failures_ofScript`): of all
pieces of source that a session is given, only one that writes such an integer, or has such a number in its text,
is not followed by the next.
-/

namespace SafariScript

open Eval

/-! ## Kinds of failures -/

/-- A failure that is the script's own: a problem found while it ran. -/
def Failure.OfScript (failure : Failure) : Prop :=
  ∃ d, failure = .single d false ∧ d.category ≠ .lexical ∧ d.category ≠ .parse

/-- An integer in the source or in a value that has too many digits. -/
inductive Failure.OfDigits : Failure → Prop where
  | number (digits : Nat) : OfDigits (.longNumber digits)
  | integer : OfDigits .longInteger

/-- The failures that a session meets. -/
inductive Failure.Usual : Failure → Prop where
  | script {failure : Failure} (h : failure.OfScript) : Usual failure
  | digits {failure : Failure} (h : failure.OfDigits) : Usual failure
  | phase (phase : Phase) (problems : Diagnostics) : Usual (.phase phase problems)
  | stackExhausted : Usual .stackExhausted
  | interrupted : Usual .interrupted

theorem Cause.category_ne (cause : Cause) : cause.category ≠ .lexical ∧ cause.category ≠ .parse := by
  cases cause <;> exact ⟨nofun, nofun⟩

theorem Failure.ofScript_fault (f : Fault) : (Failure.ofInterrupt (.fault f)).OfScript :=
  ⟨f.diagnostic, rfl, f.cause.category_ne⟩

/-- A proper ending that is not normal is a fault of the script, up to the two exceptions. -/
theorem Failure.ofScript_of_proper {e : Interrupt} (h : proper (some e) = true) :
    (Failure.ofInterrupt e).OfScript ∨ e = .longInteger ∨ e = .endless := by
  cases e with
  | fault f => exact .inl (Failure.ofScript_fault f)
  | longInteger => exact .inr (.inl rfl)
  | endless => exact .inr (.inr rfl)
  | _ => cases h

namespace Reporter

variable {r : Reporter}

theorem handle_ofScript (hr : r.fatal = false) {failure : Failure} (h : failure.OfScript) :
    ∃ d, r.handle failure = (r.format d false ++ "\n", { r with reported := r.reported + 1 }, .resumed) := by
  obtain ⟨d, rfl, -⟩ := h
  refine ⟨d, ?_⟩
  simp [handle, report, reportAll, conclude, hr, String.join]

/-- What is not the script's own is reported as internal, and escapes. -/
theorem handle_crash (hr : r.fatal = false) (name text : String) :
    ∃ d, r.handle (.crash name text) =
      (r.format d true ++ "\n", { r with reported := r.reported + 1 }, .escaped (.crash name text)) := by
  refine ⟨{ category := .runtime, cause := "unknown error: '" ++ name ++ ": " ++ text ++ "'" }, ?_⟩
  simp [handle, report, reportAll, conclude, hr, String.join]

theorem handle_ofDigits (hr : r.fatal = false) {failure : Failure} (h : failure.OfDigits) :
    ∃ d, r.handle failure =
      (r.format d true ++ "\n", { r with reported := r.reported + 1 }, .escaped failure) := by
  cases h with
  | number digits => exact handle_crash hr _ _
  | integer => exact handle_crash hr _ _

theorem handle_fatal (r : Reporter) (failure : Failure) : (r.handle failure).2.1.fatal = r.fatal := by
  cases failure <;> rfl

end Reporter

/-! ## Programs -/

/-- The world after the accepted ones among some pieces of source, each ended in whatever way. -/
def World.afterChunks (w : World) (budget room : Nat) (chunks : List Chunk) : World :=
  chunks.foldl (fun w chunk =>
    match chunk.program? with
    | none => w
    | some program => w.after (interpretWithin budget room chunk.echo program)) w

theorem Idle.afterChunks {w : World} (h : Idle w) (budget room : Nat) (chunks : List Chunk) :
    Idle (w.afterChunks budget room chunks) := by
  induction chunks generalizing w with
  | nil => exact h
  | cons chunk chunks ih =>
      rw [World.afterChunks, List.foldl_cons]
      apply ih
      split
      · exact h
      · next program hprogram => exact h.after (Chunk.placed_of_program? hprogram)

theorem Idle.ofScript_of_error {w w' : World} {budget room : Nat} {echo : Bool} {program : Program} {e : Interrupt}
    (h : Idle w) (hplaced : program.placed = true)
    (herror : interpretWithin budget room echo program w = .error e w') :
    (Failure.ofInterrupt e).OfScript ∨ e = .longInteger ∨ e = .endless :=
  Failure.ofScript_of_proper (h.proper_of_error hplaced herror)

/-! ## Sessions -/

namespace Session

/-- What holds of an interactive session between two pieces of source: a failure is not fatal, the world is idle, and
what is queued was accepted. -/
structure Ready (s : Session) : Prop where
  mild : s.reporter.fatal = false
  idle : Idle s.world
  placed : ∀ program ∈ s.queue, program.placed = true

/-- How a piece of source is followed by the next, or why not. -/
def GoesOn (aftermath : Aftermath) : Prop :=
  aftermath = .resumed ∨ ∃ failure, aftermath = .escaped failure ∧ failure.OfDigits

variable {s : Session}

theorem Ready.noteAll (h : s.Ready) (events : List Event) : (s.noteAll events).Ready := by
  refine ⟨h.mild, ?_, h.placed⟩
  have hworld (w : World) (hw : Idle w) : Idle (events.foldl World.note w) := by
    induction events generalizing w with
    | nil => exact hw
    | cons event events ih => exact ih (w.note event) ⟨⟨hw.sane.code⟩, hw.known, hw.still⟩
  exact hworld s.world h.idle

theorem Ready.write (h : s.Ready) (text : String) : (s.write text).Ready :=
  ⟨h.mild, ⟨⟨h.idle.sane.code⟩, h.idle.known, h.idle.still⟩, h.placed⟩

theorem usual_of_parseSource {line : Int} {interactive : Bool} {source : String} {failure : Failure}
    (h : (parseSource line interactive source).result = .error failure) : failure.Usual := by
  unfold parseSource at h
  split at h
  · next long _ => exact Except.error.inj h ▸ .digits (.number long.digits)
  · split at h
    · split at h
      · exact Except.error.inj h ▸ .stackExhausted
      · dsimp only at h
        split at h
        · cases h
        · exact Except.error.inj h ▸ .phase _ _
    · exact Except.error.inj h ▸ .phase _ _

theorem Ready.add (h : s.Ready) (source : String) (line : Int) :
    (s.add source line).1.Ready ∧ ∀ failure, (s.add source line).2 = .error failure → failure.Usual := by
  unfold Session.add
  have hnoted := h.noteAll (parseSource line s.interactive source).events
  dsimp only
  split
  · next program hprogram =>
    refine ⟨⟨hnoted.mild, (hnoted.noteAll _).idle, ?_⟩, nofun⟩
    exact List.forall_mem_append.2 ⟨h.placed, List.forall_mem_singleton.2 (placed_of_parseSource hprogram)⟩
  · next failure hfailure => exact ⟨hnoted, fun _ heq => Except.error.inj heq ▸ usual_of_parseSource hfailure⟩

theorem Ready.runAll (h : s.Ready) {programs : List Program} (hplaced : ∀ program ∈ programs, program.placed = true) :
    (s.runAll programs).1.Ready ∧ ∀ failure, (s.runAll programs).2 = .error failure → failure.Usual := by
  induction programs generalizing s with
  | nil => exact ⟨⟨h.mild, h.idle, fun _ hmem => absurd hmem List.not_mem_nil⟩, nofun⟩
  | cons program rest ih =>
      obtain ⟨hfirst, hrest⟩ := List.forall_mem_cons.1 hplaced
      have hidle : Idle (s.world.after (interpret s.interactive program)) := h.idle.after hfirst
      unfold World.after at hidle
      rw [Session.runAll]
      split
      · next w' hok =>
        simp only [hok] at hidle
        exact ih ⟨h.mild, hidle, h.placed⟩ hrest
      · next e w' herror =>
        simp only [herror] at hidle
        refine ⟨⟨h.mild, hidle, hrest⟩, fun failure hfailure => ?_⟩
        obtain rfl := Except.error.inj hfailure
        obtain hscript | rfl | rfl := h.idle.ofScript_of_error hfirst herror
        · exact .script hscript
        · exact .digits .integer
        · exact .interrupted

theorem Ready.handle (h : s.Ready) {failure : Failure} (hfailure : failure.Usual) :
    (s.handle failure).1.Ready ∧ GoesOn (s.handle failure).2 := by
  have hwritten := h.write (s.reporter.handle failure).1
  refine ⟨⟨(s.reporter.handle_fatal failure).trans h.mild, hwritten.idle, h.placed⟩, ?_⟩
  show GoesOn (s.reporter.handle failure).2.2
  cases hfailure with
  | script hscript =>
      obtain ⟨d, hhandle⟩ := Reporter.handle_ofScript h.mild hscript
      exact .inl (by rw [hhandle])
  | digits hdigits =>
      obtain ⟨d, hhandle⟩ := Reporter.handle_ofDigits h.mild hdigits
      exact .inr ⟨failure, by rw [hhandle], hdigits⟩
  | phase | stackExhausted | interrupted =>
      exact .inl (by simp [Reporter.handle, Reporter.report, Reporter.conclude, h.mild])

/-- After a piece of source the session is ready for the next, and goes on to it unless an integer has too many
digits. -/
theorem Ready.chunk (h : s.Ready) (source : String) (line : Int) :
    (s.chunk source line).1.Ready ∧ GoesOn (s.chunk source line).2 := by
  obtain ⟨hadded, hrefused⟩ := h.add source line
  unfold Session.chunk
  split
  · next s₁ failure hadd =>
    rw [hadd] at hadded hrefused
    exact hadded.handle (hrefused failure rfl)
  · next s₁ program hadd =>
    rw [hadd] at hadded
    obtain ⟨hran, hfailed⟩ := hadded.runAll hadded.placed
    rw [← Session.run] at hran hfailed
    split
    · next s₂ hrun =>
      rw [hrun] at hran
      exact ⟨hran, .inl rfl⟩
    · next s₂ failure hrun =>
      rw [hrun] at hran hfailed
      exact hran.handle (hfailed failure rfl)

/-- The session after some pieces of source, each with the number of its first line. -/
def afterPieces (s : Session) (pieces : List (String × Int)) : Session :=
  pieces.foldl (fun s (source, line) => (s.chunk source line).1) s

theorem Ready.afterPieces (h : s.Ready) (pieces : List (String × Int)) : (s.afterPieces pieces).Ready := by
  induction pieces generalizing s with
  | nil => exact h
  | cons piece pieces ih => exact ih (h.chunk piece.1 piece.2).1

end Session

/-- An accepted program, run in a world that accepted programs left behind, fails by a fault of the script, unless an
integer is too long to be written or a loop does not end. So a session in which failures are not fatal goes on after
every piece of source but one with an integer or a number of too many digits. -/
theorem failures_ofScript (chance : Random.Source) (rate : Int) (input : List String) :
    (∀ budget room chunks chunk program e w', Chunk.program? chunk = some program →
      interpretWithin budget room chunk.echo program
        ((World.initial chance (.uniform rate) input).afterChunks budget room chunks) = .error e w' →
      (Failure.ofInterrupt e).OfScript ∨ e = .longInteger ∨ e = .endless) ∧
    ∀ path interactive color reported pieces source line,
      let start : Session :=
        ⟨path, interactive, ⟨false, color, reported⟩, World.initial chance (.uniform rate) input, []⟩
      Session.GoesOn ((start.afterPieces pieces).chunk source line).2 := by
  have hidle := idle_initial chance rate input
  refine ⟨?_, ?_⟩
  · intro budget room chunks chunk program e w' hprogram herror
    exact (hidle.afterChunks budget room chunks).ofScript_of_error (Chunk.placed_of_program? hprogram) herror
  · intro path interactive color reported pieces source line start
    have hstart : start.Ready := ⟨rfl, hidle, fun _ hmem => absurd hmem List.not_mem_nil⟩
    exact ((hstart.afterPieces pieces).chunk source line).2

/-- A function of one piece of source that divides by zero in a call from the next. -/
theorem failures_ofScript_division :
    let first : Chunk := ⟨"define f(n) { return 1 / n; }", 1, false, false⟩
    let second : Chunk := ⟨"f(0)", 2, true, true⟩
    let w := (World.initial (.ofScript []) (.uniform 50) []).afterChunks 10 60 [first]
    ∃ program e w', second.program? = some program ∧ interpretWithin 10 60 true program w = .error e w' ∧
      ((Failure.ofInterrupt e).OfScript ∨ e = .longInteger ∨ e = .endless) := by
  intro first second w
  have hfails : (endings 10 60 [second] w).any Option.isSome = true := by decide +kernel
  cases hprogram : second.program? with
  | none => simp [endings, hprogram] at hfails
  | some program =>
      cases hrun : interpretWithin 10 60 second.echo program w with
      | ok _ w' => simp [endings, hprogram, hrun] at hfails
      | error e w' =>
          have hfailure := (failures_ofScript (.ofScript []) 50 []).1 10 60 [first] second program e w' hprogram hrun
          exact ⟨program, e, w', rfl, hrun, hfailure⟩

/-- Printing a number squared nine times over is not a failure of the script's own. -/
theorem longInteger_not_ofScript :
    let chunk : Chunk := ⟨"var x = 2147483647; for i in 1 to 9 { x = x * x; } print(x);", 1, false, false⟩
    endings turnBudget stackRoom [chunk] (World.initial (.ofScript []) (.uniform 50) []) = [some .longInteger] ∧
      ¬ (Failure.ofInterrupt .longInteger).OfScript ∧
      ∀ r : Reporter, r.fatal = false → ∃ d, r.handle (.ofInterrupt .longInteger) =
        (r.format d true ++ "\n", { r with reported := r.reported + 1 }, .escaped .longInteger) := by
  refine ⟨by decide +kernel, ?_, fun r hr => Reporter.handle_ofDigits hr .integer⟩
  rintro ⟨d, hd, -⟩
  cases hd

end SafariScript
