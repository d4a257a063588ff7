import SafariScript.Proofs.Eval.ControlFlow
import SafariScript.Proofs.Eval.Effect
import SafariScript.Proofs.Lockstep.Interpreter

/-!
# Echoing values

With `echo`, a program also prints the values of its expression statements. That changes nothing but the output
(`echo_adds_lines`): each value that is shown adds one line, behind what its own statement wrote.

The proof compares two runs that differ in what was written before and in the room on their stacks, since an
expression that is echoed stands two frames higher. `Follows` relates two steps from a world: unless the first
finds the stack exhausted, the second ends in the same way from that world with any other output, and both add
the same text to their output. Steps in lockstep follow each other (`Lockstep.follows`), so nothing that a
program does depends on what it has written.
-/

namespace SafariScript

open Eval

variable {α β : Type}

/-! ## Two runs -/

/-- The end of a step with its world changed. -/
def onWorld (change : World → World) : EStateM.Result Interrupt World α → EStateM.Result Interrupt World α
  | .ok a w => .ok a (change w)
  | .error e w => .error e (change w)

theorem inScope_apply (scope : Nat) (p : Eval α) (w : World) :
    inScope scope p w = onWorld (fun w' => { w' with scope := w.scope }) (p { w with scope }) := by
  unfold inScope
  cases p { w with scope } <;> rfl

theorem running_apply (scope : Nat) (body : Eval Unit) (w : World) :
    running scope body w = onWorld (fun w' => { w' with running := w'.running - 1 })
      (inScope scope body { w with running := w.running + 1 }) := by
  unfold running
  cases inScope scope body { w with running := w.running + 1 } <;> rfl

/-- The stack has no room left. A call reports this as a fault, and so does a program. -/
def Interrupt.exhausts : Interrupt → Bool
  | .overflow => true
  | .fault f => f.cause == .recursionLimit
  | _ => false

/-- A step ended for want of room. -/
def exhausted : EStateM.Result Interrupt World α → Bool
  | .ok _ _ => false
  | .error e _ => e.exhausts

theorem exists_error_of_exhausted {r : EStateM.Result Interrupt World α} (h : exhausted r = true) :
    ∃ e w, r = .error e w ∧ e.exhausts = true := by
  cases r with
  | ok a w => cases h
  | error e w => exact ⟨e, w, rfl, h⟩

/-- Unless the first step exhausts the stack, the second one ends in the same way from the same world with
another output, and both add the same text to their output. -/
def Follows (w : World) (p q : Eval α) : Prop :=
  exhausted (p w) = true ∨ ∃ text, (w.after p).output = w.output ++ text ∧
    ∀ output, q (w.wrote output) = onWorld (·.wrote (output ++ text)) (p w)

namespace Follows

variable {w : World}

theorem bind {p q : Eval α} {f g : α → Eval β} (first : Follows w p q)
    (rest : ∀ a w', p w = .ok a w' → Follows w' (f a) (g a)) : Follows w (p >>= f) (q >>= g) := by
  unfold Follows World.after
  simp only [bind_apply]
  rcases first with hexhausted | ⟨text, houtput, hq⟩
  · obtain ⟨e, w', hp, he⟩ := exists_error_of_exhausted hexhausted
    left
    rw [hp]
    exact he
  · unfold World.after at houtput
    cases hp : p w with
    | error e w' =>
        rw [hp] at houtput
        simp only [hq, hp]
        exact Or.inr ⟨text, houtput, fun output => rfl⟩
    | ok a w' =>
        rw [hp] at houtput
        rcases rest a w' hp with hexhausted | ⟨text', houtput', hg⟩
        · exact Or.inl hexhausted
        · simp only [hq, hp]
          refine Or.inr ⟨text ++ text', ?_, fun output => ?_⟩
          · show (w'.after (f a)).output = _
            rw [houtput', houtput, String.append_assoc]
          · rw [← String.append_assoc]
            exact hg (output ++ text)

/-- A step that writes nothing. -/
theorem of_quiet {p q : Eval α} (houtput : (w.after p).output = w.output)
    (h : ∀ output, q (w.wrote output) = onWorld (·.wrote output) (p w)) : Follows w p q := by
  refine Or.inr ⟨"", by rw [houtput, String.append_empty], fun output => ?_⟩
  rw [h, String.append_empty]

theorem pure (a : α) : Follows w (Pure.pure a) (Pure.pure a) :=
  of_quiet rfl fun _ => rfl

theorem throw (e : Interrupt) : Follows w (MonadExcept.throw e : Eval α) (MonadExcept.throw e) :=
  of_quiet rfl fun _ => rfl

/-- Look at the world, but not at what was written. -/
theorem look {f g : World → Eval α} (blind : ∀ output, g (w.wrote output) = g w)
    (rest : Follows w (f w) (g w)) : Follows w (get >>= f) (get >>= g) := by
  rcases rest with hexhausted | ⟨text, houtput, hg⟩
  · exact Or.inl hexhausted
  · refine Or.inr ⟨text, houtput, fun output => ?_⟩
    rw [bind_of_ok (get_apply _), blind]
    exact hg output

theorem change {f : World → α × World}
    (blind : ∀ w output, f (w.wrote output) = ((f w).1, (f w).2.wrote output)) :
    Follows w (modifyGet f : Eval α) (modifyGet f) := by
  refine of_quiet ?_ fun output => ?_
  · show (f w).2.output = w.output
    -- writing what was written already is no change
    have hsame : f w = ((f w).1, (f w).2.wrote w.output) := blind w w.output
    rw [hsame]
    rfl
  · show EStateM.Result.ok (f (w.wrote output)).1 (f (w.wrote output)).2 = _
    rw [blind]
    rfl

/-- A step that runs in a world prepared for it, and whose end is turned into another one by what it is, not by
what was written. -/
theorem within {p q : Eval α} {p' q' : Eval β} (prepare : World → World)
    (turn : EStateM.Result Interrupt World α → EStateM.Result Interrupt World β)
    (hp : p' w = turn (p (prepare w)))
    (hq : ∀ output, q' (w.wrote output) = turn (q ((prepare w).wrote output)))
    (hprepare : (prepare w).output = w.output)
    (hturn : ∀ r output, turn (onWorld (·.wrote output) r) = onWorld (·.wrote output) (turn r))
    (hexhausted : ∀ e w', e.exhausts = true → exhausted (turn (.error e w')) = true)
    (h : Follows (prepare w) p q) : Follows w p' q' := by
  rcases h with hp' | ⟨text, houtput, hfollows⟩
  · obtain ⟨e, w', hr, he⟩ := exists_error_of_exhausted hp'
    left
    rw [hp, hr]
    exact hexhausted e w' he
  · have hresult (output : String) : q' (w.wrote output) = onWorld (·.wrote (output ++ text)) (p' w) := by
      rw [hq, hfollows, hturn, hp]
    refine Or.inr ⟨text, ?_, hresult⟩
    -- what is written at the end is what was written when the step ended
    have hsame : onWorld (·.wrote (w.output ++ text)) (p (prepare w)) = p (prepare w) := by
      unfold World.after at houtput
      rw [← hprepare, ← houtput]
      cases p (prepare w) <;> rfl
    have hend : p' w = onWorld (·.wrote (w.output ++ text)) (p' w) := by
      rw [hp, ← hturn, hsame]
    unfold World.after
    rw [hend]
    cases p' w <;> rfl

theorem inScope (scope : Nat) {p q : Eval α} (h : Follows { w with scope } p q) :
    Follows w (inScope scope p) (inScope scope q) := by
  refine within (fun w => { w with scope }) (onWorld fun w' => { w' with scope := w.scope }) (inScope_apply scope p w)
    (fun output => inScope_apply scope q (w.wrote output)) rfl (fun r output => ?_) (fun e w' he => he) h
  cases r <;> rfl

theorem running (scope : Nat) {p q : Eval Unit}
    (h : Follows { w with running := w.running + 1, scope } p q) :
    Follows w (running scope p) (running scope q) := by
  refine within (fun w => { w with running := w.running + 1 }) (onWorld fun w' => { w' with running := w'.running - 1 })
    (running_apply scope p w) (fun output => running_apply scope q (w.wrote output)) rfl (fun r output => ?_)
    (fun e w' he => he) (inScope scope h)
  cases r <;> rfl

theorem once {p q : Eval Unit} (h : Follows w p q) : Follows w (once p) (once q) := by
  refine within id (fun r => Eval.once (fun _ => r) w) rfl (fun output => rfl) rfl (fun r output => ?_)
    (fun e w' he => ?_) h
  · cases r with
    | ok a w' => rfl
    | error e w' => cases e <;> rfl
  · cases e with
    | breakLoop | continueLoop | run => cases he
    | _ => exact he

theorem callResult (place : Word) {p q : Eval Unit} (h : Follows w p q) :
    Follows w (callResult place p) (callResult place q) := by
  refine within id (fun r => Eval.callResult place (fun _ => r) w) rfl (fun output => rfl) rfl
    (fun r output => ?_) (fun e w' he => ?_) h
  · cases r with
    | ok a w' => rfl
    | error e w' => cases e <;> rfl
  · cases e with
    | ret value | run => cases he
    -- the call reports that there was no room
    | overflow => rfl
    | _ => exact he

theorem ofFault (result : Except Fault α) : Follows w (ofFault result) (ofFault result) := by
  cases result with
  | ok a => exact pure a
  | error f => exact throw (.fault f)

theorem declare (name : Word) (value : Value) : Follows w (declare name value) (declare name value) :=
  look (fun _ => rfl) ((ofFault _).bind fun _ _ _ => change fun _ _ => rfl)

theorem bindParams (params : List Word) (args : List Value) :
    Follows w (bindParams params args) (bindParams params args) := by
  induction params generalizing args w with
  | nil => exact pure ()
  | cons param params ih =>
      cases args with
      | nil => exact pure ()
      | cons arg args => exact (declare param arg).bind fun _ _ _ => ih args

theorem inBlock {p q : Eval Unit} (h : ∀ w, Follows w p q) : Follows w (inBlock p) (inBlock q) := by
  have henter : Follows w enterHere enterHere := look (fun _ => rfl) (change fun _ _ => rfl)
  exact henter.bind fun scope _ _ => inScope scope (h _)

theorem callFunction {f g : List Stmt → Eval Unit} (h : ∀ ss w, Follows w (f ss) (g ss)) (id : Nat)
    (args : List Value) (place : Word) :
    Follows w (callFunction f id args place) (callFunction g id args place) := by
  refine look (fun _ => rfl) ?_
  dsimp only
  split
  · exact throw (.fault _)
  · have henter : Follows w (enter (w.function id).scope) (enter (w.function id).scope) :=
      change fun _ _ => rfl
    refine henter.bind fun scope _ _ => (inScope scope (bindParams _ args)).bind fun _ _ _ => ?_
    exact callResult place (running scope (h _ _))

end Follows

/-- Steps in lockstep follow each other from every world. -/
theorem Lockstep.follows {declares : Bool} {p q : Eval α} (h : Lockstep declares p q) (w : World) :
    Follows w p q := by
  induction h generalizing w with
  | starved q => exact Or.inl rfl
  | pure a => exact .pure a
  | throw e => exact .throw e
  | bind _ _ ih₁ ih₂ => exact (ih₁ w).bind fun a w' _ => ih₂ a w'
  | look blind _ ih => exact .look (blind w) (ih w w)
  | change blind _ _ => exact .change blind
  | write text =>
      refine Or.inr ⟨text, rfl, fun output => rfl⟩
  | replace scope name value => exact .change fun _ _ => rfl
  | declare name value => exact .declare name value
  | once _ ih => exact .once (ih w)
  | inBlock _ ih => exact .inBlock ih
  | callFunction _ id args place ih => exact .callFunction ih id args place

/-! ## Statements at the top of a program -/

section Top

variable (budget room : Nat)

/-- The value of a statement at the top of a program: that of an expression, for which two frames of the stack
are gone, and null for every other statement. -/
def topValue : Stmt → Eval Value
  | .expr e => eval budget (room - 2) e
  | s => do
    exec budget room s
    return .null

/-- The same if values are echoed: an expression has the whole stack. -/
def echoedValue : Stmt → Eval Value
  | .expr e => eval budget room e
  | s => topValue budget room s

/-- Print a value unless it is null. -/
def echoValue (v : Value) : Eval Unit := do
  if v != .null then say (← render room v)

theorem execTop_silent (s : Stmt) :
    execTop budget room false s = topValue budget room s >>= fun _ => pure () := by
  have hexec (s : Stmt) : exec budget room s =
      (do exec budget room s; return Value.null) >>= fun _ => pure () := by
    simp
  cases s with
  | expr e =>
      by_cases h : room < 6
      · have hexpr : exec budget room (.expr e) = throw .overflow := exec_of_lt h _
        have hvalue : topValue budget room (.expr e) = throw .overflow := eval_of_lt (by omega) e
        rw [hvalue]
        exact hexpr
      · obtain ⟨n, rfl⟩ : ∃ n, room = n + 6 := ⟨room - 6, by omega⟩
        rfl
  | _ => exact hexec _

theorem execTop_echo (s : Stmt) :
    execTop budget room true s = echoedValue budget room s >>= echoValue room := by
  have hnull : echoValue room .null = pure () := rfl
  have hexec (s : Stmt) : exec budget room s =
      (do exec budget room s; return Value.null) >>= echoValue room := by
    simp [hnull]
  cases s with
  | expr e => rfl
  | _ => exact hexec _

theorem follows_echoedValue (w : World) (s : Stmt) :
    Follows w (topValue budget room s) (echoedValue budget room s) := by
  have hsame := scales budget (Nat.le_refl room)
  have hexec (s : Stmt) : Lockstep true (exec budget room s) (exec budget room s) := hsame.exec true s (Or.inr rfl)
  cases s with
  | expr e => exact ((scales budget (Nat.sub_le room 2)).eval true e).follows w
  | _ => exact ((hexec _).bind fun _ => .pure Value.null).follows w

/-- What a statement at the top of a program adds to the output: the text that it writes, and the line for its
value if that is echoed. -/
structure Piece where
  text : String
  line : Option String

/-- What a statement adds if values are echoed. -/
def Piece.echoed (piece : Piece) : String :=
  match piece.line with
  | some line => piece.text ++ (line ++ "\n")
  | none => piece.text

/-- What the statements of a program add to the output, one after the other. The run is the one in which no
values are echoed; a line stands behind the text of every statement whose value is not null. -/
inductive Transcript : World → List Stmt → List Piece → Prop
  | over (w : World) : Transcript w [] []
  | stopped {w w' : World} {s : Stmt} {e : Interrupt} {written : String} (rest : List Stmt)
      (run : topValue budget room s w = .error e w') (adds : w'.output = w.output ++ written) :
      Transcript w (s :: rest) [⟨written, none⟩]
  | null {w w' : World} {s : Stmt} {written : String} {rest : List Stmt} {pieces : List Piece}
      (run : topValue budget room s w = .ok .null w') (adds : w'.output = w.output ++ written)
      (later : Transcript w' rest pieces) : Transcript w (s :: rest) (⟨written, none⟩ :: pieces)
  | value {w w' : World} {s : Stmt} {v : Value} {written line : String} {rest : List Stmt}
      {pieces : List Piece} (run : topValue budget room s w = .ok v w') (shown : v ≠ .null)
      (adds : w'.output = w.output ++ written) (text : text room w' v = .ok line)
      (later : Transcript w' rest pieces) : Transcript w (s :: rest) (⟨written, some line⟩ :: pieces)

/-- Every value that is to be echoed can be written as text when it is there. -/
def printable : List Stmt → World → Bool
  | [], _ => true
  | s :: rest, w =>
    match topValue budget room s w with
    | .error _ _ => true
    | .ok v w' => (v == .null || (text room w' v).isOk) && printable rest w'

/-- The statements of a program run with echo as they do without it; only that the output has the lines of
their values besides. -/
def Echoes (w : World) (ss : List Stmt) (pieces : List Piece) : Prop :=
  (w.after (ss.forM (execTop budget room false))).output =
      w.output ++ String.join (pieces.map Piece.text) ∧
    ∀ output, ss.forM (execTop budget room true) (w.wrote output) =
      onWorld (·.wrote (output ++ String.join (pieces.map Piece.echoed)))
        (ss.forM (execTop budget room false) w)

variable {budget room}

theorem echoes_nil (w : World) : Echoes budget room w [] [] := by
  refine ⟨?_, fun output => ?_⟩
  · show w.output = w.output ++ String.join []
    simp
  · show EStateM.Result.ok () (w.wrote output) = .ok () (w.wrote (output ++ String.join []))
    simp

/-- A statement that is interrupted ends the program, with echo and without. -/
theorem echoes_stopped {w w' : World} {s : Stmt} {e : Interrupt} {written : String} (rest : List Stmt)
    (silent : execTop budget room false s w = .error e w') (adds : w'.output = w.output ++ written)
    (echo : ∀ output, execTop budget room true s (w.wrote output) = .error e (w'.wrote (output ++ written))) :
    Echoes budget room w (s :: rest) [⟨written, none⟩] := by
  have hsilent : (s :: rest).forM (execTop budget room false) w = .error e w' :=
    bind_eq_error.2 (Or.inl silent)
  refine ⟨?_, fun output => ?_⟩
  · rw [World.after, hsilent]
    simpa using adds
  · rw [hsilent]
    refine bind_eq_error.2 (Or.inl ?_)
    simpa [Piece.echoed] using echo output

/-- The piece of a statement stands before those of the rest. -/
theorem echoes_cons {w w' : World} {s : Stmt} {rest : List Stmt} {piece : Piece} {pieces : List Piece}
    (silent : execTop budget room false s w = .ok () w') (adds : w'.output = w.output ++ piece.text)
    (echo : ∀ output, execTop budget room true s (w.wrote output) = .ok () (w'.wrote (output ++ piece.echoed)))
    (later : Echoes budget room w' rest pieces) : Echoes budget room w (s :: rest) (piece :: pieces) := by
  have hsilent : (s :: rest).forM (execTop budget room false) w = rest.forM (execTop budget room false) w' :=
    bind_of_ok silent _
  refine ⟨?_, fun output => ?_⟩
  · have houtput := later.1
    rw [World.after] at houtput ⊢
    rw [hsilent, houtput, adds, List.map_cons, String.join_cons, String.append_assoc]
  · have hecho : (s :: rest).forM (execTop budget room true) (w.wrote output) =
        rest.forM (execTop budget room true) (w'.wrote (output ++ piece.echoed)) := bind_of_ok (echo output) _
    rw [hecho, hsilent, later.2, List.map_cons, String.join_cons, String.append_assoc]

/-- A statement that ends with a value is followed with echo until the value is to be printed. -/
theorem execTop_of_value {w w' : World} {s : Stmt} {v : Value} (run : topValue budget room s w = .ok v w') :
    execTop budget room false s w = .ok () w' ∧ ∃ written, w'.output = w.output ++ written ∧
      ∀ output, execTop budget room true s (w.wrote output) = echoValue room v (w'.wrote (output ++ written)) := by
  refine ⟨?_, ?_⟩
  · rw [execTop_silent, bind_of_ok run]
    rfl
  · rcases follows_echoedValue budget room w s with hexhausted | ⟨written, adds, hecho⟩
    · rw [run] at hexhausted
      cases hexhausted
    · rw [World.after, run] at adds
      refine ⟨written, adds, fun output => ?_⟩
      have hvalue : echoedValue budget room s (w.wrote output) = .ok v (w'.wrote (output ++ written)) := by
        rw [hecho, run]
        rfl
      rw [execTop_echo, bind_of_ok hvalue]

theorem execTop_of_error {w w' : World} {s : Stmt} {e : Interrupt} (run : topValue budget room s w = .error e w')
    (hroom : e.exhausts = false) :
    execTop budget room false s w = .error e w' ∧ ∃ written, w'.output = w.output ++ written ∧
      ∀ output, execTop budget room true s (w.wrote output) = .error e (w'.wrote (output ++ written)) := by
  refine ⟨?_, ?_⟩
  · rw [execTop_silent]
    exact bind_eq_error.2 (Or.inl run)
  · rcases follows_echoedValue budget room w s with hexhausted | ⟨written, adds, hecho⟩
    · rw [run, exhausted, hroom] at hexhausted
      cases hexhausted
    · rw [World.after, run] at adds
      refine ⟨written, adds, fun output => ?_⟩
      rw [execTop_echo]
      refine bind_eq_error.2 (Or.inl ?_)
      rw [hecho, run]
      rfl

theorem echoValue_of_text {w : World} {v : Value} {line : String} (shown : v ≠ .null)
    (htext : text room w v = .ok line) (output : String) :
    echoValue room v (w.wrote output) = .ok () (w.wrote (output ++ (line ++ "\n"))) := by
  have hrender : render room v (w.wrote output) = .ok line (w.wrote output) := by
    rw [render, text, textWithin_wrote, ← text, htext]
  have hecho : echoValue room v = render room v >>= say := by
    rw [echoValue, if_pos (bne_iff_ne.2 shown)]
  rw [hecho, bind_of_ok hrender]
  rfl

/-- The run lemma: statement by statement, a program runs with echo as it does without it. -/
theorem exists_transcript (ss : List Stmt) (w : World)
    (hroom : exhausted (ss.forM (execTop budget room false) w) = false)
    (hprintable : printable budget room ss w = true) :
    ∃ pieces, Transcript budget room w ss pieces ∧ Echoes budget room w ss pieces := by
  induction ss generalizing w with
  | nil => exact ⟨[], .over w, echoes_nil w⟩
  | cons s rest ih =>
      unfold printable at hprintable
      cases run : topValue budget room s w with
      | error e w' =>
          have hsilent : (s :: rest).forM (execTop budget room false) w = .error e w' := by
            refine bind_eq_error.2 (Or.inl ?_)
            rw [execTop_silent]
            exact bind_eq_error.2 (Or.inl run)
          rw [hsilent] at hroom
          obtain ⟨silent, written, adds, echo⟩ := execTop_of_error run hroom
          exact ⟨[⟨written, none⟩], .stopped rest run adds, echoes_stopped rest silent adds echo⟩
      | ok v w' =>
          simp only [run, Bool.and_eq_true, Bool.or_eq_true] at hprintable
          obtain ⟨hshown, hlater⟩ := hprintable
          obtain ⟨silent, written, adds, echo⟩ := execTop_of_value run
          have hsilent : (s :: rest).forM (execTop budget room false) w =
              rest.forM (execTop budget room false) w' := bind_of_ok silent _
          rw [hsilent] at hroom
          obtain ⟨pieces, later, hechoes⟩ := ih w' hroom hlater
          by_cases hnull : v = .null
          · subst hnull
            exact ⟨⟨written, none⟩ :: pieces, .null run adds later, echoes_cons silent adds echo hechoes⟩
          · have hok : (text room w' v).isOk = true := by
              rcases hshown with h | h
              · exact absurd (eq_of_beq h) hnull
              · exact h
            obtain ⟨line, hline⟩ : ∃ line, text room w' v = .ok line := by
              cases htext : text room w' v with
              | ok line => exact ⟨line, rfl⟩
              | error e =>
                  rw [htext] at hok
                  cases hok
            refine ⟨⟨written, some line⟩ :: pieces, .value run hnull adds hline later, ?_⟩
            refine echoes_cons silent adds (fun output => ?_) hechoes
            rw [echo, echoValue_of_text hnull hline, String.append_assoc]
            rfl

end Top

/-! ## Programs -/

/-- A program without echo that does not exhaust the stack and all of whose values can be written as text runs
with echo as it does without: from every world it ends in the same way, with everything but the output the same.
Behind the text of every statement whose value is not null the output has the line of that value, and nothing
else is added to it. An expression that is echoed has two frames more of the stack, so that a program can be run
with echo that exhausts the stack without it. -/
theorem echo_adds_lines (budget room : Nat) (program : Program) (w : World)
    (hroom : exhausted (interpretWithin budget room false program w) = false)
    (hprintable : printable budget room program.statements w = true) :
    ∃ pieces, Transcript budget room w program.statements pieces ∧
      (w.after (interpretWithin budget room false program)).output =
        w.output ++ String.join (pieces.map Piece.text) ∧
      interpretWithin budget room true program w =
        onWorld (·.wrote (w.output ++ String.join (pieces.map Piece.echoed)))
          (interpretWithin budget room false program w) := by
  have hstatements : exhausted (program.statements.forM (execTop budget room false) w) = false := by
    unfold interpretWithin at hroom
    cases hrun : program.statements.forM (execTop budget room false) w with
    | ok a w' => rfl
    | error e w' =>
        rw [hrun] at hroom
        cases e with
        | run => rfl
        | overflow => cases hroom
        | _ => exact hroom
  obtain ⟨pieces, htranscript, houtput, hecho⟩ := exists_transcript program.statements w hstatements hprintable
  -- the world itself is the one with what it has written
  have hsame : program.statements.forM (execTop budget room true) w =
      onWorld (·.wrote (w.output ++ String.join (pieces.map Piece.echoed)))
        (program.statements.forM (execTop budget room false) w) := hecho w.output
  refine ⟨pieces, htranscript, ?_, ?_⟩
  · unfold World.after interpretWithin at *
    cases hrun : program.statements.forM (execTop budget room false) w with
    | ok a w' => simpa only [hrun] using houtput
    | error e w' =>
        simp only [hrun] at houtput
        cases e <;> exact houtput
  · unfold interpretWithin
    rw [hsame]
    cases program.statements.forM (execTop budget room false) w with
    | ok a w' => rfl
    | error e w' => cases e <;> rfl

/-- A function prints its argument and returns the next integer. Its result is pushed to an array, which gives
null; then it is called for its own value, the array is named, and a call without arguments ends the program. -/
theorem echo_adds_lines_called :
    let body : List Stmt := [.print (.ident ⟨"n", 1⟩),
      .ret 1 (some (.binary (.ident ⟨"n", 1⟩) .add 1 (.literal (.int 1))))]
    let call (name : String) (arguments : List Expr) : Expr := .call (.ident ⟨name, 3⟩) 3 arguments []
    let program : Program := ⟨[.define ⟨"f", 1⟩ [⟨"n", 1⟩] body, .var ⟨"a", 2⟩ (some (.array [])),
      .expr (call "push" [.ident ⟨"a", 3⟩, call "f" [.literal (.int 1)]]), .expr (call "f" [.literal (.int 4)]),
      .expr (.ident ⟨"a", 3⟩), .expr (call "f" []), .print (.ident ⟨"a", 4⟩)]⟩
    let w := World.initial (.ofScript []) .unknown []
    exhausted (interpretWithin 3 60 false program w) = false ∧ printable 3 60 program.statements w = true ∧
      (w.after (interpretWithin 3 60 false program)).output = "1\n4\n" ∧
      (w.after (interpretWithin 3 60 true program)).output = "1\n4\n5\n[2]\n" ∧
      ∃ pieces, Transcript 3 60 w program.statements pieces ∧
        interpretWithin 3 60 true program w =
          onWorld (·.wrote (w.output ++ String.join (pieces.map Piece.echoed)))
            (interpretWithin 3 60 false program w) := by
  intro body call program w
  have hroom : exhausted (interpretWithin 3 60 false program w) = false := by decide +kernel
  have hprintable : printable 3 60 program.statements w = true := by decide +kernel
  obtain ⟨pieces, htranscript, -, hecho⟩ := echo_adds_lines 3 60 program w hroom hprintable
  exact ⟨hroom, hprintable, by decide +kernel, by decide +kernel, pieces, htranscript, hecho⟩

/-- The run without echo must find room on the stack. The last of these calls does not, for the statement takes two
frames; where its value is echoed there is room for all of them, and it prints 7. -/
theorem echo_differs_without_room :
    let calls (echo : Bool) : Chunk :=
      ⟨"define f(k) \x7b if (k > 0) \x7b return f(k - 1); \x7d return 7; \x7d --f(88);", 1, false, echo⟩
    let w := World.initial (.ofScript []) (.uniform 50) []
    ((calls false).program?.map fun program => printable turnBudget stackRoom program.statements w) = some true ∧
      endings turnBudget stackRoom [calls false] w = [some (.fault ⟨.recursionLimit, some ⟨"f", 1⟩⟩)] ∧
      endings turnBudget stackRoom [calls true] w = [none] ∧
      ((calls true).program?.map fun program => (w.after (interpret true program)).output) = some "7\n" := by
  decide +kernel

end SafariScript
