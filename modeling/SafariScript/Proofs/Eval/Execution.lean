import SafariScript.Proofs.Eval.Objects

/-!
# Execution keeps the contract

Scopes, loops and calls are safe if their bodies are. A loop lets its body stand anywhere, because it catches
`break`, `continue` and `run`; a call catches `return` and `run`, but not what leaves a loop, so what may leave
the body of a function must be allowed where the call stands.

From this the interpreter is safe (`keeps`): an expression wherever a function's body may stand, and a
statement wherever it is well placed. The induction is on the room that the stack has left, for expressions and
statements at once, since a call executes the body of a function that is not part of the calling expression.
-/

namespace SafariScript
namespace Eval

variable {code : List Stmt → Prop} {function here : Placement} {α : Type} {w : World}

/-! ## Scopes -/

theorem settles_enter {parent : Nat} (known : parent = w.scope ∨ ∃ id, parent = (w.function id).scope) :
    Settles code here w (enter parent) :=
  Effect.update (.enter parent known)

theorem safe_enterHere : Safe code here enterHere :=
  Safe.get_bind fun _ _ => settles_enter (Or.inl rfl)

/-- The scope that is made is there afterwards. -/
theorem lt_size_of_enter {parent scope : Nat} {w' : World} (h : enter parent w = .ok scope w') :
    scope < w'.scopes.all.size := by
  cases h
  show w.scopes.all.size < (w.scopes.enter parent).2.all.size
  rw [Scopes.size_enter]
  exact Nat.lt_succ_self _

theorem settles_inScope {scope : Nat} (known : scope < w.scopes.all.size) (hw : Sane code w) {step : Eval α}
    (h : Safe code here step) : Settles code here w (inScope scope step) := by
  have hstep := h { w with scope } ⟨hw.code⟩
  unfold Settles at hstep ⊢
  unfold inScope
  cases hresult : step { w with scope } with
  | ok a w' =>
      simp only [hresult] at hstep ⊢
      exact .inScope scope known hstep
  | error e w' =>
      simp only [hresult] at hstep ⊢
      exact ⟨.inScope scope known hstep.1, hstep.2.of_running_eq rfl id⟩

/-- A step in a scope that is made for it. -/
theorem safe_inNewScope {step : Eval α} (h : Safe code here step) :
    Safe code here (do inScope (← enterHere) step) := by
  intro w hw
  refine (safe_enterHere w hw).bind hw fun scope w₁ hok hw₁ => ?_
  have henter : enter w.scope w = .ok scope w₁ := hok
  exact settles_inScope (lt_size_of_enter henter) hw₁ h

theorem safe_inBlock {body : Eval Unit} (h : Safe code here body) : Safe code here (inBlock body) :=
  safe_inNewScope h

/-! ## Loops -/

/-- A pass catches everything that leaves a loop. -/
theorem safe_once {body : Eval Unit} (h : Safe code .anywhere body) : Safe code here (once body) := by
  intro w hw
  have hbody := h w hw
  unfold Settles at hbody ⊢
  unfold once
  cases hresult : body w with
  | ok a w' => simpa only [hresult] using hbody
  | error e w' =>
      simp only [hresult] at hbody
      cases e with
      | breakLoop | continueLoop | run => exact hbody.1
      | _ => exact hbody

theorem safe_pass {body : Eval Unit} (h : Safe code .anywhere body) : Safe code here (pass body) :=
  (safe_once h).bind fun _ => safe_pure _

theorem safe_whileLoop {condition : Eval Value} {body : Eval Unit} (hcondition : Safe code here condition)
    (hbody : Safe code .anywhere body) (turns : Nat) : Safe code here (whileLoop condition body turns) := by
  induction turns with
  | zero => exact safe_throw fun _ => trivial
  | succ turns ih =>
      refine hcondition.bind fun value => ?_
      split
      · refine (safe_pass hbody).bind fun goesOn => ?_
        split
        · exact ih
        · exact safe_pure ()
      · exact safe_pure ()

theorem safe_forRange {step : Value → Eval Bool} (h : ∀ v, Safe code here (step v)) (next : Int)
    (count : Nat) : Safe code here (forRange step next count) := by
  induction count generalizing next with
  | zero => exact safe_pure ()
  | succ count ih =>
      refine (h (.int next)).bind fun goesOn => ?_
      split
      · exact ih (next + 1)
      · exact safe_pure ()

theorem safe_forValues {step : Value → Eval Bool} (h : ∀ v, Safe code here (step v)) (vs : List Value) :
    Safe code here (forValues step vs) := by
  induction vs with
  | nil => exact safe_pure ()
  | cons v vs ih =>
      refine (h v).bind fun goesOn => ?_
      split
      · exact ih
      · exact safe_pure ()

theorem safe_forItems {step : Value → Eval Bool} (h : ∀ v, Safe code here (step v)) (items : Items) :
    Safe code here (forItems step items) := by
  cases items with
  | range next count => exact safe_forRange h next count
  | values vs => exact safe_forValues h vs

theorem safe_forLoop (name : Word) (items : Items) {body : Eval Unit} (h : Safe code .anywhere body) :
    Safe code here (forLoop name items body) := by
  have hstep (item : Value) : Safe code here (do assign name item; pass body) :=
    (safe_assign name item).bind fun _ => safe_pass h
  refine safe_inNewScope ?_
  exact (safe_declare name .null).bind fun _ => safe_forItems hstep items

theorem safe_explorePasses (line : Int) (zone : Nat) {body : Eval Unit} (h : Safe code .anywhere body)
    (budget : Nat) : Safe code here (explorePasses line zone body budget) := by
  induction budget with
  | zero => exact safe_throw fun _ => trivial
  | succ budget ih =>
      refine Safe.get_bind fun w hw => ?_
      dsimp only
      split
      · exact safe_pure _ w hw
      · next hturns =>
        -- a turn is spent only if one is left
        have hspend : (w.zone zone).Change { w.zone zone with turns := (w.zone zone).turns - 1 } :=
          .spendTurn (by omega)
        refine (settles_modify (.changeZone zone _ hspend)).bind hw fun _ w₁ _ hw₁ => ?_
        refine Safe.get_bind (fun w₂ hw₂ => ?_) w₁ hw₁
        split
        · exact safe_pure _ w₂ hw₂
        · refine ((safe_choose _).bind fun met => (safe_note _).bind fun _ => ?_) w₂ hw₂
          refine (safe_assign _ _).bind fun _ => (safe_once h).bind fun ending => ?_
          split
          · exact safe_pure _
          · exact ih

theorem safe_exploreLoop (line : Int) (zone : Nat) {body : Eval Unit} (h : Safe code .anywhere body)
    (budget : Nat) : Safe code here (exploreLoop line zone body budget) := by
  refine safe_inNewScope ?_
  refine (safe_declare _ .null).bind fun _ => (safe_explorePasses line zone h budget).bind fun outcome => ?_
  split
  · exact safe_say _
  · exact safe_pure ()
  · refine Safe.get_bind fun w hw => ?_
    split
    · exact safe_say _ w hw
    · exact safe_pure () w hw

theorem safe_throwBall (line : Int) (target : Value) : Safe code here (throwBall line target) := by
  refine (safe_zoneOf target _ _).bind fun zone => Safe.get_bind fun w hw => ?_
  refine safe_check ((safe_choose _).bind fun caught => ?_) w hw
  exact (Objects.safe_shrink (.zone zone) (Objects.length_erase_le caught)).bind fun _ => safe_say _

/-! ## Calls -/

/-- A call catches `return`; what else leaves the body must be allowed where the call stands. -/
theorem settles_callResult (place : Word) {scope : Nat} (known : scope < w.scopes.all.size) (hw : Sane code w)
    {body : Eval Unit} (h : Safe code function body) (hle : function ≤ here) :
    Settles code here w (callResult place (running scope body)) := by
  have hbody : Settles code function { w with running := w.running + 1 } (inScope scope body) :=
    settles_inScope (w := { w with running := w.running + 1 }) known ⟨hw.code⟩ h
  unfold Settles at hbody ⊢
  unfold callResult running
  cases hresult : inScope scope body { w with running := w.running + 1 } with
  | ok a w' =>
      simp only [hresult] at hbody ⊢
      exact .running hbody
  | error e w' =>
      simp only [hresult] at hbody ⊢
      have heffect : Effect code w { w' with running := w'.running - 1 } := .running hbody.1
      cases e with
      | ret value | run => exact heffect
      | breakLoop | continueLoop => exact ⟨heffect, hle hbody.2⟩
      | unknownChance => exact ⟨heffect, hbody.2⟩
      | _ => exact ⟨heffect, trivial⟩

theorem safe_callFunction {exec : List Stmt → Eval Unit}
    (hexec : ∀ body, code body → Safe code function (exec body)) (hnil : code []) (hle : function ≤ here) (id : Nat)
    (args : List Value) (place : Word) :
    Safe code here (callFunction exec id args place) := by
  refine Safe.get_bind fun w hw => settles_check fun _ => ?_
  -- the body is the one that the world holds when the call begins
  have hbody : code (w.function id).body := hw.code_function hnil id
  refine (settles_enter (Or.inr ⟨id, rfl⟩)).bind hw fun scope w₁ henter hw₁ => ?_
  have known : scope < w₁.scopes.all.size := lt_size_of_enter henter
  have hparams : Settles code here w₁ (inScope scope (bindParams (w.function id).params args)) :=
    settles_inScope known hw₁ (safe_bindParams _ args)
  refine hparams.bind hw₁ fun _ w₂ hok hw₂ => ?_
  -- binding the arguments drops no scope
  have hsize : w₁.scopes.all.size ≤ w₂.scopes.all.size := by
    have heffect := hparams.effect_after
    rw [World.after, hok] at heffect
    exact heffect.size_scopes_le
  exact settles_callResult place (Nat.lt_of_lt_of_le known hsize) hw₂ (hexec _ hbody) hle

/-! ## Expressions and statements -/

/-- The body of a function, in which everything is well placed. -/
def WellPlaced (function : Placement) (body : List Stmt) : Prop :=
  Stmt.placedAll function function body = true

/-- The interpreter is safe on a stack with so much room. -/
structure Keeps (function : Placement) (budget room : Nat) : Prop where
  eval (e : Expr) : Safe (WellPlaced function) function (Eval.eval budget room e)
  exec (here : Placement) (s : Stmt) (hle : function ≤ here) (hplaced : s.placed function here = true) :
    Safe (WellPlaced function) here (Eval.exec budget room s)

section Steps

variable {budget room : Nat}

theorem Keeps.execAll (h : Keeps function budget room) (hle : function ≤ here) (ss : List Stmt)
    (hplaced : Stmt.placedAll function here ss = true) :
    Safe (WellPlaced function) here (ss.forM (Eval.exec budget room)) :=
  Safe.forM fun s hs => h.exec here s hle (Stmt.placed_of_mem hplaced hs)

theorem Keeps.evalAll (h : Keeps function budget room) (es : List Expr) :
    Safe (WellPlaced function) function (es.mapM (Eval.eval budget room)) :=
  Safe.mapM h.eval es

theorem Keeps.call (h : Keeps function budget room) (id : Nat) (args : List Value) (place : Word) :
    Safe (WellPlaced function) function
      (callFunction (fun body => body.forM (Eval.exec budget room)) id args place) :=
  safe_callFunction (fun body hbody => h.execAll function.le_refl body hbody) rfl function.le_refl
    id args place

theorem safe_eval_binary (h : Keeps function budget (room + 2)) (left : Expr) (op : BinaryOp) (line : Int)
    (right : Expr) :
    Safe (WellPlaced function) function (eval budget (room + 4) (.binary left op line right)) := by
  cases op with
  | and =>
      refine (h.eval left).bind fun a => ?_
      split
      · exact (h.eval right).bind fun b => safe_pure _
      · exact safe_pure _
  | or =>
      refine (h.eval left).bind fun a => ?_
      split
      · exact safe_pure _
      · exact (h.eval right).bind fun b => safe_pure _
  | _ => exact (h.eval left).bind fun a => (h.eval right).bind fun b => safe_applyBinary _ _ line a b

/-- What follows the evaluation of a callee to a function. -/
theorem Keeps.apply (h : Keeps function budget room) (value : Value) (place : Word) (cause : Cause)
    (arguments : List Expr) (named : List NamedArg) :
    Safe (WellPlaced function) function (do
      let id ← functionOf value place cause
      positionalOnly named .functions
      let args ← arguments.mapM (Eval.eval budget room)
      callFunction (fun body => body.forM (Eval.exec budget room)) id args place) := by
  refine (safe_functionOf value place cause).bind fun id => ?_
  refine (safe_positionalOnly named _).bind fun _ => (h.evalAll arguments).bind fun args => ?_
  exact h.call id args place

theorem safe_eval_call (h₀ : Keeps function budget room) (h₂ : Keeps function budget (room + 2)) (callee : Expr)
    (line : Int) (arguments : List Expr) (named : List NamedArg) :
    Safe (WellPlaced function) function (eval budget (room + 4) (.call callee line arguments named)) := by
  cases callee with
  | ident name =>
      unfold eval
      dsimp only
      split
      · refine (safe_positionalOnly named _).bind fun _ => (h₀.evalAll arguments).bind fun args => ?_
        exact Builtin.safe_call room _ args name
      · refine Safe.get_bind fun w hw => ?_
        split
        · exact safe_raise _ _ w hw
        · exact h₀.apply _ name _ arguments named w hw
  | _ => exact (h₂.eval _).bind fun value => h₀.apply value _ _ arguments named

/-- An expression is safe if its parts are, on the rest of the stack. -/
theorem safe_eval_step (h₀ : Keeps function budget room) (h₁ : Keeps function budget (room + 1))
    (h₂ : Keeps function budget (room + 2)) (e : Expr) :
    Safe (WellPlaced function) function (eval budget (room + 4) e) := by
  cases e with
  | literal value => exact safe_pure _
  | ident name => exact safe_lookup name
  | unary op line operand => exact (h₂.eval operand).bind fun v => safe_applyUnary op line v
  | binary left op line right => exact safe_eval_binary h₂ left op line right
  | assign name value =>
      exact (h₂.eval value).bind fun v => (safe_assign name v).bind fun _ => safe_pure v
  | property object name =>
      refine (h₁.eval object).bind fun target => (safe_objectOf target name _).bind fun receiver => ?_
      exact Objects.safe_getProperty receiver name.text name
  | setProperty object name value =>
      refine (h₂.eval value).bind fun v => (h₁.eval object).bind fun target => ?_
      refine (safe_objectOf target name _).bind fun receiver => ?_
      exact (Objects.safe_setProperty receiver name.text v name).bind fun _ => safe_pure v
  | array elements => exact (h₁.evalAll elements).bind fun vs => safe_newArray _
  | element array line index =>
      refine (h₂.eval array).bind fun container => (h₂.eval index).bind fun i => ?_
      exact safe_elementAt container i line
  | setElement array line index value =>
      refine (h₂.eval array).bind fun container => (h₂.eval index).bind fun i => ?_
      refine (h₂.eval value).bind fun v => ?_
      exact (safe_setElementAt container i v line).bind fun _ => safe_pure v
  | method object name arguments named =>
      refine (h₂.eval object).bind fun target => (safe_objectOf target name _).bind fun receiver => ?_
      refine (safe_positionalOnly named _).bind fun _ => (h₀.evalAll arguments).bind fun args => ?_
      exact Objects.safe_callMethod receiver name.text args name
  | construct maker line arguments named =>
      refine (h₁.evalAll arguments).bind fun positional => ?_
      refine (Safe.mapM (fun a => (h₁.eval a.value).bind fun _ => safe_pure _) named).bind fun given => ?_
      exact Objects.safe_construct maker line positional given
  | call callee line arguments named => exact safe_eval_call h₀ h₂ callee line arguments named

theorem safe_exec_cond (ih : ∀ m < room + 6, Keeps function budget m) (hle : function ≤ here) (condition : Expr)
    (body : List Stmt) (otherwise : Otherwise)
    (hplaced : (Stmt.cond condition body otherwise).placed function here = true) :
    Safe (WellPlaced function) here (exec budget (room + 6) (.cond condition body otherwise)) := by
  rw [Stmt.placed, Bool.and_eq_true] at hplaced
  have hblock (ss : List Stmt) (hss : Stmt.placedAll function here.control ss = true) :
      Safe (WellPlaced function) here (inBlock (ss.forM (exec budget (room + 1)))) := by
    -- a conditional catches nothing: whatever leaves its block was allowed to leave it already
    have hle' : function ≤ here.control := hle
    have hss' := (ih (room + 1) (by omega)).execAll hle' ss hss
    exact safe_inBlock (hss'.mono fun h => h)
  refine (((ih (room + 4) (by omega)).eval condition).mono hle).bind fun v => ?_
  split
  · exact hblock body hplaced.1
  · cases otherwise with
    | nothing => exact safe_pure ()
    | block body => exact hblock body hplaced.2
    | elseIf condition body otherwise =>
        exact (ih (room + 4) (by omega)).exec here (.cond condition body otherwise) hle hplaced.2

/-- A statement is safe if its parts are, on the rest of the stack. -/
theorem safe_exec_step (ih : ∀ m < room + 6, Keeps function budget m) (hle : function ≤ here) (s : Stmt)
    (hplaced : s.placed function here = true) :
    Safe (WellPlaced function) here (exec budget (room + 6) s) := by
  have heval (e : Expr) : Safe (WellPlaced function) here (eval budget (room + 4) e) :=
    ((ih (room + 4) (by omega)).eval e).mono hle
  cases s with
  | expr value => exact (heval value).bind fun _ => safe_pure ()
  | print value => exact (heval value).bind fun v => (safe_render _ v).bind fun text => safe_say text
  | var name initial =>
      cases initial with
      | some e => exact (heval e).bind fun v => safe_declare name v
      | none => exact safe_declare name .null
  | block body => exact safe_inBlock ((ih (room + 3) (by omega)).execAll hle body hplaced)
  | cond condition body otherwise => exact safe_exec_cond ih hle condition body otherwise hplaced
  | loop condition body =>
      have hbody := (ih room (by omega)).execAll function.le_anywhere body hplaced
      exact safe_whileLoop (heval condition) (safe_inBlock hbody) budget
  | forIn line name start stop body =>
      have hbody := (ih room (by omega)).execAll function.le_anywhere body hplaced
      refine (heval start).bind fun first => (Safe.mapOption heval stop).bind fun last => ?_
      exact (safe_itemsOf line first last).bind fun items => safe_forLoop name items (safe_inBlock hbody)
  | breakLoop => exact safe_throw fun _ => hplaced
  | continueLoop => exact safe_throw fun _ => hplaced
  | run => exact safe_throw fun _ => trivial
  | define name params body =>
      exact (safe_newFunction name.text params hplaced).bind fun v => safe_declare name v
  | ret line value =>
      -- `return` is refused while no function runs, and evaluating its value does not change how many do
      refine Safe.get_bind fun w hw => settles_check fun hrunning => ?_
      cases value with
      | some e =>
          refine (heval e w hw).bind hw fun v w₁ hv _ => ⟨.refl w₁, ?_⟩
          have hafter : w.after (eval budget (room + 4) e) = w₁ := by
            simp only [World.after, hv]
          have hrunning₁ : w₁.running = w.running := by
            rw [← hafter]
            exact (heval e w hw).effect_after.registers_eq.2
          show w₁.running ≠ 0
          rw [hrunning₁]
          exact hrunning
      | none => exact ⟨.refl w, hrunning⟩
  | explore line zone body =>
      have hbody := (ih (room + 1) (by omega)).execAll function.le_anywhere body hplaced
      exact (safe_exploredZone zone).bind fun id => safe_exploreLoop line id (safe_inBlock hbody) budget
  | throwBall line target => exact (heval target).bind fun v => safe_throwBall line v

end Steps

theorem safe_eval_within {budget room : Nat} (ih : ∀ m < room, Keeps function budget m) (e : Expr) :
    Safe (WellPlaced function) function (eval budget room e) := by
  match room, ih with
  | room + 4, ih =>
      have h₀ : Keeps function budget room := ih room (by omega)
      have h₁ : Keeps function budget (room + 1) := ih (room + 1) (by omega)
      have h₂ : Keeps function budget (room + 2) := ih (room + 2) (by omega)
      exact safe_eval_step h₀ h₁ h₂ e
  | 0, _ | 1, _ | 2, _ | 3, _ => exact safe_throw fun _ => trivial

theorem safe_exec_within {budget room : Nat} (ih : ∀ m < room, Keeps function budget m) (hle : function ≤ here)
    (s : Stmt) (hplaced : s.placed function here = true) :
    Safe (WellPlaced function) here (exec budget room s) := by
  match room, ih with
  | room + 6, ih => exact safe_exec_step ih hle s hplaced
  | 0, _ | 1, _ | 2, _ | 3, _ | 4, _ | 5, _ => exact safe_throw fun _ => trivial

/-- The interpreter is safe, however much room the stack has. -/
theorem keeps (function : Placement) (budget room : Nat) : Keeps function budget room := by
  induction room using Nat.strongRecOn with
  | ind room ih =>
      constructor
      · exact fun e => safe_eval_within ih e
      · exact fun here s hle hplaced => safe_exec_within ih hle s hplaced

/-! ## Programs -/

theorem safe_execTop (budget room : Nat) (echo : Bool) (s : Stmt)
    (hplaced : s.placed function function = true) :
    Safe (WellPlaced function) function (execTop budget room echo s) := by
  have hkeeps : Keeps function budget room := keeps function budget room
  unfold execTop
  split
  · refine (hkeeps.eval _).bind fun v => ?_
    split
    · exact (safe_render room v).bind fun text => safe_say text
    · exact safe_pure ()
  · exact hkeeps.exec function s function.le_refl hplaced

/-- A program whose statements are well placed is safe. -/
theorem safe_interpretWithin (budget room : Nat) (echo : Bool) {program : Program}
    (hplaced : Stmt.placedAll function function program.statements = true) :
    Safe (WellPlaced function) function (interpretWithin budget room echo program) := by
  have hstatements : Safe (WellPlaced function) function (program.statements.forM (execTop budget room echo)) :=
    Safe.forM fun s hs => safe_execTop budget room echo s (Stmt.placed_of_mem hplaced hs)
  intro w hw
  have hrun := hstatements w hw
  unfold Settles at hrun ⊢
  unfold interpretWithin
  cases hresult : program.statements.forM (execTop budget room echo) w with
  | ok a w' => simpa only [hresult] using hrun
  | error e w' =>
      simp only [hresult] at hrun ⊢
      cases e with
      | run => exact hrun.1.trans (.update (.note .ranAtTop))
      | _ => exact hrun

/-- A program ends by itself at `run`, and has a fault where the stack overflows. -/
theorem interpretWithin_catches {budget room : Nat} {echo : Bool} {program : Program} {e : Interrupt}
    {w' : World} (h : interpretWithin budget room echo program w = .error e w') : e ≠ .run ∧ e ≠ .overflow := by
  unfold interpretWithin at h
  split at h
  · cases h
  · cases h
    exact ⟨by simp, by simp⟩
  · next hrun hoverflow =>
    constructor
    · rintro rfl
      exact hrun w' h
    · rintro rfl
      exact hoverflow w' h

end Eval

/-! ## Arbitrary trees

Where everything may stand every tree is well placed, so whatever is run in whatever world has an effect. -/

section Anywhere

open Eval

theorem World.sane (w : World) : Sane (WellPlaced .anywhere) w :=
  ⟨fun closure _ => Stmt.placedAll_anywhere closure.body⟩

theorem World.effect_eval (w : World) (budget room : Nat) (e : Expr) :
    Effect (WellPlaced .anywhere) w (w.after (eval budget room e)) :=
  ((keeps .anywhere budget room).eval e w w.sane).effect_after

theorem World.effect_exec (w : World) (budget room : Nat) (s : Stmt) :
    Effect (WellPlaced .anywhere) w (w.after (exec budget room s)) := by
  have hsafe := (keeps .anywhere budget room).exec .anywhere s (Placement.le_refl _) s.placed_anywhere
  exact (hsafe w w.sane).effect_after

theorem World.effect_interpretWithin (w : World) (budget room : Nat) (echo : Bool) (program : Program) :
    Effect (WellPlaced .anywhere) w (w.after (interpretWithin budget room echo program)) := by
  have hsafe := safe_interpretWithin budget room echo (Stmt.placedAll_anywhere program.statements)
  exact (hsafe w w.sane).effect_after

end Anywhere
end SafariScript
