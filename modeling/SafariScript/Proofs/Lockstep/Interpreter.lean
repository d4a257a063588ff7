import SafariScript.Proofs.Lockstep.Objects

/-!
# The interpreter in lockstep

Evaluation on a stack is in lockstep with evaluation on a larger one (`scales`), so all that is proved of
steps in lockstep holds of every expression and every statement. Only declarations declare names in the scope
they stand in; all other statements run what they contain in scopes of their own.

The induction is on the room that the smaller stack has left, for expressions and statements at once, since a
call executes the body of a function that is not part of the calling expression.
-/

namespace SafariScript

/-- The name that a statement declares in the scope it stands in. -/
def Stmt.declared? : Stmt → Option Word
  | .var name _ | .define name _ _ => some name
  | _ => none

namespace Eval

variable {declares : Bool}

/-! ## Loops -/

theorem lockstep_pass {p q : Eval Unit} (h : Lockstep declares p q) : Lockstep declares (pass p) (pass q) :=
  (Lockstep.once h).bind fun _ => .pure _

theorem lockstep_whileLoop {condition condition' : Eval Value} {p q : Eval Unit}
    (hcondition : Lockstep declares condition condition') (hbody : Lockstep declares p q) (turns : Nat) :
    Lockstep declares (whileLoop condition p turns) (whileLoop condition' q turns) := by
  induction turns with
  | zero => exact .throw _
  | succ turns ih =>
      refine hcondition.bind fun value => ?_
      split
      · refine (lockstep_pass hbody).bind fun goesOn => ?_
        split
        · exact ih
        · exact .pure ()
      · exact .pure ()

theorem lockstep_forRange {f g : Value → Eval Bool} (h : ∀ v, Lockstep declares (f v) (g v)) (next : Int)
    (count : Nat) : Lockstep declares (forRange f next count) (forRange g next count) := by
  induction count generalizing next with
  | zero => exact .pure ()
  | succ count ih =>
      refine (h (.int next)).bind fun goesOn => ?_
      split
      · exact ih (next + 1)
      · exact .pure ()

theorem lockstep_forValues {f g : Value → Eval Bool} (h : ∀ v, Lockstep declares (f v) (g v))
    (vs : List Value) : Lockstep declares (forValues f vs) (forValues g vs) := by
  induction vs with
  | nil => exact .pure ()
  | cons v vs ih =>
      refine (h v).bind fun goesOn => ?_
      split
      · exact ih
      · exact .pure ()

theorem lockstep_forItems {f g : Value → Eval Bool} (h : ∀ v, Lockstep declares (f v) (g v))
    (items : Items) : Lockstep declares (forItems f items) (forItems g items) := by
  cases items with
  | range next count => exact lockstep_forRange h next count
  | values vs => exact lockstep_forValues h vs

/-- The variable of a `for` loop is declared inside a block of the loop's own. -/
theorem lockstep_forLoop (name : Word) (items : Items) {p q : Eval Unit} (h : Lockstep true p q) :
    Lockstep declares (forLoop name items p) (forLoop name items q) := by
  have hstep (item : Value) : Lockstep true (do assign name item; pass p)
      (do assign name item; pass q) :=
    (steady_assign name item).bind fun _ => lockstep_pass h
  exact Lockstep.inBlock ((Lockstep.declare name .null).bind fun _ => lockstep_forItems hstep items)

theorem lockstep_explorePasses (line : Int) (zone : Nat) {p q : Eval Unit} (h : Lockstep declares p q)
    (budget : Nat) :
    Lockstep declares (explorePasses line zone p budget) (explorePasses line zone q budget) := by
  induction budget with
  | zero => exact .throw _
  | succ budget ih =>
      refine .look (fun _ _ => rfl) fun w => ?_
      dsimp only
      split
      · exact .pure _
      · refine (Objects.steady_modifyZone zone _).bind fun _ => .look (fun _ _ => rfl) fun w₁ => ?_
        split
        · exact .pure _
        · refine (steady_choose _).bind fun met => (steady_note _).bind fun _ => ?_
          refine (steady_assign _ _).bind fun _ => (Lockstep.once h).bind fun ending => ?_
          split
          · exact .pure _
          · exact ih

/-- So is `encounter`. -/
theorem lockstep_exploreLoop (line : Int) (zone : Nat) {p q : Eval Unit} (h : Lockstep true p q)
    (budget : Nat) : Lockstep declares (exploreLoop line zone p budget) (exploreLoop line zone q budget) := by
  refine Lockstep.inBlock ((Lockstep.declare ⟨encounterName, 0⟩ .null).bind fun _ => ?_)
  refine (lockstep_explorePasses line zone h budget).bind fun outcome => ?_
  split
  · exact steady_say _
  · exact .pure ()
  · refine .look (fun _ _ => rfl) fun w => ?_
    split
    · exact steady_say _
    · exact .pure ()

theorem steady_throwBall (line : Int) (target : Value) : Steady declares (throwBall line target) := by
  refine (steady_zoneOf target _ _).bind fun zone => .look (fun _ _ => rfl) fun w => ?_
  refine lockstep_check ((steady_choose _).bind fun caught => ?_)
  exact (Objects.steady_modifyPokemon (.zone zone) _).bind fun _ => steady_say _

/-! ## Expressions and statements -/

/-- The interpreter is in lockstep with itself on another stack. -/
structure Scales (budget room room' : Nat) : Prop where
  eval (declares : Bool) (e : Expr) : Lockstep declares (Eval.eval budget room e) (Eval.eval budget room' e)
  exec (declares : Bool) (s : Stmt) (h : s.declared? = none ∨ declares = true) :
    Lockstep declares (Eval.exec budget room s) (Eval.exec budget room' s)

section Steps

variable {budget room room' : Nat}

theorem Scales.evalAll (h : Scales budget room room') (es : List Expr) :
    Lockstep declares (es.mapM (Eval.eval budget room)) (es.mapM (Eval.eval budget room')) :=
  .mapM (h.eval declares) es

/-- Where there may be declarations, there may be any statements. -/
theorem Scales.execAll (h : Scales budget room room') (ss : List Stmt) :
    Lockstep true (ss.forM (Eval.exec budget room)) (ss.forM (Eval.exec budget room')) :=
  .forM (fun s => h.exec true s (Or.inr rfl)) ss

theorem Scales.block (h : Scales budget room room') (ss : List Stmt) :
    Lockstep declares (inBlock (ss.forM (Eval.exec budget room)))
      (inBlock (ss.forM (Eval.exec budget room'))) :=
  .inBlock (h.execAll ss)

/-- What follows the evaluation of a callee to a function. -/
theorem Scales.apply (h : Scales budget room room') (value : Value) (place : Word) (cause : Cause)
    (arguments : List Expr) (named : List NamedArg) :
    Lockstep declares
      (do
        let id ← functionOf value place cause
        positionalOnly named .functions
        let args ← arguments.mapM (Eval.eval budget room)
        callFunction (fun body => body.forM (Eval.exec budget room)) id args place)
      (do
        let id ← functionOf value place cause
        positionalOnly named .functions
        let args ← arguments.mapM (Eval.eval budget room')
        callFunction (fun body => body.forM (Eval.exec budget room')) id args place) := by
  refine (steady_functionOf value place cause).bind fun id => ?_
  refine (steady_positionalOnly named _).bind fun _ => (h.evalAll arguments).bind fun args => ?_
  exact .callFunction h.execAll id args place

theorem lockstep_eval_binary (h : Scales budget (room + 2) (room' + 2)) (hle : room ≤ room') (left : Expr)
    (op : BinaryOp) (line : Int) (right : Expr) :
    Lockstep declares (eval budget (room + 4) (.binary left op line right))
      (eval budget (room' + 4) (.binary left op line right)) := by
  have hboth : Lockstep declares
      (do
        let a ← eval budget (room + 2) left
        let b ← eval budget (room + 2) right
        applyBinary (room + 2) op line a b)
      (do
        let a ← eval budget (room' + 2) left
        let b ← eval budget (room' + 2) right
        applyBinary (room' + 2) op line a b) :=
    (h.eval declares left).bind fun a => (h.eval declares right).bind fun b =>
      lockstep_applyBinary (Nat.add_le_add_right hle 2) op line a b
  cases op with
  | and =>
      refine (h.eval declares left).bind fun a => ?_
      split
      · exact (h.eval declares right).bind fun b => .pure _
      · exact .pure _
  | or =>
      refine (h.eval declares left).bind fun a => ?_
      split
      · exact .pure _
      · exact (h.eval declares right).bind fun b => .pure _
  | _ => exact hboth

theorem lockstep_eval_call (h₀ : Scales budget room room') (h₂ : Scales budget (room + 2) (room' + 2))
    (hle : room ≤ room') (callee : Expr) (line : Int) (arguments : List Expr) (named : List NamedArg) :
    Lockstep declares (eval budget (room + 4) (.call callee line arguments named))
      (eval budget (room' + 4) (.call callee line arguments named)) := by
  cases callee with
  | ident name =>
      unfold eval
      dsimp only
      split
      · refine (steady_positionalOnly named _).bind fun _ => (h₀.evalAll arguments).bind fun args => ?_
        exact Builtin.lockstep_call hle _ args name
      · refine .look (fun _ _ => rfl) fun w => ?_
        split
        · exact steady_raise _ _
        · exact h₀.apply _ name _ arguments named
  | _ => exact (h₂.eval declares _).bind fun value => h₀.apply value _ _ arguments named

/-- An expression is in lockstep if its parts are, on the rest of the stacks. -/
theorem lockstep_eval_step (h₀ : Scales budget room room') (h₁ : Scales budget (room + 1) (room' + 1))
    (h₂ : Scales budget (room + 2) (room' + 2)) (hle : room ≤ room') (e : Expr) :
    Lockstep declares (eval budget (room + 4) e) (eval budget (room' + 4) e) := by
  cases e with
  | literal value => exact .pure _
  | ident name => exact steady_lookup name
  | unary op line operand => exact (h₂.eval declares operand).bind fun v => steady_applyUnary op line v
  | binary left op line right => exact lockstep_eval_binary h₂ hle left op line right
  | assign name value =>
      exact (h₂.eval declares value).bind fun v => (steady_assign name v).bind fun _ => .pure v
  | property object name =>
      refine (h₁.eval declares object).bind fun target => (steady_objectOf target name _).bind fun o => ?_
      exact Objects.steady_getProperty o name.text name
  | setProperty object name value =>
      refine (h₂.eval declares value).bind fun v => (h₁.eval declares object).bind fun target => ?_
      refine (steady_objectOf target name _).bind fun receiver => ?_
      exact (Objects.steady_setProperty receiver name.text v name).bind fun _ => .pure v
  | array elements => exact (h₁.evalAll elements).bind fun vs => steady_newArray _
  | element array line index =>
      refine (h₂.eval declares array).bind fun container => (h₂.eval declares index).bind fun i => ?_
      exact steady_elementAt container i line
  | setElement array line index value =>
      refine (h₂.eval declares array).bind fun container => (h₂.eval declares index).bind fun i => ?_
      refine (h₂.eval declares value).bind fun v => ?_
      exact (steady_setElementAt container i v line).bind fun _ => .pure v
  | method object name arguments named =>
      refine (h₂.eval declares object).bind fun target => (steady_objectOf target name _).bind fun o => ?_
      refine (steady_positionalOnly named _).bind fun _ => (h₀.evalAll arguments).bind fun args => ?_
      exact Objects.steady_callMethod o name.text args name
  | construct maker line arguments named =>
      refine (h₁.evalAll arguments).bind fun positional => ?_
      refine (Lockstep.mapM (fun a => (h₁.eval declares a.value).bind fun _ => .pure _) named).bind
        fun given => ?_
      exact Objects.steady_construct maker line positional given
  | call callee line arguments named => exact lockstep_eval_call h₀ h₂ hle callee line arguments named

/-- A statement is in lockstep if its parts are, on the rest of the stacks. -/
theorem lockstep_exec_step (ih : ∀ n ≤ 4, Scales budget (room + n) (room' + n)) (hle : room ≤ room') (s : Stmt)
    (hs : s.declared? = none ∨ declares = true) :
    Lockstep declares (exec budget (room + 6) s) (exec budget (room' + 6) s) := by
  have h₀ : Scales budget room room' := ih 0 (by omega)
  have h₁ := ih 1 (by omega)
  have h₄ := ih 4 (by omega)
  cases s with
  | expr value => exact (h₄.eval declares value).bind fun _ => .pure ()
  | print value =>
      refine (h₄.eval declares value).bind fun v => ?_
      exact (lockstep_render (Nat.add_le_add_right hle 4) v).bind fun _ => steady_say _
  | var name initial =>
      obtain rfl : declares = true := by simpa [Stmt.declared?] using hs
      cases initial with
      | none => exact (Lockstep.pure _).bind fun v => .declare name v
      | some e => exact (h₄.eval true e).bind fun v => .declare name v
  | block body => exact (ih 3 (by omega)).block body
  | cond condition body otherwise =>
      refine (h₄.eval declares condition).bind fun v => ?_
      split
      · exact h₁.block body
      · cases otherwise with
        | nothing => exact .pure ()
        | block body => exact h₁.block body
        | elseIf condition body otherwise =>
            exact h₄.exec declares (.cond condition body otherwise) (Or.inl rfl)
  | loop condition body => exact lockstep_whileLoop (h₄.eval declares condition) (h₀.block body) budget
  | forIn line name start stop body =>
      refine (h₄.eval declares start).bind fun first => Lockstep.bind ?_ fun last => ?_
      · cases stop with
        | none => exact .pure none
        | some stop => exact (h₄.eval declares stop).map some
      · exact (steady_itemsOf line first last).bind fun items => lockstep_forLoop name items (h₀.block body)
  | breakLoop => exact .throw _
  | continueLoop => exact .throw _
  | run => exact .throw _
  | define name params body =>
      obtain rfl : declares = true := by simpa [Stmt.declared?] using hs
      exact (steady_newFunction name.text params body).bind fun v => .declare name v
  | ret line value =>
      refine .look (fun _ _ => rfl) fun w => lockstep_check ?_
      cases value with
      | none => exact .throw _
      | some e => exact (h₄.eval declares e).bind fun v => .throw _
  | explore line zone body =>
      exact (steady_exploredZone zone).bind fun id => lockstep_exploreLoop line id (h₁.block body) budget
  | throwBall line target => exact (h₄.eval declares target).bind fun v => steady_throwBall line v

end Steps

theorem eval_of_lt {budget room : Nat} (h : room < 4) (e : Expr) : eval budget room e = throw .overflow := by
  match room, h with
  | 0, _ | 1, _ | 2, _ | 3, _ => rfl

theorem exec_of_lt {budget room : Nat} (h : room < 6) (s : Stmt) : exec budget room s = throw .overflow := by
  match room, h with
  | 0, _ | 1, _ | 2, _ | 3, _ | 4, _ | 5, _ => rfl

/-- On a larger stack the interpreter is in lockstep with itself. -/
theorem scales (budget : Nat) {room room' : Nat} (hle : room ≤ room') : Scales budget room room' := by
  induction room using Nat.strongRecOn generalizing room' with
  | ind room ih =>
      refine ⟨fun declares e => ?_, fun declares s hs => ?_⟩
      · by_cases h : room < 4
        · rw [eval_of_lt h]
          exact .starved _
        · obtain ⟨n, rfl⟩ : ∃ n, room = n + 4 := ⟨room - 4, by omega⟩
          obtain ⟨n', rfl⟩ : ∃ n', room' = n' + 4 := ⟨room' - 4, by omega⟩
          exact lockstep_eval_step (ih n (by omega) (by omega)) (ih (n + 1) (by omega) (by omega))
            (ih (n + 2) (by omega) (by omega)) (by omega) e
      · by_cases h : room < 6
        · rw [exec_of_lt h]
          exact .starved _
        · obtain ⟨n, rfl⟩ : ∃ n, room = n + 6 := ⟨room - 6, by omega⟩
          obtain ⟨n', rfl⟩ : ∃ n', room' = n' + 6 := ⟨room' - 6, by omega⟩
          exact lockstep_exec_step (fun k hk => ih (n + k) (by omega) (by omega)) (by omega) s hs

theorem steady_execTop (budget room : Nat) (echo : Bool) (s : Stmt) :
    Steady true (execTop budget room echo s) := by
  have hself := scales budget (Nat.le_refl room)
  have hexec (s : Stmt) : Steady true (exec budget room s) := hself.exec true s (Or.inr rfl)
  cases echo with
  | false => exact hexec s
  | true =>
      cases s with
      | expr e =>
          refine (hself.eval true e).bind fun v => ?_
          split
          · exact (lockstep_render (Nat.le_refl room) v).bind fun line => steady_say line
          · exact .pure ()
      | _ => exact hexec _

end Eval
end SafariScript
