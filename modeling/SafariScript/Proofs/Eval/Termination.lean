import SafariScript.Proofs.Eval.Convergence
import SafariScript.Proofs.Lockstep.Interpreter

/-!
# What ends by itself

Only three things can make a script run for ever: `while`, `explore`, and calling a function of the script. A tree
without them is `tame`. It comes to an end from every world, without regard to the bounds of the interpreter
(`tame_terminates`): by induction on the tree, for the number of passes of a `for` loop is settled before the first of
them, though nothing in the tree says what it is.
-/

namespace SafariScript

open Eval

mutual

/-- All calls in an expression are of methods, constructors and built-in functions. -/
def Expr.tame : Expr → Bool
  | .literal _ | .ident _ => true
  | .unary _ _ operand => operand.tame
  | .binary left _ _ right => left.tame && right.tame
  | .assign _ value => value.tame
  | .property object _ => object.tame
  | .setProperty object _ value => object.tame && value.tame
  | .array elements => Expr.tameAll elements
  | .element array _ index => array.tame && index.tame
  | .setElement array _ index value => array.tame && index.tame && value.tame
  | .call (.ident name) _ arguments named =>
    (Builtin.ofName? name.text).isSome && Expr.tameAll arguments && NamedArg.tameAll named
  | .call _ _ _ _ => false
  | .method object _ arguments named => object.tame && Expr.tameAll arguments && NamedArg.tameAll named
  | .construct _ _ arguments named => Expr.tameAll arguments && NamedArg.tameAll named

/-- All expressions of a list are tame. -/
def Expr.tameAll : List Expr → Bool
  | [] => true
  | e :: es => e.tame && Expr.tameAll es

/-- The value of a named argument is tame. -/
def NamedArg.tame : NamedArg → Bool
  | .mk _ value => value.tame

/-- All named arguments of a list are tame. -/
def NamedArg.tameAll : List NamedArg → Bool
  | [] => true
  | a :: as => a.tame && NamedArg.tameAll as

end

/-- An expression that may be left out is tame. -/
def Expr.tameOption : Option Expr → Bool
  | none => true
  | some e => e.tame

mutual

/-- A statement has no `while` and no `explore` in it and all its expressions are tame. A function that it defines may
have any body, since it is not called. -/
def Stmt.tame : Stmt → Bool
  | .expr value | .print value => value.tame
  | .var _ initial => Expr.tameOption initial
  | .block body => Stmt.tameAll body
  | .cond condition body otherwise => condition.tame && Stmt.tameAll body && otherwise.tame
  | .loop _ _ | .explore _ _ _ => false
  | .forIn _ _ start stop body => start.tame && Expr.tameOption stop && Stmt.tameAll body
  | .breakLoop | .continueLoop | .run | .define _ _ _ => true
  | .ret _ value => Expr.tameOption value
  | .throwBall _ target => target.tame

/-- What follows the first block of an `if` statement is tame. -/
def Otherwise.tame : Otherwise → Bool
  | .nothing => true
  | .block body => Stmt.tameAll body
  | .elseIf condition body otherwise => condition.tame && Stmt.tameAll body && otherwise.tame

/-- All statements of a list are tame. -/
def Stmt.tameAll : List Stmt → Bool
  | [] => true
  | s :: ss => s.tame && Stmt.tameAll ss

end

/-! ## Expressions -/

/-- An expression comes to an end if it does with the four frames that it needs for itself taken away. -/
theorem terminates_eval {e : Expr} (h : Terminates fun budget room => eval budget (room + 4) e) :
    Terminates fun budget room => eval budget room e :=
  h.of_frames fun _ _ hlow => eval_of_lt hlow e

theorem terminates_binary {left right : Expr} (hleft : Terminates fun budget room => eval budget room left)
    (hright : Terminates fun budget room => eval budget room right) (op : BinaryOp) (line : Int) :
    Terminates fun budget room => eval budget room (.binary left op line right) := by
  refine terminates_eval ?_
  cases op with
  | and =>
      refine (hleft.shift 2).bind fun a => ?_
      cases a.truthy with
      | true => exact (hright.shift 2).bind fun b => terminates_pure _
      | false => exact terminates_pure _
  | or =>
      refine (hleft.shift 2).bind fun a => ?_
      cases a.truthy with
      | true => exact terminates_pure _
      | false => exact (hright.shift 2).bind fun b => terminates_pure _
  | _ =>
      refine (hleft.shift 2).bind fun a => (hright.shift 2).bind fun b => ?_
      exact (terminates_applyBinary _ line a b).shift 2

theorem terminates_builtin {name : Word} {builtin : Builtin} (hname : Builtin.ofName? name.text = some builtin)
    {arguments : List Expr} (harguments : ∀ e ∈ arguments, Terminates fun budget room => eval budget room e)
    (line : Int) (named : List NamedArg) :
    Terminates fun budget room => eval budget room (.call (.ident name) line arguments named) := by
  refine terminates_eval ?_
  have hcall (budget room : Nat) : eval budget (room + 4) (.call (.ident name) line arguments named) = (do
      positionalOnly named .builtins
      Builtin.call room builtin (← arguments.mapM (eval budget room)) name) := by
    unfold eval
    simp only [hname]
  simp only [hcall]
  refine (terminates_of_refuses (refuses_positionalOnly (fun _ _ => trivial) _)).bind fun _ => ?_
  exact (Terminates.mapM harguments).bind fun args => Builtin.terminates_call builtin args name

mutual

/-- A tame expression comes to an end. -/
theorem Expr.terminates : (e : Expr) → e.tame = true → Terminates fun budget room => eval budget room e
  | .literal value, _ => terminates_eval (terminates_pure (constant value))
  | .ident name, _ => terminates_eval (terminates_of_refuses (refuses_lookup trivial))
  | .unary op line operand, h =>
      terminates_eval (((operand.terminates h).shift 2).bind fun v =>
        terminates_of_refuses (refuses_applyUnary trivial v))
  | .binary left op line right, h => by
      obtain ⟨hleft, hright⟩ := Bool.and_eq_true_iff.1 h
      exact terminates_binary (left.terminates hleft) (right.terminates hright) op line
  | .assign name value, h =>
      terminates_eval (((value.terminates h).shift 2).bind fun v =>
        (terminates_of_refuses (refuses_assign trivial v)).bind fun _ => terminates_pure v)
  | .property object name, h =>
      terminates_eval (((object.terminates h).shift 1).bind fun target => terminates_of_refuses
        ((refuses_objectOf trivial target _).bind fun receiver => Objects.refuses_getProperty trivial receiver _))
  | .setProperty object name value, h => by
      obtain ⟨hobject, hvalue⟩ := Bool.and_eq_true_iff.1 h
      refine terminates_eval (((value.terminates hvalue).shift 2).bind fun v => ?_)
      refine ((object.terminates hobject).shift 1).bind fun target => terminates_of_refuses ?_
      refine (refuses_objectOf trivial target _).bind fun receiver => ?_
      exact (Objects.refuses_setProperty trivial receiver _ v).bind fun _ => obeys_pure v
  | .array elements, h => by
      refine terminates_eval ((Terminates.mapM fun e he => ?_).bind fun vs =>
        terminates_of_refuses (refuses_newArray _))
      exact (Expr.terminatesAll elements h e he).shift 1
  | .element array line index, h => by
      obtain ⟨harray, hindex⟩ := Bool.and_eq_true_iff.1 h
      refine terminates_eval (((array.terminates harray).shift 2).bind fun container => ?_)
      refine ((index.terminates hindex).shift 2).bind fun i => ?_
      exact terminates_of_refuses (refuses_elementAt trivial container i)
  | .setElement array line index value, h => by
      obtain ⟨h, hvalue⟩ := Bool.and_eq_true_iff.1 h
      obtain ⟨harray, hindex⟩ := Bool.and_eq_true_iff.1 h
      refine terminates_eval (((array.terminates harray).shift 2).bind fun container => ?_)
      refine ((index.terminates hindex).shift 2).bind fun i => ((value.terminates hvalue).shift 2).bind fun v => ?_
      exact terminates_of_refuses ((refuses_setElementAt trivial container i v).bind fun _ => obeys_pure v)
  | .call (.ident name) line arguments named, h => by
      obtain ⟨h, -⟩ := Bool.and_eq_true_iff.1 h
      obtain ⟨hname, harguments⟩ := Bool.and_eq_true_iff.1 h
      obtain ⟨builtin, hbuiltin⟩ := Option.isSome_iff_exists.1 hname
      exact terminates_builtin hbuiltin (Expr.terminatesAll arguments harguments) line named
  | .method object name arguments named, h => by
      obtain ⟨h, -⟩ := Bool.and_eq_true_iff.1 h
      obtain ⟨hobject, harguments⟩ := Bool.and_eq_true_iff.1 h
      refine terminates_eval (((object.terminates hobject).shift 2).bind fun target => ?_)
      refine (terminates_of_refuses (refuses_objectOf trivial target _)).bind fun receiver => ?_
      refine (terminates_of_refuses (refuses_positionalOnly (fun _ _ => trivial) _)).bind fun _ => ?_
      refine (Terminates.mapM (Expr.terminatesAll arguments harguments)).bind fun args => ?_
      exact terminates_of_refuses (Objects.refuses_callMethod trivial receiver _ args)
  | .construct maker line arguments named, h => by
      obtain ⟨harguments, hnamed⟩ := Bool.and_eq_true_iff.1 h
      refine terminates_eval ((Terminates.mapM fun e he =>
        (Expr.terminatesAll arguments harguments e he).shift 1).bind fun positional => ?_)
      refine (Terminates.mapM fun a ha => ?_).bind fun given =>
        terminates_of_refuses (Objects.refuses_construct trivial positional fun _ _ => trivial)
      exact ((NamedArg.terminatesAll named hnamed a ha).shift 1).bind fun v => terminates_pure (a.name, v)

theorem Expr.terminatesAll : (es : List Expr) → Expr.tameAll es = true →
    ∀ e ∈ es, Terminates fun budget room => eval budget room e
  | [], _ => fun e he => absurd he List.not_mem_nil
  | e :: es, h => by
      obtain ⟨hfirst, hothers⟩ := Bool.and_eq_true_iff.1 h
      exact List.forall_mem_cons.2 ⟨e.terminates hfirst, Expr.terminatesAll es hothers⟩

theorem NamedArg.terminatesAll : (as : List NamedArg) → NamedArg.tameAll as = true →
    ∀ a ∈ as, Terminates fun budget room => eval budget room a.value
  | [], _ => fun a ha => absurd ha List.not_mem_nil
  | .mk name value :: as, h => by
      obtain ⟨hfirst, hothers⟩ := Bool.and_eq_true_iff.1 h
      exact List.forall_mem_cons.2 ⟨value.terminates hfirst, NamedArg.terminatesAll as hothers⟩

end

theorem Expr.terminatesOption {initial : Option Expr} (h : Expr.tameOption initial = true) :
    ∀ e ∈ initial, Terminates fun budget room => eval budget room e := by
  rintro e ⟨⟩
  exact e.terminates h

/-! ## Statements -/

theorem terminates_exec {s : Stmt} (h : Terminates fun budget room => exec budget (room + 6) s) :
    Terminates fun budget room => exec budget room s :=
  h.of_frames fun _ _ hlow => exec_of_lt hlow s

theorem terminates_block {body : List Stmt} (h : ∀ s ∈ body, Terminates fun budget room => exec budget room s)
    (frames : Nat) : Terminates fun budget room => inBlock (body.forM (exec budget (room + frames))) :=
  (Terminates.forM fun s hs => (h s hs).shift frames).inBlock

theorem terminates_ret (v : Value) : Terminates fun _ _ => (throw (.ret v) : Eval Unit) :=
  terminates_throw fun _ => trivial

theorem terminates_forIn {start : Expr} {stop : Option Expr} {body : List Stmt}
    (hstart : Terminates fun budget room => eval budget room start)
    (hstop : ∀ e ∈ stop, Terminates fun budget room => eval budget room e)
    (hbody : ∀ s ∈ body, Terminates fun budget room => exec budget room s) (line : Int) (name : Word) :
    Terminates fun budget room => exec budget room (.forIn line name start stop body) := by
  refine terminates_exec ((hstart.shift 4).bind fun first => ?_)
  refine (Terminates.mapOption fun e he => (hstop e he).shift 4).bind fun last => ?_
  -- here the items are settled, so the passes are counted before the first one
  refine (terminates_of_refuses (refuses_itemsOf trivial first last)).bind fun items => ?_
  exact (terminates_block hbody 0).forLoop name items

mutual

/-- A tame statement comes to an end. -/
theorem Stmt.terminates : (s : Stmt) → s.tame = true → Terminates fun budget room => exec budget room s
  | .expr value, h => terminates_exec (((value.terminates h).shift 4).bind fun _ => terminates_pure ())
  | .print value, h =>
      terminates_exec (((value.terminates h).shift 4).bind fun v => ((terminates_render v).shift 4).bind fun text =>
        terminates_of_refuses (refuses_say text))
  | .var name none, _ => terminates_exec (terminates_of_refuses (refuses_declare trivial .null))
  | .var name (some initial), h =>
      terminates_exec (((initial.terminates h).shift 4).bind fun v =>
        terminates_of_refuses (refuses_declare trivial v))
  | .block body, h => terminates_exec (terminates_block (Stmt.terminatesAll body h) 3)
  | .cond condition body otherwise, h => by
      obtain ⟨h, hotherwise⟩ := Bool.and_eq_true_iff.1 h
      obtain ⟨hcondition, hbody⟩ := Bool.and_eq_true_iff.1 h
      exact Otherwise.terminates otherwise hotherwise (condition.terminates hcondition) (Stmt.terminatesAll body hbody)
  | .forIn line name start stop body, h => by
      obtain ⟨h, hbody⟩ := Bool.and_eq_true_iff.1 h
      obtain ⟨hstart, hstop⟩ := Bool.and_eq_true_iff.1 h
      exact terminates_forIn (start.terminates hstart) (Expr.terminatesOption hstop) (Stmt.terminatesAll body hbody)
        line name
  | .breakLoop, _ | .continueLoop, _ | .run, _ => terminates_exec (terminates_throw fun _ => trivial)
  | .define name params body, _ =>
      terminates_exec ((terminates_of_refuses (obeys_newFunction fun _ => trivial)).bind fun v =>
        terminates_of_refuses (refuses_declare trivial v))
  | .ret line none, _ => terminates_exec (Terminates.look fun w => Terminates.check (terminates_ret .null) w)
  | .ret line (some value), h =>
      terminates_exec (Terminates.look fun w => Terminates.check (((value.terminates h).shift 4).bind terminates_ret) w)
  | .throwBall line target, h =>
      terminates_exec (((target.terminates h).shift 4).bind fun v =>
        terminates_of_refuses (refuses_throwBall trivial v))

/-- So does a conditional whose condition and first block do. -/
theorem Otherwise.terminates : (otherwise : Otherwise) → otherwise.tame = true → {condition : Expr} →
    {body : List Stmt} → (Terminates fun budget room => eval budget room condition) →
    (∀ s ∈ body, Terminates fun budget room => exec budget room s) →
    Terminates fun budget room => exec budget room (.cond condition body otherwise)
  | .nothing, _, condition, body, hcondition, hbody => by
      refine terminates_exec ((hcondition.shift 4).bind fun v => ?_)
      cases v.truthy with
      | true => exact terminates_block hbody 1
      | false => exact terminates_pure ()
  | .block second, h, condition, body, hcondition, hbody => by
      refine terminates_exec ((hcondition.shift 4).bind fun v => ?_)
      cases v.truthy with
      | true => exact terminates_block hbody 1
      | false => exact terminates_block (Stmt.terminatesAll second h) 1
  | .elseIf next second otherwise, h, condition, body, hcondition, hbody => by
      obtain ⟨h, hotherwise⟩ := Bool.and_eq_true_iff.1 h
      obtain ⟨hnext, hsecond⟩ := Bool.and_eq_true_iff.1 h
      refine terminates_exec ((hcondition.shift 4).bind fun v => ?_)
      cases v.truthy with
      | true => exact terminates_block hbody 1
      | false =>
          exact (Otherwise.terminates otherwise hotherwise (next.terminates hnext)
            (Stmt.terminatesAll second hsecond)).shift 4

theorem Stmt.terminatesAll : (ss : List Stmt) → Stmt.tameAll ss = true →
    ∀ s ∈ ss, Terminates fun budget room => exec budget room s
  | [], _ => fun s hs => absurd hs List.not_mem_nil
  | s :: ss, h => by
      obtain ⟨hfirst, hothers⟩ := Bool.and_eq_true_iff.1 h
      exact List.forall_mem_cons.2 ⟨s.terminates hfirst, Stmt.terminatesAll ss hothers⟩

end

/-! ## Programs -/

theorem terminates_execTop (echo : Bool) {s : Stmt} (h : s.tame = true) :
    Terminates fun budget room => execTop budget room echo s := by
  have hexec : Terminates fun budget room => exec budget room s := s.terminates h
  cases echo with
  | false => exact hexec
  | true =>
      cases s with
      | expr value =>
          refine (value.terminates h).bind fun v => ?_
          split
          · exact (terminates_render v).bind fun text => terminates_of_refuses (refuses_say text)
          · exact terminates_pure ()
      | _ => exact hexec

theorem Stmt.tame_of_mem {ss : List Stmt} (h : Stmt.tameAll ss = true) {s : Stmt} (hs : s ∈ ss) : s.tame = true := by
  induction ss with
  | nil => cases hs
  | cons first rest ih =>
      rw [Stmt.tameAll, Bool.and_eq_true] at h
      rcases List.mem_cons.1 hs with rfl | hs
      · exact h.1
      · exact ih h.2 hs

/-- From a world a step comes to an end without regard to the bounds. On every stack with room enough, and with whatever
budget of turns, it has one and the same result, and on a smaller one it has that result or is starved of room. The
result is not that of a loop without end, and the step is only then starved on every stack if some value leads into a
circle of arrays. -/
def Concludes (starved : Interrupt) {α : Type} (p : Metered α) (w : World) : Prop :=
  ∃ result, (∃ least, ∀ budget room, least ≤ room → p budget room w = result) ∧
    (∀ budget room, p budget room w = result ∨ ∃ w', p budget room w = .error starved w') ∧
    ∀ e w', result = .error e w' → e ≠ .endless ∧ (e = starved → ∃ v, w'.Circular v)

theorem Terminates.concludes {α : Type} {p : Metered α} (h : Terminates p) (w : World) : Concludes .overflow p w := by
  obtain ⟨result, henough, hstarved, hgenuine⟩ := h w
  refine ⟨result, henough, hstarved, fun e w' heq => ?_⟩
  have hend : Genuine w' e := hgenuine e w' heq
  constructor
  · rintro rfl
    exact hend
  · rintro rfl
    exact hend

/-- The end of a program by the end of its statements. -/
def atTop : EStateM.Result Interrupt World Unit → EStateM.Result Interrupt World Unit
  | .error .run w' => .ok () (w'.note .ranAtTop)
  | .error .overflow w' => .error (.fault ⟨.recursionLimit, none⟩) w'
  | result => result

/-- What is raised has a place, so only a want of room gives the fault of a program without room. -/
theorem Genuine.atTop {e e' : Interrupt} {w w' : World} (h : Genuine w e) (heq : atTop (.error e w) = .error e' w') :
    e' ≠ .endless ∧ (e' = .fault ⟨.recursionLimit, none⟩ → ∃ v, w'.Circular v) := by
  cases e with
  | run => cases heq
  | endless => exact h.elim
  | overflow =>
      cases heq
      exact ⟨nofun, fun _ => h⟩
  | fault f =>
      cases heq
      refine ⟨nofun, fun hf => ?_⟩
      cases hf
      cases h
  | _ =>
      cases heq
      exact ⟨nofun, nofun⟩

theorem interpretWithin_concludes (echo : Bool) {program : Program} (h : Stmt.tameAll program.statements = true)
    (w : World) :
    Concludes (.fault ⟨.recursionLimit, none⟩) (fun budget room => interpretWithin budget room echo program) w := by
  have hstatements : Terminates fun budget room => program.statements.forM (execTop budget room echo) :=
    Terminates.forM fun s hs => terminates_execTop echo (Stmt.tame_of_mem h hs)
  obtain ⟨result, ⟨least, hleast⟩, hstarved, hgenuine⟩ := hstatements w
  refine ⟨atTop result, ⟨least, fun budget room hroom => ?_⟩, fun budget room => ?_, fun e w' heq => ?_⟩
  · exact congrArg atTop (hleast budget room hroom)
  · rcases hstarved budget room with hsame | ⟨w', hoverflow⟩
    · exact .inl (congrArg atTop hsame)
    · exact .inr ⟨w', congrArg atTop hoverflow⟩
  · cases result with
    | ok a w₁ => cases heq
    | error e₁ w₁ => exact (hgenuine e₁ w₁ rfl).atTop heq

/-- In every world, a statement without `while`, `explore` and calls of functions comes to an end, and so does a program
of such statements, whether it is echoed or not: however deeply its `for` loops are nested, and whatever they do to the
arrays that they go through. -/
theorem tame_terminates (w : World) :
    (∀ s : Stmt, s.tame = true → Concludes .overflow (fun budget room => exec budget room s) w) ∧
    ∀ echo (program : Program), Stmt.tameAll program.statements = true →
      Concludes (.fault ⟨.recursionLimit, none⟩) (fun budget room => interpretWithin budget room echo program) w :=
  ⟨fun s hs => (s.terminates hs).concludes w, fun echo _ hprogram => interpretWithin_concludes echo hprogram w⟩

/-- Nested loops push to the array that they go through; with no turns at all to spend there are ninety-four elements in
the end. -/
theorem tame_terminates_pushing :
    let push (item : String) : Stmt :=
      .expr (.call (.ident ⟨"push", 3⟩) 3 [.ident ⟨"a", 3⟩, .ident ⟨item, 3⟩] [])
    let loops : Stmt := .forIn 2 ⟨"i", 2⟩ (.literal (.int 1)) (some (.literal (.int 2)))
      [.forIn 3 ⟨"x", 3⟩ (.ident ⟨"a", 3⟩) none [push "x", .forIn 3 ⟨"y", 3⟩ (.ident ⟨"a", 3⟩) none [push "y"]]]
    let program : Program := ⟨[.var ⟨"a", 1⟩ (some (.array [.literal .null])), loops]⟩
    let w := World.initial (.ofScript []) .unknown []
    loops.tame = true ∧ Concludes .overflow (fun budget room => exec budget room loops) w ∧
      Stmt.tameAll program.statements = true ∧
      Concludes (.fault ⟨.recursionLimit, none⟩) (fun budget room => interpretWithin budget room false program) w ∧
      ((w.after (interpretWithin 0 60 false program)).array 0).size = 94 := by
  intro push loops program w
  have hloops : loops.tame = true := by decide +kernel
  have hprogram : Stmt.tameAll program.statements = true := by decide +kernel
  exact ⟨hloops, (tame_terminates w).1 loops hloops, hprogram, (tame_terminates w).2 false program hprogram,
    by decide +kernel⟩

end SafariScript
