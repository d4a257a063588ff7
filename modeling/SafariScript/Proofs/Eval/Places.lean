import SafariScript.Proofs.Eval.Exploration
import SafariScript.Proofs.Eval.ObjectRefusals
import SafariScript.Proofs.Failures
import SafariScript.Proofs.Token.Lines
import SafariScript.Proofs.Words

/-!
# Where a script fails

Every fault has a place, and the place is a word of what runs: of the program, or of a function that it calls
(`Locates`). The interpreter makes up one word itself, the name of the variable of `explore`, which has no line. It
declares that name in a scope that it has just made, where nothing is declared yet, so the declaration cannot fail
(`locates_inOwnScope`). Words of the program come from its tokens, and a function comes from a program that ran before.
So a fault is reported on a line of the source (`faults_located`); only a program that runs out of room outside all
calls is reported without a line.
-/

namespace SafariScript

open Eval

/-- The words of the parameters and of the body of a function. -/
def Closure.words (closure : Closure) : List Word :=
  closure.params ++ Stmt.wordsAll closure.body

/-- All words of a function are known. -/
def Closure.Known (known : Word → Prop) (closure : Closure) : Prop :=
  ∀ word ∈ closure.words, known word

/-- If the interruption is a fault, its place is a known word. -/
def Interrupt.Located (known : Word → Prop) : Interrupt → Prop
  | .fault f => ∃ word ∈ f.place, known word
  | _ => True

/-- While all words of the functions are known, the step makes no other functions and fails at known words only. -/
abbrev Locates (known : Word → Prop) {α : Type} (p : Eval α) : Prop :=
  Obeys (Closure.Known known) (Interrupt.Located known) p

theorem World.Holds.known_function {known : Word → Prop} {w : World} (h : w.Holds (Closure.Known known)) (id : Nat) :
    (w.function id).Known known := by
  unfold World.function
  rw [Array.getD_eq_getD_getElem?]
  cases hclosure : w.functions[id]? with
  | none => exact fun word hword => absurd hword List.not_mem_nil
  | some closure => exact h closure (Array.mem_of_getElem? hclosure)

namespace Eval

variable {known : Word → Prop} {α β : Type} {place : Word}

/-! ## Operations -/

theorem locates_of_refuses {p : Eval α} (h : Refuses (Closure.Known known) known p) : Locates known p := by
  refine h.mono fun e he => ?_
  cases he with
  | fault cause hplace => exact ⟨_, rfl, hplace⟩
  | longInteger | unknownChance => trivial

/-- Comparing and writing values fails for want of room or of a text, and these are no faults. -/
theorem Fails.located {e : Interrupt} (h : Fails e) : e.Located known := by
  cases e with
  | fault f => exact h.elim
  | _ => trivial

theorem locates_ofResult {result : Except Interrupt α} (h : FailsOnly result) : Locates known (ofResult result) := by
  cases result with
  | ok a => exact obeys_pure a
  | error e => exact obeys_throw (h e rfl).located

theorem locates_render (room : Nat) (v : Value) : Locates known (render room v) := by
  rw [render_eq]
  exact Obeys.look fun w _ => locates_ofResult (failsOnly_textWithin w _ v)

theorem locates_applyBinary (room : Nat) {op : BinaryOp} {line : Int} (hplace : known ⟨op.spelling, line⟩)
    (left right : Value) : Locates known (applyBinary room op line left right) := by
  cases op with
  | and | or => exact obeys_pure _
  | equal | notEqual =>
      refine Obeys.look fun w _ => ?_
      exact (locates_ofResult (failsOnly_equalWithin w _ left right)).bind fun _ => obeys_pure _
  | add =>
      show Locates known (add room left right _)
      unfold add
      split
      · exact obeys_pure _
      · exact (locates_render room _).bind fun _ => obeys_pure _
      · exact (locates_render room _).bind fun _ => obeys_pure _
      · exact locates_of_refuses (refuses_raise hplace _)
  | int op =>
      unfold applyBinary
      dsimp only
      split
      · exact locates_of_refuses (refuses_arithmetic hplace op _ _)
      · exact locates_of_refuses (refuses_raise hplace _)

theorem locates_call (room : Nat) (builtin : Builtin) (args : List Value) (hplace : known place) :
    Locates known (Builtin.call room builtin args place) := by
  rcases Builtin.call_cases builtin args place with ⟨id, item, rfl, rfl⟩ | ⟨p, hcall, hrefuses⟩
  · refine Obeys.look fun w _ => ?_
    exact (locates_ofResult (failsOnly_anyEqual room w item _)).bind fun _ => obeys_pure _
  · rw [hcall room]
    exact locates_of_refuses (hrefuses _ known hplace)

/-! ## Scopes and loops -/

/-- What is changed for a step and put back after it are not the functions. -/
theorem locates_around {p q : Eval α} (h : Locates known p) (before : World → World) (after : World → World → World)
    (happly : ∀ w, q w = onWorld (after w) (p (before w))) (hbefore : ∀ w, (before w).functions = w.functions)
    (hafter : ∀ w w', (after w w').functions = w'.functions) : Locates known q := by
  intro w hw
  have hstart : (before w).Holds (Closure.Known known) := by
    rw [World.Holds, hbefore]
    exact hw
  have hp := h (before w) hstart
  rw [happly]
  cases hresult : p (before w) with
  | ok a w' | error e w' =>
      rw [hresult] at hp
      simpa only [onWorld, World.Holds, hafter] using hp

theorem locates_inScope (scope : Nat) {p : Eval α} (h : Locates known p) : Locates known (inScope scope p) :=
  locates_around h _ _ (inScope_apply scope p) (fun _ => rfl) fun _ _ => rfl

theorem locates_enter (parent : Nat) : Locates known (enter parent) :=
  obeys_modifyGet fun _ => rfl

theorem locates_inBlock {body : Eval Unit} (h : Locates known body) : Locates known (inBlock body) :=
  Obeys.bind (Obeys.look fun w _ => locates_enter w.scope) fun scope => locates_inScope scope h

/-- In the scope of a loop, that is while its variable is declared there, the step fails at known words only. -/
def LocatesIn (known : Word → Prop) (name : String) (p : Eval α) : Prop :=
  ∀ (own : Nat) (w : World), w.AtLoop own name → w.Holds (Closure.Known known) →
    match p w with
    | .ok _ w' => w'.Holds (Closure.Known known)
    | .error e w' => w'.Holds (Closure.Known known) ∧ e.Located known

theorem LocatesIn.bind {name : String} {p : Eval α} {f : α → Eval β} (hp : LocatesIn known name p)
    (hf : ∀ a, Locates known (f a)) : LocatesIn known name (p >>= f) := by
  intro own w hloop hw
  have hfirst := hp own w hloop hw
  rw [bind_apply]
  cases hresult : p w with
  | ok a w' =>
      rw [hresult] at hfirst
      exact hf a w' hfirst
  | error e w' =>
      rw [hresult] at hfirst
      exact hfirst

/-- In a scope that was just made every name can be declared, known or not. -/
theorem locates_inOwnScope (name : Word) {p : Eval Unit} (h : LocatesIn known name.text p) :
    Locates known (do let scope ← enterHere; inScope scope (do declare name .null; p)) := by
  intro w hw
  have hp := h w.scopes.all.size (w.opened name.text) (w.atLoop_opened name.text) hw
  rw [inOwnScope_apply]
  cases hresult : p (w.opened name.text) with
  | ok a w' | error e w' =>
      rw [hresult] at hp
      exact hp

theorem locates_once {body : Eval Unit} (h : Locates known body) : Locates known (once body) := by
  intro w hw
  have hbody := h w hw
  unfold once
  cases hresult : body w with
  | ok a w' =>
      rw [hresult] at hbody
      exact hbody
  | error e w' =>
      rw [hresult] at hbody
      cases e with
      | breakLoop | continueLoop | run => exact hbody.1
      | _ => exact hbody

theorem locates_pass {body : Eval Unit} (h : Locates known body) : Locates known (pass body) :=
  (locates_once h).bind fun _ => obeys_pure _

theorem locates_whileLoop {condition : Eval Value} {body : Eval Unit} (hcondition : Locates known condition)
    (hbody : Locates known body) (turns : Nat) : Locates known (whileLoop condition body turns) := by
  induction turns with
  | zero => exact obeys_throw trivial
  | succ turns ih =>
      refine hcondition.bind fun value => ?_
      split
      · refine (locates_pass hbody).bind fun goesOn => ?_
        split
        · exact ih
        · exact obeys_pure ()
      · exact obeys_pure ()

theorem locates_forItems {step : Value → Eval Bool} (h : ∀ v, Locates known (step v)) (items : Items) :
    Locates known (forItems step items) := by
  have hgoesOn (v : Value) {rest : Eval Unit} (hrest : Locates known rest) :
      Locates known (do if ← step v then rest) := by
    refine (h v).bind fun goesOn => ?_
    split
    · exact hrest
    · exact obeys_pure ()
  cases items with
  | range next count =>
      show Locates known (forRange step next count)
      induction count generalizing next with
      | zero => exact obeys_pure ()
      | succ count ih => exact hgoesOn _ (ih (next + 1))
  | values vs =>
      show Locates known (forValues step vs)
      induction vs with
      | nil => exact obeys_pure ()
      | cons v vs ih => exact hgoesOn v ih

theorem locates_forLoop {name : Word} (hname : known name) (items : Items) {body : Eval Unit}
    (h : Locates known body) : Locates known (forLoop name items body) := by
  have hstep (item : Value) : Locates known (do assign name item; pass body) :=
    (locates_of_refuses (refuses_assign hname item)).bind fun _ => locates_pass h
  exact locates_inOwnScope name fun _ w _ hw => locates_forItems hstep items w hw

/-- Where the encounter is assigned it is declared, though its word is none of the script. -/
theorem locatesIn_explorePasses (line : Int) (zone : Nat) {body : Eval Unit} (h : Locates known body)
    (hbody : Confined false body) (budget : Nat) :
    LocatesIn known encounterName (explorePasses line zone body budget) := by
  induction budget with
  | zero => exact fun _ _ _ hw => ⟨hw, trivial⟩
  | succ budget ih =>
      intro own w hloop hw
      by_cases left : 0 < (w.zone zone).turns
      · by_cases empty : (w.zone zone).pokemon = []
        · rw [explorePasses_deserted left empty]
          exact hw
        · obtain ⟨name, -, hstart, -, hpass⟩ := explorePasses_meeting line body budget hloop left empty
          have honce := locates_once h (w.meeting line zone name) hw
          have hafter := hstart.after hbody
          rw [← World.after_once, World.after] at hafter
          rw [hpass, bind_apply]
          cases hresult : once body (w.meeting line zone name) with
          | error e w' =>
              rw [hresult] at honce
              exact honce
          | ok outcome w' =>
              rw [hresult] at honce hafter
              cases outcome with
              | some outcome => exact honce
              | none => exact ih own w' hafter honce
      · rw [explorePasses_spent (Int.not_lt.1 left)]
        exact hw

theorem locates_exploreLoop (line : Int) (zone : Nat) {body : Eval Unit} (h : Locates known body)
    (hbody : Confined false body) (budget : Nat) : Locates known (exploreLoop line zone body budget) := by
  rw [exploreLoop_eq]
  refine locates_inOwnScope _ ((locatesIn_explorePasses line zone h hbody budget).bind fun outcome => ?_)
  unfold announce
  split
  · exact locates_of_refuses (refuses_say _)
  · exact obeys_pure ()
  · refine Obeys.look fun w _ => ?_
    split
    · exact locates_of_refuses (refuses_say _)
    · exact obeys_pure ()

/-! ## Calls -/

theorem locates_running (scope : Nat) {body : Eval Unit} (h : Locates known body) :
    Locates known (running scope body) :=
  locates_around (locates_inScope scope h) _ _ (running_apply scope body) (fun _ => rfl) fun _ _ => rfl

/-- If the body of a function runs out of room, the call is at fault. -/
theorem locates_callResult (hplace : known place) {body : Eval Unit} (h : Locates known body) :
    Locates known (callResult place body) := by
  intro w hw
  have hbody := h w hw
  unfold callResult
  cases hresult : body w with
  | ok a w' =>
      rw [hresult] at hbody
      exact hbody
  | error e w' =>
      rw [hresult] at hbody
      cases e with
      | ret value | run => exact hbody.1
      | overflow => exact ⟨hbody.1, place, rfl, hplace⟩
      | _ => exact hbody

theorem locates_callFunction {exec : List Stmt → Eval Unit}
    (hexec : ∀ body, (∀ word ∈ Stmt.wordsAll body, known word) → Locates known (exec body)) (hplace : known place)
    (id : Nat) (args : List Value) : Locates known (callFunction exec id args place) := by
  refine Obeys.look fun w hw => ?_
  -- the function is one that the world holds when the call begins
  obtain ⟨hparams, hbody⟩ := List.forall_mem_append.1 (hw.known_function id)
  refine Obeys.check ⟨place, rfl, hplace⟩ ((locates_enter _).bind fun scope => ?_)
  refine (locates_inScope scope (locates_of_refuses (refuses_bindParams hparams args))).bind fun _ => ?_
  exact locates_callResult hplace (locates_running scope (hexec _ hbody))

/-! ## Expressions and statements -/

/-- On a stack with so much room, trees of known words fail at known words only. -/
structure Places (known : Word → Prop) (budget room : Nat) : Prop where
  eval (e : Expr) (h : ∀ word ∈ e.words, known word) : Locates known (Eval.eval budget room e)
  exec (s : Stmt) (h : ∀ word ∈ s.words, known word) : Locates known (Eval.exec budget room s)

section Steps

variable {budget room : Nat}

theorem Places.evalAll (h : Places known budget room) {es : List Expr} (hes : ∀ word ∈ Expr.wordsAll es, known word) :
    Locates known (es.mapM (Eval.eval budget room)) :=
  Obeys.mapM fun e he => h.eval e fun word hword => hes word (Expr.words_subset he hword)

theorem Places.evalOption (h : Places known budget room) {e : Option Expr}
    (he : ∀ word ∈ Expr.wordsOption e, known word) : Locates known (e.mapM (Eval.eval budget room)) := by
  refine Obeys.mapOption fun e' he' => h.eval e' ?_
  obtain rfl := he'
  exact he

theorem Places.execAll (h : Places known budget room) {ss : List Stmt}
    (hss : ∀ word ∈ Stmt.wordsAll ss, known word) : Locates known (ss.forM (Eval.exec budget room)) :=
  Obeys.forM fun s hs => h.exec s fun word hword => hss word (Stmt.words_subset hs hword)

/-- The words of named arguments begin with their names. -/
theorem known_names {named : List NamedArg} (h : ∀ word ∈ NamedArg.wordsAll named, known word) :
    ∀ a ∈ named, known a.name := by
  rintro ⟨name, value⟩ ha
  exact h name (NamedArg.words_subset ha List.mem_cons_self)

/-- What is done with the values of named arguments is told their names. -/
theorem Places.evalNamed (h : Places known budget room) {named : List NamedArg}
    (hnamed : ∀ word ∈ NamedArg.wordsAll named, known word) {f : List (Word × Value) → Eval β}
    (hf : ∀ given, (∀ a ∈ given, known a.1) → Locates known (f given)) :
    Locates known (named.mapM (fun a => do return (a.name, ← Eval.eval budget room a.value)) >>= f) := by
  induction named generalizing f with
  | nil => exact hf [] fun a ha => absurd ha List.not_mem_nil
  | cons first rest ih =>
      obtain ⟨name, value⟩ := first
      obtain ⟨⟨hname, hvalue⟩, hrest⟩ : (known name ∧ ∀ word ∈ value.words, known word) ∧
          ∀ word ∈ NamedArg.wordsAll rest, known word := by
        simpa only [NamedArg.wordsAll, NamedArg.words, List.forall_mem_append, List.forall_mem_cons] using hnamed
      simp only [List.mapM_cons, bind_assoc, pure_bind]
      refine (h.eval value hvalue).bind fun v => ih hrest fun given hgiven => hf _ ?_
      exact List.forall_mem_cons.2 ⟨hname, hgiven⟩

/-- What follows the evaluation of a callee to a function. -/
theorem Places.apply (h : Places known budget room) (hplace : known place) (value : Value) (cause : Cause)
    {arguments : List Expr} {named : List NamedArg} (harguments : ∀ word ∈ Expr.wordsAll arguments, known word)
    (hnamed : ∀ word ∈ NamedArg.wordsAll named, known word) :
    Locates known (do
      let id ← functionOf value place cause
      positionalOnly named .functions
      let args ← arguments.mapM (Eval.eval budget room)
      callFunction (fun body => body.forM (Eval.exec budget room)) id args place) := by
  refine (locates_of_refuses (refuses_functionOf hplace value cause)).bind fun id => ?_
  refine (locates_of_refuses (refuses_positionalOnly (known_names hnamed) _)).bind fun _ => ?_
  refine (h.evalAll harguments).bind fun args => ?_
  exact locates_callFunction (fun body hbody => h.execAll hbody) hplace id args

theorem locates_eval_call (h₀ : Places known budget room) (h₂ : Places known budget (room + 2)) {callee : Expr}
    {line : Int} {arguments : List Expr} {named : List NamedArg}
    (h : ∀ word ∈ (Expr.call callee line arguments named).words, known word) :
    Locates known (eval budget (room + 4) (.call callee line arguments named)) := by
  simp only [Expr.words, List.forall_mem_cons, List.forall_mem_append] at h
  obtain ⟨hplace, hcallee, harguments, hnamed⟩ := h
  cases callee with
  | ident name =>
      have hname : known name := hcallee name List.mem_cons_self
      unfold eval
      dsimp only
      split
      · refine (locates_of_refuses (refuses_positionalOnly (known_names hnamed) _)).bind fun _ => ?_
        exact (h₀.evalAll harguments).bind fun args => locates_call room _ args hname
      · refine Obeys.look fun w _ => ?_
        split
        · exact locates_of_refuses (refuses_raise hname _)
        · exact h₀.apply hname _ _ harguments hnamed
  | _ => exact (h₂.eval _ hcallee).bind fun value => h₀.apply hplace value _ harguments hnamed

theorem locates_eval_binary (h₂ : Places known budget (room + 2)) {left : Expr} {op : BinaryOp} {line : Int}
    {right : Expr} (h : ∀ word ∈ (Expr.binary left op line right).words, known word) :
    Locates known (eval budget (room + 4) (.binary left op line right)) := by
  simp only [Expr.words, List.forall_mem_cons, List.forall_mem_append] at h
  obtain ⟨hplace, hleft, hright⟩ := h
  cases op with
  | and =>
      refine (h₂.eval left hleft).bind fun a => ?_
      split
      · exact (h₂.eval right hright).bind fun b => obeys_pure _
      · exact obeys_pure _
  | or =>
      refine (h₂.eval left hleft).bind fun a => ?_
      split
      · exact obeys_pure _
      · exact (h₂.eval right hright).bind fun b => obeys_pure _
  | _ =>
      refine (h₂.eval left hleft).bind fun a => (h₂.eval right hright).bind fun b => ?_
      exact locates_applyBinary _ hplace a b

/-- An expression fails at known words if its parts do, on the rest of the stack. -/
theorem locates_eval_step (h₀ : Places known budget room) (h₁ : Places known budget (room + 1))
    (h₂ : Places known budget (room + 2)) (e : Expr) (h : ∀ word ∈ e.words, known word) :
    Locates known (eval budget (room + 4) e) := by
  cases e with
  | literal value => exact obeys_pure _
  | ident name => exact locates_of_refuses (refuses_lookup (h name List.mem_cons_self))
  | unary op line operand =>
      obtain ⟨hplace, hoperand⟩ := List.forall_mem_cons.1 h
      exact (h₂.eval operand hoperand).bind fun v => locates_of_refuses (refuses_applyUnary hplace v)
  | binary left op line right => exact locates_eval_binary h₂ h
  | assign name value =>
      obtain ⟨hname, hvalue⟩ := List.forall_mem_cons.1 h
      refine (h₂.eval value hvalue).bind fun v => locates_of_refuses ?_
      exact (refuses_assign hname v).bind fun _ => obeys_pure v
  | property object name =>
      obtain ⟨hname, hobject⟩ := List.forall_mem_cons.1 h
      refine (h₁.eval object hobject).bind fun target => locates_of_refuses ?_
      exact (refuses_objectOf hname target _).bind fun receiver => Objects.refuses_getProperty hname receiver _
  | setProperty object name value =>
      simp only [Expr.words, List.forall_mem_cons, List.forall_mem_append] at h
      obtain ⟨hname, hobject, hvalue⟩ := h
      refine (h₂.eval value hvalue).bind fun v => (h₁.eval object hobject).bind fun target => locates_of_refuses ?_
      refine (refuses_objectOf hname target _).bind fun receiver => ?_
      exact (Objects.refuses_setProperty hname receiver _ v).bind fun _ => obeys_pure v
  | array elements => exact (h₁.evalAll h).bind fun vs => locates_of_refuses (refuses_newArray _)
  | element array line index =>
      simp only [Expr.words, List.forall_mem_cons, List.forall_mem_append] at h
      obtain ⟨hplace, harray, hindex⟩ := h
      refine (h₂.eval array harray).bind fun container => (h₂.eval index hindex).bind fun i => ?_
      exact locates_of_refuses (refuses_elementAt hplace container i)
  | setElement array line index value =>
      simp only [Expr.words, List.forall_mem_cons, List.forall_mem_append] at h
      obtain ⟨hplace, ⟨harray, hindex⟩, hvalue⟩ := h
      refine (h₂.eval array harray).bind fun container => (h₂.eval index hindex).bind fun i => ?_
      refine (h₂.eval value hvalue).bind fun v => locates_of_refuses ?_
      exact (refuses_setElementAt hplace container i v).bind fun _ => obeys_pure v
  | call callee line arguments named => exact locates_eval_call h₀ h₂ h
  | method object name arguments named =>
      simp only [Expr.words, List.forall_mem_cons, List.forall_mem_append] at h
      obtain ⟨hname, hobject, harguments, hnamed⟩ := h
      refine (h₂.eval object hobject).bind fun target => ?_
      refine (locates_of_refuses (refuses_objectOf hname target _)).bind fun receiver => ?_
      refine (locates_of_refuses (refuses_positionalOnly (known_names hnamed) _)).bind fun _ => ?_
      refine (h₀.evalAll harguments).bind fun args => ?_
      exact locates_of_refuses (Objects.refuses_callMethod hname receiver _ args)
  | construct maker line arguments named =>
      simp only [Expr.words, List.forall_mem_cons, List.forall_mem_append] at h
      obtain ⟨hplace, harguments, hnamed⟩ := h
      refine (h₁.evalAll harguments).bind fun positional => h₁.evalNamed hnamed fun given hgiven => ?_
      exact locates_of_refuses (Objects.refuses_construct hplace positional hgiven)

theorem locates_exec_cond (ih : ∀ m < room + 6, Places known budget m) {condition : Expr} {body : List Stmt}
    {otherwise : Otherwise} (h : ∀ word ∈ (Stmt.cond condition body otherwise).words, known word) :
    Locates known (exec budget (room + 6) (.cond condition body otherwise)) := by
  simp only [Stmt.words, List.forall_mem_append] at h
  obtain ⟨hcondition, hbody, hotherwise⟩ := h
  have hblock (ss : List Stmt) (hss : ∀ word ∈ Stmt.wordsAll ss, known word) :
      Locates known (inBlock (ss.forM (exec budget (room + 1)))) :=
    locates_inBlock ((ih (room + 1) (by omega)).execAll hss)
  refine ((ih (room + 4) (by omega)).eval condition hcondition).bind fun v => ?_
  split
  · exact hblock body hbody
  · cases otherwise with
    | nothing => exact obeys_pure ()
    | block body => exact hblock body hotherwise
    | elseIf condition body otherwise =>
        exact (ih (room + 4) (by omega)).exec (.cond condition body otherwise) hotherwise

/-- A statement fails at known words if its parts do, on the rest of the stack. -/
theorem locates_exec_step (ih : ∀ m < room + 6, Places known budget m) (s : Stmt) (h : ∀ word ∈ s.words, known word) :
    Locates known (exec budget (room + 6) s) := by
  have hplaces : Places known budget (room + 4) := ih (room + 4) (by omega)
  cases s with
  | expr value => exact (hplaces.eval value h).bind fun _ => obeys_pure ()
  | print value =>
      refine (hplaces.eval value h).bind fun v => (locates_render _ v).bind fun text => ?_
      exact locates_of_refuses (refuses_say text)
  | var name initial =>
      obtain ⟨hname, hinitial⟩ := List.forall_mem_cons.1 h
      have hdeclare (v : Value) : Locates known (declare name v) := locates_of_refuses (refuses_declare hname v)
      cases initial with
      | some e => exact (hplaces.eval e hinitial).bind hdeclare
      | none => exact hdeclare .null
  | block body => exact locates_inBlock ((ih (room + 3) (by omega)).execAll h)
  | cond condition body otherwise => exact locates_exec_cond ih h
  | loop condition body =>
      obtain ⟨hcondition, hbody⟩ := List.forall_mem_append.1 h
      exact locates_whileLoop (hplaces.eval condition hcondition)
        (locates_inBlock ((ih room (by omega)).execAll hbody)) budget
  | forIn line name start stop body =>
      simp only [Stmt.words, List.forall_mem_cons, List.forall_mem_append] at h
      obtain ⟨hplace, hname, hstart, hstop, hbody⟩ := h
      refine (hplaces.eval start hstart).bind fun first => (hplaces.evalOption hstop).bind fun last => ?_
      refine (locates_of_refuses (refuses_itemsOf hplace first last)).bind fun items => ?_
      exact locates_forLoop hname items (locates_inBlock ((ih room (by omega)).execAll hbody))
  | breakLoop | continueLoop | run => exact obeys_throw trivial
  | define name params body =>
      obtain ⟨hname, hclosure⟩ := List.forall_mem_cons.1 h
      refine Obeys.bind (obeys_newFunction fun scope => hclosure) fun v => ?_
      exact locates_of_refuses (refuses_declare hname v)
  | ret line value =>
      obtain ⟨hplace, hvalue⟩ := List.forall_mem_cons.1 h
      have hret (v : Value) : Locates known (throw (.ret v) : Eval Unit) := obeys_throw trivial
      refine Obeys.look fun w _ => Obeys.check ⟨_, rfl, hplace⟩ ?_
      cases value with
      | some e => exact (hplaces.eval e hvalue).bind hret
      | none => exact hret .null
  | explore line zone body =>
      simp only [Stmt.words, List.forall_mem_cons] at h
      obtain ⟨-, hzone, hbody⟩ := h
      refine (locates_of_refuses (refuses_exploredZone hzone)).bind fun id => ?_
      exact locates_exploreLoop line id (locates_inBlock ((ih (room + 1) (by omega)).execAll hbody))
        (confined_block budget (room + 1) body) budget
  | throwBall line target =>
      obtain ⟨hplace, htarget⟩ := List.forall_mem_cons.1 h
      exact (hplaces.eval target htarget).bind fun v => locates_of_refuses (refuses_throwBall hplace v)

end Steps

/-- Trees of known words fail at known words only, however much room the stack has. -/
theorem places (known : Word → Prop) (budget room : Nat) : Places known budget room := by
  -- the induction is on the room, since a call executes a body that is no part of the calling expression
  induction room using Nat.strongRecOn with
  | ind room ih =>
      refine ⟨fun e he => ?_, fun s hs => ?_⟩
      · by_cases h : room < 4
        · rw [eval_of_lt h]
          exact obeys_throw trivial
        · obtain ⟨n, rfl⟩ : ∃ n, room = n + 4 := ⟨room - 4, by omega⟩
          exact locates_eval_step (ih n (by omega)) (ih (n + 1) (by omega)) (ih (n + 2) (by omega)) e he
      · by_cases h : room < 6
        · rw [exec_of_lt h]
          exact obeys_throw trivial
        · obtain ⟨n, rfl⟩ : ∃ n, room = n + 6 := ⟨room - 6, by omega⟩
          exact locates_exec_step ih s hs

/-! ## Programs -/

theorem locates_execTop (budget room : Nat) (echo : Bool) {s : Stmt} (h : ∀ word ∈ s.words, known word) :
    Locates known (execTop budget room echo s) := by
  unfold execTop
  split
  · refine ((places known budget room).eval _ h).bind fun v => ?_
    split
    · exact (locates_render room v).bind fun text => locates_of_refuses (refuses_say text)
    · exact obeys_pure ()
  · exact (places known budget room).exec s h

/-- The end of a program that is located, up to the one fault that has no place. -/
theorem obeys_interpretWithin (budget room : Nat) (echo : Bool) {program : Program}
    (h : ∀ word ∈ program.words, known word) :
    Obeys (Closure.Known known) (fun e => e = .fault ⟨.recursionLimit, none⟩ ∨ e.Located known)
      (interpretWithin budget room echo program) := by
  have hstatements : Locates known (program.statements.forM (execTop budget room echo)) :=
    Obeys.forM fun s hs => locates_execTop budget room echo fun word hword => h word (Stmt.words_subset hs hword)
  intro w hw
  have hrun := hstatements w hw
  unfold interpretWithin
  cases hresult : program.statements.forM (execTop budget room echo) w with
  | ok a w' =>
      rw [hresult] at hrun
      exact hrun
  | error e w' =>
      rw [hresult] at hrun
      cases e with
      | run => exact hrun.1
      | overflow => exact ⟨hrun.1, .inl rfl⟩
      | _ => exact ⟨hrun.1, .inr hrun.2⟩

end Eval

/-! ## Sessions -/

/-- The word is that of a token of the piece of source. -/
def Chunk.Spells (chunk : Chunk) (word : Word) : Prop :=
  ∃ scan, Scan.ofSource chunk.line chunk.source.toList = .ok scan ∧ word ∈ scan.tokens.map Token.word

/-- No token stands before the first line. -/
theorem Chunk.Spells.line_le {chunk : Chunk} {word : Word} (h : chunk.Spells word) : chunk.line ≤ word.line := by
  obtain ⟨scan, hscan, hword⟩ := h
  obtain ⟨-, rfl⟩ := Scan.ofSource_eq_ok.1 hscan
  obtain ⟨t, ht, rfl⟩ := List.mem_map.1 hword
  obtain ⟨before, behind, htokens⟩ := List.append_of_mem ht
  have hnumbered := numbered_of_segmented chunk.line (Segment.split_segmented chunk.source.toList)
  obtain ⟨front, s, rest, -, -, -, -, hline⟩ := hnumbered.token before t behind htokens
  show chunk.line ≤ t.line
  omega

theorem Chunk.spells_of_mem_words {chunk : Chunk} {program : Program} (h : chunk.program? = some program)
    {word : Word} (hword : word ∈ program.words) : chunk.Spells word := by
  obtain ⟨scan, hscan, hscript⟩ := script_of_parseSource (Chunk.parseSource_of_program? h)
  exact ⟨scan, hscan, hscript.words word hword⟩

/-- The functions of a session come from its programs. -/
theorem World.Holds.afterChunks {known : Word → Prop} {w : World} (hw : w.Holds (Closure.Known known))
    (budget room : Nat) {chunks : List Chunk}
    (hchunks : ∀ chunk ∈ chunks, ∀ program, chunk.program? = some program → ∀ word ∈ program.words, known word) :
    (w.afterChunks budget room chunks).Holds (Closure.Known known) := by
  induction chunks generalizing w with
  | nil => exact hw
  | cons chunk chunks ih =>
      obtain ⟨hfirst, hothers⟩ := List.forall_mem_cons.1 hchunks
      rw [World.afterChunks, List.foldl_cons]
      refine ih ?_ hothers
      split
      · exact hw
      · next program hprogram =>
        have hrun := obeys_interpretWithin budget room chunk.echo (hfirst program hprogram) w hw
        unfold World.after
        split
        · next hok =>
          rw [hok] at hrun
          exact hrun
        · next herror =>
          rw [herror] at hrun
          exact hrun.1

/-- A fault of a program has a place, or is the one that a program without room has. -/
theorem place_of_fault {w w' : World} {budget room : Nat} {echo : Bool} {program : Program} {f : Fault}
    (h : interpretWithin budget room echo program w = .error (.fault f) w') (hroom : f ≠ ⟨.recursionLimit, none⟩) :
    ∃ word, f.place = some word ∧ (word ∈ program.words ∨ ∃ closure ∈ w.functions, word ∈ closure.words) := by
  let known (word : Word) : Prop := word ∈ program.words ∨ ∃ closure ∈ w.functions, word ∈ closure.words
  have hw : w.Holds (Closure.Known known) := fun closure hclosure word hword => .inr ⟨closure, hclosure, hword⟩
  have hprogram : ∀ word ∈ program.words, known word := fun word hword => .inl hword
  rcases ((obeys_interpretWithin budget room echo hprogram).error hw h).2 with heq | hlocated
  · exact absurd (Interrupt.fault.inj heq) hroom
  · exact hlocated

/-- Whatever pieces of source were accepted and run before, a fault of the next program, unless it has run out of room
outside all calls, has a place that is a word of the program, or of the parameters or the body of a function that an
earlier program left. It is the word of a token of the source, so its line, which is reported, is not zero. -/
theorem faults_located (chance : Random.Source) (rates : CatchRates) (input : List String) (budget room : Nat)
    (chunks : List Chunk) (chunk : Chunk) (hlines : ∀ c ∈ chunk :: chunks, 1 ≤ c.line) (program : Program)
    (hprogram : chunk.program? = some program) (f : Fault) (w' : World)
    (hfault : interpretWithin budget room chunk.echo program
      ((World.initial chance rates input).afterChunks budget room chunks) = .error (.fault f) w')
    (hroom : f ≠ ⟨.recursionLimit, none⟩) :
    ∃ word, f.place = some word ∧ f.diagnostic.lexeme = some word.text ∧ f.diagnostic.line = word.line ∧
      1 ≤ word.line ∧
      ((word ∈ program.words ∧ chunk.Spells word) ∨
        (∃ closure ∈ ((World.initial chance rates input).afterChunks budget room chunks).functions,
          word ∈ closure.words) ∧
        ∃ earlier ∈ chunks, earlier.program?.isSome = true ∧ earlier.Spells word) := by
  obtain ⟨hline, hlines⟩ := List.forall_mem_cons.1 hlines
  obtain ⟨word, hplace, horigin⟩ := place_of_fault hfault hroom
  obtain ⟨cause, place⟩ := f
  obtain rfl : place = some word := hplace
  refine ⟨word, rfl, rfl, rfl, ?_⟩
  rcases horigin with hword | ⟨closure, hclosure, hword⟩
  · have hspells : chunk.Spells word := Chunk.spells_of_mem_words hprogram hword
    exact ⟨Int.le_trans hline hspells.line_le, .inl ⟨hword, hspells⟩⟩
  · -- at first there are no functions, and every program keeps to its own words and to those of the functions
    have hinitial : (World.initial chance rates input).Holds
        (Closure.Known fun word => ∃ earlier ∈ chunks, earlier.program?.isSome = true ∧ earlier.Spells word) :=
      fun closure hclosure => absurd hclosure (Array.not_mem_empty closure)
    have hholds := hinitial.afterChunks budget room fun earlier hearlier program hprogram word hword =>
      ⟨earlier, hearlier, by rw [hprogram]; rfl, Chunk.spells_of_mem_words hprogram hword⟩
    obtain ⟨earlier, hearlier, haccepted, hspells⟩ := hholds closure hclosure word hword
    have hfirst : 1 ≤ word.line := Int.le_trans (hlines earlier hearlier) hspells.line_le
    exact ⟨hfirst, .inr ⟨⟨closure, hclosure, hword⟩, earlier, hearlier, haccepted, hspells⟩⟩

/-- A function of one piece of source divides by zero in a call from the next: the fault is on its second line. -/
theorem faults_located_division :
    let first : Chunk := ⟨"define f(n) \x7b\n  return 1 / n;\n\x7d", 1, false, false⟩
    let second : Chunk := ⟨"f(0)", 4, true, true⟩
    let f : Fault := ⟨.divisionByZero, some ⟨"/", 2⟩⟩
    let w := (World.initial (.ofScript []) .unknown []).afterChunks 10 60 [first]
    (∀ c ∈ [second, first], 1 ≤ c.line) ∧ f ≠ ⟨.recursionLimit, none⟩ ∧
    ∃ program w', second.program? = some program ∧
      interpretWithin 10 60 true program w = .error (.fault f) w' ∧
      ∃ word, f.place = some word ∧ f.diagnostic.lexeme = some word.text ∧ f.diagnostic.line = word.line ∧
        1 ≤ word.line ∧
        ((word ∈ program.words ∧ second.Spells word) ∨
          (∃ closure ∈ w.functions, word ∈ closure.words) ∧
          ∃ earlier ∈ [first], earlier.program?.isSome = true ∧ earlier.Spells word) := by
  intro first second f w
  have hends : endings 10 60 [second] w = [some (.fault f)] := by decide +kernel
  have hlines : ∀ c ∈ [second, first], 1 ≤ c.line := by decide
  have hroom : f ≠ ⟨.recursionLimit, none⟩ := by decide
  refine ⟨hlines, hroom, ?_⟩
  cases hprogram : second.program? with
  | none => simp [endings, hprogram] at hends
  | some program =>
      cases hrun : interpretWithin 10 60 second.echo program w with
      | ok _ w' => simp [endings, hprogram, hrun] at hends
      | error e w' =>
          obtain rfl : e = .fault f := by simpa [endings, hprogram, hrun] using hends
          exact ⟨program, w', rfl, hrun, faults_located (.ofScript []) .unknown [] 10 60 [first] second hlines program
            hprogram f w' hrun hroom⟩

end SafariScript
