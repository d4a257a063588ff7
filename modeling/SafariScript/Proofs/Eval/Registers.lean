import SafariScript.Proofs.Eval.ObjectBounds

/-!
# The registers are restored

Blocks, loops, explorations and calls run in scopes of their own, and a call counts one function more meanwhile.
All of them set a register, run a body and set the register back, however the body ends; so after every
expression and every statement, in every world, both registers are what they were (`registers_after_eval`,
`registers_after_exec`). Between two programs of a session the global scope is therefore current and no function
is running, even if the first one failed far inside: `return` is refused there, and what is declared is declared
globally.
-/

namespace SafariScript

open Eval

/-- The current scope and the number of running functions. -/
def World.registers (w : World) : Nat × Nat := (w.scope, w.running)

section Effects

variable {code : List Stmt → Prop} {w w' : World}

theorem Effect.registers (h : Effect code w w') : w'.registers = w.registers := by
  obtain ⟨hscope, hrunning⟩ := h.registers_eq
  rw [World.registers, World.registers, hscope, hrunning]

end Effects

theorem World.registers_after_eval (w : World) (budget room : Nat) (e : Expr) :
    (w.after (eval budget room e)).registers = w.registers :=
  (w.effect_eval budget room e).registers

theorem World.registers_after_exec (w : World) (budget room : Nat) (s : Stmt) :
    (w.after (exec budget room s)).registers = w.registers :=
  (w.effect_exec budget room s).registers

/-! ## Between two programs -/

/-- The world is at rest: the global scope is there and current, and no function is running. -/
structure World.AtRest (w : World) : Prop where
  global : 0 < w.scopes.all.size
  scope : w.scope = Scopes.global
  running : w.running = 0

namespace World.AtRest

variable {w w' : World}

theorem initial (chance : Random.Source) (rates : CatchRates) (input : List String) :
    (World.initial chance rates input).AtRest :=
  ⟨Nat.one_pos, rfl, rfl⟩

theorem of_effect {code : List Stmt → Prop} (hw : w.AtRest) (h : Effect code w w') : w'.AtRest := by
  obtain ⟨hscope, hrunning⟩ := h.registers_eq
  exact ⟨Nat.lt_of_lt_of_le hw.global h.size_scopes_le, hscope.trans hw.scope, hrunning.trans hw.running⟩

/-- However the programs of a session end, the world is at rest after each of them. -/
theorem afterAll (hw : w.AtRest) (budget room : Nat) (programs : List (Bool × Program)) :
    (w.afterAll budget room programs).AtRest := by
  induction programs generalizing w with
  | nil => exact hw
  | cons first rest ih => exact ih (hw.of_effect (w.effect_interpretWithin budget room first.1 first.2))

/-- Outside all functions `return` is refused, and its value is not even looked at. -/
theorem interpret_ret (hw : w.AtRest) (budget room : Nat) (echo : Bool) (line : Int) (value : Option Expr)
    (rest : List Stmt) :
    interpretWithin budget (room + 6) echo ⟨.ret line value :: rest⟩ w =
      .error (.fault ⟨.returnOutsideFunction, some ⟨"return", line⟩⟩) w := by
  have hexec : exec budget (room + 6) (.ret line value) w =
      .error (.fault ⟨.returnOutsideFunction, some ⟨"return", line⟩⟩) w := by
    unfold exec
    simp only [bind_apply, get_apply, hw.running]
    rfl
  have htop : execTop budget (room + 6) echo (.ret line value) = exec budget (room + 6) (.ret line value) := by
    cases echo <;> rfl
  have hstatements : (Stmt.ret line value :: rest).forM (execTop budget (room + 6) echo) w =
      .error (.fault ⟨.returnOutsideFunction, some ⟨"return", line⟩⟩) w := by
    show (execTop budget (room + 6) echo (.ret line value) >>= fun _ =>
      rest.forM (execTop budget (room + 6) echo)) w = _
    rw [bind_apply, htop, hexec]
  simp only [interpretWithin, hstatements]

end World.AtRest

/-! ## Declarations -/

theorem Scopes.local?_insert_self {α : Type} {ss : Scopes α} {scope : Nat} (h : scope < ss.all.size)
    (name : String) (value : α) : (ss.insert scope name value).local? scope name = some value := by
  unfold Scopes.insert Scopes.modify Scopes.local?
  rw [Array.getElem?_modify, if_pos rfl, Array.getElem?_eq_getElem h]
  simp [Scope.insert, Scope.local?]

/-- A name that is declared in a world at rest is declared globally. -/
theorem World.AtRest.declare_ok {w w' : World} (hw : w.AtRest) {name : Word} {value : Value}
    (h : declare name value w = .ok () w') :
    w'.scopes.local? Scopes.global name.text = some value ∧ w'.functions = w.functions := by
  unfold declare at h
  rw [bind_of_ok (get_apply w)] at h
  obtain ⟨_, w₁, hvacant, hmodify⟩ := bind_eq_ok.1 h
  obtain ⟨-, hsame⟩ := ofFault_eq_ok hvacant
  rw [hsame] at hmodify
  cases hmodify
  refine ⟨?_, rfl⟩
  show (w.scopes.insert w.scope name.text value).local? Scopes.global name.text = some value
  rw [hw.scope]
  exact Scopes.local?_insert_self hw.global name.text value

/-- The value that a variable starts with. -/
def initially (budget room : Nat) : Option Expr → Eval Value
  | some e => eval budget room e
  | none => pure .null

theorem effect_initially (w : World) (budget room : Nat) (initial : Option Expr) :
    Effect (WellPlaced .anywhere) w (w.after (initially budget room initial)) := by
  cases initial with
  | some e => exact w.effect_eval budget room e
  | none => exact .refl w

/-- A variable that is declared outside all blocks and functions is global, with the value it starts with. -/
theorem World.AtRest.exec_var_ok {w w' : World} (hw : w.AtRest) {budget room : Nat} {name : Word}
    {initial : Option Expr} (h : exec budget (room + 6) (.var name initial) w = .ok () w') :
    ∃ v w₁, initially budget (room + 4) initial w = .ok v w₁ ∧
      w'.scopes.local? Scopes.global name.text = some v := by
  have hexec : exec budget (room + 6) (.var name initial) =
      initially budget (room + 4) initial >>= fun v => declare name v := by
    cases initial <;> rfl
  rw [hexec] at h
  obtain ⟨v, w₁, hinitial, hdeclare⟩ := bind_eq_ok.1 h
  have heffect := effect_initially w budget (room + 4) initial
  rw [World.after, hinitial] at heffect
  exact ⟨v, w₁, hinitial, ((hw.of_effect heffect).declare_ok hdeclare).1⟩

/-- A function that is defined outside all blocks and functions is global, and its scope is the global one. -/
theorem World.AtRest.exec_define_ok {w w' : World} (hw : w.AtRest) {budget room : Nat} {name : Word}
    {params : List Word} {body : List Stmt}
    (h : exec budget (room + 6) (.define name params body) w = .ok () w') :
    ∃ id, w'.scopes.local? Scopes.global name.text = some (.function id) ∧
      w'.function id = ⟨name.text, params, body, Scopes.global⟩ := by
  let w₁ : World := { w with functions := w.functions.push ⟨name.text, params, body, w.scope⟩ }
  have hw₁ : w₁.AtRest := ⟨hw.global, hw.scope, hw.running⟩
  have hdeclare : declare name (.function w.functions.size) w₁ = .ok () w' := h
  obtain ⟨hlocal, hfunctions⟩ := hw₁.declare_ok hdeclare
  refine ⟨w.functions.size, hlocal, ?_⟩
  rw [World.function, hfunctions]
  simp [w₁, hw.scope]

/-! ## The registers of a session -/

/-- After every expression and every statement, in every world and however they end, the current scope and the
number of running functions are what they were. After any programs of a session, however they end, the global
scope is current and no function is running; so `return` is refused there, and a variable or function that is
declared is declared globally. -/
theorem registers_restored (budget room : Nat) :
    (∀ (w : World) (e : Expr), (w.after (eval budget room e)).registers = w.registers) ∧
    (∀ (w : World) (s : Stmt), (w.after (exec budget room s)).registers = w.registers) ∧
    ∀ chance rates input programs,
      let w := (World.initial chance rates input).afterAll budget room programs
      w.registers = (Scopes.global, 0) ∧
      ∀ budget' room',
        (∀ echo line value rest, interpretWithin budget' (room' + 6) echo ⟨.ret line value :: rest⟩ w =
          .error (.fault ⟨.returnOutsideFunction, some ⟨"return", line⟩⟩) w) ∧
        (∀ name initial w', exec budget' (room' + 6) (.var name initial) w = .ok () w' →
          ∃ v w₁, initially budget' (room' + 4) initial w = .ok v w₁ ∧
            w'.scopes.local? Scopes.global name.text = some v) ∧
        (∀ name params body w', exec budget' (room' + 6) (.define name params body) w = .ok () w' →
          ∃ id, w'.scopes.local? Scopes.global name.text = some (.function id) ∧
            w'.function id = ⟨name.text, params, body, Scopes.global⟩) := by
  refine ⟨fun w e => w.registers_after_eval budget room e, fun w s => w.registers_after_exec budget room s, ?_⟩
  intro chance rates input programs w
  have hw : w.AtRest := (World.AtRest.initial chance rates input).afterAll budget room programs
  refine ⟨?_, fun budget' room' => ⟨?_, ?_, ?_⟩⟩
  · rw [World.registers, hw.scope, hw.running]
  · exact fun echo line value rest => hw.interpret_ret budget' room' echo line value rest
  · exact fun name initial w' h => hw.exec_var_ok h
  · exact fun name params body w' h => hw.exec_define_ok h

/-- How a step ends from a world: `none` if normally. -/
def World.ending {α : Type} (w : World) (step : Eval α) : Option Interrupt :=
  match step w with
  | .ok _ _ => none
  | .error e _ => some e

theorem World.eq_ok_after {w : World} {step : Eval Unit} (h : w.ending step = none) :
    step w = .ok () (w.after step) := by
  unfold World.ending at h
  unfold World.after
  split at h
  · next w' hok => rw [hok]
  · cases h

/-- A division by zero in a block in a loop in a function fails with both registers set; a variable that is
declared afterwards is global all the same. -/
theorem registers_restored_after_fault :
    let divide : Stmt := .print (.binary (.literal (.int 1)) (.int .divide) 3 (.ident ⟨"n", 3⟩))
    let body : List Stmt := [.loop (.literal (.bool true)) [.block [divide]]]
    let call : Stmt := .expr (.call (.ident ⟨"f", 5⟩) 5 [.literal (.int 0)] [])
    let program : Program := ⟨[.define ⟨"f", 1⟩ [⟨"n", 1⟩] body, call]⟩
    let start := World.initial (.ofScript []) .unknown []
    let w := start.afterAll 3 60 [(false, program)]
    let declaration : Stmt := .var ⟨"x", 6⟩ (some (.literal (.int 7)))
    start.ending (interpretWithin 3 60 false program) = some (.fault ⟨.divisionByZero, some ⟨"/", 3⟩⟩) ∧
      w.scopes.all.size = 4 ∧ w.registers = (Scopes.global, 0) ∧ w.ending (exec 3 60 declaration) = none ∧
      ∃ v, (w.after (exec 3 60 declaration)).scopes.local? Scopes.global "x" = some v := by
  intro divide body call program start w declaration
  obtain ⟨hregisters, hlater⟩ := (registers_restored 3 60).2.2 (.ofScript []) .unknown [] [(false, program)]
  have hdeclared : w.ending (exec 3 60 declaration) = none := by decide +kernel
  obtain ⟨v, -, -, hv⟩ := (hlater 3 54).2.1 ⟨"x", 6⟩ _ _ (World.eq_ok_after hdeclared)
  exact ⟨by decide +kernel, by decide +kernel, hregisters, hdeclared, v, hv⟩

end SafariScript
