import SafariScript.Proofs.Eval.Registers
import SafariScript.Proofs.Lockstep.Interpreter
import SafariScript.Proofs.Visibility

/-!
# Declarations stay where they are made

A scope gains a name only by a declaration that stands in it, and it never loses one. Scopes are shared: a
function runs in a new scope inside the one it was defined in, which may be any scope there is, and a loop or an
exploration declares its variable by itself. All of them make a scope first and declare in that
(`Retains.of_fresh`), so the scopes that were there before keep their names however the body ends.

`Confined` says this of a step, and it holds of the steps of the interpreter because they are in lockstep with
themselves (`Lockstep.confined`). The statements that declare a name are then looked at by themselves
(`declarations_stay`).
-/

namespace SafariScript

open Eval

/-! ## The names of a scope -/

/-- The names declared in a scope, the last one first. -/
def Scope.names {α : Type} (scope : Scope α) : List String :=
  scope.bindings.map Prod.fst

/-- The names declared in a scope, if there is such a scope. -/
def Scopes.names? {α : Type} (ss : Scopes α) (scope : Nat) : Option (List String) :=
  ss.all[scope]?.map Scope.names

theorem Scope.names_replace {α : Type} (scope : Scope α) (name : String) (value : α) :
    (scope.replace name value).names = scope.names := by
  unfold names replace
  rw [List.map_map]
  refine List.map_congr_left fun b _ => ?_
  show (if b.1 == name then (b.1, value) else b).1 = b.1
  split <;> rfl

namespace Scopes

variable {α : Type} {ss : Scopes α} {s i : Nat} {names : List String}

theorem names?_insert_self (h : ss.names? s = some names) (name : String) (value : α) :
    (ss.insert s name value).names? s = some (name :: names) := by
  unfold names? at h
  obtain ⟨scope, hscope, rfl⟩ := Option.map_eq_some_iff.1 h
  unfold names? insert modify
  rw [Array.getElem?_modify, if_pos rfl, hscope]
  rfl

theorem names?_insert_of_ne (h : i ≠ s) (name : String) (value : α) :
    (ss.insert s name value).names? i = ss.names? i := by
  unfold names? insert modify
  rw [Array.getElem?_modify, if_neg (Ne.symm h)]

theorem names?_replace (ss : Scopes α) (s : Nat) (name : String) (value : α) (i : Nat) :
    (ss.replace s name value).names? i = ss.names? i := by
  unfold names? replace modify
  rw [Array.getElem?_modify]
  split
  · rw [Option.map_map]
    exact congrArg (Option.map · ss.all[i]?) (funext fun scope => scope.names_replace name value)
  · rfl

theorem lt_size_of_names? (h : ss.names? i = some names) : i < ss.all.size := by
  unfold names? at h
  obtain ⟨scope, hscope, -⟩ := Option.map_eq_some_iff.1 h
  exact (Array.getElem?_eq_some_iff.1 hscope).1

/-- Making a scope leaves all others as they are. -/
theorem names?_enter (h : ss.names? i = some names) (parent : Nat) :
    (ss.enter parent).2.names? i = some names := by
  have hi := lt_size_of_names? h
  unfold names? enter at *
  rw [Array.getElem?_push_lt hi, ← Array.getElem?_eq_getElem hi]
  exact h

/-- A scope declares the names that it has. -/
theorem declares_of_mem_names? (h : ss.names? s = some names) {name : String} (hname : name ∈ names) :
    ss.Declares s name := by
  unfold names? at h
  obtain ⟨scope, hscope, rfl⟩ := Option.map_eq_some_iff.1 h
  obtain ⟨b, hb, rfl⟩ := List.mem_map.1 hname
  unfold Declares local? Scope.local?
  rw [hscope, Option.bind_some, List.lookup_isSome_iff]
  exact ⟨b, hb, beq_self_eq_true b.1⟩

end Scopes

/-! ## What a step leaves -/

/-- The scopes of the first world are there in the second one with the names they had, and with new names only
where these are expected. The current scope is the same. -/
structure World.Retains (expected : Nat → Prop) (w w' : World) : Prop where
  scope : w'.scope = w.scope
  names (i : Nat) (names : List String) (h : w.scopes.names? i = some names) :
    ∃ new, w'.scopes.names? i = some (new ++ names) ∧ (expected i ∨ new = [])

namespace World

theorem after_once (w : World) (p : Eval Unit) : w.after (once p) = w.after p := by
  unfold after once
  cases p w with
  | ok a w' => rfl
  | error e w' => cases e <;> rfl

theorem after_callResult (w : World) (place : Word) (p : Eval Unit) :
    w.after (callResult place p) = w.after p := by
  unfold after callResult
  cases p w with
  | ok a w' => rfl
  | error e w' => cases e <;> rfl

end World

namespace World.Retains

variable {expected : Nat → Prop} {w w' w₁ w₂ : World} {α β : Type}

/-- Nothing but values changed. -/
theorem of_names (hscope : w'.scope = w.scope) (hnames : ∀ i, w'.scopes.names? i = w.scopes.names? i) :
    w.Retains expected w' :=
  ⟨hscope, fun i _ h => ⟨[], (hnames i).trans h, Or.inr rfl⟩⟩

theorem refl (w : World) : w.Retains expected w :=
  of_names rfl fun _ => rfl

theorem trans (first : w.Retains expected w₁) (second : w₁.Retains expected w₂) : w.Retains expected w₂ := by
  refine ⟨second.scope.trans first.scope, fun i names h => ?_⟩
  obtain ⟨new₁, h₁, hexpected₁⟩ := first.names i names h
  obtain ⟨new₂, h₂, hexpected₂⟩ := second.names i _ h₁
  refine ⟨new₂ ++ new₁, by rw [h₂, List.append_assoc], ?_⟩
  rcases hexpected₁ with hi | rfl
  · exact Or.inl hi
  · rcases hexpected₂ with hi | rfl
    · exact Or.inl hi
    · exact Or.inr rfl

/-- New names in a scope that was not there yet are no new names of the scopes before. -/
theorem of_fresh (h : w.Retains (· = w.scopes.all.size) w') : w.Retains expected w' := by
  refine ⟨h.scope, fun i names hi => ?_⟩
  obtain ⟨new, hnew, hfresh | hnone⟩ := h.names i names hi
  · have hlt := Scopes.lt_size_of_names? hi
    omega
  · exact ⟨new, hnew, Or.inr hnone⟩

theorem bind {p : Eval α} {f : α → Eval β} (first : w.Retains expected (w.after p))
    (rest : ∀ a w', p w = .ok a w' → w'.Retains expected (w'.after (f a))) :
    w.Retains expected (w.after (p >>= f)) := by
  unfold World.after at first ⊢
  rw [bind_apply]
  cases hp : p w with
  | error e w' =>
      rw [hp] at first
      exact first
  | ok a w' =>
      rw [hp] at first
      exact first.trans (rest a w' hp)

theorem enter (parent : Nat) : w.Retains expected (w.after (Eval.enter parent)) :=
  ⟨rfl, fun _ _ h => ⟨[], Scopes.names?_enter h parent, Or.inr rfl⟩⟩

/-- The names of the world do not depend on which scope is current. -/
theorem inScope (scope : Nat) {p : Eval α}
    (h : World.Retains expected { w with scope } (World.after { w with scope } p)) :
    w.Retains expected (w.after (Eval.inScope scope p)) := by
  have hnames := h.names
  unfold World.after Eval.inScope at *
  cases hp : p { w with scope } with
  | ok a w' | error e w' =>
      simp only [hp] at hnames
      exact ⟨rfl, hnames⟩

theorem running (scope : Nat) {p : Eval Unit}
    (h : World.Retains expected { w with running := w.running + 1, scope }
      (World.after { w with running := w.running + 1, scope } p)) :
    w.Retains expected (w.after (Eval.running scope p)) := by
  have hbody : World.Retains expected { w with running := w.running + 1 }
      (World.after { w with running := w.running + 1 } (Eval.inScope scope p)) := inScope scope h
  unfold World.after at hbody
  unfold World.after Eval.running
  cases hp : Eval.inScope scope p { w with running := w.running + 1 } with
  | ok a w' | error e w' =>
      rw [hp] at hbody
      exact ⟨hbody.scope, hbody.names⟩

theorem mono {expected' : Nat → Prop} (h : w.Retains expected w') (hle : ∀ i, expected i → expected' i) :
    w.Retains expected' w' := by
  refine ⟨h.scope, fun i names hi => ?_⟩
  obtain ⟨new, hnew, hexpected⟩ := h.names i names hi
  exact ⟨new, hnew, hexpected.imp_left (hle i)⟩

end World.Retains

/-! ## Confined steps -/

/-- A step leaves every scope with the names it had, but for new names in the current one if `declares` is
set. -/
def Confined {α : Type} (declares : Bool) (p : Eval α) : Prop :=
  ∀ w : World, w.Retains (fun i => declares = true ∧ i = w.scope) (w.after p)

section Confined

variable {declares : Bool} {α β : Type}

theorem Confined.bind {p : Eval α} {f : α → Eval β} (first : Confined declares p)
    (rest : ∀ a, Confined declares (f a)) : Confined declares (p >>= f) := by
  intro w
  refine (first w).bind fun a w' hok => ?_
  -- the second step begins in the scope in which the first one did
  have hscope : w'.scope = w.scope := by
    have h := (first w).scope
    rwa [World.after, hok] at h
  have h := rest a w'
  rwa [hscope] at h

theorem confined_declare (name : Word) (value : Value) : Confined true (declare name value) := by
  intro w
  unfold World.after
  rw [declare_apply]
  rcases w.scopes.define_cases w.scope name value with ⟨-, hdefine⟩ | ⟨-, hdefine⟩
  · rw [hdefine]
    refine ⟨rfl, fun i names h => ?_⟩
    by_cases hi : i = w.scope
    · subst hi
      exact ⟨[name.text], Scopes.names?_insert_self h name.text value, Or.inl ⟨rfl, rfl⟩⟩
    · exact ⟨[], (Scopes.names?_insert_of_ne hi name.text value).trans h, Or.inr rfl⟩
  · rw [hdefine]
    exact .refl w

theorem confined_bindParams (params : List Word) (args : List Value) :
    Confined true (bindParams params args) := by
  fun_induction bindParams params args with
  | case1 param params arg args ih => exact (confined_declare param arg).bind fun _ => ih
  | case2 => exact fun w => .refl w

/-- What runs in a scope can add names only there. -/
theorem Confined.inScope {p : Eval α} (h : Confined true p) (scope : Nat) (w : World) :
    w.Retains (· = scope) (w.after (inScope scope p)) :=
  .inScope scope ((h { w with scope }).mono fun _ hi => hi.2)

theorem Confined.running {p : Eval Unit} (h : Confined true p) (scope : Nat) (w : World) :
    w.Retains (· = scope) (w.after (running scope p)) :=
  .running scope ((h { w with running := w.running + 1, scope }).mono fun _ hi => hi.2)

theorem Confined.inBlock {p : Eval Unit} (h : Confined true p) : Confined declares (inBlock p) := by
  intro w
  refine .of_fresh ?_
  have henter : w.Retains (· = w.scopes.all.size) (w.after enterHere) := .enter w.scope
  refine henter.bind fun scope w' hok => ?_
  cases hok
  exact h.inScope w.scopes.all.size _

theorem Confined.callFunction {f : List Stmt → Eval Unit} (h : ∀ ss, Confined true (f ss)) (id : Nat)
    (args : List Value) (place : Word) : Confined declares (callFunction f id args place) := by
  intro w
  refine .of_fresh (.bind (.refl w) fun _ w' hget => ?_)
  cases hget
  dsimp only
  split
  · exact .refl w
  · refine .bind (.enter _) fun scope w₁ henter => ?_
    cases henter
    refine .bind ((confined_bindParams _ args).inScope w.scopes.all.size _) fun _ w₂ _ => ?_
    rw [World.after_callResult]
    exact (h _).running w.scopes.all.size w₂

/-- Steps in lockstep are confined. -/
theorem Lockstep.confined {p q : Eval α} (h : Lockstep declares p q) : Confined declares p := by
  induction h with
  | starved q => exact fun w => .refl w
  | pure a => exact fun w => .refl w
  | throw e => exact fun w => .refl w
  | bind _ _ ih₁ ih₂ => exact ih₁.bind ih₂
  | look _ _ ih => exact fun w => ih w w
  | change _ scopes scope => exact fun w => .of_names (scope w) fun i => by rw [← scopes w]; rfl
  | write text => exact fun w => .of_names rfl fun _ => rfl
  | replace scope name value => exact fun w => .of_names rfl fun i => w.scopes.names?_replace scope name value i
  | declare name value => exact confined_declare name value
  | once _ ih =>
      intro w
      rw [World.after_once]
      exact ih w
  | inBlock _ ih => exact ih.inBlock
  | callFunction _ id args place ih => exact .callFunction ih id args place

end Confined

/-! ## Expressions, statements and programs -/

section Interpreter

variable {w : World} {budget room : Nat} {i : Nat} {names : List String}

/-- A confined step that declares nothing leaves all names as they are. -/
theorem Confined.names?_after {α : Type} {p : Eval α} (h : Confined false p)
    (hnames : w.scopes.names? i = some names) : (w.after p).scopes.names? i = some names := by
  obtain ⟨new, hnew, hi | rfl⟩ := (h w).names i names hnames
  · cases hi.1
  · exact hnew

/-- The value that a declaration gives to its name, if there is room for it; what remains is to declare it. -/
def declaredValue (budget room : Nat) : Stmt → Eval Value
  | .var _ initial => initially budget (room - 2) initial
  | .define name params body => newFunction name.text params body
  | _ => pure .null

theorem exec_declaration {s : Stmt} {name : Word} (hs : s.declared? = some name) (hroom : 6 ≤ room) :
    exec budget room s = declaredValue budget room s >>= fun v => declare name v := by
  obtain ⟨n, rfl⟩ : ∃ n, room = n + 6 := ⟨room - 6, by omega⟩
  cases s with
  | var name initial =>
      cases hs
      cases initial <;> rfl
  | define name params body =>
      cases hs
      rfl
  | _ => cases hs

theorem confined_declaredValue (s : Stmt) : Confined false (declaredValue budget room s) := by
  cases s with
  | var name initial =>
      cases initial with
      | some e => exact ((scales budget (Nat.le_refl (room - 2))).eval false e).confined
      | none => exact fun w => .refl w
  | define name params body => exact (steady_newFunction name.text params body).confined
  | _ => exact fun w => .refl w

/-- Declaring a value that was computed before: the current scope gets the name, which it does not have yet, if
the declaration goes through; no other scope gets any. -/
theorem names?_declare {first : Eval Value} (hfirst : Confined false first) (name : Word)
    (hnames : w.scopes.names? i = some names) :
    if i = w.scope ∧ w.ending (first >>= fun v => declare name v) = none then
      name.text ∉ names ∧
        (w.after (first >>= fun v => declare name v)).scopes.names? i = some (name.text :: names)
    else (w.after (first >>= fun v => declare name v)).scopes.names? i = some names := by
  have hkept := hfirst.names?_after hnames
  have hscope := (hfirst w).scope
  unfold World.ending World.after at *
  rw [bind_apply]
  cases hrun : first w with
  | error e w' =>
      rw [hrun] at hkept
      rw [if_neg (by simp)]
      exact hkept
  | ok v w' =>
      simp only [hrun] at hkept hscope ⊢
      rw [declare_apply]
      rcases w'.scopes.define_cases w'.scope name v with ⟨hvacant, hdefine⟩ | ⟨-, hdefine⟩
      · simp only [hdefine, World.written, and_true]
        by_cases hi : i = w.scope
        · subst hi
          rw [if_pos rfl]
          rw [hscope] at hvacant ⊢
          refine ⟨fun hname => hvacant (Scopes.declares_of_mem_names? hkept hname), ?_⟩
          exact Scopes.names?_insert_self hkept name.text v
        · rw [if_neg hi]
          rw [hscope]
          exact (Scopes.names?_insert_of_ne hi name.text v).trans hkept
      · simp only [hdefine, World.written]
        rw [if_neg (by simp)]
        exact hkept

theorem retains_interpretWithin (w : World) (budget room : Nat) (echo : Bool) (program : Program) :
    w.Retains (· = w.scope) (w.after (interpretWithin budget room echo program)) := by
  have h := (Lockstep.forM (steady_execTop budget room echo) program.statements).confined w
  unfold World.after at h
  unfold World.after interpretWithin
  cases hrun : program.statements.forM (execTop budget room echo) w with
  | ok a w' =>
      rw [hrun] at h
      exact h.mono fun _ hi => hi.2
  | error e w' =>
      rw [hrun] at h
      -- noting that the program was left changes no scope
      cases e <;> exact ⟨h.scope, (h.mono fun _ hi => hi.2).names⟩

/-- Over a whole session only the scope in which it runs gains names, and no scope loses one. -/
theorem retains_afterAll (w : World) (budget room : Nat) (programs : List (Bool × Program)) :
    w.Retains (· = w.scope) (w.afterAll budget room programs) := by
  induction programs generalizing w with
  | nil => exact .refl w
  | cons first rest ih =>
      have hfirst := retains_interpretWithin w budget room first.1 first.2
      have hrest := ih (w.after (interpretWithin budget room first.1 first.2))
      rw [hfirst.scope] at hrest
      exact hfirst.trans hrest

end Interpreter

/-- Take a scope and the names declared in it, in any world. However it ends, evaluating an expression or
executing a statement that is no declaration leaves the scope with just these names, whatever is called, looped
over or explored meanwhile. A declaration that goes through adds its own name, which was not among them, to the
current scope; it adds nothing to any other scope, and nothing at all if it fails. After any programs of a
session the scope has these names still, and new ones at most if the programs run in it. -/
theorem declarations_stay (budget room : Nat) (w : World) (i : Nat) (names : List String)
    (hnames : w.scopes.names? i = some names) :
    (∀ e, (w.after (eval budget room e)).scopes.names? i = some names) ∧
    (∀ s, s.declared? = none → (w.after (exec budget room s)).scopes.names? i = some names) ∧
    (∀ s name, s.declared? = some name →
      if i = w.scope ∧ w.ending (exec budget room s) = none then
        name.text ∉ names ∧ (w.after (exec budget room s)).scopes.names? i = some (name.text :: names)
      else (w.after (exec budget room s)).scopes.names? i = some names) ∧
    (∀ programs, ∃ new, (w.afterAll budget room programs).scopes.names? i = some (new ++ names) ∧
      (i = w.scope ∨ new = [])) := by
  have hself := scales budget (Nat.le_refl room)
  refine ⟨fun e => ?_, fun s hs => ?_, fun s name hs => ?_, fun programs => ?_⟩
  · exact (hself.eval false e).confined.names?_after hnames
  · exact (hself.exec false s (Or.inl hs)).confined.names?_after hnames
  · by_cases hroom : 6 ≤ room
    · rw [exec_declaration hs hroom]
      exact names?_declare (confined_declaredValue s) name hnames
    · -- without room for it the declaration fails at once
      rw [exec_of_lt (by omega), if_neg]
      · exact hnames
      · rintro ⟨-, hending⟩
        cases hending
  · exact (retains_afterAll w budget room programs).names i names hnames

/-- A loop calls a function that declares a variable and then divides by zero. A parameter, the variable of the
loop and two others have been declared in three new scopes when this fails; the global scope has its names as
before. A second variable is declared in it, but not a second time the first one. -/
theorem declarations_stay_failed_call :
    let body : List Stmt := [.var ⟨"y", 2⟩ (some (.ident ⟨"n", 2⟩)),
      .print (.binary (.literal (.int 1)) (.int .divide) 3 (.literal (.int 0)))]
    let program : Program := ⟨[.var ⟨"x", 1⟩ none, .define ⟨"f", 2⟩ [⟨"n", 2⟩] body]⟩
    let w := (World.initial (.ofScript []) .unknown []).afterAll 3 60 [(false, program)]
    let loop : Stmt := .forIn 4 ⟨"k", 4⟩ (.literal (.int 1)) (some (.literal (.int 2)))
      [.var ⟨"z", 5⟩ none, .expr (.call (.ident ⟨"f", 5⟩) 5 [.ident ⟨"k", 5⟩] [])]
    let again : Stmt := .var ⟨"x", 6⟩ none
    let other : Stmt := .var ⟨"y", 6⟩ none
    w.scopes.names? 0 = some ["f", "x"] ∧
      w.ending (exec 3 60 loop) = some (.fault ⟨.divisionByZero, some ⟨"/", 3⟩⟩) ∧
      (w.after (exec 3 60 loop)).scopes.names? 3 = some ["y", "n"] ∧
      (w.after (exec 3 60 loop)).scopes.names? 0 = some ["f", "x"] ∧
      (w.after (exec 3 60 again)).scopes.names? 0 = some ["f", "x"] ∧
      (w.after (exec 3 60 other)).scopes.names? 0 = some ["y", "f", "x"] := by
  intro body program w loop again other
  have hnames : w.scopes.names? 0 = some ["f", "x"] := by decide +kernel
  obtain ⟨-, hstatement, hdeclaration, -⟩ := declarations_stay 3 60 w 0 ["f", "x"] hnames
  have hagain := hdeclaration again ⟨"x", 6⟩ rfl
  rw [if_neg (by decide +kernel)] at hagain
  have hother := hdeclaration other ⟨"y", 6⟩ rfl
  rw [if_pos (by decide +kernel)] at hother
  exact ⟨hnames, by decide +kernel, by decide +kernel, hstatement loop rfl, hagain, hother.2⟩

end SafariScript
