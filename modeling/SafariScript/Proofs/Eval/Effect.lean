import SafariScript.Eval.Basic
import SafariScript.Proofs.Placement
import SafariScript.Proofs.Step

/-!
# What evaluation does to the world

All that a step of evaluation changes, it changes by elementary updates, one after the other. `Update` lists
them with the conditions under which they are made. `Effect` is a sequence of updates in which the two
registers may be set for a while, but have their old values again afterwards: this is how blocks and calls run
in scopes of their own. Every invariant of the interpreter is proved of the updates and follows for whole runs
by induction on the effect.

`Safe` is the contract of a step: from a sane world its effect is such a sequence, however it ends, and it is
interrupted only in ways that are allowed where it stands (`Leaves`).
-/

namespace SafariScript

/-- An elementary change of the balls and turns of a zone. -/
inductive Zone.Change (z : Zone) : Zone → Prop
  | setBalls (n : Int) (natural : 0 ≤ n) : Zone.Change z { z with balls := n }
  | setTurns (n : Int) (natural : 0 ≤ n) : Zone.Change z { z with turns := n }
  | spendBall (left : 0 < z.balls) : Zone.Change z { z with balls := z.balls - 1 }
  | spendTurn (left : 0 < z.turns) : Zone.Change z { z with turns := z.turns - 1 }
  | reset : Zone.Change z z.reset

/-- A list of Pokemon that an owner can have in place of its own: one that is not longer, or one that there is
room for. -/
def World.Fits (w : World) (owner : Owner) (names : List String) : Prop :=
  names.length ≤ (w.pokemon owner).length ∨ ∀ capacity ∈ w.capacity? owner, (names.length : Int) ≤ capacity

/-- An elementary change of the world; `code` holds of the body of every function that is made. -/
inductive Update (code : List Stmt → Prop) (w : World) : World → Prop
  | write (text : String) : Update code w (w.write text)
  | note (event : Event) : Update code w (w.note event)
  | draw (chance : Random.Source) : Update code w { w with chance }
  | read (input : List String) : Update code w { w with input }
  | newArray (elements : Array Value) : Update code w { w with arrays := w.arrays.push elements }
  | setArray (id : Nat) (change : Array Value → Array Value) : Update code w (w.modifyArray id change)
  -- variables
  | enter (parent : Nat) (known : parent = w.scope ∨ ∃ id, parent = (w.function id).scope) :
      Update code w { w with scopes := (w.scopes.enter parent).2 }
  | declare (name : String) (value : Value) (vacant : (w.scopes.local? w.scope name).isSome = false) :
      Update code w { w with scopes := w.scopes.insert w.scope name value }
  | assign (scope : Nat) (name : String) (value : Value) :
      Update code w { w with scopes := w.scopes.replace scope name value }
  -- functions and objects
  | newFunction (name : String) (params : List Word) (body : List Stmt) (known : code body) :
      Update code w { w with functions := w.functions.push ⟨name, params, body, w.scope⟩ }
  | newZone (balls turns : Int) (balls_natural : 0 ≤ balls) (turns_natural : 0 ≤ turns) :
      Update code w { w with zones := w.zones.push (.create balls turns) }
  | newTeam (trainerName : String) (maxSize : Int) (room : 1 ≤ maxSize) :
      Update code w { w with teams := w.teams.push (.create trainerName maxSize) }
  | changeZone (id : Nat) (change : Zone → Zone) (allowed : (w.zone id).Change (change (w.zone id))) :
      Update code w (w.modifyZone id change)
  | changePokemon (owner : Owner) (change : List String → List String)
      (fits : w.Fits owner (change (w.pokemon owner))) :
      Update code w (w.modifyPokemon owner change)
  | setRate (rate : Int) (percent : 0 ≤ rate ∧ rate ≤ 100) :
      Update code w { w with rates := w.rates.setOverall rate }
  | setSpeciesRate (name : String) (rate : Int) (percent : 0 ≤ rate ∧ rate ≤ 100) :
      Update code w { w with rates := w.rates.setSpecies name rate }

/-- Updates one after the other, in which a register may be set for a while; a scope that is current has been
made before. -/
inductive Effect (code : List Stmt → Prop) : World → World → Prop
  | refl (w : World) : Effect code w w
  | update {w w' : World} (update : Update code w w') : Effect code w w'
  | trans {w₁ w₂ w₃ : World} (first : Effect code w₁ w₂) (second : Effect code w₂ w₃) : Effect code w₁ w₃
  | inScope {w w' : World} (scope : Nat) (known : scope < w.scopes.all.size)
      (inner : Effect code { w with scope } w') : Effect code w { w' with scope := w.scope }
  | running {w w' : World} (inner : Effect code { w with running := w.running + 1 } w') :
      Effect code w { w' with running := w'.running - 1 }

/-- What is known of the world whenever a step begins: the bodies of all functions. -/
structure Sane (code : List Stmt → Prop) (w : World) : Prop where
  code : ∀ closure ∈ w.functions, code closure.body

namespace World

@[simp] theorem modifyPokemon_scope (w : World) (owner : Owner) (change : List String → List String) :
    (w.modifyPokemon owner change).scope = w.scope := by
  cases owner <;> rfl

@[simp] theorem modifyPokemon_running (w : World) (owner : Owner) (change : List String → List String) :
    (w.modifyPokemon owner change).running = w.running := by
  cases owner <;> rfl

@[simp] theorem modifyPokemon_functions (w : World) (owner : Owner) (change : List String → List String) :
    (w.modifyPokemon owner change).functions = w.functions := by
  cases owner <;> rfl

@[simp] theorem modifyPokemon_rates (w : World) (owner : Owner) (change : List String → List String) :
    (w.modifyPokemon owner change).rates = w.rates := by
  cases owner <;> rfl

end World

namespace Scopes

variable {α : Type}

theorem size_enter (ss : Scopes α) (parent : Nat) : (ss.enter parent).2.all.size = ss.all.size + 1 :=
  Array.size_push _

theorem size_modify (ss : Scopes α) (scope : Nat) (change : Scope α → Scope α) :
    (ss.modify scope change).all.size = ss.all.size :=
  Array.size_modify

end Scopes

section Effects

variable {code : List Stmt → Prop} {w w' : World}

theorem Update.scope_eq (h : Update code w w') : w'.scope = w.scope := by
  cases h with
  | changePokemon owner change fits => exact w.modifyPokemon_scope owner change
  | _ => rfl

theorem Update.running_eq (h : Update code w w') : w'.running = w.running := by
  cases h with
  | changePokemon owner change fits => exact w.modifyPokemon_running owner change
  | _ => rfl

theorem Update.sane (h : Update code w w') (hw : Sane code w) : Sane code w' := by
  cases h with
  | newFunction name params body known =>
      -- the only update that adds code
      refine ⟨fun closure hclosure => ?_⟩
      rcases Array.mem_push.1 hclosure with hclosure | rfl
      · exact hw.code closure hclosure
      · exact known
  | changePokemon owner change fits => exact ⟨by simpa using hw.code⟩
  | _ => exact ⟨hw.code⟩

/-- An overall rate that is known stays known. -/
theorem Update.known (h : Update code w w') (hw : w.rates.overall.isSome = true) :
    w'.rates.overall.isSome = true := by
  cases h with
  | setRate rate percent => rfl
  | changePokemon owner change fits => simpa using hw
  | _ => exact hw

/-- Both registers have their old values after every effect. -/
theorem Effect.registers_eq (h : Effect code w w') : w'.scope = w.scope ∧ w'.running = w.running := by
  induction h with
  | refl => exact ⟨rfl, rfl⟩
  | update update => exact ⟨update.scope_eq, update.running_eq⟩
  | trans _ _ ih₁ ih₂ => exact ⟨ih₂.1.trans ih₁.1, ih₂.2.trans ih₁.2⟩
  | inScope _ _ _ ih => exact ⟨rfl, ih.2⟩
  | running _ ih =>
      -- what a call has counted up is counted down again
      refine ⟨ih.1, ?_⟩
      show _ - 1 = _
      rw [ih.2]
      exact Nat.add_sub_cancel _ 1

theorem Effect.sane (h : Effect code w w') (hw : Sane code w) : Sane code w' := by
  induction h with
  | refl => exact hw
  | update update => exact update.sane hw
  | trans _ _ ih₁ ih₂ => exact ih₂ (ih₁ hw)
  -- neither register is looked at
  | inScope _ _ _ ih => exact ⟨(ih ⟨hw.code⟩).code⟩
  | running _ ih => exact ⟨(ih ⟨hw.code⟩).code⟩

theorem Effect.known (h : Effect code w w') (hw : w.rates.overall.isSome = true) :
    w'.rates.overall.isSome = true := by
  induction h with
  | refl => exact hw
  | update update => exact update.known hw
  | trans _ _ ih₁ ih₂ => exact ih₂ (ih₁ hw)
  | inScope _ _ _ ih => exact ih hw
  | running _ ih => exact ih hw

/-- Scopes are never dropped. -/
theorem Update.size_scopes_le (h : Update code w w') : w.scopes.all.size ≤ w'.scopes.all.size := by
  cases h with
  | enter parent known =>
      rw [Scopes.size_enter]
      exact Nat.le_succ _
  | declare name value vacant => exact Nat.le_of_eq (Scopes.size_modify ..).symm
  | assign scope name value => exact Nat.le_of_eq (Scopes.size_modify ..).symm
  | changePokemon owner change fits => cases owner <;> exact Nat.le_refl _
  | _ => exact Nat.le_refl _

theorem Effect.size_scopes_le (h : Effect code w w') : w.scopes.all.size ≤ w'.scopes.all.size := by
  induction h with
  | refl => exact Nat.le_refl _
  | update update => exact update.size_scopes_le
  | trans _ _ ih₁ ih₂ => exact Nat.le_trans ih₁ ih₂
  | inScope _ _ _ ih => exact ih
  | running _ ih => exact ih

theorem Sane.code_function (hw : Sane code w) (hnil : code []) (id : Nat) : code (w.function id).body := by
  unfold World.function
  rw [Array.getD_eq_getD_getElem?]
  cases hclosure : w.functions[id]? with
  | none => exact hnil
  | some closure => exact hw.code closure (Array.mem_of_getElem? hclosure)

end Effects

/-! ## Interruptions -/

/-- More may leave a loop from the second placement than from the first. -/
instance : LE Placement where
  le p q := p.inLoop = true → q.inLoop = true

namespace Placement

theorem le_refl (p : Placement) : p ≤ p := fun h => h

theorem le_anywhere (p : Placement) : p ≤ anywhere := fun _ => rfl

end Placement

/-- The ways in which a step may be interrupted where it stands: by `break` and `continue` if they may stand
there, by `return` if a function is running, and for want of a chance only if no overall rate is known. Since
`run` ends a function and a program as well as a loop, it may come from everywhere. -/
def Leaves (here : Placement) (w : World) : Interrupt → Prop
  | .breakLoop | .continueLoop => here.inLoop = true
  | .ret _ => w.running ≠ 0
  | .unknownChance => w.rates.overall.isSome = false
  | .run | .fault _ | .overflow | .longInteger | .endless => True

theorem Leaves.mono {here there : Placement} {w : World} {e : Interrupt} (h : Leaves here w e)
    (hle : here ≤ there) : Leaves there w e := by
  cases e with
  | breakLoop | continueLoop => exact hle h
  | ret value => exact h
  | unknownChance => exact h
  | _ => trivial

/-- What may interrupt a step may interrupt one that began earlier, with as many functions running. -/
theorem Leaves.of_running_eq {here : Placement} {w w' : World} {e : Interrupt} (h : Leaves here w' e)
    (hrunning : w'.running = w.running)
    (hknown : w.rates.overall.isSome = true → w'.rates.overall.isSome = true) : Leaves here w e := by
  cases e with
  | ret value =>
      show w.running ≠ 0
      rw [← hrunning]
      exact h
  | unknownChance =>
      have hunknown : w'.rates.overall.isSome = false := h
      show w.rates.overall.isSome = false
      rw [← Bool.not_eq_true] at hunknown ⊢
      exact fun hrate => hunknown (hknown hrate)
  | _ => exact h

/-! ## The contract of a step -/

section Contract

variable {code : List Stmt → Prop} {here there : Placement} {w : World} {α β : Type}

/-- The effect of a step from a world, and the interruption it ends with, are allowed. -/
def Settles (code : List Stmt → Prop) (here : Placement) (w : World) (step : Eval α) : Prop :=
  match step w with
  | .ok _ w' => Effect code w w'
  | .error e w' => Effect code w w' ∧ Leaves here w e

/-- The world that a step leaves, however it ends. -/
def World.after (w : World) (step : Eval α) : World :=
  match step w with
  | .ok _ w' => w'
  | .error _ w' => w'

theorem Settles.effect_after {step : Eval α} (h : Settles code here w step) :
    Effect code w (w.after step) := by
  unfold Settles at h
  unfold World.after
  cases hresult : step w with
  | ok a w' => simpa only [hresult] using h
  | error e w' =>
      simp only [hresult] at h ⊢
      exact h.1

/-- A step whose effect and interruption are allowed from every sane world. -/
def Safe (code : List Stmt → Prop) (here : Placement) (step : Eval α) : Prop :=
  ∀ w, Sane code w → Settles code here w step

theorem Safe.mono {step : Eval α} (h : Safe code here step) (hle : here ≤ there) :
    Safe code there step := by
  intro w hw
  have hstep := h w hw
  unfold Settles at hstep ⊢
  cases hresult : step w with
  | ok a w' => simpa only [hresult] using hstep
  | error e w' =>
      simp only [hresult] at hstep ⊢
      exact ⟨hstep.1, hstep.2.mono hle⟩

/-- A step and then one that depends on its result. -/
theorem Settles.bind {p : Eval α} {f : α → Eval β} (hw : Sane code w) (hp : Settles code here w p)
    (hf : ∀ a w', p w = .ok a w' → Sane code w' → Settles code here w' (f a)) :
    Settles code here w (p >>= f) := by
  unfold Settles at hp ⊢
  rw [bind_apply]
  cases hps : p w with
  | error e w' => simpa only [hps] using hp
  | ok a w' =>
      simp only [hps] at hp ⊢
      have hrest := hf a w' hps (hp.sane hw)
      unfold Settles at hrest
      cases hfs : f a w' with
      | ok b w'' =>
          simp only [hfs] at hrest ⊢
          exact hp.trans hrest
      | error e w'' =>
          simp only [hfs] at hrest ⊢
          -- the second step began with as many functions running as the first
          exact ⟨hp.trans hrest.1, hrest.2.of_running_eq hp.registers_eq.2 hp.known⟩

theorem Safe.bind {p : Eval α} {f : α → Eval β} (hp : Safe code here p) (hf : ∀ a, Safe code here (f a)) :
    Safe code here (p >>= f) := by
  intro w hw
  exact (hp w hw).bind hw fun a w' _ hw' => hf a w' hw'

theorem Safe.map {p : Eval α} (f : α → β) (hp : Safe code here p) : Safe code here (f <$> p) := by
  intro w hw
  have h := hp w hw
  unfold Settles at h ⊢
  rw [map_apply]
  cases hps : p w <;> simpa only [hps] using h

theorem safe_pure (a : α) : Safe code here (pure a : Eval α) :=
  fun w _ => Effect.refl w

theorem safe_throw {e : Interrupt} (h : ∀ w, Leaves here w e) : Safe code here (throw e : Eval α) :=
  fun w _ => ⟨.refl w, h w⟩

/-- Look at the world, which does not change it. -/
theorem Safe.get_bind {f : World → Eval β} (hf : ∀ w, Sane code w → Settles code here w (f w)) :
    Safe code here (get >>= f) := by
  intro w hw
  unfold Settles
  rw [bind_apply, get_apply]
  exact hf w hw

theorem settles_modify {f : World → World} (h : Update code w (f w)) :
    Settles code here w (modify f : Eval Unit) :=
  Effect.update h

theorem safe_modify {f : World → World} (h : ∀ w, Update code w (f w)) :
    Safe code here (modify f : Eval Unit) :=
  fun w _ => settles_modify (h w)

theorem safe_modifyGet {f : World → α × World} (h : ∀ w, Effect code w (f w).2) :
    Safe code here (modifyGet f : Eval α) :=
  fun w _ => h w

theorem Safe.mapM {f : α → Eval β} (hf : ∀ a, Safe code here (f a)) (as : List α) :
    Safe code here (as.mapM f) := by
  induction as with
  | nil => exact safe_pure []
  | cons a as ih =>
      rw [List.mapM_cons]
      exact (hf a).bind fun b => ih.bind fun bs => safe_pure (b :: bs)

theorem Safe.mapOption {f : α → Eval β} (hf : ∀ a, Safe code here (f a)) (a : Option α) :
    Safe code here (a.mapM f) := by
  cases a with
  | none => exact safe_pure none
  | some a => exact Safe.map some (hf a)

theorem Safe.forM {f : α → Eval Unit} {as : List α} (hf : ∀ a ∈ as, Safe code here (f a)) :
    Safe code here (as.forM f) := by
  induction as with
  | nil => exact safe_pure ()
  | cons a as ih =>
      show Safe code here (f a >>= fun _ => as.forM f)
      exact (hf a List.mem_cons_self).bind fun _ => ih fun b hb => hf b (List.mem_cons_of_mem a hb)

end Contract
end SafariScript
