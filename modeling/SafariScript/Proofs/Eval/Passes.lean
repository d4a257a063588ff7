import SafariScript.Proofs.Eval.Declarations
import SafariScript.Proofs.Eval.Echo

/-!
# The passes of a loop

A loop runs in a scope of its own, which declares its variable (`World.opened`), and so does every pass: whatever the
body does, that scope is current again afterwards and declares that variable alone (`AtLoop.after`).

`Laps` tells the passes of a loop by the worlds in which they begin. What the loop does by itself before a pass is a
relation between two worlds; the body is arbitrary, and may end in every way in which a statement can. A pass that
ends normally or by `continue` may be followed by another one, and every other one is the last (`once_cases`). So what
holds of a whole loop follows from its turns by induction on the passes.
-/

namespace SafariScript

open Eval

/-- After a pass that ends in this way there may be another one. -/
def goesOn : Option Interrupt → Bool
  | none | some .continueLoop => true
  | some _ => false

/-- How a loop ends, by how its last pass left it: the loop catches `break` and `run`. -/
def outside : Option Interrupt → Option Interrupt
  | some .breakLoop | some .run => none
  | ending => ending

/-- The passes of a loop from a world: the worlds in which they begin, what leaves the last one (`none` if it may be
followed by another one), and the world that they leave. Before each pass the loop takes a turn. -/
inductive Laps (turn : World → World → Prop) (body : Eval Unit) :
    World → List World → Option Interrupt → World → Prop
  | done (w : World) : Laps turn body w [] none w
  | pass {w start w' : World} {starts : List World} {ending : Option Interrupt} (begins : turn w start)
      (ends : goesOn (start.ending body) = true) (later : Laps turn body (start.after body) starts ending w') :
      Laps turn body w (start :: starts) ending w'
  | left {w start : World} {e : Interrupt} (begins : turn w start) (leaves : start.ending body = some e)
      (ends : goesOn (some e) = false) : Laps turn body w [start] (some e) (start.after body)

/-- The end of a step in one of the two ways. -/
def ended : Option Interrupt → World → EStateM.Result Interrupt World Unit
  | none, w => .ok () w
  | some e, w => .error e w

theorem after_of_ended {w w' : World} {p : Eval Unit} {ending : Option Interrupt} (h : p w = ended ending w') :
    w.after p = w' := by
  unfold World.after
  rw [h]
  cases ending <;> rfl

theorem onWorld_ended (change : World → World) (ending : Option Interrupt) (w : World) :
    onWorld change (ended ending w) = ended ending (change w) := by
  cases ending <;> rfl

theorem lookup_of_get? {name : Word} {value : Value} {w : World} (h : w.scopes.get? w.scope name.text = some value) :
    lookup name w = .ok value w := by
  unfold lookup
  rw [bind_of_ok (get_apply w), Scopes.get, h]
  rfl

/-! ## One pass -/

/-- A pass goes on, or is left by `break` or `run`, which the loop catches, or by something that it does not catch. -/
theorem once_cases (body : Eval Unit) (w : World) :
    (goesOn (w.ending body) = true ∧ once body w = .ok none (w.after body)) ∨
    (w.ending body = some .breakLoop ∧ once body w = .ok (some .over) (w.after body)) ∨
    (w.ending body = some .run ∧ once body w = .ok (some .left) (w.after body)) ∨
    ∃ e, w.ending body = some e ∧ goesOn (some e) = false ∧ outside (some e) = some e ∧
      once body w = .error e (w.after body) := by
  unfold once World.ending World.after
  cases body w with
  | ok a w' => exact Or.inl ⟨rfl, rfl⟩
  | error e w' =>
      cases e with
      | continueLoop => exact Or.inl ⟨rfl, rfl⟩
      | breakLoop => exact Or.inr (Or.inl ⟨rfl, rfl⟩)
      | run => exact Or.inr (Or.inr (Or.inl ⟨rfl, rfl⟩))
      | _ => exact Or.inr (Or.inr (Or.inr ⟨_, rfl, rfl, rfl, rfl⟩))

theorem pass_of_once {body : Eval Unit} {w w' : World} {outcome : Option Outcome}
    (h : once body w = .ok outcome w') : pass body w = .ok outcome.isNone w' := by
  unfold Eval.pass
  rw [bind_of_ok h]
  rfl

/-- In a loop that treats `break` and `run` alike, a pass goes on, or ends the loop together with all that follows. -/
theorem pass_cases (body : Eval Unit) (w : World) :
    (goesOn (w.ending body) = true ∧ pass body w = .ok true (w.after body)) ∨
    ∃ e, w.ending body = some e ∧ goesOn (some e) = false ∧ ∀ rest : Eval Unit,
      (do if ← pass body then rest : Eval Unit) w = ended (outside (some e)) (w.after body) := by
  rcases once_cases body w with ⟨hgoes, honce⟩ | ⟨hleft, honce⟩ | ⟨hleft, honce⟩ | ⟨e, hleft, hgoes, hout, honce⟩
  · exact Or.inl ⟨hgoes, pass_of_once honce⟩
  · refine Or.inr ⟨_, hleft, rfl, fun rest => ?_⟩
    rw [bind_of_ok (pass_of_once honce)]
    rfl
  · refine Or.inr ⟨_, hleft, rfl, fun rest => ?_⟩
    rw [bind_of_ok (pass_of_once honce)]
    rfl
  · refine Or.inr ⟨e, hleft, hgoes, fun rest => ?_⟩
    have hpass : pass body w = .error e (w.after body) := bind_eq_error.2 (Or.inl honce)
    rw [hout]
    exact bind_eq_error.2 (Or.inl hpass)

/-! ## All passes -/

namespace Laps

variable {turn : World → World → Prop} {body : Eval Unit} {w w' : World} {starts : List World}
  {ending : Option Interrupt}

/-- No pass left the loop exactly if all of them went on. -/
theorem ending_eq_none_iff (h : Laps turn body w starts ending w') :
    ending = none ↔ ∀ start ∈ starts, goesOn (start.ending body) = true := by
  induction h with
  | done w => simp
  | pass begins ends later ih => simp [ends, ih]
  | left begins leaves ends => simp [leaves, ends]

/-- What leaves the loop is what left one of its passes. -/
theorem exists_of_ending_eq_some (h : Laps turn body w starts ending w') {e : Interrupt} (he : ending = some e) :
    ∃ start ∈ starts, start.ending body = some e := by
  induction h with
  | done w => cases he
  | pass begins ends later ih =>
      obtain ⟨start, hstart, hleft⟩ := ih he
      exact ⟨start, List.mem_cons_of_mem _ hstart, hleft⟩
  | left begins leaves ends => exact ⟨_, List.mem_cons_self, he ▸ leaves⟩

/-- What neither a turn nor a pass changes is in the end what it was. -/
theorem eq_of_unchanged {γ : Type} (f : World → γ) (h : Laps turn body w starts ending w')
    (hturn : ∀ w start, turn w start → f start = f w)
    (hbody : ∀ start ∈ starts, f (start.after body) = f start) : f w' = f w := by
  induction h with
  | done w => rfl
  | pass begins ends later ih =>
      obtain ⟨hfirst, hlater⟩ := List.forall_mem_cons.1 hbody
      rw [ih hlater, hfirst, hturn _ _ begins]
  | left begins leaves ends =>
      rw [hbody _ List.mem_cons_self, hturn _ _ begins]

/-- If a turn takes one from a positive number, and no pass adds to it, there are not more passes than that number. -/
theorem length_le (f : World → Int) (h : Laps turn body w starts ending w')
    (hturn : ∀ w start, turn w start → 0 < f w ∧ f start = f w - 1)
    (hbody : ∀ start ∈ starts, f (start.after body) ≤ f start) : (starts.length : Int) ≤ max (f w) 0 := by
  induction h with
  | done w => exact Int.le_max_right _ _
  | pass begins ends later ih =>
      obtain ⟨hfirst, hlater⟩ := List.forall_mem_cons.1 hbody
      obtain ⟨hpositive, htaken⟩ := hturn _ _ begins
      have hrest := ih hlater
      rw [List.length_cons]
      omega
  | left begins leaves ends =>
      obtain ⟨hpositive, -⟩ := hturn _ _ begins
      rw [List.length_singleton]
      omega

end Laps

/-! ## The scope of a loop -/

/-- The world in which a loop begins: a new scope inside the current one declares the variable of the loop. -/
def World.opened (w : World) (name : String) : World :=
  { w with scopes := ⟨w.scopes.all.push ⟨[(name, .null)], some w.scope⟩⟩, scope := w.scopes.all.size }

/-- The scope of a loop is current and declares the variable of the loop alone. -/
structure World.AtLoop (own : Nat) (name : String) (w : World) : Prop where
  scope : w.scope = own
  names : w.scopes.names? own = some [name]

theorem Scopes.insert_enter {α : Type} (ss : Scopes α) (parent : Nat) (name : String) (value : α) :
    (ss.enter parent).2.insert ss.all.size name value = ⟨ss.all.push ⟨[(name, value)], some parent⟩⟩ := by
  refine congrArg Scopes.mk (Array.ext_getElem? fun i => ?_)
  show ((ss.all.push ⟨[], some parent⟩).modify ss.all.size (·.insert name value))[i]? = _
  rw [Array.getElem?_modify, Array.getElem?_push, Array.getElem?_push]
  by_cases h : i = ss.all.size
  · subst h
    simp [Scope.insert]
  · rw [if_neg (Ne.symm h), if_neg h, if_neg h]

/-- A loop runs in the scope that it opens; afterwards the scope around it is current again. -/
theorem inOwnScope_apply (name : Word) (p : Eval Unit) (w : World) :
    (do let scope ← enterHere; inScope scope (do declare name .null; p) : Eval Unit) w =
      onWorld (fun w' => { w' with scope := w.scope }) (p (w.opened name.text)) := by
  have henter : enterHere w = .ok w.scopes.all.size { w with scopes := (w.scopes.enter w.scope).2 } := rfl
  have hdeclare : declare name .null { w with scopes := (w.scopes.enter w.scope).2, scope := w.scopes.all.size } =
      .ok () (w.opened name.text) := by
    -- nothing is declared yet in a scope that was just made
    have hvacant : ¬ (w.scopes.enter w.scope).2.Declares w.scopes.all.size name.text := by
      unfold Scopes.Declares Scopes.local? Scopes.enter
      rw [Array.getElem?_push_size]
      exact Bool.false_ne_true
    rw [declare_apply]
    rcases Scopes.define_cases (w.scopes.enter w.scope).2 w.scopes.all.size name .null with
      ⟨-, hdefine⟩ | ⟨hdeclares, -⟩
    · rw [hdefine]
      show EStateM.Result.ok () _ = _
      rw [Scopes.insert_enter]
      rfl
    · exact absurd hdeclares hvacant
  rw [bind_of_ok henter]
  unfold inScope
  rw [bind_of_ok hdeclare]
  cases p (w.opened name.text) <;> rfl

theorem World.atLoop_opened (w : World) (name : String) : (w.opened name).AtLoop w.scopes.all.size name := by
  refine ⟨rfl, ?_⟩
  show (w.scopes.all.push ⟨[(name, .null)], some w.scope⟩)[w.scopes.all.size]?.map Scope.names = some [name]
  rw [Array.getElem?_push_size]
  rfl

/-- The other scopes are not touched when a loop begins. -/
theorem World.local?_opened (w : World) (name : String) {scope : Nat} (h : scope ≠ w.scopes.all.size)
    (other : String) : (w.opened name).scopes.local? scope other = w.scopes.local? scope other := by
  show (w.scopes.all.push ⟨[(name, .null)], some w.scope⟩)[scope]?.bind _ = _
  rw [Array.getElem?_push, if_neg h]
  rfl

namespace World.AtLoop

variable {own : Nat} {name : String} {w : World}

/-- However a pass ends, it leaves the loop where it was. -/
theorem after (hw : w.AtLoop own name) {body : Eval Unit} (hbody : Confined false body) :
    (w.after body).AtLoop own name :=
  ⟨(hbody w).scope.trans hw.scope, hbody.names?_after hw.names⟩

theorem declares (hw : w.AtLoop own name) : w.scopes.Declares own name :=
  Scopes.declares_of_mem_names? hw.names List.mem_cons_self

/-- The variable of the loop is found in the scope of the loop, so that assigning to it cannot fail. -/
theorem assign_eq {x : Word} (hw : w.AtLoop own x.text) (value : Value) :
    assign x value w = .ok () { w with scopes := w.scopes.replace own x.text value } := by
  have hresolve : w.scopes.resolve? own x.text = some own :=
    Scopes.resolve?_eq_some_iff.2 (Scopes.innermost_here hw.declares)
  have hassign : w.scopes.assign w.scope x value = .ok (w.scopes.replace own x.text value) := by
    rw [hw.scope, Scopes.assign, Scopes.owner, hresolve]
    rfl
  rw [assign_apply, hassign]
  rfl

theorem of_scopes (hw : w.AtLoop own name) {w' : World} {value : Value} (hscope : w'.scope = w.scope)
    (hscopes : w'.scopes = w.scopes.replace own name value) :
    w'.AtLoop own name ∧ w'.scopes.local? own name = some value := by
  obtain ⟨old, hold⟩ := Option.isSome_iff_exists.1 hw.declares
  refine ⟨⟨hscope.trans hw.scope, ?_⟩, ?_⟩
  · rw [hscopes, Scopes.names?_replace]
    exact hw.names
  · rw [hscopes, Scopes.local?_replace, if_pos ⟨rfl, rfl⟩, hold]
    rfl

end World.AtLoop

/-- A block in a loop declares nothing in the scope of the loop. -/
theorem confined_block (budget room : Nat) (body : List Stmt) :
    Confined false (inBlock (body.forM (exec budget room))) :=
  ((scales budget (Nat.le_refl room)).block body).confined

end SafariScript
