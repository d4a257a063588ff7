import SafariScript.Eval.Interpreter
import SafariScript.Proofs.Step

/-!
# Steps in lockstep

`Lockstep declares p q` says of two steps of evaluation that they are made of the same elementary steps in the
same order, except that the first may find the stack without room where the second goes on. Its constructors
list what there is: looking at the world, but never at what was written so far; changing something besides the
variables; writing a text; giving variables other values; declaring names in the current scope, which only
happens where `declares` is set; and running bodies in scopes of their own.

The operations that evaluation calls besides itself are in lockstep with themselves. Those that go down into
nested arrays are so with themselves on a larger stack.
-/

namespace SafariScript

open Eval

/-- The world with another text written so far. -/
def World.wrote (w : World) (output : String) : World :=
  { w with output }

/-- The first step and the second are made of the same elementary steps; only that the first may run out of
room. Names are declared in the current scope only if `declares` is set. -/
inductive Lockstep : Bool → {α : Type} → Eval α → Eval α → Prop
  | starved {declares : Bool} {α : Type} (q : Eval α) : Lockstep declares (throw .overflow) q
  | pure {declares : Bool} {α : Type} (a : α) : Lockstep declares (Pure.pure a : Eval α) (Pure.pure a)
  | throw {declares : Bool} {α : Type} (e : Interrupt) :
      Lockstep declares (MonadExcept.throw e : Eval α) (MonadExcept.throw e)
  | bind {declares : Bool} {α β : Type} {p q : Eval α} {f g : α → Eval β} (first : Lockstep declares p q)
      (rest : ∀ a, Lockstep declares (f a) (g a)) : Lockstep declares (p >>= f) (q >>= g)
  /-- Go on by what the world is like, apart from what was written. -/
  | look {declares : Bool} {α : Type} {f g : World → Eval α}
      (blind : ∀ w output, g (w.wrote output) = g w) (rest : ∀ w, Lockstep declares (f w) (g w)) :
      Lockstep declares (get >>= f) (get >>= g)
  /-- Change the world, but neither the variables nor what was written. -/
  | change {declares : Bool} {α : Type} {f : World → α × World}
      (blind : ∀ w output, f (w.wrote output) = ((f w).1, (f w).2.wrote output))
      (scopes : ∀ w, (f w).2.scopes = w.scopes) (scope : ∀ w, (f w).2.scope = w.scope) :
      Lockstep declares (modifyGet f : Eval α) (modifyGet f)
  | write {declares : Bool} (text : String) :
      Lockstep declares (modify (·.write text) : Eval Unit) (modify (·.write text))
  /-- Give a name another value in a scope. -/
  | replace {declares : Bool} (scope : Nat) (name : String) (value : Value) :
      Lockstep declares (modify fun w => { w with scopes := w.scopes.replace scope name value } : Eval Unit)
        (modify fun w => { w with scopes := w.scopes.replace scope name value })
  | declare (name : Word) (value : Value) : Lockstep true (declare name value) (declare name value)
  | once {declares : Bool} {p q : Eval Unit} (body : Lockstep declares p q) :
      Lockstep declares (once p) (once q)
  | inBlock {declares : Bool} {p q : Eval Unit} (body : Lockstep true p q) :
      Lockstep declares (inBlock p) (inBlock q)
  | callFunction {declares : Bool} {f g : List Stmt → Eval Unit} (body : ∀ ss, Lockstep true (f ss) (g ss))
      (id : Nat) (args : List Value) (place : Word) :
      Lockstep declares (callFunction f id args place) (callFunction g id args place)

/-- A step in lockstep with itself. -/
abbrev Steady (declares : Bool) {α : Type} (p : Eval α) : Prop :=
  Lockstep declares p p

variable {declares : Bool} {α β : Type}

/-! ## Combinations -/

namespace Lockstep

theorem map {p q : Eval α} (f : α → β) (h : Lockstep declares p q) :
    Lockstep declares (f <$> p) (f <$> q) := by
  rw [map_eq_pure_bind, map_eq_pure_bind]
  exact h.bind fun a => .pure (f a)

theorem mapM {f g : α → Eval β} (h : ∀ a, Lockstep declares (f a) (g a)) (as : List α) :
    Lockstep declares (as.mapM f) (as.mapM g) := by
  induction as with
  | nil =>
      rw [List.mapM_nil, List.mapM_nil]
      exact .pure []
  | cons a as ih =>
      rw [List.mapM_cons, List.mapM_cons]
      exact (h a).bind fun b => ih.bind fun bs => .pure (b :: bs)

theorem forM {f g : α → Eval Unit} (h : ∀ a, Lockstep declares (f a) (g a)) (as : List α) :
    Lockstep declares (as.forM f) (as.forM g) := by
  induction as with
  | nil => exact .pure ()
  | cons a as ih => exact (h a).bind fun _ => ih

end Lockstep

/-- A change of the world that is blind to the variables and to what was written. -/
theorem steady_modify {f : World → World} (blind : ∀ w output, f (w.wrote output) = (f w).wrote output)
    (scopes : ∀ w, (f w).scopes = w.scopes) (scope : ∀ w, (f w).scope = w.scope) :
    Steady declares (modify f : Eval Unit) :=
  .change (fun w output => congrArg (Prod.mk ()) (blind w output)) scopes scope

/-! ## Faults, output, chance and input -/

namespace Eval

theorem steady_raise (place : Word) (cause : Cause) : Steady declares (raise place cause : Eval α) :=
  .throw _

/-- What stands behind a check is in lockstep if what follows the check is. -/
theorem lockstep_check {c : Prop} [Decidable c] {place : Word} {cause : Cause} {f g : Unit → Eval α}
    (h : Lockstep declares (f ()) (g ())) :
    Lockstep declares (if c then raise place cause >>= f else f ())
      (if c then raise place cause >>= g else g ()) := by
  split
  · exact Lockstep.throw (α := α) (.fault ⟨cause, some place⟩)
  · exact h

theorem steady_ofFault (result : Except Fault α) : Steady declares (ofFault result) := by
  cases result with
  | ok a => exact .pure a
  | error f => exact .throw (.fault f)

theorem steady_atLeast (least : Int) (place : Word) (less : Cause) (other : Kind → Cause) (value : Value) :
    Steady declares (atLeast least place less other value) := by
  unfold atLeast
  split
  · split
    · exact steady_raise _ _
    · exact .pure _
  · exact steady_raise _ _

theorem steady_say (text : String) : Steady declares (say text) :=
  .write _

theorem steady_note (event : Event) : Steady declares (note event) :=
  steady_modify (fun _ _ => rfl) (fun _ => rfl) (fun _ => rfl)

theorem steady_draw (bound : Nat) : Steady declares (draw bound) :=
  .change (fun _ _ => rfl) (fun _ => rfl) (fun _ => rfl)

theorem steady_choose (names : List String) : Steady declares (choose names) :=
  (steady_draw _).bind fun _ => .pure _

theorem steady_readLine : Steady declares readLine? := by
  refine .change (fun w output => ?_) (fun w => ?_) (fun w => ?_)
  · have hinput : (w.wrote output).input = w.input := rfl
    simp only [hinput]
    cases w.input <;> rfl
  · cases w.input <;> rfl
  · cases w.input <;> rfl

theorem steady_showInt (n : Int) : Steady declares (showInt n) := by
  unfold showInt
  split
  · exact .pure _
  · exact .throw _

/-! ## Variables -/

theorem steady_newArray (elements : Array Value) : Steady declares (newArray elements) :=
  .change (fun _ _ => rfl) (fun _ => rfl) (fun _ => rfl)

theorem steady_newFunction (name : String) (params : List Word) (body : List Stmt) :
    Steady declares (newFunction name params body) :=
  .change (fun _ _ => rfl) (fun _ => rfl) (fun _ => rfl)

theorem steady_lookup (name : Word) : Steady declares (lookup name) :=
  .look (fun _ _ => rfl) fun _ => steady_ofFault _

theorem steady_assign (name : Word) (value : Value) : Steady declares (assign name value) :=
  .look (fun _ _ => rfl) fun _ => (steady_ofFault _).bind fun owner => .replace owner name.text value

/-! ## Nested arrays

Texts and comparisons go down into arrays. They do not depend on what was written, and with more room they give
what they give with less.
-/

theorem textWithin_wrote (w : World) (output : String) (depth : Nat) (v : Value) :
    textWithin (w.wrote output) depth v = textWithin w depth v := by
  induction depth generalizing v with
  | zero =>
      cases v with
      | bool value => cases value <;> rfl
      | _ => rfl
  | succ depth ih =>
      cases v with
      | bool value => cases value <;> rfl
      | array id =>
          have hitems : textWithin (w.wrote output) depth = textWithin w depth := funext ih
          unfold textWithin
          rw [hitems]
          rfl
      | _ => rfl

theorem equalWithin_wrote (w : World) (output : String) (depth : Nat) (a b : Value) :
    equalWithin (w.wrote output) depth a b = equalWithin w depth a b := by
  induction depth generalizing a b with
  | zero => cases a <;> cases b <;> rfl
  | succ depth ih =>
      have helements : equalWithin (w.wrote output) depth = equalWithin w depth :=
        funext fun a => funext fun b => ih a b
      cases a with
      | array id =>
          cases b with
          | array id' =>
              simp only [equalWithin, helements]
              rfl
          | _ => rfl
      | _ => rfl

theorem anyEqual_wrote (room : Nat) (w : World) (output : String) (item : Value) (as : List Value) :
    anyEqual room (w.wrote output) item as = anyEqual room w item as := by
  induction as with
  | nil => rfl
  | cons a as ih => simp only [anyEqual, equal, ih, equalWithin_wrote]

/-- A result is had with less room, if there is room enough for it. -/
def Outlasts (r r' : Except Interrupt α) : Prop :=
  r = .error .overflow ∨ r' = r

theorem Outlasts.refl (r : Except Interrupt α) : Outlasts r r :=
  Or.inr rfl

theorem Outlasts.bind {r r' : Except Interrupt α} {f f' : α → Except Interrupt β} (hr : Outlasts r r')
    (hf : ∀ a, Outlasts (f a) (f' a)) : Outlasts (r >>= f) (r' >>= f') := by
  rcases hr with rfl | rfl
  · exact Or.inl rfl
  · cases r' with
    | ok a => exact hf a
    | error e => exact Or.inr rfl

theorem lockstep_ofResult {r r' : Except Interrupt α} (h : Outlasts r r') :
    Lockstep declares (ofResult r) (ofResult r') := by
  rcases h with rfl | rfl
  · exact .starved _
  · cases r' with
    | ok a => exact .pure a
    | error e => exact .throw e

theorem outlasts_texts {text text' : Value → Except Interrupt String} (h : ∀ v, Outlasts (text v) (text' v))
    (vs : List Value) : Outlasts (texts text vs) (texts text' vs) := by
  induction vs with
  | nil => exact .refl _
  | cons v vs ih => exact (h v).bind fun first => ih.bind fun others => .refl _

theorem outlasts_textWithin (w : World) {depth depth' : Nat} (h : depth ≤ depth') (v : Value) :
    Outlasts (textWithin w depth v) (textWithin w depth' v) := by
  -- the recursion is through `texts`, so the induction is on the depth and not on the value
  induction depth generalizing depth' v with
  | zero =>
      cases v with
      | array id => exact Or.inl rfl
      | bool value => cases value <;> cases depth' <;> exact .refl _
      | _ => cases depth' <;> exact .refl _
  | succ depth ih =>
      obtain ⟨depth', rfl⟩ : ∃ n, depth' = n + 1 := ⟨depth' - 1, by omega⟩
      cases v with
      | array id => exact (outlasts_texts (fun v => ih (by omega) v) _).bind fun items => .refl _
      | bool value => cases value <;> exact .refl _
      | _ => exact .refl _

theorem outlasts_allEqual {equal equal' : Value → Value → Except Interrupt Bool}
    (h : ∀ a b, Outlasts (equal a b) (equal' a b)) (as bs : List Value) :
    Outlasts (allEqual equal as bs) (allEqual equal' as bs) := by
  induction as generalizing bs with
  | nil => cases bs <;> exact .refl _
  | cons a as ih =>
      cases bs with
      | nil => exact .refl _
      | cons b bs =>
          refine (h a b).bind fun same => ?_
          split
          · exact ih bs
          · exact .refl _

theorem outlasts_equalWithin (w : World) {depth depth' : Nat} (h : depth ≤ depth') (a b : Value) :
    Outlasts (equalWithin w depth a b) (equalWithin w depth' a b) := by
  induction depth generalizing depth' a b with
  | zero =>
      cases a with
      | array id =>
          cases b with
          | array id' => exact Or.inl rfl
          | _ => cases depth' <;> exact .refl _
      | _ => cases depth' <;> exact .refl _
  | succ depth ih =>
      obtain ⟨depth', rfl⟩ : ∃ n, depth' = n + 1 := ⟨depth' - 1, by omega⟩
      cases a with
      | array id =>
          cases b with
          | array id' =>
              unfold equalWithin
              split
              · exact outlasts_allEqual (fun a b => ih (by omega) a b) _ _
              · exact .refl _
          | _ => exact .refl _
      | _ => exact .refl _

theorem outlasts_anyEqual {room room' : Nat} (h : room ≤ room') (w : World) (item : Value) (as : List Value) :
    Outlasts (anyEqual room w item as) (anyEqual room' w item as) := by
  induction as with
  | nil => exact .refl _
  | cons a as ih =>
      refine (outlasts_equalWithin w (Nat.div_le_div_right h) a item).bind fun same => ?_
      split
      · exact .refl _
      · exact ih

/-- Writing a value looks at the world and does not change it. -/
theorem render_eq (room : Nat) (v : Value) : render room v = get >>= fun w => ofResult (text room w v) := by
  funext w
  rw [bind_of_ok (get_apply w)]
  unfold render
  cases text room w v <;> rfl

theorem lockstep_render {room room' : Nat} (h : room ≤ room') (v : Value) :
    Lockstep declares (render room v) (render room' v) := by
  rw [render_eq, render_eq]
  refine .look (fun w output => ?_) fun w => lockstep_ofResult ?_
  · rw [text, textWithin_wrote, ← text]
  · exact outlasts_textWithin w (Nat.div_le_div_right h) v

/-! ## Operators -/

theorem steady_applyUnary (op : UnaryOp) (line : Int) (operand : Value) :
    Steady declares (applyUnary op line operand) := by
  unfold applyUnary
  split
  · exact .pure _
  · exact .pure _
  · exact steady_raise _ _

theorem lockstep_add {room room' : Nat} (h : room ≤ room') (left right : Value) (place : Word) :
    Lockstep declares (add room left right place) (add room' left right place) := by
  unfold add
  split
  · exact .pure _
  · exact (lockstep_render h _).bind fun _ => .pure _
  · exact (lockstep_render h _).bind fun _ => .pure _
  · exact steady_raise _ _

theorem steady_arithmetic (op : IntOp) (a b : Int) (place : Word) :
    Steady declares (arithmetic op a b place) := by
  cases op with
  | divide | remainder =>
      unfold arithmetic
      dsimp only
      split
      · exact steady_raise _ _
      · exact .pure _
  | _ => exact .pure _

theorem lockstep_applyBinary {room room' : Nat} (h : room ≤ room') (op : BinaryOp) (line : Int)
    (left right : Value) :
    Lockstep declares (applyBinary room op line left right) (applyBinary room' op line left right) := by
  cases op with
  | or | and => exact .pure _
  | equal | notEqual =>
      refine .look (fun w output => ?_) fun w => ?_
      · simp only [equal, equalWithin_wrote]
      · refine (lockstep_ofResult ?_).bind fun _ => .pure _
        exact outlasts_equalWithin w (Nat.div_le_div_right h) left right
  | add => exact lockstep_add h left right _
  | int op =>
      unfold applyBinary
      dsimp only
      split
      · exact steady_arithmetic op _ _ _
      · exact steady_raise _ _

/-! ## Values of a kind -/

theorem steady_positionalOnly (named : List NamedArg) (callee : Callee) :
    Steady declares (positionalOnly named callee) := by
  cases named with
  | nil => exact .pure ()
  | cons first rest => exact steady_raise _ _

theorem steady_functionOf (value : Value) (place : Word) (cause : Cause) :
    Steady declares (functionOf value place cause) := by
  unfold functionOf
  split
  · exact .pure _
  · exact steady_raise _ _

theorem steady_objectOf (value : Value) (place : Word) (cause : Cause) :
    Steady declares (objectOf value place cause) := by
  unfold objectOf
  split
  · exact .pure _
  · exact steady_raise _ _

theorem steady_zoneOf (value : Value) (place : Word) (cause : Cause) :
    Steady declares (zoneOf value place cause) := by
  unfold zoneOf
  split
  · exact .pure _
  · exact steady_raise _ _

theorem steady_exploredZone (name : Word) : Steady declares (exploredZone name) :=
  (steady_lookup name).bind fun value => steady_zoneOf value name _

/-! ## Elements and items -/

theorem steady_position (indexed : Indexed) (size : Nat) (index : Value) (place : Word) :
    Steady declares (position indexed size index place) := by
  unfold position
  split
  · next i =>
    split
    · exact .pure _
    · exact (steady_showInt i).bind fun _ => steady_raise _ _
  · exact steady_raise _ _

theorem steady_elementAt (container index : Value) (line : Int) :
    Steady declares (elementAt container index line) := by
  unfold elementAt
  split
  · exact .look (fun _ _ => rfl) fun _ => (steady_position _ _ index _).bind fun _ => .pure _
  · exact (steady_position _ _ index _).bind fun _ => .pure _
  · exact steady_raise _ _

theorem steady_setElementAt (container index value : Value) (line : Int) :
    Steady declares (setElementAt container index value line) := by
  unfold setElementAt
  split
  · refine .look (fun _ _ => rfl) fun _ => (steady_position _ _ index _).bind fun i => ?_
    exact steady_modify (fun _ _ => rfl) (fun _ => rfl) (fun _ => rfl)
  · exact steady_raise _ _
  · exact steady_raise _ _

theorem steady_itemsOf (line : Int) (start : Value) (stop : Option Value) :
    Steady declares (itemsOf line start stop) := by
  unfold itemsOf
  dsimp only
  split
  · exact .pure _
  · exact steady_raise _ _
  · exact steady_raise _ _
  · exact .pure _
  · exact .look (fun _ _ => rfl) fun _ => .pure _
  · exact steady_raise _ _

end Eval

/-! ## Built-in functions -/

namespace Builtin

theorem steady_ask (builtin : Builtin) (place : Word) : Steady declares (ask builtin place) := by
  refine (Lockstep.write "> ").bind fun _ => steady_readLine.bind fun line => ?_
  split
  · split
    · exact steady_raise _ _
    · exact .pure _
  · exact steady_raise _ _

theorem steady_lengthOf (place : Word) (value : Value) : Steady declares (lengthOf place value) := by
  refine .look (fun _ _ => rfl) fun w => ?_
  split
  · exact .pure _
  · exact .pure _
  · exact .pure _
  · exact .pure _
  · exact .pure _
  · exact steady_raise _ _

theorem lockstep_apply {room room' : Nat} (h : room ≤ room') (builtin : Builtin) (args : List Value)
    (place : Word) : Lockstep declares (apply room builtin args place) (apply room' builtin args place) := by
  unfold apply
  split
  · exact (steady_ask _ place).bind fun _ => .pure _
  · refine (steady_ask _ place).bind fun line => ?_
    split
    · exact .pure _
    · exact steady_raise _ _
  · exact steady_lengthOf place _
  · refine Lockstep.bind ?_ fun _ => .pure _
    exact steady_modify (fun _ _ => rfl) (fun _ => rfl) (fun _ => rfl)
  · refine .look (fun w output => ?_) fun w => ?_
    · rw [anyEqual_wrote]
      rfl
    · exact (lockstep_ofResult (outlasts_anyEqual h w _ _)).bind fun _ => .pure _
  · exact .look (fun _ _ => rfl) fun w => steady_newArray _
  · exact steady_raise _ _
  · exact steady_raise _ _
  · exact steady_raise _ _

theorem lockstep_call {room room' : Nat} (h : room ≤ room') (builtin : Builtin) (args : List Value)
    (place : Word) : Lockstep declares (call room builtin args place) (call room' builtin args place) := by
  unfold call
  split
  · exact lockstep_apply h builtin args place
  · exact steady_raise _ _

end Builtin
end SafariScript
