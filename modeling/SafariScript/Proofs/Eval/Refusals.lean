import SafariScript.Eval.Interpreter
import SafariScript.Proofs.Eval.Effect

/-!
# Where operations fail

`Obeys` is the contract of a step that keeps to what is known of the script: in a world whose functions are sound it
leaves sound functions, and it is interrupted only in ways that are allowed. The operations that evaluation calls
besides itself make no functions, and each of them is given the words at which it may fail. So it is interrupted by a
fault at one of them, or because an integer is too long to be written or a chance is not known (`Refusal`), and in no
other way; only those that go down into nested arrays may also run out of room, and are not treated here.
-/

namespace SafariScript

/-- All functions of a world are sound. -/
def World.Holds (sound : Closure → Prop) (w : World) : Prop :=
  ∀ closure ∈ w.functions, sound closure

/-- From every world of sound functions a step leaves one, and is interrupted only in ways that are allowed. -/
def Obeys (sound : Closure → Prop) (allowed : Interrupt → Prop) {α : Type} (p : Eval α) : Prop :=
  ∀ w : World, w.Holds sound →
    match p w with
    | .ok _ w' => w'.Holds sound
    | .error e w' => w'.Holds sound ∧ allowed e

/-- How an operation may be interrupted: by a fault at a known word, or for want of a text or a chance. -/
inductive Refusal (known : Word → Prop) : Interrupt → Prop where
  | fault {place : Word} (cause : Cause) (h : known place) : Refusal known (.fault ⟨cause, some place⟩)
  | longInteger : Refusal known .longInteger
  | unknownChance : Refusal known .unknownChance

/-- An operation that makes no unsound function and is interrupted only by a refusal. -/
abbrev Refuses (sound : Closure → Prop) (known : Word → Prop) {α : Type} (p : Eval α) : Prop :=
  Obeys sound (Refusal known) p

section Contract

variable {sound : Closure → Prop} {allowed : Interrupt → Prop} {α β : Type}

/-! ## Combinations -/

theorem Obeys.ok {p : Eval α} (h : Obeys sound allowed p) {w w' : World} {a : α} (hw : w.Holds sound)
    (hp : p w = .ok a w') : w'.Holds sound := by
  have hstep := h w hw
  rwa [hp] at hstep

theorem Obeys.error {p : Eval α} (h : Obeys sound allowed p) {w w' : World} {e : Interrupt} (hw : w.Holds sound)
    (hp : p w = .error e w') : w'.Holds sound ∧ allowed e := by
  have hstep := h w hw
  rwa [hp] at hstep

theorem Obeys.mono {p : Eval α} {allowed' : Interrupt → Prop} (h : Obeys sound allowed p)
    (hle : ∀ e, allowed e → allowed' e) : Obeys sound allowed' p := by
  intro w hw
  cases hp : p w with
  | ok a w' => exact h.ok hw hp
  | error e w' => exact ⟨(h.error hw hp).1, hle e (h.error hw hp).2⟩

theorem obeys_pure (a : α) : Obeys sound allowed (pure a : Eval α) :=
  fun _ hw => hw

theorem obeys_throw {e : Interrupt} (h : allowed e) : Obeys sound allowed (throw e : Eval α) :=
  fun _ hw => ⟨hw, h⟩

theorem Obeys.bind {p : Eval α} {f : α → Eval β} (hp : Obeys sound allowed p)
    (hf : ∀ a, Obeys sound allowed (f a)) : Obeys sound allowed (p >>= f) := by
  intro w hw
  rw [bind_apply]
  cases hfirst : p w with
  | ok a w' => exact hf a w' (hp.ok hw hfirst)
  | error e w' => exact hp.error hw hfirst

/-- Look at the world, whose functions are sound. -/
theorem Obeys.look {f : World → Eval β} (hf : ∀ w, w.Holds sound → Obeys sound allowed (f w)) :
    Obeys sound allowed (get >>= f) :=
  fun w hw => hf w hw w hw

theorem obeys_modifyGet {f : World → α × World} (h : ∀ w, (f w).2.functions = w.functions) :
    Obeys sound allowed (modifyGet f : Eval α) := by
  intro w hw
  show (f w).2.Holds sound
  unfold World.Holds
  rw [h w]
  exact hw

theorem obeys_modify {f : World → World} (h : ∀ w, (f w).functions = w.functions) :
    Obeys sound allowed (modify f : Eval Unit) :=
  obeys_modifyGet h

/-- What stands behind a check runs only if the check is passed. -/
theorem Obeys.check {c : Prop} [Decidable c] {place : Word} {cause : Cause} {f : Unit → Eval α}
    (hfault : allowed (.fault ⟨cause, some place⟩)) (hf : Obeys sound allowed (f ())) :
    Obeys sound allowed (if c then Eval.raise place cause >>= f else f ()) := by
  split
  · exact obeys_throw hfault
  · exact hf

theorem Obeys.map {p : Eval α} (f : α → β) (hp : Obeys sound allowed p) : Obeys sound allowed (f <$> p) := by
  rw [map_eq_pure_bind]
  exact hp.bind fun a => obeys_pure (f a)

theorem Obeys.mapM {f : α → Eval β} {as : List α} (hf : ∀ a ∈ as, Obeys sound allowed (f a)) :
    Obeys sound allowed (as.mapM f) := by
  induction as with
  | nil => exact obeys_pure []
  | cons a as ih =>
      obtain ⟨hfirst, hothers⟩ := List.forall_mem_cons.1 hf
      rw [List.mapM_cons]
      exact hfirst.bind fun b => (ih hothers).bind fun bs => obeys_pure (b :: bs)

theorem Obeys.mapOption {f : α → Eval β} {a : Option α} (hf : ∀ b ∈ a, Obeys sound allowed (f b)) :
    Obeys sound allowed (a.mapM f) := by
  cases a with
  | none => exact obeys_pure none
  | some a => exact Obeys.map some (hf a rfl)

theorem Obeys.forM {f : α → Eval Unit} {as : List α} (hf : ∀ a ∈ as, Obeys sound allowed (f a)) :
    Obeys sound allowed (as.forM f) := by
  induction as with
  | nil => exact obeys_pure ()
  | cons a as ih =>
      obtain ⟨hfirst, hothers⟩ := List.forall_mem_cons.1 hf
      exact hfirst.bind fun _ => ih hothers

end Contract

variable {sound : Closure → Prop} {known : Word → Prop} {α : Type} {place : Word}

namespace Eval

/-! ## Faults, output, chance and input -/

theorem refuses_raise (hplace : known place) (cause : Cause) : Refuses sound known (raise place cause : Eval α) :=
  obeys_throw (.fault cause hplace)

theorem refuses_check {c : Prop} [Decidable c] {cause : Cause} {f : Unit → Eval α} (hplace : known place)
    (hf : Refuses sound known (f ())) : Refuses sound known (if c then raise place cause >>= f else f ()) :=
  Obeys.check (.fault cause hplace) hf

theorem refuses_ofFault {result : Except Fault α} (h : ∀ f, result = .error f → ∃ word ∈ f.place, known word) :
    Refuses sound known (ofFault result) := by
  cases result with
  | ok a => exact obeys_pure a
  | error f =>
      obtain ⟨cause, at?⟩ := f
      obtain ⟨word, rfl, hknown⟩ := h _ rfl
      exact obeys_throw (.fault cause hknown)

theorem refuses_write (text : String) : Refuses sound known (modify (·.write text) : Eval Unit) :=
  obeys_modify fun _ => rfl

theorem refuses_say (text : String) : Refuses sound known (say text) :=
  refuses_write _

theorem refuses_note (event : Event) : Refuses sound known (note event) :=
  obeys_modify fun _ => rfl

theorem refuses_choose (names : List String) : Refuses sound known (choose names) :=
  (obeys_modifyGet fun _ => rfl).bind fun _ => obeys_pure _

theorem refuses_readLine : Refuses sound known readLine? :=
  obeys_modifyGet fun w => by cases w.input <;> rfl

theorem refuses_showInt (n : Int) : Refuses sound known (showInt n) := by
  unfold showInt
  split
  · exact obeys_pure _
  · exact obeys_throw .longInteger

theorem refuses_atLeast (hplace : known place) (least : Int) (less : Cause) (other : Kind → Cause) (value : Value) :
    Refuses sound known (atLeast least place less other value) := by
  unfold atLeast
  split
  · split
    · exact refuses_raise hplace _
    · exact obeys_pure _
  · exact refuses_raise hplace _

/-! ## Variables -/

theorem refuses_newArray (elements : Array Value) : Refuses sound known (newArray elements) :=
  obeys_modifyGet fun _ => rfl

theorem refuses_modifyArray (id : Nat) (change : Array Value → Array Value) :
    Refuses sound known (modify (·.modifyArray id change) : Eval Unit) :=
  obeys_modify fun _ => rfl

theorem refuses_lookup {name : Word} (hname : known name) : Refuses sound known (lookup name) := by
  refine Obeys.look fun w _ => refuses_ofFault fun f hf => ?_
  unfold Scopes.get at hf
  split at hf
  · cases hf
  · cases hf
    exact ⟨name, rfl, hname⟩

theorem refuses_declare {name : Word} (hname : known name) (value : Value) :
    Refuses sound known (declare name value) := by
  refine Obeys.look fun w _ => (refuses_ofFault fun f hf => ?_).bind fun _ => obeys_modify fun _ => rfl
  unfold Scopes.vacant at hf
  split at hf
  · cases hf
    exact ⟨name, rfl, hname⟩
  · cases hf

theorem refuses_assign {name : Word} (hname : known name) (value : Value) :
    Refuses sound known (assign name value) := by
  refine Obeys.look fun w _ => (refuses_ofFault fun f hf => ?_).bind fun owner => obeys_modify fun _ => rfl
  unfold Scopes.owner at hf
  split at hf
  · cases hf
  · cases hf
    exact ⟨name, rfl, hname⟩

theorem refuses_bindParams {params : List Word} (hparams : ∀ param ∈ params, known param) (args : List Value) :
    Refuses sound known (bindParams params args) := by
  induction params generalizing args with
  | nil => exact obeys_pure ()
  | cons param params ih =>
      obtain ⟨hfirst, hothers⟩ := List.forall_mem_cons.1 hparams
      cases args with
      | nil => exact obeys_pure ()
      | cons arg args => exact (refuses_declare hfirst arg).bind fun _ => ih hothers args

/-- Only here a function is made. -/
theorem obeys_newFunction {allowed : Interrupt → Prop} {name : String} {params : List Word} {body : List Stmt}
    (h : ∀ scope, sound ⟨name, params, body, scope⟩) : Obeys sound allowed (newFunction name params body) := by
  intro w hw closure hclosure
  rcases Array.mem_push.1 hclosure with hclosure | rfl
  · exact hw closure hclosure
  · exact h w.scope

/-! ## Operators -/

theorem refuses_applyUnary {op : UnaryOp} {line : Int} (hplace : known ⟨op.spelling, line⟩) (operand : Value) :
    Refuses sound known (applyUnary op line operand) := by
  unfold applyUnary
  split
  · exact obeys_pure _
  · exact obeys_pure _
  · exact refuses_raise hplace _

theorem refuses_arithmetic (hplace : known place) (op : IntOp) (a b : Int) :
    Refuses sound known (arithmetic op a b place) := by
  cases op with
  | divide | remainder =>
      unfold arithmetic
      dsimp only
      split
      · exact refuses_raise hplace _
      · exact obeys_pure _
  | _ => exact obeys_pure _

/-! ## Values of a kind -/

theorem refuses_positionalOnly {named : List NamedArg} (hnamed : ∀ a ∈ named, known a.name) (callee : Callee) :
    Refuses sound known (positionalOnly named callee) := by
  cases named with
  | nil => exact obeys_pure ()
  | cons first rest => exact refuses_raise (List.forall_mem_cons.1 hnamed).1 _

theorem refuses_functionOf (hplace : known place) (value : Value) (cause : Cause) :
    Refuses sound known (functionOf value place cause) := by
  unfold functionOf
  split
  · exact obeys_pure _
  · exact refuses_raise hplace _

theorem refuses_objectOf (hplace : known place) (value : Value) (cause : Cause) :
    Refuses sound known (objectOf value place cause) := by
  unfold objectOf
  split
  · exact obeys_pure _
  · exact refuses_raise hplace _

theorem refuses_zoneOf (hplace : known place) (value : Value) (cause : Cause) :
    Refuses sound known (zoneOf value place cause) := by
  unfold zoneOf
  split
  · exact obeys_pure _
  · exact refuses_raise hplace _

theorem refuses_exploredZone {name : Word} (hname : known name) : Refuses sound known (exploredZone name) :=
  (refuses_lookup hname).bind fun value => refuses_zoneOf hname value _

/-! ## Elements and items -/

theorem refuses_position (hplace : known place) (indexed : Indexed) (size : Nat) (index : Value) :
    Refuses sound known (position indexed size index place) := by
  unfold position
  split
  · next i =>
    split
    · exact obeys_pure _
    · exact (refuses_showInt i).bind fun _ => refuses_raise hplace _
  · exact refuses_raise hplace _

theorem refuses_elementAt {line : Int} (hplace : known (bracket line)) (container index : Value) :
    Refuses sound known (elementAt container index line) := by
  unfold elementAt
  split
  · exact Obeys.look fun w _ => (refuses_position hplace _ _ index).bind fun _ => obeys_pure _
  · exact (refuses_position hplace _ _ index).bind fun _ => obeys_pure _
  · exact refuses_raise hplace _

theorem refuses_setElementAt {line : Int} (hplace : known (bracket line)) (container index value : Value) :
    Refuses sound known (setElementAt container index value line) := by
  unfold setElementAt
  split
  · refine Obeys.look fun w _ => ?_
    exact (refuses_position hplace _ _ index).bind fun i => refuses_modifyArray _ _
  · exact refuses_raise hplace _
  · exact refuses_raise hplace _

theorem refuses_itemsOf {line : Int} (hplace : known ⟨"for", line⟩) (start : Value) (stop : Option Value) :
    Refuses sound known (itemsOf line start stop) := by
  unfold itemsOf
  dsimp only
  split
  · exact obeys_pure _
  · exact refuses_raise hplace _
  · exact refuses_raise hplace _
  · exact obeys_pure _
  · exact Obeys.look fun w _ => obeys_pure _
  · exact refuses_raise hplace _

end Eval

/-! ## Built-in functions -/

namespace Builtin

open Eval

theorem refuses_ask (hplace : known place) (builtin : Builtin) : Refuses sound known (ask builtin place) := by
  refine (refuses_write _).bind fun _ => refuses_readLine.bind fun line => ?_
  split
  · split
    · exact refuses_raise hplace _
    · exact obeys_pure _
  · exact refuses_raise hplace _

theorem refuses_lengthOf (hplace : known place) (value : Value) : Refuses sound known (lengthOf place value) := by
  refine Obeys.look fun w _ => ?_
  split
  · exact obeys_pure _
  · exact obeys_pure _
  · exact obeys_pure _
  · exact obeys_pure _
  · exact obeys_pure _
  · exact refuses_raise hplace _

/-- A built-in function looks for an item in an array, or it needs no room and is refused at the word of its call. -/
theorem call_cases (builtin : Builtin) (args : List Value) (place : Word) :
    (∃ id item, builtin = .contains ∧ args = [.array id, item]) ∨
    ∃ p, (∀ room, call room builtin args place = p) ∧
      ∀ (sound : Closure → Prop) (known : Word → Prop), known place → Refuses sound known p := by
  by_cases hfind : ∃ id item, builtin = .contains ∧ args = [.array id, item]
  · exact .inl hfind
  · refine .inr ⟨call 0 builtin args place, fun room => ?_, fun sound known hplace => ?_⟩
    · unfold call apply
      split
      · split
        case h_5 id item _ => exact absurd ⟨id, item, rfl, rfl⟩ hfind
        all_goals rfl
      · rfl
    · unfold call apply
      split
      · split
        · exact (refuses_ask hplace _).bind fun _ => obeys_pure _
        · refine (refuses_ask hplace _).bind fun line => ?_
          split
          · exact obeys_pure _
          · exact refuses_raise hplace _
        · exact refuses_lengthOf hplace _
        · next id item _ => exact (refuses_modifyArray id (·.push item)).bind fun _ => obeys_pure _
        · next id item _ => exact absurd ⟨id, item, rfl, rfl⟩ hfind
        · exact Obeys.look fun w _ => refuses_newArray _
        · exact refuses_raise hplace _
        · exact refuses_raise hplace _
        · exact refuses_raise hplace _
      · exact refuses_raise hplace _

end Builtin
end SafariScript
