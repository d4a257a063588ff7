import SafariScript.Eval.Interpreter
import SafariScript.Proofs.Eval.Effect

/-!
# The operations keep the contract

What evaluation calls besides itself is safe: reading and writing variables, operators, elements of arrays and
built-in functions. None of them is interrupted by a statement that leaves a loop or a function, so they are
safe wherever they stand. What guards an update (a check made before it) is recovered from the result of the
check.
-/

namespace SafariScript

variable {code : List Stmt → Prop} {here : Placement} {α : Type}

namespace Eval

/-! ## Faults, output, chance and input -/

theorem safe_raise (place : Word) (cause : Cause) : Safe code here (raise place cause : Eval α) :=
  safe_throw fun _ => trivial

/-- What stands behind a check runs only if the check is passed. -/
theorem settles_check {c : Prop} [Decidable c] {place : Word} {cause : Cause} {f : Unit → Eval α} {w : World}
    (hf : ¬c → Settles code here w (f ())) :
    Settles code here w (if c then raise place cause >>= f else f ()) := by
  split
  · exact ⟨.refl w, trivial⟩
  · next hc => exact hf hc

theorem safe_check {c : Prop} [Decidable c] {place : Word} {cause : Cause} {f : Unit → Eval α}
    (hf : Safe code here (f ())) : Safe code here (if c then raise place cause >>= f else f ()) :=
  fun w hw => settles_check fun _ => hf w hw

theorem safe_ofFault (result : Except Fault α) : Safe code here (ofFault result) := by
  cases result with
  | ok a => exact safe_pure a
  | error f => exact safe_throw fun _ => trivial

theorem ofFault_eq_ok {result : Except Fault α} {a : α} {w w' : World}
    (h : ofFault result w = .ok a w') : result = .ok a ∧ w' = w := by
  cases result with
  | ok b =>
      cases h
      exact ⟨rfl, rfl⟩
  | error f => cases h

theorem safe_say (text : String) : Safe code here (say text) :=
  safe_modify fun _ => .write _

theorem safe_note (event : Event) : Safe code here (note event) :=
  safe_modify fun _ => .note event

theorem safe_draw (bound : Nat) : Safe code here (draw bound) :=
  safe_modifyGet fun _ => .update (.draw _)

theorem safe_choose (names : List String) : Safe code here (choose names) :=
  (safe_draw _).bind fun _ => safe_pure _

theorem safe_readLine : Safe code here readLine? := by
  refine safe_modifyGet fun w => ?_
  split
  · exact .refl w
  · exact .update (.read _)

theorem safe_showInt (n : Int) : Safe code here (showInt n) := by
  unfold showInt
  split
  · exact safe_pure _
  · exact safe_throw fun _ => trivial

/-! ## Variables -/

theorem safe_newArray (elements : Array Value) : Safe code here (newArray elements) :=
  safe_modifyGet fun _ => .update (.newArray elements)

theorem safe_newFunction (name : String) (params : List Word) {body : List Stmt} (hbody : code body) :
    Safe code here (newFunction name params body) :=
  safe_modifyGet fun _ => .update (.newFunction name params body hbody)

theorem safe_lookup (name : Word) : Safe code here (lookup name) :=
  Safe.get_bind fun w hw => safe_ofFault _ w hw

theorem safe_declare (name : Word) (value : Value) : Safe code here (declare name value) := by
  refine Safe.get_bind fun w hw => ?_
  refine (safe_ofFault _ w hw).bind hw fun _ w' hok _ => ?_
  obtain ⟨hvacant, rfl⟩ := ofFault_eq_ok hok
  refine settles_modify (.declare name.text value ?_)
  unfold Scopes.vacant at hvacant
  split at hvacant
  · cases hvacant
  · next hnone => simpa using hnone

theorem safe_assign (name : Word) (value : Value) : Safe code here (assign name value) := by
  refine Safe.get_bind fun w hw => ?_
  exact (safe_ofFault _ w hw).bind hw fun owner w' _ _ => settles_modify (.assign owner name.text value)

theorem safe_bindParams (params : List Word) (args : List Value) :
    Safe code here (bindParams params args) := by
  fun_induction bindParams params args with
  | case1 param params arg args ih => exact (safe_declare param arg).bind fun _ => ih
  | case2 => exact safe_pure ()

/-! ## Operators -/

/-- The interruptions of comparing and of writing values: a stack without room, or an integer too long. -/
def Fails : Interrupt → Prop
  | .overflow | .longInteger => True
  | _ => False

theorem Fails.leaves {e : Interrupt} (h : Fails e) (w : World) : Leaves here w e := by
  cases e with
  | overflow | longInteger => trivial
  | _ => exact h.elim

/-- A result that is there unless it fails. -/
def FailsOnly (result : Except Interrupt α) : Prop :=
  ∀ e, result = .error e → Fails e

theorem failsOnly_ok (a : α) : FailsOnly (.ok a) := by
  intro e h
  cases h

theorem failsOnly_error {e : Interrupt} (h : Fails e) : FailsOnly (.error e : Except Interrupt α) := by
  intro e' heq
  cases heq
  exact h

theorem FailsOnly.bind {β : Type} {r : Except Interrupt α} {f : α → Except Interrupt β}
    (hr : FailsOnly r) (hf : ∀ a, FailsOnly (f a)) : FailsOnly (r >>= f) := by
  cases r with
  | ok a => exact hf a
  | error e => exact failsOnly_error (hr e rfl)

theorem safe_ofResult {result : Except Interrupt α} (h : FailsOnly result) :
    Safe code here (ofResult result) := by
  cases result with
  | ok a => exact safe_pure a
  | error e => exact safe_throw (h e rfl).leaves

theorem failsOnly_allEqual {equal : Value → Value → Except Interrupt Bool}
    (hequal : ∀ a b, FailsOnly (equal a b)) (as bs : List Value) : FailsOnly (allEqual equal as bs) := by
  fun_induction allEqual equal as bs with
  | case1 a as b bs ih =>
      refine (hequal a b).bind fun same => ?_
      split
      · exact ih
      · exact failsOnly_ok false
  | case2 => exact failsOnly_ok true
  | case3 => exact failsOnly_ok false

theorem failsOnly_equalWithin (w : World) (depth : Nat) (a b : Value) :
    FailsOnly (equalWithin w depth a b) := by
  -- the recursion is through `allEqual`, so the induction is on the depth and not on the values
  induction depth generalizing a b with
  | zero =>
      unfold equalWithin
      split
      · exact failsOnly_error trivial
      · next hdepth => cases hdepth
      · exact failsOnly_ok _
  | succ depth ih =>
      unfold equalWithin
      split
      · next hdepth => cases hdepth
      · next depth' a b hdepth =>
        obtain rfl : depth = depth' := Nat.succ.inj hdepth
        split
        · exact failsOnly_allEqual ih _ _
        · exact failsOnly_ok false
      · exact failsOnly_ok _

theorem failsOnly_anyEqual (room : Nat) (w : World) (item : Value) (as : List Value) :
    FailsOnly (anyEqual room w item as) := by
  induction as with
  | nil => exact failsOnly_ok false
  | cons a as ih =>
      refine (failsOnly_equalWithin w _ a item).bind fun same => ?_
      split
      · exact failsOnly_ok true
      · exact ih

theorem failsOnly_written (text : Option String) : FailsOnly (written text) := by
  cases text with
  | some text => exact failsOnly_ok text
  | none => exact failsOnly_error trivial

theorem failsOnly_texts {text : Value → Except Interrupt String} (htext : ∀ v, FailsOnly (text v))
    (vs : List Value) : FailsOnly (texts text vs) := by
  induction vs with
  | nil => exact failsOnly_ok []
  | cons v vs ih => exact (htext v).bind fun first => ih.bind fun others => failsOnly_ok (first :: others)

theorem failsOnly_objectText (w : World) (object : Object) : FailsOnly (objectText w object) := by
  unfold objectText
  split
  · exact failsOnly_written _
  · exact failsOnly_written _
  · exact failsOnly_ok _

/-- The text of anything but an array takes no room. -/
theorem failsOnly_plainText (w : World) (depth : Nat) {v : Value} (h : ∀ id, v ≠ .array id) :
    FailsOnly (textWithin w depth v) := by
  unfold textWithin
  split
  · exact failsOnly_ok _
  · exact failsOnly_ok _
  · exact failsOnly_ok _
  · exact failsOnly_written _
  · exact failsOnly_ok _
  · exact failsOnly_ok _
  · exact failsOnly_objectText w _
  · exact absurd rfl (h _)
  · exact absurd rfl (h _)

theorem failsOnly_textWithin (w : World) (depth : Nat) (v : Value) : FailsOnly (textWithin w depth v) := by
  induction depth generalizing v with
  | zero =>
      cases v with
      | array id => exact failsOnly_error trivial
      | _ => exact failsOnly_plainText w 0 (by simp)
  | succ depth ih =>
      cases v with
      | array id => exact (failsOnly_texts ih _).bind fun items => failsOnly_ok _
      | _ => exact failsOnly_plainText w (depth + 1) (by simp)

theorem safe_render (room : Nat) (v : Value) : Safe code here (render room v) := by
  intro w _
  unfold Settles render
  split
  · next result s w' hok =>
    split at hok
    · cases hok
      exact .refl w
    · cases hok
  · next result e w' herror =>
    split at herror
    · cases herror
    · next e' htext =>
      cases herror
      exact ⟨.refl w, (failsOnly_textWithin w _ v e htext).leaves w⟩

theorem safe_applyUnary (op : UnaryOp) (line : Int) (operand : Value) :
    Safe code here (applyUnary op line operand) := by
  unfold applyUnary
  split
  · exact safe_pure _
  · exact safe_pure _
  · exact safe_raise _ _

theorem safe_add (room : Nat) (left right : Value) (place : Word) :
    Safe code here (add room left right place) := by
  unfold add
  split
  · exact safe_pure _
  · exact (safe_render room _).bind fun _ => safe_pure _
  · exact (safe_render room _).bind fun _ => safe_pure _
  · exact safe_raise _ _

theorem safe_arithmetic (op : IntOp) (a b : Int) (place : Word) :
    Safe code here (arithmetic op a b place) := by
  unfold arithmetic
  split
  · exact safe_pure _
  · exact safe_pure _
  · split
    · exact safe_raise _ _
    · exact safe_pure _
  · split
    · exact safe_raise _ _
    · exact safe_pure _
  · exact safe_pure _
  · exact safe_pure _
  · exact safe_pure _
  · exact safe_pure _

theorem safe_applyBinary (room : Nat) (op : BinaryOp) (line : Int) (left right : Value) :
    Safe code here (applyBinary room op line left right) := by
  cases op with
  | or | and => exact safe_pure _
  | equal | notEqual =>
      refine Safe.get_bind fun w hw => ?_
      exact ((safe_ofResult (failsOnly_equalWithin w _ left right)).bind fun _ => safe_pure _) w hw
  | add => exact safe_add room left right _
  | int op =>
      unfold applyBinary
      dsimp only
      split
      · exact safe_arithmetic op _ _ _
      · exact safe_raise _ _

/-! ## Values of a kind -/

theorem safe_positionalOnly (named : List NamedArg) (callee : Callee) :
    Safe code here (positionalOnly named callee) := by
  cases named with
  | nil => exact safe_pure ()
  | cons first rest => exact safe_raise _ _

theorem safe_functionOf (value : Value) (place : Word) (cause : Cause) :
    Safe code here (functionOf value place cause) := by
  unfold functionOf
  split
  · exact safe_pure _
  · exact safe_raise _ _

theorem safe_objectOf (value : Value) (place : Word) (cause : Cause) :
    Safe code here (objectOf value place cause) := by
  unfold objectOf
  split
  · exact safe_pure _
  · exact safe_raise _ _

theorem safe_zoneOf (value : Value) (place : Word) (cause : Cause) :
    Safe code here (zoneOf value place cause) := by
  unfold zoneOf
  split
  · exact safe_pure _
  · exact safe_raise _ _

theorem safe_exploredZone (name : Word) : Safe code here (exploredZone name) :=
  (safe_lookup name).bind fun value => safe_zoneOf value name _

/-! ## Elements and items -/

theorem safe_position (indexed : Indexed) (size : Nat) (index : Value) (place : Word) :
    Safe code here (position indexed size index place) := by
  unfold position
  split
  · next i =>
    split
    · exact safe_pure _
    · exact (safe_showInt i).bind fun _ => safe_raise _ _
  · exact safe_raise _ _

theorem safe_elementAt (container index : Value) (line : Int) :
    Safe code here (elementAt container index line) := by
  unfold elementAt
  split
  · refine Safe.get_bind fun w hw => ?_
    exact ((safe_position _ _ index _).bind fun _ => safe_pure _) w hw
  · exact (safe_position _ _ index _).bind fun _ => safe_pure _
  · exact safe_raise _ _

theorem safe_setElementAt (container index value : Value) (line : Int) :
    Safe code here (setElementAt container index value line) := by
  unfold setElementAt
  split
  · next id =>
    refine Safe.get_bind fun w hw => ?_
    exact ((safe_position _ _ index _).bind fun i => safe_modify fun _ => .setArray id _) w hw
  · exact safe_raise _ _
  · exact safe_raise _ _

theorem safe_itemsOf (line : Int) (start : Value) (stop : Option Value) :
    Safe code here (itemsOf line start stop) := by
  unfold itemsOf
  dsimp only
  split
  · exact safe_pure _
  · exact safe_raise _ _
  · exact safe_raise _ _
  · exact safe_pure _
  · exact Safe.get_bind fun w hw => safe_pure _ w hw
  · exact safe_raise _ _

end Eval

/-! ## Built-in functions -/

namespace Builtin

open Eval

theorem safe_ask (builtin : Builtin) (place : Word) : Safe code here (ask builtin place) := by
  refine (safe_modify fun _ => .write _).bind fun _ => safe_readLine.bind fun line => ?_
  split
  · split
    · exact safe_raise _ _
    · exact safe_pure _
  · exact safe_raise _ _

theorem safe_lengthOf (place : Word) (value : Value) : Safe code here (lengthOf place value) := by
  refine Safe.get_bind fun w hw => ?_
  split
  · exact safe_pure _ w hw
  · exact safe_pure _ w hw
  · exact safe_pure _ w hw
  · exact safe_pure _ w hw
  · exact safe_pure _ w hw
  · exact safe_raise _ _ w hw

theorem safe_apply (room : Nat) (builtin : Builtin) (args : List Value) (place : Word) :
    Safe code here (apply room builtin args place) := by
  unfold apply
  split
  · exact (safe_ask _ place).bind fun _ => safe_pure _
  · refine (safe_ask _ place).bind fun line => ?_
    split
    · exact safe_pure _
    · exact safe_raise _ _
  · exact safe_lengthOf place _
  · next id item => exact (safe_modify fun _ => .setArray id _).bind fun _ => safe_pure _
  · refine Safe.get_bind fun w hw => ?_
    exact ((safe_ofResult (failsOnly_anyEqual room w _ _)).bind fun _ => safe_pure _) w hw
  · exact Safe.get_bind fun w hw => safe_newArray _ w hw
  · exact safe_raise _ _
  · exact safe_raise _ _
  · exact safe_raise _ _

theorem safe_call (room : Nat) (builtin : Builtin) (args : List Value) (place : Word) :
    Safe code here (call room builtin args place) := by
  unfold call
  split
  · exact safe_apply room builtin args place
  · exact safe_raise _ _

end Builtin
end SafariScript
