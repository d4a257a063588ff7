import SafariScript.Proofs.Eval.Nesting
import SafariScript.Proofs.Eval.ObjectRefusals
import SafariScript.Proofs.Eval.Operations
import SafariScript.Proofs.Lockstep.Basic

/-!
# Steps that come to an end

The interpreter is total: where a script would run for ever, it runs out of turns or out of room. So a step comes to an
end by itself if these bounds do not matter. `Limit` says so of a step that is given for every budget of turns and every
room: from some room on it has one and the same result, with less room it may only overflow, and that result is not
the end of a budget. It is an overflow only if some value leads into a circle of arrays, as when such a value is
written or compared. `Terminates` says so from every world. What the interpreter is put together with, loops over given
items included, comes to an end if its parts do.
-/

namespace SafariScript

open Eval

/-- A step for every budget of turns and every room. -/
abbrev Metered (α : Type) := Nat → Nat → Eval α

/-- An end of a step that is not for want of turns, nor for want of room unless there is a circle of arrays. -/
def Genuine (w : World) : Interrupt → Prop
  | .endless => False
  | .overflow => ∃ v, w.Circular v
  | .fault f => f.place.isSome = true
  | _ => True

/-- The result of a step on every stack with room enough, whatever the budget. With less room it may overflow. -/
structure Limit {α : Type} (p : Metered α) (w : World) (result : EStateM.Result Interrupt World α) : Prop where
  enough : ∃ least, ∀ budget room, least ≤ room → p budget room w = result
  starved : ∀ budget room, p budget room w = result ∨ ∃ w', p budget room w = .error .overflow w'
  genuine : ∀ e w', result = .error e w' → Genuine w' e

/-- From every world a step has a result that does not depend on the bounds. -/
def Terminates {α : Type} (p : Metered α) : Prop :=
  ∀ w, ∃ result, Limit p w result

theorem World.Circular.of_arrays {w w' : World} {v : Value} (h : w.Circular v) (harrays : w'.arrays = w.arrays) :
    w'.Circular v := by
  have hnests : w'.Nests = w.Nests := by
    unfold World.Nests World.array
    rw [harrays]
  obtain ⟨leads, circle⟩ := h
  exact .array (hnests ▸ leads) (hnests ▸ circle)

theorem Genuine.of_arrays {w w' : World} {e : Interrupt} (h : Genuine w e) (harrays : w'.arrays = w.arrays) :
    Genuine w' e := by
  cases e with
  | overflow =>
      obtain ⟨v, hv⟩ := h
      exact ⟨v, hv.of_arrays harrays⟩
  | _ => exact h

variable {α β : Type}

namespace Limit

variable {p : Metered α} {w : World} {result : EStateM.Result Interrupt World α}

/-- The first step of a sequence has failed. -/
theorem bind_error {f : α → Metered β} {e : Interrupt} {w' : World} (h : Limit p w (.error e w')) :
    Limit (fun budget room => p budget room >>= (f · budget room)) w (.error e w') := by
  obtain ⟨least, hleast⟩ := h.enough
  refine ⟨⟨least, fun budget room hroom => bind_eq_error.2 (.inl (hleast budget room hroom))⟩, ?_, ?_⟩
  · intro budget room
    rcases h.starved budget room with hsame | ⟨w₁, hoverflow⟩
    · exact .inl (bind_eq_error.2 (.inl hsame))
    · exact .inr ⟨w₁, bind_eq_error.2 (.inl hoverflow)⟩
  · intro e' w'' heq
    cases heq
    exact h.genuine e w' rfl

/-- The first step of a sequence has succeeded. -/
theorem bind_ok {f : α → Metered β} {a : α} {w' : World} {result : EStateM.Result Interrupt World β}
    (h : Limit p w (.ok a w')) (hf : Limit (f a) w' result) :
    Limit (fun budget room => p budget room >>= (f · budget room)) w result := by
  obtain ⟨least, hleast⟩ := h.enough
  obtain ⟨least', hleast'⟩ := hf.enough
  refine ⟨⟨max least least', fun budget room hroom => ?_⟩, fun budget room => ?_, hf.genuine⟩
  · rw [bind_of_ok (hleast budget room (by omega))]
    exact hleast' budget room (by omega)
  · rcases h.starved budget room with hsame | ⟨w₁, hoverflow⟩
    · rw [bind_of_ok hsame]
      exact hf.starved budget room
    · exact .inr ⟨w₁, bind_eq_error.2 (.inl hoverflow)⟩

end Limit

/-! ## Combinations -/

/-- What is only refused does not depend on the bounds. -/
theorem terminates_of_refuses {p : Eval α} (h : Refuses (fun _ => True) (fun _ => True) p) :
    Terminates fun _ _ => p := by
  refine fun w => ⟨p w, ⟨0, fun _ _ _ => rfl⟩, fun _ _ => .inl rfl, fun e w' hp => ?_⟩
  have hsound : w.Holds fun _ => True := fun _ _ => trivial
  cases (h.error hsound hp).2 with
  | fault cause _ => rfl
  | longInteger | unknownChance => trivial

theorem terminates_pure (a : α) : Terminates fun _ _ => (pure a : Eval α) :=
  terminates_of_refuses (obeys_pure a)

theorem terminates_throw {e : Interrupt} (h : ∀ w, Genuine w e) : Terminates fun _ _ => (throw e : Eval α) := by
  refine fun w => ⟨.error e w, ⟨0, fun _ _ _ => rfl⟩, fun _ _ => .inl rfl, fun e' w' heq => ?_⟩
  cases heq
  exact h w

theorem exists_limit_bind {p : Metered α} {f : α → Metered β} {w : World} (hp : ∃ result, Limit p w result)
    (hf : ∀ a, Terminates (f a)) :
    ∃ result, Limit (fun budget room => p budget room >>= (f · budget room)) w result := by
  obtain ⟨result, hfirst⟩ := hp
  cases result with
  | error e w' => exact ⟨_, hfirst.bind_error⟩
  | ok a w' =>
      obtain ⟨result, hrest⟩ := hf a w'
      exact ⟨result, hfirst.bind_ok hrest⟩

namespace Terminates

variable {p : Metered α}

theorem bind {f : α → Metered β} (hp : Terminates p) (hf : ∀ a, Terminates (f a)) :
    Terminates fun budget room => p budget room >>= (f · budget room) :=
  fun w => exists_limit_bind (hp w) hf

theorem look {f : World → Metered β} (hf : ∀ w, ∃ result, Limit (f w) w result) :
    Terminates fun budget room => get >>= (f · budget room) := by
  intro w
  obtain ⟨result, h⟩ := hf w
  exact ⟨result, h.enough, h.starved, h.genuine⟩

theorem map (f : α → β) (hp : Terminates p) : Terminates fun budget room => f <$> p budget room := by
  simp only [map_eq_pure_bind]
  exact hp.bind fun a => terminates_pure (f a)

/-- A step may be left so much room less. -/
theorem shift (hp : Terminates p) (frames : Nat) : Terminates fun budget room => p budget (room + frames) := by
  intro w
  obtain ⟨result, ⟨least, hleast⟩, hstarved, hgenuine⟩ := hp w
  refine ⟨result, ⟨least, fun budget room hroom => hleast _ _ (by omega)⟩, ?_, hgenuine⟩
  exact fun budget room => hstarved budget (room + frames)

/-- A step that needs so many frames for itself terminates if it does with these. -/
theorem of_frames {frames : Nat} (hp : Terminates fun budget room => p budget (room + frames))
    (hlow : ∀ budget room, room < frames → p budget room = throw .overflow) : Terminates p := by
  intro w
  obtain ⟨result, ⟨least, hleast⟩, hstarved, hgenuine⟩ := hp w
  refine ⟨result, ⟨least + frames, fun budget room hroom => ?_⟩, fun budget room => ?_, hgenuine⟩
  · obtain ⟨n, rfl⟩ : ∃ n, room = n + frames := ⟨room - frames, by omega⟩
    exact hleast budget n (by omega)
  · by_cases h : room < frames
    · rw [hlow budget room h]
      exact .inr ⟨w, rfl⟩
    · obtain ⟨n, rfl⟩ : ∃ n, room = n + frames := ⟨room - frames, by omega⟩
      exact hstarved budget n

/-- What stands behind a check comes to an end if what follows the check does. -/
theorem check {c : Prop} [Decidable c] {place : Word} {cause : Cause} {f : Unit → Metered α}
    (hf : Terminates (f ())) :
    Terminates fun budget room => if c then raise place cause >>= (f · budget room) else f () budget room := by
  split
  · exact terminates_throw fun _ => rfl
  · exact hf

/-- The result of a step is worked on further, but an overflow stays one. -/
theorem through (hp : Terminates p) (before : World → World)
    (after : World → EStateM.Result Interrupt World α → EStateM.Result Interrupt World β)
    (hoverflow : ∀ w w', ∃ w'', after w (.error .overflow w') = .error .overflow w'')
    (hgenuine : ∀ w result e w', (∀ e w', result = .error e w' → Genuine w' e) → after w result = .error e w' →
      Genuine w' e) :
    Terminates fun budget room => (fun w => after w (p budget room (before w)) : Eval β) := by
  intro w
  obtain ⟨result, ⟨least, hleast⟩, hstarved, hends⟩ := hp (before w)
  refine ⟨after w result, ⟨least, fun budget room hroom => ?_⟩, fun budget room => ?_, ?_⟩
  · exact congrArg (after w) (hleast budget room hroom)
  · rcases hstarved budget room with hsame | ⟨w', hw'⟩
    · exact .inl (congrArg (after w) hsame)
    · obtain ⟨w'', hw''⟩ := hoverflow w w'
      exact .inr ⟨w'', (congrArg (after w) hw').trans hw''⟩
  · exact fun e w' => hgenuine w result e w' hends

theorem inScope (hp : Terminates p) (scope : Nat) : Terminates fun budget room => inScope scope (p budget room) := by
  refine hp.through (fun w => { w with scope }) (fun w result => Eval.inScope scope (fun _ => result) w)
    (fun w w' => ⟨_, rfl⟩) fun w result e w' hends h => ?_
  cases result with
  | ok a w₁ => cases h
  | error e w₁ =>
      cases h
      exact (hends e w₁ rfl).of_arrays rfl

theorem inBlock {p : Metered Unit} (hp : Terminates p) : Terminates fun budget room => inBlock (p budget room) := by
  refine Terminates.bind (p := fun _ _ => enterHere) ?_ fun scope => hp.inScope scope
  exact terminates_of_refuses (Obeys.look fun w _ => obeys_modifyGet fun _ => rfl)

theorem once {p : Metered Unit} (hp : Terminates p) : Terminates fun budget room => once (p budget room) := by
  refine hp.through id (fun w result => Eval.once (fun _ => result) w) (fun w w' => ⟨w', rfl⟩)
    fun w result e w' hends h => ?_
  cases result with
  | ok a w₁ => cases h
  | error e w₁ =>
      cases e with
      | continueLoop | breakLoop | run => cases h
      | _ =>
          cases h
          exact hends _ _ rfl

theorem pass {p : Metered Unit} (hp : Terminates p) : Terminates fun budget room => pass (p budget room) :=
  hp.once.bind fun outcome => terminates_pure outcome.isNone

theorem mapM {f : α → Metered β} {as : List α} (hf : ∀ a ∈ as, Terminates (f a)) :
    Terminates fun budget room => as.mapM (f · budget room) := by
  induction as with
  | nil => exact terminates_pure []
  | cons a as ih =>
      obtain ⟨hfirst, hothers⟩ := List.forall_mem_cons.1 hf
      simp only [List.mapM_cons]
      exact hfirst.bind fun b => (ih hothers).bind fun bs => terminates_pure (b :: bs)

theorem mapOption {f : α → Metered β} {a : Option α} (hf : ∀ b ∈ a, Terminates (f b)) :
    Terminates fun budget room => a.mapM (f · budget room) := by
  cases a with
  | none => exact terminates_pure none
  | some a => exact (hf a rfl).map some

theorem forM {f : α → Metered Unit} {as : List α} (hf : ∀ a ∈ as, Terminates (f a)) :
    Terminates fun budget room => as.forM (f · budget room) := by
  induction as with
  | nil => exact terminates_pure ()
  | cons a as ih =>
      obtain ⟨hfirst, hothers⟩ := List.forall_mem_cons.1 hf
      exact hfirst.bind fun _ => ih hothers

/-! ## Loops over given items -/

theorem forRange {step : Value → Metered Bool} (h : ∀ v, Terminates (step v)) (next : Int) (count : Nat) :
    Terminates fun budget room => forRange (step · budget room) next count := by
  induction count generalizing next with
  | zero => exact terminates_pure ()
  | succ count ih =>
      refine (h (.int next)).bind fun goesOn => ?_
      cases goesOn with
      | true => exact ih (next + 1)
      | false => exact terminates_pure ()

theorem forValues {step : Value → Metered Bool} (h : ∀ v, Terminates (step v)) (vs : List Value) :
    Terminates fun budget room => forValues (step · budget room) vs := by
  induction vs with
  | nil => exact terminates_pure ()
  | cons v vs ih =>
      refine (h v).bind fun goesOn => ?_
      cases goesOn with
      | true => exact ih
      | false => exact terminates_pure ()

theorem forItems {step : Value → Metered Bool} (h : ∀ v, Terminates (step v)) (items : Items) :
    Terminates fun budget room => forItems (step · budget room) items := by
  cases items with
  | range next count => exact forRange h next count
  | values vs => exact forValues h vs

/-- However the items came about, there are only so many of them. -/
theorem forLoop {p : Metered Unit} (hp : Terminates p) (name : Word) (items : Items) :
    Terminates fun budget room => forLoop name items (p budget room) := by
  have hstep (item : Value) : Terminates fun budget room => (do assign name item; Eval.pass (p budget room)) :=
    (terminates_of_refuses (refuses_assign trivial item)).bind fun _ => hp.pass
  refine Terminates.inBlock ((terminates_of_refuses (refuses_declare trivial .null)).bind fun _ => ?_)
  exact forItems hstep items

end Terminates

/-! ## Nested arrays -/

/-- A result that is had with more room if there is not room enough, and that fails for want of room alone only if there
is a circle of arrays. -/
theorem exists_limit_ofResult {r : Nat → Except Interrupt α} {w : World}
    (houtlasts : ∀ room room', room ≤ room' → Outlasts (r room) (r room')) (hfails : ∀ room, FailsOnly (r room))
    (hcircular : (∀ room, r room = .error .overflow) → ∃ v, w.Circular v) :
    ∃ result, Limit (fun _ room => ofResult (r room)) w result := by
  by_cases hall : ∀ room, r room = .error .overflow
  · refine ⟨.error .overflow w, ⟨0, fun _ room _ => ?_⟩, fun _ room => .inl ?_, fun e w' heq => ?_⟩
    · rw [hall room]
      rfl
    · rw [hall room]
      rfl
    · cases heq
      exact hcircular hall
  · obtain ⟨least, hleast⟩ := not_forall.1 hall
    have hsame {room : Nat} (hroom : least ≤ room) : r room = r least :=
      (houtlasts least room hroom).resolve_left hleast
    refine ⟨ofResult (r least) w, ⟨least, fun _ room hroom => ?_⟩, fun _ room => ?_, fun e w' heq => ?_⟩
    · rw [hsame hroom]
    · rcases Nat.le_total least room with hle | hle
      · rw [hsame hle]
        exact .inl rfl
      · rcases houtlasts room least hle with hoverflow | hequal
        · rw [hoverflow]
          exact .inr ⟨w, rfl⟩
        · rw [hequal]
          exact .inl rfl
    · cases hresult : r least with
      | ok a =>
          rw [hresult] at heq
          cases heq
      | error e' =>
          have hfail : Fails e' := hfails least e' hresult
          rw [hresult] at heq hleast
          cases heq
          cases e with
          | overflow => exact absurd rfl hleast
          | longInteger => trivial
          | _ => exact hfail.elim

theorem terminates_render (v : Value) : Terminates fun _ room => render room v := by
  simp only [render_eq]
  refine Terminates.look fun w => exists_limit_ofResult (fun _ _ hle => ?_) (fun _ => ?_) fun hall => ⟨v, ?_⟩
  · exact outlasts_textWithin w (Nat.div_le_div_right hle) v
  · exact failsOnly_textWithin w _ v
  · by_contra hfinite
    obtain ⟨depth, hdepth⟩ := World.not_circular_iff.1 hfinite
    have htext : textWithin w ((2 * depth) / 2) v = .error .overflow := hall (2 * depth)
    rw [Nat.mul_div_cancel_left depth Nat.two_pos] at htext
    exact textWithin_ne_overflow hdepth htext

theorem exists_limit_equal (w : World) (a b : Value) :
    ∃ result, Limit (fun _ room => ofResult (equal room w a b)) w result := by
  refine exists_limit_ofResult (fun _ _ hle => ?_) (fun _ => failsOnly_equalWithin w _ a b) fun hall => ⟨a, ?_⟩
  · exact outlasts_equalWithin w (Nat.div_le_div_right hle) a b
  · by_contra hfinite
    obtain ⟨depth, hdepth⟩ := World.not_circular_iff.1 hfinite
    obtain ⟨same, hsame⟩ := exists_equalWithin hdepth b
    have hoverflow : equalWithin w ((2 * depth) / 2) a b = .error .overflow := hall (2 * depth)
    rw [Nat.mul_div_cancel_left depth Nat.two_pos, hsame] at hoverflow
    cases hoverflow

theorem exists_limit_anyEqual (w : World) (item : Value) (vs : List Value) :
    ∃ result, Limit (fun _ room => ofResult (anyEqual room w item vs)) w result := by
  refine exists_limit_ofResult (fun _ _ hle => outlasts_anyEqual hle w item vs)
    (fun room => failsOnly_anyEqual room w item vs) fun hall => ?_
  by_contra hfinite
  obtain ⟨depth, hdepth⟩ := World.exists_nestedWithin_all fun v (_ : v ∈ vs) =>
    World.not_circular_iff.1 fun hv => hfinite ⟨v, hv⟩
  have hnested : ∀ v ∈ vs, w.nestedWithin (2 * depth / 2) v = true := by
    rw [Nat.mul_div_cancel_left depth Nat.two_pos]
    exact hdepth
  obtain ⟨found, hfound⟩ := exists_anyEqual hnested item
  rw [hall (2 * depth)] at hfound
  cases hfound

theorem terminates_add (left right : Value) (place : Word) : Terminates fun _ room => add room left right place := by
  unfold add
  split
  · exact terminates_pure _
  · exact (terminates_render _).bind fun _ => terminates_pure _
  · exact (terminates_render _).bind fun _ => terminates_pure _
  · exact terminates_of_refuses (refuses_raise trivial _)

theorem terminates_applyBinary (op : BinaryOp) (line : Int) (left right : Value) :
    Terminates fun _ room => applyBinary room op line left right := by
  cases op with
  | or | and => exact terminates_pure _
  | equal | notEqual =>
      exact Terminates.look fun w => exists_limit_bind (exists_limit_equal w left right) fun _ => terminates_pure _
  | add => exact terminates_add left right _
  | int op =>
      unfold applyBinary
      dsimp only
      split
      · exact terminates_of_refuses (refuses_arithmetic trivial op _ _)
      · exact terminates_of_refuses (refuses_raise trivial _)

theorem Builtin.terminates_call (builtin : Builtin) (args : List Value) (place : Word) :
    Terminates fun _ room => Builtin.call room builtin args place := by
  rcases Builtin.call_cases builtin args place with ⟨id, item, rfl, rfl⟩ | ⟨p, hp, hrefuses⟩
  · exact Terminates.look fun w => exists_limit_bind (exists_limit_anyEqual w _ _) fun _ => terminates_pure _
  · simp only [hp]
    exact terminates_of_refuses (hrefuses _ _ trivial)

end SafariScript
