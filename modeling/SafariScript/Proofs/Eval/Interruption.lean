import SafariScript.Objects.Construct
import SafariScript.Objects.Member
import SafariScript.Proofs.Step

/-!
# Steps that are interrupted before they change anything

The operations on objects check first and change the world afterwards. So their steps are of three kinds: checks leave
the world as it is, however they end (`Inert`); changes always come to their end (`Unfailing`); and a step made of
checks and then of changes is interrupted only where nothing was changed yet (`Atomic`).
-/

namespace SafariScript

variable {α β : Type}

/-- A step that leaves the world as it is, however it ends. -/
def Inert (p : Eval α) : Prop :=
  ∀ w, (∃ a, p w = .ok a w) ∨ ∃ e, p w = .error e w

/-- A step that always comes to its end. -/
def Unfailing (p : Eval α) : Prop :=
  ∀ w, ∃ a w', p w = .ok a w'

/-- A step that leaves the world as it is where it is interrupted. -/
def Atomic (p : Eval α) : Prop :=
  ∀ w e w', p w = .error e w' → w' = w

/-! ## Combinations -/

theorem Inert.atomic {p : Eval α} (h : Inert p) : Atomic p := by
  intro w e w' hp
  rcases h w with ⟨a, hok⟩ | ⟨e', herror⟩
  · rw [hok] at hp
    cases hp
  · rw [herror] at hp
    cases hp
    rfl

theorem Unfailing.atomic {p : Eval α} (h : Unfailing p) : Atomic p := by
  intro w e w' hp
  obtain ⟨a, w₁, hok⟩ := h w
  rw [hok] at hp
  cases hp

theorem Inert.bind {p : Eval α} {f : α → Eval β} (hp : Inert p) (hf : ∀ a, Inert (f a)) : Inert (p >>= f) := by
  intro w
  rcases hp w with ⟨a, hok⟩ | ⟨e, herror⟩
  · rw [bind_of_ok hok]
    exact hf a w
  · exact .inr ⟨e, bind_eq_error.2 (.inl herror)⟩

theorem Unfailing.bind {p : Eval α} {f : α → Eval β} (hp : Unfailing p) (hf : ∀ a, Unfailing (f a)) :
    Unfailing (p >>= f) := by
  intro w
  obtain ⟨a, w₁, hok⟩ := hp w
  rw [bind_of_ok hok]
  exact hf a w₁

/-- Behind a check everything may follow that is atomic itself. -/
theorem Inert.check {p : Eval α} {f : α → Eval β} (hp : Inert p) (hf : ∀ a, Atomic (f a)) : Atomic (p >>= f) := by
  intro w e w' h
  rcases hp w with ⟨a, hok⟩ | ⟨e', herror⟩
  · rw [bind_of_ok hok] at h
    exact hf a w e w' h
  · rw [bind_apply, herror] at h
    cases h
    rfl

/-- Once something was changed, nothing may fail any more. -/
theorem Atomic.commit {p : Eval α} {f : α → Eval β} (hp : Atomic p) (hf : ∀ a, Unfailing (f a)) :
    Atomic (p >>= f) := by
  intro w e w' h
  rcases bind_eq_error.1 h with hfirst | ⟨a, w₁, -, hrest⟩
  · exact hp w e w' hfirst
  · obtain ⟨b, w₂, hok⟩ := hf a w₁
    rw [hok] at hrest
    cases hrest

theorem inert_get : Inert (get : Eval World) :=
  fun w => .inl ⟨w, rfl⟩

theorem inert_pure (a : α) : Inert (pure a : Eval α) :=
  fun _ => .inl ⟨a, rfl⟩

theorem inert_throw (e : Interrupt) : Inert (throw e : Eval α) :=
  fun _ => .inr ⟨e, rfl⟩

theorem unfailing_pure (a : α) : Unfailing (pure a : Eval α) :=
  fun w => ⟨a, w, rfl⟩

theorem unfailing_modify (f : World → World) : Unfailing (modify f : Eval Unit) :=
  fun w => ⟨(), f w, rfl⟩

theorem unfailing_modifyGet (f : World → α × World) : Unfailing (modifyGet f : Eval α) :=
  fun w => ⟨(f w).1, (f w).2, rfl⟩

theorem Inert.mapM {f : α → Eval β} (hf : ∀ a, Inert (f a)) (as : List α) : Inert (as.mapM f) := by
  induction as with
  | nil => exact inert_pure []
  | cons a as ih =>
      rw [List.mapM_cons]
      exact (hf a).bind fun b => ih.bind fun bs => inert_pure (b :: bs)

/-! ## Checks -/

namespace Eval

theorem inert_raise (place : Word) (cause : Cause) : Inert (raise place cause : Eval α) :=
  inert_throw _

/-- What stands behind a condition is atomic if what follows the condition is. -/
theorem atomic_check {c : Prop} [Decidable c] {place : Word} {cause : Cause} {f : Unit → Eval α}
    (hf : Atomic (f ())) : Atomic (if c then raise place cause >>= f else f ()) := by
  split
  · exact (inert_throw (α := α) _).atomic
  · exact hf

theorem inert_ofFault (result : Except Fault α) : Inert (ofFault result) := by
  cases result with
  | ok a => exact inert_pure a
  | error f => exact inert_throw (.fault f)

theorem inert_atLeast (least : Int) (place : Word) (less : Cause) (other : Kind → Cause) (value : Value) :
    Inert (atLeast least place less other value) := by
  unfold atLeast
  split
  · split
    · exact inert_raise _ _
    · exact inert_pure _
  · exact inert_raise _ _

theorem inert_showInt (n : Int) : Inert (showInt n) := by
  unfold showInt
  split
  · exact inert_pure _
  · exact inert_throw _

theorem unfailing_choose (names : List String) : Unfailing (choose names) :=
  (unfailing_modifyGet _).bind fun _ => unfailing_pure _

end Eval

namespace Objects

open Eval

theorem inert_trainer (place : Word) (value : Value) : Inert (trainer place value) := by
  unfold trainer
  split
  · exact inert_pure _
  · exact inert_raise _ _

theorem inert_noArgs (method : String) (args : List Value) (place : Word) :
    Inert (noArgs method args place) := by
  unfold noArgs
  split
  · exact inert_pure ()
  · exact inert_raise _ _

theorem inert_oneArg (method : String) (args : List Value) (place : Word) :
    Inert (oneArg method args place) := by
  unfold oneArg
  split
  · exact inert_pure _
  · exact inert_raise _ _

theorem inert_stringArg (method : String) (place : Word) (value : Value) :
    Inert (stringArg method place value) := by
  unfold stringArg
  split
  · exact inert_pure _
  · exact inert_raise _ _

theorem inert_percentArg (method : String) (place : Word) (value : Value) :
    Inert (percentArg method place value) := by
  unfold percentArg
  split
  · split
    · exact inert_pure _
    · exact (inert_showInt _).bind fun _ => inert_raise _ _
  · exact inert_raise _ _

theorem inert_namesArg (method : String) (place : Word) (value : Value) :
    Inert (namesArg method place value) := by
  unfold namesArg
  split
  · exact inert_get.bind fun w => .mapM (inert_stringArg method place) _
  · exact inert_raise _ _

theorem inert_makeRoom (owner : Owner) (count : Nat) (place : Word) :
    Inert (makeRoom owner count place) := by
  refine inert_get.bind fun w => ?_
  split
  · split
    · exact inert_raise _ _
    · exact inert_pure ()
  · exact inert_pure ()

end Objects
end SafariScript
