import SafariScript.Proofs.Grammar

/-!
# Where statements that leave a loop may stand

`break` and `continue` stand inside a loop, and `run` inside a loop or an `if` statement; the body of a
function starts afresh. `Stmt.placed` says so of a tree, whatever tokens it comes from. What a function body
starts with is a parameter: with the loosest placement in its stead every tree is well placed
(`Stmt.placed_anywhere`), which is how statements about arbitrary trees are had from those about well placed
ones.
-/

namespace SafariScript

/-- What stands around a statement, as far as leaving it is concerned. -/
structure Placement where
  inLoop : Bool
  inControl : Bool
deriving DecidableEq, Repr

namespace Placement

/-- Outside all loops and `if` statements. -/
def outside : Placement := ⟨false, false⟩

/-- Where every statement may stand. -/
def anywhere : Placement := ⟨true, true⟩

/-- Inside a block of an `if` statement. -/
def control (here : Placement) : Placement := { here with inControl := true }

end Placement

mutual

/-- The statements that leave a loop are all well placed; `function` is the placement of the bodies of
functions, and `here` that of the statement. -/
def Stmt.placed (function here : Placement) : Stmt → Bool
  | .breakLoop => here.inLoop
  | .continueLoop => here.inLoop
  | .run => here.inControl
  | .block body => Stmt.placedAll function here body
  | .cond _ body otherwise =>
    Stmt.placedAll function here.control body && otherwise.placed function here
  | .loop _ body => Stmt.placedAll function .anywhere body
  | .forIn _ _ _ _ body => Stmt.placedAll function .anywhere body
  | .explore _ _ body => Stmt.placedAll function .anywhere body
  | .define _ _ body => Stmt.placedAll function function body
  | _ => true

/-- The statements that follow the first block of an `if` statement are well placed. -/
def Otherwise.placed (function here : Placement) : Otherwise → Bool
  | .nothing => true
  | .block body => Stmt.placedAll function here.control body
  | .elseIf _ body otherwise =>
    Stmt.placedAll function here.control body && otherwise.placed function here

/-- All statements of a list are well placed. -/
def Stmt.placedAll (function here : Placement) : List Stmt → Bool
  | [] => true
  | s :: ss => s.placed function here && Stmt.placedAll function here ss

end

theorem Stmt.placed_of_mem {function here : Placement} {ss : List Stmt}
    (h : Stmt.placedAll function here ss = true) {s : Stmt} (hs : s ∈ ss) : s.placed function here = true := by
  induction ss with
  | nil => cases hs
  | cons first rest ih =>
      rw [Stmt.placedAll, Bool.and_eq_true] at h
      rcases List.mem_cons.1 hs with rfl | hs
      · exact h.1
      · exact ih h.2 hs

/-- The statements of a program that leave a loop are all well placed. -/
def Program.placed (program : Program) : Bool :=
  Stmt.placedAll .outside .outside program.statements

mutual

theorem Stmt.placed_anywhere : (s : Stmt) → s.placed .anywhere .anywhere = true
  | .breakLoop | .continueLoop | .run => rfl
  | .block body | .loop _ body | .forIn _ _ _ _ body | .explore _ _ body | .define _ _ body =>
      Stmt.placedAll_anywhere body
  | .cond _ body otherwise => by
      have hbody : Stmt.placedAll .anywhere .anywhere body = true := Stmt.placedAll_anywhere body
      have hotherwise := Otherwise.placed_anywhere otherwise
      rw [Stmt.placed, Bool.and_eq_true]
      exact ⟨hbody, hotherwise⟩
  | .expr _ | .print _ | .var _ _ | .ret _ _ | .throwBall _ _ => rfl

theorem Otherwise.placed_anywhere : (o : Otherwise) → o.placed .anywhere .anywhere = true
  | .nothing => rfl
  | .block body => Stmt.placedAll_anywhere body
  | .elseIf _ body otherwise => by
      have hbody : Stmt.placedAll .anywhere .anywhere body = true := Stmt.placedAll_anywhere body
      have hotherwise := Otherwise.placed_anywhere otherwise
      rw [Otherwise.placed, Bool.and_eq_true]
      exact ⟨hbody, hotherwise⟩

/-- Nothing is out of place where every statement may stand. -/
theorem Stmt.placedAll_anywhere : (ss : List Stmt) → Stmt.placedAll .anywhere .anywhere ss = true
  | [] => rfl
  | s :: ss => by
      rw [Stmt.placedAll, Bool.and_eq_true]
      exact ⟨Stmt.placed_anywhere s, Stmt.placedAll_anywhere ss⟩

end

/-- What stands around a statement in the source, as far as leaving it is concerned. -/
def Surroundings.placement (around : Surroundings) : Placement :=
  ⟨around.inLoop, around.inControl⟩

namespace Grammar

/-- The tree is well placed where its tokens stand. -/
def StmtRule.placed : (rule : StmtRule) → Placement → rule.Tree → Bool
  | .statement, here, s => s.placed .outside here
  | .statements, here, ss => Stmt.placedAll .outside here ss
  | .block, here, ss => Stmt.placedAll .outside here ss
  | .otherwise, here, o => o.placed .outside here

/-- What the grammar derives is well placed. -/
theorem Forms.placed {rule : StmtRule} {around : Surroundings} {ts rest : List Token} {tree : rule.Tree}
    (h : Forms rule around ts rest tree) : rule.placed around.placement tree = true := by
  induction h with
  | simple body _ =>
      cases body with
      | breakLoop _ hallowed | continueLoop _ hallowed | run _ hallowed => exact hallowed
      | _ => rfl
  | cond _ _ _ _ _ _ ihfirst ihsecond =>
      simp only [StmtRule.placed, Stmt.placed, Bool.and_eq_true]
      exact ⟨ihfirst, ihsecond⟩
  | elseIf _ _ _ _ _ _ _ ihfirst ihsecond =>
      simp only [StmtRule.placed, Otherwise.placed, Bool.and_eq_true]
      exact ⟨ihfirst, ihsecond⟩
  | cons _ _ ihfirst ihothers =>
      simp only [StmtRule.placed, Stmt.placedAll, Bool.and_eq_true]
      exact ⟨ihfirst, ihothers⟩
  | bareReturn | nothing | nil => rfl
  | block _ ih | loop _ _ _ _ _ ih | forEach _ _ _ _ _ ih | forRange _ _ _ _ _ _ _ ih
  | define _ _ _ _ _ _ ih | explore _ _ _ _ _ ih | elseBlock _ _ ih | braces _ _ _ ih => exact ih

theorem Script.placed {interactive : Bool} {tokens : List Token} {program : Program}
    (h : Script interactive tokens program) : program.placed = true :=
  Forms.placed h

end Grammar
end SafariScript
