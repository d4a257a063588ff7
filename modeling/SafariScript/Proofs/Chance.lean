import Mathlib.Data.List.GetD
import SafariScript.Eval.Basic
import SafariScript.Proofs.Step

/-!
# Draws are below their bound

What is drawn from a source of chance is below the bound, whatever the source: a script of numbers is read
modulo the bound, and a generator tries again until it is below it (`Source.draw_lt`). So a name that is chosen
from a list is one of the list (`exists_choose`).
-/

namespace SafariScript

namespace Random

theorem Twister.below_lt {bound : Nat} (h : 0 < bound) (bits tries : Nat) (t : Twister) :
    (t.below bound bits tries).1 < bound := by
  induction tries generalizing t with
  | zero => exact h
  | succ tries ih =>
      unfold below
      dsimp only
      split
      · next hvalue => exact hvalue
      · exact ih t.next.2

theorem Source.draw_lt {bound : Nat} (h : 0 < bound) (source : Source) : (source.draw bound).1 < bound := by
  cases source with
  | scripted values count =>
      show (values.getD (count % values.size) 0 % (bound : Int)).toNat < bound
      have hbound : (0 : Int) < bound := by omega
      have hmod := Int.emod_lt_of_pos (values.getD (count % values.size) 0) hbound
      omega
  | seeded twister =>
      show (twister.draw bound).1 < bound
      exact Twister.below_lt h _ _ twister

end Random

namespace Eval

theorem draw_apply (bound : Nat) (w : World) :
    draw bound w = .ok (w.chance.draw bound).1 { w with chance := (w.chance.draw bound).2 } := rfl

/-- Choosing from a list that is not empty draws once and gives a name of the list. -/
theorem exists_choose {names : List String} (h : names ≠ []) (w : World) :
    ∃ name ∈ names, choose names w = .ok name { w with chance := (w.chance.draw names.length).2 } := by
  have hdrawn : (w.chance.draw names.length).1 < names.length :=
    w.chance.draw_lt (List.length_pos_iff.2 h)
  refine ⟨names[(w.chance.draw names.length).1], List.getElem_mem hdrawn, ?_⟩
  unfold choose
  rw [bind_of_ok (draw_apply names.length w), pure_apply, List.getD_eq_getElem _ _ hdrawn]

end Eval
end SafariScript
