import SafariScript.Eval.Interpreter
import SafariScript.Proofs.Step

/-!
# Division rounds toward zero

A quotient is computed from the absolute values of the operands and gets its sign afterwards, by a test that counts a
left operand of zero among the positive ones and a right operand of zero among the negative ones. This never shows:
the result is the quotient rounded toward zero (`truncatedDiv_eq_tdiv`). `Truncates` says without the algorithm what a
quotient and a remainder are. There is one such pair for every divisor but zero, so the laws about signs follow from
those of `Truncates`, and it is what the operators `/` and `%` give (`division_truncates`).
-/

namespace SafariScript

/-- A quotient and a remainder that give the dividend back. The remainder is smaller than the divisor and, unless it
is zero, has the sign of the dividend. -/
structure Truncates (a b q r : Int) : Prop where
  restores : a = b * q + r
  small : r.natAbs < b.natAbs
  signed : r = 0 ∨ r.sign = a.sign

variable {a b q r q' r' : Int}

/-! ## What the absolute values and the sign test compute -/

theorem truncatedDiv_eq_tdiv (a b : Int) : truncatedDiv a b = a.tdiv b := by
  unfold truncatedDiv
  rw [Int.ofNat_tdiv]
  -- the cases of the sign test, so that zero stands with the positive dividends and with the negative divisors
  by_cases ha : 0 ≤ a
  · rw [Int.natAbs_of_nonneg ha]
    by_cases hb : 0 < b
    · rw [if_pos (iff_of_true ha hb), Int.natAbs_of_nonneg (Int.le_of_lt hb)]
    · rw [if_neg fun h => hb (h.1 ha), Int.ofNat_natAbs_of_nonpos (Int.not_lt.1 hb), Int.tdiv_neg, Int.neg_neg]
  · rw [Int.ofNat_natAbs_of_nonpos (Int.le_of_lt (Int.not_le.1 ha)), Int.neg_tdiv]
    by_cases hb : 0 < b
    · rw [if_neg fun h => ha (h.2 hb), Int.natAbs_of_nonneg (Int.le_of_lt hb), Int.neg_neg]
    · rw [if_pos (iff_of_false ha hb), Int.ofNat_natAbs_of_nonpos (Int.not_lt.1 hb), Int.tdiv_neg, Int.neg_neg]

theorem truncatedMod_eq_tmod (a b : Int) : truncatedMod a b = a.tmod b := by
  unfold truncatedMod
  rw [truncatedDiv_eq_tdiv, Int.tmod_def]

theorem truncates_truncatedDiv (a : Int) (hb : b ≠ 0) : Truncates a b (truncatedDiv a b) (truncatedMod a b) where
  restores := by
    unfold truncatedMod
    omega
  small := by
    rw [truncatedMod_eq_tmod, Int.natAbs_tmod]
    exact Nat.mod_lt _ (Int.natAbs_pos.2 hb)
  signed := by
    rw [truncatedMod_eq_tmod, Int.sign_tmod]
    by_cases hdvd : b ∣ a
    · exact .inl (Int.tmod_eq_zero_of_dvd hdvd)
    · exact .inr (if_neg hdvd)

namespace Truncates

theorem divisor_ne_zero (h : Truncates a b q r) : b ≠ 0 :=
  Int.natAbs_pos.1 (Nat.zero_lt_of_lt h.small)

/-! ## Signs -/

theorem neg_dividend (h : Truncates a b q r) : Truncates (-a) b (-q) (-r) where
  restores := by
    rw [h.restores, Int.mul_neg, Int.neg_add]
  small := by
    rw [Int.natAbs_neg]
    exact h.small
  signed := by
    rw [Int.neg_eq_zero, Int.sign_neg, Int.sign_neg, Int.neg_inj]
    exact h.signed

theorem neg_divisor (h : Truncates a b q r) : Truncates a (-b) (-q) r where
  restores := by
    rw [Int.neg_mul_neg]
    exact h.restores
  small := by
    rw [Int.natAbs_neg]
    exact h.small
  signed := h.signed

/-! ## There is only one quotient -/

theorem remainder_nonneg (h : Truncates a b q r) (ha : 0 ≤ a) : 0 ≤ r := by
  rcases h.signed with hr | hr
  · exact Int.le_of_eq hr.symm
  · rwa [← Int.sign_nonneg_iff, hr, Int.sign_nonneg_iff]

theorem remainder_nonpos (h : Truncates a b q r) (ha : a ≤ 0) : r ≤ 0 := by
  have hneg : 0 ≤ -r := h.neg_dividend.remainder_nonneg (Int.neg_nonneg_of_nonpos ha)
  omega

/-- Two remainders are less than a divisor apart, since they are on the same side of zero. -/
theorem natAbs_remainder_sub_lt (h : Truncates a b q r) (h' : Truncates a b q' r') :
    (r' - r).natAbs < b.natAbs := by
  have hsmall := h.small
  have hsmall' := h'.small
  rcases Int.le_total 0 a with ha | ha
  · have hr := h.remainder_nonneg ha
    have hr' := h'.remainder_nonneg ha
    omega
  · have hr := h.remainder_nonpos ha
    have hr' := h'.remainder_nonpos ha
    omega

theorem unique (h : Truncates a b q r) (h' : Truncates a b q' r') : q = q' ∧ r = r' := by
  have hsum : b * q + r = b * q' + r' := h.restores.symm.trans h'.restores
  -- a multiple of the divisor that is smaller than the divisor is zero
  have hdvd : b ∣ r' - r := ⟨q - q', by rw [Int.mul_sub]; omega⟩
  have hzero : r' - r = 0 := Int.eq_zero_of_dvd_of_natAbs_lt_natAbs hdvd (h.natAbs_remainder_sub_lt h')
  have hquotient : b * q = b * q' := by omega
  exact ⟨Int.eq_of_mul_eq_mul_left h.divisor_ne_zero hquotient, by omega⟩

theorem iff_truncatedDiv (hb : b ≠ 0) :
    Truncates a b q r ↔ q = truncatedDiv a b ∧ r = truncatedMod a b := by
  constructor
  · intro h
    exact h.unique (truncates_truncatedDiv a hb)
  · rintro ⟨rfl, rfl⟩
    exact truncates_truncatedDiv a hb

end Truncates

/-! ## The operators -/

namespace Eval

variable {budget room : Nat} {left right : Expr} {w w₁ w₂ : World}

/-- An operator between two integers computes with the values of its operands, the left of which is evaluated first. -/
theorem eval_intOp (hleft : eval budget (room + 2) left w = .ok (.int a) w₁)
    (hright : eval budget (room + 2) right w₁ = .ok (.int b) w₂) (op : IntOp) (line : Int) :
    eval budget (room + 4) (.binary left (.int op) line right) w = arithmetic op a b ⟨op.spelling, line⟩ w₂ := by
  show (eval budget (room + 2) left >>= fun x => eval budget (room + 2) right >>= fun y =>
    applyBinary (room + 2) (.int op) line x y) w = _
  rw [bind_of_ok hleft, bind_of_ok hright]
  rfl

end Eval

open Eval

/-- For every divisor but zero there are one quotient and one remainder, and they are computed. Changing the sign of an
operand changes that of the quotient; the remainder changes its sign with the dividend and not with the divisor.
Wherever the operands of `/` and `%` have two such values, in any world and on any stack with room for them, the
operators give the quotient and the remainder and change nothing. -/
theorem division_truncates (a : Int) {b : Int} (hb : b ≠ 0) :
    (∀ q r, Truncates a b q r ↔ q = truncatedDiv a b ∧ r = truncatedMod a b) ∧
      truncatedDiv (-a) b = -truncatedDiv a b ∧ truncatedDiv a (-b) = -truncatedDiv a b ∧
      truncatedMod (-a) b = -truncatedMod a b ∧ truncatedMod a (-b) = truncatedMod a b ∧
      ∀ budget room left right line w w₁ w₂, eval budget (room + 2) left w = .ok (.int a) w₁ →
        eval budget (room + 2) right w₁ = .ok (.int b) w₂ →
          eval budget (room + 4) (.binary left (.int .divide) line right) w = .ok (.int (truncatedDiv a b)) w₂ ∧
          eval budget (room + 4) (.binary left (.int .remainder) line right) w =
            .ok (.int (truncatedMod a b)) w₂ := by
  have h : Truncates a b (truncatedDiv a b) (truncatedMod a b) := truncates_truncatedDiv a hb
  obtain ⟨hdiv, hmod⟩ := (truncates_truncatedDiv (-a) hb).unique h.neg_dividend
  obtain ⟨hdiv', hmod'⟩ := (truncates_truncatedDiv a (Int.neg_ne_zero.2 hb)).unique h.neg_divisor
  refine ⟨fun q r => Truncates.iff_truncatedDiv hb, hdiv, hdiv', hmod, hmod', ?_⟩
  intro budget room left right line w w₁ w₂ hleft hright
  constructor
  · rw [eval_intOp hleft hright, arithmetic, if_neg hb, pure_apply]
  · rw [eval_intOp hleft hright, arithmetic, if_neg hb, pure_apply]

/-- Minus seven by two, where rounding down would give minus four. -/
theorem division_truncates_negative :
    let w := World.initial (.ofScript []) .unknown []
    let dividend : Expr := .unary .negate 1 (.literal (.int 7))
    let divisor : Expr := .literal (.int 2)
    (2 : Int) ≠ 0 ∧ eval 1 8 dividend w = .ok (.int (-7)) w ∧ eval 1 8 divisor w = .ok (.int 2) w ∧
      Truncates (-7) 2 (-3) (-1) ∧ truncatedDiv (-7) (-2) = 3 ∧ truncatedMod (-7) (-2) = -1 ∧
      eval 1 10 (.binary dividend (.int .divide) 1 divisor) w = .ok (.int (-3)) w ∧
      eval 1 10 (.binary dividend (.int .remainder) 1 divisor) w = .ok (.int (-1)) w := by
  intro w dividend divisor
  have htwo : (2 : Int) ≠ 0 := by decide
  have hdividend : eval 1 8 dividend w = .ok (.int (-7)) w := rfl
  have hdivisor : eval 1 8 divisor w = .ok (.int 2) w := rfl
  obtain ⟨hunique, -, hdiv, -, hmod, heval⟩ := division_truncates (-7) htwo
  have htruncates : Truncates (-7) 2 (-3) (-1) := (hunique (-3) (-1)).2 ⟨by decide, by decide⟩
  obtain ⟨hdivide, hremainder⟩ := heval 1 6 dividend divisor 1 w w w hdividend hdivisor
  exact ⟨htwo, hdividend, hdivisor, htruncates, hdiv, hmod, hdivide, hremainder⟩

end SafariScript
