import Mathlib.Logic.Relation
import SafariScript.Proofs.Parser.Conclusion
import SafariScript.Proofs.Parser.StatementSoundness
import SafariScript.Proofs.Parser.Totality

/-!
# Turns of the loop over statements

A script is read in turns, one for each statement. If no problem is recorded in the end, none was recorded in any
turn, so each of them gives a statement. `Flawless` is the invariant that carries this from one turn to the next:
from here on the rest of the script is read without problems.
-/

namespace SafariScript

namespace Parser

/-- A turn of the loop over statements in which no problem is recorded gives a statement. -/
theorem statement_of_turn {limit : Nat} {interactive : Bool} {s s₁ s' : ParseState} {first : Option Stmt}
    {others : List Stmt} {fuel : List Token}
    (hturn : recover false (statement limit { interactive }) s = .ok first s₁)
    (hothers : script limit interactive fuel s₁ = .ok others s') (hproblems : s'.problems = s.problems) :
    ∃ stmt, first = some stmt ∧ statement limit { interactive } s = .ok stmt s₁ ∧
      s'.problems = s₁.problems := by
  have hitem := sound_recover false (sound_statement limit { interactive })
  have hfirst := hitem s
  have hrest := sound_items false hitem fuel s₁
  simp only [hturn] at hfirst
  simp only [script] at hothers
  simp only [hothers] at hrest
  -- problems are never taken back, so none was recorded in either part
  have hle : s₁.problems.length ≤ s'.problems.length := by
    rcases hrest with hgrew | ⟨hsame, -⟩
    · exact Nat.le_of_lt hgrew
    · exact Nat.le_of_eq (congrArg List.length hsame.symm)
  rcases hfirst with hgrew | ⟨hsame, stmt, rfl, -⟩
  · have hlt : s.problems.length < s₁.problems.length := hgrew
    rw [hproblems] at hle
    omega
  · refine ⟨stmt, rfl, ?_, by rw [hproblems, hsame]⟩
    exact recover_eq_some.1 hturn

/-- A turn of the loop over the statements of a script leads from one state to another. -/
def Turn (limit : Nat) (interactive : Bool) (s s' : ParseState) : Prop :=
  s.rest ≠ [] ∧ ∃ first, recover false (statement limit { interactive }) s = .ok first s'

/-- A state from which the rest of a script is read without problems. -/
def Flawless (limit : Nat) (interactive : Bool) (s : ParseState) : Prop :=
  ∃ fuel body s', s.rest.length ≤ fuel.length ∧ script limit interactive fuel s = .ok body s' ∧
    s'.problems = s.problems

theorem flawless_of_parseWithin {limit : Nat} {interactive : Bool} {tokens : List Token} {endLine : Int}
    {problems : Diagnostics} {program : Program}
    (h : parseWithin? limit interactive tokens endLine problems = some ⟨program, problems⟩) :
    Flawless limit interactive ⟨tokens, endLine, endLine, problems⟩ := by
  obtain ⟨s', hscript, hproblems⟩ := exists_script_of_parseWithin h
  exact ⟨tokens, _, s', Nat.le_refl _, hscript, hproblems⟩

namespace Flawless

variable {limit : Nat} {interactive : Bool} {s s₁ : ParseState} {first : Option Stmt}

/-- A turn that starts there gives a statement, moves on and ends in such a state again. -/
theorem turn (hs : Flawless limit interactive s) (hrest : s.rest ≠ [])
    (hturn : recover false (statement limit { interactive }) s = .ok first s₁) :
    ∃ stmt ts, first = some stmt ∧ statement limit { interactive } s = .ok stmt s₁ ∧ ts ≠ [] ∧
      s.rest = ts ++ s₁.rest ∧ s₁.problems = s.problems ∧ Flawless limit interactive s₁ := by
  obtain ⟨ts, hts, hsplit⟩ := recover_statement_moves hrest hturn
  have hpos : 0 < ts.length := List.length_pos_iff.2 hts
  obtain ⟨fuel, body, s', hfuel, hscript, hproblems⟩ := hs
  rw [hsplit, List.length_append] at hfuel
  cases fuel with
  | nil =>
      rw [List.length_nil] at hfuel
      omega
  | cons u fuel =>
      obtain ⟨first', s₁', others, hturn', hothers, -⟩ := (script_turn_eq_ok hrest u fuel).1 hscript
      obtain ⟨rfl, rfl⟩ := EStateM.Result.ok.inj (hturn.symm.trans hturn')
      obtain ⟨stmt, rfl, hstmt, hsame⟩ := statement_of_turn hturn hothers hproblems
      rw [List.length_cons] at hfuel
      exact ⟨stmt, ts, rfl, hstmt, hts, hsplit, hsame.symm.trans hproblems, fuel, others, s', by omega, hothers, hsame⟩

/-- After any number of turns the state is still such a one, and some of the tokens have been consumed. -/
theorem turns (hs : Flawless limit interactive s) (h : Relation.ReflTransGen (Turn limit interactive) s s₁) :
    (∃ ts, s.rest = ts ++ s₁.rest) ∧ s₁.problems = s.problems ∧ Flawless limit interactive s₁ := by
  induction h with
  | refl => exact ⟨⟨[], rfl⟩, rfl, hs⟩
  | tail _ hturn ih =>
      obtain ⟨⟨ts, hts⟩, hproblems, hflawless⟩ := ih
      obtain ⟨hrest, first, hturn⟩ := hturn
      obtain ⟨_, us, -, -, -, hus, hsame, hflawless⟩ := hflawless.turn hrest hturn
      exact ⟨⟨ts ++ us, by rw [hts, hus, List.append_assoc]⟩, hsame.trans hproblems, hflawless⟩

end Flawless

/-- A script is one statement if the statement parser reads it to its end. -/
theorem parseWithin_eq_single {limit : Nat} {interactive : Bool} {tokens : List Token} {endLine : Int}
    {problems : Diagnostics} {stmt : Stmt} :
    parseWithin? limit interactive tokens endLine problems = some ⟨⟨[stmt]⟩, problems⟩ ↔
      ∃ s, statement limit { interactive } ⟨tokens, endLine, endLine, problems⟩ = .ok stmt s ∧ s.rest = [] ∧
        s.problems = problems := by
  constructor
  · intro h
    obtain ⟨s, hscript, hproblems⟩ := exists_script_of_parseWithin h
    have hend : s.rest = [] := by
      simpa using items_statement_ends (s := ⟨tokens, endLine, endLine, problems⟩) hscript
    cases tokens with
    | nil =>
        rw [script, items_of_nil false rfl] at hscript
        cases hscript
    | cons t tokens =>
        obtain ⟨first, s₁, others, hturn, hothers, hbody⟩ := (script_turn_eq_ok (List.cons_ne_nil _ _) _ _).1 hscript
        obtain ⟨_, rfl, hstmt, hproblems₁⟩ := statement_of_turn hturn hothers hproblems
        obtain ⟨rfl, rfl⟩ : stmt = _ ∧ [] = others := by simpa using hbody
        -- no tokens are read without a statement, so none are left behind the first one
        obtain ⟨⟨us, hus, hforms⟩, -⟩ := (sound_items false (sound_recover false
          (sound_statement limit { interactive })) tokens).of_ok hothers hproblems₁
        cases hforms with
        | nil =>
            obtain rfl := hus.eq_of_nil
            exact ⟨_, hstmt, hend, hproblems⟩
  · rintro ⟨s, hstmt, hend, hproblems⟩
    obtain ⟨ts, hts, hforms⟩ := (sound_statement limit { interactive }).of_ok hstmt hproblems
    obtain ⟨t, ts, rfl⟩ := List.exists_cons_of_ne_nil hforms.statement_ne_nil
    obtain rfl : tokens = t :: ts := by simpa [hend] using hts.rest
    have hscript : script limit interactive (t :: ts) ⟨t :: ts, endLine, endLine, problems⟩ = .ok [stmt] s :=
      (script_turn_eq_ok (List.cons_ne_nil _ _) _ _).2
        ⟨some stmt, s, [], recover_of_ok false hstmt, items_of_nil false hend _, rfl⟩
    rw [parseWithin_of_script_ok hscript, hproblems]

end Parser

end SafariScript
