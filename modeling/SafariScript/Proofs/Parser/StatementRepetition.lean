import SafariScript.Proofs.Parser.ExpressionRepetition
import SafariScript.Proofs.Parser.StatementCompleteness

/-!
# Statements read again

A statement that was read in interactive use is read in a file, and the other way round, with one difference: where
a semicolon was left out at the end of a line, it has to be put in. `Restates` is the contract of `Mirrors` with this
difference in it. Only what ends a simple statement outside all blocks makes it; the statements in a block are the
same in both uses, so every rule with a block keeps the contract of `Mirrors`, and so does a statement in it.
-/

namespace SafariScript

/-- The same surroundings in interactive use or not. -/
def Surroundings.used (around : Surroundings) (interactive : Bool) : Surroundings :=
  { around with interactive }

namespace Parser

open Grammar

variable {α β : Type} {strict eats : Bool} {around : Surroundings} {nested nested' : Parser Expr}

/-! ## The contract -/

/-- A simple statement may end here without a semicolon. -/
structure OpenEnd (around : Surroundings) (s : ParseState) : Prop where
  interactive : around.interactive = true
  outside : around.inBlock = false
  ends : endsLine s.lastLine s.rest = true

/-- The tokens of a statement in a file: those that were consumed, and a semicolon if it was left out. -/
inductive Ended (around : Surroundings) (s' : ParseState) (ts : List Token) : List Token → Prop where
  | same : Ended around s' ts ts
  | semicolon (hopen : OpenEnd around s') : Ended around s' ts (ts ++ [.symbol .semicolon s'.lastLine])

/-- Some tokens were consumed, and the parser gives the same result for them, with the semicolon that was left out,
wherever they come next. -/
def Restated (around : Surroundings) (eats : Bool) (p' : Parser α) (s : ParseState) (a : α) (s' : ParseState) :
    Prop :=
  ∃ ts ts', s.Reads ts s' ∧ (eats = true → ts ≠ []) ∧ Ended around s' ts ts' ∧
    ∀ t t', t.Reads ts' t' → Follows false s'.rest t'.rest → p' t = .ok a t'

/-- Unless the first parser adds to the problems, the second one restates it. -/
def Restates (around : Surroundings) (eats : Bool) (p p' : Parser α) : Prop :=
  Sound p (Restated around eats p')

namespace Ended

variable {s' : ParseState} {ts us us' : List Token}

theorem append (ts : List Token) (h : Ended around s' us us') : Ended around s' (ts ++ us) (ts ++ us') := by
  cases h with
  | same => exact .same
  | semicolon hopen =>
      rw [← List.append_assoc]
      exact .semicolon hopen

/-- A semicolon that is put in ends what stands before it. -/
theorem follows {s t t' : ParseState} (h : Ended around s' us us') (hs : s.Reads us s') (ht : t.Reads us' t')
    (hfollows : Follows false s'.rest t'.rest) : Follows false s.rest t.rest := by
  cases h with
  | same => exact hfollows.of_reads hs ht
  | semicolon hopen =>
      rw [hs.rest, ht.rest, List.append_assoc]
      refine Follows.append us (Follows.of_silent fun u hu => ?_)
      obtain rfl : Token.symbol .semicolon s'.lastLine = u := Option.some.inj hu
      rfl

theorem eq_of_inBlock (h : Ended around s' ts us) (hinside : around.inBlock = true) : us = ts := by
  cases h with
  | same => rfl
  | semicolon hopen => exact absurd (hinside.symm.trans hopen.outside) (by decide)

theorem ne_nil (h : Ended around s' ts us) (hts : ts ≠ []) : us ≠ [] := by
  cases h with
  | same => exact hts
  | semicolon => exact List.append_ne_nil_of_left_ne_nil hts _

end Ended

namespace Restates

variable {p p' : Parser α} {f f' : α → Parser β}

theorem of_mirrors (h : Mirrors false eats p p') : Restates around eats p p' :=
  Sound.mono h fun _ _ _ ⟨ts, hts, heats, hagain⟩ => ⟨ts, ts, hts, heats, .same, hagain⟩

theorem sequence {eats₁ eats₂ : Bool} (hp : Mirrors false eats₁ p p')
    (hf : ∀ a, Restates around eats₂ (f a) (f' a)) :
    Restates around (eats₁ || eats₂) (p >>= f) (p' >>= f') := by
  refine (Sound.bind hp hf).mono ?_
  rintro s b s' ⟨a, s₁, ⟨ts, hts, heats₁, hagain₁⟩, us, us', hus, heats₂, hended, hagain₂⟩
  refine ⟨ts ++ us, ts ++ us', hts.append hus, append_ne_nil_of_eats heats₁ heats₂, hended.append ts,
    fun t t' ht hfollows => ?_⟩
  obtain ⟨t₁, hfirst, hrest⟩ := ht.split
  rw [bind_of_ok (hagain₁ t t₁ hfirst (hended.follows hus hrest hfollows))]
  exact hagain₂ t₁ t' hrest hfollows

theorem bind {eats₁ : Bool} (hp : Mirrors false eats₁ p p') (hf : ∀ a, Restates around eats (f a) (f' a)) :
    Restates around eats (p >>= f) (p' >>= f') :=
  sequence hp.lazy hf

theorem eat (hp : Mirrors false true p p') (hf : ∀ a, Restates around false (f a) (f' a)) :
    Restates around true (p >>= f) (p' >>= f') :=
  sequence hp hf

/-- A choice by the kind of the next token, which is consumed by every branch. -/
theorem ofPeek {f f' : Option TokenKind → Parser α}
    (hf : ∀ kind, Sound (f kind) fun s a s' =>
      s.rest.head?.map Token.kind = kind → Restated around true (f' kind) s a s') :
    Restates around true (peek? >>= f) (peek? >>= f') := by
  refine (sound_peek.bind hf).mono ?_
  rintro s a s' ⟨_, s₁, ⟨rfl, rfl⟩, h⟩
  obtain ⟨ts, ts', hreads, heats, hended, hagain⟩ := h rfl
  refine ⟨ts, ts', hreads, heats, hended, fun t t' ht hfollows => ?_⟩
  have hhead : t.rest.head?.map Token.kind = s₁.rest.head?.map Token.kind := by
    rw [ht.rest, hreads.rest]
    obtain ⟨first, ts, rfl⟩ := List.exists_cons_of_ne_nil (heats rfl)
    cases hended <;> rfl
  rw [bind_apply, peek_apply, hhead]
  exact hagain t t' ht hfollows

/-- Consuming the token that was looked at, and going on. -/
theorem advance {kind : TokenKind} {f f' : Int → Parser α}
    (hf : ∀ line, Restates around eats (f line) (f' line)) :
    Sound (advance >>= f) fun s a s' => s.rest.head?.map Token.kind = some kind →
      Restated around true (advance >>= f') s a s' := by
  refine ((sound_advance_of_kind kind).bind hf).mono ?_
  rintro s a s' ⟨line, s₁, hadvance, ts, ts', hts, -, hended, hagain⟩ hkind
  refine ⟨⟨kind, line⟩ :: ts, ⟨kind, line⟩ :: ts', (hadvance hkind).append hts, fun _ => List.cons_ne_nil _ _,
    hended.append [_], fun t t' ht hfollows => ?_⟩
  obtain ⟨t₁, hfirst, hrest⟩ := ht.uncons
  rw [bind_of_ok (advance_reads hfirst)]
  exact hagain t₁ t' hrest hfollows

end Restates

/-! ## Simple statements -/

variable (around' : Surroundings)

/-- What ended a statement is a semicolon where it is read again. -/
theorem ended_of_terminator {s s' : ParseState} {us : List Token} (hus : s.Reads us s')
    (h : Terminator around s.lastLine us s'.rest) : ∃ l, Ended around s' us [.symbol .semicolon l] := by
  cases h with
  | semicolon l => exact ⟨l, .same⟩
  | lineEnd hinteractive houtside hends =>
      obtain rfl := hus.eq_of_nil
      exact ⟨_, .semicolon ⟨hinteractive, houtside, hends⟩⟩

theorem restates_terminate (position : String) (a : α) :
    Restates around false (terminate around position >>= fun _ => pure a)
      (terminate around' position >>= fun _ => pure a) := by
  refine ((sound_terminate around position).bind fun _ => sound_pure a).mono ?_
  rintro s b s' ⟨_, s₁, ⟨us, hus, hterminator⟩, rfl, rfl⟩
  obtain ⟨l, hended⟩ := ended_of_terminator hus hterminator
  refine ⟨us, _, hus, by simp, hended, fun t t' ht _ => ?_⟩
  rw [bind_of_ok (terminate_reads around' position ht)]
  rfl

theorem restates_varDeclaration (hnested : Mirrors false eats nested nested') :
    Restates around false (varDeclaration around nested) (varDeclaration around' nested') :=
  .bind (mirrors_name _) fun _ => .bind (mirrors_optionalAfter (by simp) hnested) fun _ =>
    restates_terminate around' _ _

theorem restates_printing (hnested : Mirrors false eats nested nested') :
    Restates around false (printing around nested) (printing around' nested') :=
  .bind (mirrors_symbol _ _) fun _ => .bind hnested fun _ => .bind (mirrors_symbol _ _) fun _ =>
    restates_terminate around' _ _

theorem restates_throwing (hnested : Mirrors false eats nested nested') (line : Int) :
    Restates around false (throwing around nested line) (throwing around' nested' line) :=
  .bind (mirrors_symbol _ _) fun _ => .bind hnested fun _ => .bind (mirrors_symbol _ _) fun _ =>
    restates_terminate around' _ _

theorem restates_lone (word : Word) (allowed : Bool) (complaint : Complaint) (stmt : Stmt) :
    Restates around false (lone around word allowed complaint stmt)
      (lone around' word allowed complaint stmt) := by
  cases allowed with
  | true => exact restates_terminate around' _ stmt
  | false =>
      refine ((sound_terminate around _).bind fun _ => (sound_complain _ _).bind fun _ => sound_pure _).mono ?_
      rintro s a s' ⟨_, _, -, _, _, hfalse, -⟩
      exact hfalse.elim

/-- A value is left out only in front of a semicolon, so none is put in behind it. -/
theorem restates_returning (hnested : Mirrors false true nested nested') (line : Int) :
    Restates around false (returning around nested line) (returning around' nested' line) := by
  refine ((sound_returnValue hnested).bind fun _ => (sound_terminate around _).bind fun _ => sound_pure _).mono ?_
  rintro s stmt s' ⟨value, s₁, hvalue, _, s₂, ⟨us, hus, hterminator⟩, rfl, rfl⟩
  rcases hvalue with ⟨rfl, rfl, hsees⟩ | ⟨e, rfl, hsees, ts, hts, heats, hagain⟩
  · cases hterminator with
    | semicolon l =>
        refine ⟨_, _, hus, by simp, .same, fun t t' ht _ => ?_⟩
        have ht' : t.sees (.symbol .semicolon) = true := by simp [ht.sees_eq]
        simp only [returning, returnValue, bind_apply, sees_apply, ht', if_true, pure_apply,
          terminate_reads around' _ ht]
    | lineEnd _ _ _ hmissing =>
        rw [← hus.eq_of_nil] at hsees
        rw [ParseState.sees_eq_false_iff.2 hmissing] at hsees
        cases hsees
  · obtain ⟨l, hended⟩ := ended_of_terminator hus hterminator
    refine ⟨_, _, hts.append hus, by simp, hended.append ts, fun t t' ht hfollows => ?_⟩
    obtain ⟨t₁, hfirst, hrest⟩ := ht.split
    have hbetween : Follows false s₁.rest t₁.rest := hended.follows hus hrest hfollows
    have ht' : t.sees (.symbol .semicolon) = false := by rw [hts.sees_congr hfirst (heats rfl), hsees]
    simp only [returning, returnValue, bind_apply, sees_apply, ht', Bool.false_eq_true, if_false, map_apply,
      hagain t t₁ hfirst hbetween, terminate_reads around' _ hrest, pure_apply]

theorem restates_expressionStatement (hnested : Mirrors false true nested nested') :
    Restates around true (expressionStatement around nested) (expressionStatement around' nested') :=
  .eat hnested fun _ => restates_terminate around' _ _

/-! ## Statements with blocks -/

theorem mirrors_condition (hnested : Mirrors strict eats nested nested') (keyword : String) :
    Mirrors strict true (condition nested keyword) (condition nested' keyword) :=
  (mirrors_symbol _ _).eat fun _ => hnested.bind fun _ => (mirrors_symbol _ _).bind fun _ => mirrors_pure _

theorem mirrors_signature : Mirrors strict true signature signature := by
  have hparameter : Mirrors true true (name "parameter name") (name "parameter name") := mirrors_name _
  exact (mirrors_name _).eat fun _ => (mirrors_symbol _ _).bind fun _ => (mirrors_listBefore _ hparameter).before
    fun _ => (mirrors_symbol _ _).eat fun _ => (mirrors_symbol _ _).bind fun _ => mirrors_pure _

theorem mirrors_iteration (hnested : Mirrors strict eats nested nested') :
    Mirrors strict true (iteration nested) (iteration nested') :=
  (mirrors_name _).eat fun _ => (mirrors_expect _ _).bind fun _ => hnested.bind fun _ =>
    (mirrors_optionalAfter (by simp) hnested).bind fun _ => (mirrors_symbol _ _).bind fun _ => mirrors_pure _

theorem mirrors_exploration : Mirrors strict true exploration exploration :=
  (mirrors_symbol _ _).eat fun _ => (mirrors_name _).bind fun _ => (mirrors_symbol _ _).bind fun _ =>
    (mirrors_symbol _ _).bind fun _ => mirrors_pure _

/-- The statements of a block end at its closing brace, which has to be there again. -/
theorem again_items {item item' : Parser Stmt} (hitem : Mirrors true true item item') (fuel : List Token) :
    Sound (items true (recover true item) fuel) (Again true fuel (items true (recover true item'))) := by
  have hhead {s t : ParseState} (h : Follows true s.rest t.rest) :
      t.rest.head?.map Token.kind = s.rest.head?.map Token.kind :=
    h.resolve_right fun ⟨hstrict, _⟩ => nomatch hstrict
  have hnil (fuel : List Token) (s : ParseState) (hs : s.rest.head?.map Token.kind = none) :
      Again true fuel (items true (recover true item')) s [] s :=
    .done fuel fun fuel' t hfollows => items_of_nil true (by simpa [hs] using hhead hfollows) fuel'
  induction fuel with
  | nil =>
      refine (sound_pure _).mono ?_
      rintro s body s' ⟨rfl, rfl⟩ hfuel
      exact hnil [] s' (by simp [List.length_eq_zero_iff.1 (Nat.le_zero.1 hfuel)]) hfuel
  | cons u fuel ih =>
      refine sound_ofPeek fun kind => ?_
      split
      · refine (sound_pure _).mono ?_
        rintro s body s' ⟨rfl, rfl⟩ hkind
        exact hnil (u :: fuel) _ hkind
      · next kind =>
        split
        · next hclose =>
          refine (sound_pure _).mono ?_
          rintro s body s' ⟨rfl, rfl⟩ hkind
          obtain rfl : kind = .symbol .rightBrace := by simpa using hclose
          exact .done _ fun fuel' t hfollows => items_reads_nil fuel' ((hhead hfollows).trans hkind)
        · next hopen =>
          refine ((sound_recover true hitem).bind fun first => ih.bind fun others => sound_pure _).mono ?_
          rintro s body s' ⟨_, s₁, ⟨first, rfl, us, hus, heats, hagain⟩, others, s₂, hothers, rfl, rfl⟩ hkind
          refine (hothers.map ((some first).toList ++ ·)).turn u hus (heats rfl) fun u' fuel' t t₁ ht hfollows => ?_
          have hkind' : t.rest.head?.map Token.kind = some kind := by
            rw [hus.head_congr ht (heats rfl), hkind]
          have hstmt : recover true item' t = .ok (some first) t₁ := recover_of_ok true (hagain t t₁ ht hfollows)
          rw [items, bind_apply, peek_apply, hkind']
          simp only [if_neg hopen]
          exact bind_of_ok hstmt _

theorem mirrors_block {item item' : Parser Stmt} (hitem : Mirrors true true item item') :
    Mirrors strict true (block item) (block item') := by
  have hblock (item : Parser Stmt) : block item = (do items true (recover true item) (← remaining)) >>= fun body =>
      symbol .rightBrace "after block" >>= fun _ => pure body := by
    rw [bind_assoc]
    rfl
  rw [hblock, hblock]
  exact (Mirrors.ofRemaining (again_items hitem)).before fun _ => (mirrors_symbol _ _).eat fun _ => mirrors_pure _

section Chain

variable {body body' : Parser (List Stmt)}

theorem mirrors_elseBranch {chain chain' : Parser (Expr × List Stmt × Otherwise)}
    (hchain : Mirrors strict true chain chain') (hbody : Mirrors strict true body body') :
    Mirrors strict false (elseBranch chain body) (elseBranch chain' body') := by
  have helse : Mirrors strict false (elseBody chain body) (elseBody chain' body') :=
    .ifAccept (by simp) (hchain.bind fun _ => mirrors_pure _)
      ((mirrors_symbol _ _).bind fun _ => hbody.bind fun _ => mirrors_pure _)
  exact .ifAccept (by simp) helse (mirrors_pure _)

theorem mirrors_conditional (hnested : Mirrors strict true nested nested') (hbody : Mirrors strict true body body')
    (depth : Nat) : Mirrors strict true (conditional nested body depth) (conditional nested' body' depth) := by
  induction depth with
  | zero => exact sound_throw _ _
  | succ depth ih =>
      exact (mirrors_condition hnested "if").eat fun _ => (mirrors_symbol _ _).bind fun _ => hbody.bind fun _ =>
        (mirrors_elseBranch ih hbody).bind fun _ => mirrors_pure _

end Chain

/-! ## Statements -/

/-- A rule for a keyword, in interactive use or not. -/
theorem exists_keyworded_restates (hnested : Mirrors false true nested nested')
    (body body' : Surroundings → Parser (List Stmt)) (interactive : Bool)
    (hbody : ∀ inner, inner.inBlock = true → Mirrors false true (body inner) (body' (inner.used interactive)))
    (around : Surroundings) (bound : Nat) (kind : TokenKind) :
    keyworded around bound nested body kind = none ∧
        keyworded (around.used interactive) bound nested' body' kind = none ∨
      ∃ rule rule' : Int → Parser Stmt, keyworded around bound nested body kind = some (advance >>= rule) ∧
        keyworded (around.used interactive) bound nested' body' kind = some (advance >>= rule') ∧
        ∀ line, Restates around false (rule line) (rule' line) := by
  have hinside (inner : Surroundings) (hinner : inner.inBlock = true) (next : List Stmt → Stmt) :
      Mirrors false false (body inner >>= fun b => pure (next b))
        (body' (inner.used interactive) >>= fun b => pure (next b)) :=
    (hbody inner hinner).bind fun _ => mirrors_pure _
  cases kind with
  | keyword keyword =>
      cases keyword
      case elseKw | inKw | toKw | safariZoneKw | teamKw | trueKw | falseKw | nullKw => exact Or.inl ⟨rfl, rfl⟩
      all_goals refine Or.inr ⟨_, _, rfl, rfl, fun line => ?_⟩
      case varKw => exact restates_varDeclaration _ hnested
      case defineKw => exact .of_mirrors (mirrors_signature.bind fun _ => hinside around.function rfl _)
      case printKw => exact restates_printing _ hnested
      case ifKw =>
        exact .of_mirrors ((mirrors_conditional hnested (hbody around.control rfl) bound).bind fun _ => mirrors_pure _)
      case whileKw =>
        exact .of_mirrors ((mirrors_condition hnested "while").bind fun _ => (mirrors_symbol _ _).bind fun _ =>
          hinside around.loop rfl _)
      case forKw => exact .of_mirrors ((mirrors_iteration hnested).bind fun _ => hinside around.loop rfl _)
      case breakKw | continueKw | runKw => exact restates_lone _ _ _ _ _
      case returnKw => exact restates_returning _ hnested line
      case exploreKw => exact .of_mirrors (mirrors_exploration.bind fun _ => hinside around.loop rfl _)
      case throwBallKw => exact restates_throwing _ hnested line
  | symbol symbol =>
      cases symbol
      case leftBrace =>
        refine Or.inr ⟨_, _, rfl, rfl, fun _ => ?_⟩
        exact .of_mirrors (hinside around.block rfl _)
      all_goals exact Or.inl ⟨rfl, rfl⟩
  | _ => exact Or.inl ⟨rfl, rfl⟩

/-- In a block nothing is put in. -/
theorem Restates.mirrors {p p' : Parser α} (h : Restates around eats p p') (hinside : around.inBlock = true) :
    Mirrors false eats p p' :=
  Sound.mono h fun _ _ _ ⟨ts, ts', hts, heats, hended, hagain⟩ =>
    ⟨ts, hts, heats, fun t t' ht => hagain t t' (by rwa [hended.eq_of_inBlock hinside])⟩

/-- What the statement parser reads, it reads again in the other use, with the semicolon that was left out. -/
theorem restates_statement (depth : Nat) (around : Surroundings) (interactive : Bool) :
    Restates around true (statement depth around) (statement depth (around.used interactive)) := by
  induction depth generalizing around with
  | zero => exact sound_throw _ _
  | succ depth ih =>
      have hnested : Mirrors false true (expression (statementFrames * depth / expressionFrames))
          (expression (statementFrames * depth / expressionFrames)) := mirrors_expression _
      have hbody (inner : Surroundings) (hinner : inner.inBlock = true) :
          Mirrors false true (block (statement depth inner)) (block (statement depth (inner.used interactive))) :=
        mirrors_block ((ih inner).mirrors hinner).tighten
      refine .ofPeek fun kind => ?_
      have hexpression : Sound (expressionStatement around (expression (statementFrames * depth / expressionFrames)))
          fun s a s' => s.rest.head?.map Token.kind = kind → Restated around true (expressionStatement
            (around.used interactive) (expression (statementFrames * depth / expressionFrames))) s a s' :=
        Sound.mono (restates_expressionStatement _ hnested) fun _ _ _ h _ => h
      cases kind with
      | none => exact hexpression
      | some kind =>
          simp only [Option.bind_some]
          rcases exists_keyworded_restates hnested (fun inner => block (statement depth inner))
              (fun inner => block (statement depth inner)) interactive hbody around (statementFrames * depth) kind with
            ⟨hnone, hnone'⟩ | ⟨rule, rule', hsome, hsome', hrule⟩
          · rw [hnone, hnone']
            exact hexpression
          · rw [hsome, hsome']
            exact Restates.advance hrule

end Parser
end SafariScript
