import SafariScript.Proofs.Parser.ExpressionSoundness

/-!
# Statements are read as the grammar says

Every rule of the statement parser is sound in the sense of `Sound`. Recovery always adds to the problems, so
a list of statements that was read without any had no recovery in it, and a whole script that was read without
any is derived from the grammar (`script_of_parseWithin`).
-/

namespace SafariScript
namespace Grammar

theorem Simple.ne_nil {around : Surroundings} {ts : List Token} {s : Stmt} (h : Simple around ts s) :
    ts ≠ [] := by
  cases h with
  | expr value =>
      obtain ⟨t, us, rfl, -⟩ := value.exists_head rfl
      exact List.cons_ne_nil t us
  | _ => exact List.cons_ne_nil _ _

theorem Forms.statement_ne_nil {around : Surroundings} {ts rest : List Token} {s : Stmt}
    (h : Forms .statement around ts rest s) : ts ≠ [] := by
  cases h with
  | simple body ends =>
      have hbody := body.ne_nil
      simp [hbody]
  | block braces =>
      cases braces with
      | braces l r inner => exact List.cons_ne_nil _ _
  | _ => exact List.cons_ne_nil _ _

end Grammar

namespace Diagnostics

theorem length_hintFirst (place : Word) (hint : String) (ds : Diagnostics) :
    (hintFirst place hint ds).length = ds.length := by
  induction ds with
  | nil => rfl
  | cons d ds ih =>
      unfold hintFirst
      split
      · rfl
      · exact congrArg (· + 1) ih

theorem length_attachHint (ds : Diagnostics) (place : Word) (hint : String) :
    (ds.attachHint place hint).length = ds.length := by
  simp [attachHint, length_hintFirst]

theorem length_attachHints (hints : List String) (place : Word) (ds : Diagnostics) :
    (hints.foldl (fun ds hint => ds.attachHint place hint) ds).length = ds.length := by
  induction hints generalizing ds with
  | nil => rfl
  | cons hint hints ih =>
      rw [List.foldl_cons, ih, length_attachHint]

end Diagnostics

/-- A report is one more record, whatever notes go with it. -/
theorem ParseState.length_problems_report (s : ParseState) (complaint : Complaint) (place : Word) :
    (s.report complaint place).problems.length = s.problems.length + 1 := by
  have hlength := Diagnostics.length_attachHints complaint.hints place
    (s.problems.record (complaint.diagnostic place))
  simpa [report, Diagnostics.record] using hlength

namespace Parser

open Grammar

/-- The tokens consumed are derived from a rule for statements, with the result as the tree. -/
def Formed (rule : StmtRule) (around : Surroundings) (s : ParseState) (tree : rule.Tree)
    (s' : ParseState) : Prop :=
  ∃ ts, s.Reads ts s' ∧ Forms rule around ts s'.rest tree

/-- What is consumed of a block behind its opening brace. -/
def BlockRest (around : Surroundings) (s : ParseState) (body : List Stmt) (s' : ParseState) : Prop :=
  ∃ ts r, s.Reads (ts ++ [.symbol .rightBrace r]) s' ∧
    Forms .statements around ts (.symbol .rightBrace r :: s'.rest) body

/-- A block behind its opening brace is a block with it. -/
theorem BlockRest.formed {around : Surroundings} {s s₁ s' : ParseState} {body : List Stmt} {l : Int}
    (hopen : s.Reads [.symbol .leftBrace l] s₁) (h : BlockRest around s₁ body s') :
    Formed .block around s body s' := by
  obtain ⟨ts, r, hreads, hforms⟩ := h
  exact ⟨_, hopen.append hreads, .braces l r hforms⟩

/-! ## Lists of statements -/

theorem sound_recover {α : Type} {item : Parser α} {R : ParseState → α → ParseState → Prop}
    (inBlock : Bool) (hitem : Sound item R) :
    Sound (recover inBlock item) fun s result s' => ∃ a, result = some a ∧ R s a s' := by
  intro s
  have h := hitem s
  unfold recover
  split
  · next result a s' hresult =>
    split at hresult
    · next b s₁ hok =>
      simp only [hok] at h
      cases hresult
      exact h.imp id fun ⟨hproblems, hR⟩ => ⟨hproblems, b, rfl, hR⟩
    · cases hresult
    · next complaint place s₁ herror =>
      simp only [herror] at h
      cases hresult
      -- tokens are skipped only together with a report
      refine Or.inl ?_
      have hlength := s₁.length_problems_report complaint place
      unfold ParseState.Grew at h ⊢
      rcases h with h | h
      · show _ < (s₁.report complaint place).problems.length
        omega
      · show _ < (s₁.report complaint place).problems.length
        rw [hlength, h]
        exact Nat.lt_succ_self _
  · next result e s' hresult =>
    split at hresult
    · cases hresult
    · next s₁ herror =>
      simp only [herror] at h
      cases hresult
      exact h
    · cases hresult

/-- A list of statements. Each of them consumes a token, so the loop does not end before the tokens do,
except at the brace that closes the block. -/
theorem sound_items {item : Parser (Option Stmt)} {around : Surroundings} (inBlock : Bool)
    (hitem : Sound item fun s result s' => ∃ a, result = some a ∧ Formed .statement around s a s')
    (fuel : List Token) :
    Sound (items inBlock item fuel) fun s body s' => Formed .statements around s body s' ∧
      (inBlock = false → s.rest.length ≤ fuel.length → s'.rest = []) := by
  have hnone (s : ParseState) : Formed .statements around s [] s :=
    ⟨[], .nil s, .nil around s.rest⟩
  induction fuel with
  | nil =>
      refine (sound_pure _).mono ?_
      rintro s body s' ⟨rfl, rfl⟩
      exact ⟨hnone s', fun _ hlength => List.length_eq_zero_iff.1 (Nat.le_zero.1 hlength)⟩
  | cons t fuel ih =>
      refine sound_ofPeek fun kind => ?_
      split
      · refine (sound_pure _).mono ?_
        rintro s body s' ⟨rfl, rfl⟩ hkind
        exact ⟨hnone s', fun _ _ => by simpa using hkind⟩
      · next kind =>
        split
        · next hclose =>
          refine (sound_pure _).mono ?_
          rintro s body s' ⟨rfl, rfl⟩ -
          refine ⟨hnone s', fun hinBlock => ?_⟩
          simp [hinBlock] at hclose
        · refine (hitem.bind fun first => ih.bind fun others => sound_pure _).mono ?_
          rintro s body s' ⟨_, s₁, ⟨first, rfl, ts, hfirst, hforms⟩, others, s₂,
            ⟨⟨us, hothers, hlist⟩, hend⟩, rfl, rfl⟩ -
          refine ⟨⟨ts ++ us, hfirst.append hothers, .cons (hothers.rest ▸ hforms) hlist⟩, ?_⟩
          intro hinBlock hlength
          refine hend hinBlock ?_
          -- the fuel shrinks by one and the tokens by at least one
          have hts : 0 < ts.length := List.length_pos_iff.2 hforms.statement_ne_nil
          rw [hfirst.rest, List.length_append, List.length_cons] at hlength
          omega

theorem sound_block {item : Parser Stmt} {around : Surroundings}
    (hitem : Sound item (Formed .statement around)) :
    Sound (block item) (BlockRest around) := by
  refine (sound_remaining.bind fun fuel =>
    (sound_items true (sound_recover true hitem) fuel).bind fun body =>
      (sound_symbol _ _).bind fun _ => sound_pure _).mono ?_
  rintro s body s' ⟨fuel, s₁, ⟨rfl, -⟩, body', s₂, ⟨⟨ts, hreads, hforms⟩, -⟩, r, s₃, hclose, rfl, rfl⟩
  have hrest : s₂.rest = .symbol .rightBrace r :: s'.rest := hclose.rest
  exact ⟨ts, r, hreads.append hclose, hrest ▸ hforms⟩

/-! ## Simple statements -/

theorem atLineEnd_eq (s : ParseState) : s.atLineEnd = endsLine s.lastLine s.rest := by
  unfold ParseState.atLineEnd endsLine
  cases s.rest <;> rfl

theorem sound_get : Sound (get : Parser ParseState) fun s a s' => a = s ∧ s' = s :=
  fun _ => Or.inr ⟨rfl, rfl, rfl⟩

theorem sound_terminate (around : Surroundings) (position : String) :
    Sound (terminate around position) fun s _ s' =>
      ∃ ts, s.Reads ts s' ∧ Terminator around s.lastLine ts s'.rest := by
  refine Sound.ifAccept (sound_pure ()) ?_ ?_
  · rintro s l s₁ _ s' hsemicolon ⟨-, rfl⟩
    exact ⟨_, hsemicolon, .semicolon l _⟩
  · refine (sound_get.bind (T := fun a s _ s' => a = s → s.sees (.symbol .semicolon) = false →
      ∃ ts, s.Reads ts s' ∧ Terminator around s.lastLine ts s'.rest) fun a => ?_).mono ?_
    · split
      · next hend =>
        simp only [Bool.and_eq_true, Bool.not_eq_true', atLineEnd_eq] at hend
        obtain ⟨⟨hinteractive, houtside⟩, hline⟩ := hend
        refine (sound_pure ()).mono ?_
        rintro s _ s' ⟨-, rfl⟩ rfl hsees
        exact ⟨[], .nil _, .lineEnd hinteractive houtside hline (ParseState.sees_eq_false_iff.1 hsees)⟩
      · exact sound_stop _ _
    · rintro s _ s' ⟨_, s₁, ⟨rfl, rfl⟩, h⟩
      exact h rfl

/-- A simple statement with what ends it. The line of its last token is the same wherever reading began. -/
theorem formed_simple {around : Surroundings} {s s₁ s₂ : ParseState} {ts us : List Token} {stmt : Stmt}
    (hbody : s.Reads ts s₁) (hsimple : Simple around ts stmt) (hend : s₁.Reads us s₂)
    (hterminator : Terminator around s₁.lastLine us s₂.rest) : Formed .statement around s stmt s₂ := by
  rw [hbody.lastLine_of_ne_nil hsimple.ne_nil] at hterminator
  exact ⟨ts ++ us, hbody.append hend, .simple hsimple hterminator⟩

theorem sound_expressionStatement {nested : Parser Expr} (hnested : Sound nested (Derived .assignment))
    (around : Surroundings) :
    Sound (expressionStatement around nested) (Formed .statement around) := by
  refine (hnested.bind fun _ => (sound_terminate around _).bind fun _ => sound_pure _).mono ?_
  rintro s stmt s' ⟨e, s₁, ⟨ts, hreads, hderives⟩, _, s₂, ⟨us, hend, hterminator⟩, rfl, rfl⟩
  exact formed_simple hreads (.expr hderives) hend hterminator

theorem sound_optionalAfter {α : Type} {kind : TokenKind} {part : Parser α}
    {R : ParseState → α → ParseState → Prop} (hpart : Sound part R) :
    Sound (optionalAfter kind part) fun s result s' =>
      (∃ a l s₁, result = some a ∧ s.Reads [⟨kind, l⟩] s₁ ∧ R s₁ a s') ∨ (result = none ∧ s' = s) := by
  refine Sound.ifAccept (hpart.map some) ?_ ((sound_pure _).mono ?_)
  · rintro s l s₁ result s' hkind ⟨a, hR, rfl⟩
    exact Or.inl ⟨a, l, s₁, rfl, hkind, hR⟩
  · rintro s result s' ⟨rfl, rfl⟩ -
    exact Or.inr ⟨rfl, rfl⟩

theorem sound_varDeclaration {nested : Parser Expr} (hnested : Sound nested (Derived .assignment))
    (around : Surroundings) :
    Sound (varDeclaration around nested) fun s stmt s' =>
      ∀ s₀ l, s₀.Reads [.keyword .varKw l] s → Formed .statement around s₀ stmt s' := by
  refine ((sound_name _).bind fun _ => (sound_optionalAfter hnested).bind fun _ =>
    (sound_terminate around _).bind fun _ => sound_pure _).mono ?_
  rintro s stmt s' ⟨word, s₁, hword, initial, s₂, hinitial, _, s₃, ⟨us, hend, hterminator⟩, rfl, rfl⟩
    s₀ l hvar
  rcases hinitial with ⟨e, l', s₄, rfl, hequal, ts, hreads, hderives⟩ | ⟨rfl, rfl⟩
  · exact formed_simple (hvar.append (hword.append (hequal.append hreads)))
      (.varInitial l word l' hderives) hend hterminator
  · exact formed_simple (hvar.append hword) (.var l word) hend hterminator

theorem sound_printing {nested : Parser Expr} (hnested : Sound nested (Derived .assignment))
    (around : Surroundings) :
    Sound (printing around nested) fun s stmt s' =>
      ∀ s₀ l, s₀.Reads [.keyword .printKw l] s → Formed .statement around s₀ stmt s' := by
  refine ((sound_symbol _ _).bind fun _ => hnested.bind fun _ => (sound_symbol _ _).bind fun _ =>
    (sound_terminate around _).bind fun _ => sound_pure _).mono ?_
  rintro s stmt s' ⟨l', s₁, hopen, e, s₂, ⟨ts, hreads, hderives⟩, r, s₃, hclose, _, s₄,
    ⟨us, hend, hterminator⟩, rfl, rfl⟩ s₀ l hprint
  exact formed_simple (hprint.append (hopen.append (hreads.append hclose))) (.print l l' r hderives)
    hend hterminator

theorem sound_throwing {nested : Parser Expr} (hnested : Sound nested (Derived .assignment))
    (around : Surroundings) (line : Int) :
    Sound (throwing around nested line) fun s stmt s' =>
      ∀ s₀, s₀.Reads [.keyword .throwBallKw line] s → Formed .statement around s₀ stmt s' := by
  refine ((sound_symbol _ _).bind fun _ => hnested.bind fun _ => (sound_symbol _ _).bind fun _ =>
    (sound_terminate around _).bind fun _ => sound_pure _).mono ?_
  rintro s stmt s' ⟨l, s₁, hopen, e, s₂, ⟨ts, hreads, hderives⟩, r, s₃, hclose, _, s₄,
    ⟨us, hend, hterminator⟩, rfl, rfl⟩ s₀ hthrow
  exact formed_simple (hthrow.append (hopen.append (hreads.append hclose)))
    (.throwBall line l r hderives) hend hterminator

/-- A value is left out where a semicolon is seen in its place, and only there. -/
theorem sound_returnValue {nested : Parser Expr} {R : ParseState → Expr → ParseState → Prop}
    (hnested : Sound nested R) :
    Sound (returnValue nested) fun s value s' =>
      (value = none ∧ s' = s ∧ s.sees (.symbol .semicolon) = true) ∨
        ∃ e, value = some e ∧ s.sees (.symbol .semicolon) = false ∧ R s e s' := by
  refine Sound.ifSees ((sound_pure _).mono ?_) ((hnested.map some).mono ?_)
  · rintro s value s' ⟨rfl, rfl⟩ hsees
    exact Or.inl ⟨rfl, rfl, hsees⟩
  · rintro s value s' ⟨e, hR, rfl⟩ hsees
    exact Or.inr ⟨e, rfl, hsees, hR⟩

/-- A `return` without a value is always ended by the semicolon that was seen in place of the value. -/
theorem sound_returning {nested : Parser Expr} (hnested : Sound nested (Derived .assignment))
    (around : Surroundings) (line : Int) :
    Sound (returning around nested line) fun s stmt s' =>
      ∀ s₀, s₀.Reads [.keyword .returnKw line] s → Formed .statement around s₀ stmt s' := by
  refine ((sound_returnValue hnested).bind fun _ => (sound_terminate around _).bind fun _ => sound_pure _).mono ?_
  rintro s stmt s' ⟨value, s₁, hvalue, _, s₂, ⟨us, hend, hterminator⟩, rfl, rfl⟩ s₀ hreturn
  rcases hvalue with ⟨rfl, rfl, hsees⟩ | ⟨e, rfl, -, ts, hreads, hderives⟩
  · cases hterminator with
    | semicolon l => exact ⟨_, hreturn.append hend, .bareReturn around line l _⟩
    | lineEnd _ _ _ hmissing =>
        -- a line end counts only where no semicolon is seen
        rw [← hend.eq_of_nil] at hsees
        rw [ParseState.sees_eq_false_iff.2 hmissing] at hsees
        cases hsees
  · exact formed_simple (hreturn.append hreads) (.ret line hderives) hend hterminator

/-- A keyword by itself. If it is out of place, a problem is recorded. -/
theorem sound_lone {around : Surroundings} {word : Word} {allowed : Bool} {complaint : Complaint}
    {stmt : Stmt} (keyword : Keyword)
    (hsimple : allowed = true → Simple around [.keyword keyword word.line] stmt) :
    Sound (lone around word allowed complaint stmt) fun s stmt' s' =>
      ∀ s₀, s₀.Reads [.keyword keyword word.line] s → Formed .statement around s₀ stmt' s' := by
  refine ((sound_terminate around _).bind (T := fun _ s stmt' s' =>
    allowed = true ∧ stmt' = stmt ∧ s' = s) fun _ => ?_).mono ?_
  · cases allowed with
    | false =>
        refine ((sound_complain _ _).bind fun _ => sound_pure _).mono ?_
        rintro s stmt' s' ⟨_, s₁, hfalse, -⟩
        exact hfalse.elim
    | true =>
        refine (sound_pure _).mono ?_
        rintro s stmt' s' ⟨rfl, rfl⟩
        exact ⟨rfl, rfl, rfl⟩
  · rintro s stmt' s' ⟨_, s₁, ⟨us, hend, hterminator⟩, hallowed, rfl, rfl⟩ s₀ hkeyword
    exact formed_simple hkeyword (hsimple hallowed) hend hterminator

/-! ## Statements with blocks -/

theorem sound_condition {nested : Parser Expr} (hnested : Sound nested (Derived .assignment))
    (keyword : String) :
    Sound (condition nested keyword) fun s e s' => ∃ l ts r,
      s.Reads (.symbol .leftParen l :: (ts ++ [.symbol .rightParen r])) s' ∧
        Derives .assignment ts e := by
  refine ((sound_symbol _ _).bind fun _ => hnested.bind fun _ => (sound_symbol _ _).bind fun _ =>
    sound_pure _).mono ?_
  rintro s e s' ⟨l, s₁, hopen, e', s₂, ⟨ts, hreads, hderives⟩, r, s₃, hclose, rfl, rfl⟩
  exact ⟨l, ts, r, hopen.append (hreads.append hclose), hderives⟩

/-- What is consumed of an `if` statement behind its keyword: the condition, the block, and what follows. -/
def CondRest (around : Surroundings) (s : ParseState) (result : Expr × List Stmt × Otherwise)
    (s' : ParseState) : Prop :=
  ∃ l cs r ts us, s.Reads (.symbol .leftParen l :: (cs ++ .symbol .rightParen r :: (ts ++ us))) s' ∧
    Derives .assignment cs result.1 ∧ Forms .block around.control ts (us ++ s'.rest) result.2.1 ∧
    Forms .otherwise around us s'.rest result.2.2

theorem sound_elseBranch {chain : Parser (Expr × List Stmt × Otherwise)} {body : Parser (List Stmt)}
    {around : Surroundings} (hchain : Sound chain (CondRest around))
    (hbody : Sound body (BlockRest around.control)) :
    Sound (elseBranch chain body) (Formed .otherwise around) := by
  have hbranch : Sound (elseBody chain body) fun s result s' =>
      ∀ s₀ l, s₀.Reads [.keyword .elseKw l] s → Formed .otherwise around s₀ result s' := by
    refine Sound.ifAccept (hchain.bind fun _ => sound_pure _) ?_ ?_
    · rintro s l s₁ result s' hif ⟨_, s₂, ⟨l', cs, r, ts, us, hreads, hcondition, hfirst, hsecond⟩,
        rfl, rfl⟩ s₀ l₀ helse
      exact ⟨_, helse.append (hif.append hreads), .elseIf l₀ l l' r hcondition hfirst hsecond⟩
    · refine ((sound_symbol _ _).bind fun _ => hbody.bind fun _ => sound_pure _).mono ?_
      rintro s result s' ⟨l, s₁, hopen, second, s₂, hblock, rfl, rfl⟩ - s₀ l₀ helse
      obtain ⟨ts, hreads, hforms⟩ := hblock.formed hopen
      exact ⟨_, helse.append hreads, .elseBlock l₀ hforms⟩
  refine Sound.ifAccept hbranch (fun s l s₁ result s' helse h => h s l helse) ((sound_pure _).mono ?_)
  rintro s result s' ⟨rfl, rfl⟩ -
  exact ⟨[], .nil _, .nothing around _⟩

theorem sound_conditional {nested : Parser Expr} {body : Parser (List Stmt)} {around : Surroundings}
    (hnested : Sound nested (Derived .assignment)) (hbody : Sound body (BlockRest around.control))
    (depth : Nat) : Sound (conditional nested body depth) (CondRest around) := by
  induction depth with
  | zero => exact sound_throw _ _
  | succ depth ih =>
      refine ((sound_condition hnested _).bind fun _ => (sound_symbol _ _).bind fun _ =>
        hbody.bind fun _ => (sound_elseBranch ih hbody).bind fun _ => sound_pure _).mono ?_
      rintro s result s' ⟨value, s₁, ⟨l, cs, r, hcs, hcondition⟩, l', s₂, hopen, first, s₃, hblock,
        otherwise, s₄, ⟨us, hus, hsecond⟩, rfl, rfl⟩
      obtain ⟨ts, hts, hfirst⟩ := hblock.formed hopen
      refine ⟨l, cs, r, ts, us, ?_, hcondition, hus.rest ▸ hfirst, hsecond⟩
      simpa using hcs.append (hts.append hus)

theorem sound_signature :
    Sound signature fun s result s' => ∃ l ps r l' s₁,
      s.Reads (.name result.1 :: .symbol .leftParen l :: (ps ++ [.symbol .rightParen r])) s₁ ∧
        s₁.Reads [.symbol .leftBrace l'] s' ∧ Params ps result.2 := by
  have hname : Sound (name "parameter name") fun s word s' =>
      ∃ ts, s.Reads ts s' ∧ ts = [.name word] :=
    (sound_name _).mono fun s word s' h => ⟨_, h, rfl⟩
  refine ((sound_name _).bind fun _ => (sound_symbol _ _).bind fun _ =>
    (sound_listBefore _ hname).bind fun _ => (sound_symbol _ _).bind fun _ =>
      (sound_symbol _ _).bind fun _ => sound_pure _).mono ?_
  rintro s result s' ⟨word, s₁, hword, l, s₂, hopen, params, s₃, ⟨ps, hps, hlist⟩, r, s₄, hclose, l', s₅,
    hbrace, rfl, rfl⟩
  refine ⟨l, ps, r, l', s₄, hword.append (hopen.append (hps.append hclose)), hbrace, ?_⟩
  rcases hlist with ⟨rfl, rfl⟩ | hlist
  · exact .none
  · exact .some hlist

/-- The head of a `for` loop behind its keyword, up to the opening brace of its block. -/
theorem sound_iteration {nested : Parser Expr} (hnested : Sound nested (Derived .assignment)) :
    Sound (iteration nested) fun s result s' => ∃ l es s₁ l', s₁.Reads [.symbol .leftBrace l'] s' ∧
      Derives .assignment es result.2.1 ∧
        ((result.2.2 = none ∧ s.Reads (.name result.1 :: .keyword .inKw l :: es) s₁) ∨
          ∃ e l'' fs, result.2.2 = some e ∧ Derives .assignment fs e ∧
            s.Reads (.name result.1 :: .keyword .inKw l :: (es ++ .keyword .toKw l'' :: fs)) s₁) := by
  refine ((sound_name _).bind fun _ => (sound_expect (.keyword .inKw) _).bind fun _ =>
    hnested.bind fun _ => (sound_optionalAfter hnested).bind fun _ => (sound_symbol _ _).bind fun _ =>
      sound_pure _).mono ?_
  rintro s result s' ⟨word, s₁, hword, l, s₂, hin, start, s₃, ⟨es, hes, hstart⟩, stop, s₄, hstop, l', s₅,
    hbrace, rfl, rfl⟩
  refine ⟨l, es, s₄, l', hbrace, hstart, ?_⟩
  rcases hstop with ⟨e, l'', s₆, rfl, hto, fs, hfs, hderives⟩ | ⟨rfl, rfl⟩
  · refine Or.inr ⟨e, l'', fs, rfl, hderives, ?_⟩
    exact hword.append (hin.append (hes.append (hto.append hfs)))
  · exact Or.inl ⟨rfl, hword.append (hin.append hes)⟩

theorem sound_exploration :
    Sound exploration fun s zone s' => ∃ l r l' s₁,
      s.Reads [.symbol .leftParen l, .name zone, .symbol .rightParen r] s₁ ∧
        s₁.Reads [.symbol .leftBrace l'] s' := by
  refine ((sound_symbol _ _).bind fun _ => (sound_name _).bind fun _ => (sound_symbol _ _).bind fun _ =>
    (sound_symbol _ _).bind fun _ => sound_pure _).mono ?_
  rintro s zone s' ⟨l, s₁, hopen, word, s₂, hword, r, s₃, hclose, l', s₄, hbrace, rfl, rfl⟩
  exact ⟨l, r, l', s₃, hopen.append (hword.append hclose), hbrace⟩

/-- Every statement that starts with a keyword or a brace, if blocks and expressions are read soundly. -/
theorem sound_keyworded {around : Surroundings} {bound : Nat} {nested : Parser Expr}
    {body : Surroundings → Parser (List Stmt)} (hnested : Sound nested (Derived .assignment))
    (hbody : ∀ inner, Sound (body inner) (BlockRest inner)) {kind : TokenKind} {rule : Parser Stmt}
    (hrule : keyworded around bound nested body kind = some rule) :
    Sound rule fun s stmt s' =>
      s.rest.head?.map Token.kind = some kind → Formed .statement around s stmt s' := by
  cases kind with
  | keyword keyword =>
      cases keyword
      case elseKw | inKw | toKw | safariZoneKw | teamKw | trueKw | falseKw | nullKw => cases hrule
      all_goals rw [← Option.some.inj hrule]
      case varKw =>
        refine ((sound_advance_of_kind (.keyword .varKw)).bind fun _ =>
          sound_varDeclaration hnested around).mono ?_
        rintro s stmt s' ⟨l, s₁, hkeyword, h⟩ hkind
        exact h s l (hkeyword hkind)
      case defineKw =>
        refine ((sound_advance_of_kind (.keyword .defineKw)).bind fun _ => sound_signature.bind fun _ =>
          (hbody around.function).bind fun _ => sound_pure _).mono ?_
        rintro s stmt s' ⟨l, s₁, hkeyword, ⟨word, params⟩, s₂, ⟨l', ps, r, l'', s₃, hhead, hopen, hparams⟩,
          _, s₄, hblock, rfl, rfl⟩ hkind
        obtain ⟨ts, hts, hforms⟩ := hblock.formed hopen
        refine ⟨_, (hkeyword hkind).append (hhead.append hts), ?_⟩
        simpa using Forms.define l word l' r hparams hforms
      case printKw =>
        refine ((sound_advance_of_kind (.keyword .printKw)).bind fun _ =>
          sound_printing hnested around).mono ?_
        rintro s stmt s' ⟨l, s₁, hkeyword, h⟩ hkind
        exact h s l (hkeyword hkind)
      case ifKw =>
        refine ((sound_advance_of_kind (.keyword .ifKw)).bind fun _ =>
          (sound_conditional hnested (hbody around.control) bound).bind fun _ => sound_pure _).mono ?_
        rintro s stmt s' ⟨l, s₁, hkeyword, _, s₂, ⟨l', cs, r, ts, us, hreads, hcondition, hfirst, hsecond⟩,
          rfl, rfl⟩ hkind
        exact ⟨_, (hkeyword hkind).append hreads, .cond l l' r hcondition hfirst hsecond⟩
      case whileKw =>
        refine ((sound_advance_of_kind (.keyword .whileKw)).bind fun _ =>
          (sound_condition hnested _).bind fun _ => (sound_symbol _ _).bind fun _ =>
            (hbody around.loop).bind fun _ => sound_pure _).mono ?_
        rintro s stmt s' ⟨l, s₁, hkeyword, value, s₂, ⟨l', cs, r, hcs, hcondition⟩, l'', s₃, hopen, _, s₄,
          hblock, rfl, rfl⟩ hkind
        obtain ⟨ts, hts, hforms⟩ := hblock.formed hopen
        refine ⟨_, (hkeyword hkind).append (hcs.append hts), ?_⟩
        simpa using Forms.loop l l' r hcondition hforms
      case forKw =>
        refine ((sound_advance_of_kind (.keyword .forKw)).bind fun _ => (sound_iteration hnested).bind fun _ =>
          (hbody around.loop).bind fun _ => sound_pure _).mono ?_
        rintro s stmt s' ⟨line, s₁, hkeyword, ⟨word, start, stop⟩, s₂,
          ⟨l, es, s₃, l', hopen, hstart, hstop⟩, _, s₄, hblock, rfl, rfl⟩ hkind
        obtain ⟨ts, hts, hforms⟩ := hblock.formed hopen
        rcases hstop with ⟨hnone, hreads⟩ | ⟨e, l'', fs, hsome, hderives, hreads⟩
        · obtain rfl : stop = none := hnone
          exact ⟨_, (hkeyword hkind).append (hreads.append hts), .forEach line word l hstart hforms⟩
        · obtain rfl : stop = some e := hsome
          refine ⟨_, (hkeyword hkind).append (hreads.append hts), ?_⟩
          simpa using Forms.forRange line word l l'' hstart hderives hforms
      case breakKw =>
        refine ((sound_advance_of_kind (.keyword .breakKw)).bind fun line =>
          sound_lone .breakKw (.breakLoop line)).mono ?_
        rintro s stmt s' ⟨line, s₁, hkeyword, h⟩ hkind
        exact h s (hkeyword hkind)
      case continueKw =>
        refine ((sound_advance_of_kind (.keyword .continueKw)).bind fun line =>
          sound_lone .continueKw (.continueLoop line)).mono ?_
        rintro s stmt s' ⟨line, s₁, hkeyword, h⟩ hkind
        exact h s (hkeyword hkind)
      case runKw =>
        refine ((sound_advance_of_kind (.keyword .runKw)).bind fun line =>
          sound_lone .runKw (.run line)).mono ?_
        rintro s stmt s' ⟨line, s₁, hkeyword, h⟩ hkind
        exact h s (hkeyword hkind)
      case returnKw =>
        refine ((sound_advance_of_kind (.keyword .returnKw)).bind fun line =>
          sound_returning hnested around line).mono ?_
        rintro s stmt s' ⟨line, s₁, hkeyword, h⟩ hkind
        exact h s (hkeyword hkind)
      case exploreKw =>
        refine ((sound_advance_of_kind (.keyword .exploreKw)).bind fun _ => sound_exploration.bind fun _ =>
          (hbody around.loop).bind fun _ => sound_pure _).mono ?_
        rintro s stmt s' ⟨line, s₁, hkeyword, zone, s₂, ⟨l, r, l', s₃, hhead, hopen⟩, _, s₄, hblock, rfl, rfl⟩
          hkind
        obtain ⟨ts, hts, hforms⟩ := hblock.formed hopen
        exact ⟨_, (hkeyword hkind).append (hhead.append hts), .explore line l zone r hforms⟩
      case throwBallKw =>
        refine ((sound_advance_of_kind (.keyword .throwBallKw)).bind fun line =>
          sound_throwing hnested around line).mono ?_
        rintro s stmt s' ⟨line, s₁, hkeyword, h⟩ hkind
        exact h s (hkeyword hkind)
  | symbol symbol =>
      cases symbol
      case leftBrace =>
        rw [← Option.some.inj hrule]
        refine ((sound_advance_of_kind (.symbol .leftBrace)).bind fun _ =>
          (hbody around.block).bind fun _ => sound_pure _).mono ?_
        rintro s stmt s' ⟨l, s₁, hopen, _, s₂, hblock, rfl, rfl⟩ hkind
        obtain ⟨ts, hts, hforms⟩ := hblock.formed (hopen hkind)
        exact ⟨ts, hts, .block hforms⟩
      all_goals cases hrule
  | _ => cases hrule

/-- Statements are read as the grammar says, whatever bound there is on their nesting. -/
theorem sound_statement (depth : Nat) (around : Surroundings) :
    Sound (statement depth around) (Formed .statement around) := by
  induction depth generalizing around with
  | zero => exact sound_throw _ _
  | succ depth ih =>
      refine sound_ofPeek fun kind => ?_
      split
      · next rule hrule =>
        obtain ⟨kind, rfl, hkind⟩ := Option.bind_eq_some_iff.1 hrule
        exact sound_keyworded (sound_expression _) (fun inner => sound_block (ih inner)) hkind
      · refine (sound_expressionStatement (sound_expression _) around).mono ?_
        exact fun s stmt s' h _ => h

end Parser

/-- A script that is read without adding to the problems is derived from the grammar, all of it. -/
theorem script_of_parseWithin {limit : Nat} {interactive : Bool} {tokens : List Token} {endLine : Int}
    {problems : Diagnostics} {program : Program}
    (h : parseWithin? limit interactive tokens endLine problems = some ⟨program, problems⟩) :
    Grammar.Script interactive tokens program := by
  have hsound := Parser.sound_items false
    (Parser.sound_recover false (Parser.sound_statement limit { interactive })) tokens
  simp only [parseWithin?] at h
  split at h
  · next statements s hitems =>
    simp only [Option.some.injEq, Parsed.mk.injEq] at h
    obtain ⟨rfl, hproblems⟩ := h
    obtain ⟨⟨ts, hreads, hforms⟩, hend⟩ := hsound.of_ok hitems hproblems
    have hrest : s.rest = [] := hend rfl (Nat.le_refl _)
    have htokens : tokens = ts := by simpa [hrest] using hreads.rest
    subst htokens
    rw [hrest] at hforms
    exact hforms
  · cases h

end SafariScript
