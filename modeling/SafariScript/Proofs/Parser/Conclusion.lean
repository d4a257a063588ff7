import SafariScript.Proofs.Parser.StatementContext

/-!
# Where statements end

Outside interactive use a statement ends with a semicolon or a closing brace. Once that token is consumed, nothing
behind it matters any more, so a statement that was read at the end of a part is read in the same way on the whole
(`Closed`), although the part is then used up. The exception is an `if` statement, which looks for `else` behind
its last block.

A statement without blocks has its semicolon last: as long as the tokens hold no opening brace, a statement that
is given up has not consumed a semicolon (`Concludes`).
-/

namespace SafariScript

open Grammar

/-- A token that ends a statement. -/
def TokenKind.endsStatement : TokenKind → Bool
  | .symbol .semicolon | .symbol .rightBrace => true
  | _ => false

/-- An opening brace is among the tokens to come. -/
def ParseState.Braced (s : ParseState) : Prop :=
  ∃ t ∈ s.rest, t.kind = .symbol .leftBrace

theorem ParseState.Moves.braced {spares : Bool} {s s' : ParseState} (h : s.Moves spares s') (hs' : s'.Braced) :
    s.Braced := by
  obtain ⟨ts, hts, -⟩ := h
  obtain ⟨t, ht, hkind⟩ := hs'
  exact ⟨t, by rw [hts]; exact List.mem_append_right ts ht, hkind⟩

/-- What stands behind the part does not go on with an `if` statement. -/
def Context.Elseless (c : Context) : Prop :=
  c.behind.head?.map Token.kind ≠ some (.keyword .elseKw)

namespace Parser

variable {α β : Type} {c : Context} {spares eats : Bool} {around : Surroundings} {s : ParseState}
variable {p : Parser α} {f : α → Parser β} {nested : Parser Expr}

/-- If the parser succeeds, it does the same on the whole. The last token it consumed then ends a statement; unless
`closes` says so, it may also have consumed nothing. -/
def Framed (c : Context) (closes : Bool) (s : ParseState) (p : Parser α) : Prop :=
  ∀ a s', p s = .ok a s' →
    (closes = false ∧ s'.rest = s.rest ∨ ∃ us t, s.rest = us ++ t :: s'.rest ∧ t.kind.endsStatement = true) ∧
    ∀ t, c.Embeds s t → ∃ t', p t = .ok a t' ∧ c.Embeds s' t'

/-- A parser that ends a statement if it succeeds, and that has not consumed a semicolon if it stops, unless there
is a block. -/
structure Concludes (c : Context) (s : ParseState) (p : Parser α) : Prop where
  closed : Framed c true s p
  kept : ¬s.Braced → ∀ e s', p s = .error e s' → s.Moves true s'

/-! ## Sequences -/

/-- Where a statement was closed, there were tokens of the part left. -/
theorem Framed.rest_ne_nil {a : α} {s' : ParseState} (hp : Framed c true s p) (hok : p s = .ok a s') :
    s.rest ≠ [] := by
  rcases (hp a s' hok).1 with ⟨hfalse, -⟩ | ⟨us, t, hus, -⟩
  · cases hfalse
  · simp [hus]

theorem Framed.bind {closes₁ closes₂ : Bool} (hp : Framed c closes₁ s p)
    (hf : ∀ a s₁, p s = .ok a s₁ → Framed c closes₂ s₁ (f a)) :
    Framed c (closes₁ || closes₂) s (p >>= f) := by
  intro b s' hok
  obtain ⟨a, s₁, hps, hfs⟩ := bind_eq_ok.1 hok
  obtain ⟨hends₁, hwhole₁⟩ := hp a s₁ hps
  obtain ⟨hends₂, hwhole₂⟩ := hf a s₁ hps b s' hfs
  refine ⟨?_, fun t ht => ?_⟩
  · rcases hends₂ with ⟨hfalse₂, hrest₂⟩ | ⟨us₂, last₂, hus₂, hlast₂⟩
    · rcases hends₁ with ⟨hfalse₁, hrest₁⟩ | ⟨us₁, last₁, hus₁, hlast₁⟩
      · exact Or.inl ⟨by rw [hfalse₁, hfalse₂]; rfl, hrest₂.trans hrest₁⟩
      · exact Or.inr ⟨us₁, last₁, by rw [hus₁, hrest₂], hlast₁⟩
    · rcases hends₁ with ⟨-, hrest₁⟩ | ⟨us₁, last₁, hus₁, -⟩
      · exact Or.inr ⟨us₂, last₂, by rw [← hrest₁, hus₂], hlast₂⟩
      · exact Or.inr ⟨us₁ ++ last₁ :: us₂, last₂, by rw [hus₁, hus₂]; simp, hlast₂⟩
  · obtain ⟨t₁, ht₁, hembeds₁⟩ := hwhole₁ t ht
    obtain ⟨t₂, ht₂, hembeds₂⟩ := hwhole₂ t₁ hembeds₁
    exact ⟨t₂, by rw [bind_of_ok ht₁, ht₂], hembeds₂⟩

/-- In front of a parser that closes a statement, a parser does not see behind the part. -/
theorem Framed.after (hp : Proceeds c spares 0 eats s p p)
    (hf : ∀ a s₁, p s = .ok a s₁ → Framed c true s₁ (f a)) : Framed c true s (p >>= f) := by
  intro b s' hok
  obtain ⟨a, s₁, hps, hfs⟩ := bind_eq_ok.1 hok
  have hrest := (hf a s₁ hps).rest_ne_nil hfs
  obtain ⟨hends, hwhole⟩ := hf a s₁ hps b s' hfs
  obtain ⟨ts, hts, -⟩ := hp.moves_of_ok hps
  refine ⟨Or.inr ?_, fun t ht => ?_⟩
  · rcases hends with ⟨hfalse, -⟩ | ⟨us, last, hus, hlast⟩
    · cases hfalse
    · exact ⟨ts ++ us, last, by rw [hts, hus, List.append_assoc], hlast⟩
  · obtain ⟨t₁, ht₁, hembeds⟩ := hp.exists_ok hps ht (Or.inl hrest)
    rw [bind_of_ok ht₁]
    exact hwhole t₁ hembeds

theorem Concludes.after (hp : Proceeds c true 0 eats s p p)
    (hf : ∀ a s₁, p s = .ok a s₁ → Concludes c s₁ (f a)) : Concludes c s (p >>= f) := by
  refine ⟨.after hp fun a s₁ hok => (hf a s₁ hok).closed, fun hunbraced e s' herror => ?_⟩
  rcases bind_eq_error.1 herror with hps | ⟨a, s₁, hps, hfs⟩
  · exact hp.moves_of_error hps
  · have hmoves := hp.moves_of_ok hps
    exact hmoves.trans ((hf a s₁ hps).kept (fun hbraced => hunbraced (hmoves.braced hbraced)) e s' hfs)

/-- Behind an opening brace nothing is asked of a parser that stops. -/
theorem Concludes.brace {f : Int → Parser β} (position : String)
    (hf : s.Braced → ∀ line s₁, Framed c true s₁ (f line)) :
    Concludes c s (symbol .leftBrace position >>= f) := by
  have hsymbol : Proceeds c true 0 true s (symbol .leftBrace position) (symbol .leftBrace position) :=
    regular_symbol (by decide) position s
  have hbraced {line : Int} {s₁ : ParseState} (hok : symbol .leftBrace position s = .ok line s₁) : s.Braced := by
    cases hs : s.sees (.symbol .leftBrace) with
    | true =>
        obtain ⟨l, rest, hrest⟩ := ParseState.sees_eq_true_iff.1 hs
        exact ⟨_, by rw [hrest]; exact List.mem_cons_self, rfl⟩
    | false =>
        simp only [symbol, expect, bind_apply, sees_apply, hs] at hok
        cases hok
  refine ⟨.after hsymbol fun line s₁ hok => hf (hbraced hok) line s₁, fun hunbraced e s' herror => ?_⟩
  rcases bind_eq_error.1 herror with hstop | ⟨line, s₁, hok, -⟩
  · exact hsymbol.moves_of_error hstop
  · exact absurd (hbraced hok) hunbraced

/-- A step that does not stop. -/
def Idle (p : Parser α) : Prop :=
  ∀ s, ∃ a s', p s = .ok a s'

theorem framed_pure (a : α) (s : ParseState) : Framed c false s (pure a) := by
  intro b s' hok
  cases hok
  exact ⟨Or.inl ⟨rfl, rfl⟩, fun t ht => ⟨t, rfl, ht⟩⟩

/-- A parser that ends a statement may be followed by steps that consume nothing and do not stop. -/
theorem Concludes.bind (hp : Concludes c s p) (hf : ∀ a s₁, Framed c false s₁ (f a))
    (hidle : ∀ a, Idle (f a)) : Concludes c s (p >>= f) := by
  refine ⟨hp.closed.bind fun a s₁ _ => hf a s₁, fun hunbraced e s' herror => ?_⟩
  rcases bind_eq_error.1 herror with hps | ⟨a, s₁, -, hfs⟩
  · exact hp.kept hunbraced e s' hps
  · obtain ⟨b, s₂, hb⟩ := hidle a s₁
    cases hfs.symm.trans hb

theorem idle_pure (a : α) : Idle (pure a) :=
  fun s => ⟨a, s, rfl⟩

/-- A choice by the kind of the next token. -/
theorem Concludes.ofPeek {f : Option TokenKind → Parser α}
    (h : Concludes c s (f (s.rest.head?.map Token.kind))) : Concludes c s (peek? >>= f) := by
  refine ⟨fun a s' hok => ⟨(h.closed a s' hok).1, fun t ht => ?_⟩, fun hunbraced e s' => h.kept hunbraced e s'⟩
  have hrest := h.closed.rest_ne_nil hok
  rw [bind_apply, peek_apply, ht.head_eq (Or.inl hrest)]
  exact (h.closed a s' hok).2 t ht

/-- A choice whose branches both close a statement. -/
theorem Framed.ifAccept {kind : TokenKind} {yes no : Parser α} (hyes : ∀ s₁, Framed c true s₁ yes)
    (hno : Framed c true s no) : Framed c true s (do if ← accept kind then yes else no) := by
  intro a s' hok
  cases hsees : s.sees kind with
  | true =>
      obtain ⟨line, rest, hrest⟩ := ParseState.sees_eq_true_iff.1 hsees
      have hadvance : Proceeds c false 0 true s advance advance := proceeds_advance hrest nofun
      have hboth : Framed c true s (advance >>= fun _ => yes) := .after hadvance fun _ s₁ _ => hyes s₁
      rw [ifAccept_of_sees hsees] at hok
      refine ⟨(hboth a s' hok).1, fun t ht => ?_⟩
      rw [ifAccept_of_sees (by rw [ht.sees_eq (Or.inl (hboth.rest_ne_nil hok)), hsees])]
      exact (hboth a s' hok).2 t ht
  | false =>
      rw [ifAccept_of_not_sees hsees] at hok
      refine ⟨(hno a s' hok).1, fun t ht => ?_⟩
      rw [ifAccept_of_not_sees (by rw [ht.sees_eq (Or.inl (hno.rest_ne_nil hok)), hsees])]
      exact (hno a s' hok).2 t ht

/-! ## Semicolons and blocks -/

/-- A token that ends a statement is consumed in the same way on the whole. -/
theorem framed_expect {kind : TokenKind} (hkind : kind.endsStatement = true) (position : String)
    (s : ParseState) : Framed c true s (expect kind position) := by
  intro a s' hok
  cases hs : s.sees kind with
  | false =>
      simp only [expect, bind_apply, sees_apply, hs] at hok
      cases hok
  | true =>
      obtain ⟨line, rest, hrest⟩ := ParseState.sees_eq_true_iff.1 hs
      have hreads : s.Reads [⟨kind, line⟩] s.advance := .of_rest hrest
      rw [expect_reads position hreads] at hok
      cases hok
      refine ⟨Or.inr ⟨[], ⟨kind, a⟩, hreads.rest, hkind⟩, fun t ht => ⟨t.advance, ?_, (ht.advance hrest).1⟩⟩
      have hrest' : t.rest = ⟨kind, a⟩ :: (rest ++ c.behind) := by
        rw [ht.rest, hrest]
        rfl
      exact expect_reads position (.of_rest hrest')

/-- In a file, what ends a simple statement is nothing but its semicolon. -/
theorem terminate_eq_expect (hfile : around.interactive = false) (position : String) :
    terminate around position = expect (.symbol .semicolon) position >>= fun _ => pure () := by
  funext s
  cases hs : s.sees (.symbol .semicolon) with
  | true =>
      obtain ⟨line, rest, hrest⟩ := ParseState.sees_eq_true_iff.1 hs
      have hreads : s.Reads [.symbol .semicolon line] s.advance := .of_rest hrest
      simp only [terminate, bind_apply, accept_reads hreads, expect_reads position hreads, if_true]
  | false =>
      simp only [terminate, bind_apply, accept_of_not_sees hs, expect, sees_apply, hs, hfile, get_apply,
        Bool.false_and, Bool.false_eq_true, if_false]
      rfl

theorem concludes_terminate (hfile : around.interactive = false) (position : String) (s : ParseState) :
    Concludes c s (terminate around position) := by
  rw [terminate_eq_expect hfile]
  refine Concludes.bind ⟨framed_expect rfl position s, fun _ e s' herror => ?_⟩ (fun _ => framed_pure ())
    fun _ => idle_pure ()
  cases hs : s.sees (.symbol .semicolon) with
  | true =>
      obtain ⟨line, rest, hrest⟩ := ParseState.sees_eq_true_iff.1 hs
      rw [expect_reads position (.of_rest hrest)] at herror
      cases herror
  | false =>
      simp only [expect, bind_apply, sees_apply, hs] at herror
      cases herror
      exact .refl s

theorem framed_block {item : Parser Stmt} (hitem : Regular c false 0 true item item) (s : ParseState) :
    Framed c true s (block item) := by
  have hitems : Proceeds c false 0 false s (do items true (recover true item) (← remaining))
      (do items true (recover true item) (← remaining)) :=
    .ofRemaining <| proceeds_items true (fun s hs _ => proceeds_recover true (hitem s) hs) s.rest
      (s.rest ++ c.behind) s (Nat.le_refl _) (Nat.le_of_eq List.length_append.symm) (Nat.le_refl _)
  have hblock : block item = (do items true (recover true item) (← remaining)) >>= fun body =>
      symbol .rightBrace "after block" >>= fun _ => pure body := by
    rw [bind_assoc]
    rfl
  rw [hblock]
  exact .after hitems fun body s₁ _ => (framed_expect rfl _ s₁).bind fun _ s₂ _ => framed_pure body s₂

/-! ## Chains of conditions -/

section Chain

variable {body : Parser (List Stmt)}

/-- An `if` statement that ends with the part also ends there on the whole. -/
theorem framed_elseBranch {chain : Parser (Expr × List Stmt × Otherwise)} (helse : c.Elseless)
    (hchain : ∀ s, Framed c true s chain) (hbody : ∀ s, Framed c true s body) (s : ParseState) :
    Framed c false s (elseBranch chain body) := by
  have helseBody (s : ParseState) : Framed c true s (elseBody chain body) := by
    refine .ifAccept (fun s₁ => (hchain s₁).bind fun _ s₂ _ => framed_pure _ s₂) ?_
    refine .after (regular_symbol (by decide) _ s : Proceeds c false 0 true s _ _) fun _ s₁ _ => ?_
    exact (hbody s₁).bind fun _ s₂ _ => framed_pure _ s₂
  intro otherwise s' hok
  cases hsees : s.sees (.keyword .elseKw) with
  | true =>
      obtain ⟨line, rest, hrest⟩ := ParseState.sees_eq_true_iff.1 hsees
      have hadvance : Proceeds c false 0 true s advance advance := proceeds_advance hrest nofun
      have hboth : Framed c true s (advance >>= fun _ => elseBody chain body) :=
        .after hadvance fun _ s₁ _ => helseBody s₁
      unfold elseBranch at hok ⊢
      rw [ifAccept_of_sees hsees] at hok
      obtain ⟨hends, hwhole⟩ := hboth otherwise s' hok
      refine ⟨hends.imp (fun ⟨hfalse, _⟩ => nomatch hfalse) id, fun t ht => ?_⟩
      rw [ifAccept_of_sees (by rw [ht.sees_eq (Or.inl (hboth.rest_ne_nil hok)), hsees])]
      exact hwhole t ht
  | false =>
      unfold elseBranch at hok ⊢
      rw [ifAccept_of_not_sees hsees] at hok
      cases hok
      refine ⟨Or.inl ⟨rfl, rfl⟩, fun t ht => ⟨t, ?_, ht⟩⟩
      have hsees' : t.sees (.keyword .elseKw) = false := by
        by_cases hs : s.rest = []
        · rw [ParseState.sees_eq_false_iff, ht.rest, hs]
          exact helse
        · rw [ht.sees_eq (Or.inl hs), hsees]
      rw [ifAccept_of_not_sees hsees']
      rfl

theorem framed_link {bound : Nat} (helse : c.Elseless) (hbody : ∀ s, Framed c true s body)
    (hchain : ∀ s, Framed c true s (conditional nested body bound)) (value : Expr) (s : ParseState) :
    Framed c true s (body >>= fun first => elseBranch (conditional nested body bound) body >>= fun otherwise =>
      pure (value, first, otherwise)) :=
  (hbody s).bind fun _ s₁ _ => (framed_elseBranch helse hchain hbody s₁).bind fun _ s₂ _ => framed_pure _ s₂

theorem framed_conditional (helse : c.Elseless) (hnested : Regular c false 0 true nested nested)
    (hbody : ∀ s, Framed c true s body) (bound : Nat) (s : ParseState) :
    Framed c true s (conditional nested body bound) := by
  induction bound generalizing s with
  | zero => exact fun a s' hok => nomatch hok
  | succ bound ih =>
      refine .after (regular_condition hnested "if" s) fun value s₁ _ => ?_
      refine .after (regular_symbol (by decide) _ s₁ : Proceeds c false 0 true s₁ _ _) fun _ s₂ _ => ?_
      exact framed_link helse hbody ih value s₂

theorem concludes_conditional (hnested : Regular c true 0 true nested nested)
    (hnested' : Regular c false 0 true nested nested) (hbody : ∀ s, Framed c true s body) (bound : Nat)
    (helse : s.Braced → c.Elseless) : Concludes c s (conditional nested body bound) := by
  cases bound with
  | zero =>
      refine ⟨fun a s' hok => (nomatch hok), fun _ e s' herror => ?_⟩
      cases herror
      exact .refl s
  | succ bound =>
      have hcondition := regular_condition hnested "if" s
      refine .after hcondition fun value s₁ hok => .brace _ fun hbraced _ s₂ => ?_
      have helseless := helse ((hcondition.moves_of_ok hok).braced hbraced)
      exact framed_link helseless hbody (framed_conditional helseless hnested' hbody bound) value s₂

end Chain

/-! ## Statements -/

theorem concludes_lone (hfile : around.interactive = false) (word : Word) (allowed : Bool)
    (complaint : Complaint) (stmt : Stmt) (s : ParseState) :
    Concludes c s (lone around word allowed complaint stmt) := by
  refine (concludes_terminate hfile _ s).bind (fun _ s₁ => ?_) fun _ s₁ => ?_
  · cases allowed with
    | true => exact framed_pure stmt s₁
    | false =>
        intro a s' hok
        cases hok
        refine ⟨Or.inl ⟨rfl, rfl⟩, fun t ht => ⟨_, rfl, ht.rest, ht.endLine, ?_, ht.lastLine⟩⟩
        show t.problems ++ [_] = c.earlier ++ (s₁.problems ++ [_])
        rw [ht.problems, List.append_assoc]
  · cases allowed with
    | true => exact ⟨stmt, s₁, rfl⟩
    | false => exact ⟨stmt, _, rfl⟩

theorem concludes_keyworded {bound : Nat} {body : Surroundings → Parser (List Stmt)}
    (hfile : around.interactive = false) (hnested : ∀ spares, Regular c spares 0 true nested nested)
    (hbody : ∀ inner, inner.inBlock = true → ∀ s, Framed c true s (body inner)) {kind : TokenKind}
    {rule : Parser Stmt} (hrule : keyworded around bound nested body kind = some rule)
    (hs : s.rest.head?.map Token.kind = some kind) (helse : s.Braced → c.Elseless) : Concludes c s rule := by
  have hadvance : Proceeds c true 0 true s advance advance := by
    refine proceeds_advance_of_kind hs fun _ => ?_
    rintro rfl
    simp [keyworded] at hrule
  have hfirst {f : Int → Parser Stmt} (hf : ∀ line s₁, s.Moves true s₁ → Concludes c s₁ (f line)) :
      Concludes c s (advance >>= f) :=
    .after hadvance fun line s₁ hok => hf line s₁ (hadvance.moves_of_ok hok)
  have hinside (inner : Surroundings) (hinner : inner.inBlock = true) (next : List Stmt → Stmt) (s₁ : ParseState) :
      Framed c true s₁ (body inner >>= fun b => pure (next b)) :=
    (hbody inner hinner s₁).bind fun _ s₂ _ => framed_pure _ s₂
  have hend {position : String} {stmt : Stmt} (s₁ : ParseState) :
      Concludes c s₁ (terminate around position >>= fun _ => pure stmt) :=
    (concludes_terminate hfile position s₁).bind (fun _ => framed_pure _) fun _ => idle_pure _
  cases kind with
  | keyword keyword =>
      cases keyword
      case elseKw | inKw | toKw | safariZoneKw | teamKw | trueKw | falseKw | nullKw => cases hrule
      all_goals rw [← Option.some.inj hrule]
      all_goals refine hfirst fun line s₁ hmoves => ?_
      case varKw =>
        exact .after (regular_name _ s₁) fun _ s₂ _ =>
          .after (regular_optionalAfter (by decide) (hnested true) s₂) fun _ s₃ _ => hend s₃
      case defineKw =>
        simp only [signature, bind_assoc, pure_bind]
        exact .after (regular_name _ s₁) fun _ s₂ _ => .after (regular_symbol (by decide) _ s₂) fun _ s₃ _ =>
          .after (regular_listBefore _ (regular_name _) s₃) fun _ s₄ _ =>
            .after (regular_symbol (by decide) _ s₄) fun _ s₅ _ => .brace _ fun _ _ s₆ =>
              hinside around.function rfl _ s₆
      case printKw =>
        exact .after (regular_symbol (by decide) _ s₁) fun _ s₂ _ => .after (hnested true s₂) fun _ s₃ _ =>
          .after (regular_symbol (by decide) _ s₃) fun _ s₄ _ => hend s₄
      case ifKw =>
        refine Concludes.bind (concludes_conditional (hnested true) (hnested false) (hbody around.control rfl) bound
          fun hbraced => helse (hmoves.braced hbraced)) (fun _ => framed_pure _) fun _ => idle_pure _
      case whileKw =>
        exact .after (regular_condition (hnested true) "while" s₁) fun _ s₂ _ => .brace _ fun _ _ s₃ =>
          hinside around.loop rfl _ s₃
      case forKw =>
        simp only [iteration, bind_assoc, pure_bind]
        exact .after (regular_name _ s₁) fun _ s₂ _ => .after (regular_expect (by decide) _ s₂) fun _ s₃ _ =>
          .after (hnested true s₃) fun _ s₄ _ =>
            .after (regular_optionalAfter (by decide) (hnested true) s₄) fun _ s₅ _ => .brace _ fun _ _ s₆ =>
              hinside around.loop rfl _ s₆
      case breakKw | continueKw | runKw => exact concludes_lone hfile _ _ _ _ s₁
      case returnKw => exact .after (regular_returnValue (hnested true) s₁) fun _ s₂ _ => hend s₂
      case exploreKw =>
        simp only [exploration, bind_assoc, pure_bind]
        exact .after (regular_symbol (by decide) _ s₁) fun _ s₂ _ => .after (regular_name _ s₂) fun _ s₃ _ =>
          .after (regular_symbol (by decide) _ s₃) fun _ s₄ _ => .brace _ fun _ _ s₅ =>
            hinside around.loop rfl _ s₅
      case throwBallKw =>
        exact .after (regular_symbol (by decide) _ s₁) fun _ s₂ _ => .after (hnested true s₂) fun _ s₃ _ =>
          .after (regular_symbol (by decide) _ s₃) fun _ s₄ _ => hend s₄
  | symbol symbol =>
      cases symbol
      case leftBrace =>
        cases hrule
        have hbraced : s.Braced := by
          obtain ⟨t, ht, hkind⟩ := Option.map_eq_some_iff.1 hs
          exact ⟨t, List.mem_of_mem_head? ht, hkind⟩
        exact ⟨.after hadvance fun _ s₁ _ => hinside around.block rfl _ s₁, fun hunbraced => absurd hbraced hunbraced⟩
      all_goals cases hrule
  | _ => cases hrule

/-- Outside interactive use a statement ends with a semicolon or a closing brace, whatever stands behind it but
`else`. -/
theorem concludes_statement (hfile : around.interactive = false) (helse : s.Braced → c.Elseless) (depth : Nat) :
    Concludes c s (statement depth around) := by
  cases depth with
  | zero =>
      refine ⟨fun a s' hok => (nomatch hok), fun _ e s' herror => ?_⟩
      cases herror
      exact .refl s
  | succ depth =>
      have hnested (spares : Bool) :
          Regular c spares 0 true (expression (statementFrames * depth / expressionFrames))
            (expression (statementFrames * depth / expressionFrames)) :=
        (regular_expression (Nat.le_refl _)).weaken (Nat.zero_le _)
      have hbody (inner : Surroundings) (hinner : inner.inBlock = true) (s : ParseState) :
          Framed c true s (block (statement depth inner)) := by
        refine framed_block (fun s => ?_) s
        exact proceeds_statement (Nat.zero_le _) (Nat.le_refl depth) (Context.lined_of_inBlock hinner _)
      have hexpression : Concludes c s (expressionStatement around
          (expression (statementFrames * depth / expressionFrames))) :=
        .after (hnested true s) fun _ s₁ _ =>
          (concludes_terminate hfile _ s₁).bind (fun _ => framed_pure _) fun _ => idle_pure _
      refine .ofPeek ?_
      cases hhead : s.rest.head?.map Token.kind with
      | none => exact hexpression
      | some kind =>
          simp only [Option.bind_some]
          split
          · next rule hrule => exact concludes_keyworded hfile hnested hbody hrule hhead helse
          · exact hexpression

/-! ## Scripts one after the other -/

/-- A turn of the loop over the statements of a script, and then the other turns. -/
theorem script_turn_eq_ok {limit : Nat} {interactive : Bool} {s' : ParseState} {body : List Stmt}
    (hs : s.rest ≠ []) (u : Token) (fuel : List Token) :
    script limit interactive (u :: fuel) s = .ok body s' ↔ ∃ first s₁ others,
      recover false (statement limit { interactive }) s = .ok first s₁ ∧
        script limit interactive fuel s₁ = .ok others s' ∧ body = first.toList ++ others := by
  have hturn : script limit interactive (u :: fuel) s =
      (recover false (statement limit { interactive }) >>= fun first => script limit interactive fuel >>=
        fun others => pure (first.toList ++ others)) s := by
    obtain ⟨first, rest, hrest⟩ := List.exists_cons_of_ne_nil hs
    simp only [script, items, bind_apply, peek_apply, hrest, List.head?_cons, Option.map_some, Bool.false_and,
      Bool.false_eq_true, if_false]
  rw [hturn]
  constructor
  · intro h
    obtain ⟨first, s₁, hfirst, hnext⟩ := bind_eq_ok.1 h
    obtain ⟨others, s₂, hothers, hdone⟩ := bind_eq_ok.1 hnext
    cases hdone
    exact ⟨first, s₁, others, hfirst, hothers, rfl⟩
  · rintro ⟨first, s₁, others, hfirst, hothers, rfl⟩
    rw [bind_of_ok hfirst, bind_of_ok hothers]
    rfl

/-- Whatever was recorded before it, a script in a file is read as by itself. -/
theorem script_behind {limit : Nat} {s s' t : ParseState} {body : List Stmt} {fuel : List Token}
    (h : script limit false s.rest s = .ok body s') (hrest : t.rest = s.rest) (hend : t.endLine = s.endLine)
    (hproblems : s.problems = []) (hfuel : s.rest.length ≤ fuel.length) :
    ∃ t', script limit false fuel t = .ok body t' ∧ t'.problems = t.problems ++ s'.problems := by
  have hproceeds : Proceeds ⟨[], s.endLine, t.problems, 0⟩ false 0 false s (script limit false s.rest)
      (script limit false fuel) :=
    proceeds_script (Nat.zero_le _) (Nat.le_refl limit) s.rest fuel s (Nat.le_refl _) hfuel nofun
  obtain ⟨-, -, -, hend', -⟩ := hproceeds.moves_of_ok h
  obtain ⟨t', ht', hembeds⟩ := hproceeds.exists_ok h (t := t) ⟨by rw [hrest]; exact (List.append_nil _).symm, hend,
    by rw [hproblems]; exact (List.append_nil _).symm, nofun⟩ (Or.inr ⟨rfl, hend'.symm⟩)
  exact ⟨t', ht', hembeds.problems⟩

/-- If every turn on a part does the same on the whole, the statements of the part come first, and what stands
behind it is read as by itself. The predicate holds of the states in which turns begin. -/
theorem script_append {limit : Nat} {P : ParseState → Prop}
    (hturn : ∀ s first s₁, P s → s.rest ≠ [] → recover false (statement limit { interactive := false }) s =
      .ok first s₁ → s₁.rest.length < s.rest.length ∧ P s₁ ∧
        ∀ t, c.Embeds s t → ∃ t₁, recover false (statement limit { interactive := false }) t = .ok first t₁ ∧
          c.Embeds s₁ t₁)
    {last : ParseState} {others : List Stmt} {line : Int}
    (hbehind : script limit false c.behind ⟨c.behind, c.endLine, line, []⟩ = .ok others last)
    (fuel fuel' : List Token) {s s' t : ParseState} {body : List Stmt} (hs : P s)
    (h : script limit false fuel s = .ok body s') (hfuel : s.rest.length ≤ fuel.length)
    (hfuel' : s.rest.length + c.behind.length ≤ fuel'.length) (ht : c.Embeds s t) :
    ∃ t', script limit false fuel' t = .ok (body ++ others) t' ∧
      t'.problems = c.earlier ++ (s'.problems ++ last.problems) := by
  -- where the part ends, what stands behind it begins
  have hdone (s t : ParseState) (fuel' : List Token) (hs : s.rest = []) (ht : c.Embeds s t)
      (hfuel' : s.rest.length + c.behind.length ≤ fuel'.length) :
      ∃ t', script limit false fuel' t = .ok ([] ++ others) t' ∧
        t'.problems = c.earlier ++ (s.problems ++ last.problems) := by
    rw [hs, List.length_nil, Nat.zero_add] at hfuel'
    have hrest : t.rest = c.behind := by
      rw [ht.rest, hs]
      rfl
    obtain ⟨t', ht', hproblems⟩ :=
      script_behind (s := ⟨c.behind, c.endLine, line, []⟩) hbehind hrest ht.endLine rfl hfuel'
    exact ⟨t', ht', by rw [hproblems, ht.problems, List.append_assoc]⟩
  induction fuel generalizing fuel' s t body with
  | nil =>
      obtain ⟨rfl, rfl⟩ := EStateM.Result.ok.inj h
      exact hdone _ t fuel' (List.length_eq_zero_iff.1 (Nat.le_zero.1 hfuel)) ht hfuel'
  | cons u fuel ih =>
      by_cases hrest : s.rest = []
      · obtain ⟨rfl, rfl⟩ := EStateM.Result.ok.inj ((items_of_nil false hrest _).symm.trans h)
        exact hdone _ t fuel' hrest ht hfuel'
      · have hpos : 0 < s.rest.length := List.length_pos_iff.2 hrest
        rw [List.length_cons] at hfuel
        obtain ⟨first, s₁, others₁, hfirst, hothers, rfl⟩ := (script_turn_eq_ok hrest u fuel).1 h
        obtain ⟨hlength, hs₁, hwhole⟩ := hturn s first s₁ hs hrest hfirst
        obtain ⟨t₁, ht₁, hembeds⟩ := hwhole t ht
        cases fuel' with
        | nil =>
            rw [List.length_nil] at hfuel'
            omega
        | cons u' fuel' =>
            rw [List.length_cons] at hfuel'
            obtain ⟨t', ht', hproblems⟩ := ih fuel' hs₁ hothers (by omega) (by omega) hembeds
            refine ⟨t', ?_, hproblems⟩
            have hrest' : t.rest ≠ [] := by
              rw [ht.rest]
              exact List.append_ne_nil_of_left_ne_nil hrest _
            exact (script_turn_eq_ok hrest' u' fuel').2
              ⟨first, t₁, others₁ ++ others, ht₁, ht', List.append_assoc _ _ _⟩

end Parser
end SafariScript
