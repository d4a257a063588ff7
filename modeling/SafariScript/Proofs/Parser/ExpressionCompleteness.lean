import SafariScript.Proofs.Parser.ExpressionSoundness

/-!
# Expressions of the grammar are read

Every rule of the expression parser is complete: on tokens derived from the rule of the grammar, followed by
tokens that cannot continue them, it succeeds with the tree of the derivation and stops where the derivation
ends. The bounds on the nesting only have to exceed the number of tokens. What cannot continue an expression
is said by `EndsTier`, for operands of one tier, and by `EndsExpression`.
-/

namespace SafariScript
namespace Grammar

/-- The kinds of token that a suffix starts with. -/
def startsSuffix : TokenKind → Bool
  | .symbol .leftParen | .symbol .dot | .symbol .arrow | .symbol .leftBracket => true
  | _ => false

/-- No suffix and no operator of a tier below the bound comes next. -/
def EndsTier (bound : Nat) (rest : List Token) : Prop :=
  ∀ t ∈ rest.head?, startsSuffix t.kind = false ∧ ∀ op : BinaryOp, t.kind = .symbol op.symbol → bound ≤ op.rank

/-- No suffix, no operator and no equals sign comes next. -/
def EndsExpression (rest : List Token) : Prop :=
  EndsTier 6 rest ∧ rest.head?.map Token.kind ≠ some (.symbol .equal)

theorem EndsTier.mono {bound lower : Nat} {rest : List Token} (h : EndsTier bound rest)
    (hle : lower ≤ bound) : EndsTier lower rest := by
  intro t ht
  obtain ⟨hsuffix, hop⟩ := h t ht
  exact ⟨hsuffix, fun op hkind => Nat.le_trans hle (hop op hkind)⟩

theorem EndsTier.not_startsSuffix {bound : Nat} {s : ParseState} (h : EndsTier bound s.rest)
    {kind : TokenKind} (hkind : startsSuffix kind = true) : s.sees kind = false := by
  rw [ParseState.sees_eq_false_iff]
  intro hsome
  obtain ⟨t, ht, rfl⟩ := Option.map_eq_some_iff.1 hsome
  rw [(h t ht).1] at hkind
  cases hkind

/-- A token that neither starts a suffix nor spells an operator between operands. -/
theorem endsTier_cons {bound : Nat} {t : Token} {rest : List Token}
    (hsuffix : startsSuffix t.kind = false) (hop : BinaryOp.ofKind? t.kind = none) :
    EndsTier bound (t :: rest) := by
  intro u hu
  obtain rfl : t = u := by simpa using hu
  refine ⟨hsuffix, fun op hkind => ?_⟩
  rw [Parser.binaryOp_ofKind_eq_some.2 hkind] at hop
  cases hop

/-- An operator ends the operands of the tiers below its own. -/
theorem endsTier_operator (op : BinaryOp) (line : Int) (rest : List Token) :
    EndsTier op.rank (.symbol op.symbol line :: rest) := by
  intro t ht
  obtain rfl : Token.symbol op.symbol line = t := by simpa using ht
  refine ⟨?_, fun op' hkind => ?_⟩
  · cases op with
    | int op => cases op <;> rfl
    | _ => rfl
  · have hsome := Parser.binaryOp_ofKind_eq_some.2 hkind
    rw [Parser.binaryOp_ofKind_eq_some.2 rfl] at hsome
    cases hsome
    exact Nat.le_refl _

/-- The kinds of token that may stand behind an expression. -/
def closesExpression (kind : TokenKind) : Bool :=
  !startsSuffix kind && (BinaryOp.ofKind? kind).isNone && kind != .symbol .equal

theorem endsExpression_cons {t : Token} {rest : List Token} (h : closesExpression t.kind = true) :
    EndsExpression (t :: rest) := by
  simp only [closesExpression, Bool.and_eq_true, Bool.not_eq_true', Option.isNone_iff_eq_none,
    bne_iff_ne] at h
  obtain ⟨⟨hsuffix, hop⟩, hequal⟩ := h
  exact ⟨endsTier_cons hsuffix hop, by simpa using hequal⟩

theorem EndsExpression.sees_equal {s : ParseState} (h : EndsExpression s.rest) :
    s.sees (.symbol .equal) = false :=
  ParseState.sees_eq_false_iff.2 h.2

/-- A list of arguments is a list of single arguments with commas between them. -/
theorem Derives.separated_arguments {ts : List Token} {items : List (Expr ⊕ NamedArg)} :
    Derives .someArguments ts items → Separated (Derives .argument) ts items
  | .lastArgument last => .last last
  | .nextArgument l first others => .next l first others.separated_arguments

theorem Derives.separated_elements {ts : List Token} {es : List Expr} :
    Derives .someElements ts es → Separated (Derives .assignment) ts es
  | .lastElement last => .last last
  | .nextElement l first others => .next l first others.separated_elements

end Grammar

namespace Parser

open Grammar

variable {α : Type}

/-- A parser that gives the right result on every item of at most `size` tokens, in front of tokens that may
follow the item. -/
def Complete (p : Parser α) (Item : List Token → α → Prop) (size : Nat) (Follow : List Token → Prop) :
    Prop :=
  ∀ ⦃ts : List Token⦄ ⦃a : α⦄ ⦃s s' : ParseState⦄, Item ts a → ts.length ≤ size → s.Reads ts s' →
    Follow s'.rest → p s = .ok a s'

/-! ## Lists -/

/-- The first item of a list, and then the loop over the others, which has the tokens for it. -/
theorem separated_steps {item : Parser α} {Item : List Token → α → Prop} {size : Nat}
    (hitem : Complete item Item size EndsExpression) {ts : List Token} {as : List α}
    (hlist : Separated Item ts as) {s s' : ParseState} (hsize : ts.length ≤ size) (hreads : s.Reads ts s')
    (hfollow : EndsExpression s'.rest) (hcomma : s'.sees (.symbol .comma) = false) :
    ∃ a others s₁, as = a :: others ∧ item s = .ok a s₁ ∧ s₁.rest.length ≤ s.rest.length ∧
      ∀ fuel : List Token, s₁.rest.length ≤ fuel.length → separatedRest item fuel s₁ = .ok others s' := by
  induction hlist generalizing s with
  | last last =>
      have hlength := hreads.length_eq
      refine ⟨_, [], s', rfl, hitem last hsize hreads hfollow, by omega, fun fuel _ => ?_⟩
      cases fuel with
      | nil => rfl
      | cons t fuel =>
          simp only [separatedRest, bind_apply, accept_of_not_sees hcomma]
          rfl
  | next l first _ ih =>
      obtain ⟨s₁, hfirst, hrest⟩ := hreads.split
      obtain ⟨s₂, hsep, hothers⟩ := hrest.uncons
      simp only [List.length_append, List.length_cons] at hsize
      obtain ⟨b, others, s₃, rfl, hsecond, hless, hloop⟩ := ih (by omega) hothers
      have hlength₁ := hfirst.length_eq
      have hlength₂ := hsep.length_eq
      -- behind the first item stands the comma
      have hfollow₁ : EndsExpression s₁.rest := by
        rw [hsep.rest]
        exact endsExpression_cons rfl
      refine ⟨_, b :: others, s₁, rfl, hitem first (by omega) hfirst hfollow₁, by omega,
        fun fuel hfuel => ?_⟩
      simp only [List.length_singleton] at hlength₂
      cases fuel with
      | nil =>
          simp only [List.length_nil] at hfuel
          omega
      | cons t fuel =>
          have hfuel' : s₃.rest.length ≤ fuel.length := by
            simp only [List.length_cons] at hfuel
            omega
          simp only [separatedRest, bind_apply, accept_reads hsep, if_true, hsecond, hloop fuel hfuel']
          rfl

/-- A list in front of the symbol that closes it. -/
theorem listBefore_reads {item : Parser α} {Item : List Token → α → Prop} {size : Nat}
    (hitem : Complete item Item size EndsExpression)
    (hhead : ∀ {ts a}, Item ts a → ∃ t us, ts = t :: us ∧ startsExpression t.kind = true)
    {close : Symbol} (hclose : close = .rightParen ∨ close = .rightBracket) {ts : List Token} {as : List α}
    (hlist : Separated Item ts as ∨ ts = [] ∧ as = []) {s s' : ParseState} (hsize : ts.length ≤ size)
    (hreads : s.Reads ts s') (hsees : s'.sees (.symbol close) = true) :
    listBefore close item s = .ok as s' := by
  obtain ⟨line, rest, hrest⟩ := ParseState.sees_eq_true_iff.1 hsees
  rcases hlist with hlist | ⟨rfl, rfl⟩
  · have hfollow : EndsExpression s'.rest := by
      rw [hrest]
      rcases hclose with rfl | rfl <;> exact endsExpression_cons rfl
    have hcomma : s'.sees (.symbol .comma) = false := by
      rcases hclose with rfl | rfl <;> simp [ParseState.sees, hrest]
    have hfirst : s.sees (.symbol close) = false := by
      obtain ⟨t, us, rfl, ht⟩ : ∃ t us, ts = t :: us ∧ startsExpression t.kind = true := by
        cases hlist with
        | last last => exact hhead last
        | next l first _ =>
            obtain ⟨t, us, rfl, ht⟩ := hhead first
            exact ⟨t, _, rfl, ht⟩
      rw [hreads.sees_eq, beq_eq_false_iff_ne]
      intro hkind
      rcases hclose with rfl | rfl <;> simp [hkind, startsExpression] at ht
    obtain ⟨a, others, s₁, rfl, hitem, -, hloop⟩ := separated_steps hitem hlist hsize hreads hfollow hcomma
    simp only [listBefore, separated, bind_apply, sees_apply, hfirst, Bool.false_eq_true, if_false, hitem,
      remaining_apply, hloop s₁.rest (Nat.le_refl _)]
    rfl
  · obtain rfl := hreads.eq_of_nil
    simp only [listBefore, bind_apply, sees_apply, hsees, if_true]
    rfl

theorem startsNamed_eq_true_iff {ts : List Token} :
    startsNamed ts = true ↔ ∃ name l us, ts = .name name :: .symbol .equal l :: us := by
  unfold startsNamed
  constructor
  · intro h
    split at h
    · next text line l us => exact ⟨⟨text, line⟩, l, us, rfl⟩
    · cases h
  · rintro ⟨name, l, us, rfl⟩
    rfl

theorem startsNamed_append {ts rest : List Token} (h : startsNamed ts = false) (hts : ts ≠ [])
    (hrest : EndsExpression rest) : startsNamed (ts ++ rest) = false := by
  rw [← Bool.not_eq_true, startsNamed_eq_true_iff] at h ⊢
  rintro ⟨name, l, us, heq⟩
  -- the equals sign could be the first token behind, or the second of the argument itself
  rcases ts with _ | ⟨t, _ | ⟨u, ts⟩⟩
  · exact hts rfl
  · obtain ⟨-, rfl⟩ : t = .name name ∧ rest = .symbol .equal l :: us := by simpa using heq
    exact hrest.2 rfl
  · obtain ⟨rfl, rfl, -⟩ : t = .name name ∧ u = .symbol .equal l ∧ ts ++ rest = us := by simpa using heq
    exact h ⟨name, l, ts, rfl⟩

theorem argument_of_not_startsNamed {nested : Parser Expr} {s : ParseState}
    (h : startsNamed s.rest = false) : argument nested s = (Sum.inl <$> nested) s := by
  obtain ⟨choose, hchoose, hbranch⟩ : ∃ choose : List Token → Parser (Expr ⊕ NamedArg),
      argument nested = remaining >>= choose ∧
        ∀ rest, startsNamed rest = false → choose rest = do return .inl (← nested) := by
    refine ⟨_, rfl, fun rest hrest => ?_⟩
    split
    · simp [startsNamed] at hrest
    · rfl
  rw [hchoose, bind_apply, remaining_apply, map_apply]
  simp only [hbranch s.rest h, bind_apply]
  rfl

theorem complete_argument {nested : Parser Expr} {size : Nat}
    (hnested : Complete nested (Derives .assignment) size EndsExpression) :
    Complete (argument nested) (Derives .argument) size EndsExpression := by
  intro ts item s s' hitem hsize hreads hfollow
  cases hitem with
  | byPosition hunnamed inner =>
      obtain ⟨t, us, hts, -⟩ := inner.exists_head rfl
      have hunnamed' : startsNamed s.rest = false := by
        rw [hreads.rest]
        exact startsNamed_append hunnamed (by simp [hts]) hfollow
      rw [argument_of_not_startsNamed hunnamed', map_apply, hnested inner hsize hreads hfollow]
  | byName name l inner =>
      obtain ⟨s₁, hname, hreads'⟩ := hreads.uncons
      obtain ⟨s₂, hequal, hinner⟩ := hreads'.uncons
      have hrest : s.rest = .name name :: .symbol .equal l :: s₂.rest := by
        rw [hname.rest, hequal.rest]
        rfl
      simp only [List.length_cons] at hsize
      simp only [argument, bind_apply, remaining_apply, hrest, advance_reads hname, advance_reads hequal,
        hnested inner (by omega) hinner hfollow]
      rfl

/-- The arguments of a call with the closing parenthesis. -/
theorem arguments_reads {nested : Parser Expr} {size : Nat}
    (hnested : Complete nested (Derives .assignment) size EndsExpression) {ts : List Token}
    {items : List (Expr ⊕ NamedArg)} {line : Int} {s s' : ParseState} (hitems : Derives .arguments ts items)
    (hsize : ts.length ≤ size) (hreads : s.Reads (ts ++ [.symbol .rightParen line]) s') :
    arguments nested s = .ok (positional items, named items, line) s' := by
  obtain ⟨s₁, hlist, hclose⟩ := hreads.split
  have hseparated : Separated (Derives .argument) ts items ∨ ts = [] ∧ items = [] := by
    cases hitems with
    | noArguments => exact Or.inr ⟨rfl, rfl⟩
    | argumentList list => exact Or.inl list.separated_arguments
  have hitems := listBefore_reads (complete_argument hnested) (fun h => h.exists_head rfl) (Or.inl rfl)
    hseparated hsize hlist (by simp [hclose.sees_eq])
  simp only [arguments, bind_apply, hitems, symbol_reads _ hclose]
  rfl

/-- The elements of an array in front of the closing bracket. -/
theorem elements_reads {nested : Parser Expr} {size : Nat}
    (hnested : Complete nested (Derives .assignment) size EndsExpression) {ts : List Token}
    {es : List Expr} {s s' : ParseState} (helements : Derives .elements ts es) (hsize : ts.length ≤ size)
    (hreads : s.Reads ts s') (hsees : s'.sees (.symbol .rightBracket) = true) :
    listBefore .rightBracket nested s = .ok es s' := by
  have hseparated : Separated (Derives .assignment) ts es ∨ ts = [] ∧ es = [] := by
    cases helements with
    | noElements => exact Or.inr ⟨rfl, rfl⟩
    | elementList list => exact Or.inl list.separated_elements
  exact listBefore_reads hnested (fun h => h.exists_head rfl) (Or.inr rfl) hseparated hsize hreads hsees

/-! ## Primaries and suffixes -/

theorem construction_reads {nested : Parser Expr} {size : Nat}
    (hnested : Complete nested (Derives .assignment) size EndsExpression) (maker : Maker) {t : Token}
    {l r : Int} {ts : List Token} {items : List (Expr ⊕ NamedArg)} {s s' : ParseState}
    (hitems : Derives .arguments ts items) (hsize : ts.length ≤ size)
    (hreads : s.Reads (t :: .symbol .leftParen l :: (ts ++ [.symbol .rightParen r])) s') :
    construction nested maker s = .ok (.construct maker t.line (positional items) (named items)) s' := by
  obtain ⟨s₁, hmaker, hreads⟩ := hreads.uncons
  obtain ⟨s₂, hopen, hreads⟩ := hreads.uncons
  simp only [construction, bind_apply, advance_reads hmaker, symbol_reads _ hopen,
    arguments_reads hnested hitems hsize hreads]
  rfl

/-- A primary needs room for the expressions inside its brackets only. -/
theorem complete_primary {nested : Parser Expr} {size : Nat}
    (hnested : Complete nested (Derives .assignment) size EndsExpression) :
    Complete (primary nested) (Derives .primary) (size + 1) fun _ => True := by
  intro ts e s s' hprimary hsize hreads _
  unfold primary
  cases hprimary with
  | construct maker line l r arguments =>
      simp only [List.length_cons, List.length_append] at hsize
      have h := construction_reads hnested maker arguments (by omega) hreads
      cases maker <;>
        simpa only [bind_apply, peek_apply, hreads.head_eq, Option.map_some, Maker.keyword] using h
  | group l r inner =>
      obtain ⟨s₁, hopen, hrest⟩ := hreads.uncons
      obtain ⟨s₂, hinner, hclose⟩ := hrest.split
      simp only [List.length_cons, List.length_append] at hsize
      have hfollow : EndsExpression s₂.rest := by
        rw [hclose.rest]
        exact endsExpression_cons rfl
      simp only [bind_apply, peek_apply, hreads.head_eq, Option.map_some, advance_reads hopen,
        hnested inner (by omega) hinner hfollow, symbol_reads _ hclose]
      rfl
  | array l r elements =>
      obtain ⟨s₁, hopen, hrest⟩ := hreads.uncons
      obtain ⟨s₂, hinner, hclose⟩ := hrest.split
      simp only [List.length_cons, List.length_append] at hsize
      simp only [bind_apply, peek_apply, hreads.head_eq, Option.map_some, advance_reads hopen,
        elements_reads hnested elements (by omega) hinner (by simp [hclose.sees_eq]),
        symbol_reads _ hclose]
      rfl
  | _ =>
      simp only [bind_apply, peek_apply, hreads.head_eq, Option.map_some, advance_reads hreads]
      rfl

/-- The loop over suffixes ends where no suffix starts. -/
theorem suffixes_done {nested : Parser Expr} {s : ParseState} (hends : EndsTier 0 s.rest)
    (fuel : List Token) (e : Expr) : suffixes nested fuel e s = .ok e s := by
  cases fuel with
  | nil => rfl
  | cons t fuel =>
      have hnone (kind : TokenKind) (hkind : startsSuffix kind = true) : accept kind s = .ok false s :=
        accept_of_not_sees (hends.not_startsSuffix hkind)
      simp only [suffixes, bind_apply, hnone (.symbol .leftParen) rfl, hnone (.symbol .dot) rfl,
        hnone (.symbol .arrow) rfl, hnone (.symbol .leftBracket) rfl, Bool.false_eq_true, if_false]
      rfl

/-- Reading a primary with suffixes gets to the loop behind them, with tokens enough for the loop to go on. -/
theorem suffixed_steps {nested : Parser Expr} {size : Nat}
    (hnested : Complete nested (Derives .assignment) size EndsExpression) {dotted : Bool} {ts : List Token}
    {e : Expr} : Derives (.suffixed dotted) ts e → ∀ {s s' : ParseState}, ts.length ≤ size + 1 →
      s.Reads ts s' → (dotted = true → s'.sees (.symbol .leftParen) = false) →
      ∃ fuel : List Token, s'.rest.length ≤ fuel.length ∧ suffixed nested s = suffixes nested fuel e s'
  | .bare primary, s, s', hsize, hreads, _ => by
      refine ⟨s'.rest, Nat.le_refl _, ?_⟩
      simp only [suffixed, bind_apply, complete_primary hnested primary hsize hreads trivial,
        remaining_apply]
  | .call l line front arguments, s, s', hsize, hreads, _ => by
      simp only [List.length_cons, List.length_append] at hsize
      obtain ⟨s₁, hfront, hrest⟩ := hreads.split
      obtain ⟨s₂, hopen, hus⟩ := hrest.uncons
      obtain ⟨fuel, hfuel, heq⟩ := suffixed_steps hnested front (by omega) hfront (by simp)
      obtain ⟨t, fuel, rfl, hfuel'⟩ := hrest.fuel_cons hfuel
      refine ⟨fuel, hfuel', ?_⟩
      simp only [heq, suffixes, bind_apply, accept_reads hopen, if_true,
        arguments_reads hnested arguments (by omega) hus]
  | .property l name front, s, s', hsize, hreads, hdotted => by
      simp only [List.length_cons, List.length_append] at hsize
      obtain ⟨s₁, hfront, hrest⟩ := hreads.split
      obtain ⟨s₂, hdot, hname⟩ := hrest.uncons
      have hparen : s₁.sees (.symbol .leftParen) = false := by simp [hdot.sees_eq]
      obtain ⟨fuel, hfuel, heq⟩ := suffixed_steps hnested front (by omega) hfront (fun _ => hparen)
      obtain ⟨t, fuel, rfl, hfuel'⟩ := hrest.fuel_cons hfuel
      refine ⟨fuel, hfuel', ?_⟩
      simp only [heq, suffixes, propertySuffix, bind_apply, accept_of_not_sees hparen, accept_reads hdot,
        Bool.false_eq_true, if_false, if_true, name_reads _ hname, sees_apply, hdotted rfl, pure_apply]
  | .method l name l' r front arguments, s, s', hsize, hreads, _ => by
      simp only [List.length_cons, List.length_append] at hsize
      obtain ⟨s₁, hfront, hrest⟩ := hreads.split
      obtain ⟨s₂, harrow, hrest'⟩ := hrest.uncons
      obtain ⟨s₃, hname, hrest''⟩ := hrest'.uncons
      obtain ⟨s₄, hopen, hus⟩ := hrest''.uncons
      have hparen : s₁.sees (.symbol .leftParen) = false := by simp [harrow.sees_eq]
      have hdot : s₁.sees (.symbol .dot) = false := by simp [harrow.sees_eq]
      obtain ⟨fuel, hfuel, heq⟩ := suffixed_steps hnested front (by omega) hfront (fun _ => hparen)
      obtain ⟨t, fuel, rfl, hfuel'⟩ := hrest.fuel_cons hfuel
      refine ⟨fuel, hfuel', ?_⟩
      simp only [heq, suffixes, methodSuffix, bind_apply, accept_of_not_sees hparen,
        accept_of_not_sees hdot, accept_reads harrow, Bool.false_eq_true, if_false, if_true,
        name_reads _ hname, accept_reads hopen, arguments_reads hnested arguments (by omega) hus, pure_apply]
  | .element l line front inner, s, s', hsize, hreads, _ => by
      simp only [List.length_cons, List.length_append] at hsize
      obtain ⟨s₁, hfront, hrest⟩ := hreads.split
      obtain ⟨s₂, hopen, hus⟩ := hrest.uncons
      obtain ⟨s₃, hinner, hclose⟩ := hus.split
      have hparen : s₁.sees (.symbol .leftParen) = false := by simp [hopen.sees_eq]
      have hdot : s₁.sees (.symbol .dot) = false := by simp [hopen.sees_eq]
      have harrow : s₁.sees (.symbol .arrow) = false := by simp [hopen.sees_eq]
      obtain ⟨fuel, hfuel, heq⟩ := suffixed_steps hnested front (by omega) hfront (fun _ => hparen)
      have hfollow : EndsExpression s₃.rest := by
        rw [hclose.rest]
        exact endsExpression_cons rfl
      obtain ⟨t, fuel, rfl, hfuel'⟩ := hrest.fuel_cons hfuel
      refine ⟨fuel, hfuel', ?_⟩
      simp only [heq, suffixes, indexSuffix, bind_apply, accept_of_not_sees hparen,
        accept_of_not_sees hdot, accept_of_not_sees harrow, accept_reads hopen, Bool.false_eq_true,
        if_false, if_true, hnested inner (by omega) hinner hfollow, symbol_reads _ hclose, pure_apply]

theorem complete_suffixed {nested : Parser Expr} {size : Nat}
    (hnested : Complete nested (Derives .assignment) size EndsExpression) :
    Complete (suffixed nested) (fun ts e => ∃ dotted, Derives (.suffixed dotted) ts e) (size + 1)
      (EndsTier 0) := by
  intro ts e s s' hfront hsize hreads hends
  obtain ⟨dotted, hfront⟩ := hfront
  obtain ⟨fuel, -, heq⟩ := suffixed_steps hnested hfront hsize hreads
    (fun _ => hends.not_startsSuffix rfl)
  rw [heq, suffixes_done hends]

/-! ## Operators -/

/-- A primary does not start with an operator, whatever suffixes it has. -/
theorem unaryOp_ofKind_suffixed {dotted : Bool} {ts : List Token} {e : Expr} :
    Derives (.suffixed dotted) ts e → ∃ t us, ts = t :: us ∧ UnaryOp.ofKind? t.kind = none
  | .bare primary => by
      cases primary with
      | construct maker => exact ⟨_, _, rfl, rfl⟩
      | _ => exact ⟨_, _, rfl, rfl⟩
  | .call _ _ front _ | .property _ _ front | .method _ _ _ _ front _ | .element _ _ front _ => by
      obtain ⟨t, us, rfl, ht⟩ := unaryOp_ofKind_suffixed front
      exact ⟨t, _, rfl, ht⟩

theorem complete_unary {operand : Parser Expr} {size : Nat}
    (hoperand : Complete operand (fun ts e => ∃ dotted, Derives (.suffixed dotted) ts e) size (EndsTier 0))
    (depth : Nat) : Complete (unary operand depth) (Derives .unary) (min size depth) (EndsTier 0) := by
  induction depth with
  | zero =>
      intro ts e s s' hunary hsize
      obtain ⟨t, us, rfl, -⟩ := hunary.exists_head rfl
      simp at hsize
  | succ depth ih =>
      intro ts e s s' hunary hsize hreads hends
      cases hunary with
      | operand front =>
          have hnone : (s.rest.head?.map Token.kind).bind UnaryOp.ofKind? = none := by
            obtain ⟨t, us, rfl, ht⟩ := unaryOp_ofKind_suffixed front
            simp [hreads.head_eq, ht]
          simp only [unary, bind_apply, peek_apply, hnone]
          exact hoperand ⟨_, front⟩ (by omega) hreads hends
      | unary op line inner =>
          obtain ⟨s₁, hop, hinner⟩ := hreads.uncons
          simp only [List.length_cons] at hsize
          have hkind : (s.rest.head?.map Token.kind).bind UnaryOp.ofKind? = some op := by
            simp [hreads.head_eq, unaryOp_ofKind_eq_some]
          simp only [unary, bind_apply, peek_apply, hkind, advance_reads hop,
            ih inner (by omega) hinner hends]
          rfl

/-- The loop over the operators of one tier ends where none of them comes next. -/
theorem chainRest_done {operand : Parser Expr} {rank : Nat} {s : ParseState}
    (hends : EndsTier (rank + 1) s.rest) (fuel : List Token) (left : Expr) :
    chainRest operand rank fuel left s = .ok left s := by
  cases fuel with
  | nil => rfl
  | cons t fuel =>
      simp only [chainRest, bind_apply, peek_apply]
      cases hop : (s.rest.head?.map Token.kind).bind BinaryOp.ofKind? with
      | none => rfl
      | some op =>
          obtain ⟨kind, hkind, hspells⟩ := Option.bind_eq_some_iff.1 hop
          obtain ⟨u, hu, rfl⟩ := Option.map_eq_some_iff.1 hkind
          -- an operator that comes next binds less tightly, so it belongs to an outer tier
          have hrank : rank + 1 ≤ op.rank := (hends u hu).2 op (binaryOp_ofKind_eq_some.1 hspells)
          have hne : (op.rank == rank) = false := by
            rw [beq_eq_false_iff_ne]
            omega
          simp only [hne]
          rfl

/-- Reading operands and operators of one tier gets to the loop behind them, with tokens enough for the loop
to go on. -/
theorem tier_steps {operand : Parser Expr} {size rank : Nat}
    (htier : Complete (tier operand rank) (Derives (.tier rank)) size (EndsTier rank)) {ts : List Token}
    {e : Expr} : Derives (.tier (rank + 1)) ts e → ∀ {s s' : ParseState}, ts.length ≤ size →
      s.Reads ts s' → EndsTier rank s'.rest →
      ∃ fuel : List Token, s'.rest.length ≤ fuel.length ∧
        tier operand (rank + 1) s = chainRest (tier operand rank) rank fuel e s'
  | .tighter inner, s, s', hsize, hreads, hends => by
      refine ⟨s'.rest, Nat.le_refl _, ?_⟩
      simp only [tier, bind_apply, htier inner hsize hreads hends, remaining_apply]
  | .binary op line hop first second, s, s', hsize, hreads, hends => by
      simp only [List.length_cons, List.length_append] at hsize
      obtain ⟨s₁, hfirst, hrest⟩ := hreads.split
      obtain ⟨s₂, hsymbol, hsecond⟩ := hrest.uncons
      have hrank : op.rank = rank := mem_operators_iff.1 hop
      have hkind : (s₁.rest.head?.map Token.kind).bind BinaryOp.ofKind? = some op := by
        simp [hsymbol.head_eq, binaryOp_ofKind_eq_some]
      have hends₁ : EndsTier rank s₁.rest := by
        rw [hsymbol.rest, ← hrank]
        exact endsTier_operator op line _
      obtain ⟨fuel, hfuel, heq⟩ := tier_steps htier first (by omega) hfirst hends₁
      obtain ⟨t, fuel, rfl, hfuel'⟩ := hrest.fuel_cons hfuel
      refine ⟨fuel, hfuel', ?_⟩
      simp only [heq, chainRest, bind_apply, peek_apply, hkind, hrank, beq_self_eq_true, if_true,
        advance_reads hsymbol, htier second (by omega) hsecond hends]

theorem complete_tier {operand : Parser Expr} {size : Nat}
    (hoperand : Complete operand (Derives .unary) size (EndsTier 0)) (bound : Nat) :
    Complete (tier operand bound) (Derives (.tier bound)) size (EndsTier bound) := by
  induction bound with
  | zero =>
      intro ts e s s' hderives hsize hreads hends
      cases hderives with
      | tightest inner => exact hoperand inner hsize hreads hends
  | succ rank ih =>
      intro ts e s s' hderives hsize hreads hends
      obtain ⟨fuel, -, heq⟩ := tier_steps ih hderives hsize hreads (hends.mono (Nat.le_succ rank))
      rw [heq, chainRest_done hends]

/-! ## Assignments -/

theorem derives_tier_of_suffixed {dotted : Bool} {ts : List Token} {e : Expr}
    (h : Derives (.suffixed dotted) ts e) (bound : Nat) : Derives (.tier bound) ts e := by
  induction bound with
  | zero => exact .tightest (.operand h)
  | succ bound ih => exact .tighter ih

theorem complete_assignment {operand : Parser Expr} {size : Nat}
    (hoperand : Complete operand (Derives (.tier ranks)) size (EndsTier ranks)) (depth : Nat) :
    Complete (assignment operand depth) (Derives .assignment) (min size depth) EndsExpression := by
  induction depth with
  | zero =>
      intro ts e s s' hderives hsize
      obtain ⟨t, us, rfl, -⟩ := hderives.exists_head rfl
      simp at hsize
  | succ depth ih =>
      -- the operand in front of an equals sign, and the assignment that is read behind it
      have hassigned {dotted : Bool} {ts us : List Token} {target value e : Expr} {l : Int}
          {s s' : ParseState} (htarget : Derives (.suffixed dotted) ts target)
          (hvalue : Derives .assignment us value)
          (hsize : (ts ++ Token.symbol .equal l :: us).length ≤ min size (depth + 1))
          (hreads : s.Reads (ts ++ .symbol .equal l :: us) s') (hends : EndsExpression s'.rest)
          (hto : ∀ place, assignTo target place value s' = .ok e s') :
          assignment operand (depth + 1) s = .ok e s' := by
        obtain ⟨s₁, htarget', hrest⟩ := hreads.split
        obtain ⟨s₂, hequal, hvalue'⟩ := hrest.uncons
        simp only [List.length_cons, List.length_append] at hsize
        have hends₁ : EndsTier ranks s₁.rest := by
          rw [hequal.rest]
          exact endsTier_cons rfl rfl
        have hleft := hoperand (derives_tier_of_suffixed htarget ranks) (by omega) htarget' hends₁
        have hright := ih hvalue (by omega) hvalue' hends
        simp only [assignment, bind_apply, hleft, get_apply, accept_reads hequal, if_true, hright]
        exact hto _
      intro ts e s s' hderives hsize hreads hends
      cases hderives with
      | value inner =>
          have hleft := hoperand inner (by omega) hreads hends.1
          simp only [assignment, bind_apply, hleft, get_apply, accept_of_not_sees hends.sees_equal]
          rfl
      | assign l target right => exact hassigned target right hsize hreads hends fun _ => rfl
      | setProperty l target right => exact hassigned target right hsize hreads hends fun _ => rfl
      | setElement l target right => exact hassigned target right hsize hreads hends fun _ => rfl

/-- Expressions of no more tokens than the bound are read, whatever they are nested in. -/
theorem complete_expression (depth : Nat) :
    Complete (expression depth) (Derives .assignment) depth EndsExpression := by
  induction depth with
  | zero =>
      intro ts e s s' hderives hsize
      obtain ⟨t, us, rfl, -⟩ := hderives.exists_head rfl
      simp at hsize
  | succ depth ih =>
      intro ts e s s' hderives hsize hreads hends
      -- operators before an operand and assignments in a row take frames of their own
      have hframes : depth + 1 ≤ expressionFrames * (depth + 1) := by
        unfold expressionFrames
        omega
      have hunary := complete_unary (complete_suffixed ih) (expressionFrames * (depth + 1))
      exact complete_assignment (complete_tier hunary ranks) _ hderives (by omega) hreads hends

end Parser
end SafariScript
