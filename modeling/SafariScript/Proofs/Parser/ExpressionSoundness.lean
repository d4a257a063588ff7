import SafariScript.Proofs.Parser.Reading

/-!
# Expressions are read as the grammar says

Every rule of the expression parser is sound: unless it adds to the problems, the tokens it consumed are
derived from the rule of the grammar, with its result as the tree. The parser for nested expressions is a
parameter of most rules, so they are proved sound for every sound one; `sound_expression` closes the circle
by induction on the nesting.
-/

namespace SafariScript
namespace Parser

open Grammar

variable {α : Type}

/-- The tokens consumed are derived from a rule, with the result as the tree. -/
def Derived (rule : Rule) (s : ParseState) (tree : rule.Tree) (s' : ParseState) : Prop :=
  ∃ ts, s.Reads ts s' ∧ Derives rule ts tree

/-! ## Lists -/

/-- Behind any first item, what `separatedRest` consumes goes on with a list of items. -/
theorem sound_separatedRest {item : Parser α} {Item : List Token → α → Prop}
    (hitem : Sound item fun s a s' => ∃ ts, s.Reads ts s' ∧ Item ts a) (fuel : List Token) :
    Sound (separatedRest item fuel) fun s as s' =>
      ∃ ts, s.Reads ts s' ∧ ∀ us a, Item us a → Separated Item (us ++ ts) (a :: as) := by
  induction fuel with
  | nil =>
      refine (sound_pure _).mono ?_
      rintro s as s' ⟨rfl, rfl⟩
      exact ⟨[], .nil _, fun us a ha => by simpa using Separated.last ha⟩
  | cons t fuel ih =>
      refine Sound.ifAccept (hitem.bind fun first => ih.bind fun others => sound_pure _) ?_ ?_
      · rintro s line s₁ as s' hcomma
          ⟨first, s₂, ⟨ts, hfirst, hitem⟩, others, s₃, ⟨us, hothers, hlist⟩, rfl, rfl⟩
        refine ⟨.symbol .comma line :: (ts ++ us), hcomma.append (hfirst.append hothers), ?_⟩
        exact fun vs a ha => .next line ha (hlist ts first hitem)
      · refine (sound_pure _).mono ?_
        rintro s as s' ⟨rfl, rfl⟩ -
        exact ⟨[], .nil _, fun us a ha => by simpa using Separated.last ha⟩

theorem sound_separated {item : Parser α} {Item : List Token → α → Prop}
    (hitem : Sound item fun s a s' => ∃ ts, s.Reads ts s' ∧ Item ts a) :
    Sound (separated item) fun s as s' => ∃ ts, s.Reads ts s' ∧ Separated Item ts as := by
  refine (hitem.bind fun first => sound_remaining.bind fun fuel =>
    (sound_separatedRest hitem fuel).bind fun others => sound_pure _).mono ?_
  rintro s as s' ⟨first, s₁, ⟨ts, hfirst, hitem⟩, fuel, s₂, ⟨rfl, -⟩, others, s₃,
    ⟨us, hothers, hlist⟩, rfl, rfl⟩
  exact ⟨ts ++ us, hfirst.append hothers, hlist ts first hitem⟩

/-! ## Arguments -/

theorem sound_argument {nested : Parser Expr} (hnested : Sound nested (Derived .assignment)) :
    Sound (argument nested) (Derived .argument) := by
  refine (sound_remaining.bind (T := fun ts s item s' => ts = s.rest → Derived .argument s item s')
    fun ts => ?_).mono ?_
  · split
    · next text line line' rest =>
      -- both tokens are consumed without a check, so their kinds come from what was looked at
      refine (sound_advance.bind fun _ => sound_advance.bind fun _ => hnested.bind fun value =>
        sound_pure _).mono ?_
      rintro s item s' ⟨_, s₁, hname, _, s₂, hequal, value, s₃, ⟨ts, hvalue, hderives⟩, rfl, rfl⟩ hrest
      obtain ⟨hname, -⟩ := hname _ _ hrest.symm
      have hrest₁ : s₁.rest = .symbol .equal line' :: rest := by
        simpa [← hrest] using hname.rest.symm
      obtain ⟨hequal, -⟩ := hequal _ _ hrest₁
      exact ⟨_, hname.append (hequal.append hvalue), .byName ⟨text, line⟩ line' hderives⟩
    · next hunnamed =>
      refine (hnested.bind fun value => sound_pure _).mono ?_
      rintro s item s' ⟨value, s₁, ⟨us, hvalue, hderives⟩, rfl, rfl⟩ rfl
      refine ⟨us, hvalue, .byPosition ?_ hderives⟩
      -- what the parser looked at goes on behind the argument
      unfold startsNamed
      split
      · next text line line' rest =>
        exact absurd hvalue.rest (hunnamed text line line' _)
      · rfl
  · rintro s item s' ⟨ts, s₁, ⟨rfl, rfl⟩, h⟩
    exact h rfl

theorem sound_listBefore {item : Parser α} {Item : List Token → α → Prop} (close : Symbol)
    (hitem : Sound item fun s a s' => ∃ ts, s.Reads ts s' ∧ Item ts a) :
    Sound (listBefore close item) fun s as s' =>
      ∃ ts, s.Reads ts s' ∧ (ts = [] ∧ as = [] ∨ Separated Item ts as) := by
  refine Sound.ifSees ((sound_pure _).mono ?_) ((sound_separated hitem).mono ?_)
  · rintro s as s' ⟨rfl, rfl⟩ -
    exact ⟨[], .nil _, Or.inl ⟨rfl, rfl⟩⟩
  · rintro s as s' ⟨ts, hreads, hlist⟩ -
    exact ⟨ts, hreads, Or.inr hlist⟩

theorem sound_arguments {nested : Parser Expr} (hnested : Sound nested (Derived .assignment)) :
    Sound (arguments nested) fun s result s' => ∃ ts items line,
      s.Reads (ts ++ [.symbol .rightParen line]) s' ∧ Derives .arguments ts items ∧
        result = (positional items, named items, line) := by
  refine ((sound_listBefore _ (sound_argument hnested)).bind fun items =>
    (sound_symbol _ _).bind fun line => sound_pure _).mono ?_
  rintro s result s' ⟨items, s₁, ⟨ts, hitems, hlist⟩, line, s₂, hparen, rfl, rfl⟩
  refine ⟨ts, items, line, hitems.append hparen, ?_, rfl⟩
  rcases hlist with ⟨rfl, rfl⟩ | hlist
  · exact .noArguments
  · exact .argumentList hlist.someArguments

/-! ## Primaries -/

/-- A choice by the kind of the next token: each branch may assume that it is the kind it was chosen for. -/
theorem sound_ofPeek {f : Option TokenKind → Parser α} {R : ParseState → α → ParseState → Prop}
    (hf : ∀ kind, Sound (f kind) fun s a s' => s.rest.head?.map Token.kind = kind → R s a s') :
    Sound (peek? >>= f) R := by
  refine (sound_peek.bind hf).mono ?_
  rintro s a s' ⟨kind, s₁, ⟨rfl, rfl⟩, h⟩
  exact h rfl

/-- Consuming the token that was looked at. -/
theorem sound_advance_of_kind (kind : TokenKind) :
    Sound advance fun s line s' =>
      s.rest.head?.map Token.kind = some kind → s.Reads [⟨kind, line⟩] s' := by
  refine sound_advance.mono ?_
  intro s line s' hadvance hkind
  cases hrest : s.rest with
  | nil => simp [hrest] at hkind
  | cons t rest =>
      obtain ⟨kind', line'⟩ := t
      simp only [hrest, List.head?_cons, Option.map_some, Option.some.injEq] at hkind
      obtain ⟨hreads, rfl⟩ := hadvance _ _ hrest
      exact hkind ▸ hreads

theorem sound_construction {nested : Parser Expr} (hnested : Sound nested (Derived .assignment))
    (maker : Maker) :
    Sound (construction nested maker) fun s e s' =>
      s.rest.head?.map Token.kind = some (.keyword maker.keyword) → Derived .primary s e s' := by
  refine ((sound_advance_of_kind (.keyword maker.keyword)).bind fun line =>
    (sound_symbol _ _).bind fun _ => (sound_arguments hnested).bind fun _ => sound_pure _).mono ?_
  rintro s e s' ⟨line, s₁, hmaker, l, s₂, hparen, _, s₃, ⟨ts, items, r, hreads, hderives, rfl⟩, rfl, rfl⟩
    hkind
  exact ⟨_, (hmaker hkind).append (hparen.append hreads), .construct maker line l r hderives⟩

/-- A primary that is one token. -/
theorem sound_token {kind : TokenKind} {e : Expr}
    (h : ∀ line, Derives .primary [⟨kind, line⟩] e) :
    Sound (do let _ ← advance; return e) fun s e' s' =>
      s.rest.head?.map Token.kind = some kind → Derived .primary s e' s' := by
  refine ((sound_advance_of_kind kind).bind fun _ => sound_pure e).mono ?_
  rintro s e' s' ⟨line, s₁, hreads, rfl, rfl⟩ hkind
  exact ⟨_, hreads hkind, h line⟩

theorem sound_primary {nested : Parser Expr} (hnested : Sound nested (Derived .assignment)) :
    Sound (primary nested) (Derived .primary) := by
  refine sound_ofPeek fun kind => ?_
  split
  · exact sound_token .truth
  · exact sound_token .falsehood
  · exact sound_token .null
  · next digits => exact sound_token (.number digits)
  · next raw => exact sound_token (.text raw)
  · next text =>
    refine ((sound_advance_of_kind (.ident text)).bind fun line => sound_pure _).mono ?_
    rintro s e s' ⟨line, s₁, hreads, rfl, rfl⟩ hkind
    exact ⟨_, hreads hkind, .ident ⟨text, line⟩⟩
  · exact sound_construction hnested .safariZone
  · exact sound_construction hnested .team
  · refine ((sound_advance_of_kind (.symbol .leftParen)).bind fun _ => hnested.bind fun _ =>
      (sound_symbol _ _).bind fun _ => sound_pure _).mono ?_
    rintro s e s' ⟨l, s₁, hopen, inner, s₂, ⟨ts, hreads, hderives⟩, r, s₃, hclose, rfl, rfl⟩ hkind
    exact ⟨_, (hopen hkind).append (hreads.append hclose), .group l r hderives⟩
  · refine ((sound_advance_of_kind (.symbol .leftBracket)).bind fun _ =>
      (sound_listBefore _ hnested).bind fun _ => (sound_symbol _ _).bind fun _ => sound_pure _).mono ?_
    rintro s e s' ⟨l, s₁, hopen, es, s₂, ⟨ts, hreads, hlist⟩, r, s₃, hclose, rfl, rfl⟩ hkind
    refine ⟨_, (hopen hkind).append (hreads.append hclose), .array l r ?_⟩
    rcases hlist with ⟨rfl, rfl⟩ | hlist
    · exact .noElements
    · exact .elementList hlist.someElements
  · exact sound_stop _ _

/-! ## Suffixes -/

theorem sound_propertySuffix (object : Expr) :
    Sound (propertySuffix object) fun s e s' => ∃ word, s.Reads [.name word] s' ∧
      e = .property object word ∧ s'.sees (.symbol .leftParen) = false := by
  refine ((sound_name _).bind (T := fun word s e s' =>
    e = Expr.property object word ∧ s' = s ∧ s.sees (.symbol .leftParen) = false) fun word =>
    Sound.ifSees (sound_throw _ _) ((sound_pure _).mono ?_)).mono ?_
  · rintro s e s' ⟨rfl, rfl⟩ hsees
    exact ⟨rfl, rfl, hsees⟩
  · rintro s e s' ⟨word, s₁, hword, rfl, rfl, hsees⟩
    exact ⟨word, hword, rfl, hsees⟩

theorem sound_methodSuffix {nested : Parser Expr} (hnested : Sound nested (Derived .assignment))
    (object : Expr) :
    Sound (methodSuffix nested object) fun s e s' => ∃ word l ts items r,
      s.Reads (.name word :: .symbol .leftParen l :: (ts ++ [.symbol .rightParen r])) s' ∧
        Derives .arguments ts items ∧ e = .method object word (positional items) (named items) := by
  refine ((sound_name _).bind (T := fun word s e s' => ∃ l ts items r,
    s.Reads (.symbol .leftParen l :: (ts ++ [.symbol .rightParen r])) s' ∧
      Derives .arguments ts items ∧ e = Expr.method object word (positional items) (named items))
    fun word => Sound.ifAccept ((sound_arguments hnested).bind fun _ => sound_pure _) ?_
      (sound_throw _ _)).mono ?_
  · rintro s l s₁ e s' hparen ⟨_, s₂, ⟨ts, items, r, hreads, hderives, rfl⟩, rfl, rfl⟩
    exact ⟨l, ts, items, r, hparen.append hreads, hderives, rfl⟩
  · rintro s e s' ⟨word, s₁, hword, l, ts, items, r, hreads, hderives, rfl⟩
    exact ⟨word, l, ts, items, r, hword.append hreads, hderives, rfl⟩

theorem sound_indexSuffix {nested : Parser Expr} (hnested : Sound nested (Derived .assignment))
    (array : Expr) :
    Sound (indexSuffix nested array) fun s e s' => ∃ ts index line,
      s.Reads (ts ++ [.symbol .rightBracket line]) s' ∧ Derives .assignment ts index ∧
        e = .element array line index := by
  refine (hnested.bind fun index => (sound_symbol _ _).bind fun line => sound_pure _).mono ?_
  rintro s e s' ⟨index, s₁, ⟨ts, hreads, hderives⟩, line, s₂, hclose, rfl, rfl⟩
  exact ⟨ts, index, line, hreads.append hclose, hderives, rfl⟩

/-- What the loop over suffixes adds to an expression that is read already. The parser has made sure that no
parenthesis follows a property, so the loop never takes one for a call of it. -/
theorem sound_suffixes {nested : Parser Expr} (hnested : Sound nested (Derived .assignment))
    (fuel : List Token) (e : Expr) :
    Sound (suffixes nested fuel e) fun s e' s' => ∀ dotted ts, Derives (.suffixed dotted) ts e →
      (dotted = true → s.sees (.symbol .leftParen) = false) →
        ∃ dotted' us, s.Reads us s' ∧ Derives (.suffixed dotted') (ts ++ us) e' := by
  induction fuel generalizing e with
  | nil =>
      refine (sound_pure _).mono ?_
      rintro s e' s' ⟨rfl, rfl⟩ dotted ts hfront -
      exact ⟨dotted, [], .nil _, by simpa using hfront⟩
  | cons t fuel ih =>
      refine Sound.ifAccept ((sound_arguments hnested).bind fun _ => ih _) ?_ <|
        Sound.ifAccept ((sound_propertySuffix e).bind fun _ => ih _) ?_ <|
        Sound.ifAccept ((sound_methodSuffix hnested e).bind fun _ => ih _) ?_ <|
        Sound.ifAccept ((sound_indexSuffix hnested e).bind fun _ => ih _) ?_ ((sound_pure _).mono ?_)
      · rintro s l s₁ e' s' hopen ⟨_, s₂, ⟨us, items, line, hreads, hitems, rfl⟩, hrest⟩ dotted ts hfront
          hdotted
        -- a call of a property would have been refused before the loop came here
        have hundotted : dotted = false := by
          cases dotted with
          | false => rfl
          | true => simp [hopen.sees_eq] at hdotted
        subst hundotted
        obtain ⟨dotted', vs, hvs, hderives⟩ :=
          hrest false _ (.call l line hfront hitems) (fun h => by simp at h)
        exact ⟨dotted', _, hopen.append (hreads.append hvs), by simpa using hderives⟩
      · rintro s l s₁ e' s' hdot ⟨_, s₂, ⟨word, hword, rfl, hsees⟩, hrest⟩ - dotted ts hfront -
        obtain ⟨dotted', vs, hvs, hderives⟩ := hrest true _ (.property l word hfront) (fun _ => hsees)
        exact ⟨dotted', _, hdot.append (hword.append hvs), by simpa using hderives⟩
      · rintro s l s₁ e' s' harrow ⟨_, s₂, ⟨word, l', us, items, r, hreads, hitems, rfl⟩, hrest⟩ - -
          dotted ts hfront -
        obtain ⟨dotted', vs, hvs, hderives⟩ :=
          hrest false _ (.method l word l' r hfront hitems) (fun h => by simp at h)
        exact ⟨dotted', _, harrow.append (hreads.append hvs), by simpa using hderives⟩
      · rintro s l s₁ e' s' hopen ⟨_, s₂, ⟨us, index, line, hreads, hindex, rfl⟩, hrest⟩ - - -
          dotted ts hfront -
        obtain ⟨dotted', vs, hvs, hderives⟩ :=
          hrest false _ (.element l line hfront hindex) (fun h => by simp at h)
        exact ⟨dotted', _, hopen.append (hreads.append hvs), by simpa using hderives⟩
      · rintro s e' s' ⟨rfl, rfl⟩ - - - - dotted ts hfront -
        exact ⟨dotted, [], .nil _, by simpa using hfront⟩

theorem sound_suffixed {nested : Parser Expr} (hnested : Sound nested (Derived .assignment)) :
    Sound (suffixed nested) fun s e s' => ∃ dotted, Derived (.suffixed dotted) s e s' := by
  refine ((sound_primary hnested).bind fun e => sound_remaining.bind fun fuel =>
    sound_suffixes hnested fuel e).mono ?_
  rintro s e s' ⟨front, s₁, ⟨ts, hfront, hderives⟩, fuel, s₂, ⟨rfl, -⟩, hrest⟩
  obtain ⟨dotted, us, hus, hderives⟩ := hrest false ts (.bare hderives) (fun h => by simp at h)
  exact ⟨dotted, ts ++ us, hfront.append hus, hderives⟩

/-! ## Operators -/

theorem unaryOp_ofKind_eq_some {kind : TokenKind} {op : UnaryOp} :
    UnaryOp.ofKind? kind = some op ↔ kind = .symbol op.symbol := by
  constructor
  · intro h
    unfold UnaryOp.ofKind? at h
    split at h <;> simp_all [UnaryOp.symbol]
    · subst h
      rfl
    · subst h
      rfl
  · rintro rfl
    cases op <;> rfl

theorem binaryOp_ofKind_eq_some {kind : TokenKind} {op : BinaryOp} :
    BinaryOp.ofKind? kind = some op ↔ kind = .symbol op.symbol := by
  constructor
  · intro h
    unfold BinaryOp.ofKind? at h
    split at h <;> first | cases h; rfl | simp at h
  · rintro rfl
    cases op with
    | int op => cases op <;> rfl
    | _ => rfl

theorem mem_operators_iff {op : BinaryOp} {bound : Nat} : op ∈ operators bound ↔ op.rank = bound := by
  constructor
  · intro h
    unfold operators at h
    split at h <;> simp at h
    · rcases h with rfl | rfl | rfl <;> rfl
    · rcases h with rfl | rfl <;> rfl
    · rcases h with rfl | rfl | rfl | rfl <;> rfl
    · rcases h with rfl | rfl <;> rfl
    · exact h ▸ rfl
    · exact h ▸ rfl
  · rintro rfl
    cases op with
    | int op => cases op <;> simp [operators, BinaryOp.rank, IntOp.rank]
    | _ => simp [operators, BinaryOp.rank]

theorem sound_unary {operand : Parser Expr}
    (hoperand : Sound operand fun s e s' => ∃ dotted, Derived (.suffixed dotted) s e s') (depth : Nat) :
    Sound (unary operand depth) (Derived .unary) := by
  induction depth with
  | zero => exact sound_throw _ _
  | succ depth ih =>
      refine sound_ofPeek fun kind => ?_
      split
      · next op hop =>
        obtain ⟨kind, rfl, hkind⟩ := Option.bind_eq_some_iff.1 hop
        obtain rfl := unaryOp_ofKind_eq_some.1 hkind
        refine ((sound_advance_of_kind (.symbol op.symbol)).bind fun line => ih.bind fun _ =>
          sound_pure _).mono ?_
        rintro s e s' ⟨line, s₁, hop, e', s₂, ⟨ts, hreads, hderives⟩, rfl, rfl⟩ hkind
        exact ⟨_, (hop hkind).append hreads, .unary op line hderives⟩
      · refine hoperand.mono ?_
        rintro s e s' ⟨dotted, ts, hreads, hderives⟩ -
        exact ⟨ts, hreads, .operand hderives⟩

/-- What the loop over operators of one tier adds to a left operand that is read already. -/
theorem sound_chainRest {operand : Parser Expr} {rank : Nat}
    (hoperand : Sound operand (Derived (.tier rank))) (fuel : List Token) (left : Expr) :
    Sound (chainRest operand rank fuel left) fun s e s' => ∀ ts, Derives (.tier (rank + 1)) ts left →
      ∃ us, s.Reads us s' ∧ Derives (.tier (rank + 1)) (ts ++ us) e := by
  induction fuel generalizing left with
  | nil =>
      refine (sound_pure _).mono ?_
      rintro s e s' ⟨rfl, rfl⟩ ts hleft
      exact ⟨[], .nil _, by simpa using hleft⟩
  | cons t fuel ih =>
      have hdone : Sound (pure left) fun s e s' => ∀ ts, Derives (.tier (rank + 1)) ts left →
          ∃ us, s.Reads us s' ∧ Derives (.tier (rank + 1)) (ts ++ us) e := by
        refine (sound_pure _).mono ?_
        rintro s e s' ⟨rfl, rfl⟩ ts hleft
        exact ⟨[], .nil _, by simpa using hleft⟩
      refine sound_ofPeek fun kind => ?_
      split
      · next op hop =>
        obtain ⟨kind, rfl, hkind⟩ := Option.bind_eq_some_iff.1 hop
        obtain rfl := binaryOp_ofKind_eq_some.1 hkind
        split
        · next hrank =>
          refine ((sound_advance_of_kind (.symbol op.symbol)).bind fun line => hoperand.bind fun right =>
            ih (.binary left op line right)).mono ?_
          rintro s e s' ⟨line, s₁, hop, right, s₂, ⟨us, hright, hderives⟩, hrest⟩ hkind ts hleft
          have htier : op ∈ operators rank := mem_operators_iff.2 (by simpa using hrank)
          obtain ⟨vs, hvs, hwhole⟩ := hrest _ (.binary op line htier hleft hderives)
          exact ⟨_, (hop hkind).append (hright.append hvs), by simpa using hwhole⟩
        · exact hdone.mono fun s e s' h _ => h
      · exact hdone.mono fun s e s' h _ => h

theorem sound_tier {operand : Parser Expr} (hoperand : Sound operand (Derived .unary)) (bound : Nat) :
    Sound (tier operand bound) (Derived (.tier bound)) := by
  induction bound with
  | zero =>
      refine hoperand.mono ?_
      rintro s e s' ⟨ts, hreads, hderives⟩
      exact ⟨ts, hreads, .tightest hderives⟩
  | succ rank ih =>
      refine (ih.bind fun left => sound_remaining.bind fun fuel =>
        sound_chainRest ih fuel left).mono ?_
      rintro s e s' ⟨left, s₁, ⟨ts, hleft, hderives⟩, fuel, s₂, ⟨rfl, -⟩, hrest⟩
      obtain ⟨us, hus, hwhole⟩ := hrest ts (.tighter hderives)
      exact ⟨ts ++ us, hleft.append hus, hwhole⟩

/-! ## Assignments -/

/-- A tree that no operator is at the root of comes from a primary with suffixes. -/
theorem derives_suffixed_of_unary {ts : List Token} {e : Expr} (h : Derives .unary ts e)
    (hunary : ∀ op line operand, e ≠ .unary op line operand) :
    ∃ dotted, Derives (.suffixed dotted) ts e := by
  cases h with
  | operand front => exact ⟨_, front⟩
  | unary op line operand => exact absurd rfl (hunary op line _)

theorem derives_suffixed_of_tier {bound : Nat} {ts : List Token} {e : Expr}
    (h : Derives (.tier bound) ts e) (hunary : ∀ op line operand, e ≠ .unary op line operand)
    (hbinary : ∀ left op line right, e ≠ .binary left op line right) :
    ∃ dotted, Derives (.suffixed dotted) ts e := by
  induction bound with
  | zero =>
      cases h with
      | tightest operand => exact derives_suffixed_of_unary operand hunary
  | succ bound ih =>
      cases h with
      | tighter operand => exact ih operand
      | binary op line _ _ _ => exact absurd rfl (hbinary _ op line _)

/-- An assignment is to what stands in front of the equals sign: a variable, a property or an element. -/
theorem sound_assignTo {target value : Expr} {place : Word} :
    Sound (assignTo target place value) fun s e s' => s' = s ∧ ∀ ts us l,
      Derives (.tier ranks) ts target → Derives .assignment us value →
        Derives .assignment (ts ++ .symbol .equal l :: us) e := by
  unfold assignTo
  split
  · next name =>
    refine (sound_pure _).mono ?_
    rintro s e s' ⟨rfl, rfl⟩
    refine ⟨rfl, fun ts us l htarget hvalue => ?_⟩
    obtain ⟨dotted, hfront⟩ := derives_suffixed_of_tier htarget (by simp) (by simp)
    exact .assign l hfront hvalue
  · next object name =>
    refine (sound_pure _).mono ?_
    rintro s e s' ⟨rfl, rfl⟩
    refine ⟨rfl, fun ts us l htarget hvalue => ?_⟩
    obtain ⟨dotted, hfront⟩ := derives_suffixed_of_tier htarget (by simp) (by simp)
    exact .setProperty l hfront hvalue
  · next array line index =>
    refine (sound_pure _).mono ?_
    rintro s e s' ⟨rfl, rfl⟩
    refine ⟨rfl, fun ts us l htarget hvalue => ?_⟩
    obtain ⟨dotted, hfront⟩ := derives_suffixed_of_tier htarget (by simp) (by simp)
    exact .setElement l hfront hvalue
  · refine ((sound_complain _ _).bind fun _ => sound_pure _).mono ?_
    rintro s e s' ⟨_, s₁, hfalse, -⟩
    exact hfalse.elim

theorem sound_assignment {operand : Parser Expr} (hoperand : Sound operand (Derived (.tier ranks)))
    (depth : Nat) : Sound (assignment operand depth) (Derived .assignment) := by
  induction depth with
  | zero => exact sound_throw _ _
  | succ depth ih =>
      have hget : Sound (get : Parser ParseState) fun s a s' => s' = s :=
        fun _ => Or.inr ⟨rfl, rfl⟩
      refine (hoperand.bind (T := fun left s e s' => ∀ ts, Derives (.tier ranks) ts left →
        ∃ us, s.Reads us s' ∧ Derives .assignment (ts ++ us) e) fun left => ?_).mono ?_
      · refine (hget.bind (T := fun _ s e s' => ∀ ts, Derives (.tier ranks) ts left →
          ∃ us, s.Reads us s' ∧ Derives .assignment (ts ++ us) e) fun at_ => ?_).mono ?_
        · refine Sound.ifAccept (ih.bind fun value => sound_assignTo) ?_ ((sound_pure _).mono ?_)
          · rintro s l s₁ e s' hequal ⟨value, s₂, ⟨us, hvalue, hderives⟩, rfl, hassign⟩ ts hleft
            exact ⟨_, hequal.append hvalue, hassign ts us l hleft hderives⟩
          · rintro s e s' ⟨rfl, rfl⟩ - ts hleft
            exact ⟨[], .nil _, by simpa using Derives.value hleft⟩
        · rintro s e s' ⟨_, s₁, rfl, h⟩
          exact h
      · rintro s e s' ⟨left, s₁, ⟨ts, hleft, hderives⟩, hrest⟩
        obtain ⟨us, hus, hwhole⟩ := hrest ts hderives
        exact ⟨ts ++ us, hleft.append hus, hwhole⟩

/-- Expressions are read as the grammar says, whatever bound there is on their nesting. -/
theorem sound_expression (depth : Nat) : Sound (expression depth) (Derived .assignment) := by
  induction depth with
  | zero => exact sound_throw _ _
  | succ depth ih => exact sound_assignment (sound_tier (sound_unary (sound_suffixed ih) _) ranks) _

end Parser
end SafariScript
