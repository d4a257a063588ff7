import SafariScript.Proofs.Parser.Context
import SafariScript.Proofs.Parser.ExpressionCompleteness

/-!
# Expressions in context

Every rule of the expression parser keeps the contract of `Proceeds`, whatever tokens it is given. The rules are
compared for two parsers of nested expressions, one of them with at least the room of the other, so the last
result also says that a looser bound on the nesting does not change what was read under a tighter one.

The only rule that looks two tokens ahead is the one for arguments. Where the part ends behind an identifier, an
equals sign may stand behind the part, and the rule then does something else on the whole. But by then the
identifier is consumed on the part, for it starts an expression (`TakesName`), so the part is used up and nothing
is claimed.
-/

namespace SafariScript
namespace Parser

open Grammar

variable {c : Context} {spares : Bool} {room : Nat} {nested nested' : Parser Expr}

/-! ## Arguments -/

/-- A name by itself is consumed, unless there is no room for it. -/
def TakesName (p : Parser Expr) : Prop :=
  ∀ (s : ParseState) (word : Word), s.rest = [.name word] →
    (s.after p).rest = [] ∨ ∃ s', p s = .error .tooDeep s'

theorem takesName_expression (depth : Nat) : TakesName (expression depth) := by
  intro s word hs
  cases depth with
  | zero => exact Or.inr ⟨s, rfl⟩
  | succ depth =>
      have hname : Derives .assignment [.name word] (Expr.ident word) :=
        .value (derives_tier_of_suffixed (.bare (.ident word)) 6)
      have hreads : s.Reads [.name word] s.advance := .of_rest hs
      have hrest : s.advance.rest = [] := by simp [ParseState.advance, hs]
      have hends : EndsExpression s.advance.rest := by simp [hrest, EndsExpression, EndsTier]
      have hok := complete_expression (depth + 1) hname (Nat.succ_le_succ (Nat.zero_le depth)) hreads hends
      exact Or.inl (by rw [ParseState.after_of_ok hok, hrest])

theorem argument_of_startsNamed {s : ParseState} {word : Word} {l : Int} {us : List Token}
    (hs : s.rest = .name word :: .symbol .equal l :: us) :
    argument nested s = (advance >>= fun _ => advance >>= fun _ => nested >>= fun value =>
      pure (.inr (.mk word value))) s := by
  unfold argument
  rw [bind_apply, remaining_apply]
  simp only [hs]

/-- On one token the rule for arguments cannot be mistaken, unless that token is a name. -/
theorem startsNamed_append_of_ne_name {ts rest : List Token} (h : startsNamed ts = false) (hts : ts ≠ [])
    (hname : ∀ word, ts ≠ [.name word]) : startsNamed (ts ++ rest) = false := by
  rw [← Bool.not_eq_true, startsNamed_eq_true_iff] at h ⊢
  rintro ⟨word, l, us, heq⟩
  rcases ts with _ | ⟨t, _ | ⟨u, ts⟩⟩
  · exact hts rfl
  · obtain ⟨rfl, -⟩ : t = .name word ∧ rest = .symbol .equal l :: us := by simpa using heq
    exact hname word rfl
  · obtain ⟨rfl, rfl, -⟩ : t = .name word ∧ u = .symbol .equal l ∧ ts ++ rest = us := by simpa using heq
    exact h ⟨word, l, ts, rfl⟩

theorem regular_argument (hnested : Regular c spares room true nested nested') (hname : TakesName nested) :
    Regular c spares room true (argument nested) (argument nested') := by
  intro s
  cases hnamed : startsNamed s.rest with
  | true =>
      obtain ⟨word, l, us, hs⟩ := startsNamed_eq_true_iff.1 hnamed
      have hfirst : Proceeds c spares room true s advance advance := proceeds_advance hs fun _ => by simp
      refine Proceeds.of_view (hfirst.eat fun _ s₁ hok => ?_) (argument_of_startsNamed hs) fun t ht _ =>
        argument_of_startsNamed (show t.rest = .name word :: .symbol .equal l :: (us ++ c.behind) by
          rw [ht.rest, hs]; rfl)
      obtain rfl : s.advance = s₁ := by
        cases hok
        rfl
      have hs₁ : s.advance.rest = .symbol .equal l :: us := by simp [ParseState.advance, hs]
      refine (proceeds_advance hs₁ fun _ => by simp).bind fun _ s₂ _ => ?_
      exact ((hnested s₂).weaken (Nat.sub_le room 1)).bind fun value s₃ _ => regular_pure _ s₃
  | false =>
      have hinner : Proceeds c spares room true s (Sum.inl (β := NamedArg) <$> nested)
          (Sum.inl (β := NamedArg) <$> nested') :=
        (hnested s).eat fun value s₁ _ => regular_pure _ s₁
      have heq : argument nested s = (Sum.inl <$> nested) s := argument_of_not_startsNamed hnamed
      have hafter : s.after (argument nested) = s.after nested := by
        unfold ParseState.after
        rw [heq, map_apply]
        cases nested s <;> rfl
      refine ⟨by rw [hafter]; exact (hnested s).moves, ?_, ?_, ?_⟩
      · rw [heq]
        exact hinner.eats
      · rw [heq]
        exact hinner.ample
      · intro t ht hhidden
        rw [heq]
        by_cases hlast : ∃ word, s.rest = [.name word] ∧ c.behind ≠ []
        · -- the name is consumed, and the part with it, while something stands behind it
          obtain ⟨word, hs, hbehind⟩ := hlast
          rcases hname s word hs with hused | ⟨s', hdeep⟩
          · rw [hafter] at hhidden
            rcases hhidden with hrest | ⟨hnone, -⟩
            · exact absurd hused hrest
            · exact absurd hnone hbehind
          · rw [map_apply, hdeep]
            exact .tooDeep s' _
        · have hhidden' : c.Hidden (s.after (Sum.inl (β := NamedArg) <$> nested)) := by
            unfold ParseState.after at hhidden ⊢
            rwa [← heq]
          have hunnamed : startsNamed t.rest = false := by
            rw [ht.rest]
            rcases hhidden'.of_moves hinner.moves with hrest | ⟨hnone, -⟩
            · by_cases hbehind : c.behind = []
              · rw [hbehind, List.append_nil]
                exact hnamed
              · exact startsNamed_append_of_ne_name hnamed hrest fun word hs => hlast ⟨word, hs, hbehind⟩
            · rw [hnone, List.append_nil]
              exact hnamed
          rw [argument_of_not_startsNamed hunnamed]
          exact hinner.steady t ht hhidden'

theorem regular_arguments (hnested : Regular c spares room true nested nested') (hname : TakesName nested) :
    Regular c spares room true (arguments nested) (arguments nested') :=
  (regular_listBefore .rightParen (regular_argument hnested hname)).bind fun _ =>
    (regular_symbol (by decide) _).eat fun _ => regular_pure _

/-! ## Primaries and suffixes -/

/-- A rule whose first token is consumed without a check has one more token of room than what follows. -/
theorem Proceeds.advanceEat {α : Type} {s : ParseState} {kind : TokenKind} {f f' : Int → Parser α}
    (hs : s.rest.head?.map Token.kind = some kind) (hkind : kind ≠ .symbol .semicolon)
    (hf : ∀ line, Regular c spares room false (f line) (f' line)) :
    Proceeds c spares (room + 1) true s (advance >>= f) (advance >>= f') :=
  (proceeds_advance_of_kind hs fun _ => hkind).eat fun line s₁ _ => hf line s₁

theorem proceeds_construction {s : ParseState} {kind : TokenKind} (maker : Maker)
    (hnested : Regular c spares room true nested nested') (hname : TakesName nested)
    (hs : s.rest.head?.map Token.kind = some kind) (hkind : kind ≠ .symbol .semicolon) :
    Proceeds c spares (room + 1) true s (construction nested maker) (construction nested' maker) :=
  .advanceEat hs hkind fun _ => (regular_symbol (by decide) _).bind fun _ =>
    (regular_arguments hnested hname).bind fun _ => regular_pure _

theorem regular_primary (hnested : Regular c spares room true nested nested') (hname : TakesName nested) :
    Regular c spares (room + 1) true (primary nested) (primary nested') := by
  intro s
  refine .ofPeek ?_
  generalize hs : s.rest.head?.map Token.kind = kind?
  split
  case h_7 => exact proceeds_construction .safariZone hnested hname hs (by simp)
  case h_8 => exact proceeds_construction .team hnested hname hs (by simp)
  case h_9 =>
    -- an expression in parentheses
    exact .advanceEat hs (by simp) fun _ => hnested.bind fun inner =>
      (regular_symbol (by decide) _).bind fun _ => regular_pure inner
  case h_10 =>
    -- an array
    exact .advanceEat hs (by simp) fun _ => (regular_listBefore .rightBracket hnested).bind fun elements =>
      (regular_symbol (by decide) _).bind fun _ => regular_pure (Expr.array elements)
  case h_11 => exact regular_stop _ s
  -- literals and names are one token
  all_goals exact .advanceEat hs (by simp) fun _ => regular_pure _

theorem regular_propertySuffix (object : Expr) :
    Regular c spares room true (propertySuffix object) (propertySuffix object) := by
  intro s
  refine (regular_name _ s).eat fun word s₁ _ => ?_
  exact .ifSees (fun _ => regular_stopAt _ _ s₁) fun _ => regular_pure _ s₁

theorem regular_methodSuffix (hnested : Regular c spares room true nested nested') (hname : TakesName nested)
    (object : Expr) : Regular c spares room true (methodSuffix nested object) (methodSuffix nested' object) := by
  intro s
  refine (regular_name _ s).eat fun word s₁ _ => ?_
  refine .ifAccept (fun _ => by simp) (fun line s₂ _ => ?_) fun _ => regular_stopAt _ _ s₁
  exact ((regular_arguments hnested hname).bind fun _ => regular_pure _).weaken (by omega) s₂

theorem regular_indexSuffix (hnested : Regular c spares room true nested nested') (array : Expr) :
    Regular c spares room true (indexSuffix nested array) (indexSuffix nested' array) :=
  hnested.bind fun _ => (regular_symbol (by decide) _).eat fun _ => regular_pure _

theorem suffixes_of_nil {s : ParseState} (hs : s.rest = []) (fuel : List Token) (e : Expr) :
    suffixes nested fuel e s = .ok e s :=
  suffixes_done (by simp [hs, EndsTier]) fuel e

/-- Like every loop over the tokens to come, this one ends before its fuel does. -/
theorem proceeds_suffixes (hnested : Regular c spares room true nested nested') (hname : TakesName nested)
    (fuel fuel' : List Token) (e : Expr) (s : ParseState) (hfuel : s.rest.length ≤ fuel.length)
    (hfuel' : s.rest.length + c.behind.length ≤ fuel'.length) :
    Proceeds c spares room false s (suffixes nested fuel e) (suffixes nested' fuel' e) := by
  induction fuel generalizing fuel' e s with
  | nil =>
      have hs : s.rest = [] := List.length_eq_zero_iff.1 (Nat.le_zero.1 hfuel)
      refine (regular_pure e s).of_view (suffixes_of_nil hs _ e) fun t ht hhidden => ?_
      exact suffixes_of_nil (ht.rest_eq_nil hhidden hs) _ e
  | cons u fuel ih =>
      by_cases hs : s.rest = []
      · refine (regular_pure e s).of_view (suffixes_of_nil hs _ e) fun t ht hhidden => ?_
        exact suffixes_of_nil (ht.rest_eq_nil hhidden hs) _ e
      · have hpos : 0 < s.rest.length := List.length_pos_iff.2 hs
        cases fuel' with
        | nil =>
            rw [List.length_nil] at hfuel'
            omega
        | cons u' fuel' =>
            rw [List.length_cons] at hfuel hfuel'
            -- the opening token of a suffix pays for the turn, whatever the rest of the suffix consumes
            have hturn {α : Type} {part part' : Parser α} (hpart : Regular c spares room true part part')
                (next : α → Expr) {kind : TokenKind} {line : Int} {s₁ : ParseState}
                (hopen : s.Reads [⟨kind, line⟩] s₁) :
                Proceeds c spares (room - 1) false s₁ (part >>= fun a => suffixes nested fuel (next a))
                  (part' >>= fun a => suffixes nested' fuel' (next a)) := by
              have hlength := hopen.length_eq
              rw [List.length_singleton] at hlength
              refine Proceeds.bind ((hpart s₁).weaken (Nat.sub_le room 1)) fun a s₂ hok => ?_
              have hlength₂ := ((hpart s₁).moves_of_ok hok).length_le
              exact (ih fuel' (next a) s₂ (by omega) (by omega)).weaken (Nat.sub_le room 1)
            refine .ifAccept (fun _ => by decide) (fun line s₁ hopen => ?_) fun _ => ?_
            · exact hturn (regular_arguments hnested hname) (fun result => .call e result.2.2 result.1 result.2.1)
                hopen
            refine .ifAccept (fun _ => by decide) (fun line s₁ hopen => ?_) fun _ => ?_
            · exact hturn (regular_propertySuffix e) id hopen
            refine .ifAccept (fun _ => by decide) (fun line s₁ hopen => ?_) fun _ => ?_
            · exact hturn (regular_methodSuffix hnested hname e) id hopen
            refine .ifAccept (fun _ => by decide) (fun line s₁ hopen => ?_) fun _ => regular_pure e s
            exact hturn (regular_indexSuffix hnested e) id hopen

theorem regular_suffixed (hnested : Regular c spares room true nested nested') (hname : TakesName nested) :
    Regular c spares (room + 1) true (suffixed nested) (suffixed nested') := by
  intro s
  refine (regular_primary hnested hname s).eat fun e s₁ _ => .ofRemaining ?_
  exact proceeds_suffixes hnested hname s₁.rest (s₁.rest ++ c.behind) e s₁ (Nat.le_refl _)
    (Nat.le_of_eq List.length_append.symm)

/-! ## Operators -/

theorem unaryOp_ne_semicolon {kind : TokenKind} {op : UnaryOp} (h : UnaryOp.ofKind? kind = some op) :
    kind ≠ .symbol .semicolon := by
  rintro rfl
  cases h

theorem binaryOp_ne_semicolon {kind : TokenKind} {op : BinaryOp} (h : BinaryOp.ofKind? kind = some op) :
    kind ≠ .symbol .semicolon := by
  rintro rfl
  cases h

theorem regular_unary {operand operand' : Parser Expr} {depth depth' : Nat}
    (hoperand : Regular c spares room true operand operand') (hroom : room ≤ depth) (hdepth : depth ≤ depth') :
    Regular c spares room true (unary operand depth) (unary operand' depth') := by
  induction depth generalizing room depth' with
  | zero =>
      obtain rfl : room = 0 := Nat.le_zero.1 hroom
      exact regular_tooDeep _
  | succ depth ih =>
      obtain ⟨depth', rfl⟩ : ∃ n, depth' = n + 1 := ⟨depth' - 1, by omega⟩
      intro s
      refine .ofPeek ?_
      split
      · next op hop =>
        obtain ⟨kind, hkind, hop⟩ := Option.bind_eq_some_iff.1 hop
        refine (proceeds_advance_of_kind hkind fun _ => unaryOp_ne_semicolon hop).eat fun line s₁ _ => ?_
        have hinner := ih (hoperand.weaken (Nat.sub_le room 1)) (by omega) (Nat.le_of_succ_le_succ hdepth)
        exact (hinner s₁).bind fun e s₂ _ => regular_pure _ s₂
      · exact hoperand s

theorem chainRest_of_nil {operand : Parser Expr} {rank : Nat} {s : ParseState} (hs : s.rest = [])
    (fuel : List Token) (left : Expr) : chainRest operand rank fuel left s = .ok left s :=
  chainRest_done (by simp [hs, EndsTier]) fuel left

theorem proceeds_chainRest {operand operand' : Parser Expr} (rank : Nat)
    (hoperand : Regular c spares room true operand operand') (fuel fuel' : List Token) (left : Expr)
    (s : ParseState) (hfuel : s.rest.length ≤ fuel.length)
    (hfuel' : s.rest.length + c.behind.length ≤ fuel'.length) :
    Proceeds c spares room false s (chainRest operand rank fuel left) (chainRest operand' rank fuel' left) := by
  induction fuel generalizing fuel' left s with
  | nil =>
      have hs : s.rest = [] := List.length_eq_zero_iff.1 (Nat.le_zero.1 hfuel)
      refine (regular_pure left s).of_view (chainRest_of_nil hs _ left) fun t ht hhidden => ?_
      exact chainRest_of_nil (ht.rest_eq_nil hhidden hs) _ left
  | cons u fuel ih =>
      by_cases hs : s.rest = []
      · refine (regular_pure left s).of_view (chainRest_of_nil hs _ left) fun t ht hhidden => ?_
        exact chainRest_of_nil (ht.rest_eq_nil hhidden hs) _ left
      · have hpos : 0 < s.rest.length := List.length_pos_iff.2 hs
        cases fuel' with
        | nil =>
            rw [List.length_nil] at hfuel'
            omega
        | cons u' fuel' =>
            rw [List.length_cons] at hfuel hfuel'
            refine .ofPeek ?_
            split
            · next op hop =>
              obtain ⟨kind, hkind, hop⟩ := Option.bind_eq_some_iff.1 hop
              split
              · have hadvance : Proceeds c spares room true s advance advance :=
                  proceeds_advance_of_kind hkind fun _ => binaryOp_ne_semicolon hop
                refine (hadvance.eat fun line s₁ hok => ?_).lazy
                have hlength := hadvance.eats rfl line s₁ hok
                refine ((hoperand s₁).weaken (Nat.sub_le room 1)).bind fun right s₂ hok₂ => ?_
                have hlength₂ := ((hoperand s₁).moves_of_ok hok₂).length_le
                exact (ih fuel' _ s₂ (by omega) (by omega)).weaken (Nat.sub_le room 1)
              · exact regular_pure left s
            · exact regular_pure left s

theorem regular_tier {operand operand' : Parser Expr} (hoperand : Regular c spares room true operand operand')
    (bound : Nat) : Regular c spares room true (tier operand bound) (tier operand' bound) := by
  induction bound with
  | zero => exact hoperand
  | succ rank ih =>
      intro s
      refine (ih s).eat fun left s₁ _ => .ofRemaining ?_
      exact (proceeds_chainRest rank ih s₁.rest (s₁.rest ++ c.behind) left s₁ (Nat.le_refl _)
        (Nat.le_of_eq List.length_append.symm)).weaken (Nat.sub_le room 1)

/-! ## Assignments -/

theorem regular_assignTo (target : Expr) (place : Word) (value : Expr) :
    Regular c spares room false (assignTo target place value) (assignTo target place value) := by
  unfold assignTo
  split
  case h_4 => exact (regular_complain _ _).bind fun _ => regular_pure _
  all_goals exact regular_pure _

theorem regular_assignment {operand operand' : Parser Expr} {depth depth' : Nat}
    (hoperand : Regular c spares room true operand operand') (hroom : room ≤ depth) (hdepth : depth ≤ depth') :
    Regular c spares room true (assignment operand depth) (assignment operand' depth') := by
  induction depth generalizing room depth' with
  | zero =>
      obtain rfl : room = 0 := Nat.le_zero.1 hroom
      exact regular_tooDeep _
  | succ depth ih =>
      obtain ⟨depth', rfl⟩ : ∃ n, depth' = n + 1 := ⟨depth' - 1, by omega⟩
      intro s
      refine (hoperand s).eat fun left s₁ _ => ?_
      have hrest : Proceeds c spares (room - 1) false s₁
          (do if ← accept (.symbol .equal) then assignment operand depth >>= assignTo left s₁.here
              else pure left)
          (do if ← accept (.symbol .equal) then assignment operand' depth' >>= assignTo left s₁.here
              else pure left) := by
        refine .ifAccept (fun _ => by decide) (fun line s₂ _ => ?_) fun _ => regular_pure left s₁
        have hinner := ih (hoperand.weaken (Nat.sub_le room 1)) (by omega) (Nat.le_of_succ_le_succ hdepth)
        exact ((hinner s₂).weaken (Nat.sub_le (room - 1) 1)).bind fun value s₃ _ =>
          regular_assignTo left _ value s₃
      -- the place of the equals sign is looked at before it is known whether there is one
      refine hrest.of_view rfl fun t ht hhidden => ?_
      rw [bind_apply, get_apply]
      simp only [ht.here_eq hhidden]

/-- Expressions keep the contract with as much room as their bound on the nesting. -/
theorem regular_expression {depth depth' : Nat} (hdepth : depth ≤ depth') :
    Regular c spares depth true (expression depth) (expression depth') := by
  induction depth generalizing depth' with
  | zero => exact regular_tooDeep _
  | succ depth ih =>
      obtain ⟨depth', rfl⟩ : ∃ n, depth' = n + 1 := ⟨depth' - 1, by omega⟩
      have hsuffixed := regular_suffixed (ih (Nat.le_of_succ_le_succ hdepth)) (takesName_expression depth)
      have hframes : depth + 1 ≤ expressionFrames * (depth + 1) := Nat.le_mul_of_pos_left _ (by decide)
      have hframes' : expressionFrames * (depth + 1) ≤ expressionFrames * (depth' + 1) :=
        Nat.mul_le_mul_left _ hdepth
      exact regular_assignment (regular_tier (regular_unary hsuffixed hframes hframes') ranks) hframes hframes'

end Parser
end SafariScript
