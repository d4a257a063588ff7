import SafariScript.Proofs.Parser.ExpressionContext
import SafariScript.Proofs.Parser.Repetition

/-!
# Expressions read again

Every rule of the expression parser keeps the contract of `Mirrors`: the loops behind an operand stop at a semicolon
and at the end of the source as they do at any token that does not continue the expression, and the rule for
arguments, which looks two tokens ahead, is not misled by what stands behind the argument.
-/

namespace SafariScript
namespace Parser

open Grammar

variable {strict eats : Bool} {nested nested' operand operand' : Parser Expr}

/-! ## Arguments -/

/-- The second of the two tokens that are looked at may be the one behind the argument. -/
theorem startsNamed_of_follows {ts us ws : List Token} (h : startsNamed (ts ++ us) = false) (hts : ts ≠ [])
    (hfollows : Follows strict us ws) : startsNamed (ts ++ ws) = false := by
  rw [← Bool.not_eq_true, startsNamed_eq_true_iff] at h ⊢
  rintro ⟨word, l, vs, heq⟩
  rcases ts with _ | ⟨t, _ | ⟨u, ts⟩⟩
  · exact hts rfl
  · obtain ⟨rfl, rfl⟩ : t = .name word ∧ ws = .symbol .equal l :: vs := by simpa using heq
    rcases hfollows with hhead | ⟨-, hsilent⟩
    · obtain ⟨⟨kind, l'⟩, hfirst, rfl⟩ := Option.map_eq_some_iff.1 hhead.symm
      obtain ⟨us, rfl⟩ := List.head?_eq_some_iff.1 hfirst
      exact h ⟨word, l', us, rfl⟩
    · exact absurd (hsilent _ rfl) (by simp)
  · obtain ⟨rfl, rfl, -⟩ : t = .name word ∧ u = .symbol .equal l ∧ ts ++ ws = vs := by simpa using heq
    exact h ⟨word, l, ts ++ us, rfl⟩

theorem mirrors_argument (hnested : Mirrors strict true nested nested') :
    Mirrors strict true (argument nested) (argument nested') := by
  refine (sound_remaining.bind (T := fun ts s item s' => ts = s.rest →
    Repeats strict true (argument nested') s item s') fun ts => ?_).mono ?_
  · split
    · next text line line' rest =>
      refine (sound_advance.bind fun _ => sound_advance.bind fun _ => Sound.bind hnested fun value =>
        sound_pure _).mono ?_
      rintro s item s' ⟨_, s₁, hname, _, s₂, hequal, value, s₃, ⟨ts, hvalue, -, hagain⟩, rfl, rfl⟩ hrest
      obtain ⟨hname, -⟩ := hname _ _ hrest.symm
      have hrest₁ : s₁.rest = .symbol .equal line' :: rest := by
        simpa [← hrest] using hname.rest.symm
      obtain ⟨hequal, -⟩ := hequal _ _ hrest₁
      refine ⟨_, hname.append (hequal.append hvalue), fun _ => List.cons_ne_nil _ _, fun t t' ht hfollows => ?_⟩
      have hnamed : t.rest = .name ⟨text, line⟩ :: .symbol .equal line' :: (ts ++ t'.rest) := ht.rest
      obtain ⟨t₁, hname', ht₁⟩ := ht.uncons
      obtain ⟨t₂, hequal', ht₂⟩ := ht₁.uncons
      rw [argument_of_startsNamed hnamed, bind_of_ok (advance_reads hname'), bind_of_ok (advance_reads hequal'),
        bind_of_ok (hagain t₂ t' ht₂ hfollows)]
      rfl
    · next hunnamed =>
      refine (Sound.bind hnested fun value => sound_pure _).mono ?_
      rintro s item s' ⟨value, s₁, ⟨ts, hvalue, heats, hagain⟩, rfl, rfl⟩ rfl
      refine ⟨ts, hvalue, heats, fun t t' ht hfollows => ?_⟩
      have hs : startsNamed (ts ++ s'.rest) = false := by
        rw [← hvalue.rest]
        unfold startsNamed
        split
        · next text line line' rest hrest => exact absurd hrest (hunnamed text line line' rest)
        · rfl
      have ht' : startsNamed t.rest = false := by
        rw [ht.rest]
        exact startsNamed_of_follows hs (heats rfl) hfollows
      rw [argument_of_not_startsNamed ht', map_apply, hagain t t' ht hfollows]
  · rintro s item s' ⟨ts, s₁, ⟨rfl, rfl⟩, h⟩
    exact h rfl

theorem mirrors_arguments (hnested : Mirrors strict true nested nested') :
    Mirrors strict true (arguments nested) (arguments nested') :=
  (mirrors_listBefore .rightParen (mirrors_argument hnested)).before fun _ =>
    (mirrors_symbol _ _).eat fun _ => mirrors_pure _

/-! ## Primaries and suffixes -/

theorem mirrors_primary (hnested : Mirrors strict true nested nested') :
    Mirrors strict true (primary nested) (primary nested') := by
  refine .ofPeek fun kind => ?_
  have hconstruction (maker : Maker) (kind : TokenKind) : Sound (construction nested maker) fun s a s' =>
      s.rest.head?.map Token.kind = some kind → Repeats strict true (construction nested' maker) s a s' :=
    Mirrors.advance fun _ => (mirrors_symbol _ _).bind fun _ => (mirrors_arguments hnested).bind fun _ => mirrors_pure _
  split
  case h_7 => exact hconstruction .safariZone _
  case h_8 => exact hconstruction .team _
  case h_9 =>
    -- an expression in parentheses
    exact Mirrors.advance fun _ => hnested.bind fun inner => (mirrors_symbol _ _).bind fun _ => mirrors_pure inner
  case h_10 =>
    -- an array
    exact Mirrors.advance fun _ => (mirrors_listBefore .rightBracket hnested).before fun elements =>
      (mirrors_symbol _ _).eat fun _ => mirrors_pure (Expr.array elements)
  case h_11 => exact Sound.mono (mirrors_stop _ _) fun _ _ _ h _ => h
  -- literals and names are one token
  all_goals exact Mirrors.advance fun _ => mirrors_pure _

theorem mirrors_propertySuffix (object : Expr) :
    Mirrors strict true (propertySuffix object) (propertySuffix object) :=
  (mirrors_name _).eat fun _ => .ifSees (by simp) (mirrors_stopAt _ _ _) (mirrors_pure _)

theorem mirrors_methodSuffix (hnested : Mirrors strict true nested nested') (object : Expr) :
    Mirrors strict true (methodSuffix nested object) (methodSuffix nested' object) :=
  (mirrors_name _).eat fun _ => .ifAccept (by simp)
    ((mirrors_arguments hnested).bind fun _ => mirrors_pure _) (mirrors_stopAt _ _ _ : Mirrors strict false _ _)

theorem mirrors_indexSuffix (hnested : Mirrors strict true nested nested') (array : Expr) :
    Mirrors strict true (indexSuffix nested array) (indexSuffix nested' array) :=
  hnested.eat fun _ => (mirrors_symbol _ _).bind fun _ => mirrors_pure _

theorem Follows.endsTier {bound : Nat} {us ws : List Token} (h : Follows strict us ws) (hus : EndsTier bound us) :
    EndsTier bound ws := by
  intro t ht
  rcases h with hhead | ⟨-, hsilent⟩
  · rw [Option.mem_def.1 ht] at hhead
    obtain ⟨u, hu, hkind⟩ := Option.map_eq_some_iff.1 hhead.symm
    rw [← hkind]
    exact hus u hu
  · rw [hsilent t ht]
    refine ⟨rfl, fun op hop => ?_⟩
    cases op with
    | int op => cases op <;> cases hop
    | _ => cases hop

theorem endsTier_zero {s : ParseState} (h : ∀ kind, startsSuffix kind = true → s.sees kind = false) :
    EndsTier 0 s.rest := by
  intro t ht
  refine ⟨?_, fun op _ => Nat.zero_le _⟩
  cases hsuffix : startsSuffix t.kind with
  | false => rfl
  | true =>
      have hsees := h t.kind hsuffix
      rw [ParseState.sees_eq_head, Option.mem_def.1 ht] at hsees
      simp at hsees

theorem again_suffixes (hnested : Mirrors strict true nested nested') (fuel : List Token) (e : Expr) :
    Sound (suffixes nested fuel e) (Again strict fuel fun fuel' => suffixes nested' fuel' e) := by
  have hdone (fuel : List Token) (e : Expr) (s : ParseState) (hs : EndsTier 0 s.rest) :
      Again strict fuel (fun fuel' => suffixes nested' fuel' e) s e s :=
    .done fuel fun fuel' t hfollows => suffixes_done (hfollows.endsTier hs) fuel' e
  induction fuel generalizing e with
  | nil =>
      refine (sound_pure _).mono ?_
      rintro s a s' ⟨rfl, rfl⟩ hfuel
      have hnil : s'.rest = [] := List.length_eq_zero_iff.1 (Nat.le_zero.1 hfuel)
      exact hdone [] a s' (by simp [hnil, EndsTier]) hfuel
  | cons u fuel ih =>
      -- the token that opens a suffix tells it from the others, also where it is read again
      have hother {kind kind' : TokenKind} {line : Int} {t t₁ : ParseState} (ht : t.Reads [⟨kind, line⟩] t₁)
          (hkind : kind ≠ kind') : t.sees kind' = false := by
        rw [ht.sees_eq, beq_eq_false_iff_ne]
        exact hkind
      refine Sound.ifAccept (Again.bind (mirrors_arguments hnested) fun result =>
        ih (.call e result.2.2 result.1 result.2.1)) ?_ ?_
      · rintro s line s₁ a s' hopen hagain
        refine hagain.turn u hopen (List.cons_ne_nil _ _) fun u' fuel' t t₁ ht _ => ?_
        exact bind_of_ok (accept_reads ht) _
      refine Sound.ifAccept (Again.bind (mirrors_propertySuffix e) ih) ?_ ?_
      · rintro s line s₁ a s' hopen hagain -
        refine hagain.turn u hopen (List.cons_ne_nil _ _) fun u' fuel' t t₁ ht _ => ?_
        refine (ifAccept_of_not_sees (hother ht (by simp)) _ _).trans ?_
        exact bind_of_ok (accept_reads ht) _
      refine Sound.ifAccept (Again.bind (mirrors_methodSuffix hnested e) ih) ?_ ?_
      · rintro s line s₁ a s' hopen hagain - -
        refine hagain.turn u hopen (List.cons_ne_nil _ _) fun u' fuel' t t₁ ht _ => ?_
        refine (ifAccept_of_not_sees (hother ht (by simp)) _ _).trans ?_
        refine (ifAccept_of_not_sees (hother ht (by simp)) _ _).trans ?_
        exact bind_of_ok (accept_reads ht) _
      refine Sound.ifAccept (Again.bind (mirrors_indexSuffix hnested e) ih) ?_ ((sound_pure _).mono ?_)
      · rintro s line s₁ a s' hopen hagain - - -
        refine hagain.turn u hopen (List.cons_ne_nil _ _) fun u' fuel' t t₁ ht _ => ?_
        refine (ifAccept_of_not_sees (hother ht (by simp)) _ _).trans ?_
        refine (ifAccept_of_not_sees (hother ht (by simp)) _ _).trans ?_
        refine (ifAccept_of_not_sees (hother ht (by simp)) _ _).trans ?_
        exact bind_of_ok (accept_reads ht) _
      · rintro s a s' ⟨rfl, rfl⟩ hbracket harrow hdot hparen
        refine hdone (u :: fuel) a _ (endsTier_zero fun kind hkind => ?_)
        unfold startsSuffix at hkind
        split at hkind
        case h_1 => exact hparen
        case h_2 => exact hdot
        case h_3 => exact harrow
        case h_4 => exact hbracket
        case h_5 => cases hkind

theorem mirrors_suffixed (hnested : Mirrors strict true nested nested') :
    Mirrors strict true (suffixed nested) (suffixed nested') :=
  (mirrors_primary hnested).eat fun e => .ofRemaining fun fuel => again_suffixes hnested fuel e

/-! ## Operators -/

theorem mirrors_unary (hoperand : Mirrors strict true operand operand') (depth : Nat) :
    Mirrors strict true (unary operand depth) (unary operand' depth) := by
  induction depth with
  | zero => exact sound_throw _ _
  | succ depth ih =>
      refine .ofPeek fun kind => ?_
      split
      · next op hop =>
        obtain ⟨kind, rfl, -⟩ := Option.bind_eq_some_iff.1 hop
        exact Mirrors.advance fun line => ih.bind fun e => mirrors_pure _
      · exact Sound.mono hoperand fun _ _ _ h _ => h

/-- The next token is no operator of the rank. -/
def EndsChain (rank : Nat) (rest : List Token) : Prop :=
  ∀ op, (rest.head?.map Token.kind).bind BinaryOp.ofKind? = some op → op.rank ≠ rank

theorem Follows.endsChain {rank : Nat} {us ws : List Token} (h : Follows strict us ws) (hus : EndsChain rank us) :
    EndsChain rank ws := by
  intro op hop
  rcases h with hhead | ⟨-, hsilent⟩
  · rw [hhead] at hop
    exact hus op hop
  · obtain ⟨kind, hkind, hop⟩ := Option.bind_eq_some_iff.1 hop
    obtain ⟨t, ht, rfl⟩ := Option.map_eq_some_iff.1 hkind
    exact absurd (hsilent t ht) (binaryOp_ne_semicolon hop)

theorem chainRest_of_endsChain {rank : Nat} {s : ParseState} (h : EndsChain rank s.rest) (fuel : List Token)
    (left : Expr) : chainRest operand rank fuel left s = .ok left s := by
  cases fuel with
  | nil => rfl
  | cons u fuel =>
      unfold chainRest
      rw [bind_apply, peek_apply]
      cases hop : (s.rest.head?.map Token.kind).bind BinaryOp.ofKind? with
      | none => simp only [hop]; rfl
      | some op =>
          have hrank : (op.rank == rank) = false := beq_eq_false_iff_ne.2 (h op hop)
          simp only [hop, hrank]
          rfl

theorem chainRest_operator {rank : Nat} {op : BinaryOp} {kind : TokenKind} {line : Int} {t t₁ : ParseState}
    (ht : t.Reads [⟨kind, line⟩] t₁) (hkind : BinaryOp.ofKind? kind = some op) (hrank : (op.rank == rank) = true)
    (u : Token) (fuel : List Token) (left : Expr) :
    chainRest operand rank (u :: fuel) left t =
      (operand >>= fun right => chainRest operand rank fuel (.binary left op line right)) t₁ := by
  rw [chainRest, bind_apply, peek_apply, ht.head_eq]
  simp only [Option.map_some, Option.bind_some, hkind, hrank, if_true]
  exact bind_of_ok (advance_reads ht) _

theorem again_chainRest (rank : Nat) (hoperand : Mirrors strict eats operand operand') (fuel : List Token)
    (left : Expr) : Sound (chainRest operand rank fuel left)
      (Again strict fuel fun fuel' => chainRest operand' rank fuel' left) := by
  have hdone (fuel : List Token) (left : Expr) (s : ParseState) (hs : EndsChain rank s.rest) :
      Again strict fuel (fun fuel' => chainRest operand' rank fuel' left) s left s :=
    .done fuel fun fuel' t hfollows => chainRest_of_endsChain (hfollows.endsChain hs) fuel' left
  induction fuel generalizing left with
  | nil =>
      refine (sound_pure _).mono ?_
      rintro s a s' ⟨rfl, rfl⟩ hfuel
      have hnil : s'.rest = [] := List.length_eq_zero_iff.1 (Nat.le_zero.1 hfuel)
      exact hdone [] a s' (by simp [hnil, EndsChain]) hfuel
  | cons u fuel ih =>
      refine sound_ofPeek fun kind => ?_
      split
      · next op hop =>
        split
        · next hrank =>
          obtain ⟨kind, rfl, hkind⟩ := Option.bind_eq_some_iff.1 hop
          refine ((sound_advance_of_kind kind).bind fun line =>
            Again.bind hoperand fun right => ih (.binary left op line right)).mono ?_
          rintro s a s' ⟨line, s₁, hadvance, hagain⟩ hs
          refine hagain.turn u (hadvance hs) (List.cons_ne_nil _ _) fun u' fuel' t t₁ ht _ => ?_
          exact chainRest_operator ht hkind hrank u' fuel' left
        · next hrank =>
          refine (sound_pure _).mono ?_
          rintro s a s' ⟨rfl, rfl⟩ hs
          refine hdone (u :: fuel) a _ fun op' hop' => ?_
          rw [hs, hop] at hop'
          cases hop'
          simpa using hrank
      · next hop =>
        refine (sound_pure _).mono ?_
        rintro s a s' ⟨rfl, rfl⟩ hs
        refine hdone (u :: fuel) a _ fun op' hop' => ?_
        rw [hs, hop] at hop'
        cases hop'

theorem mirrors_tier (hoperand : Mirrors strict true operand operand') (bound : Nat) :
    Mirrors strict true (tier operand bound) (tier operand' bound) := by
  induction bound with
  | zero => exact hoperand
  | succ rank ih => exact ih.eat fun left => .ofRemaining fun fuel => again_chainRest rank ih fuel left

/-! ## Assignments -/

/-- Where a complaint would point does not matter if there is none. -/
theorem mirrors_assignTo (target value : Expr) (place place' : Word) :
    Mirrors strict false (assignTo target place value) (assignTo target place' value) := by
  unfold assignTo
  split
  case h_4 =>
    refine ((sound_complain _ _).bind fun _ => sound_pure _).mono ?_
    rintro s a s' ⟨_, _, hfalse, -⟩
    exact hfalse.elim
  all_goals exact mirrors_pure _

theorem mirrors_assignment (hoperand : Mirrors strict true operand operand') (depth : Nat) :
    Mirrors strict true (assignment operand depth) (assignment operand' depth) := by
  induction depth with
  | zero => exact sound_throw _ _
  | succ depth ih =>
      exact hoperand.eat fun left => .ofGet fun x y =>
        .ifAccept (by simp) (ih.bind fun value => mirrors_assignTo left value x.here y.here) (mirrors_pure left)

/-- What an expression parser reads, it reads again in front of what may follow. -/
theorem mirrors_expression (depth : Nat) : Mirrors strict true (expression depth) (expression depth) := by
  induction depth with
  | zero => exact sound_throw _ _
  | succ depth ih => exact mirrors_assignment (mirrors_tier (mirrors_unary (mirrors_suffixed ih) _) _) _

end Parser
end SafariScript
