import SafariScript.Proofs.Parser.ExpressionContext
import SafariScript.Proofs.Parser.Recovery

/-!
# Statements in context

Every rule of the statement parser keeps the contract of `Proceeds`, whatever tokens it is given. The line of the
token consumed last matters only where a semicolon may be left out, and there at least the first token of the
statement has been consumed; so it has to be the same on the part and on the whole only behind that token
(`Context.Lined`).
-/

namespace SafariScript

/-- Where a semicolon may be left out, the lines are the same once the given number of tokens is left. -/
def Context.Lined (c : Context) (around : Surroundings) (left : Nat) : Prop :=
  around.interactive = true → around.inBlock = false → left < c.lined

theorem Context.Lined.of_le {c : Context} {around : Surroundings} {left left' : Nat} (h : c.Lined around left)
    (hle : left' ≤ left) : c.Lined around left' :=
  fun hinteractive houtside => Nat.lt_of_le_of_lt hle (h hinteractive houtside)

/-- Inside a block no semicolon may be left out. -/
theorem Context.lined_of_inBlock {c : Context} {around : Surroundings} (h : around.inBlock = true) (left : Nat) :
    c.Lined around left :=
  fun _ houtside => absurd (h.symm.trans houtside) (by decide)

namespace Parser

open Grammar

variable {α β : Type} {c : Context} {spares : Bool} {room : Nat} {around : Surroundings}
variable {nested nested' : Parser Expr}

/-! ## Ends of statements -/

/-- A parser keeps the contract from every state on where the end of the line is the same on the part and on the
whole. -/
def Late (c : Context) (around : Surroundings) (room : Nat) (p p' : Parser α) : Prop :=
  ∀ s, c.Lined around s.rest.length → Proceeds c false room false s p p'

theorem Regular.late {eats : Bool} {p p' : Parser α} (h : Regular c false room eats p p') :
    Late c around room p p' :=
  fun s _ => (h s).lazy

theorem Late.bind {p p' : Parser α} {f f' : α → Parser β} (hp : Late c around room p p')
    (hf : ∀ a, Late c around room (f a) (f' a)) : Late c around room (p >>= f) (p' >>= f') := by
  intro s hlined
  refine (hp s hlined).bind fun a s₁ hok => hf a s₁ (hlined.of_le ?_)
  exact ((hp s hlined).moves_of_ok hok).length_le

/-- Behind a token that was consumed, the lines are the same. -/
theorem Proceeds.eatLate {s : ParseState} {p p' : Parser α} {f f' : α → Parser β}
    (hp : Proceeds c false room true s p p') (hlined : c.Lined around (s.rest.length - 1))
    (hf : ∀ a, Late c around (room - 1) (f a) (f' a)) :
    Proceeds c false room true s (p >>= f) (p' >>= f') := by
  refine hp.eat fun a s₁ hok => hf a s₁ (hlined.of_le ?_)
  have hlength := hp.eats rfl a s₁ hok
  omega

theorem late_terminate (position : String) :
    Late c around room (terminate around position) (terminate around position) := by
  intro s hlined
  refine .ifAccept nofun (fun line s₁ _ => regular_pure () s₁) fun _ => ?_
  by_cases hends : (around.interactive && !around.inBlock && s.atLineEnd) = true
  · refine (regular_pure () s).of_view ?_ fun t ht hhidden => ?_
    · rw [bind_apply, get_apply]
      simp only [hends, if_true]
    · rw [bind_apply, get_apply]
      simp only [Bool.and_eq_true, Bool.not_eq_true'] at hends
      simp [hends, ht.atLineEnd_eq hhidden (hlined hends.1.1 hends.1.2)]
  · refine (regular_stop (.missing ";" position) s).of_view ?_ fun t ht hhidden => ?_
    · rw [bind_apply, get_apply]
      simp only [hends]
      rfl
    · rw [bind_apply, get_apply]
      have hends' : ¬(around.interactive && !around.inBlock && t.atLineEnd) = true := by
        simp only [Bool.and_eq_true, Bool.not_eq_true'] at hends ⊢
        rintro ⟨⟨hinteractive, houtside⟩, hline⟩
        rw [ht.atLineEnd_eq hhidden (hlined hinteractive houtside)] at hline
        exact hends ⟨⟨hinteractive, houtside⟩, hline⟩
      simp only [hends']
      rfl

/-! ## Simple statements -/

theorem late_varDeclaration {eats : Bool} (hnested : Regular c false room eats nested nested') :
    Late c around room (varDeclaration around nested) (varDeclaration around nested') :=
  (regular_name _).late.bind fun _ => (regular_optionalAfter (by decide) hnested).late.bind fun _ =>
    (late_terminate _).bind fun _ => (regular_pure _).late

theorem late_printing {eats : Bool} (hnested : Regular c false room eats nested nested') :
    Late c around room (printing around nested) (printing around nested') :=
  (regular_symbol (by decide) _).late.bind fun _ => hnested.late.bind fun _ =>
    (regular_symbol (by decide) _).late.bind fun _ => (late_terminate _).bind fun _ => (regular_pure _).late

theorem late_lone (word : Word) (allowed : Bool) (complaint : Complaint) (stmt : Stmt) :
    Late c around room (lone around word allowed complaint stmt) (lone around word allowed complaint stmt) := by
  refine (late_terminate _).bind fun _ => ?_
  cases allowed with
  | true => exact (regular_pure _).late
  | false => exact (regular_complain _ _).late.bind fun _ => (regular_pure _).late

theorem regular_returnValue {eats : Bool} (hnested : Regular c spares room eats nested nested') :
    Regular c spares room false (returnValue nested) (returnValue nested') := by
  intro s
  exact .ifSees (fun _ => regular_pure none s) fun _ =>
    (hnested s).bind fun value s₁ _ => regular_pure _ s₁

theorem late_returning {eats : Bool} (hnested : Regular c false room eats nested nested') (line : Int) :
    Late c around room (returning around nested line) (returning around nested' line) :=
  (regular_returnValue hnested).late.bind fun _ => (late_terminate _).bind fun _ => (regular_pure _).late

theorem late_throwing {eats : Bool} (hnested : Regular c false room eats nested nested') (line : Int) :
    Late c around room (throwing around nested line) (throwing around nested' line) :=
  (regular_symbol (by decide) _).late.bind fun _ => hnested.late.bind fun _ =>
    (regular_symbol (by decide) _).late.bind fun _ => (late_terminate _).bind fun _ => (regular_pure _).late

/-! ## Statements with blocks -/

theorem regular_condition {eats : Bool} (hnested : Regular c spares room eats nested nested') (keyword : String) :
    Regular c spares room true (condition nested keyword) (condition nested' keyword) :=
  (regular_symbol (by decide) _).eat fun _ => hnested.bind fun _ =>
    (regular_symbol (by decide) _).bind fun _ => regular_pure _

theorem regular_signature : Regular c spares room true signature signature :=
  (regular_name _).eat fun _ => (regular_symbol (by decide) _).bind fun _ =>
    (regular_listBefore _ (regular_name _)).bind fun _ => (regular_symbol (by decide) _).bind fun _ =>
      (regular_symbol (by decide) _).bind fun _ => regular_pure _

theorem regular_iteration {eats : Bool} (hnested : Regular c spares room eats nested nested') :
    Regular c spares room true (iteration nested) (iteration nested') :=
  (regular_name _).eat fun _ => (regular_expect (by decide) _).bind fun _ => hnested.bind fun _ =>
    (regular_optionalAfter (by decide) hnested).bind fun _ => (regular_symbol (by decide) _).bind fun _ =>
      regular_pure _

theorem regular_exploration : Regular c spares room true exploration exploration :=
  (regular_symbol (by decide) _).eat fun _ => (regular_name _).bind fun _ =>
    (regular_symbol (by decide) _).bind fun _ => (regular_symbol (by decide) _).bind fun _ => regular_pure _

theorem regular_block {item item' : Parser Stmt} (hitem : Regular c false room true item item') :
    Regular c false room true (block item) (block item') := by
  intro s
  refine .ofRemaining ?_
  have hitems := proceeds_items true (fun s hs _ => proceeds_recover true (hitem s) hs) s.rest
    (s.rest ++ c.behind) s (Nat.le_refl _) (Nat.le_of_eq List.length_append.symm) (Nat.le_refl _)
  refine hitems.bind fun body s₁ _ => ?_
  exact (regular_symbol (by decide) _).eat (fun _ => regular_pure _) s₁

section Chain

variable {body body' : Parser (List Stmt)}

theorem regular_elseBranch {chain chain' : Parser (Expr × List Stmt × Otherwise)} {eats : Bool}
    (hchain : Regular c false room eats chain chain') (hbody : Regular c false room true body body') :
    Regular c false room false (elseBranch chain body) (elseBranch chain' body') := by
  intro s
  refine .ifAccept nofun (fun line s₁ _ => ?_) fun _ => regular_pure _ s
  refine .ifAccept nofun (fun line s₂ _ => ?_) fun _ => ?_
  · exact (hchain.bind fun _ => regular_pure _).weaken (by omega) s₂
  · exact ((regular_symbol (by decide) _).bind fun _ => hbody.bind fun _ => regular_pure _).weaken
      (Nat.sub_le room 1) s₁

theorem regular_conditional {depth depth' : Nat} (hnested : Regular c false room true nested nested')
    (hbody : Regular c false room true body body') (hroom : room ≤ depth) (hdepth : depth ≤ depth') :
    Regular c false room true (conditional nested body depth) (conditional nested' body' depth') := by
  induction depth generalizing room depth' with
  | zero =>
      obtain rfl : room = 0 := Nat.le_zero.1 hroom
      exact regular_tooDeep _
  | succ depth ih =>
      obtain ⟨depth', rfl⟩ : ∃ n, depth' = n + 1 := ⟨depth' - 1, by omega⟩
      have hless : room - 1 ≤ room := Nat.sub_le room 1
      have hchain := ih (hnested.weaken hless) (hbody.weaken hless) (by omega)
        (Nat.le_of_succ_le_succ hdepth)
      intro s
      refine (regular_condition hnested "if" s).eat fun value s₁ _ => ?_
      exact ((regular_symbol (by decide) _).bind fun _ => (hbody.weaken hless).bind fun _ =>
        (regular_elseBranch hchain (hbody.weaken hless)).bind fun _ => regular_pure _) s₁

end Chain

/-! ## Statements -/

/-- A rule for a keyword begins by consuming it, and then keeps the contract with one token of room less. -/
theorem exists_keyworded_eq {bound bound' : Nat} {body body' : Surroundings → Parser (List Stmt)}
    (hnested : Regular c false room true nested nested')
    (hbody : ∀ inner, inner.inBlock = true → Regular c false room true (body inner) (body' inner))
    (hroom : room ≤ bound) (hbound : bound ≤ bound') (around : Surroundings) (kind : TokenKind) :
    keyworded around bound nested body kind = none ∧ keyworded around bound' nested' body' kind = none ∨
      ∃ rule rule' : Int → Parser Stmt, kind ≠ .symbol .semicolon ∧
        keyworded around bound nested body kind = some (advance >>= rule) ∧
        keyworded around bound' nested' body' kind = some (advance >>= rule') ∧
        ∀ line, Late c around room (rule line) (rule' line) := by
  have hinside (inner : Surroundings) (hinner : inner.inBlock = true) (next : List Stmt → Stmt) :
      Regular c false room true (body inner >>= fun b => pure (next b)) (body' inner >>= fun b => pure (next b)) :=
    (hbody inner hinner).eat fun _ => regular_pure _
  cases kind with
  | keyword keyword =>
      cases keyword
      case elseKw | inKw | toKw | safariZoneKw | teamKw | trueKw | falseKw | nullKw => exact Or.inl ⟨rfl, rfl⟩
      all_goals refine Or.inr ⟨_, _, by simp, rfl, rfl, fun line => ?_⟩
      case varKw => exact late_varDeclaration hnested
      case defineKw =>
        exact (regular_signature.bind fun _ => hinside around.function rfl _).late
      case printKw => exact late_printing hnested
      case ifKw =>
        exact ((regular_conditional hnested (hbody around.control rfl) hroom hbound).bind fun _ =>
          regular_pure _).late
      case whileKw =>
        exact ((regular_condition hnested "while").bind fun _ => (regular_symbol (by decide) _).bind fun _ =>
          hinside around.loop rfl _).late
      case forKw => exact ((regular_iteration hnested).bind fun _ => hinside around.loop rfl _).late
      case breakKw | continueKw | runKw => exact late_lone _ _ _ _
      case returnKw => exact late_returning hnested line
      case exploreKw => exact (regular_exploration.bind fun _ => hinside around.loop rfl _).late
      case throwBallKw => exact late_throwing hnested line
  | symbol symbol =>
      cases symbol
      case leftBrace =>
        refine Or.inr ⟨_, _, by simp, rfl, rfl, fun _ => ?_⟩
        exact (hinside around.block rfl _).late
      all_goals exact Or.inl ⟨rfl, rfl⟩
  | _ => exact Or.inl ⟨rfl, rfl⟩

theorem proceeds_expressionStatement {s : ParseState} (hnested : Regular c false room true nested nested')
    (hlined : c.Lined around (s.rest.length - 1)) :
    Proceeds c false room true s (expressionStatement around nested) (expressionStatement around nested') :=
  (hnested s).eatLate hlined fun _ => (late_terminate _).bind fun _ => (regular_pure _).late

/-- Statements keep the contract with a quarter of the room that their bound on the nesting gives: a statement in
another one takes five frames, and an expression in another one seventeen. -/
theorem proceeds_statement {depth depth' : Nat} (hroom : 4 * room ≤ depth - 1) (hdepth : depth ≤ depth')
    {s : ParseState} (hlined : c.Lined around (s.rest.length - 1)) :
    Proceeds c false room true s (statement depth around) (statement depth' around) := by
  induction depth generalizing room depth' around s with
  | zero =>
      obtain rfl : room = 0 := by omega
      exact regular_tooDeep _ s
  | succ depth ih =>
      obtain ⟨depth', rfl⟩ : ∃ n, depth' = n + 1 := ⟨depth' - 1, by omega⟩
      have hframes : statementFrames * depth ≤ statementFrames * depth' :=
        Nat.mul_le_mul_left _ (Nat.le_of_succ_le_succ hdepth)
      have hnested : Regular c false room true (expression (statementFrames * depth / expressionFrames))
          (expression (statementFrames * depth' / expressionFrames)) := by
        refine (regular_expression (Nat.div_le_div_right hframes)).weaken ?_
        simp only [statementFrames, expressionFrames]
        omega
      have hbody (inner : Surroundings) (hinner : inner.inBlock = true) :
          Regular c false (room - 1) true (block (statement depth inner)) (block (statement depth' inner)) :=
        regular_block fun s => ih (by omega) (Nat.le_of_succ_le_succ hdepth) (Context.lined_of_inBlock hinner _)
      have hbound : room - 1 ≤ statementFrames * depth := by
        simp only [statementFrames]
        omega
      refine .ofPeek ?_
      cases hhead : s.rest.head?.map Token.kind with
      | none => exact proceeds_expressionStatement hnested hlined
      | some kind =>
          simp only [Option.bind_some]
          rcases exists_keyworded_eq (hnested.weaken (Nat.sub_le room 1)) hbody hbound hframes around
            kind with ⟨hnone, hnone'⟩ | ⟨rule, rule', hkind, hsome, hsome', hrule⟩
          · rw [hnone, hnone']
            exact proceeds_expressionStatement hnested hlined
          · rw [hsome, hsome']
            exact (proceeds_advance_of_kind hhead fun _ => hkind).eatLate hlined hrule

/-! ## Scripts -/

/-- The statements of a script, under a bound on the nesting. -/
abbrev script (limit : Nat) (interactive : Bool) (fuel : List Token) : Parser (List Stmt) :=
  items false (recover false (statement limit { interactive })) fuel

/-- The loop over the statements of a script keeps the contract. -/
theorem proceeds_script {c : Context} {room limit limit' : Nat} {interactive : Bool} (hroom : 4 * room ≤ limit - 1)
    (hlimit : limit ≤ limit') (fuel fuel' : List Token) (s : ParseState) (hfuel : s.rest.length ≤ fuel.length)
    (hfuel' : s.rest.length + c.behind.length ≤ fuel'.length)
    (hlined : interactive = true → s.rest.length ≤ c.lined) :
    Proceeds c false room false s (script limit interactive fuel) (script limit' interactive fuel') := by
  refine proceeds_items false (fun u hu hsize => ?_) fuel fuel' s hfuel hfuel' (Nat.le_refl s.rest.length)
  have hpos : 0 < u.rest.length := List.length_pos_iff.2 hu
  refine proceeds_recover false (proceeds_statement hroom hlimit fun hinteractive _ => ?_) hu
  have hle := hlined hinteractive
  omega

end Parser
end SafariScript
