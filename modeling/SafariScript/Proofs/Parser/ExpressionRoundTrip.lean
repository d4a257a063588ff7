import SafariScript.Proofs.Parser.ExpressionSoundness
import SafariScript.Proofs.Written

/-!
# Written expressions are derived

Tokens of the kinds that an expression is written with, on any lines, are derived from the grammar with that
expression as the tree, up to lines. `Spelled` says so of one tree and one rule, and there is one lemma about
it for each form of expression. The levels of `Expr.level` are rules of the grammar (`DerivesAt`), and
parentheses lead from any level to the tightest one (`Spelled.grouped`).
-/

namespace SafariScript
namespace Grammar

variable {α : Type}

/-- Tokens of the given kinds are an item that is the same as the given one up to lines. -/
def Spelled (kinds : List TokenKind) (Item : List Token → α → Prop) (unlined : α → α) (a : α) : Prop :=
  ∀ ts : List Token, ts.map Token.kind = kinds → ∃ a', Item ts a' ∧ unlined a' = unlined a

theorem exists_of_map_kind_cons {ts : List Token} {kind : TokenKind} {kinds : List TokenKind}
    (h : ts.map Token.kind = kind :: kinds) :
    ∃ line us, ts = ⟨kind, line⟩ :: us ∧ us.map Token.kind = kinds := by
  obtain ⟨⟨kind', line⟩, us, rfl, hkind, hus⟩ := List.map_eq_cons_iff.1 h
  obtain rfl : kind' = kind := hkind
  exact ⟨line, us, rfl, hus⟩

theorem exists_of_map_kind_append {ts : List Token} {first second : List TokenKind}
    (h : ts.map Token.kind = first ++ second) :
    ∃ us vs, ts = us ++ vs ∧ us.map Token.kind = first ∧ vs.map Token.kind = second :=
  List.map_eq_append_iff.1 h

theorem exists_of_map_kind_single {ts : List Token} {kind : TokenKind} (h : ts.map Token.kind = [kind]) :
    ∃ line, ts = [⟨kind, line⟩] := by
  obtain ⟨line, us, rfl, hus⟩ := exists_of_map_kind_cons h
  obtain rfl := List.map_eq_nil_iff.1 hus
  exact ⟨line, rfl⟩

/-! ## Levels -/

/-- The rule that derives the expressions of a level and of all tighter ones. -/
def DerivesAt : Nat → List Token → Expr → Prop
  | 0, ts, e => Derives .primary ts e
  | 1, ts, e => ∃ dotted, Derives (.suffixed dotted) ts e
  | 2, ts, e => Derives .unary ts e
  | rank + 3, ts, e => if rank < 6 then Derives (.tier (rank + 1)) ts e else Derives .assignment ts e

theorem DerivesAt.succ {level : Nat} {ts : List Token} {e : Expr} (h : DerivesAt level ts e) :
    DerivesAt (level + 1) ts e := by
  match level, h with
  | 0, h => exact ⟨false, .bare h⟩
  | 1, ⟨_, h⟩ => exact .operand h
  | 2, h => exact .tighter (.tightest h)
  | rank + 3, h =>
      by_cases hrank : rank < 6
      · rw [DerivesAt, if_pos hrank] at h
        by_cases hnext : rank + 1 < 6
        · rw [DerivesAt, if_pos hnext]
          exact .tighter h
        · obtain rfl : rank = 5 := by omega
          exact .value h
      · rw [DerivesAt, if_neg hrank] at h
        rw [DerivesAt, if_neg (by omega)]
        exact h

theorem DerivesAt.mono {level bound : Nat} {ts : List Token} {e : Expr} (h : DerivesAt level ts e)
    (hle : level ≤ bound) : DerivesAt bound ts e := by
  induction hle with
  | refl => exact h
  | step _ ih => exact ih.succ

theorem rank_lt (op : BinaryOp) : op.rank < 6 := by
  cases op with
  | int op => cases op <;> decide
  | _ => decide

theorem level_le (e : Expr) : e.level ≤ 9 := by
  cases e with
  | binary left op line right =>
      have hrank := rank_lt op
      show op.rank + 3 ≤ 9
      omega
  | _ => simp [Expr.level]

/-- The left operand of an operator. -/
theorem DerivesAt.tier_succ {op : BinaryOp} {ts : List Token} {e : Expr}
    (h : DerivesAt (op.rank + 3) ts e) : Derives (.tier (op.rank + 1)) ts e := by
  rwa [DerivesAt, if_pos (rank_lt op)] at h

/-- The right operand of an operator. -/
theorem DerivesAt.tier {op : BinaryOp} {ts : List Token} {e : Expr} (h : DerivesAt (op.rank + 2) ts e) :
    Derives (.tier op.rank) ts e := by
  have hrank := rank_lt op
  cases hop : op.rank with
  | zero =>
      rw [hop] at h
      exact .tightest h
  | succ rank =>
      rw [hop] at h hrank
      rwa [DerivesAt, if_pos (by omega)] at h

/-- The tokens of an expression are derived as it, up to lines, by the rule of its level. -/
abbrev SpelledExpr (e : Expr) : Prop :=
  Spelled e.written (DerivesAt e.level) Expr.unlined e

theorem Spelled.assignment {kinds : List TokenKind} {e : Expr}
    (h : Spelled kinds (DerivesAt e.level) Expr.unlined e) :
    Spelled kinds (Derives .assignment) Expr.unlined e := by
  intro ts hts
  obtain ⟨e', hderives, heq⟩ := h ts hts
  exact ⟨e', hderives.mono (level_le e), heq⟩

/-- In parentheses an expression is a primary, whatever its level. -/
theorem Spelled.parens {kinds : List TokenKind} {e : Expr}
    (h : Spelled kinds (DerivesAt e.level) Expr.unlined e) :
    Spelled (.symbol .leftParen :: (kinds ++ [.symbol .rightParen])) (Derives .primary) Expr.unlined e := by
  intro ts hts
  obtain ⟨l, us, rfl, hus⟩ := exists_of_map_kind_cons hts
  obtain ⟨vs, ws, rfl, hvs, hws⟩ := exists_of_map_kind_append hus
  obtain ⟨r, rfl⟩ := exists_of_map_kind_single hws
  obtain ⟨e', hderives, heq⟩ := h.assignment vs hvs
  exact ⟨e', .group l r hderives, heq⟩

/-- With parentheses where they are needed, an expression is of the level asked for. -/
theorem Spelled.grouped {kinds : List TokenKind} {e : Expr} {bound : Nat}
    (h : Spelled kinds (DerivesAt e.level) Expr.unlined e) :
    Spelled (grouped (bound < e.level) kinds) (DerivesAt bound) Expr.unlined e := by
  intro ts hts
  by_cases hneeded : bound < e.level
  · simp only [SafariScript.grouped, hneeded, decide_true, if_true] at hts
    obtain ⟨e', hderives, heq⟩ := h.parens ts hts
    have hprimary : DerivesAt 0 ts e' := hderives
    exact ⟨e', hprimary.mono (Nat.zero_le bound), heq⟩
  · simp only [SafariScript.grouped, hneeded, decide_false, Bool.false_eq_true, if_false] at hts
    obtain ⟨e', hderives, heq⟩ := h ts hts
    exact ⟨e', hderives.mono (by omega), heq⟩

theorem isProperty_unlined (e : Expr) : e.unlined.isProperty = e.isProperty := by
  cases e <;> simp [Expr.unlined, Expr.isProperty]

/-- What stands in front of the arguments of a call. -/
theorem Spelled.callee {kinds : List TokenKind} {e : Expr}
    (h : Spelled kinds (DerivesAt e.level) Expr.unlined e) :
    Spelled (SafariScript.grouped (1 < e.level || e.isProperty) kinds) (Derives (.suffixed false))
      Expr.unlined e := by
  intro ts hts
  by_cases hneeded : 1 < e.level ∨ e.isProperty = true
  · have htrue : (decide (1 < e.level) || e.isProperty) = true := by simpa using hneeded
    simp only [SafariScript.grouped, htrue, if_true] at hts
    obtain ⟨e', hderives, heq⟩ := h.parens ts hts
    exact ⟨e', .bare hderives, heq⟩
  · have hfalse : (decide (1 < e.level) || e.isProperty) = false := by simpa using hneeded
    simp only [SafariScript.grouped, hfalse, Bool.false_eq_true, if_false] at hts
    simp only [not_or, Bool.not_eq_true] at hneeded
    obtain ⟨e', hderives, heq⟩ := h ts hts
    obtain ⟨dotted, hfront⟩ : DerivesAt 1 ts e' := hderives.mono (by omega)
    -- without parentheses the callee is no property, so the grammar lets a parenthesis follow it
    have hproperty : e'.isProperty = false := by
      rw [← isProperty_unlined, heq, isProperty_unlined]
      exact hneeded.2
    cases dotted with
    | false => exact ⟨e', hfront, heq⟩
    | true =>
        cases hfront with
        | property l name front => cases hproperty

/-! ## Lists -/

/-- Items written with commas between them are a list of items. -/
theorem exists_separated {Item : List Token → α → Prop} {unlined : α → α} (f : α → List TokenKind)
    (items : List α) (hne : items ≠ []) (h : ∀ a ∈ items, Spelled (f a) Item unlined a) :
    ∀ ts : List Token, ts.map Token.kind = listed (items.map f) →
      ∃ items', Separated Item ts items' ∧ items'.map unlined = items.map unlined := by
  induction items with
  | nil => exact absurd rfl hne
  | cons a items ih =>
      intro ts hts
      cases items with
      | nil =>
          obtain ⟨a', hitem, heq⟩ := h a (List.mem_singleton.2 rfl) ts hts
          exact ⟨[a'], .last hitem, by simp [heq]⟩
      | cons b items =>
          obtain ⟨us, vs, rfl, hus, hvs⟩ := exists_of_map_kind_append hts
          obtain ⟨l, ws, rfl, hws⟩ := exists_of_map_kind_cons hvs
          obtain ⟨a', hitem, heq⟩ := h a List.mem_cons_self us hus
          obtain ⟨others, hothers, heqs⟩ := ih (List.cons_ne_nil b items)
            (fun c hc => h c (List.mem_cons_of_mem a hc)) ws hws
          exact ⟨a' :: others, .next l hitem hothers, by rw [List.map_cons, List.map_cons, heq, heqs]⟩

/-- The kinds of tokens that a named argument starts with. -/
def namedStart : List TokenKind → Bool
  | .ident _ :: .symbol .equal :: _ => true
  | _ => false

theorem startsNamed_eq (ts : List Token) : startsNamed ts = namedStart (ts.map Token.kind) := by
  rcases ts with _ | ⟨⟨kind, l⟩, _ | ⟨⟨kind', l'⟩, ts⟩⟩
  · rfl
  · cases kind <;> rfl
  · cases kind with
    | ident name =>
        cases kind' with
        | symbol symbol => cases symbol <;> rfl
        | _ => rfl
    | _ => rfl

/-- In front of an operator or a suffix an assignment stands in parentheses, and nothing else starts as a named
argument does. -/
theorem namedStart_front {e : Expr} {needed : Bool} {more : List TokenKind}
    (h : e.isAssign = false → namedStart (e.written ++ more) = false)
    (hneeded : needed = false → e.level < 9) :
    namedStart (SafariScript.grouped needed e.written ++ more) = false := by
  cases needed with
  | true => rfl
  | false =>
      refine h ?_
      have hlevel := hneeded rfl
      cases e with
      | assign name value => simp [Expr.level] at hlevel
      | _ => rfl

theorem namedStart_operand {e : Expr} {bound : Nat} {more : List TokenKind} (hbound : bound < 9)
    (h : e.isAssign = false → namedStart (e.written ++ more) = false) :
    namedStart (SafariScript.grouped (bound < e.level) e.written ++ more) = false := by
  refine namedStart_front h fun hlevel => ?_
  have hle : e.level ≤ bound := by simpa using hlevel
  omega

/-- Only an assignment to a variable starts as a named argument does. -/
theorem namedStart_written : (e : Expr) → e.isAssign = false → ∀ more : List TokenKind,
    more.head? ≠ some (.symbol .equal) → namedStart (e.written ++ more) = false
  | .literal value, _, more, _ => by
      cases value with
      | bool b => cases b <;> rfl
      | _ => rfl
  | .ident name, _, more, hmore => by
      rw [Expr.written, List.singleton_append]
      unfold namedStart
      split
      · next heq =>
        simp only [List.cons.injEq] at heq
        simp [heq.2] at hmore
      · rfl
  | .unary _ _ _, _, _, _ | .array _, _, _, _ | .construct _ _ _ _, _, _, _ => rfl
  | .assign _ _, h, _, _ => by cases h
  | .binary left op line right, _, more, _ => by
      have hrank := rank_lt op
      -- the left operand is followed by the operator, which is no equals sign
      have hop : op.symbol ≠ .equal := by
        cases op with
        | int op => cases op <;> decide
        | _ => decide
      rw [Expr.written, List.append_assoc]
      exact namedStart_operand (by omega) fun hleft => namedStart_written left hleft _ (by simpa using hop)
  | .property object name, _, more, _ => by
      rw [Expr.written, List.append_assoc]
      exact namedStart_operand (by decide) fun hobject => namedStart_written object hobject _ (by simp)
  | .setProperty object name value, _, more, _ => by
      rw [Expr.written, List.append_assoc, List.append_assoc]
      exact namedStart_operand (by decide) fun hobject => namedStart_written object hobject _ (by simp)
  | .element array line index, _, more, _ => by
      rw [Expr.written, List.append_assoc]
      exact namedStart_operand (by decide) fun harray => namedStart_written array harray _ (by simp)
  | .setElement array line index value, _, more, _ => by
      rw [Expr.written, List.append_assoc, List.append_assoc]
      exact namedStart_operand (by decide) fun harray => namedStart_written array harray _ (by simp)
  | .call callee line arguments named, _, more, _ => by
      rw [Expr.written, List.append_assoc]
      refine namedStart_front (fun hcallee => namedStart_written callee hcallee _ (by simp)) ?_
      intro hlevel
      have hle : callee.level ≤ 1 := by
        simp only [Bool.or_eq_false_iff, decide_eq_false_iff_not, Nat.not_lt] at hlevel
        exact hlevel.1
      omega
  | .method object name arguments named, _, more, _ => by
      rw [Expr.written, List.append_assoc]
      exact namedStart_operand (by decide) fun hobject => namedStart_written object hobject _ (by simp)

/-- An argument given by position or by name, with its lines forgotten. -/
def unlinedItem : Expr ⊕ NamedArg → Expr ⊕ NamedArg :=
  Sum.map Expr.unlined NamedArg.unlined

/-- The tokens of an argument. -/
def writtenItem : Expr ⊕ NamedArg → List TokenKind
  | .inl e => SafariScript.grouped e.isAssign e.written
  | .inr a => a.written

theorem spelled_positional {e : Expr} (h : SpelledExpr e) :
    Spelled (writtenItem (.inl e)) (Derives .argument) unlinedItem (.inl e) := by
  intro ts hts
  -- an assignment to a variable would be taken for a named argument, and so it has parentheses
  have hstart : startsNamed ts = false := by
    rw [startsNamed_eq, hts, writtenItem]
    cases hassign : e.isAssign with
    | true => rfl
    | false => simpa [SafariScript.grouped] using namedStart_written e hassign [] (by simp)
  rw [writtenItem] at hts
  obtain ⟨e', hderives, heq⟩ : ∃ e', Derives .assignment ts e' ∧ e'.unlined = e.unlined := by
    cases hassign : e.isAssign with
    | true =>
        rw [hassign] at hts
        obtain ⟨e', hderives, heq⟩ := h.parens ts hts
        have hprimary : DerivesAt 0 ts e' := hderives
        exact ⟨e', hprimary.mono (Nat.zero_le 9), heq⟩
    | false =>
        rw [hassign] at hts
        exact h.assignment ts hts
  exact ⟨.inl e', .byPosition hstart hderives, congrArg Sum.inl heq⟩

theorem spelled_named {name : Word} {e : Expr}
    (h : SpelledExpr e) :
    Spelled (writtenItem (.inr (.mk name e))) (Derives .argument) unlinedItem (.inr (.mk name e)) := by
  intro ts hts
  obtain ⟨line, us, rfl, hus⟩ := exists_of_map_kind_cons hts
  obtain ⟨l, vs, rfl, hvs⟩ := exists_of_map_kind_cons hus
  obtain ⟨e', hderives, heq⟩ := h.assignment vs hvs
  refine ⟨.inr (.mk ⟨name.text, line⟩ e'), .byName ⟨name.text, line⟩ l hderives, ?_⟩
  simp [unlinedItem, NamedArg.unlined, Word.unlined, heq]

theorem positional_unlined (items : List (Expr ⊕ NamedArg)) :
    (positional items).map Expr.unlined = positional (items.map unlinedItem) := by
  rw [positional, positional, List.map_filterMap, List.filterMap_map]
  congr 1
  funext item
  cases item <;> rfl

theorem named_unlined (items : List (Expr ⊕ NamedArg)) :
    (named items).map NamedArg.unlined = named (items.map unlinedItem) := by
  rw [named, named, List.map_filterMap, List.filterMap_map]
  congr 1
  funext item
  cases item <;> rfl

/-- The arguments of a call. -/
theorem exists_arguments {arguments : List Expr} {named : List NamedArg}
    (harguments : ∀ e ∈ arguments, SpelledExpr e)
    (hnamed : ∀ a ∈ named, SpelledExpr a.value)
    {ts : List Token}
    (hts : ts.map Token.kind = listed (Expr.writtenArguments arguments ++ NamedArg.writtenAll named)) :
    ∃ items, Derives .arguments ts items ∧ (positional items).map Expr.unlined = arguments.map Expr.unlined ∧
      (Grammar.named items).map NamedArg.unlined = named.map NamedArg.unlined := by
  -- written out, the arguments by position all come first
  let items : List (Expr ⊕ NamedArg) := arguments.map Sum.inl ++ named.map Sum.inr
  have hwritten : Expr.writtenArguments arguments ++ NamedArg.writtenAll named = items.map writtenItem := by
    simp [items, writtenItem, Function.comp_def]
  have hitems : ∀ item ∈ items, Spelled (writtenItem item) (Derives .argument) unlinedItem item := by
    intro item hitem
    rcases List.mem_append.1 hitem with hitem | hitem
    · obtain ⟨e, he, rfl⟩ := List.mem_map.1 hitem
      exact spelled_positional (harguments e he)
    · obtain ⟨⟨name, e⟩, ha, rfl⟩ := List.mem_map.1 hitem
      exact spelled_named (hnamed _ ha)
  have hpositional : positional items = arguments := by
    simp [items, positional, List.filterMap_map, Function.comp_def]
  have hnamed' : Grammar.named items = named := by
    simp [items, Grammar.named, List.filterMap_map, Function.comp_def]
  obtain ⟨items', hderives, heq⟩ : ∃ items', Derives .arguments ts items' ∧
      items'.map unlinedItem = items.map unlinedItem := by
    rw [hwritten] at hts
    by_cases hnil : items = []
    · rw [hnil] at hts
      obtain rfl : ts = [] := List.map_eq_nil_iff.1 hts
      exact ⟨[], .noArguments, by rw [hnil]⟩
    · obtain ⟨items', hlist, heq⟩ := exists_separated writtenItem items hnil hitems ts hts
      exact ⟨items', .argumentList hlist.someArguments, heq⟩
  refine ⟨items', hderives, ?_, ?_⟩
  · rw [positional_unlined, heq, ← positional_unlined, hpositional]
  · rw [named_unlined, heq, ← named_unlined, hnamed']

theorem exists_elements {elements : List Expr}
    (helements : ∀ e ∈ elements, SpelledExpr e) {ts : List Token}
    (hts : ts.map Token.kind = listed (Expr.writtenAll elements)) :
    ∃ es, Derives .elements ts es ∧ es.map Expr.unlined = elements.map Expr.unlined := by
  rw [Expr.writtenAll_eq] at hts
  by_cases hnil : elements = []
  · subst hnil
    obtain rfl : ts = [] := List.map_eq_nil_iff.1 hts
    exact ⟨[], .noElements, rfl⟩
  · obtain ⟨es, hlist, heq⟩ := exists_separated Expr.written elements hnil
      (fun e he => (helements e he).assignment) ts hts
    exact ⟨es, .elementList hlist.someElements, heq⟩

/-! ## Expressions -/

theorem spelled_literal {value : Literal} (h : value.writable = true) :
    Spelled [value.token] (Derives .primary) Expr.unlined (.literal value) := by
  intro ts hts
  obtain ⟨line, rfl⟩ := exists_of_map_kind_single hts
  cases value with
  | null => exact ⟨_, .null line, rfl⟩
  | bool b =>
      cases b with
      | true => exact ⟨_, .truth line, rfl⟩
      | false => exact ⟨_, .falsehood line, rfl⟩
  | int n =>
      have hn : ((digitsValue (toString n.toNat).toList : Nat) : Int) = n := by
        rw [digitsValue_toString]
        exact Int.toNat_of_nonneg (by simpa [Literal.writable] using h)
      refine ⟨_, .number _ line, ?_⟩
      rw [hn]
  | text s =>
      have hs : String.ofList (unescape (String.ofList (escape s.toList)).toList) = s := by
        rw [String.toList_ofList, unescape_escape, String.ofList_toList]
      refine ⟨_, .text _ line, ?_⟩
      rw [hs]

/-- The front of a suffix, and what comes behind it. -/
theorem Spelled.front {e : Expr} (h : SpelledExpr e)
    {ts : List Token} {kind : TokenKind} {kinds : List TokenKind}
    (hts : ts.map Token.kind = SafariScript.grouped (1 < e.level) e.written ++ kind :: kinds) :
    ∃ us l vs dotted e', ts = us ++ ⟨kind, l⟩ :: vs ∧ vs.map Token.kind = kinds ∧
      Derives (.suffixed dotted) us e' ∧ e'.unlined = e.unlined := by
  obtain ⟨us, ws, rfl, hus, hws⟩ := exists_of_map_kind_append hts
  obtain ⟨l, vs, rfl, hvs⟩ := exists_of_map_kind_cons hws
  obtain ⟨e', ⟨dotted, hfront⟩, heq⟩ := h.grouped us hus
  exact ⟨us, l, vs, dotted, e', rfl, hvs, hfront, heq⟩

theorem exists_closed {kinds : List TokenKind} {close : Symbol} {ts : List Token}
    (hts : ts.map Token.kind = kinds ++ [.symbol close]) :
    ∃ us r, ts = us ++ [.symbol close r] ∧ us.map Token.kind = kinds := by
  obtain ⟨us, vs, rfl, hus, hvs⟩ := exists_of_map_kind_append hts
  obtain ⟨r, rfl⟩ := exists_of_map_kind_single hvs
  exact ⟨us, r, rfl, hus⟩

section Forms

variable {e value index operand left right object array callee : Expr} {elements arguments : List Expr}
  {named : List NamedArg} {ts : List Token}

/-- A property with the object in front of it. -/
theorem exists_property {name : Word} (hobject : SpelledExpr object)
    (hts : ts.map Token.kind = (Expr.property object name).written) :
    ∃ object' name', Derives (.suffixed true) ts (.property object' name') ∧
      object'.unlined = object.unlined ∧ name'.unlined = name.unlined := by
  obtain ⟨us, l, vs, dotted, object', rfl, hvs, hfront, heq⟩ := hobject.front hts
  obtain ⟨line, rfl⟩ := exists_of_map_kind_single hvs
  exact ⟨object', ⟨name.text, line⟩, .property l ⟨name.text, line⟩ hfront, heq, rfl⟩

/-- An array element with the array in front of it. -/
theorem exists_element (line : Int) (harray : SpelledExpr array) (hindex : SpelledExpr index)
    (hts : ts.map Token.kind = (Expr.element array line index).written) :
    ∃ array' line' index', Derives (.suffixed false) ts (.element array' line' index') ∧
      array'.unlined = array.unlined ∧ index'.unlined = index.unlined := by
  obtain ⟨us, l, vs, dotted, array', rfl, hvs, hfront, heq⟩ := harray.front hts
  obtain ⟨ws, line', rfl, hws⟩ := exists_closed hvs
  obtain ⟨index', hderives, heq'⟩ := hindex.assignment ws hws
  exact ⟨array', line', index', .element l line' hfront hderives, heq, heq'⟩

theorem spelled_unary (op : UnaryOp) (line : Int) (hoperand : SpelledExpr operand) :
    SpelledExpr (.unary op line operand) := by
  intro ts hts
  obtain ⟨line', us, rfl, hus⟩ := exists_of_map_kind_cons hts
  obtain ⟨operand', hderives, heq⟩ := hoperand.grouped us hus
  exact ⟨.unary op line' operand', .unary op line' hderives, by simp only [Expr.unlined, heq]⟩

theorem spelled_binary (op : BinaryOp) (line : Int) (hleft : SpelledExpr left)
    (hright : SpelledExpr right) : SpelledExpr (.binary left op line right) := by
  intro ts hts
  obtain ⟨us, ws, rfl, hus, hws⟩ := exists_of_map_kind_append hts
  obtain ⟨line', vs, rfl, hvs⟩ := exists_of_map_kind_cons hws
  obtain ⟨left', hderives, heq⟩ := hleft.grouped us hus
  obtain ⟨right', hderives', heq'⟩ := hright.grouped vs hvs
  have hbinary := Derives.binary op line' (Parser.mem_operators_iff.2 rfl) hderives.tier_succ hderives'.tier
  refine ⟨.binary left' op line' right', ?_, by simp only [Expr.unlined, heq, heq']⟩
  show DerivesAt (op.rank + 3) _ _
  rw [DerivesAt, if_pos (rank_lt op)]
  exact hbinary

theorem spelled_assign (name : Word) (hvalue : SpelledExpr value) : SpelledExpr (.assign name value) := by
  intro ts hts
  obtain ⟨line, us, rfl, hus⟩ := exists_of_map_kind_cons hts
  obtain ⟨l, vs, rfl, hvs⟩ := exists_of_map_kind_cons hus
  obtain ⟨value', hderives, heq⟩ := hvalue.assignment vs hvs
  refine ⟨.assign ⟨name.text, line⟩ value', .assign l (.bare (.ident ⟨name.text, line⟩)) hderives, ?_⟩
  simp only [Expr.unlined, Word.unlined, heq]

theorem spelled_property (name : Word) (hobject : SpelledExpr object) :
    SpelledExpr (.property object name) := by
  intro ts hts
  obtain ⟨object', name', hderives, heq, heq'⟩ := exists_property hobject hts
  exact ⟨.property object' name', ⟨true, hderives⟩, by simp only [Expr.unlined, heq, heq']⟩

theorem spelled_setProperty (name : Word) (hobject : SpelledExpr object) (hvalue : SpelledExpr value) :
    SpelledExpr (.setProperty object name value) := by
  intro ts hts
  obtain ⟨us, ws, rfl, hus, hws⟩ := exists_of_map_kind_append hts
  obtain ⟨l, vs, rfl, hvs⟩ := exists_of_map_kind_cons hws
  obtain ⟨object', name', htarget, heq, heq'⟩ := exists_property hobject hus
  obtain ⟨value', hderives, hvalue'⟩ := hvalue.assignment vs hvs
  exact ⟨.setProperty object' name' value', .setProperty l htarget hderives,
    by simp only [Expr.unlined, heq, heq', hvalue']⟩

theorem spelled_array (helements : ∀ e ∈ elements, SpelledExpr e) : SpelledExpr (.array elements) := by
  intro ts hts
  obtain ⟨l, us, rfl, hus⟩ := exists_of_map_kind_cons hts
  obtain ⟨vs, r, rfl, hvs⟩ := exists_closed hus
  obtain ⟨es, hderives, heq⟩ := exists_elements helements hvs
  exact ⟨.array es, .array l r hderives, by simp only [Expr.unlined, Expr.unlinedAll_eq, heq]⟩

theorem spelled_element (line : Int) (harray : SpelledExpr array) (hindex : SpelledExpr index) :
    SpelledExpr (.element array line index) := by
  intro ts hts
  obtain ⟨array', line', index', hderives, heq, heq'⟩ := exists_element line harray hindex hts
  exact ⟨.element array' line' index', ⟨false, hderives⟩, by simp only [Expr.unlined, heq, heq']⟩

theorem spelled_setElement (line : Int) (harray : SpelledExpr array) (hindex : SpelledExpr index)
    (hvalue : SpelledExpr value) : SpelledExpr (.setElement array line index value) := by
  intro ts hts
  obtain ⟨us, ws, rfl, hus, hws⟩ := exists_of_map_kind_append hts
  obtain ⟨l, vs, rfl, hvs⟩ := exists_of_map_kind_cons hws
  obtain ⟨array', line', index', htarget, heq, heq'⟩ := exists_element line harray hindex hus
  obtain ⟨value', hderives, hvalue'⟩ := hvalue.assignment vs hvs
  exact ⟨.setElement array' line' index' value', .setElement l htarget hderives,
    by simp only [Expr.unlined, heq, heq', hvalue']⟩

theorem spelled_call (line : Int) (hcallee : SpelledExpr callee)
    (harguments : ∀ e ∈ arguments, SpelledExpr e) (hnamed : ∀ a ∈ named, SpelledExpr a.value) :
    SpelledExpr (.call callee line arguments named) := by
  intro ts hts
  obtain ⟨us, ws, rfl, hus, hws⟩ := exists_of_map_kind_append hts
  obtain ⟨l, vs, rfl, hvs⟩ := exists_of_map_kind_cons hws
  obtain ⟨xs, line', rfl, hxs⟩ := exists_closed hvs
  obtain ⟨callee', hfront, heq⟩ := hcallee.callee us hus
  obtain ⟨items, hderives, harguments', hnamed'⟩ := exists_arguments harguments hnamed hxs
  refine ⟨.call callee' line' (positional items) (Grammar.named items),
    ⟨false, .call l line' hfront hderives⟩, ?_⟩
  simp only [Expr.unlined, Expr.unlinedAll_eq, NamedArg.unlinedAll_eq, heq, harguments', hnamed']

theorem spelled_method (name : Word) (hobject : SpelledExpr object)
    (harguments : ∀ e ∈ arguments, SpelledExpr e) (hnamed : ∀ a ∈ named, SpelledExpr a.value) :
    SpelledExpr (.method object name arguments named) := by
  intro ts hts
  obtain ⟨us, l, vs, dotted, object', rfl, hvs, hfront, heq⟩ := hobject.front hts
  obtain ⟨line, ws, rfl, hws⟩ := exists_of_map_kind_cons hvs
  obtain ⟨l', xs, rfl, hxs⟩ := exists_of_map_kind_cons hws
  obtain ⟨ys, r, rfl, hys⟩ := exists_closed hxs
  obtain ⟨items, hderives, harguments', hnamed'⟩ := exists_arguments harguments hnamed hys
  refine ⟨.method object' ⟨name.text, line⟩ (positional items) (Grammar.named items),
    ⟨false, .method l ⟨name.text, line⟩ l' r hfront hderives⟩, ?_⟩
  simp only [Expr.unlined, Expr.unlinedAll_eq, NamedArg.unlinedAll_eq, Word.unlined, heq, harguments',
    hnamed']

theorem spelled_construct (maker : Maker) (line : Int) (harguments : ∀ e ∈ arguments, SpelledExpr e)
    (hnamed : ∀ a ∈ named, SpelledExpr a.value) :
    SpelledExpr (.construct maker line arguments named) := by
  intro ts hts
  obtain ⟨line', us, rfl, hus⟩ := exists_of_map_kind_cons hts
  obtain ⟨l, vs, rfl, hvs⟩ := exists_of_map_kind_cons hus
  obtain ⟨ws, r, rfl, hws⟩ := exists_closed hvs
  obtain ⟨items, hderives, harguments', hnamed'⟩ := exists_arguments harguments hnamed hws
  refine ⟨.construct maker line' (positional items) (Grammar.named items),
    .construct maker line' l r hderives, ?_⟩
  simp only [Expr.unlined, Expr.unlinedAll_eq, NamedArg.unlinedAll_eq, harguments', hnamed']

end Forms

mutual

/-- Every expression whose constants have tokens is spelled by the tokens it is written with. -/
theorem spelled_expr : (e : Expr) → e.writable = true → SpelledExpr e
  | .literal _, h => spelled_literal h
  | .ident name, _ => by
      intro ts hts
      obtain ⟨line, rfl⟩ := exists_of_map_kind_single hts
      exact ⟨_, .ident ⟨name.text, line⟩, rfl⟩
  | .unary op line operand, h => spelled_unary op line (spelled_expr operand h)
  | .binary left op line right, h => by
      rw [Expr.writable, Bool.and_eq_true] at h
      exact spelled_binary op line (spelled_expr left h.1) (spelled_expr right h.2)
  | .assign name value, h => spelled_assign name (spelled_expr value h)
  | .property object name, h => spelled_property name (spelled_expr object h)
  | .setProperty object name value, h => by
      rw [Expr.writable, Bool.and_eq_true] at h
      exact spelled_setProperty name (spelled_expr object h.1) (spelled_expr value h.2)
  | .array elements, h => spelled_array (spelled_exprs elements h)
  | .element array line index, h => by
      rw [Expr.writable, Bool.and_eq_true] at h
      exact spelled_element line (spelled_expr array h.1) (spelled_expr index h.2)
  | .setElement array line index value, h => by
      rw [Expr.writable, Bool.and_eq_true, Bool.and_eq_true] at h
      exact spelled_setElement line (spelled_expr array h.1.1) (spelled_expr index h.1.2)
        (spelled_expr value h.2)
  | .call callee line arguments named, h => by
      rw [Expr.writable, Bool.and_eq_true, Bool.and_eq_true] at h
      exact spelled_call line (spelled_expr callee h.1.1) (spelled_exprs arguments h.1.2)
        (spelled_namedArgs named h.2)
  | .method object name arguments named, h => by
      rw [Expr.writable, Bool.and_eq_true, Bool.and_eq_true] at h
      exact spelled_method name (spelled_expr object h.1.1) (spelled_exprs arguments h.1.2)
        (spelled_namedArgs named h.2)
  | .construct maker line arguments named, h => by
      rw [Expr.writable, Bool.and_eq_true] at h
      exact spelled_construct maker line (spelled_exprs arguments h.1) (spelled_namedArgs named h.2)

theorem spelled_exprs : (es : List Expr) → Expr.writableAll es = true → ∀ e ∈ es, SpelledExpr e
  | [], _ => by simp
  | e :: es, h => by
      rw [Expr.writableAll, Bool.and_eq_true] at h
      exact List.forall_mem_cons.2 ⟨spelled_expr e h.1, spelled_exprs es h.2⟩

theorem spelled_namedArgs : (as : List NamedArg) → NamedArg.writableAll as = true →
    ∀ a ∈ as, SpelledExpr a.value
  | [], _ => by simp
  | .mk name value :: as, h => by
      rw [NamedArg.writableAll, Bool.and_eq_true] at h
      exact List.forall_mem_cons.2 ⟨spelled_expr value h.1, spelled_namedArgs as h.2⟩

end

end Grammar
end SafariScript
