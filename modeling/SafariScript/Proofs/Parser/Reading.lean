import SafariScript.Proofs.Grammar
import SafariScript.Proofs.Step

/-!
# What parsers consume

`ParseState.Reads` says that a parser consumed some tokens and changed nothing else. `Sound` is the contract
under which soundness is proved: a parser either adds to the problems, or it leaves them as they are and, if
it succeeds, relates the states before and after it to its result. Adding to the problems is all that a
parser has to answer for once something is wrong, so recovery needs no further description here.

The primitives get two lemmas each: what they guarantee (`sound_…`), and what they do on tokens that fit
(`…_reads`).
-/

namespace SafariScript

open Grammar

@[simp] theorem Grammar.linePast_nil (line : Int) : linePast line [] = line := rfl

@[simp] theorem Grammar.linePast_append (line : Int) (ts us : List Token) :
    linePast line (ts ++ us) = linePast (linePast line ts) us := by
  simp [linePast]

@[simp] theorem Grammar.linePast_cons (line : Int) (t : Token) (ts : List Token) :
    linePast line (t :: ts) = linePast t.line ts := rfl

namespace ParseState

/-- The tokens `ts` were consumed, and nothing else changed. -/
structure Reads (s : ParseState) (ts : List Token) (s' : ParseState) : Prop where
  rest : s.rest = ts ++ s'.rest
  state : s' = { s with rest := s'.rest, lastLine := linePast s.lastLine ts }

namespace Reads

variable {s s₁ s₂ : ParseState} {t : Token} {ts us : List Token}

theorem nil (s : ParseState) : s.Reads [] s := ⟨rfl, rfl⟩

theorem append (h₁ : s.Reads ts s₁) (h₂ : s₁.Reads us s₂) : s.Reads (ts ++ us) s₂ := by
  refine ⟨by rw [h₁.rest, h₂.rest, List.append_assoc], ?_⟩
  rw [h₂.state, h₁.state]
  simp

/-- Consuming a list of tokens is consuming its front and then its back. -/
theorem split (h : s.Reads (ts ++ us) s₂) : ∃ s₁, s.Reads ts s₁ ∧ s₁.Reads us s₂ := by
  refine ⟨{ s with rest := us ++ s₂.rest, lastLine := linePast s.lastLine ts }, ⟨?_, rfl⟩, ⟨rfl, ?_⟩⟩
  · simpa using h.rest
  · rw [h.state]
    simp

theorem split_eq {vs : List Token} (h : s.Reads vs s₂) (hvs : vs = ts ++ us) :
    ∃ s₁, s.Reads ts s₁ ∧ s₁.Reads us s₂ := by
  subst hvs
  exact h.split

theorem uncons (h : s.Reads (t :: ts) s₂) : ∃ s₁, s.Reads [t] s₁ ∧ s₁.Reads ts s₂ :=
  @split s s₂ [t] ts h

theorem eq_of_nil (h : s.Reads [] s₁) : s₁ = s := by
  have hrest : s.rest = s₁.rest := h.rest
  rw [h.state, ← hrest]
  rfl

theorem length_eq (h : s.Reads ts s₁) : s.rest.length = ts.length + s₁.rest.length := by
  rw [h.rest, List.length_append]

/-- A list as long as the tokens to come is still long enough for those behind the next one. -/
theorem fuel_cons {fuel : List Token} (h : s.Reads (t :: ts) s₁) (hfuel : s.rest.length ≤ fuel.length) :
    ∃ u fuel', fuel = u :: fuel' ∧ s₁.rest.length ≤ fuel'.length := by
  have hlength := h.length_eq
  cases fuel with
  | nil =>
      simp only [List.length_nil, List.length_cons] at hfuel hlength
      omega
  | cons u fuel' =>
      simp only [List.length_cons] at hfuel hlength
      exact ⟨u, fuel', rfl, by omega⟩

theorem problems_eq (h : s.Reads ts s₁) : s₁.problems = s.problems := by
  rw [h.state]

theorem lastLine_eq (h : s.Reads ts s₁) : s₁.lastLine = linePast s.lastLine ts := by
  rw [h.state]

/-- Behind at least one token, the line of the last one does not depend on where reading began. -/
theorem lastLine_of_ne_nil (h : s.Reads ts s₁) (hts : ts ≠ []) : s₁.lastLine = linePast 0 ts := by
  rw [h.lastLine_eq]
  cases ts with
  | nil => exact absurd rfl hts
  | cons t ts => rfl

theorem advance_eq (h : s.Reads [t] s₁) : s.advance = s₁ := by
  have hrest : s.rest = t :: s₁.rest := h.rest
  rw [h.state]
  simp [advance, hrest]

theorem of_rest {rest : List Token} (h : s.rest = t :: rest) : s.Reads [t] s.advance := by
  constructor <;> simp [advance, h]

theorem head_eq (h : s.Reads (t :: ts) s₁) : s.rest.head? = some t := by
  simp [h.rest]

theorem sees_eq (h : s.Reads (t :: ts) s₁) (kind : TokenKind) : s.sees kind = (t.kind == kind) := by
  simp [sees, h.rest]

end Reads

/-- Problems were added. -/
def Grew (s s' : ParseState) : Prop :=
  s.problems.length < s'.problems.length

theorem sees_eq_true_iff {s : ParseState} {kind : TokenKind} :
    s.sees kind = true ↔ ∃ line rest, s.rest = ⟨kind, line⟩ :: rest := by
  unfold sees
  constructor
  · intro h
    split at h
    · next t rest hrest =>
      obtain ⟨k, line⟩ := t
      exact ⟨line, rest, by simp_all⟩
    · simp at h
  · rintro ⟨line, rest, hrest⟩
    simp [hrest]

theorem sees_eq_false_iff {s : ParseState} {kind : TokenKind} :
    s.sees kind = false ↔ s.rest.head?.map Token.kind ≠ some kind := by
  unfold sees
  split
  · next t rest hrest => simp [hrest]
  · next hrest => simp [hrest]

end ParseState

namespace Parser

variable {α β : Type}

/-- A parser either adds to the problems, or it leaves them as they are and its result stands in the relation
to the states before and after. -/
def Sound (p : Parser α) (R : ParseState → α → ParseState → Prop) : Prop :=
  ∀ s, match p s with
    | .ok a s' => s.Grew s' ∨ s'.problems = s.problems ∧ R s a s'
    | .error _ s' => s.Grew s' ∨ s'.problems = s.problems

/-- Where the problems are the same before and after, the result stands in the relation. -/
theorem Sound.of_ok {p : Parser α} {R : ParseState → α → ParseState → Prop} (hp : Sound p R) {s s' : ParseState}
    {a : α} (h : p s = .ok a s') (hproblems : s'.problems = s.problems) : R s a s' := by
  have hs := hp s
  simp only [h] at hs
  rcases hs with hgrew | ⟨-, hR⟩
  · rw [ParseState.Grew, hproblems] at hgrew
    exact absurd hgrew (Nat.lt_irrefl _)
  · exact hR

theorem Sound.mono {p : Parser α} {R T : ParseState → α → ParseState → Prop} (hp : Sound p R)
    (h : ∀ s a s', R s a s' → T s a s') : Sound p T := by
  intro s
  have hs := hp s
  cases hps : p s with
  | ok a s' =>
      simp only [hps] at hs ⊢
      exact hs.imp id fun ⟨hproblems, hR⟩ => ⟨hproblems, h s a s' hR⟩
  | error e s' =>
      simpa only [hps] using hs

theorem sound_pure (a : α) : Sound (pure a) fun s b s' => b = a ∧ s' = s :=
  fun _ => Or.inr ⟨rfl, rfl, rfl⟩

theorem Sound.bind {p : Parser α} {f : α → Parser β} {R : ParseState → α → ParseState → Prop}
    {T : α → ParseState → β → ParseState → Prop} (hp : Sound p R) (hf : ∀ a, Sound (f a) (T a)) :
    Sound (p >>= f) fun s b s₂ => ∃ a s₁, R s a s₁ ∧ T a s₁ b s₂ := by
  intro s
  have h₁ := hp s
  rw [bind_apply]
  cases hps : p s with
  | error e s₁ => simpa only [hps] using h₁
  | ok a s₁ =>
      simp only [hps] at h₁ ⊢
      have h₂ := hf a s₁
      cases hfs : f a s₁ with
      | error e s₂ =>
          simp only [hfs, ParseState.Grew] at h₁ h₂ ⊢
          rcases h₁ with h₁ | ⟨h₁, -⟩ <;> rcases h₂ with h₂ | h₂
          · exact Or.inl (by omega)
          · exact Or.inl (by rw [h₂]; exact h₁)
          · exact Or.inl (by rw [← h₁]; exact h₂)
          · exact Or.inr (h₂.trans h₁)
      | ok b s₂ =>
          simp only [hfs, ParseState.Grew] at h₁ h₂ ⊢
          rcases h₁ with h₁ | ⟨h₁, hR⟩ <;> rcases h₂ with h₂ | ⟨h₂, hT⟩
          · exact Or.inl (by omega)
          · exact Or.inl (by rw [h₂]; exact h₁)
          · exact Or.inl (by rw [← h₁]; exact h₂)
          · exact Or.inr ⟨h₂.trans h₁, a, s₁, hR, hT⟩

theorem Sound.map {p : Parser α} {R : ParseState → α → ParseState → Prop} (hp : Sound p R)
    (f : α → β) : Sound (f <$> p) fun s b s' => ∃ a, R s a s' ∧ b = f a := by
  intro s
  have hs := hp s
  rw [map_apply]
  cases hps : p s with
  | ok a s' =>
      simp only [hps] at hs ⊢
      exact hs.imp id fun ⟨hproblems, hR⟩ => ⟨hproblems, a, hR, rfl⟩
  | error e s' =>
      simpa only [hps] using hs

/-- A parser that stops at once answers for nothing. -/
theorem sound_throw (stop : ParseStop) (R : ParseState → α → ParseState → Prop) :
    Sound (throw stop) R :=
  fun _ => Or.inr rfl

theorem sound_stop (complaint : Complaint) (R : ParseState → α → ParseState → Prop) :
    Sound (stop complaint) R :=
  fun _ => Or.inr rfl

/-- A parser that records a complaint and goes on has nothing more to answer for. -/
theorem sound_complain (place : Word) (complaint : Complaint) :
    Sound (complain place complaint) fun _ _ _ => False := by
  intro s
  refine Or.inl ?_
  simp [ParseState.Grew, Diagnostics.record]

theorem sound_remaining : Sound remaining fun s ts s' => s' = s ∧ ts = s.rest :=
  fun _ => Or.inr ⟨rfl, rfl, rfl⟩

theorem sound_peek : Sound peek? fun s kind s' => s' = s ∧ kind = s.rest.head?.map Token.kind :=
  fun _ => Or.inr ⟨rfl, rfl, rfl⟩

theorem sound_advance :
    Sound advance fun s line s' => ∀ t rest, s.rest = t :: rest → s.Reads [t] s' ∧ line = t.line := by
  intro s
  refine Or.inr ⟨?_, ?_⟩
  · show s.advance.problems = s.problems
    unfold ParseState.advance
    split <;> rfl
  · intro t rest hrest
    refine ⟨ParseState.Reads.of_rest hrest, ?_⟩
    show s.advance.lastLine = t.line
    simp [ParseState.advance, hrest]

theorem advance_reads {s s' : ParseState} {t : Token} (h : s.Reads [t] s') :
    advance s = .ok t.line s' := by
  show EStateM.Result.ok s.advance.lastLine s.advance = .ok t.line s'
  rw [h.advance_eq, h.lastLine_eq]
  rfl

theorem peek_apply (s : ParseState) : peek? s = .ok (s.rest.head?.map Token.kind) s := rfl

theorem remaining_apply (s : ParseState) : remaining s = .ok s.rest s := rfl

theorem sees_apply (kind : TokenKind) (s : ParseState) : sees kind s = .ok (s.sees kind) s := rfl

/-- A choice by the kind of the next token. -/
theorem Sound.ifSees {kind : TokenKind} {yes no : Parser α} {R : ParseState → α → ParseState → Prop}
    (hyes : Sound yes fun s a s' => s.sees kind = true → R s a s')
    (hno : Sound no fun s a s' => s.sees kind = false → R s a s') :
    Sound (do if ← sees kind then yes else no) R := by
  intro s
  rw [bind_apply, sees_apply]
  cases hsees : s.sees kind with
  | true =>
      have h := hyes s
      simp only [if_true]
      split at h <;> simp_all
  | false =>
      have h := hno s
      simp only [Bool.false_eq_true, if_false]
      split at h <;> simp_all

theorem sound_expect (kind : TokenKind) (position : String) :
    Sound (expect kind position) fun s line s' => s.Reads [⟨kind, line⟩] s' := by
  refine Sound.ifSees (sound_advance.mono ?_) (sound_stop _ _)
  intro s line s' h hsees
  obtain ⟨line', rest, hrest⟩ := ParseState.sees_eq_true_iff.1 hsees
  obtain ⟨hreads, rfl⟩ := h _ _ hrest
  exact hreads

theorem sound_symbol (symbol : Symbol) (position : String) :
    Sound (Parser.symbol symbol position) fun s line s' => s.Reads [.symbol symbol line] s' :=
  sound_expect _ _

theorem expect_reads {s s' : ParseState} {kind : TokenKind} {line : Int} (position : String)
    (h : s.Reads [⟨kind, line⟩] s') : expect kind position s = .ok line s' := by
  have hsees : s.sees kind = true := by simp [h.sees_eq]
  unfold expect
  simp only [bind_apply, sees_apply, hsees, if_true]
  exact advance_reads h

theorem symbol_reads {s s' : ParseState} {symbol : Symbol} {line : Int} (position : String)
    (h : s.Reads [.symbol symbol line] s') : Parser.symbol symbol position s = .ok line s' :=
  expect_reads position h

theorem accept_reads {s s' : ParseState} {kind : TokenKind} {line : Int}
    (h : s.Reads [⟨kind, line⟩] s') : accept kind s = .ok true s' := by
  have hsees : s.sees kind = true := by simp [h.sees_eq]
  unfold accept
  simp only [bind_apply, sees_apply, hsees, if_true, advance_reads h]
  rfl

theorem accept_of_not_sees {s : ParseState} {kind : TokenKind} (h : s.sees kind = false) :
    accept kind s = .ok false s := by
  unfold accept
  simp only [bind_apply, sees_apply, h]
  rfl

/-- A choice by whether the next token is of a kind, which is consumed if so. -/
theorem Sound.ifAccept {kind : TokenKind} {yes no : Parser α}
    {R Y : ParseState → α → ParseState → Prop} (hyes : Sound yes Y)
    (hY : ∀ s line s₁ a s', s.Reads [⟨kind, line⟩] s₁ → Y s₁ a s' → R s a s')
    (hno : Sound no fun s a s' => s.sees kind = false → R s a s') :
    Sound (do if ← accept kind then yes else no) R := by
  intro s
  rw [bind_apply]
  cases hsees : s.sees kind with
  | true =>
      obtain ⟨line, rest, hrest⟩ := ParseState.sees_eq_true_iff.1 hsees
      have hreads : s.Reads [⟨kind, line⟩] s.advance := .of_rest hrest
      rw [accept_reads hreads]
      have h := hyes s.advance
      simp only [if_true]
      split at h <;> simp_all only [ParseState.Grew, hreads.problems_eq]
      exact h.imp id fun ⟨hproblems, hR⟩ => ⟨hproblems, hY _ _ _ _ _ hreads hR⟩
  | false =>
      rw [accept_of_not_sees hsees]
      have h := hno s
      simp only [Bool.false_eq_true, if_false]
      split at h <;> simp_all

theorem sound_name (role : String) :
    Sound (name role) fun s word s' => s.Reads [.name word] s' := by
  unfold name
  refine (sound_peek.bind (T := fun kind s word s' =>
    kind = s.rest.head?.map Token.kind → s.Reads [.name word] s') ?_).mono ?_
  · intro kind
    split
    · next text =>
      refine (sound_advance.bind fun line => sound_pure _).mono ?_
      rintro s word s' ⟨line, s₁, hadvance, rfl, rfl⟩ hkind
      cases hrest : s.rest with
      | nil => simp [hrest] at hkind
      | cons t rest =>
          obtain ⟨kind, line'⟩ := t
          obtain ⟨hreads, rfl⟩ := hadvance _ _ hrest
          simp only [hrest, List.head?_cons, Option.map_some, Option.some.injEq] at hkind
          subst hkind
          exact hreads
    · exact sound_stop _ _
  · rintro s word s' ⟨kind, s₁, ⟨rfl, rfl⟩, h⟩
    exact h rfl

theorem name_reads {s s' : ParseState} {word : Word} (role : String) (h : s.Reads [.name word] s') :
    name role s = .ok word s' := by
  unfold name
  simp only [bind_apply, peek_apply, h.head_eq, Option.map_some, advance_reads h]
  rfl

end Parser
end SafariScript
