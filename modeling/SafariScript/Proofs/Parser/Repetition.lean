import SafariScript.Proofs.Parser.Context
import SafariScript.Proofs.Parser.ExpressionSoundness

/-!
# Expressions read again elsewhere

What an expression parser reads depends on the tokens it consumes and on the kind of the token behind them, where
a semicolon and the end of the source count for as much as any other token that does not continue the expression.
`Mirrors` is the contract that says so: whatever tokens a parser consumed without adding to the problems, the other
parser gives the same result for them in every state where they come next, if what stands behind them does not
differ in a way that could be noticed (`Follows`). The bounds on the nesting are the same on both sides, so reading
again never runs out of room.

A loop over the tokens to come has its own form of the contract (`Again`), for it is given a list as fuel.
-/

namespace SafariScript

theorem ParseState.sees_eq_head (s : ParseState) (kind : TokenKind) :
    s.sees kind = (s.rest.head?.map Token.kind == some kind) := by
  unfold sees
  cases s.rest <;> rfl

theorem ParseState.Reads.unique {s s' : ParseState} {ts us : List Token} (hts : s.Reads ts s')
    (hus : s.Reads us s') : ts = us :=
  List.append_cancel_right (hts.rest.symm.trans hus.rest)

/-- Where the same tokens come next, the same token comes next. -/
theorem ParseState.Reads.head_congr {s s' t t' : ParseState} {ts : List Token} (hs : s.Reads ts s')
    (ht : t.Reads ts t') (hts : ts ≠ []) : t.rest.head? = s.rest.head? := by
  obtain ⟨first, ts, rfl⟩ := List.exists_cons_of_ne_nil hts
  rw [ht.head_eq, hs.head_eq]

theorem ParseState.Reads.sees_congr {s s' t t' : ParseState} {ts : List Token} (hs : s.Reads ts s')
    (ht : t.Reads ts t') (hts : ts ≠ []) (kind : TokenKind) : t.sees kind = s.sees kind := by
  rw [sees_eq_head, sees_eq_head, hs.head_congr ht hts]

namespace Parser

open Grammar

variable {α β : Type} {strict eats : Bool}

/-! ## The contract -/

/-- Nothing comes next, or a semicolon. -/
def Silent (ws : List Token) : Prop :=
  ∀ t ∈ ws.head?, t.kind = .symbol .semicolon

/-- What may stand behind consumed tokens in place of other tokens: the same kind of token or, unless `strict`, what
ends every expression. -/
def Follows (strict : Bool) (us ws : List Token) : Prop :=
  ws.head?.map Token.kind = us.head?.map Token.kind ∨ strict = false ∧ Silent ws

/-- Some tokens were consumed, and the parser gives the same result for them wherever they come next. With `eats`,
there was one at least. -/
def Repeats (strict eats : Bool) (p' : Parser α) (s : ParseState) (a : α) (s' : ParseState) : Prop :=
  ∃ ts, s.Reads ts s' ∧ (eats = true → ts ≠ []) ∧
    ∀ t t', t.Reads ts t' → Follows strict s'.rest t'.rest → p' t = .ok a t'

/-- Unless the first parser adds to the problems, the second one repeats it. -/
def Mirrors (strict eats : Bool) (p p' : Parser α) : Prop :=
  Sound p (Repeats strict eats p')

namespace Follows

variable {us ws : List Token}

theorem append (ts : List Token) (h : Follows strict us ws) : Follows strict (ts ++ us) (ts ++ ws) := by
  cases ts with
  | nil => exact h
  | cons t ts => exact Or.inl rfl

/-- In front of tokens that are consumed on both sides. -/
theorem of_reads {s s' t t' : ParseState} {ts : List Token} (hs : s.Reads ts s') (ht : t.Reads ts t')
    (h : Follows strict s'.rest t'.rest) : Follows strict s.rest t.rest := by
  rw [hs.rest, ht.rest]
  exact h.append ts

theorem loosen (h : Follows true us ws) : Follows strict us ws := by
  rcases h with h | ⟨hstrict, -⟩
  · exact Or.inl h
  · cases hstrict

theorem of_silent (h : Silent ws) : Follows false us ws :=
  Or.inr ⟨rfl, h⟩

/-- A kind of token that did not come next does not come next now, unless it is the semicolon. -/
theorem not_sees {s t : ParseState} {kind : TokenKind} (h : Follows strict s.rest t.rest)
    (hkind : kind ≠ .symbol .semicolon) (hs : s.sees kind = false) : t.sees kind = false := by
  rw [ParseState.sees_eq_false_iff] at hs ⊢
  rcases h with h | ⟨-, h⟩
  · rwa [h]
  · intro hsees
    obtain ⟨u, hu, rfl⟩ := Option.map_eq_some_iff.1 hsees
    exact hkind (h u hu)

end Follows

/-- Two parsers consume a token if one of them does. -/
theorem append_ne_nil_of_eats {eats₁ eats₂ : Bool} {ts us : List Token} (hts : eats₁ = true → ts ≠ [])
    (hus : eats₂ = true → us ≠ []) (heats : (eats₁ || eats₂) = true) : ts ++ us ≠ [] := by
  rcases Bool.or_eq_true_iff.1 heats with heats | heats
  · exact List.append_ne_nil_of_left_ne_nil (hts heats) us
  · exact List.append_ne_nil_of_right_ne_nil ts (hus heats)

namespace Mirrors

variable {p p' : Parser α} {f f' : α → Parser β}

theorem lazy (h : Mirrors strict eats p p') : Mirrors strict false p p' :=
  Sound.mono h fun _ _ _ ⟨ts, hreads, _, hagain⟩ => ⟨ts, hreads, nofun, hagain⟩

theorem tighten (h : Mirrors strict eats p p') : Mirrors true eats p p' :=
  Sound.mono h fun _ _ _ ⟨ts, hreads, heats, hagain⟩ =>
    ⟨ts, hreads, heats, fun t t' ht hfollows => hagain t t' ht hfollows.loosen⟩

/-- Two parsers one after the other. The first one has to know what comes next only if the second one may consume
nothing. -/
theorem sequence {strict₁ eats₁ eats₂ : Bool} (hp : Mirrors strict₁ eats₁ p p')
    (hf : ∀ a, Mirrors strict eats₂ (f a) (f' a)) (h : eats₂ = true ∨ strict₁ = strict) :
    Mirrors strict (eats₁ || eats₂) (p >>= f) (p' >>= f') := by
  refine (Sound.bind hp hf).mono ?_
  rintro s b s' ⟨a, s₁, ⟨ts, hts, heats₁, hagain₁⟩, us, hus, heats₂, hagain₂⟩
  refine ⟨ts ++ us, hts.append hus, append_ne_nil_of_eats heats₁ heats₂, fun t t' hreads hfollows => ?_⟩
  obtain ⟨t₁, ht, ht₁⟩ := hreads.split
  have hbetween : Follows strict₁ s₁.rest t₁.rest := by
    rcases h with heats | rfl
    · exact Or.inl (congrArg (Option.map Token.kind) (hus.head_congr ht₁ (heats₂ heats)))
    · exact hfollows.of_reads hus ht₁
  rw [bind_of_ok (hagain₁ t t₁ ht hbetween)]
  exact hagain₂ t₁ t' ht₁ hfollows

theorem bind {eats₁ : Bool} (hp : Mirrors strict eats₁ p p') (hf : ∀ a, Mirrors strict eats (f a) (f' a)) :
    Mirrors strict eats (p >>= f) (p' >>= f') :=
  hp.lazy.sequence hf (Or.inr rfl)

theorem eat {eats₂ : Bool} (hp : Mirrors strict true p p') (hf : ∀ a, Mirrors strict eats₂ (f a) (f' a)) :
    Mirrors strict true (p >>= f) (p' >>= f') :=
  hp.sequence hf (Or.inr rfl)

/-- A parser that consumes a token stands in front of whatever is behind it. -/
theorem before {eats₁ : Bool} (hp : Mirrors true eats₁ p p') (hf : ∀ a, Mirrors strict true (f a) (f' a)) :
    Mirrors strict true (p >>= f) (p' >>= f') :=
  hp.lazy.sequence hf (Or.inl rfl)

end Mirrors

/-! ## Primitives -/

theorem mirrors_pure (a : α) : Mirrors strict false (pure a) (pure a) := by
  refine (sound_pure a).mono ?_
  rintro s b s' ⟨rfl, rfl⟩
  refine ⟨[], .nil _, nofun, fun t t' hreads _ => ?_⟩
  rw [hreads.eq_of_nil]
  rfl

/-- A parser that stops at once promises everything. -/
theorem mirrors_stopAt (place : Word) (complaint : Complaint) (p' : Parser α) :
    Mirrors strict eats (stopAt place complaint) p' :=
  sound_throw _ _

theorem mirrors_stop (complaint : Complaint) (p' : Parser α) : Mirrors strict eats (stop complaint) p' :=
  sound_stop _ _

theorem mirrors_expect (kind : TokenKind) (position : String) :
    Mirrors strict true (expect kind position) (expect kind position) :=
  (sound_expect kind position).mono fun _ _ _ hreads =>
    ⟨_, hreads, fun _ => List.cons_ne_nil _ _, fun _ _ ht _ => expect_reads position ht⟩

theorem mirrors_symbol (symbol : Symbol) (position : String) :
    Mirrors strict true (Parser.symbol symbol position) (Parser.symbol symbol position) :=
  mirrors_expect _ _

theorem mirrors_name (role : String) : Mirrors strict true (name role) (name role) :=
  (sound_name role).mono fun _ _ _ hreads =>
    ⟨_, hreads, fun _ => List.cons_ne_nil _ _, fun _ _ ht _ => name_reads role ht⟩

/-- A choice by the kind of the next token, which is consumed by every branch. -/
theorem Mirrors.ofPeek {f f' : Option TokenKind → Parser α}
    (hf : ∀ kind, Sound (f kind) fun s a s' =>
      s.rest.head?.map Token.kind = kind → Repeats strict true (f' kind) s a s') :
    Mirrors strict true (peek? >>= f) (peek? >>= f') := by
  refine (sound_peek.bind hf).mono ?_
  rintro s a s' ⟨_, s₁, ⟨rfl, rfl⟩, h⟩
  obtain ⟨ts, hreads, heats, hagain⟩ := h rfl
  refine ⟨ts, hreads, heats, fun t t' ht hfollows => ?_⟩
  rw [bind_apply, peek_apply, hreads.head_congr ht (heats rfl)]
  exact hagain t t' ht hfollows

/-- Consuming the token that was looked at, and going on. -/
theorem Mirrors.advance {kind : TokenKind} {f f' : Int → Parser α}
    (hf : ∀ line, Mirrors strict eats (f line) (f' line)) :
    Sound (advance >>= f) fun s a s' => s.rest.head?.map Token.kind = some kind →
      Repeats strict true (advance >>= f') s a s' := by
  refine ((sound_advance_of_kind kind).bind hf).mono ?_
  rintro s a s' ⟨line, s₁, hadvance, ts, hts, -, hagain⟩ hkind
  refine ⟨⟨kind, line⟩ :: ts, (hadvance hkind).append hts, fun _ => List.cons_ne_nil _ _, fun t t' ht hfollows => ?_⟩
  obtain ⟨t₁, hfirst, hrest⟩ := ht.uncons
  rw [bind_of_ok (advance_reads hfirst)]
  exact hagain t₁ t' hrest hfollows

/-- A choice by whether the next token is of a kind; it is consumed if so. -/
theorem Mirrors.ifSees {kind : TokenKind} {yes yes' no no' : Parser α} (hkind : kind ≠ .symbol .semicolon)
    (hyes : Mirrors strict true yes yes') (hno : Mirrors strict eats no no') :
    Mirrors strict eats (do if ← sees kind then yes else no) (do if ← sees kind then yes' else no') := by
  refine Sound.ifSees (Sound.mono hyes ?_) (Sound.mono hno ?_)
  · rintro s a s' ⟨ts, hreads, heats, hagain⟩ hs
    refine ⟨ts, hreads, fun _ => heats rfl, fun t t' ht hfollows => ?_⟩
    rw [bind_apply, sees_apply, hreads.sees_congr ht (heats rfl), hs]
    exact hagain t t' ht hfollows
  · rintro s a s' ⟨ts, hreads, heats, hagain⟩ hs
    refine ⟨ts, hreads, heats, fun t t' ht hfollows => ?_⟩
    rw [bind_apply, sees_apply, (hfollows.of_reads hreads ht).not_sees hkind hs]
    exact hagain t t' ht hfollows

/-- A choice by whether the next token is of a kind. Its kind has to be the same. -/
theorem Mirrors.ifSeesStrict {kind : TokenKind} {yes yes' no no' : Parser α} (hyes : Mirrors true eats yes yes')
    (hno : Mirrors true eats no no') :
    Mirrors true eats (do if ← sees kind then yes else no) (do if ← sees kind then yes' else no') := by
  have hsame {s s' t t' : ParseState} {ts : List Token} (hs : s.Reads ts s') (ht : t.Reads ts t')
      (hfollows : Follows true s'.rest t'.rest) : t.sees kind = s.sees kind := by
    rcases hfollows.of_reads hs ht with hhead | ⟨hstrict, -⟩
    · rw [ParseState.sees_eq_head, ParseState.sees_eq_head, hhead]
    · cases hstrict
  refine Sound.ifSees (Sound.mono hyes ?_) (Sound.mono hno ?_)
  · rintro s a s' ⟨ts, hreads, heats, hagain⟩ hs
    refine ⟨ts, hreads, heats, fun t t' ht hfollows => ?_⟩
    rw [bind_apply, sees_apply, hsame hreads ht hfollows, hs]
    exact hagain t t' ht hfollows
  · rintro s a s' ⟨ts, hreads, heats, hagain⟩ hs
    refine ⟨ts, hreads, heats, fun t t' ht hfollows => ?_⟩
    rw [bind_apply, sees_apply, hsame hreads ht hfollows, hs]
    exact hagain t t' ht hfollows

/-- A choice by whether the next token is of a kind, which is consumed if so. -/
theorem Mirrors.ifAccept {kind : TokenKind} {yes yes' no no' : Parser α} {eats₁ : Bool}
    (hkind : kind ≠ .symbol .semicolon) (hyes : Mirrors strict eats₁ yes yes') (hno : Mirrors strict eats no no') :
    Mirrors strict eats (do if ← accept kind then yes else no) (do if ← accept kind then yes' else no') := by
  refine Sound.ifAccept hyes ?_ (Sound.mono hno ?_)
  · rintro s line s₁ a s' hopen ⟨ts, hts, -, hagain⟩
    refine ⟨_, hopen.append hts, fun _ => List.cons_ne_nil _ _, fun t t' ht hfollows => ?_⟩
    obtain ⟨t₁, hfirst, hrest⟩ := ht.uncons
    rw [bind_of_ok (accept_reads hfirst)]
    exact hagain t₁ t' hrest hfollows
  · rintro s a s' ⟨ts, hreads, heats, hagain⟩ hs
    refine ⟨ts, hreads, heats, fun t t' ht hfollows => ?_⟩
    rw [ifAccept_of_not_sees ((hfollows.of_reads hreads ht).not_sees hkind hs)]
    exact hagain t t' ht hfollows

theorem mirrors_optionalAfter {kind : TokenKind} {part part' : Parser α} (hkind : kind ≠ .symbol .semicolon)
    (hpart : Mirrors strict eats part part') :
    Mirrors strict false (optionalAfter kind part) (optionalAfter kind part') :=
  .ifAccept hkind (hpart.bind fun _ => mirrors_pure _) (mirrors_pure none)

/-- A parser that looks at the state, if nothing in it makes a difference. -/
theorem Mirrors.ofGet {f f' : ParseState → Parser α} (hf : ∀ x y, Mirrors strict eats (f x) (f' y)) :
    Mirrors strict eats (get >>= f) (get >>= f') := by
  intro s
  have hs (y : ParseState) := hf s y s
  rw [bind_apply, get_apply]
  simp only
  cases hresult : f s s with
  | error e s' => simpa only [hresult] using hs s
  | ok a s' =>
      simp only [hresult] at hs ⊢
      rcases hs s with hgrew | ⟨hproblems, ts, hts, heats, -⟩
      · exact Or.inl hgrew
      · refine Or.inr ⟨hproblems, ts, hts, heats, fun t t' ht hfollows => ?_⟩
        rcases hs t with hgrew | ⟨-, us, hus, -, hagain⟩
        · rw [ParseState.Grew, hproblems] at hgrew
          exact absurd hgrew (Nat.lt_irrefl _)
        · obtain rfl : ts = us := hts.unique hus
          exact hagain t t' ht hfollows

/-! ## Loops -/

/-- What a loop over the tokens to come consumed, it consumes again wherever those tokens come next. The fuel has
to be enough for all tokens on the one side, and for those that are consumed on the other. -/
def Again (strict : Bool) (fuel : List Token) (loop' : List Token → Parser α) (s : ParseState) (a : α)
    (s' : ParseState) : Prop :=
  s.rest.length ≤ fuel.length → ∃ ts, s.Reads ts s' ∧ ∀ fuel' t t', ts.length ≤ fuel'.length →
    t.Reads ts t' → Follows strict s'.rest t'.rest → loop' fuel' t = .ok a t'

theorem Again.done {loop' : List Token → Parser α} {s : ParseState} {a : α} (fuel : List Token)
    (h : ∀ fuel' t, Follows strict s.rest t.rest → loop' fuel' t = .ok a t) : Again strict fuel loop' s a s := by
  refine fun _ => ⟨[], .nil s, fun fuel' t t' _ ht hfollows => ?_⟩
  obtain rfl := ht.eq_of_nil
  exact h fuel' t' hfollows

/-- A turn that consumes tokens, and then the other turns. -/
theorem Again.turn {loop' next' : List Token → Parser α} {s s₁ s' : ParseState} {a : α} {us fuel : List Token}
    (u : Token) (hus : s.Reads us s₁) (hne : us ≠ []) (h : Again strict fuel next' s₁ a s')
    (hturn : ∀ u' fuel' t t₁, t.Reads us t₁ → Follows strict s₁.rest t₁.rest →
      loop' (u' :: fuel') t = next' fuel' t₁) : Again strict (u :: fuel) loop' s a s' := by
  intro hfuel
  have hpos : 0 < us.length := List.length_pos_iff.2 hne
  have hlength := hus.length_eq
  rw [List.length_cons] at hfuel
  obtain ⟨ts, hts, hagain⟩ := h (by omega)
  refine ⟨us ++ ts, hus.append hts, fun fuel' t t' hfuel' ht hfollows => ?_⟩
  rw [List.length_append] at hfuel'
  obtain ⟨t₁, hfirst, hrest⟩ := ht.split
  have hbetween : Follows strict s₁.rest t₁.rest := hfollows.of_reads hts hrest
  cases fuel' with
  | nil =>
      rw [List.length_nil] at hfuel'
      omega
  | cons u' fuel' =>
      rw [List.length_cons] at hfuel'
      rw [hturn u' fuel' t t₁ hfirst hbetween]
      exact hagain fuel' t₁ t' (by omega) hrest hfollows

/-- A part, and then the other turns. -/
theorem Again.bind {part part' : Parser α} {loop : α → Parser β} {loop' : α → List Token → Parser β}
    {fuel : List Token} (hpart : Mirrors strict eats part part')
    (hloop : ∀ a, Sound (loop a) (Again strict fuel (loop' a))) :
    Sound (part >>= loop) (Again strict fuel fun fuel' => part' >>= fun a => loop' a fuel') := by
  refine (Sound.bind hpart hloop).mono ?_
  rintro s b s' ⟨a, s₁, ⟨us, hus, -, hagain₁⟩, hagain⟩ hfuel
  have hlength := hus.length_eq
  obtain ⟨ts, hts, hagain₂⟩ := hagain (by omega)
  refine ⟨us ++ ts, hus.append hts, fun fuel' t t' hfuel' ht hfollows => ?_⟩
  rw [List.length_append] at hfuel'
  obtain ⟨t₁, hfirst, hrest⟩ := ht.split
  have hbetween : Follows strict s₁.rest t₁.rest := hfollows.of_reads hts hrest
  refine (bind_of_ok (hagain₁ t t₁ hfirst hbetween) _).trans ?_
  exact hagain₂ fuel' t₁ t' (by omega) hrest hfollows

theorem Again.map {loop' : List Token → Parser α} {fuel : List Token} {s s' : ParseState} {a : α}
    (h : Again strict fuel loop' s a s') (g : α → β) :
    Again strict fuel (fun fuel' => loop' fuel' >>= fun a => pure (g a)) s (g a) s' := by
  intro hfuel
  obtain ⟨ts, hts, hagain⟩ := h hfuel
  exact ⟨ts, hts, fun fuel' t t' hfuel' ht hfollows => bind_of_ok (hagain fuel' t t' hfuel' ht hfollows) _⟩

theorem Again.sound_map {loop : Parser α} {loop' : List Token → Parser α} {fuel : List Token}
    (h : Sound loop (Again strict fuel loop')) (g : α → β) :
    Sound (loop >>= fun a => pure (g a)) (Again strict fuel fun fuel' => loop' fuel' >>= fun a => pure (g a)) := by
  refine (h.bind fun a => sound_pure (g a)).mono ?_
  rintro s b s' ⟨a, s₁, hagain, rfl, rfl⟩
  exact hagain.map g

theorem Mirrors.ofRemaining {loop loop' : List Token → Parser α}
    (h : ∀ fuel, Sound (loop fuel) (Again strict fuel loop')) :
    Mirrors strict false (remaining >>= loop) (remaining >>= loop') := by
  refine (sound_remaining.bind h).mono ?_
  rintro s a s' ⟨fuel, s₁, ⟨rfl, rfl⟩, hagain⟩
  obtain ⟨ts, hts, hagain⟩ := hagain (Nat.le_refl _)
  refine ⟨ts, hts, nofun, fun t t' ht hfollows => ?_⟩
  have hlength := ht.length_eq
  exact hagain t.rest t t' (by omega) ht hfollows

theorem separatedRest_done {item : Parser α} {s : ParseState} (h : s.sees (.symbol .comma) = false)
    (fuel : List Token) : separatedRest item fuel s = .ok [] s := by
  cases fuel with
  | nil => rfl
  | cons u fuel =>
      unfold separatedRest
      rw [ifAccept_of_not_sees h]
      rfl

theorem again_separatedRest {item item' : Parser α} (hitem : Mirrors strict eats item item') (fuel : List Token) :
    Sound (separatedRest item fuel) (Again strict fuel (separatedRest item')) := by
  have hdone (fuel : List Token) (s : ParseState) (hs : s.sees (.symbol .comma) = false) :
      Again strict fuel (separatedRest item') s [] s :=
    .done fuel fun fuel' t hfollows => separatedRest_done (hfollows.not_sees (by simp) hs) fuel'
  induction fuel with
  | nil =>
      refine (sound_pure _).mono ?_
      rintro s as s' ⟨rfl, rfl⟩ hfuel
      have hnil : s'.rest = [] := List.length_eq_zero_iff.1 (Nat.le_zero.1 hfuel)
      exact hdone [] s' (by simp [ParseState.sees, hnil]) hfuel
  | cons u fuel ih =>
      refine Sound.ifAccept (Again.bind hitem fun first => Again.sound_map ih (first :: ·)) ?_ ((sound_pure _).mono ?_)
      · rintro s line s₁ as s' hcomma hagain
        refine hagain.turn u hcomma (List.cons_ne_nil _ _) fun u' fuel' t t₁ ht _ => ?_
        exact bind_of_ok (accept_reads ht) _
      · rintro s as s' ⟨rfl, rfl⟩ hs
        exact hdone (u :: fuel) _ hs

theorem mirrors_separated {item item' : Parser α} (hitem : Mirrors strict true item item') :
    Mirrors strict true (separated item) (separated item') :=
  hitem.eat fun first => .ofRemaining fun fuel => Again.sound_map (again_separatedRest hitem fuel) (first :: ·)

/-- Whether there are items at all is seen from the symbol behind them. -/
theorem mirrors_listBefore {item item' : Parser α} (close : Symbol) (hitem : Mirrors strict true item item') :
    Mirrors true false (listBefore close item) (listBefore close item') :=
  .ifSeesStrict (mirrors_pure []) (mirrors_separated hitem.tighten).lazy

end Parser
end SafariScript
