import SafariScript.Proofs.Parser.Reading

/-!
# Parsing a part of the source

A part of the source can be parsed by itself, or where it stands: with more tokens behind it, and with problems
recorded in front of it. `Context` is what stands around the part, and `Context.Embeds` relates the state of the
parser on the part to its state on the whole. As long as the part is not used up, the parser cannot see what
stands behind it (`Context.Hidden`), so it does the same on both.

`Proceeds` is the contract of a parser that follows from this, and all that is needed of parsers that may fail:

* it only consumes tokens from the front, at least one if `eats` says so, and no semicolon if `spares` says so;
* it does not stop for want of room while there are fewer tokens to come than `room`;
* it does the same on the part and on the whole, as long as it cannot see behind the part.

The contract compares two parsers, one for the part and one for the whole. Most often they are the same; a loop
has more fuel on the whole than on the part, and a parser with a looser bound on the nesting does what one with
a tighter bound does, until that one stops.
-/

namespace SafariScript

open Grammar

namespace ParseState

/-- The state that a parser leaves, however it ends. -/
def after {α : Type} (s : ParseState) (p : Parser α) : ParseState :=
  match p s with
  | .ok _ s' => s'
  | .error _ s' => s'

theorem after_of_ok {α : Type} {p : Parser α} {a : α} {s s' : ParseState} (h : p s = .ok a s') :
    s.after p = s' := by
  rw [after, h]

theorem after_of_error {α : Type} {p : Parser α} {e : ParseStop} {s s' : ParseState} (h : p s = .error e s') :
    s.after p = s' := by
  rw [after, h]

/-- Tokens were consumed from the front, none of them a semicolon if those are spared. -/
def Moves (spares : Bool) (s s' : ParseState) : Prop :=
  ∃ ts, s.rest = ts ++ s'.rest ∧ s'.lastLine = linePast s.lastLine ts ∧ s'.endLine = s.endLine ∧
    (spares = true → ∀ t ∈ ts, t.kind ≠ .symbol .semicolon)

namespace Moves

variable {spares : Bool} {s s₁ s₂ : ParseState}

theorem refl (s : ParseState) : s.Moves spares s :=
  ⟨[], rfl, rfl, rfl, fun _ _ ht => absurd ht List.not_mem_nil⟩

theorem trans (h₁ : s.Moves spares s₁) (h₂ : s₁.Moves spares s₂) : s.Moves spares s₂ := by
  obtain ⟨ts, hts, hline₁, hend₁, hspares₁⟩ := h₁
  obtain ⟨us, hus, hline₂, hend₂, hspares₂⟩ := h₂
  refine ⟨ts ++ us, ?_, ?_, hend₂.trans hend₁, ?_⟩
  · rw [hts, hus, List.append_assoc]
  · rw [hline₂, hline₁, linePast_append]
  · intro hs t ht
    rcases List.mem_append.1 ht with ht | ht
    · exact hspares₁ hs t ht
    · exact hspares₂ hs t ht

theorem of_reads {t : Token} (h : s.Reads [t] s₁) (ht : spares = true → t.kind ≠ .symbol .semicolon) :
    s.Moves spares s₁ := by
  refine ⟨[t], h.rest, h.lastLine_eq, ?_, fun hs u hu => ?_⟩
  · rw [h.state]
  · rw [List.mem_singleton.1 hu]
    exact ht hs

theorem length_le (h : s.Moves spares s₁) : s₁.rest.length ≤ s.rest.length := by
  obtain ⟨ts, hts, -⟩ := h
  rw [hts, List.length_append]
  exact Nat.le_add_left _ _

theorem rest_ne_nil (h : s.Moves spares s₁) (hs : s₁.rest ≠ []) : s.rest ≠ [] := by
  obtain ⟨ts, hts, -⟩ := h
  rw [hts]
  exact List.append_ne_nil_of_right_ne_nil ts hs

end Moves
end ParseState

/-! ## Contexts -/

/-- What stands around a part of the source: the tokens behind it, the line where the whole ends, and the
problems recorded in front of it. The line of the token consumed last is the same on the part and on the whole
once fewer than `lined` tokens of the part are left. -/
structure Context where
  behind : List Token
  endLine : Int
  earlier : Diagnostics
  lined : Nat

namespace Context

variable {c : Context} {s s' t : ParseState} {α : Type}

/-- The second state is the first one in its context. -/
structure Embeds (c : Context) (s t : ParseState) : Prop where
  rest : t.rest = s.rest ++ c.behind
  endLine : t.endLine = c.endLine
  problems : t.problems = c.earlier ++ s.problems
  lastLine : s.rest.length < c.lined → t.lastLine = s.lastLine

/-- What stands behind the part cannot be seen: there are tokens of the part left, or nothing stands behind
it. -/
def Hidden (c : Context) (s : ParseState) : Prop :=
  s.rest ≠ [] ∨ c.behind = [] ∧ c.endLine = s.endLine

theorem Hidden.of_moves {spares : Bool} (h : c.Hidden s') (hmoves : s.Moves spares s') : c.Hidden s := by
  rcases h with hrest | ⟨hbehind, hend⟩
  · exact Or.inl (hmoves.rest_ne_nil hrest)
  · obtain ⟨ts, -, -, hendLine, -⟩ := hmoves
    exact Or.inr ⟨hbehind, hend.trans hendLine⟩

/-- The same outcome on the part and on the whole; what follows a stop for want of room does not matter. -/
inductive Agrees (c : Context) :
    EStateM.Result ParseStop ParseState α → EStateM.Result ParseStop ParseState α → Prop
  | ok {s t : ParseState} (a : α) (embeds : c.Embeds s t) : Agrees c (.ok a s) (.ok a t)
  | stopped {s t : ParseState} (complaint : Complaint) (place : Word) (embeds : c.Embeds s t) :
      Agrees c (.error (.complaint complaint place) s) (.error (.complaint complaint place) t)
  | tooDeep (s : ParseState) (result : EStateM.Result ParseStop ParseState α) :
      Agrees c (.error .tooDeep s) result

namespace Embeds

variable (h : c.Embeds s t) (hidden : c.Hidden s)

include h hidden

/-- The next token is the same. -/
theorem head_eq : t.rest.head? = s.rest.head? := by
  rw [h.rest]
  rcases hidden with hrest | ⟨hbehind, -⟩
  · cases hs : s.rest with
    | nil => exact absurd hs hrest
    | cons first rest => rfl
  · rw [hbehind, List.append_nil]

theorem rest_eq_nil (hs : s.rest = []) : t.rest = [] := by
  have hhead := h.head_eq hidden
  simpa [hs] using hhead

theorem sees_eq (kind : TokenKind) : t.sees kind = s.sees kind := by
  unfold ParseState.sees
  cases hs : s.rest with
  | nil => rw [h.rest_eq_nil hidden hs]
  | cons first rest =>
      rw [h.rest, hs]
      rfl

theorem here_eq : t.here = s.here := by
  unfold ParseState.here
  cases hs : s.rest with
  | nil =>
      rcases hidden with hrest | ⟨hbehind, hend⟩
      · exact absurd hs hrest
      · rw [h.rest, hs, hbehind, h.endLine, hend]
        rfl
  | cons first rest =>
      rw [h.rest, hs]
      rfl

theorem atLineEnd_eq (hlined : s.rest.length < c.lined) : t.atLineEnd = s.atLineEnd := by
  unfold ParseState.atLineEnd
  cases hs : s.rest with
  | nil => rw [h.rest_eq_nil hidden hs]
  | cons first rest =>
      rw [h.rest, hs, h.lastLine hlined]
      rfl

end Embeds

/-- Consuming a token of the part consumes it on the whole. -/
theorem Embeds.advance {first : Token} {rest : List Token} (h : c.Embeds s t) (hs : s.rest = first :: rest) :
    c.Embeds s.advance t.advance ∧ t.advance.lastLine = s.advance.lastLine := by
  have ht : t.rest = first :: (rest ++ c.behind) := by rw [h.rest, hs]; rfl
  simp only [ParseState.advance, hs, ht]
  exact ⟨⟨rfl, h.endLine, h.problems, fun _ => rfl⟩, trivial⟩

end Context

/-! ## The contract -/

namespace Parser

variable {α β : Type} {c : Context} {spares eats : Bool} {room : Nat} {s : ParseState}

/-- A parser keeps the contract from a state on, and another one does the same on the whole. -/
structure Proceeds (c : Context) (spares : Bool) (room : Nat) (eats : Bool) (s : ParseState)
    (p p' : Parser α) : Prop where
  moves : s.Moves spares (s.after p)
  eats : eats = true → ∀ a s', p s = .ok a s' → s'.rest.length < s.rest.length
  ample : ∀ s', p s = .error .tooDeep s' → room ≤ s.rest.length
  steady : ∀ t, c.Embeds s t → c.Hidden (s.after p) → c.Agrees (p s) (p' t)

/-- A parser keeps the contract from every state on. -/
def Regular (c : Context) (spares : Bool) (room : Nat) (eats : Bool) (p p' : Parser α) : Prop :=
  ∀ s, Proceeds c spares room eats s p p'

namespace Proceeds

variable {p p' : Parser α}

theorem moves_of_ok (h : Proceeds c spares room eats s p p') {a : α} {s' : ParseState} (hok : p s = .ok a s') :
    s.Moves spares s' := by
  rw [← ParseState.after_of_ok hok]
  exact h.moves

theorem moves_of_error (h : Proceeds c spares room eats s p p') {e : ParseStop} {s' : ParseState}
    (herror : p s = .error e s') : s.Moves spares s' := by
  rw [← ParseState.after_of_error herror]
  exact h.moves

/-- What is read of the part is read on the whole. -/
theorem exists_ok (h : Proceeds c spares room eats s p p') {a : α} {s' t : ParseState} (hok : p s = .ok a s')
    (ht : c.Embeds s t) (hhidden : c.Hidden s') : ∃ t', p' t = .ok a t' ∧ c.Embeds s' t' := by
  have hagrees := h.steady t ht (by rwa [ParseState.after_of_ok hok])
  rw [hok] at hagrees
  generalize p' t = result at hagrees
  cases hagrees with
  | ok _ embeds => exact ⟨_, rfl, embeds⟩

/-- Where the parser stops on the part, it stops on the whole. -/
theorem exists_complaint (h : Proceeds c spares room eats s p p') {complaint : Complaint} {place : Word}
    {s' t : ParseState} (hstop : p s = .error (.complaint complaint place) s') (ht : c.Embeds s t)
    (hhidden : c.Hidden s') : ∃ t', p' t = .error (.complaint complaint place) t' ∧ c.Embeds s' t' := by
  have hagrees := h.steady t ht (by rwa [ParseState.after_of_error hstop])
  rw [hstop] at hagrees
  generalize p' t = result at hagrees
  cases hagrees with
  | stopped _ _ embeds => exact ⟨_, rfl, embeds⟩

/-- With less room to answer for, and without an answer for progress. -/
theorem weaken {room' : Nat} (h : Proceeds c spares room eats s p p') (hroom : room' ≤ room) :
    Proceeds c spares room' eats s p p' where
  moves := h.moves
  eats := h.eats
  ample := fun s' hdeep => Nat.le_trans hroom (h.ample s' hdeep)
  steady := h.steady

theorem lazy (h : Proceeds c spares room eats s p p') : Proceeds c spares room false s p p' where
  moves := h.moves
  eats := fun hfalse => absurd hfalse Bool.false_ne_true
  ample := h.ample
  steady := h.steady

/-- A parser and then one that depends on its result. The second one answers for one token less of room if the
first one has consumed one. -/
theorem sequence {f f' : α → Parser β} {eats₁ eats₂ : Bool} (hp : Proceeds c spares room eats₁ s p p')
    (hf : ∀ a s₁, p s = .ok a s₁ →
      Proceeds c spares (if eats₁ then room - 1 else room) eats₂ s₁ (f a) (f' a)) :
    Proceeds c spares room (eats₁ || eats₂) s (p >>= f) (p' >>= f') := by
  cases hps : p s with
  | error e s₁ =>
      have hresult : (p >>= f) s = .error e s₁ := by rw [bind_apply, hps]
      have hafter : s.after (p >>= f) = s₁ := ParseState.after_of_error hresult
      refine ⟨by rw [hafter]; exact hp.moves_of_error hps, ?_, ?_, ?_⟩
      · intro _ b s' hok
        rw [hresult] at hok
        cases hok
      · intro s' hdeep
        rw [hresult] at hdeep
        cases hdeep
        exact hp.ample s₁ hps
      · intro t ht hhidden
        rw [hafter] at hhidden
        rw [hresult, bind_apply]
        cases e with
        | complaint complaint place =>
            obtain ⟨t₁, ht₁, hembeds⟩ := hp.exists_complaint hps ht hhidden
            rw [ht₁]
            exact .stopped complaint place hembeds
        | tooDeep => exact .tooDeep _ _
  | ok a s₁ =>
      have hf₁ := hf a s₁ hps
      have hmoves : s.Moves spares s₁ := hp.moves_of_ok hps
      have hresult : (p >>= f) s = f a s₁ := bind_of_ok hps f
      have hafter : s.after (p >>= f) = s₁.after (f a) := by
        unfold ParseState.after
        rw [hresult]
      refine ⟨by rw [hafter]; exact hmoves.trans hf₁.moves, ?_, ?_, ?_⟩
      · intro heats b s' hok
        rw [hresult] at hok
        have hlength := hmoves.length_le
        have hlength' := (hf₁.moves_of_ok hok).length_le
        rcases Bool.or_eq_true_iff.1 heats with heats | heats
        · have hfirst := hp.eats heats a s₁ hps
          omega
        · have hsecond := hf₁.eats heats b s' hok
          omega
      · intro s' hdeep
        rw [hresult] at hdeep
        have hroom := hf₁.ample s' hdeep
        have hlength := hmoves.length_le
        split at hroom
        · next heats =>
          have hfirst := hp.eats heats a s₁ hps
          omega
        · omega
      · intro t ht hhidden
        rw [hafter] at hhidden
        -- what the second parser cannot see behind the part, the first one could not see either
        obtain ⟨t₁, ht₁, hembeds⟩ := hp.exists_ok hps ht (hhidden.of_moves hf₁.moves)
        rw [hresult, bind_of_ok ht₁]
        exact hf₁.steady t₁ hembeds hhidden

/-- The first parser consumes a token. -/
theorem eat {f f' : α → Parser β} (hp : Proceeds c spares room true s p p')
    (hf : ∀ a s₁, p s = .ok a s₁ → Proceeds c spares (room - 1) false s₁ (f a) (f' a)) :
    Proceeds c spares room true s (p >>= f) (p' >>= f') :=
  hp.sequence hf

/-- The second parser consumes a token if one has to be. -/
theorem bind {f f' : α → Parser β} {eats' : Bool} (hp : Proceeds c spares room eats' s p p')
    (hf : ∀ a s₁, p s = .ok a s₁ → Proceeds c spares room eats s₁ (f a) (f' a)) :
    Proceeds c spares room eats s (p >>= f) (p' >>= f') :=
  hp.lazy.sequence hf

end Proceeds

namespace Regular

variable {p p' : Parser α} {f f' : α → Parser β} {eats' : Bool}

theorem lazy (h : Regular c spares room eats p p') : Regular c spares room false p p' :=
  fun s => (h s).lazy

theorem weaken {room' : Nat} (h : Regular c spares room eats p p') (hroom : room' ≤ room) :
    Regular c spares room' eats p p' :=
  fun s => (h s).weaken hroom

theorem eat (hp : Regular c spares room true p p') (hf : ∀ a, Regular c spares room eats (f a) (f' a)) :
    Regular c spares room true (p >>= f) (p' >>= f') :=
  fun s => (hp s).eat fun a s₁ _ => ((hf a s₁).weaken (Nat.sub_le room 1)).lazy

theorem bind (hp : Regular c spares room eats' p p') (hf : ∀ a, Regular c spares room eats (f a) (f' a)) :
    Regular c spares room eats (p >>= f) (p' >>= f') :=
  fun s => (hp s).bind fun a s₁ _ => hf a s₁

end Regular

/-! ## Primitives -/

/-- A parser that begins by looking at the state goes on as another one does from there. -/
theorem Proceeds.of_view {p p' q q' : Parser α} (h : Proceeds c spares room eats s q q') (hp : p s = q s)
    (hp' : ∀ t, c.Embeds s t → c.Hidden s → p' t = q' t) : Proceeds c spares room eats s p p' := by
  have hafter : s.after p = s.after q := by
    unfold ParseState.after
    rw [hp]
  refine ⟨by rw [hafter]; exact h.moves, ?_, ?_, ?_⟩
  · rw [hp]
    exact h.eats
  · rw [hp]
    exact h.ample
  · intro t ht hhidden
    rw [hafter] at hhidden
    rw [hp, hp' t ht (hhidden.of_moves h.moves)]
    exact h.steady t ht hhidden

theorem regular_pure (a : α) : Regular c spares room false (pure a) (pure a) := by
  intro s
  refine ⟨.refl s, fun hfalse => absurd hfalse Bool.false_ne_true, ?_, fun t ht _ => .ok a ht⟩
  intro s' hdeep
  cases hdeep

/-- A parser that stops at once never succeeds, so it may promise progress. -/
theorem regular_stopAt (place : Word) (complaint : Complaint) :
    Regular c spares room eats (stopAt place complaint : Parser α) (stopAt place complaint) := by
  intro s
  refine ⟨.refl s, ?_, ?_, fun t ht _ => .stopped complaint place ht⟩
  · intro _ a s' hok
    cases hok
  · intro s' hdeep
    cases hdeep

theorem regular_stop (complaint : Complaint) :
    Regular c spares room eats (stop complaint : Parser α) (stop complaint) := by
  intro s
  refine (regular_stopAt s.here complaint s).of_view rfl fun t ht hhidden => ?_
  show stopAt t.here complaint t = stopAt s.here complaint t
  rw [ht.here_eq hhidden]

/-- Without room to answer for, a parser may stop for want of it. -/
theorem regular_tooDeep (p' : Parser α) : Regular c spares 0 eats (tooDeep : Parser α) p' := by
  intro s
  refine ⟨.refl s, ?_, fun _ _ => Nat.zero_le _, fun t _ _ => .tooDeep s _⟩
  intro _ a s' hok
  cases hok

theorem regular_complain (place : Word) (complaint : Complaint) :
    Regular c spares room false (complain place complaint) (complain place complaint) := by
  intro s
  refine ⟨⟨[], rfl, rfl, rfl, ?_⟩, fun hfalse => absurd hfalse Bool.false_ne_true, ?_, ?_⟩
  · exact fun _ _ ht => absurd ht List.not_mem_nil
  · intro s' hdeep
    cases hdeep
  · intro t ht _
    refine .ok () ⟨ht.rest, ht.endLine, ?_, ht.lastLine⟩
    show t.problems ++ [_] = c.earlier ++ (s.problems ++ [_])
    rw [ht.problems, List.append_assoc]

theorem proceeds_advance {first : Token} {rest : List Token} (hs : s.rest = first :: rest)
    (hfirst : spares = true → first.kind ≠ .symbol .semicolon) :
    Proceeds c spares room true s advance advance := by
  have hreads : s.Reads [first] s.advance := .of_rest hs
  refine ⟨.of_reads hreads hfirst, ?_, ?_, ?_⟩
  · intro _ a s' hok
    cases hok
    have hlength := hreads.length_eq
    simp only [List.length_singleton] at hlength
    omega
  · intro s' hdeep
    cases hdeep
  · intro t ht _
    obtain ⟨hadvance, hline⟩ := ht.advance hs
    show c.Agrees (.ok s.advance.lastLine s.advance) (.ok t.advance.lastLine t.advance)
    rw [hline]
    exact .ok _ hadvance

/-- Consuming the token that was looked at. -/
theorem proceeds_advance_of_kind {kind : TokenKind} (hs : s.rest.head?.map Token.kind = some kind)
    (hkind : spares = true → kind ≠ .symbol .semicolon) : Proceeds c spares room true s advance advance := by
  cases hrest : s.rest with
  | nil => simp [hrest] at hs
  | cons first rest =>
      simp only [hrest, List.head?_cons, Option.map_some, Option.some.injEq] at hs
      exact proceeds_advance hrest (hs ▸ hkind)

/-- A choice by the kind of the next token. -/
theorem Proceeds.ofPeek {f f' : Option TokenKind → Parser α}
    (h : Proceeds c spares room eats s (f (s.rest.head?.map Token.kind)) (f' (s.rest.head?.map Token.kind))) :
    Proceeds c spares room eats s (peek? >>= f) (peek? >>= f') := by
  refine h.of_view rfl fun t ht hhidden => ?_
  show f' (t.rest.head?.map Token.kind) t = _
  rw [ht.head_eq hhidden]

/-- A loop over the tokens to come, of which there are more on the whole. -/
theorem Proceeds.ofRemaining {f f' : List Token → Parser α}
    (h : Proceeds c spares room eats s (f s.rest) (f' (s.rest ++ c.behind))) :
    Proceeds c spares room eats s (remaining >>= f) (remaining >>= f') := by
  refine h.of_view rfl fun t ht _ => ?_
  show f' t.rest t = _
  rw [ht.rest]

/-- A choice by whether the next token is of a kind. -/
theorem Proceeds.ifSees {kind : TokenKind} {yes yes' no no' : Parser α}
    (hyes : s.sees kind = true → Proceeds c spares room eats s yes yes')
    (hno : s.sees kind = false → Proceeds c spares room eats s no no') :
    Proceeds c spares room eats s (do if ← sees kind then yes else no)
      (do if ← sees kind then yes' else no') := by
  cases hsees : s.sees kind with
  | true =>
      refine (hyes hsees).of_view ?_ fun t ht hhidden => ?_
      · rw [bind_apply, sees_apply, hsees]
        rfl
      · rw [bind_apply, sees_apply, ht.sees_eq hhidden, hsees]
        rfl
  | false =>
      refine (hno hsees).of_view ?_ fun t ht hhidden => ?_
      · rw [bind_apply, sees_apply, hsees]
        rfl
      · rw [bind_apply, sees_apply, ht.sees_eq hhidden, hsees]
        rfl

theorem ifAccept_of_sees {kind : TokenKind} (h : s.sees kind = true) (yes no : Parser α) :
    (do if ← accept kind then yes else no) s = (advance >>= fun _ => yes) s := by
  obtain ⟨line, rest, hrest⟩ := ParseState.sees_eq_true_iff.1 h
  have hreads : s.Reads [⟨kind, line⟩] s.advance := .of_rest hrest
  rw [bind_apply, accept_reads hreads, bind_apply, advance_reads hreads]
  rfl

theorem ifAccept_of_not_sees {kind : TokenKind} (h : s.sees kind = false) (yes no : Parser α) :
    (do if ← accept kind then yes else no) s = no s := by
  rw [bind_apply, accept_of_not_sees h]
  rfl

/-- A choice by whether the next token is of a kind, which is consumed if so. -/
theorem Proceeds.ifAccept {kind : TokenKind} {yes yes' no no' : Parser α}
    (hkind : spares = true → kind ≠ .symbol .semicolon)
    (hyes : ∀ line s₁, s.Reads [⟨kind, line⟩] s₁ → Proceeds c spares (room - 1) false s₁ yes yes')
    (hno : s.sees kind = false → Proceeds c spares room eats s no no') :
    Proceeds c spares room eats s (do if ← accept kind then yes else no)
      (do if ← accept kind then yes' else no') := by
  cases hsees : s.sees kind with
  | true =>
      obtain ⟨line, rest, hrest⟩ := ParseState.sees_eq_true_iff.1 hsees
      have hreads : s.Reads [⟨kind, line⟩] s.advance := .of_rest hrest
      have hadvance : Proceeds c spares room true s advance advance := proceeds_advance hrest hkind
      have hboth : Proceeds c spares room true s (advance >>= fun _ => yes) (advance >>= fun _ => yes') := by
        refine hadvance.eat fun a s₁ hok => ?_
        obtain rfl : s.advance = s₁ := by
          cases hok
          rfl
        exact hyes line s.advance hreads
      have heager : Proceeds c spares room eats s (advance >>= fun _ => yes) (advance >>= fun _ => yes') :=
        ⟨hboth.moves, fun _ => hboth.eats rfl, hboth.ample, hboth.steady⟩
      refine heager.of_view (ifAccept_of_sees hsees yes no) fun t ht hhidden => ?_
      exact ifAccept_of_sees (by rw [ht.sees_eq hhidden, hsees]) yes' no'
  | false =>
      refine (hno hsees).of_view (ifAccept_of_not_sees hsees yes no) fun t ht hhidden => ?_
      exact ifAccept_of_not_sees (by rw [ht.sees_eq hhidden, hsees]) yes' no'

theorem regular_expect {kind : TokenKind} (hkind : kind ≠ .symbol .semicolon) (position : String) :
    Regular c spares room true (expect kind position) (expect kind position) := by
  intro s
  refine .ifSees (fun hsees => ?_) fun _ => regular_stop _ s
  obtain ⟨line, rest, hrest⟩ := ParseState.sees_eq_true_iff.1 hsees
  exact proceeds_advance hrest fun _ => hkind

theorem regular_symbol {symbol : Symbol} (hsymbol : symbol ≠ .semicolon) (position : String) :
    Regular c spares room true (Parser.symbol symbol position) (Parser.symbol symbol position) :=
  regular_expect (fun h => hsymbol (TokenKind.symbol.inj h)) position

theorem regular_name (role : String) : Regular c spares room true (name role) (name role) := by
  intro s
  refine .ofPeek ?_
  split
  · next text htext =>
    exact (proceeds_advance_of_kind htext fun _ => by simp).eat fun line s₁ _ => regular_pure _ s₁
  · exact regular_stop _ s

/-! ## Lists -/

theorem separatedRest_of_nil {item : Parser α} {s : ParseState} (hs : s.rest = []) (fuel : List Token) :
    separatedRest item fuel s = .ok [] s := by
  cases fuel with
  | nil => rfl
  | cons t fuel =>
      have hsees : s.sees (.symbol .comma) = false := by simp [ParseState.sees, hs]
      unfold separatedRest
      rw [bind_apply, accept_of_not_sees hsees]
      rfl

/-- The loop ends before its fuel does, so it does not matter how much more of it there is on the whole. -/
theorem proceeds_separatedRest {item item' : Parser α} {eats : Bool}
    (hitem : Regular c spares room eats item item') (fuel fuel' : List Token) (s : ParseState)
    (hfuel : s.rest.length ≤ fuel.length) (hfuel' : s.rest.length + c.behind.length ≤ fuel'.length) :
    Proceeds c spares room false s (separatedRest item fuel) (separatedRest item' fuel') := by
  induction fuel generalizing fuel' s with
  | nil =>
      have hs : s.rest = [] := List.length_eq_zero_iff.1 (Nat.le_zero.1 hfuel)
      refine (regular_pure [] s).of_view (separatedRest_of_nil hs _) fun t ht hhidden => ?_
      exact separatedRest_of_nil (ht.rest_eq_nil hhidden hs) _
  | cons u fuel ih =>
      by_cases hs : s.rest = []
      · refine (regular_pure [] s).of_view (separatedRest_of_nil hs _) fun t ht hhidden => ?_
        exact separatedRest_of_nil (ht.rest_eq_nil hhidden hs) _
      · have hpos : 0 < s.rest.length := List.length_pos_iff.2 hs
        cases fuel' with
        | nil =>
            rw [List.length_nil] at hfuel'
            omega
        | cons u' fuel' =>
            rw [List.length_cons] at hfuel hfuel'
            refine .ifAccept (fun _ => by decide) (fun line s₁ hcomma => ?_) fun _ => regular_pure [] s
            have hlength := hcomma.length_eq
            rw [List.length_singleton] at hlength
            refine ((hitem s₁).weaken (Nat.sub_le room 1)).bind fun first s₂ hfirst => ?_
            have hlength₂ := ((hitem s₁).moves_of_ok hfirst).length_le
            have hrest := ih fuel' s₂ (by omega) (by omega)
            exact (hrest.weaken (Nat.sub_le room 1)).bind fun others s₃ _ => regular_pure _ s₃

theorem regular_separated {item item' : Parser α} (hitem : Regular c spares room true item item') :
    Regular c spares room true (separated item) (separated item') := by
  intro s
  refine (hitem s).eat fun first s₁ _ => .ofRemaining ?_
  have hrest := proceeds_separatedRest hitem s₁.rest (s₁.rest ++ c.behind) s₁ (Nat.le_refl _)
    (Nat.le_of_eq List.length_append.symm)
  exact (hrest.weaken (Nat.sub_le room 1)).bind fun others s₂ _ => regular_pure _ s₂

theorem regular_listBefore {item item' : Parser α} (close : Symbol)
    (hitem : Regular c spares room true item item') :
    Regular c spares room false (listBefore close item) (listBefore close item') := by
  intro s
  exact .ifSees (fun _ => regular_pure [] s) fun _ => (regular_separated hitem).lazy s

theorem regular_optionalAfter {kind : TokenKind} {part part' : Parser α}
    (hkind : kind ≠ .symbol .semicolon) (hpart : Regular c spares room eats part part') :
    Regular c spares room false (optionalAfter kind part) (optionalAfter kind part') := by
  intro s
  refine .ifAccept (fun _ => hkind) (fun line s₁ _ => ?_) fun _ => regular_pure none s
  exact ((hpart s₁).weaken (Nat.sub_le room 1)).bind fun a s₂ _ => regular_pure _ s₂

end Parser
end SafariScript
