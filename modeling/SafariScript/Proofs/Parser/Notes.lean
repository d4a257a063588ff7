import SafariScript.Proofs.Parser.Totality

/-!
# Notes belong to their own complaint

Notes are attached after the fact, to the latest record at a place, and there can be several records at one place.
`noteTable` says which notes a message calls for by how it begins. A parser answers for its records if it only
adds to them, each new record with the notes that its own message calls for and at the word of a token or at the end,
and if a complaint it stops with has these notes and such a place ready (`Annotates`). Every rule does, for nothing is
recorded between a complaint and its notes, and a place is that of the next token, or of a name or a keyword that was
just consumed. So behind a script the records from before are unchanged, and all the others stand at words of the
source (`exists_problems_at`) and have their notes (`parse_notes_belong`).
-/

namespace SafariScript

/-! ## The notes that a message calls for -/

/-- How a message begins, and the notes that go with it. -/
def noteTable : List (String × List String) :=
  [("Expected ')'",
      ["Missing ')' to close the expression.", "Missing ';' at the end of the statement."]),
    ("Expected '\x7d'", ["Missing '\x7d' to close the block."]),
    ("Expected ';'", ["Try adding a ';' at the end of the previous expression or statement."])]

/-- The notes of all entries that a message begins with, in the order of the table. -/
def notesFor (message : String) : List String :=
  noteTable.flatMap fun (opening, notes) =>
    if opening.toList.isPrefixOf message.toList then notes else []

/-- A record of the parser with the notes that its message calls for. What the message says about the token does
not matter. -/
structure Diagnostic.Noted (d : Diagnostic) : Prop where
  category : d.category = .parse
  cause : d.hints = notesFor d.cause
  message : d.hints = notesFor d.message

/-- A text that no entry begins like, however the text goes on. -/
def Unlisted (text : String) : Prop :=
  ∀ entry ∈ noteTable, ¬ entry.1.toList <+: text.toList ∧ ¬ text.toList <+: entry.1.toList

instance (text : String) : Decidable (Unlisted text) :=
  inferInstanceAs (Decidable (∀ entry ∈ noteTable, _ ∧ _))

theorem notesFor_of_unlisted {text : String} (htext : Unlisted text) (more : String) :
    notesFor (text ++ more) = [] := by
  refine List.flatMap_eq_nil_iff.2 fun entry hentry => ?_
  obtain ⟨hnot, hnot'⟩ := htext entry hentry
  refine if_neg fun hopening => ?_
  have hprefix : entry.1.toList <+: text.toList ++ more.toList := by
    rw [← String.toList_append]
    exact List.isPrefixOf_iff_prefix.1 hopening
  rcases List.prefix_or_prefix_of_prefix hprefix (List.prefix_append _ _) with h | h
  · exact hnot h
  · exact hnot' h

namespace Complaint

/-- The notes of a complaint are those that its message calls for, whatever is added to the message. -/
def Noted (complaint : Complaint) : Prop :=
  ∀ tail, notesFor (complaint.message ++ tail) = complaint.hints

theorem noted_of_unlisted {complaint : Complaint} {text more : String}
    (hmessage : complaint.message = text ++ more) (hhints : complaint.hints = []) (htext : Unlisted text) :
    complaint.Noted := by
  intro tail
  rw [hmessage, hhints, String.append_assoc]
  exact notesFor_of_unlisted htext _

theorem noted_missingName {role : String} (hrole : Unlisted ("Expected " ++ role)) : (missingName role).Noted :=
  noted_of_unlisted (String.append_empty).symm rfl hrole

theorem noted_missingExpression : missingExpression.Noted :=
  noted_of_unlisted (String.append_empty).symm rfl (by decide)

theorem noted_invalidTarget : invalidTarget.Noted :=
  noted_of_unlisted (String.append_empty).symm rfl (by decide)

theorem noted_outsideLoop (keyword : String) : (outsideLoop keyword).Noted := by
  have htext : Unlisted "'" := by decide
  exact noted_of_unlisted (String.append_assoc ..) rfl htext

theorem noted_outsideControl : outsideControl.Noted :=
  noted_of_unlisted (String.append_empty).symm rfl (by decide)

theorem noted_calledProperty (name : String) : (calledProperty name).Noted :=
  noted_of_unlisted (String.append_assoc ..) rfl (by decide)

theorem noted_uncalledMethod (name : String) : (uncalledMethod name).Noted :=
  noted_of_unlisted rfl rfl (by decide)

theorem toList_missing (spelling position tail : String) :
    ((missing spelling position).message ++ tail).toList =
      "Expected '".toList ++ (spelling.toList ++ ("' ".toList ++ (position.toList ++ tail.toList))) := by
  show ("Expected '" ++ spelling ++ "' " ++ position ++ tail).toList = _
  simp only [String.toList_append, List.append_assoc]

/-- Of the symbols that can be missing, three call for notes. -/
theorem noted_missing_symbol (symbol : Symbol) (position : String) : (missing symbol.spelling position).Noted := by
  intro tail
  unfold notesFor
  rw [toList_missing]
  cases symbol <;> rfl

theorem noted_missing_in (position : String) : (missing "in" position).Noted := by
  have htext : Unlisted "Expected 'in" := by decide
  exact noted_of_unlisted (String.append_assoc ..) rfl htext

/-- The record of a complaint with its notes has the notes of its message, with and without the token. -/
theorem Noted.recorded {complaint : Complaint} (h : complaint.Noted) (place : Word) :
    (complaint.recorded place).Noted where
  category := rfl
  cause := by
    have hcause := h ""
    rw [String.append_empty] at hcause
    exact hcause.symm
  message := by
    show complaint.hints = notesFor (if place.text = "" then complaint.message ++ " at end"
      else complaint.message ++ " at '" ++ place.text ++ "'")
    split
    · exact (h _).symm
    · rw [String.append_assoc, String.append_assoc]
      exact (h _).symm

end Complaint

/-! ## Parsers that answer for their records -/

/-- A record stands at a known word: it has its line and its spelling. -/
def Diagnostic.StandsAt (known : Word → Prop) (d : Diagnostic) : Prop :=
  ∃ word, known word ∧ d.line = word.line ∧ d.lexeme = some word.text

/-- The words of the tokens to come are known, and so is the end of the source. -/
structure ParseState.Known (known : Word → Prop) (s : ParseState) : Prop where
  tokens : ∀ t ∈ s.rest, known t.word
  ending : known ⟨"", s.endLine⟩

namespace ParseState.Known

variable {known : Word → Prop} {s : ParseState}

theorem here (h : s.Known known) : known s.here := by
  unfold ParseState.here
  split
  · next t rest hrest => exact h.tokens t (by rw [hrest]; exact List.mem_cons_self)
  · exact h.ending

theorem advance (h : s.Known known) : s.advance.Known known := by
  unfold ParseState.advance
  split
  · next t rest hrest => exact ⟨fun u hu => h.tokens u (by rw [hrest]; exact List.mem_cons_of_mem t hu), h.ending⟩
  · exact h

theorem of_moves {s' : ParseState} {spares : Bool} (h : s.Known known) (hmoves : s.Moves spares s') :
    s'.Known known := by
  obtain ⟨ts, hts, -, hend, -⟩ := hmoves
  refine ⟨fun t ht => h.tokens t ?_, hend ▸ h.ending⟩
  rw [hts]
  exact List.mem_append_right ts ht

/-- The word of a token that comes next, put together from its kind and the line that consuming it gives. -/
theorem advance_word (h : s.Known known) {kind : TokenKind} (hkind : s.rest.head?.map Token.kind = some kind) :
    known ⟨kind.lexeme, s.advance.lastLine⟩ := by
  obtain ⟨t, ht, rfl⟩ := Option.map_eq_some_iff.1 hkind
  obtain ⟨rest, hrest⟩ := List.head?_eq_some_iff.1 ht
  unfold ParseState.advance
  rw [hrest]
  exact h.tokens t (by rw [hrest]; exact List.mem_cons_self)

end ParseState.Known

/-- Records were added, each at a known word and with the notes that its message calls for; those from before are
unchanged. -/
def ParseState.Annotated (known : Word → Prop) (s s' : ParseState) : Prop :=
  ∃ added, s'.problems = s.problems ++ added ∧ ∀ d ∈ added, d.Noted ∧ d.StandsAt known

namespace ParseState.Annotated

variable {known : Word → Prop} {s s₁ s₂ : ParseState}

theorem of_eq (h : s₁.problems = s.problems) : s.Annotated known s₁ :=
  ⟨[], by rw [h, List.append_nil], nofun⟩

theorem trans (h₁ : s.Annotated known s₁) (h₂ : s₁.Annotated known s₂) : s.Annotated known s₂ := by
  obtain ⟨ds, hds, hfirst⟩ := h₁
  obtain ⟨es, hes, hsecond⟩ := h₂
  refine ⟨ds ++ es, by rw [hes, hds, List.append_assoc], fun d hd => ?_⟩
  rcases List.mem_append.1 hd with hd | hd
  · exact hfirst d hd
  · exact hsecond d hd

/-- A report finds the record that it has just made, whatever other records there are at its place. -/
theorem report {complaint : Complaint} (h : complaint.Noted) {place : Word} (hplace : known place) (s : ParseState) :
    s.Annotated known (s.report complaint place) := by
  refine ⟨[complaint.recorded place], s.report_problems complaint place, fun d hd => ?_⟩
  rw [List.mem_singleton.1 hd]
  exact ⟨h.recorded place, place, hplace, rfl, rfl⟩

end ParseState.Annotated

/-- The notes of the complaint that a parser stops with are those that its message calls for, and its place is
known. -/
def ParseStop.Noted (known : Word → Prop) : ParseStop → Prop
  | complaint c place => c.Noted ∧ known place
  | tooDeep => True

namespace Parser

variable {α β : Type} {known : Word → Prop} {post : α → Prop}

/-- From a state on a parser adds only records at known words, with the notes that their messages call for, however it
ends; a complaint it stops with is ready to be recorded like that, and a result meets a condition. -/
def AnnotatesFrom (known : Word → Prop) (post : α → Prop) (s : ParseState) (p : Parser α) : Prop :=
  match p s with
  | .ok a s' => (s'.Known known ∧ s.Annotated known s') ∧ post a
  | .error stop s' => (s'.Known known ∧ s.Annotated known s') ∧ stop.Noted known

/-- A parser answers for its records and its result wherever the words of the tokens to come are known. -/
def Gives (known : Word → Prop) (post : α → Prop) (p : Parser α) : Prop :=
  ∀ s, s.Known known → AnnotatesFrom known post s p

/-- A parser answers for its records. -/
abbrev Annotates (known : Word → Prop) (p : Parser α) : Prop :=
  Gives known (fun _ => True) p

theorem Annotates.of_ok {p : Parser α} (hp : Annotates known p) {s s' : ParseState} {a : α} (hs : s.Known known)
    (h : p s = .ok a s') : s.Annotated known s' := by
  have hresult := hp s hs
  rw [AnnotatesFrom, h] at hresult
  exact hresult.1.2

theorem Annotates.of_error {p : Parser α} (hp : Annotates known p) {s s' : ParseState} {e : ParseStop}
    (hs : s.Known known) (h : p s = .error e s') : s.Annotated known s' := by
  have hresult := hp s hs
  rw [AnnotatesFrom, h] at hresult
  exact hresult.1.2

/-- A parser that changes nothing. -/
theorem annotatesFrom_ok {p : Parser α} {s : ParseState} {a : α} (hs : s.Known known) (h : p s = .ok a s)
    (ha : post a) : AnnotatesFrom known post s p := by
  rw [AnnotatesFrom, h]
  exact ⟨⟨hs, .of_eq rfl⟩, ha⟩

theorem annotates_pure (a : α) : Annotates known (pure a : Parser α) :=
  fun _ hs => annotatesFrom_ok hs rfl trivial

theorem AnnotatesFrom.bind {p : Parser α} {f : α → Parser β} {s : ParseState} (hp : AnnotatesFrom known post s p)
    (hf : ∀ a, post a → Annotates known (f a)) : AnnotatesFrom known (fun _ => True) s (p >>= f) := by
  unfold AnnotatesFrom at hp ⊢
  rw [bind_apply]
  cases hps : p s with
  | error e s₁ => simpa only [hps] using hp
  | ok a s₁ =>
      simp only [hps] at hp ⊢
      have hrest := hf a hp.2 s₁ hp.1.1
      unfold AnnotatesFrom at hrest
      cases hfs : f a s₁ with
      | error e s₂ | ok b s₂ =>
          simp only [hfs] at hrest ⊢
          exact ⟨⟨hrest.1.1, hp.1.2.trans hrest.1.2⟩, hrest.2⟩

/-- What follows may count on the condition that the result meets. -/
theorem Gives.next {p : Parser α} {f : α → Parser β} (hp : Gives known post p)
    (hf : ∀ a, post a → Annotates known (f a)) : Annotates known (p >>= f) :=
  fun s hs => (hp s hs).bind hf

theorem Annotates.bind {p : Parser α} {f : α → Parser β} (hp : Annotates known p) (hf : ∀ a, Annotates known (f a)) :
    Annotates known (p >>= f) :=
  hp.next fun a _ => hf a

theorem Annotates.map {p : Parser α} (hp : Annotates known p) (f : α → β) : Annotates known (f <$> p) := by
  intro s hs
  have hresult := hp s hs
  unfold AnnotatesFrom at hresult ⊢
  rw [map_apply]
  cases hps : p s <;> simpa only [hps] using hresult

theorem Annotates.ite {p q : Parser α} {c : Prop} [Decidable c] (hp : Annotates known p) (hq : Annotates known q) :
    Annotates known (if c then p else q) := by
  split
  · exact hp
  · exact hq

theorem gives_get : Gives known (fun s => known s.here) (get : Parser ParseState) :=
  fun _ hs => annotatesFrom_ok hs rfl hs.here

theorem annotates_get : Annotates known (get : Parser ParseState) :=
  fun _ hs => annotatesFrom_ok hs rfl trivial

theorem annotates_tooDeep : Annotates known (tooDeep : Parser α) :=
  fun _ hs => ⟨⟨hs, .of_eq rfl⟩, trivial⟩

theorem annotates_stopAt {complaint : Complaint} (h : complaint.Noted) {place : Word} (hplace : known place) :
    Annotates known (stopAt place complaint : Parser α) :=
  fun _ hs => ⟨⟨hs, .of_eq rfl⟩, h, hplace⟩

theorem annotates_stop {complaint : Complaint} (h : complaint.Noted) :
    Annotates known (stop complaint : Parser α) :=
  gives_get.next fun _ hhere => annotates_stopAt h hhere

/-- A complaint that does not stop the parser is recorded without notes, so it must not call for any. -/
theorem annotates_complain {complaint : Complaint} (h : complaint.Noted) (hnone : complaint.hints = [])
    {place : Word} (hplace : known place) : Annotates known (complain place complaint) := by
  intro s hs
  have hrecorded : complaint.diagnostic place = complaint.recorded place := by
    rw [Complaint.recorded, hnone]
    rfl
  refine ⟨⟨⟨hs.tokens, hs.ending⟩, [complaint.diagnostic place], rfl, fun d hd => ?_⟩, trivial⟩
  rw [List.mem_singleton.1 hd]
  exact ⟨hrecorded ▸ h.recorded place, place, hplace, rfl, rfl⟩

theorem annotates_remaining : Annotates known remaining :=
  fun _ hs => annotatesFrom_ok hs rfl trivial

theorem annotates_peek : Annotates known peek? :=
  fun _ hs => annotatesFrom_ok hs rfl trivial

/-- What is chosen by the kind of the next token may count on that kind. -/
theorem AnnotatesFrom.ofPeek {f : Option TokenKind → Parser α} {s : ParseState}
    (h : AnnotatesFrom known post s (f (s.rest.head?.map Token.kind))) : AnnotatesFrom known post s (peek? >>= f) :=
  h

theorem annotates_sees (kind : TokenKind) : Annotates known (sees kind) :=
  fun _ hs => annotatesFrom_ok hs rfl trivial

theorem annotated_advance (s : ParseState) : s.Annotated known s.advance := by
  refine .of_eq ?_
  unfold ParseState.advance
  split <;> rfl

theorem annotates_advance : Annotates known advance :=
  fun s hs => ⟨⟨hs.advance, annotated_advance s⟩, trivial⟩

/-- The word of a keyword that comes next is that of a token. -/
theorem AnnotatesFrom.ofAdvance {f : Word → Parser α} {s : ParseState} (hs : s.Known known) {kind : TokenKind}
    (hkind : s.rest.head?.map Token.kind = some kind) (hf : ∀ word, known word → Annotates known (f word)) :
    AnnotatesFrom known (fun _ => True) s (advance >>= fun line => f ⟨kind.lexeme, line⟩) := by
  have hadvance : AnnotatesFrom known (fun line => known ⟨kind.lexeme, line⟩) s advance :=
    ⟨⟨hs.advance, annotated_advance s⟩, hs.advance_word hkind⟩
  exact hadvance.bind fun line hword => hf _ hword

theorem annotates_accept (kind : TokenKind) : Annotates known (accept kind) :=
  (annotates_sees kind).bind fun _ =>
    (annotates_advance.bind fun _ => annotates_pure true).ite (annotates_pure false)

theorem annotates_symbol (symbol : Symbol) (position : String) : Annotates known (Parser.symbol symbol position) :=
  (annotates_sees _).bind fun _ =>
    annotates_advance.ite (annotates_stop (Complaint.noted_missing_symbol symbol position))

theorem annotates_in (position : String) : Annotates known (expect (.keyword .inKw) position) :=
  (annotates_sees _).bind fun _ => annotates_advance.ite (annotates_stop (Complaint.noted_missing_in position))

/-- A name is the word of its token. -/
theorem gives_name {role : String} (hrole : Unlisted ("Expected " ++ role)) : Gives known known (name role) := by
  intro s hs
  refine .ofPeek ?_
  split
  · next text hkind => exact ⟨⟨hs.advance, annotated_advance s⟩, hs.advance_word hkind⟩
  · exact ⟨⟨hs, .of_eq rfl⟩, Complaint.noted_missingName hrole, hs.here⟩

theorem annotates_name {role : String} (hrole : Unlisted ("Expected " ++ role)) : Annotates known (name role) := by
  have hname : Gives known known (name role) := gives_name hrole
  have hpure := hname.next fun word _ => annotates_pure word
  rwa [bind_pure] at hpure

/-! ## Lists -/

theorem annotates_separatedRest {item : Parser α} (hitem : Annotates known item) (fuel : List Token) :
    Annotates known (separatedRest item fuel) := by
  induction fuel with
  | nil => exact annotates_pure []
  | cons t fuel ih =>
      refine (annotates_accept _).bind fun _ => Annotates.ite ?_ (annotates_pure [])
      exact hitem.bind fun _ => ih.bind fun _ => annotates_pure _

theorem annotates_separated {item : Parser α} (hitem : Annotates known item) : Annotates known (separated item) :=
  hitem.bind fun _ => annotates_remaining.bind fun fuel =>
    (annotates_separatedRest hitem fuel).bind fun _ => annotates_pure _

theorem annotates_listBefore {item : Parser α} (close : Symbol) (hitem : Annotates known item) :
    Annotates known (listBefore close item) :=
  (annotates_sees _).bind fun _ => (annotates_pure []).ite (annotates_separated hitem)

theorem annotates_optionalAfter {part : Parser α} (kind : TokenKind) (hpart : Annotates known part) :
    Annotates known (optionalAfter kind part) :=
  (annotates_accept kind).bind fun _ => (hpart.map some).ite (annotates_pure none)

/-! ## Expressions -/

section

variable {nested operand : Parser Expr}

theorem annotates_argument (hnested : Annotates known nested) : Annotates known (argument nested) := by
  refine annotates_remaining.bind fun tokens => ?_
  split
  · exact annotates_advance.bind fun _ => annotates_advance.bind fun _ => hnested.bind fun _ => annotates_pure _
  · exact hnested.bind fun _ => annotates_pure _

theorem annotates_arguments (hnested : Annotates known nested) : Annotates known (arguments nested) :=
  (annotates_listBefore _ (annotates_argument hnested)).bind fun _ =>
    (annotates_symbol _ _).bind fun _ => annotates_pure _

theorem annotates_construction (hnested : Annotates known nested) (maker : Maker) :
    Annotates known (construction nested maker) :=
  annotates_advance.bind fun _ => (annotates_symbol _ _).bind fun _ =>
    (annotates_arguments hnested).bind fun _ => annotates_pure _

theorem annotates_primary (hnested : Annotates known nested) : Annotates known (primary nested) := by
  have htoken (e : Expr) : Annotates known (do let _ ← advance; return e) :=
    annotates_advance.bind fun _ => annotates_pure e
  refine annotates_peek.bind fun kind => ?_
  split
  · exact htoken _
  · exact htoken _
  · exact htoken _
  · exact htoken _
  · exact htoken _
  · exact annotates_advance.bind fun _ => annotates_pure _
  · exact annotates_construction hnested .safariZone
  · exact annotates_construction hnested .team
  · -- a group
    exact annotates_advance.bind fun _ => hnested.bind fun _ =>
      (annotates_symbol _ _).bind fun _ => annotates_pure _
  · -- an array
    exact annotates_advance.bind fun _ => (annotates_listBefore _ hnested).bind fun _ =>
      (annotates_symbol _ _).bind fun _ => annotates_pure _
  · exact annotates_stop Complaint.noted_missingExpression

theorem annotates_propertySuffix (object : Expr) : Annotates known (propertySuffix object) :=
  (gives_name (by decide)).next fun word hword => (annotates_sees _).bind fun _ =>
    (annotates_stopAt (Complaint.noted_calledProperty word.text) hword).ite (annotates_pure _)

theorem annotates_methodSuffix (hnested : Annotates known nested) (object : Expr) :
    Annotates known (methodSuffix nested object) :=
  (gives_name (by decide)).next fun word hword => (annotates_accept _).bind fun _ =>
    ((annotates_arguments hnested).bind fun _ => annotates_pure _).ite
      (annotates_stopAt (Complaint.noted_uncalledMethod word.text) hword)

theorem annotates_indexSuffix (hnested : Annotates known nested) (array : Expr) :
    Annotates known (indexSuffix nested array) :=
  hnested.bind fun _ => (annotates_symbol _ _).bind fun _ => annotates_pure _

theorem annotates_suffixes (hnested : Annotates known nested) (fuel : List Token) (e : Expr) :
    Annotates known (suffixes nested fuel e) := by
  induction fuel generalizing e with
  | nil => exact annotates_pure e
  | cons t fuel ih =>
      refine (annotates_accept _).bind fun _ => Annotates.ite ?_ ?_
      · exact (annotates_arguments hnested).bind fun _ => ih _
      refine (annotates_accept _).bind fun _ => Annotates.ite ?_ ?_
      · exact (annotates_propertySuffix e).bind fun _ => ih _
      refine (annotates_accept _).bind fun _ => Annotates.ite ?_ ?_
      · exact (annotates_methodSuffix hnested e).bind fun _ => ih _
      refine (annotates_accept _).bind fun _ => Annotates.ite ?_ (annotates_pure e)
      exact (annotates_indexSuffix hnested e).bind fun _ => ih _

theorem annotates_suffixed (hnested : Annotates known nested) : Annotates known (suffixed nested) :=
  (annotates_primary hnested).bind fun e => annotates_remaining.bind fun fuel =>
    annotates_suffixes hnested fuel e

theorem annotates_unary (hoperand : Annotates known operand) (depth : Nat) : Annotates known (unary operand depth) := by
  induction depth with
  | zero => exact annotates_tooDeep
  | succ depth ih =>
      refine annotates_peek.bind fun kind => ?_
      split
      · exact annotates_advance.bind fun _ => ih.bind fun _ => annotates_pure _
      · exact hoperand

theorem annotates_chainRest (hoperand : Annotates known operand) (rank : Nat) (fuel : List Token) (left : Expr) :
    Annotates known (chainRest operand rank fuel left) := by
  induction fuel generalizing left with
  | nil => exact annotates_pure left
  | cons t fuel ih =>
      refine annotates_peek.bind fun kind => ?_
      split
      · refine Annotates.ite ?_ (annotates_pure left)
        exact annotates_advance.bind fun _ => hoperand.bind fun _ => ih _
      · exact annotates_pure left

theorem annotates_tier (hoperand : Annotates known operand) (bound : Nat) : Annotates known (tier operand bound) := by
  induction bound with
  | zero => exact hoperand
  | succ rank ih =>
      exact ih.bind fun left => annotates_remaining.bind fun fuel => annotates_chainRest ih rank fuel left

theorem annotates_assignTo (target value : Expr) {place : Word} (hplace : known place) :
    Annotates known (assignTo target place value) := by
  unfold assignTo
  split
  · exact annotates_pure _
  · exact annotates_pure _
  · exact annotates_pure _
  · exact (annotates_complain Complaint.noted_invalidTarget rfl hplace).bind fun _ => annotates_pure target

theorem annotates_assignment (hoperand : Annotates known operand) (depth : Nat) :
    Annotates known (assignment operand depth) := by
  induction depth with
  | zero => exact annotates_tooDeep
  | succ depth ih =>
      refine hoperand.bind fun left => gives_get.next fun s hhere => (annotates_accept _).bind fun _ => ?_
      exact Annotates.ite (ih.bind fun value => annotates_assignTo left value hhere) (annotates_pure left)

end

theorem annotates_expression (depth : Nat) : Annotates known (expression depth) := by
  induction depth with
  | zero => exact annotates_tooDeep
  | succ depth ih => exact annotates_assignment (annotates_tier (annotates_unary (annotates_suffixed ih) _) ranks) _

/-! ## Recovery -/

/-- Recovery turns a complaint into a record with its notes, and nothing is recorded between the two. -/
theorem annotates_recover {item : Parser α} (inBlock : Bool) (hitem : Annotates known item) :
    Annotates known (recover inBlock item) := by
  intro s hs
  have hresult := hitem s hs
  unfold AnnotatesFrom at hresult ⊢
  cases hitem : item s with
  | ok a s₁ =>
      rw [recover_of_ok inBlock hitem]
      simpa only [hitem] using hresult
  | error e s₁ =>
      simp only [hitem] at hresult
      cases e with
      | tooDeep =>
          rw [recover_of_tooDeep inBlock hitem]
          exact hresult
      | complaint complaint place =>
          rw [recover_of_complaint inBlock hitem]
          obtain ⟨⟨hknown, hannotated⟩, hnoted, hplace⟩ := hresult
          obtain ⟨s₂, hresume, hmoves, -⟩ :=
            exists_resume inBlock (s₁.rest.length < s.rest.length) complaint place s₁
          rw [← hresume] at hmoves
          exact ⟨⟨hknown.of_moves hmoves, hannotated.trans (.report hnoted hplace s₁)⟩, trivial⟩

theorem annotates_items {item : Parser (Option α)} (inBlock : Bool) (hitem : Annotates known item) (fuel : List Token) :
    Annotates known (items inBlock item fuel) := by
  induction fuel with
  | nil => exact annotates_pure []
  | cons t fuel ih =>
      refine annotates_peek.bind fun kind => ?_
      split
      · exact annotates_pure []
      · refine (annotates_pure []).ite ?_
        exact hitem.bind fun _ => ih.bind fun _ => annotates_pure _

/-! ## Statements -/

theorem annotates_block {item : Parser Stmt} (hitem : Annotates known item) : Annotates known (block item) :=
  annotates_remaining.bind fun fuel => (annotates_items true (annotates_recover true hitem) fuel).bind fun _ =>
    (annotates_symbol _ _).bind fun _ => annotates_pure _

theorem annotates_terminate (around : Surroundings) (position : String) :
    Annotates known (terminate around position) := by
  refine (annotates_accept _).bind fun _ => (annotates_pure ()).ite ?_
  refine annotates_get.bind fun s => (annotates_pure ()).ite ?_
  exact annotates_stop (Complaint.noted_missing_symbol .semicolon position)

/-- A keyword out of its place is recorded behind the statement, and calls for no notes. -/
theorem annotates_lone (around : Surroundings) {word : Word} (hword : known word) (allowed : Bool)
    {complaint : Complaint} (h : complaint.Noted) (hnone : complaint.hints = []) (stmt : Stmt) :
    Annotates known (lone around word allowed complaint stmt) :=
  (annotates_terminate around _).bind fun _ =>
    ((annotates_complain h hnone hword).bind fun _ => annotates_pure stmt).ite (annotates_pure stmt)

theorem annotates_signature : Annotates known signature :=
  (annotates_name (by decide)).bind fun _ => (annotates_symbol _ _).bind fun _ =>
    (annotates_listBefore _ (annotates_name (by decide))).bind fun _ => (annotates_symbol _ _).bind fun _ =>
      (annotates_symbol _ _).bind fun _ => annotates_pure _

theorem annotates_exploration : Annotates known exploration :=
  (annotates_symbol _ _).bind fun _ => (annotates_name (by decide)).bind fun _ =>
    (annotates_symbol _ _).bind fun _ => (annotates_symbol _ _).bind fun _ => annotates_pure _

section

variable {nested : Parser Expr} {body : Parser (List Stmt)}

theorem annotates_condition (hnested : Annotates known nested) (keyword : String) :
    Annotates known (condition nested keyword) :=
  (annotates_symbol _ _).bind fun _ => hnested.bind fun _ => (annotates_symbol _ _).bind fun _ => annotates_pure _

theorem annotates_elseBranch {chain : Parser (Expr × List Stmt × Otherwise)} (hchain : Annotates known chain)
    (hbody : Annotates known body) : Annotates known (elseBranch chain body) := by
  refine (annotates_accept _).bind fun _ => Annotates.ite ?_ (annotates_pure _)
  refine (annotates_accept _).bind fun _ => Annotates.ite ?_ ?_
  · exact hchain.bind fun _ => annotates_pure _
  · exact (annotates_symbol _ _).bind fun _ => hbody.bind fun _ => annotates_pure _

theorem annotates_conditional (hnested : Annotates known nested) (hbody : Annotates known body) (depth : Nat) :
    Annotates known (conditional nested body depth) := by
  induction depth with
  | zero => exact annotates_tooDeep
  | succ depth ih =>
      exact (annotates_condition hnested _).bind fun _ => (annotates_symbol _ _).bind fun _ =>
        hbody.bind fun _ => (annotates_elseBranch ih hbody).bind fun _ => annotates_pure _

theorem annotates_varDeclaration (around : Surroundings) (hnested : Annotates known nested) :
    Annotates known (varDeclaration around nested) :=
  (annotates_name (by decide)).bind fun _ => (annotates_optionalAfter _ hnested).bind fun _ =>
    (annotates_terminate around _).bind fun _ => annotates_pure _

theorem annotates_printing (around : Surroundings) (hnested : Annotates known nested) :
    Annotates known (printing around nested) :=
  (annotates_symbol _ _).bind fun _ => hnested.bind fun _ => (annotates_symbol _ _).bind fun _ =>
    (annotates_terminate around _).bind fun _ => annotates_pure _

theorem annotates_throwing (around : Surroundings) (hnested : Annotates known nested) (line : Int) :
    Annotates known (throwing around nested line) :=
  (annotates_symbol _ _).bind fun _ => hnested.bind fun _ => (annotates_symbol _ _).bind fun _ =>
    (annotates_terminate around _).bind fun _ => annotates_pure _

theorem annotates_returning (around : Surroundings) (hnested : Annotates known nested) (line : Int) :
    Annotates known (returning around nested line) := by
  have hvalue : Annotates known (returnValue nested) :=
    (annotates_sees _).bind fun _ => (annotates_pure none).ite (hnested.map some)
  exact hvalue.bind fun _ => (annotates_terminate around _).bind fun _ => annotates_pure _

theorem annotates_iteration (hnested : Annotates known nested) : Annotates known (iteration nested) :=
  (annotates_name (by decide)).bind fun _ => (annotates_in _).bind fun _ => hnested.bind fun _ =>
    (annotates_optionalAfter _ hnested).bind fun _ => (annotates_symbol _ _).bind fun _ => annotates_pure _

theorem annotates_expressionStatement (around : Surroundings) (hnested : Annotates known nested) :
    Annotates known (expressionStatement around nested) :=
  hnested.bind fun _ => (annotates_terminate around _).bind fun _ => annotates_pure _

/-- Every statement that starts with a keyword or a brace, if that comes next and blocks and expressions answer for
their records. -/
theorem annotatesFrom_keyworded {around : Surroundings} {bound : Nat} {body : Surroundings → Parser (List Stmt)}
    (hnested : Annotates known nested) (hbody : ∀ inner, Annotates known (body inner)) {kind : TokenKind}
    {rule : Parser Stmt} (hrule : keyworded around bound nested body kind = some rule) {s : ParseState}
    (hs : s.Known known) (hkind : s.rest.head?.map Token.kind = some kind) :
    AnnotatesFrom known (fun _ => True) s rule := by
  cases kind with
  | keyword keyword =>
      cases keyword
      case elseKw | inKw | toKw | safariZoneKw | teamKw | trueKw | falseKw | nullKw => cases hrule
      all_goals rw [← Option.some.inj hrule]
      -- the rules that record a keyword out of its place need its word
      case breakKw | continueKw =>
        exact .ofAdvance hs hkind fun word hword =>
          annotates_lone around hword _ (Complaint.noted_outsideLoop _) rfl _
      case runKw =>
        exact .ofAdvance hs hkind fun word hword => annotates_lone around hword _ Complaint.noted_outsideControl rfl _
      all_goals refine Gives.next annotates_advance (fun line _ => ?_) s hs
      case varKw => exact annotates_varDeclaration around hnested
      case defineKw => exact annotates_signature.bind fun _ => (hbody _).bind fun _ => annotates_pure _
      case printKw => exact annotates_printing around hnested
      case ifKw => exact (annotates_conditional hnested (hbody _) bound).bind fun _ => annotates_pure _
      case whileKw =>
        exact (annotates_condition hnested _).bind fun _ => (annotates_symbol _ _).bind fun _ =>
          (hbody _).bind fun _ => annotates_pure _
      case forKw => exact (annotates_iteration hnested).bind fun _ => (hbody _).bind fun _ => annotates_pure _
      case returnKw => exact annotates_returning around hnested line
      case exploreKw => exact annotates_exploration.bind fun _ => (hbody _).bind fun _ => annotates_pure _
      case throwBallKw => exact annotates_throwing around hnested line
  | symbol symbol =>
      cases symbol
      case leftBrace =>
        rw [← Option.some.inj hrule]
        exact (annotates_advance.bind fun _ => (hbody _).bind fun _ => annotates_pure _) s hs
      all_goals cases hrule
  | _ => cases hrule

end

theorem annotates_statement (depth : Nat) (around : Surroundings) : Annotates known (statement depth around) := by
  induction depth generalizing around with
  | zero => exact annotates_tooDeep
  | succ depth ih =>
      intro s hs
      refine .ofPeek ?_
      split
      · next rule hrule =>
        obtain ⟨kind, hkind, hkeyworded⟩ := Option.bind_eq_some_iff.1 hrule
        exact annotatesFrom_keyworded (annotates_expression _) (fun inner => annotates_block (ih inner)) hkeyworded
          hs hkind
      · exact annotates_expressionStatement around (annotates_expression _) s hs

theorem annotates_script (limit : Nat) (interactive : Bool) (fuel : List Token) :
    Annotates known (script limit interactive fuel) :=
  annotates_items false (annotates_recover false (annotates_statement limit { interactive })) fuel

end Parser

/-- Where the parser can find something wrong: at a token, or at the end. -/
def TokenPlace (tokens : List Token) (endLine : Int) (word : Word) : Prop :=
  word ∈ tokens.map Token.word ∨ word = ⟨"", endLine⟩

theorem ParseState.known_tokenPlace (tokens : List Token) (endLine line : Int) (problems : Diagnostics) :
    ParseState.Known (TokenPlace tokens endLine) ⟨tokens, endLine, line, problems⟩ :=
  ⟨fun _ ht => .inl (List.mem_map_of_mem ht), .inr rfl⟩

/-- Every problem that the parser adds is a parse problem with the spelling and the line of a token, or it is found at
the end. -/
theorem exists_problems_at {limit : Nat} {interactive : Bool} {tokens : List Token} {endLine : Int}
    {problems : Diagnostics} {parsed : Parsed}
    (h : parseWithin? limit interactive tokens endLine problems = some parsed) :
    ∃ added, parsed.problems = problems ++ added ∧
      ∀ d ∈ added, d.category = .parse ∧ d.StandsAt (TokenPlace tokens endLine) := by
  obtain ⟨s, hscript, hproblems⟩ := exists_script_of_parseWithin h
  have hknown := ParseState.known_tokenPlace tokens endLine endLine problems
  obtain ⟨added, hadded, hgood⟩ := (Parser.annotates_script limit interactive tokens).of_ok hknown hscript
  exact ⟨added, hproblems ▸ hadded, fun d hd => ⟨(hgood d hd).1.category, (hgood d hd).2⟩⟩

/-- Parsing gives an answer, the same one under every bound on the nesting that is not exceeded. All records from
before are unchanged in it, and every record that was added has the notes that its own message calls for, in the
order of the table, whatever other records there are at its place. If a bound is exceeded, the same holds of the
records up to there. -/
theorem parse_notes_belong (interactive : Bool) (tokens : List Token) (endLine : Int) (problems : Diagnostics) :
    (∃ (program : Program) (added : Diagnostics), (∀ d ∈ added, d.Noted) ∧ ∀ limit : Nat,
      parseWithin? limit interactive tokens endLine problems = some ⟨program, problems ++ added⟩ ∨
        limit ≤ 4 * tokens.length + 4 ∧ parseWithin? limit interactive tokens endLine problems = none) ∧
    ∀ (limit : Nat) (e : ParseStop) (s : ParseState),
      Parser.script limit interactive tokens ⟨tokens, endLine, endLine, problems⟩ = .error e s →
        ∃ added, s.problems = problems ++ added ∧ ∀ d ∈ added, d.Noted := by
  constructor
  · obtain ⟨parsed, hparsed⟩ := exists_answer interactive tokens endLine problems
    -- the records are those under a bound that is large enough
    obtain ⟨last, hlarge⟩ := ((hparsed (4 * tokens.length + 5)).resolve_right fun h => by omega) endLine
    have hknown := ParseState.known_tokenPlace tokens endLine endLine problems
    obtain ⟨added, hadded, hnoted⟩ := (Parser.annotates_script _ interactive tokens).of_ok hknown hlarge
    have hproblems : parsed.problems = problems ++ added := hadded
    refine ⟨parsed.program, added, fun d hd => (hnoted d hd).1, fun limit => ?_⟩
    rw [← hproblems]
    rcases hparsed limit with hok | ⟨hlimit, hdeep⟩
    · obtain ⟨last, hline⟩ := hok endLine
      exact Or.inl (parseWithin_of_script_ok hline)
    · obtain ⟨s, hline⟩ := hdeep endLine
      exact Or.inr ⟨hlimit, parseWithin_of_script_error hline⟩
  · intro limit e s herror
    have hknown := ParseState.known_tokenPlace tokens endLine endLine problems
    obtain ⟨added, hadded, hnoted⟩ := (Parser.annotates_script limit interactive tokens).of_error hknown herror
    exact ⟨added, hadded, fun d hd => (hnoted d hd).1⟩

/-- A misplaced keyword, a semicolon that is missing at a keyword with the same spelling, and that one misplaced: of
the three records at one place, only the second one has a note. -/
example :
    let stray : Token := .keyword .breakKw 1
    (parse? false [stray, .symbol .semicolon 1, stray, stray, .symbol .semicolon 1] 1 []).map
        (fun parsed => parsed.problems.map fun d => (d.lexeme, d.line, d.hints.length)) =
      some [(some "break", 1, 0), (some "break", 1, 1), (some "break", 1, 0)] := by
  decide +kernel

end SafariScript
