import SafariScript.Proofs.Parser.Context

/-!
# Recovery in context

What is skipped after a complaint is a list of tokens from the front, with at least one token in it if the
statement has not consumed any; and where it stops inside a part of the source, it stops there whatever stands
behind the part (`Recovery.exists_skip`). A report is one more record with all the notes of the complaint, since
the latest record at its place is always the one just made (`ParseState.report_problems`). So a parser that keeps
the contract of `Proceeds` still keeps it under recovery, and then always moves on. The same holds for the loop
over the statements of a block or of a script, which ends at the closing brace or with the tokens, and never for
want of fuel.
-/

namespace SafariScript

open Grammar

/-! ## Reports -/

namespace Diagnostics

/-- A note for the place of the latest record goes to that record. -/
theorem attachHint_concat (ds : Diagnostics) {d : Diagnostic} {place : Word} (hd : d.isAt place = true)
    (hint : String) : attachHint (ds ++ [d]) place hint = ds ++ [d.addHint hint] := by
  simp [attachHint, hintFirst, hd]

theorem attachHints_concat (ds : Diagnostics) {d : Diagnostic} {place : Word} (hd : d.isAt place = true)
    (hints : List String) :
    hints.foldl (fun ds hint => attachHint ds place hint) (ds ++ [d]) =
      ds ++ [{ d with hints := d.hints ++ hints }] := by
  induction hints generalizing d with
  | nil => simp
  | cons hint hints ih =>
      have hadded : (d.addHint hint).isAt place = true := hd
      rw [List.foldl_cons, attachHint_concat ds hd, ih hadded]
      simp [Diagnostic.addHint]

end Diagnostics

/-- The record of a complaint with all its notes. -/
def Complaint.recorded (complaint : Complaint) (place : Word) : Diagnostic :=
  { complaint.diagnostic place with hints := complaint.hints }

theorem ParseState.report_problems (s : ParseState) (complaint : Complaint) (place : Word) :
    (s.report complaint place).problems = s.problems ++ [complaint.recorded place] := by
  have hat : (complaint.diagnostic place).isAt place = true := by simp [Diagnostic.isAt, Complaint.diagnostic]
  exact Diagnostics.attachHints_concat s.problems hat complaint.hints

theorem Context.Embeds.report {c : Context} {s t : ParseState} (h : c.Embeds s t) (complaint : Complaint)
    (place : Word) :
    (t.report complaint place).problems = c.earlier ++ (s.report complaint place).problems := by
  rw [ParseState.report_problems, ParseState.report_problems, h.problems, List.append_assoc]

/-! ## Skipping -/

namespace Recovery

/-- What is skipped of a group does not depend on what follows the group, unless the group goes on there. -/
theorem exists_skipGroup (depth : Nat) (tokens : List Token) :
    ∃ ts rest, tokens = ts ++ rest ∧ ∀ last behind, rest ≠ [] ∨ behind = [] →
      skipGroup depth last (tokens ++ behind) = (rest ++ behind, linePast last ts) := by
  induction tokens generalizing depth with
  | nil =>
      refine ⟨[], [], rfl, fun last behind hbehind => ?_⟩
      obtain rfl : behind = [] := hbehind.resolve_left fun h => h rfl
      cases depth <;> rfl
  | cons t tokens ih =>
      cases depth with
      | zero => exact ⟨[], t :: tokens, rfl, fun last behind _ => rfl⟩
      | succ depth =>
          obtain ⟨next, hnext⟩ : ∃ next, ∀ last tokens,
              skipGroup (depth + 1) last (t :: tokens) = skipGroup next t.line tokens := by
            simp only [skipGroup]
            split
            · exact ⟨depth + 2, fun _ _ => rfl⟩
            · split
              · exact ⟨depth, fun _ _ => rfl⟩
              · exact ⟨depth + 1, fun _ _ => rfl⟩
          obtain ⟨ts, rest, rfl, hskip⟩ := ih next
          refine ⟨t :: ts, rest, rfl, fun last behind hbehind => ?_⟩
          rw [List.cons_append, hnext, hskip t.line behind hbehind, linePast_cons]

/-- What is skipped does not depend on what follows, unless all is skipped and something follows. Unless the
statement has consumed a token, one is skipped. -/
theorem exists_skip (inBlock progressed : Bool) (tokens : List Token) :
    ∃ ts rest, tokens = ts ++ rest ∧ (progressed = false → tokens ≠ [] → ts ≠ []) ∧
      ∀ last behind, rest ≠ [] ∨ behind = [] →
        skip inBlock progressed last (tokens ++ behind) = (rest ++ behind, linePast last ts) := by
  induction tokens generalizing progressed with
  | nil =>
      refine ⟨[], [], rfl, fun _ h => absurd rfl h, fun last behind hbehind => ?_⟩
      obtain rfl : behind = [] := hbehind.resolve_left fun h => h rfl
      rfl
  | cons t tokens ih =>
      by_cases hboundary : (progressed && isBoundary inBlock t.kind) = true
      · refine ⟨[], t :: tokens, rfl, fun hprogressed => ?_, fun last behind _ => ?_⟩
        · rw [hprogressed] at hboundary
          cases hboundary
        · simp only [List.cons_append, skip, if_pos hboundary, linePast_nil]
      · by_cases hsemicolon : t.kind = .symbol .semicolon
        · refine ⟨[t], tokens, rfl, fun _ _ => List.cons_ne_nil _ _, fun last behind _ => ?_⟩
          simp only [List.cons_append, skip, if_neg hboundary, if_pos hsemicolon]
          rfl
        · by_cases hopen : t.kind = .symbol .leftBrace
          · obtain ⟨ts, rest, rfl, hskip⟩ := exists_skipGroup 1 tokens
            refine ⟨t :: ts, rest, rfl, fun _ _ => List.cons_ne_nil _ _, fun last behind hbehind => ?_⟩
            simp only [List.cons_append, skip, if_neg hboundary, if_neg hsemicolon, if_pos hopen]
            exact hskip t.line behind hbehind
          · obtain ⟨ts, rest, rfl, -, hskip⟩ := ih true
            refine ⟨t :: ts, rest, rfl, fun _ _ => List.cons_ne_nil _ _, fun last behind hbehind => ?_⟩
            simp only [List.cons_append, skip, if_neg hboundary, if_neg hsemicolon, if_neg hopen]
            exact hskip t.line behind hbehind

end Recovery

namespace Parser

variable {α : Type} {c : Context} {room : Nat} {s : ParseState}

/-! ## Recovery -/

/-- The state behind a statement that was given up: the complaint is reported, and tokens are skipped. -/
def resume (inBlock progressed : Bool) (complaint : Complaint) (place : Word) (s : ParseState) : ParseState :=
  { s.report complaint place with
    rest := (Recovery.skip inBlock progressed s.lastLine s.rest).1
    lastLine := (Recovery.skip inBlock progressed s.lastLine s.rest).2 }

theorem recover_of_complaint {item : Parser α} (inBlock : Bool) {complaint : Complaint} {place : Word}
    {s' : ParseState} (h : item s = .error (.complaint complaint place) s') :
    recover inBlock item s =
      .ok none (resume inBlock (s'.rest.length < s.rest.length) complaint place s') := by
  unfold recover
  rw [h]
  rfl

theorem recover_of_ok {item : Parser α} (inBlock : Bool) {a : α} {s' : ParseState} (h : item s = .ok a s') :
    recover inBlock item s = .ok (some a) s' := by
  unfold recover
  rw [h]

theorem recover_of_tooDeep {item : Parser α} (inBlock : Bool) {s' : ParseState}
    (h : item s = .error .tooDeep s') : recover inBlock item s = .error .tooDeep s' := by
  unfold recover
  rw [h]

/-- A statement that comes out of recovery has been read. -/
theorem recover_eq_some {item : Parser α} {inBlock : Bool} {a : α} {s' : ParseState} :
    recover inBlock item s = .ok (some a) s' ↔ item s = .ok a s' := by
  refine ⟨fun h => ?_, recover_of_ok inBlock⟩
  cases hitem : item s with
  | ok b s₁ =>
      cases (recover_of_ok inBlock hitem).symm.trans h
      rfl
  | error e s₁ =>
      cases e with
      | tooDeep => cases (recover_of_tooDeep inBlock hitem).symm.trans h
      | complaint complaint place => cases (recover_of_complaint inBlock hitem).symm.trans h

/-- Resuming consumes tokens, does the same in context, and consumes at least one if none was consumed
before. -/
theorem exists_resume (inBlock progressed : Bool) (complaint : Complaint) (place : Word) (s : ParseState) :
    ∃ s', resume inBlock progressed complaint place s = s' ∧ s.Moves false s' ∧
      (progressed = false → s.rest ≠ [] → s'.rest.length < s.rest.length) ∧
      ∀ (c : Context) (t : ParseState), c.Embeds s t → c.Hidden s' →
        c.Embeds s' (resume inBlock progressed complaint place t) := by
  obtain ⟨ts, rest, hrest, hprogress, hskip⟩ := Recovery.exists_skip inBlock progressed s.rest
  have hpart := hskip s.lastLine [] (Or.inr rfl)
  rw [List.append_nil, List.append_nil] at hpart
  refine ⟨_, rfl, ⟨ts, ?_, ?_, rfl, nofun⟩, fun hprogressed hs => ?_, fun c t ht hhidden => ?_⟩
  · simp only [resume, hpart]
    exact hrest
  · simp only [resume, hpart]
  · have hpos : 0 < ts.length := List.length_pos_iff.2 (hprogress hprogressed hs)
    have hlength : s.rest.length = ts.length + rest.length := by rw [hrest, List.length_append]
    simp only [resume, hpart]
    omega
  · have hbehind : rest ≠ [] ∨ c.behind = [] := by
      simp only [Context.Hidden, resume, hpart] at hhidden
      exact hhidden.imp id And.left
    have hwhole := hskip t.lastLine c.behind hbehind
    rw [← ht.rest] at hwhole
    refine ⟨?_, ht.endLine, ?_, fun hlined => ?_⟩
    · simp only [resume, hwhole, hpart]
    · exact ht.report complaint place
    · simp only [resume, hwhole, hpart] at hlined ⊢
      -- the line is that of the last token skipped, or nothing changed
      cases ts with
      | nil =>
          rw [List.nil_append] at hrest
          exact ht.lastLine (hrest ▸ hlined)
      | cons u ts => rfl

/-- A statement that is given up on the part is given up on the whole, and the parser has moved there if it has
here. -/
theorem Proceeds.exists_recover {item item' : Parser α} {spares eats : Bool} {s₁ t : ParseState} (inBlock : Bool)
    (hitem : Proceeds c spares room eats s item item') {complaint : Complaint} {place : Word}
    (hstop : item s = .error (.complaint complaint place) s₁) (ht : c.Embeds s t) (hhidden : c.Hidden s₁) :
    ∃ t₁, c.Embeds s₁ t₁ ∧ recover inBlock item' t =
      .ok none (resume inBlock (s₁.rest.length < s.rest.length) complaint place t₁) := by
  obtain ⟨t₁, ht₁, hembeds⟩ := hitem.exists_complaint hstop ht hhidden
  have hsame : (t₁.rest.length < t.rest.length) = (s₁.rest.length < s.rest.length) := by
    rw [hembeds.rest, ht.rest, List.length_append, List.length_append, Nat.add_lt_add_iff_right]
  refine ⟨t₁, hembeds, ?_⟩
  rw [recover_of_complaint inBlock ht₁]
  simp only [hsame]

/-- A statement that is given up keeps the contract under recovery. -/
theorem proceeds_recover_of_complaint {item item' : Parser α} (inBlock : Bool)
    (hitem : Proceeds c false room true s item item') (hs : s.rest ≠ []) {complaint : Complaint} {place : Word}
    {s₁ : ParseState} (hstop : item s = .error (.complaint complaint place) s₁) :
    Proceeds c false room true s (recover inBlock item) (recover inBlock item') := by
  have hmoves := hitem.moves_of_error hstop
  obtain ⟨s₂, hresume, hmoves₂, hprogress, hcontext⟩ :=
    exists_resume inBlock (s₁.rest.length < s.rest.length) complaint place s₁
  have hrecover : recover inBlock item s = .ok none s₂ := by
    rw [recover_of_complaint inBlock hstop, hresume]
  have hafter : s.after (recover inBlock item) = s₂ := ParseState.after_of_ok hrecover
  refine ⟨by rw [hafter]; exact hmoves.trans hmoves₂, ?_, ?_, ?_⟩
  · intro _ b s' hok
    rw [hrecover] at hok
    cases hok
    have hlength := hmoves.length_le
    have hlength₂ := hmoves₂.length_le
    by_cases hprogressed : s₁.rest.length < s.rest.length
    · omega
    · have hs₁ : s₁.rest ≠ [] := by
        have hpos : 0 < s.rest.length := List.length_pos_iff.2 hs
        exact List.length_pos_iff.1 (by omega)
      have hskipped := hprogress (decide_eq_false hprogressed) hs₁
      omega
  · intro s' hdeep
    rw [hrecover] at hdeep
    cases hdeep
  · intro t ht hhidden
    rw [hafter] at hhidden
    obtain ⟨t₁, hembeds, ht₁⟩ := hitem.exists_recover inBlock hstop ht (hhidden.of_moves hmoves₂)
    rw [hrecover, ht₁]
    exact .ok none (hcontext c t₁ hembeds hhidden)

/-- A parser that keeps the contract keeps it under recovery, and then moves on whether it stops or not. -/
theorem proceeds_recover {item item' : Parser α} (inBlock : Bool) (hitem : Proceeds c false room true s item item')
    (hs : s.rest ≠ []) :
    Proceeds c false room true s (recover inBlock item) (recover inBlock item') := by
  cases hresult : item s with
  | ok a s₁ =>
      have hrecover : recover inBlock item s = .ok (some a) s₁ := recover_of_ok inBlock hresult
      have hafter : s.after (recover inBlock item) = s₁ := ParseState.after_of_ok hrecover
      refine ⟨by rw [hafter]; exact hitem.moves_of_ok hresult, ?_, ?_, ?_⟩
      · intro _ b s' hok
        rw [hrecover] at hok
        cases hok
        exact hitem.eats rfl a s₁ hresult
      · intro s' hdeep
        rw [hrecover] at hdeep
        cases hdeep
      · intro t ht hhidden
        rw [hafter] at hhidden
        obtain ⟨t₁, ht₁, hembeds⟩ := hitem.exists_ok hresult ht hhidden
        rw [hrecover, recover_of_ok inBlock ht₁]
        exact .ok (some a) hembeds
  | error e s₁ =>
      cases e with
      | complaint complaint place => exact proceeds_recover_of_complaint inBlock hitem hs hresult
      | tooDeep =>
          have hrecover : recover inBlock item s = .error .tooDeep s₁ := recover_of_tooDeep inBlock hresult
          refine ⟨?_, ?_, ?_, ?_⟩
          · rw [ParseState.after_of_error hrecover]
            exact hitem.moves_of_error hresult
          · intro _ b s' hok
            rw [hrecover] at hok
            cases hok
          · intro s' _
            exact hitem.ample s₁ hresult
          · intro t _ _
            rw [hrecover]
            exact .tooDeep s₁ _

/-! ## Lists of statements -/

theorem items_of_nil {item : Parser (Option α)} (inBlock : Bool) (hs : s.rest = []) (fuel : List Token) :
    items inBlock item fuel s = .ok [] s := by
  cases fuel with
  | nil => rfl
  | cons t fuel =>
      unfold items
      rw [bind_apply, peek_apply, hs]
      rfl

/-- The loop over statements ends before its fuel does, for each turn consumes a token. -/
theorem proceeds_items {item item' : Parser (Option α)} {size : Nat} (inBlock : Bool)
    (hitem : ∀ s, s.rest ≠ [] → s.rest.length ≤ size → Proceeds c false room true s item item')
    (fuel fuel' : List Token) (s : ParseState) (hfuel : s.rest.length ≤ fuel.length)
    (hfuel' : s.rest.length + c.behind.length ≤ fuel'.length) (hsize : s.rest.length ≤ size) :
    Proceeds c false room false s (items inBlock item fuel) (items inBlock item' fuel') := by
  induction fuel generalizing fuel' s with
  | nil =>
      have hs : s.rest = [] := List.length_eq_zero_iff.1 (Nat.le_zero.1 hfuel)
      refine (regular_pure [] s).of_view (items_of_nil inBlock hs _) fun t ht hhidden => ?_
      exact items_of_nil inBlock (ht.rest_eq_nil hhidden hs) _
  | cons u fuel ih =>
      by_cases hs : s.rest = []
      · refine (regular_pure [] s).of_view (items_of_nil inBlock hs _) fun t ht hhidden => ?_
        exact items_of_nil inBlock (ht.rest_eq_nil hhidden hs) _
      · have hpos : 0 < s.rest.length := List.length_pos_iff.2 hs
        cases fuel' with
        | nil =>
            rw [List.length_nil] at hfuel'
            omega
        | cons u' fuel' =>
            rw [List.length_cons] at hfuel hfuel'
            refine .ofPeek ?_
            split
            · exact regular_pure [] s
            · split
              · exact regular_pure [] s
              · have hfirst := hitem s hs hsize
                refine (hfirst.eat fun first s₁ hok => ?_).lazy
                have hlength := hfirst.eats rfl first s₁ hok
                have hrest := ih fuel' s₁ (by omega) (by omega) (by omega)
                exact (hrest.weaken (Nat.sub_le room 1)).bind fun others s₂ _ => regular_pure _ s₂

/-- The loop ends at the end of the tokens, or in a block at its closing brace. -/
theorem items_ends {item : Parser (Option α)} (inBlock : Bool)
    (hitem : ∀ s a s', s.rest ≠ [] → item s = .ok a s' → s'.rest.length < s.rest.length)
    (fuel : List Token) {s s' : ParseState} {as : List α} (hfuel : s.rest.length ≤ fuel.length)
    (h : items inBlock item fuel s = .ok as s') :
    s'.rest = [] ∨ inBlock = true ∧ s'.sees (.symbol .rightBrace) = true := by
  induction fuel generalizing s as with
  | nil =>
      cases h
      exact Or.inl (List.length_eq_zero_iff.1 (Nat.le_zero.1 hfuel))
  | cons u fuel ih =>
      rw [List.length_cons] at hfuel
      unfold items at h
      rw [bind_apply, peek_apply] at h
      cases hs : s.rest with
      | nil =>
          simp only [hs, List.head?_nil, Option.map_none] at h
          cases h
          exact Or.inl hs
      | cons first rest =>
          simp only [hs, List.head?_cons, Option.map_some] at h
          split at h
          · next hclose =>
            cases h
            obtain ⟨hblock, hkind⟩ := Bool.and_eq_true_iff.1 hclose
            exact Or.inr ⟨hblock, by simpa [ParseState.sees, hs] using hkind⟩
          · obtain ⟨a, s₁, hfirst, hnext⟩ := bind_eq_ok.1 h
            obtain ⟨others, s₂, hothers, hdone⟩ := bind_eq_ok.1 hnext
            cases hdone
            have hlength := hitem s a s₁ (by simp [hs]) hfirst
            exact ih (by omega) hothers

end Parser
end SafariScript
