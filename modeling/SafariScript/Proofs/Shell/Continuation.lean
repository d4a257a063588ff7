import SafariScript.Proofs.Parser.Interactive
import SafariScript.Proofs.Shell.Buffering
import SafariScript.Proofs.Token.Lexicon

/-!
# Braces that the shell counts

To see whether a block is still open, the shell counts the braces among the characters of the lines kept, and the
parser goes by the brace tokens. The two readings of a text are compared segment by segment: a brace outside
comments and strings is a symbol of its own and so a token, and a segment of any other kind has no brace in it
(`Segment.Stands.charBalance_text`). What is left is the braces inside comments and strings, which only the shell
counts, and nothing else makes a difference (`depth_eq_braceLevel`).
-/

namespace SafariScript

/-- How many more braces some characters open than they close. -/
def charBalance (cs : List Char) : Int :=
  (cs.count '{' : Int) - (cs.count '}' : Int)

@[simp] theorem charBalance_nil : charBalance [] = 0 := rfl

@[simp] theorem charBalance_append (cs ds : List Char) :
    charBalance (cs ++ ds) = charBalance cs + charBalance ds := by
  simp only [charBalance, List.count_append]
  omega

theorem charBalance_eq_zero {cs : List Char} (hopen : '{' ∉ cs) (hclose : '}' ∉ cs) : charBalance cs = 0 := by
  rw [charBalance, List.count_eq_zero_of_not_mem hopen, List.count_eq_zero_of_not_mem hclose]
  rfl

/-- The characters of a run have no brace among them, if its class has none. -/
theorem charBalance_of_run {p : Char → Bool} {cs : List Char} (hcs : ∀ c ∈ cs, p c = true)
    (hopen : p '{' = false) (hclose : p '}' = false) : charBalance cs = 0 := by
  refine charBalance_eq_zero (fun hmem => ?_) (fun hmem => ?_)
  · rw [hcs _ hmem] at hopen
    cases hopen
  · rw [hcs _ hmem] at hclose
    cases hclose

/-! ## Lines -/

theorem braceBalance_cons (line : String) (lines : List String) :
    braceBalance (line :: lines) = charBalance line.toList + braceBalance lines := by
  show charBalance ((line :: lines).flatMap String.toList) = charBalance line.toList + charBalance _
  rw [List.flatMap_cons, charBalance_append]

/-- The depth behind some lines. -/
theorem foldl_braceDepth (depth : Int) (lines : List String) :
    lines.foldl braceDepth depth = depth + braceBalance lines := by
  induction lines generalizing depth with
  | nil => simp [braceBalance]
  | cons line lines ih =>
      have hline : braceBalance [line] = charBalance line.toList := by simp [braceBalance, charBalance]
      rw [List.foldl_cons, ih, braceDepth_eq, hline, braceBalance_cons]
      omega

/-- The line feeds between the lines make no difference. -/
theorem charBalance_intercalate (lines : List String) :
    charBalance ("\n".intercalate lines).toList = braceBalance lines := by
  rw [String.toList_intercalate]
  induction lines with
  | nil => rfl
  | cons first lines ih =>
      cases lines with
      | nil => simp [List.intercalate, braceBalance, charBalance]
      | cons second lines =>
          have hfeed : charBalance "\n".toList = 0 := rfl
          rw [List.map_cons, List.map_cons, List.intercalate_cons_cons, ← List.map_cons, charBalance_append,
            charBalance_append, ih, hfeed, braceBalance_cons first]
          omega

/-! ## Segments -/

namespace Segment

/-- A comment or a string: what stands in it is not read as tokens. -/
def encloses : Segment → Bool
  | .lineComment _ | .blockComment _ | .openComment _ | .string _ | .openString _ => true
  | _ => false

/-- How many more braces are open behind the token that a segment is, if it is one. -/
def tokenStep (line : Int) (s : Segment) : Int :=
  braceLevel (s.token? line).toList

/-- Only a symbol is the token of a brace. -/
theorem tokenStep_eq_zero (s : Segment) (h : ∀ symbol, s ≠ .symbol symbol) (line : Int) : s.tokenStep line = 0 := by
  rw [tokenStep, token?]
  cases hkind : s.tokenKind? with
  | none => rfl
  | some kind =>
      cases (denotes_of_tokenKind hkind).1 with
      | symbol symbol => exact absurd rfl (h symbol)
      | text | number | keyword | ident => rfl

/-- Outside comments and strings the braces among the characters are the brace tokens. -/
theorem Stands.charBalance_text {s : Segment} {rest : List Char} (h : Stands s rest) (hs : s.encloses = false)
    (line : Int) : charBalance s.text = s.tokenStep line := by
  cases h with
  | lineComment | blockComment | openComment | string | openString => cases hs
  | @pair symbol _ _ _ _ | @single symbol _ _ _ _ _ => cases symbol <;> rfl
  | @blank c _ hc =>
      have hnone : charBalance [c] = 0 := charBalance_of_run (List.forall_mem_singleton.2 hc) rfl rfl
      exact hnone.trans (tokenStep_eq_zero (.blank c) nofun line).symm
  | @digits ds _ _ hds =>
      have hnone : charBalance ds = 0 := charBalance_of_run hds rfl rfl
      exact hnone.trans (tokenStep_eq_zero (.digits ds) nofun line).symm
  | @word c cs _ hc hcs =>
      have hnone : charBalance (c :: cs) = 0 := charBalance_of_run (isWordChar_of_word hc hcs) rfl rfl
      exact hnone.trans (tokenStep_eq_zero (.word (c :: cs)) nofun line).symm
  | @stray c _ _ hsingle =>
      have hopen : '{' ∉ [c] := fun hmem => hsingle .leftBrace (by rw [← List.mem_singleton.1 hmem]; rfl)
      have hclose : '}' ∉ [c] := fun hmem => hsingle .rightBrace (by rw [← List.mem_singleton.1 hmem]; rfl)
      exact (charBalance_eq_zero hopen hclose).trans (tokenStep_eq_zero (.stray c) nofun line).symm

end Segment

/-- How many more braces the comments and strings among some segments open than they close. -/
def enclosedBalance (segments : List Segment) : Int :=
  charBalance ((segments.filter Segment.encloses).flatMap Segment.text)

theorem enclosedBalance_cons (s : Segment) (segments : List Segment) :
    enclosedBalance (s :: segments) = (if s.encloses then charBalance s.text else 0) + enclosedBalance segments := by
  cases hs : s.encloses <;> simp [enclosedBalance, hs]

/-- The braces of a text are its brace tokens and the braces in its comments and strings. -/
theorem Segment.Segmented.charBalance_eq {segments : List Segment} {cs : List Char} (h : Segmented segments cs)
    (line : Int) :
    charBalance cs = braceLevel (Scan.ofSegments line segments).tokens + enclosedBalance segments := by
  induction h generalizing line with
  | nil => rfl
  | @cons s segments rest hs _ ih =>
      have hrest := ih (s.advance line)
      have hsegment : charBalance s.text = s.tokenStep line + if s.encloses then charBalance s.text else 0 := by
        cases hencloses : s.encloses with
        | true =>
            have hnone : s.tokenStep line = 0 :=
              tokenStep_eq_zero s (fun _ h => by simp [h, encloses] at hencloses) line
            rw [hnone, if_pos rfl, Int.zero_add]
        | false => rw [hs.charBalance_text hencloses line, if_neg Bool.false_ne_true, Int.add_zero]
      rw [charBalance_append, hrest, Scan.tokens_ofSegments_cons, braceLevel_append, enclosedBalance_cons]
      unfold tokenStep at hsegment
      omega

/-- The depth that the shell counts over some lines is that of the brace tokens of the lines and of the braces in
their comments and strings. So the shell asks for more exactly while a block is open, provided that the comments
and strings close the braces that they open; and where they do not, the two differ by just those braces. -/
theorem depth_eq_braceLevel {lines : List String} {line : Int} {scan : Scan} {segments : List Segment}
    (hscan : Scan.ofSource line ("\n".intercalate lines).toList = .ok scan)
    (hsegments : Segment.Segmented segments ("\n".intercalate lines).toList) :
    lines.foldl braceDepth 0 = braceLevel scan.tokens + enclosedBalance segments ∧
      (lines.foldl braceDepth 0 = braceLevel scan.tokens ↔ enclosedBalance segments = 0) ∧
      (enclosedBalance segments = 0 → (0 < lines.foldl braceDepth 0 ↔ 0 < braceLevel scan.tokens)) := by
  obtain ⟨-, rfl⟩ := Scan.ofSource_eq_ok.1 hscan
  have hdepth : lines.foldl braceDepth 0 =
      braceLevel (Scan.ofSegments line (Segment.split ("\n".intercalate lines).toList)).tokens +
        enclosedBalance segments := by
    rw [foldl_braceDepth, Int.zero_add, ← charBalance_intercalate, ← hsegments.eq_split]
    exact hsegments.charBalance_eq line
  refine ⟨hdepth, ?_, fun hzero => ?_⟩
  · omega
  · rw [hdepth, hzero, Int.add_zero]

/-- A comment that closes a brace and a string that opens one: together they make no difference to the block that is
still open. -/
theorem depth_eq_braceLevel_offset :
    let lines := ["if (x) \x7b :> \x7d", "print(\"\x7b\");"]
    ∃ scan segments, Scan.ofSource 1 ("\n".intercalate lines).toList = .ok scan ∧ scan.problems = [] ∧
      Segment.Segmented segments ("\n".intercalate lines).toList ∧ enclosedBalance segments = 0 ∧
      braceLevel scan.tokens = 1 ∧ lines.foldl braceDepth 0 = braceLevel scan.tokens := by
  intro lines
  let source := ("\n".intercalate lines).toList
  have hscan : Scan.ofSource 1 source = .ok (.ofSegments 1 (Segment.split source)) :=
    Scan.ofSource_eq_ok.2 ⟨by decide +kernel, rfl⟩
  have hsegments := Segment.split_segmented source
  have hzero : enclosedBalance (Segment.split source) = 0 := by decide +kernel
  exact ⟨_, _, hscan, by decide +kernel, hsegments, hzero, by decide +kernel,
    (depth_eq_braceLevel hscan hsegments).2.1.2 hzero⟩

/-- A brace in a string makes the shell ask for more, though no block is open. -/
theorem depth_ne_braceLevel_string :
    let lines := ["print(\"\x7b\");"]
    (∀ line ∈ lines, '\n' ∉ line.toList) ∧
      ∃ scan, Scan.ofSource 1 ("\n".intercalate lines).toList = .ok scan ∧ scan.problems = [] ∧
        braceLevel scan.tokens = 0 ∧ lines.foldl braceDepth 0 = 1 := by
  refine ⟨by decide, _, Scan.ofSource_eq_ok.2 ⟨by decide +kernel, rfl⟩, ?_, ?_, ?_⟩
  all_goals decide +kernel

end SafariScript
