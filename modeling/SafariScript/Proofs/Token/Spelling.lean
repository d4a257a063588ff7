import SafariScript.Proofs.Token.Numbers
import SafariScript.Proofs.Written

/-!
# Texts spelled as strings

Every text can be spelled as a string: backslashes and quotation marks are escaped, and a line feed or a tab may be
escaped or left as it is, at each place by choice. Whatever follows it, a character that is spelled in this way is
resolved to the character again (`unescape_spellChar`), and it neither ends the string nor leaves it at a backslash
that would take the next character along (`quotable_spellChar`). By induction on the text the spelling is the body of
one string, which stands for the text (`spellings_scanned`).
-/

namespace SafariScript

open Segment

/-- The characters that a character of a text is spelled with; `raw` leaves a line feed or a tab as it is. -/
def spellChar (raw : Bool) (c : Char) : List Char :=
  if raw && (c == '\n' || c == '\t') then [c] else escapeChar c

/-- The characters that a text is spelled with between quotation marks; `raw` says for every place whether a line feed
or a tab is left as it is there. -/
def spell (raw : Nat → Bool) : List Char → List Char
  | [] => []
  | c :: cs => spellChar (raw 0) c ++ spell (fun i => raw (i + 1)) cs

/-- The source that spells a text as a string. -/
def enquote (raw : Nat → Bool) (s : String) : List Char :=
  '"' :: (spell raw s.toList ++ ['"'])

/-! ## One character -/

/-- A character that is spelled raw is a blank, which is no escape. -/
theorem spellChar_cases (raw : Bool) (c : Char) :
    spellChar raw c = escapeChar c ∨ spellChar raw c = [c] ∧ c ≠ '\\' ∧ c ≠ '"' := by
  unfold spellChar
  split
  · next h =>
    right
    simp only [Bool.and_eq_true, Bool.or_eq_true, beq_iff_eq] at h
    obtain ⟨-, rfl | rfl⟩ := h
    · exact ⟨rfl, by decide, by decide⟩
    · exact ⟨rfl, by decide, by decide⟩
  · exact .inl rfl

theorem unescape_spellChar (raw : Bool) (c : Char) (rest : List Char) :
    unescape (spellChar raw c ++ rest) = c :: unescape rest := by
  rcases spellChar_cases raw c with h | ⟨h, hc, -⟩
  · rw [h, unescape_escapeChar]
  · rw [h]
    exact unescape_plain hc rest

theorem quotable_escapeChar (c : Char) {rest : List Char} (hrest : Quotable rest) : Quotable (escapeChar c ++ rest) := by
  unfold escapeChar
  split
  · exact .escape hrest
  · exact .escape hrest
  · exact .escape hrest
  · exact .escape hrest
  · next hbackslash hquote _ _ => exact .plain hquote hbackslash hrest

theorem quotable_spellChar (raw : Bool) (c : Char) {rest : List Char} (hrest : Quotable rest) :
    Quotable (spellChar raw c ++ rest) := by
  rcases spellChar_cases raw c with h | ⟨h, hbackslash, hquote⟩
  · rw [h]
    exact quotable_escapeChar c hrest
  · rw [h]
    exact .plain hquote hbackslash hrest

/-! ## Texts -/

theorem unescape_spell (raw : Nat → Bool) (text : List Char) : unescape (spell raw text) = text := by
  induction text generalizing raw with
  | nil => rfl
  | cons c cs ih => rw [spell, unescape_spellChar, ih]

theorem quotable_spell (raw : Nat → Bool) (text : List Char) : Quotable (spell raw text) := by
  induction text generalizing raw with
  | nil => exact .nil
  | cons c cs ih => exact quotable_spellChar (raw 0) c (ih fun i => raw (i + 1))

/-- The body of a string between quotation marks is one segment. -/
theorem segmented_string {body : List Char} (h : Quotable body) : Segmented [.string body] ('"' :: (body ++ ['"'])) := by
  have hstands : Segmented [.string body] ((Segment.string body).text ++ []) := .cons (.string h) .nil
  rwa [List.append_nil] at hstands

/-- Every text, with every backslash and every quotation mark escaped and every line feed and every tab either escaped
or left as it is, is scanned between quotation marks without problems to one token, a string that stands for the text
and has all the characters in its lexeme, and to the end of the source behind it. -/
theorem spellings_scanned (line : Int) (s : String) (raw : Nat → Bool) :
    ∃ scan, Scan.ofSource line (enquote raw s) = .ok scan ∧ scan.problems = [] ∧
      scan.tokens = [⟨.text (String.ofList (spell raw s.toList)), line⟩] ∧
      scan.rows = [⟨"STRING", String.ofList (enquote raw s), some (.text s), line⟩,
        ⟨"EOF", "", none, line + ((enquote raw s).count '\n' : Nat)⟩] := by
  let token : Token := ⟨.text (String.ofList (spell raw s.toList)), line⟩
  have hsegmented : Segmented [.string (spell raw s.toList)] (enquote raw s) :=
    segmented_string (quotable_spell raw s.toList)
  have hscan : Scan.ofSource line (enquote raw s) = .ok _ := Scan.ofSource_eq_ok_of_segmented hsegmented rfl
  have hlexeme : token.lexeme = String.ofList (enquote raw s) := by
    apply String.toList_injective
    simp [token, enquote, Token.lexeme, TokenKind.lexeme]
  have hliteral : token.kind.literal? = some (.text s) := by
    simp [token, TokenKind.literal?, unescape_spell]
  have hlisting := (lexed_split line (enquote raw s)).listing
  rw [← hsegmented.eq_split] at hlisting
  refine ⟨_, hscan, rfl, rfl, ?_⟩
  rw [hlisting]
  show [(⟨"STRING", token.lexeme, token.kind.literal?, line⟩ : Scan.Row), _] = _
  rw [hlexeme, hliteral]

/-- The first of two line feeds is left as it is. -/
example : spell (fun i => i == 1) "\\\n\n\"".toList = "\\\\\n\\n\\\"".toList := by decide

end SafariScript
