import SafariScript.Proofs.Token.Lexicon

/-!
# The lines of tokens and problems

The scanner carries a line along from segment to segment and moves it on where it passes a line feed: between tokens,
in a comment, in a string, there also behind a backslash (`Segment.advance`). It passes no other line feeds
(`Segment.counted_next`), and the segments of a text give it back, so the line at which a segment starts can be told
from the text alone: it is the first line and the line feeds in front of the segment, wherever they stand. So every
token has the line of its first character, and every problem the line of the first character of the text that is at
fault. Only a comment that is never closed is reported on the last line (`lines_counted`).
-/

namespace SafariScript

open Segment

/-- A comment that is never closed. -/
def Segment.isOpenComment : Segment → Bool
  | .openComment _ => true
  | _ => false

/-- What some segments give one by one, each with its line, is given by one segment after the other: the segment of an
item, those in front of it, which give the items before it, and those behind it. -/
theorem exists_segment_of_filterMap {β : Type} {give : Int × Segment → Option β} {line : Int} {segments : List Segment}
    {before behind : List β} {item : β} (h : (placed line segments).filterMap give = before ++ item :: behind) :
    ∃ front s rest, segments = front ++ s :: rest ∧ (placed line front).filterMap give = before ∧
      give (lineBehind line front, s) = some item := by
  induction segments generalizing line before with
  | nil => simp [placed] at h
  | cons s segments ih =>
      rw [placed, List.filterMap_cons] at h
      cases hgive : give (line, s) with
      | none =>
          rw [hgive] at h
          obtain ⟨front, s', rest, rfl, hfront, hitem⟩ := ih h
          refine ⟨s :: front, s', rest, rfl, ?_, hitem⟩
          rw [placed, List.filterMap_cons, hgive]
          exact hfront
      | some first =>
          rw [hgive] at h
          cases before with
          | nil =>
              obtain ⟨rfl, -⟩ := List.cons.inj h
              exact ⟨[], s, segments, rfl, rfl, hgive⟩
          | cons first' before =>
              obtain ⟨rfl, hrest⟩ := List.cons.inj h
              obtain ⟨front, s', rest, rfl, hfront, hitem⟩ := ih hrest
              refine ⟨s :: front, s', rest, rfl, ?_, hitem⟩
              rw [placed, List.filterMap_cons, hgive, hfront]

namespace Segment

theorem Segmented.text_eq {ss : List Segment} {cs : List Char} (h : Segmented ss cs) : ss.flatMap text = cs := by
  rw [h.eq_split, split_text]

/-- A segment stands in front of all that is behind it. -/
theorem Segmented.stands {front rest : List Segment} {s : Segment} {cs : List Char}
    (h : Segmented (front ++ s :: rest) cs) : Stands s (rest.flatMap text) := by
  induction front generalizing cs with
  | nil =>
      cases h with
      | cons hs hrest => rwa [hrest.text_eq]
  | cons first front ih =>
      cases h with
      | cons _ hrest => exact ih hrest

/-- Where a problem is reported: on the line where its segment starts, or on the last line of the text. -/
theorem Flaw.line_eq {line : Int} {s : Segment} {d : Diagnostic} {rest : List Char} (h : Flaw line s d)
    (hstands : Stands s rest) :
    d.line = line + (if s.isOpenComment then (s.text ++ rest).count '\n' else 0 : Nat) := by
  cases h with
  | stray | number | string => simp [isOpenComment]
  | comment body =>
      -- an open comment takes all the rest
      cases hstands with
      | openComment => simp [isOpenComment, text]

end Segment

/-- How the tokens and problems of a text from a line on are numbered. -/
structure Numbered (line : Int) (source : List Char) (segments : List Segment) (scan : Scan) : Prop where
  /-- A token is a segment, that of its lexeme, behind the segments of the tokens before it; its line is the first one
  and the line feeds in front of it. -/
  token : ∀ before t behind, scan.tokens = before ++ t :: behind → ∃ front s rest,
    segments = front ++ s :: rest ∧ (Scan.ofSegments line front).tokens = before ∧ s.Denotes t.kind ∧
    source = front.flatMap text ++ t.lexeme.toList ++ rest.flatMap text ∧
    t.line = line + ((front.flatMap text).count '\n' : Nat)
  /-- The listing ends on the last line of the text. -/
  ending : scan.rows.getLast? = some ⟨"EOF", "", none, line + (source.count '\n' : Nat)⟩
  /-- A problem is one with a segment, behind those of the problems before it; its line is the first one and the line
  feeds in front of the segment, or all line feeds of the text if the segment is a comment that is never closed. -/
  problem : ∀ before d behind, scan.problems = before ++ d :: behind → ∃ front s rest,
    segments = front ++ s :: rest ∧ (Scan.ofSegments line front).problems = before ∧
    s.Flaw (line + ((front.flatMap text).count '\n' : Nat)) d ∧
    source = front.flatMap text ++ s.text ++ rest.flatMap text ∧
    d.line = line + ((if s.isOpenComment then source else front.flatMap text).count '\n' : Nat)

theorem numbered_of_segmented (line : Int) {source : List Char} {segments : List Segment}
    (h : Segmented segments source) : Numbered line source segments (Scan.ofSegments line segments) := by
  constructor
  case token =>
    intro before t behind htokens
    obtain ⟨front, s, rest, rfl, hfront, htoken⟩ := exists_segment_of_filterMap htokens
    obtain ⟨kind, hkind, rfl⟩ := exists_kind_of_token htoken
    obtain ⟨hdenotes, hlexeme⟩ := denotes_of_tokenKind hkind
    refine ⟨front, s, rest, rfl, hfront, hdenotes, ?_, h.lineBehind_front⟩
    have htext := h.text_eq
    rw [List.flatMap_append, List.flatMap_cons, ← hlexeme, ← List.append_assoc] at htext
    exact htext.symm
  case ending =>
    have hend : (Scan.ofSegments line segments).endLine = line + (source.count '\n' : Nat) := by
      rw [h.eq_split]
      exact lineBehind_split line source
    rw [Scan.rows, List.getLast?_concat, hend]
  case problem =>
    intro before d behind hproblems
    obtain ⟨front, s, rest, rfl, hfront, hproblem⟩ := exists_segment_of_filterMap hproblems
    have hflaw : s.Flaw (lineBehind line front) d := flaw_of_problem hproblem
    have htext := h.text_eq
    rw [List.flatMap_append, List.flatMap_cons] at htext
    have hline := hflaw.line_eq h.stands
    rw [h.lineBehind_front] at hflaw hline
    refine ⟨front, s, rest, rfl, hfront, hflaw, by rw [← htext, List.append_assoc], ?_⟩
    rw [hline, ← htext]
    cases s.isOpenComment with
    | false => simp
    | true =>
        simp only [if_true, List.count_append]
        omega

/-- In a text without a run of more than 4300 digits the line of a token is that of its first character, the line of
its end is the last one, and the line of a problem is that of the first character at fault, or the last one for a
comment that is never closed. -/
theorem lines_counted (line : Int) (source : List Char)
    (hdigits : ∀ run, run <:+: source → (∀ c ∈ run, Segment.isDigit c = true) → run.length ≤ 4300) :
    ∃ segments scan, Segmented segments source ∧ Scan.ofSource line source = .ok scan ∧
      Numbered line source segments scan :=
  ⟨_, _, split_segmented source, Scan.ofSource_eq_ok.2 ⟨excess_eq_none hdigits, rfl⟩,
    numbered_of_segmented line (split_segmented source)⟩

/-- A string over three lines, one of them ended behind a backslash, a comment over two lines, and a comment that is
never closed: the number behind them starts on the sixth line, and the last comment is reported on the eighth. -/
theorem lines_counted_broken :
    let source := "\"a\\\nb\n\" /*\n*/ :> c\n\n7 /* d\n\n".toList
    (∀ run, run <:+: source → (∀ c ∈ run, Segment.isDigit c = true) → run.length ≤ 4300) ∧
      ∃ segments scan, Segmented segments source ∧ Scan.ofSource 1 source = .ok scan ∧
        Numbered 1 source segments scan ∧ scan.tokens.map Token.line = [1, 6] ∧
        scan.problems.map Diagnostic.line = [8] := by
  intro source
  have hdigits : ∀ run, run <:+: source → (∀ c ∈ run, Segment.isDigit c = true) → run.length ≤ 4300 :=
    fun run hrun _ => Nat.le_trans hrun.length_le (by decide)
  obtain ⟨segments, scan, hsegmented, hscan, hnumbered⟩ := lines_counted 1 source hdigits
  obtain ⟨-, rfl⟩ := Scan.ofSource_eq_ok.1 hscan
  exact ⟨hdigits, segments, _, hsegmented, hscan, hnumbered, by decide +kernel, by decide +kernel⟩

end SafariScript
