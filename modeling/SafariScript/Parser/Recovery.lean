import SafariScript.Parser.Basic

/-!
# Recovery

After a complaint the tokens up to a likely statement boundary are discarded: just behind a semicolon or
a balanced group in braces, or just before a statement keyword or the brace that closes the block. At
least one token goes, so parsing always moves on.
-/

namespace SafariScript

/-- The keywords that only statements start with. -/
def Keyword.startsStatement : Keyword → Bool
  | .varKw | .ifKw | .whileKw | .forKw | .breakKw | .continueKw | .runKw | .defineKw | .returnKw
  | .printKw | .exploreKw | .throwBallKw => true
  | _ => false

namespace Recovery

/-- A token before which a statement that failed may end. -/
def isBoundary (inBlock : Bool) : TokenKind → Bool
  | .keyword keyword => keyword.startsStatement
  | .symbol .rightBrace => inBlock
  | _ => false

/-- Skip to behind the brace that closes `depth` open groups. Gives the tokens left and the line of the
last one skipped. -/
def skipGroup : Nat → Int → List Token → List Token × Int
  | 0, last, tokens => (tokens, last)
  | _ + 1, last, [] => ([], last)
  | depth + 1, _, t :: rest =>
    if t.kind = .symbol .leftBrace then skipGroup (depth + 2) t.line rest
    else if t.kind = .symbol .rightBrace then skipGroup depth t.line rest
    else skipGroup (depth + 1) t.line rest

/-- Skip to a statement boundary; `progressed` says whether a token of the statement is already gone. -/
def skip (inBlock : Bool) : Bool → Int → List Token → List Token × Int
  | _, last, [] => ([], last)
  | progressed, last, t :: rest =>
    if progressed && isBoundary inBlock t.kind then (t :: rest, last)
    else if t.kind = .symbol .semicolon then (rest, t.line)
    else if t.kind = .symbol .leftBrace then skipGroup 1 t.line rest
    else skip inBlock true t.line rest

end Recovery

namespace Parser

/-- Run a parser; a complaint is recorded, and parsing goes on behind the statement with no result. -/
def recover {α : Type} (inBlock : Bool) (item : Parser α) : Parser (Option α) := fun s =>
  match item s with
  | .ok a s' => .ok (some a) s'
  | .error .tooDeep s' => .error .tooDeep s'
  | .error (.complaint complaint place) s' =>
    let reported := s'.report complaint place
    let (rest, lastLine) :=
      Recovery.skip inBlock (s'.rest.length < s.rest.length) s'.lastLine s'.rest
    .ok none { reported with rest, lastLine }

/-- Items up to the end of the source, or up to a closing brace if inside a block. -/
def items {α : Type} (inBlock : Bool) (item : Parser (Option α)) : List Token → Parser (List α)
  | [] => return []
  | _ :: fuel => do
    match ← peek? with
    | none => return []
    | some kind =>
      if inBlock && kind == .symbol .rightBrace then
        return []
      else
        let first ← item
        let others ← items inBlock item fuel
        return first.toList ++ others

end Parser
end SafariScript
