import SafariScript.Proofs.Parser.Recovery

/-!
# Counting open blocks

What stands around a statement can be kept by counting: how many loops, control blocks and blocks are open. The
counters are shared by all rules, so each rule that opens a block has to count up in front of it and down behind
it, also when the block is left by a complaint. `Counting` is the parser with such counters. It does what the
parser of statements does with the surroundings that the counters stand for, and leaves the counters as it found
them, however it ends (`tracks_statement`).
-/

namespace SafariScript

/-- How many loops, control blocks and blocks are open. -/
structure Depths where
  loop : Nat := 0
  control : Nat := 0
  block : Nat := 0
deriving DecidableEq

namespace Depths

/-- What stands around a statement where so much is open. -/
def surroundings (interactive : Bool) (d : Depths) : Surroundings where
  interactive := interactive
  inBlock := d.block != 0
  inLoop := d.loop != 0
  inControl := d.control != 0

/-- A way to count around a part of the source: `leave` takes the counters in front of the part and those at its
end, and takes back what `enter` did. -/
structure Bracket where
  enter : Depths → Depths
  leave : Depths → Depths → Depths
  restores : ∀ d, leave d (enter d) = d

namespace Bracket

/-- A loop is also a control block. -/
def loop : Bracket where
  enter d := { d with loop := d.loop + 1, control := d.control + 1 }
  leave _ d := { d with loop := d.loop - 1, control := d.control - 1 }
  restores _ := rfl

def control : Bracket where
  enter d := { d with control := d.control + 1 }
  leave _ d := { d with control := d.control - 1 }
  restores _ := rfl

def block : Bracket where
  enter d := { d with block := d.block + 1 }
  leave _ d := { d with block := d.block - 1 }
  restores _ := rfl

/-- The body of a function does not count the loops and control blocks around its definition. -/
def function : Bracket where
  enter d := { d with loop := 0, control := 0 }
  leave before d := { d with loop := before.loop, control := before.control }
  restores _ := rfl

end Bracket

variable (interactive : Bool) (d : Depths)

theorem surroundings_block :
    (Bracket.block.enter d).surroundings interactive = (d.surroundings interactive).block := rfl

theorem surroundings_loop :
    ((Bracket.loop.enter d).surroundings interactive).block = (d.surroundings interactive).loop := rfl

theorem surroundings_function :
    ((Bracket.function.enter d).surroundings interactive).block = (d.surroundings interactive).function := rfl

theorem surroundings_control :
    ((Bracket.control.enter d).surroundings interactive).block = (d.surroundings interactive).control := rfl

/-- Counted once more, a control block is still a control block. -/
theorem surroundings_control_control :
    ((Bracket.control.enter d).surroundings interactive).control = (d.surroundings interactive).control := rfl

end Depths

/-- A parser that shares counters. -/
abbrev Counting := EStateM ParseStop (Depths × ParseState)

namespace Counting

open SafariScript.Parser

variable {α β : Type}

/-- A parser that does not count. -/
def lift (p : Parser α) : Counting α := fun σ =>
  match p σ.2 with
  | .ok a s => .ok a (σ.1, s)
  | .error e s => .error e (σ.1, s)

/-- Count around a parser, on every way out of it. -/
def inside (b : Depths.Bracket) (p : Counting α) : Counting α := fun σ =>
  match p (b.enter σ.1, σ.2) with
  | .ok a σ' => .ok a (b.leave σ.1 σ'.1, σ'.2)
  | .error e σ' => .error e (b.leave σ.1 σ'.1, σ'.2)

/-- Run a parser; a complaint is recorded, and parsing goes on behind the statement with no result. -/
def recover (inBlock : Bool) (item : Counting α) : Counting (Option α) := fun σ =>
  match item σ with
  | .ok a σ' => .ok (some a) σ'
  | .error .tooDeep σ' => .error .tooDeep σ'
  | .error (.complaint complaint place) σ' =>
    .ok none (σ'.1, resume inBlock (σ'.2.rest.length < σ.2.rest.length) complaint place σ'.2)

/-- Items up to the end of the source, or up to a closing brace if inside a block. -/
def items (inBlock : Bool) (item : Counting (Option α)) : List Token → Counting (List α)
  | [] => return []
  | _ :: fuel => do
    match ← lift peek? with
    | none => return []
    | some kind =>
      if inBlock && kind == .symbol .rightBrace then
        return []
      else
        let first ← item
        let others ← items inBlock item fuel
        return first.toList ++ others

/-- The statements of a block behind its opening brace. The closing brace is outside of the block. -/
def block (item : Counting Stmt) : Counting (List Stmt) := do
  let body ← inside .block do items true (recover true item) (← lift remaining)
  let _ ← lift (symbol .rightBrace "after block")
  return body

/-- What follows the first block of an `if` statement. -/
def elseBranch (chain : Counting (Expr × List Stmt × Otherwise)) (body : Counting (List Stmt)) :
    Counting Otherwise := do
  if ← lift (accept (.keyword .elseKw)) then
    if ← lift (accept (.keyword .ifKw)) then
      let (value, first, otherwise) ← chain
      return .elseIf value first otherwise
    else
      let _ ← lift (symbol .leftBrace "to start 'else' block")
      return .block (← body)
  else
    return .nothing

/-- An `if` statement behind its keyword. The rest of the chain counts as inside its first link. -/
def conditional (nested : Parser Expr) (body : Counting (List Stmt)) :
    Nat → Counting (Expr × List Stmt × Otherwise)
  | 0 => lift tooDeep
  | depth + 1 => do
    let value ← lift (condition nested "if")
    let _ ← lift (symbol .leftBrace "to start 'if' block")
    let (first, otherwise) ← inside .control do
      let first ← body
      let otherwise ← elseBranch (conditional nested body depth) body
      return (first, otherwise)
    return (value, first, otherwise)

/-- A statement that starts with a keyword or an opening brace, if it does. -/
def keyworded (around : Surroundings) (bound : Nat) (nested : Parser Expr) (body : Counting (List Stmt)) :
    TokenKind → Option (Counting Stmt)
  | .keyword .defineKw => some do
    let _ ← lift advance
    let (word, params) ← lift signature
    return .define word params (← inside .function body)
  | .keyword .ifKw => some do
    let _ ← lift advance
    let (value, first, otherwise) ← conditional nested body bound
    return .cond value first otherwise
  | .keyword .whileKw => some do
    let _ ← lift advance
    let value ← lift (condition nested "while")
    let _ ← lift (symbol .leftBrace "to start 'while' block")
    return .loop value (← inside .loop body)
  | .keyword .forKw => some do
    let line ← lift advance
    let (word, start, stop) ← lift (iteration nested)
    return .forIn line word start stop (← inside .loop body)
  | .keyword .exploreKw => some do
    let line ← lift advance
    let zone ← lift exploration
    return .explore line zone (← inside .loop body)
  | .symbol .leftBrace => some do
    let _ ← lift advance
    return .block (← body)
  -- the others hold no block
  | kind => (Parser.keyworded around bound nested (fun _ => return []) kind).map lift

/-- A statement with at most the given nesting. -/
def statement (interactive : Bool) : Nat → Counting Stmt
  | 0 => lift tooDeep
  | depth + 1 => do
    let around := (← get).1.surroundings interactive
    let frames := statementFrames * depth
    let nested := expression (frames / expressionFrames)
    match (← lift peek?).bind (keyworded around frames nested (block (statement interactive depth))) with
    | some rule => rule
    | none => lift (expressionStatement around nested)

/-- All the statements of a script. -/
def script (limit : Nat) (interactive : Bool) (tokens : List Token) : Counting (List Stmt) :=
  items false (recover false (statement interactive limit)) tokens

/-! ## Counting does not change the result -/

/-- Where so much is open, a parser that counts does what another one does, and restores the counters. -/
def Tracks (d : Depths) (p : Counting α) (q : Parser α) : Prop :=
  ∀ s, p (d, s) = lift q (d, s)

variable {d : Depths}

theorem tracks_lift (q : Parser α) : Tracks d (lift q) q :=
  fun _ => rfl

theorem tracks_pure (a : α) : Tracks d (pure a) (pure a) :=
  fun _ => rfl

theorem Tracks.bind {p : Counting α} {q : Parser α} {f : α → Counting β} {g : α → Parser β}
    (hp : Tracks d p q) (hf : ∀ a, Tracks d (f a) (g a)) : Tracks d (p >>= f) (q >>= g) := by
  intro s
  unfold lift
  rw [bind_apply, bind_apply, hp s]
  unfold lift
  cases q s with
  | ok a s' => exact hf a s'
  | error e s' => rfl

theorem Tracks.inside {p : Counting α} {q : Parser α} (b : Depths.Bracket) (hp : Tracks (b.enter d) p q) :
    Tracks d (inside b p) q := by
  intro s
  unfold Counting.inside lift
  simp only [hp s]
  unfold lift
  cases q s with
  | ok a s' => simp only [b.restores]
  | error e s' => simp only [b.restores]

theorem Tracks.recover {p : Counting α} {q : Parser α} (inBlock : Bool) (hp : Tracks d p q) :
    Tracks d (recover inBlock p) (Parser.recover inBlock q) := by
  intro s
  unfold Counting.recover lift
  simp only [hp s]
  cases hq : q s with
  | ok a s' => simp only [lift, hq, recover_of_ok inBlock hq]
  | error e s' =>
      cases e with
      | tooDeep => simp only [lift, hq, recover_of_tooDeep inBlock hq]
      | complaint complaint place => simp only [lift, hq, recover_of_complaint inBlock hq]

theorem Tracks.items {p : Counting (Option α)} {q : Parser (Option α)} (inBlock : Bool) (hp : Tracks d p q)
    (fuel : List Token) : Tracks d (items inBlock p fuel) (Parser.items inBlock q fuel) := by
  induction fuel with
  | nil => exact tracks_pure []
  | cons t fuel ih =>
      refine (tracks_lift peek?).bind fun kind? => ?_
      cases kind? with
      | none => exact tracks_pure []
      | some kind =>
          simp only
          split
          · exact tracks_pure []
          · exact hp.bind fun first => ih.bind fun others => tracks_pure _

theorem Tracks.block {p : Counting Stmt} {q : Parser Stmt} (hp : Tracks (Depths.Bracket.block.enter d) p q) :
    Tracks d (block p) (Parser.block q) := by
  have hitems : Tracks (Depths.Bracket.block.enter d)
      (do Counting.items true (Counting.recover true p) (← lift remaining))
      (do Parser.items true (Parser.recover true q) (← remaining)) :=
    (tracks_lift remaining).bind fun fuel => (hp.recover true).items true fuel
  have hblock := (hitems.inside Depths.Bracket.block).bind fun body =>
    (tracks_lift (symbol .rightBrace "after block")).bind fun _ => tracks_pure body
  intro s
  have hs := hblock s
  rw [bind_assoc] at hs
  exact hs

theorem tracks_elseBranch {chain : Counting (Expr × List Stmt × Otherwise)}
    {chain' : Parser (Expr × List Stmt × Otherwise)} {body : Counting (List Stmt)}
    {body' : Parser (List Stmt)} (hchain : Tracks d chain chain') (hbody : Tracks d body body') :
    Tracks d (elseBranch chain body) (Parser.elseBranch chain' body') := by
  refine (tracks_lift _).bind fun another => ?_
  split
  · refine (tracks_lift _).bind fun further => ?_
    split
    · exact hchain.bind fun _ => tracks_pure _
    · exact (tracks_lift _).bind fun _ => hbody.bind fun _ => tracks_pure _
  · exact tracks_pure _

/-- The links of an `if` chain are counted one inside the other, but what stands around their blocks is the
same. -/
theorem tracks_conditional {interactive : Bool} {inner : Surroundings} {body : Counting (List Stmt)}
    {body' : Parser (List Stmt)} (nested : Parser Expr)
    (hbody : ∀ d : Depths, (d.surroundings interactive).block = inner → Tracks d body body') (bound : Nat)
    (hd : (d.surroundings interactive).control = inner) :
    Tracks d (conditional nested body bound) (Parser.conditional nested body' bound) := by
  induction bound generalizing d with
  | zero => exact tracks_lift tooDeep
  | succ bound ih =>
      have hinside := hbody _ ((d.surroundings_control interactive).trans hd)
      have hdeeper := ih ((d.surroundings_control_control interactive).trans hd)
      have hlinks := Tracks.inside (α := List Stmt × Otherwise) Depths.Bracket.control
        (hinside.bind fun first => (tracks_elseBranch hdeeper hinside).bind fun otherwise =>
          tracks_pure (first, otherwise))
      have hall := (tracks_lift (condition nested "if")).bind fun value =>
        (tracks_lift (symbol .leftBrace "to start 'if' block")).bind fun _ =>
          hlinks.bind fun parts => tracks_pure (value, parts.1, parts.2)
      intro s
      have hs := hall s
      simp only [bind_assoc, pure_bind] at hs
      exact hs

theorem tracks_keyworded {interactive : Bool} {body : Counting (List Stmt)}
    (body' : Surroundings → Parser (List Stmt)) (bound : Nat) (nested : Parser Expr)
    (hbody : ∀ d : Depths, Tracks d body (body' (d.surroundings interactive).block)) (d : Depths)
    (kind : TokenKind) :
    Option.Rel (Tracks d) (keyworded (d.surroundings interactive) bound nested body kind)
      (Parser.keyworded (d.surroundings interactive) bound nested body' kind) := by
  have hloop : Tracks d (inside .loop body) (body' (d.surroundings interactive).loop) := by
    rw [← d.surroundings_loop]
    exact (hbody _).inside Depths.Bracket.loop
  have hfunction : Tracks d (inside .function body) (body' (d.surroundings interactive).function) := by
    rw [← d.surroundings_function]
    exact (hbody _).inside Depths.Bracket.function
  have hcontrol := tracks_conditional nested (fun d' hd' => hd' ▸ hbody d') bound
    (rfl : (d.surroundings interactive).control = _)
  cases kind with
  | keyword keyword =>
      cases keyword
      case elseKw | inKw | toKw | safariZoneKw | teamKw | trueKw | falseKw | nullKw => exact .none
      case defineKw =>
        exact .some <| (tracks_lift _).bind fun _ => (tracks_lift _).bind fun _ => hfunction.bind fun _ =>
          tracks_pure _
      case ifKw => exact .some <| (tracks_lift _).bind fun _ => hcontrol.bind fun _ => tracks_pure _
      case whileKw =>
        exact .some <| (tracks_lift _).bind fun _ => (tracks_lift _).bind fun _ => (tracks_lift _).bind fun _ =>
          hloop.bind fun _ => tracks_pure _
      case forKw | exploreKw =>
        exact .some <| (tracks_lift _).bind fun _ => (tracks_lift _).bind fun _ => hloop.bind fun _ => tracks_pure _
      -- a simple statement counts nothing
      all_goals exact .some (tracks_lift _)
  | symbol symbol =>
      cases symbol
      case leftBrace => exact .some <| (tracks_lift _).bind fun _ => (hbody d).bind fun _ => tracks_pure _
      all_goals exact .none
  | _ => exact .none

/-- A statement is read with counters as it is read with the surroundings they stand for, and the counters are
restored, however that ends. -/
theorem tracks_statement (interactive : Bool) (depth : Nat) (d : Depths) :
    Tracks d (statement interactive depth) (Parser.statement depth (d.surroundings interactive)) := by
  induction depth generalizing d with
  | zero => exact tracks_lift tooDeep
  | succ depth ih =>
      have hbody (d : Depths) : Tracks d (block (statement interactive depth))
          (Parser.block (Parser.statement depth (d.surroundings interactive).block)) := by
        rw [← d.surroundings_block]
        exact (ih _).block
      intro s
      have hchoice : Tracks d
          (do match (← lift peek?).bind (keyworded (d.surroundings interactive) (statementFrames * depth)
                (expression (statementFrames * depth / expressionFrames)) (block (statement interactive depth))) with
              | some rule => rule
              | none => lift (expressionStatement (d.surroundings interactive)
                  (expression (statementFrames * depth / expressionFrames))))
          (Parser.statement (depth + 1) (d.surroundings interactive)) := by
        refine (tracks_lift peek?).bind fun kind? => ?_
        cases kind? with
        | none => exact tracks_lift _
        | some kind =>
            have hrules := tracks_keyworded (fun inner => Parser.block (Parser.statement depth inner))
              (statementFrames * depth) (expression (statementFrames * depth / expressionFrames)) hbody d kind
            simp only [Option.bind_some]
            generalize keyworded _ _ _ _ kind = rule? at hrules ⊢
            generalize Parser.keyworded _ _ _ _ kind = other? at hrules ⊢
            cases hrules with
            | none => exact tracks_lift _
            | some h => exact h
      exact hchoice s

/-- The script as a whole, with nothing open around it. -/
theorem script_eq (limit : Nat) (interactive : Bool) (tokens : List Token) (s : ParseState) :
    script limit interactive tokens ({}, s) =
      lift (Parser.items false (Parser.recover false (Parser.statement limit { interactive })) tokens) ({}, s) :=
  ((tracks_statement interactive limit {}).recover false).items false tokens s

end Counting
end SafariScript
