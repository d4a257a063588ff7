import SafariScript.Proofs.Eval.Execution
import SafariScript.Proofs.Parser.StatementSoundness
import SafariScript.Source

/-!
# Nothing escapes from an accepted program

The parser lets `break` and `continue` stand only inside a loop, and the interpreter catches them only in a
loop; it catches `run` in loops, calls and programs, and `return` in calls. The two agree
(`endings_all_proper`): pieces of source that are accepted one by one, and run one after the other in one world,
end normally or by a fault of the script, except for an integer too long to be written and a loop that does not
end. The interpreter never meets a tree it does not know: where it would look up what to do in a table, with the kind
of the tree as the key, `eval` and `exec` have a case for every constructor. The fourteen kinds of statement are the
constructors of `Stmt`. The ten kinds of expression are those of `Expr`, where an assignment to a variable or to a
property is one kind (`assign`, `setProperty`) and so is a call of a function, of a method or of the constructor of an
object (`call`, `method`, `construct`). The eight operators on integers are `IntOp`, the two constructors of objects
`Maker`. A later piece may call functions that an earlier one defined; that their bodies were accepted too is the
part of the invariant that the world carries from one piece to the next.
-/

namespace SafariScript

open Eval

/-- A piece of source, how it is read and how it is run. -/
structure Chunk where
  source : String
  line : Int
  interactive : Bool
  echo : Bool

/-- The program of a piece of source, if it has no problems. -/
def Chunk.program? (chunk : Chunk) : Option Program :=
  (parseSource chunk.line chunk.interactive chunk.source).result.toOption

/-- How the accepted ones among some pieces of source end, run one after the other in one world: `none` if
normally. The rest of a piece that is interrupted is not run, but the next piece is. -/
def endings (budget room : Nat) : List Chunk → World → List (Option Interrupt)
  | [], _ => []
  | chunk :: chunks, w =>
    match chunk.program? with
    | none => endings budget room chunks w
    | some program =>
      match interpretWithin budget room chunk.echo program w with
      | .ok _ w' => none :: endings budget room chunks w'
      | .error e w' => some e :: endings budget room chunks w'

/-- A program ends normally or by a fault, unless an integer is too long to be written or a loop does not
end. -/
def proper : Option Interrupt → Bool
  | none => true
  | some (.fault _) => true
  | some .longInteger => true
  | some .endless => true
  | some _ => false

/-! ## Accepted programs are well placed -/

/-- The tokens of an accepted source text are derived from its program. -/
theorem script_of_parseSource {line : Int} {interactive : Bool} {source : String} {program : Program}
    (h : (parseSource line interactive source).result = .ok program) :
    ∃ scan, Scan.ofSource line source.toList = .ok scan ∧ Grammar.Script interactive scan.tokens program := by
  unfold parseSource at h
  split at h
  · cases h
  · next scan hscan =>
    split at h
    · split at h
      · cases h
      · next parsed hparsed =>
        dsimp only at h
        split at h
        · next hproblems =>
          have hempty : parsed.problems = [] := List.isEmpty_iff.1 hproblems
          have hprogram : parsed = ⟨program, []⟩ := by
            rw [← hempty, ← Except.ok.inj h]
          rw [hprogram] at hparsed
          exact ⟨scan, hscan, script_of_parseWithin hparsed⟩
        · cases h
    · cases h

theorem placed_of_parseSource {line : Int} {interactive : Bool} {source : String} {program : Program}
    (h : (parseSource line interactive source).result = .ok program) : program.placed = true := by
  obtain ⟨scan, -, hscript⟩ := script_of_parseSource h
  exact hscript.placed

theorem Chunk.parseSource_of_program? {chunk : Chunk} {program : Program} (h : chunk.program? = some program) :
    (parseSource chunk.line chunk.interactive chunk.source).result = .ok program := by
  unfold Chunk.program? at h
  cases hresult : (parseSource chunk.line chunk.interactive chunk.source).result with
  | error failure =>
      rw [hresult] at h
      cases h
  | ok parsed =>
      rw [hresult] at h
      cases h
      rfl

theorem Chunk.placed_of_program? {chunk : Chunk} {program : Program} (h : chunk.program? = some program) :
    program.placed = true :=
  placed_of_parseSource (Chunk.parseSource_of_program? h)

/-! ## Between two programs -/

/-- What holds of the world between two programs: the bodies of all functions are well placed, the overall rate
is known, and no function is running. -/
structure Idle (w : World) : Prop where
  sane : Sane (WellPlaced .outside) w
  known : w.rates.overall.isSome = true
  still : w.running = 0

theorem idle_initial (chance : Random.Source) (rate : Int) (input : List String) :
    Idle (World.initial chance (.uniform rate) input) := by
  refine ⟨⟨fun closure hclosure => ?_⟩, rfl, rfl⟩
  exact absurd hclosure (Array.not_mem_empty closure)

/-- While no function is running and the overall rate is known, only proper endings may leave a program. -/
theorem Idle.proper_of_leaves {w : World} (hw : Idle w) {e : Interrupt} (h : Leaves .outside w e)
    (hrun : e ≠ .run) (hoverflow : e ≠ .overflow) : proper (some e) = true := by
  cases e with
  -- outside all loops and functions there is nothing to leave
  | breakLoop | continueLoop => exact absurd h Bool.false_ne_true
  | ret value => exact absurd hw.still h
  | unknownChance => exact absurd (hw.known.symm.trans h) (by decide)
  | run => exact absurd rfl hrun
  | overflow => exact absurd rfl hoverflow
  | fault | longInteger | endless => rfl

section Program

variable {w w' : World} {budget room : Nat} {echo : Bool} {program : Program}

/-- An accepted program leaves the world as it should be between two programs. -/
theorem Idle.after (h : Idle w) (hplaced : program.placed = true) :
    Idle (w.after (interpretWithin budget room echo program)) := by
  have heffect := (safe_interpretWithin budget room echo hplaced w h.sane).effect_after
  have hrunning := heffect.registers_eq.2
  exact ⟨heffect.sane h.sane, heffect.known h.known, hrunning.trans h.still⟩

theorem Idle.proper_of_error (h : Idle w) (hplaced : program.placed = true) {e : Interrupt}
    (herror : interpretWithin budget room echo program w = .error e w') : proper (some e) = true := by
  have hsettles := safe_interpretWithin budget room echo hplaced w h.sane
  unfold Settles at hsettles
  simp only [herror] at hsettles
  obtain ⟨hrun, hoverflow⟩ := interpretWithin_catches herror
  exact h.proper_of_leaves hsettles.2 hrun hoverflow

end Program

theorem Idle.endings_all_proper {w : World} (h : Idle w) (budget room : Nat) (chunks : List Chunk) :
    (endings budget room chunks w).all proper = true := by
  induction chunks generalizing w with
  | nil => rfl
  | cons chunk chunks ih =>
      unfold endings
      split
      · exact ih h
      · next program hprogram =>
        have hplaced : program.placed = true := Chunk.placed_of_program? hprogram
        have hidle : Idle (w.after (interpretWithin budget room chunk.echo program)) := h.after hplaced
        unfold World.after at hidle
        split
        · next a w' hok =>
          simp only [hok] at hidle
          exact ih hidle
        · next e w' herror =>
          simp only [herror] at hidle
          rw [List.all_cons, h.proper_of_error hplaced herror, ih hidle]
          rfl

/-- Whatever pieces of source are accepted and run, and whatever is drawn and read meanwhile, no `break`,
`continue`, `return` or `run` escapes from one of them: each ends normally or by a fault, unless an integer is
too long to be written or a loop does not end. -/
theorem all_endings_proper (budget room : Nat) (chunks : List Chunk) (chance : Random.Source) (rate : Int)
    (input : List String) :
    (endings budget room chunks (World.initial chance (.uniform rate) input)).all proper = true :=
  (idle_initial chance rate input).endings_all_proper budget room chunks

-- the second piece is refused; the third and fourth call the function of the first
example :
    endings 10 60
        [⟨"define f(n) { for i in 1 to 2 { if (i == n) { run; } continue; } return 1 / n; }", 1, false, false⟩,
          ⟨"break;", 1, false, false⟩,
          ⟨"while (true) { f(2); break; }", 1, false, false⟩,
          ⟨"f(0)", 1, true, true⟩]
        (World.initial (.ofScript []) (.uniform 50) []) =
      [none, none, some (.fault ⟨.divisionByZero, some ⟨"/", 1⟩⟩)] := by
  decide +kernel

end SafariScript
