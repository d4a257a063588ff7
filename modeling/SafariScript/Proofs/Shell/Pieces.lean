import SafariScript.Session

/-!
# Pieces of source

What a session does with the pieces of source that it is given. It adds a piece with the number of its first line and,
unless the piece is refused, runs what is queued; what either of them fails with is handled (`Session.Works`). A session
that is given pieces one after the other, and written to in between, is `Session.Served`: the relation keeps the pieces
in order, each with its first line and with what it failed with. Where no program was queued before, none is queued
behind a piece, however the work on it ended (`Session.Works.queue_eq`).
-/

namespace SafariScript

namespace Session

/-- The work of a session on a piece of source whose first line has a number, what it fails with, and the session
afterwards. -/
inductive Works (s : Session) (source : String) (line : Int) : Option Failure → Session → Prop where
  | refused {s₁ : Session} {failure : Failure} (hadd : s.add source line = (s₁, .error failure)) :
      Works s source line (some failure) (s₁.handle failure).1
  | failed {s₁ s₂ : Session} {program : Program} {failure : Failure} (hadd : s.add source line = (s₁, .ok program))
      (hrun : s₁.run = (s₂, .error failure)) : Works s source line (some failure) (s₂.handle failure).1
  | finished {s₁ s₂ : Session} {program : Program} (hadd : s.add source line = (s₁, .ok program))
      (hrun : s₁.run = (s₂, .ok ())) : Works s source line none s₂

/-- A piece of source that a session was given, the number of its first line, and what the work on it failed with. -/
structure Piece where
  source : String
  firstLine : Nat
  failure : Option Failure

/-- A session has worked on some pieces of source, one after the other, and was written to in between. -/
inductive Served (s : Session) : List Piece → Session → Prop where
  | refl : Served s [] s
  | wrote {pieces : List Piece} {s' : Session} (h : Served s pieces s') (text : String) :
      Served s pieces (s'.write text)
  | worked {pieces : List Piece} {s' s'' : Session} {piece : Piece} (h : Served s pieces s')
      (hwork : s'.Works piece.source piece.firstLine piece.failure s'') : Served s (pieces ++ [piece]) s''

variable {s s' s'' : Session}

theorem Served.trans {pieces more : List Piece} (h : s.Served pieces s') (hmore : s'.Served more s'') :
    s.Served (pieces ++ more) s'' := by
  induction hmore with
  | refl => rwa [List.append_nil]
  | wrote _ text ih => exact .wrote ih text
  | worked _ hwork ih =>
      rw [← List.append_assoc]
      exact .worked ih hwork

/-- The work on a piece comes to one of its three ends. -/
theorem exists_works (s : Session) (source : String) (line : Int) :
    ∃ failure, s.Works source line failure (s.chunk source line).1 := by
  unfold chunk
  cases hadd : s.add source line with
  | mk s₁ result =>
      cases result with
      | error failure => exact ⟨_, .refused hadd⟩
      | ok program =>
          cases hrun : s₁.run with
          | mk s₂ ending =>
              cases ending with
              | error failure => simpa only [hrun] using ⟨_, .failed hadd hrun⟩
              | ok _ => simpa only [hrun] using ⟨_, .finished hadd hrun⟩

/-- A session that has worked on some pieces has worked on each of them, behind those before it. -/
theorem Served.exists_works {pieces earlier later : List Piece} {piece : Piece} (h : s.Served pieces s')
    (hsplit : pieces = earlier ++ piece :: later) :
    ∃ s₁ s₂, s.Served earlier s₁ ∧ s₁.Works piece.source piece.firstLine piece.failure s₂ := by
  induction h generalizing later with
  | refl => cases List.append_eq_nil_iff.1 hsplit.symm |>.2
  | wrote _ text ih => exact ih hsplit
  | worked hbefore hwork ih =>
      rcases List.eq_nil_or_concat later with rfl | ⟨later, last, rfl⟩
      · -- the piece is the one that was worked on last
        obtain ⟨rfl, hpiece⟩ := List.append_inj' hsplit rfl
        obtain rfl := List.singleton_inj.1 hpiece
        exact ⟨_, _, hbefore, hwork⟩
      · rw [List.concat_eq_append, ← List.cons_append, ← List.append_assoc] at hsplit
        exact ih (List.append_inj' hsplit rfl).1

/-! ## The queue -/

/-- Running takes every program from the queue up to the one that fails. -/
theorem queue_run_of_single {program : Program} (h : s.queue = [program]) : s.run.1.queue = [] := by
  rw [run, h]
  unfold runAll
  split <;> rfl

/-- What is added stands alone in an empty queue, or nothing does. -/
theorem queue_add (h : s.queue = []) (source : String) (line : Int) :
    (s.add source line).1.queue = (s.add source line).2.toOption.toList := by
  unfold add
  cases hresult : (parseSource line s.interactive source).result with
  | error failure =>
      simp only [hresult]
      exact h
  | ok program =>
      simp only [hresult]
      show s.queue ++ [program] = [program]
      rw [h, List.nil_append]

/-- A piece of source leaves no program behind, whether it is refused, fails or comes to its end. -/
theorem Works.queue_eq {source : String} {line : Int} {failure : Option Failure}
    (hwork : s.Works source line failure s') (h : s.queue = []) : s'.queue = [] := by
  have hadded := queue_add h source line
  cases hwork with
  | refused hadd =>
      rw [hadd] at hadded
      exact hadded
  | failed hadd hrun | finished hadd hrun =>
      rw [hadd] at hadded
      have hran := queue_run_of_single hadded
      rwa [hrun] at hran

end Session
end SafariScript
