import Mathlib.Data.List.Forall2
import SafariScript.Proofs.Eval.Nesting
import SafariScript.Proofs.Lockstep.Basic

/-!
# Equality is respected

What `==` means is `World.Alike`: the same value, or arrays as long as each other whose elements are alike in turn. The
comparison takes its operands apart in an order of its own, but it does not matter which of two alike values it is
given (`equalWithin_congr_right`), nor on which side of it they stand (`equalWithin_comm`). So it is an equivalence, and
all that only looks at a value through its text or through comparisons does not tell alike values apart
(`equality_respected`). Only where arrays lie in themselves it may come to no answer.
-/

namespace SafariScript

open Eval

/-- The same value, or arrays of the same size whose elements are alike in turn. -/
inductive World.Alike (w : World) : Value → Value → Prop where
  | same {v : Value} (plain : ∀ id, v ≠ .array id) : Alike w v v
  | arrays {a b : Nat} (size : (w.array a).toList.length = (w.array b).toList.length)
      (items : ∀ x y, (x, y) ∈ (w.array a).toList.zip (w.array b).toList → Alike w x y) :
      Alike w (.array a) (.array b)

theorem Value.array_or_plain (v : Value) : (∃ id, v = .array id) ∨ ∀ id, v ≠ .array id := by
  cases v with
  | array id => exact .inl ⟨id, rfl⟩
  | _ => exact .inr nofun

variable {w : World} {depth : Nat} {a b c : Value}

namespace World.Alike

theorem of_forall₂ {i j : Nat} (h : List.Forall₂ w.Alike (w.array i).toList (w.array j).toList) :
    w.Alike (.array i) (.array j) :=
  .arrays h.length_eq fun _ _ hmem => (List.forall₂_iff_zip.1 h).2 hmem

theorem kind_eq (h : w.Alike a b) : a.kind = b.kind := by
  cases h <;> rfl

theorem truthy_eq (h : w.Alike a b) : a.truthy = b.truthy := by
  cases h <;> rfl

end World.Alike

namespace Eval

/-! ## Comparing arrays element by element -/

theorem allEqual_true_iff {equal : Value → Value → Except Interrupt Bool} {as bs : List Value} :
    allEqual equal as bs = .ok true ↔ List.Forall₂ (fun a b => equal a b = .ok true) as bs := by
  induction as generalizing bs with
  | nil =>
      cases bs with
      | nil => exact ⟨fun _ => .nil, fun _ => rfl⟩
      | cons b bs => simp [allEqual, pure, Except.pure]
  | cons a as ih =>
      cases bs with
      | nil => simp [allEqual, pure, Except.pure]
      | cons b bs =>
          rw [List.forall₂_cons, ← ih, allEqual]
          cases equal a b with
          | error e => simp [bind, Except.bind]
          | ok same => cases same <;> simp [bind, Except.bind, pure, Except.pure]

theorem allEqual_congr {equal equal' : Value → Value → Except Interrupt Bool} {as bs bs' : List Value}
    (h : List.Forall₂ (fun b b' => ∀ a, equal a b = equal' a b') bs bs') :
    allEqual equal as bs = allEqual equal' as bs' := by
  induction h generalizing as with
  | nil => cases as <;> rfl
  | cons hfirst _ ih =>
      cases as with
      | nil => rfl
      | cons a as => simp only [allEqual, hfirst a, ih]

theorem allEqual_comm {equal : Value → Value → Except Interrupt Bool} (h : ∀ a b, equal a b = equal b a)
    (as bs : List Value) : allEqual equal as bs = allEqual equal bs as := by
  induction as generalizing bs with
  | nil => cases bs <;> rfl
  | cons a as ih =>
      cases bs with
      | nil => rfl
      | cons b bs => simp only [allEqual, h a b, ih]

/-! ## Comparing values -/

/-- Whichever way two values that are not both arrays are compared, they must be the same: values of two types differ,
and the owner is all there is to a collection. -/
theorem plainEqual_eq (a b : Value) : plainEqual a b = (a == b) := by
  have hsame (object : Object) (other : Value) : sameAs object other = (.object object == other) := by
    unfold sameAs
    split
    · next owner other => simp [Bool.beq_comm]
    · next hother =>
      symm
      rw [beq_eq_false_iff_ne]
      rintro rfl
      exact hother _ rfl
    · rw [Bool.beq_comm]
  unfold plainEqual
  split
  · exact hsame _ b
  · rw [Bool.beq_comm]
  · rfl
  · rfl
  · by_cases h : a = b
    · simp [h]
    · simp [h]

theorem equalWithin_plain_left (h : ∀ id, a ≠ .array id) : equalWithin w depth a b = .ok (a == b) := by
  rw [← plainEqual_eq]
  cases a with
  | array id => exact absurd rfl (h id)
  | _ => cases depth <;> rfl

theorem equalWithin_plain_right (h : ∀ id, b ≠ .array id) : equalWithin w depth a b = .ok (a == b) := by
  rw [← plainEqual_eq]
  cases b with
  | array id => exact absurd rfl (h id)
  | _ => cases depth <;> cases a <;> rfl

theorem equalWithin_comm (w : World) (depth : Nat) (a b : Value) :
    equalWithin w depth a b = equalWithin w depth b a := by
  induction depth generalizing a b with
  | zero =>
      rcases a.array_or_plain with ⟨i, rfl⟩ | ha
      · rcases b.array_or_plain with ⟨j, rfl⟩ | hb
        · rfl
        · rw [equalWithin_plain_left hb, equalWithin_plain_right hb, Bool.beq_comm]
      · rw [equalWithin_plain_left ha, equalWithin_plain_right ha, Bool.beq_comm]
  | succ depth ih =>
      rcases a.array_or_plain with ⟨i, rfl⟩ | ha
      · rcases b.array_or_plain with ⟨j, rfl⟩ | hb
        · simp only [equalWithin, allEqual_comm ih (w.array i).toList, Bool.beq_comm]
        · rw [equalWithin_plain_left hb, equalWithin_plain_right hb, Bool.beq_comm]
      · rw [equalWithin_plain_left ha, equalWithin_plain_right ha, Bool.beq_comm]

/-- A value is compared with alike values with the same result, or with none for want of depth. -/
theorem equalWithin_congr_right (h : w.Alike b c) (depth : Nat) (a : Value) :
    equalWithin w depth a b = equalWithin w depth a c := by
  induction h generalizing depth a with
  | same plain => rfl
  | @arrays i j size items ih =>
      rcases a.array_or_plain with ⟨id, rfl⟩ | hplain
      · cases depth with
        | zero => rfl
        | succ depth =>
            have hsize : (w.array i).size = (w.array j).size := by simpa using size
            have hitems : List.Forall₂ (fun x y => ∀ v, equalWithin w depth v x = equalWithin w depth v y)
                (w.array i).toList (w.array j).toList :=
              List.forall₂_iff_zip.2 ⟨size, fun hmem => ih _ _ hmem depth⟩
            simp only [equalWithin, hsize, allEqual_congr hitems]
      · rw [equalWithin_plain_left hplain, equalWithin_plain_left hplain, beq_false_of_ne (hplain i),
          beq_false_of_ne (hplain j)]

theorem equalWithin_congr_left (h : w.Alike a b) (depth : Nat) (c : Value) :
    equalWithin w depth a c = equalWithin w depth b c := by
  rw [equalWithin_comm w depth a, equalWithin_comm w depth b]
  exact equalWithin_congr_right h depth c

theorem alike_of_equalWithin (h : equalWithin w depth a b = .ok true) : w.Alike a b := by
  have of_plain {depth : Nat} {a b : Value} (hplain : ∀ id, a ≠ .array id)
      (h : equalWithin w depth a b = .ok true) : w.Alike a b := by
    rw [equalWithin_plain_left hplain] at h
    obtain rfl : a = b := eq_of_beq (Except.ok.inj h)
    exact .same hplain
  induction depth generalizing a b with
  | zero =>
      rcases a.array_or_plain with ⟨i, rfl⟩ | hplain
      · cases b <;> cases h
      · exact of_plain hplain h
  | succ depth ih =>
      rcases a.array_or_plain with ⟨i, rfl⟩ | hplain
      · cases b with
        | array j =>
            unfold equalWithin at h
            split at h
            · exact .of_forall₂ ((allEqual_true_iff.1 h).imp fun _ _ hsame => ih hsame)
            · cases h
        | _ => cases h
      · exact of_plain hplain h

/-- With depth enough for its arrays, a value is equal to itself. -/
theorem equalWithin_self (h : w.nestedWithin depth a = true) : equalWithin w depth a a = .ok true := by
  induction depth generalizing a with
  | zero =>
      rcases a.array_or_plain with ⟨i, rfl⟩ | hplain
      · cases h
      · rw [equalWithin_plain_left hplain, beq_self_eq_true]
  | succ depth ih =>
      rcases a.array_or_plain with ⟨i, rfl⟩ | hplain
      · unfold equalWithin
        rw [if_pos (beq_self_eq_true _)]
        refine allEqual_true_iff.2 (List.forall₂_same.2 fun item hitem => ih ?_)
        exact World.nestedWithin_array.1 h item hitem
      · rw [equalWithin_plain_left hplain, beq_self_eq_true]

theorem equalWithin_true_iff (h : w.nestedWithin depth a = true) :
    equalWithin w depth a b = .ok true ↔ w.Alike a b := by
  refine ⟨alike_of_equalWithin, fun halike => ?_⟩
  rw [← equalWithin_congr_right halike, equalWithin_self h]

/-! ## What looks at values -/

theorem texts_congr {text : Value → Except Interrupt String} {vs vs' : List Value}
    (h : List.Forall₂ (fun v v' => text v = text v') vs vs') : texts text vs = texts text vs' := by
  induction h with
  | nil => rfl
  | cons hfirst _ ih => simp only [texts, hfirst, ih]

theorem textWithin_congr (h : w.Alike a b) (depth : Nat) : textWithin w depth a = textWithin w depth b := by
  induction h generalizing depth with
  | same plain => rfl
  | @arrays i j size items ih =>
      cases depth with
      | zero => rfl
      | succ depth =>
          have hitems : List.Forall₂ (fun x y => textWithin w depth x = textWithin w depth y)
              (w.array i).toList (w.array j).toList :=
            List.forall₂_iff_zip.2 ⟨size, fun hmem => ih _ _ hmem depth⟩
          simp only [textWithin, texts_congr hitems]

theorem anyEqual_congr_item (h : w.Alike a b) (room : Nat) (vs : List Value) :
    anyEqual room w a vs = anyEqual room w b vs := by
  induction vs with
  | nil => rfl
  | cons v vs ih => simp only [anyEqual, equal, equalWithin_congr_right h, ih]

theorem anyEqual_congr {vs vs' : List Value} (h : List.Forall₂ w.Alike vs vs') (room : Nat) (item : Value) :
    anyEqual room w item vs = anyEqual room w item vs' := by
  induction h with
  | nil => rfl
  | cons hfirst _ ih => simp only [anyEqual, equal, equalWithin_congr_left hfirst, ih]

end Eval

theorem Builtin.call_contains (room : Nat) (id : Nat) (item : Value) (place : Word) (w : World) :
    Builtin.call room .contains [.array id, item] place w =
      (ofResult (anyEqual room w item (w.array id).toList) >>= fun found => pure (Value.bool found)) w :=
  rfl

theorem Builtin.call_contains_congr_item (h : w.Alike a b) (room : Nat) (v : Value) (place : Word) :
    Builtin.call room .contains [v, a] place w = Builtin.call room .contains [v, b] place w := by
  cases v with
  | array id => rw [Builtin.call_contains, Builtin.call_contains, anyEqual_congr_item h]
  | _ => rfl

theorem Builtin.call_contains_congr_array (h : w.Alike a b) (room : Nat) (v : Value) (place : Word) :
    Builtin.call room .contains [a, v] place w = Builtin.call room .contains [b, v] place w := by
  cases h with
  | same plain => rfl
  | @arrays i j size items =>
      have helements : List.Forall₂ w.Alike (w.array i).toList (w.array j).toList :=
        List.forall₂_iff_zip.2 ⟨size, fun hmem => items _ _ hmem⟩
      rw [Builtin.call_contains, Builtin.call_contains, anyEqual_congr helements]

/-- Let a value lead into no circle of arrays. On a stack with room enough it is equal to itself, and it is compared
with every other value: they are equal if and only if they are alike. On any stack it is equal to itself or too deep, a
comparison has the same result the other way round, and a value that is equal to a second one, which is equal to a
third, is equal to that. Equal values have the same type, the same truth and the same text, and stand for each other as
the item that is looked for and as the array that is searched. -/
theorem equality_respected (w : World) (a b c : Value) (ha : ¬ w.Circular a) :
    (∃ least, ∀ room, least ≤ room → equal room w a a = .ok true ∧ text room w a ≠ .error .overflow ∧
      ∃ same, equal room w a b = .ok same ∧ (same = true ↔ w.Alike a b)) ∧
    ∀ room, (equal room w a a = .ok true ∨ equal room w a a = .error .overflow) ∧
      equal room w a b = equal room w b a ∧
      (equal room w a b = .ok true → equal room w b c = .ok true → equal room w a c = .ok true) ∧
      (equal room w a b = .ok true →
        a.kind.label = b.kind.label ∧ a.truthy = b.truthy ∧ ∀ room', text room' w a = text room' w b ∧
          ∀ v place,
            Builtin.call room' .contains [v, a] place w = Builtin.call room' .contains [v, b] place w ∧
            Builtin.call room' .contains [a, v] place w = Builtin.call room' .contains [b, v] place w) := by
  obtain ⟨depth, hdepth⟩ := World.not_circular_iff.1 ha
  constructor
  · refine ⟨2 * depth, fun room hroom => ?_⟩
    have hnested : w.nestedWithin (room / 2) a = true := World.nestedWithin_mono hdepth (by omega)
    obtain ⟨same, hsame⟩ := exists_equalWithin hnested b
    refine ⟨equalWithin_self hnested, textWithin_ne_overflow hnested, same, hsame, ?_⟩
    rw [← equalWithin_true_iff hnested, hsame]
    exact ⟨fun h => h ▸ rfl, fun h => Except.ok.inj h⟩
  · intro room
    refine ⟨?_, equalWithin_comm w _ a b, fun hab hbc => ?_, fun hab => ?_⟩
    · -- a deeper comparison succeeds, and this one can only stop before it
      have hnested : w.nestedWithin (max (room / 2) depth) a = true :=
        World.nestedWithin_mono hdepth (Nat.le_max_right _ _)
      rcases outlasts_equalWithin w (Nat.le_max_left (room / 2) depth) a a with hoverflow | hsame
      · exact .inr hoverflow
      · exact .inl (hsame.symm.trans (equalWithin_self hnested))
    · exact (equalWithin_congr_right (alike_of_equalWithin hbc) _ a).symm.trans hab
    · have halike : w.Alike a b := alike_of_equalWithin hab
      refine ⟨congrArg Kind.label halike.kind_eq, halike.truthy_eq, fun room' => ⟨textWithin_congr halike _, ?_⟩⟩
      exact fun v place => ⟨Builtin.call_contains_congr_item halike room' v place,
        Builtin.call_contains_congr_array halike room' v place⟩

/-- Two arrays that are not the same one have equal elements, one of which is an array again. -/
theorem equality_respected_nested :
    let w : World := { World.initial (.ofScript []) .unknown [] with
      arrays := #[#[.int 1, .array 2], #[.int 1, .array 3], #[.text "x"], #[.text "x"], #[.null, .array 1]] }
    ¬ w.Circular (.array 0) ∧ equal 20 w (.array 0) (.array 1) = .ok true ∧
      equal 20 w (.array 1) (.array 0) = .ok true ∧ text 20 w (.array 0) = text 20 w (.array 1) ∧
      Builtin.call 20 .contains [.array 4, .array 0] ⟨"contains", 1⟩ w =
        Builtin.call 20 .contains [.array 4, .array 1] ⟨"contains", 1⟩ w := by
  intro w
  have hnested : w.nestedWithin 2 (.array 0) = true := by decide
  have hfinite : ¬ w.Circular (.array 0) := World.not_circular_of_nestedWithin hnested
  have hequal : equal 20 w (.array 0) (.array 1) = .ok true := by decide
  obtain ⟨-, hcomm, -, hrespected⟩ := (equality_respected w (.array 0) (.array 1) .null hfinite).2 20
  obtain ⟨htext, hcontains⟩ := (hrespected hequal).2.2 20
  exact ⟨hfinite, hequal, hcomm.symm.trans hequal, htext, (hcontains (.array 4) ⟨"contains", 1⟩).1⟩

end SafariScript
