import Mathlib.Data.Fintype.Pigeonhole
import Mathlib.Data.Nat.SuccPred
import Mathlib.Order.SuccPred.Relation
import Mathlib.Order.WellFounded
import SafariScript.Eval.Comparison
import SafariScript.Eval.Rendering

/-!
# Arrays in arrays

Arrays are shared, so one may come to lie in itself, and then writing it or comparing it goes down for ever. A value
that leads into no such circle has a depth, and no other value has one (`not_circular_iff`): there are finitely many
arrays, so a way down through them that does not end comes to one of them twice. With so much depth the text of a
value is found (`textWithin_ne_overflow`), and it is compared with any other value (`exists_equalWithin`).
-/

namespace SafariScript

open Relation

namespace World

/-- An array is an element of another one. -/
def Nests (w : World) (inner outer : Nat) : Prop :=
  Value.array inner ∈ w.array outer

/-- A value is an array that lies in itself, or one that leads down to such an array. -/
inductive Circular (w : World) : Value → Prop where
  | array {id inner : Nat} (leads : ReflTransGen w.Nests inner id) (circle : TransGen w.Nests inner inner) :
      Circular w (.array id)

/-- The arrays in a value are nested no deeper than a bound. -/
def nestedWithin (w : World) : Nat → Value → Bool
  | 0, .array _ => false
  | depth + 1, .array id => (w.array id).toList.all (w.nestedWithin depth)
  | _, _ => true

variable {w : World} {depth depth' : Nat} {v : Value}

theorem nestedWithin_array {id : Nat} :
    w.nestedWithin (depth + 1) (.array id) = true ↔ ∀ item ∈ (w.array id).toList, w.nestedWithin depth item = true := by
  rw [nestedWithin, List.all_eq_true]

theorem nestedWithin_plain (h : ∀ id, v ≠ .array id) : w.nestedWithin depth v = true := by
  cases v with
  | array id => exact absurd rfl (h id)
  | _ => cases depth <;> rfl

theorem nestedWithin_mono (h : w.nestedWithin depth v = true) (hle : depth ≤ depth') :
    w.nestedWithin depth' v = true := by
  induction depth generalizing depth' v with
  | zero =>
      refine nestedWithin_plain fun id hid => ?_
      subst hid
      cases h
  | succ depth ih =>
      obtain ⟨depth', rfl⟩ : ∃ n, depth' = n + 1 := ⟨depth' - 1, by omega⟩
      cases v with
      | array id => exact nestedWithin_array.2 fun item hitem => ih (nestedWithin_array.1 h item hitem) (by omega)
      | _ => rfl

/-! ## Circles -/

theorem lt_size_of_mem_array {id : Nat} {item : Value} (h : item ∈ w.array id) : id < w.arrays.size := by
  by_contra hge
  rw [World.array, Array.getD_eq_getD_getElem?, Array.getElem?_eq_none (Nat.le_of_not_lt hge)] at h
  exact Array.not_mem_empty item h

/-- On a way down that does not end, one array comes twice. -/
theorem exists_circle {way : Nat → Nat} (hway : ∀ n, w.Nests (way (n + 1)) (way n)) :
    ∃ i, TransGen w.Nests (way i) (way i) := by
  obtain ⟨i, j, hne, hsame⟩ := Finite.exists_ne_map_eq_of_infinite
    fun n => (⟨way n, lt_size_of_mem_array (hway n)⟩ : Fin w.arrays.size)
  have heq : way i = way j := congrArg Fin.val hsame
  have hdown {m n : Nat} (hlt : m < n) : TransGen w.Nests (way n) (way m) :=
    (transGen_of_succ_of_gt (fun i j => w.Nests (way i) (way j)) (fun k _ => hway k) hlt).lift way fun _ _ h => h
  rcases Nat.lt_or_gt_of_ne hne with hlt | hlt
  · exact ⟨i, by simpa only [← heq] using hdown hlt⟩
  · exact ⟨j, by simpa only [heq] using hdown hlt⟩

theorem acc_of_not_circular {id : Nat} (h : ¬ w.Circular (.array id)) : Acc w.Nests id := by
  by_contra hacc
  obtain ⟨way, rfl, hway⟩ := not_acc_iff_exists_descending_chain.1 hacc
  obtain ⟨i, hcircle⟩ := exists_circle hway
  have hleads : ReflTransGen (fun i j => w.Nests (way i) (way j)) i 0 :=
    reflTransGen_of_succ_of_ge _ (fun k _ => hway k) (Nat.zero_le i)
  exact h (.array (hleads.lift way fun _ _ h => h) hcircle)

/-- Below an array that leads into a circle there is another one. -/
theorem Circular.exists_nests {id : Nat} (h : w.Circular (.array id)) :
    ∃ inner, w.Nests inner id ∧ w.Circular (.array inner) := by
  obtain ⟨hleads, hcircle⟩ := h
  rcases ReflTransGen.cases_tail hleads with rfl | ⟨next, hnext, hnests⟩
  · obtain ⟨next, hnext, hnests⟩ := TransGen.tail'_iff.1 hcircle
    exact ⟨next, hnests, .array hnext hcircle⟩
  · exact ⟨next, hnests, .array hnext hcircle⟩

theorem not_circular_of_nestedWithin (h : w.nestedWithin depth v = true) : ¬ w.Circular v := by
  induction depth generalizing v with
  | zero =>
      rintro ⟨-, -⟩
      cases h
  | succ depth ih =>
      intro hcircular
      obtain ⟨id, rfl⟩ : ∃ id, v = .array id := by
        cases hcircular
        exact ⟨_, rfl⟩
      obtain ⟨inner, hnests, hinner⟩ := hcircular.exists_nests
      exact ih (nestedWithin_array.1 h _ (Array.mem_toList_iff.2 hnests)) hinner

/-- What has a depth one by one has one together. -/
theorem exists_nestedWithin_all {items : List Value} (h : ∀ item ∈ items, ∃ depth, w.nestedWithin depth item = true) :
    ∃ depth, ∀ item ∈ items, w.nestedWithin depth item = true := by
  induction items with
  | nil => exact ⟨0, by simp⟩
  | cons item items ih =>
      obtain ⟨⟨depth, hdepth⟩, hothers⟩ := List.forall_mem_cons.1 h
      obtain ⟨depth', hdepth'⟩ := ih hothers
      refine ⟨max depth depth', List.forall_mem_cons.2 ⟨nestedWithin_mono hdepth (by omega), fun other hother => ?_⟩⟩
      exact nestedWithin_mono (hdepth' other hother) (by omega)

theorem exists_nestedWithin_of_acc {id : Nat} (h : Acc w.Nests id) :
    ∃ depth, w.nestedWithin depth (.array id) = true := by
  induction h with
  | intro id _ ih =>
      have hitems : ∀ item ∈ (w.array id).toList, ∃ depth, w.nestedWithin depth item = true := by
        intro item hitem
        cases item with
        | array inner => exact ih inner (Array.mem_toList_iff.1 hitem)
        | _ => exact ⟨0, rfl⟩
      obtain ⟨depth, hdepth⟩ := exists_nestedWithin_all hitems
      exact ⟨depth + 1, nestedWithin_array.2 hdepth⟩

/-- The values that have a depth are those that lead into no circle. -/
theorem not_circular_iff : ¬ w.Circular v ↔ ∃ depth, w.nestedWithin depth v = true := by
  constructor
  · intro h
    cases v with
    | array id => exact exists_nestedWithin_of_acc (acc_of_not_circular h)
    | _ => exact ⟨0, rfl⟩
  · rintro ⟨depth, h⟩
    exact not_circular_of_nestedWithin h

end World

/-! ## Going down -/

namespace Eval

variable {w : World} {depth : Nat} {v : Value} {α β : Type}

theorem bind_ne_overflow {r : Except Interrupt α} {f : α → Except Interrupt β} (hr : r ≠ .error .overflow)
    (hf : ∀ a, f a ≠ .error .overflow) : r >>= f ≠ .error .overflow := by
  cases r with
  | ok a => exact hf a
  | error e => exact fun h => hr (congrArg Except.error (Except.error.inj h))

theorem texts_ne_overflow {text : Value → Except Interrupt String} {vs : List Value}
    (h : ∀ v ∈ vs, text v ≠ .error .overflow) : texts text vs ≠ .error .overflow := by
  induction vs with
  | nil => exact nofun
  | cons v vs ih =>
      obtain ⟨hfirst, hothers⟩ := List.forall_mem_cons.1 h
      exact bind_ne_overflow hfirst fun first => bind_ne_overflow (ih hothers) fun others => nofun

theorem written_ne_overflow (text : Option String) : written text ≠ .error .overflow := by
  cases text <;> exact nofun

theorem objectText_ne_overflow (w : World) (object : Object) : objectText w object ≠ .error .overflow := by
  cases object with
  | zone | team => exact written_ne_overflow _
  | collection => exact nofun

theorem plainText_ne_overflow (w : World) (depth : Nat) (h : ∀ id, v ≠ .array id) :
    textWithin w depth v ≠ .error .overflow := by
  unfold textWithin
  split
  · exact nofun
  · exact nofun
  · exact nofun
  · exact written_ne_overflow _
  · exact nofun
  · exact nofun
  · exact objectText_ne_overflow w _
  · exact absurd rfl (h _)
  · exact absurd rfl (h _)

/-- Writing a value does not go deeper than its arrays are nested. -/
theorem textWithin_ne_overflow (h : w.nestedWithin depth v = true) : textWithin w depth v ≠ .error .overflow := by
  induction depth generalizing v with
  | zero =>
      cases v with
      | array id => cases h
      | _ => exact plainText_ne_overflow w 0 nofun
  | succ depth ih =>
      cases v with
      | array id =>
          refine bind_ne_overflow (texts_ne_overflow fun item hitem => ?_) fun items => nofun
          exact ih (World.nestedWithin_array.1 h item hitem)
      | _ => exact plainText_ne_overflow w (depth + 1) nofun

theorem exists_allEqual {equal : Value → Value → Except Interrupt Bool} {as bs : List Value}
    (h : ∀ a ∈ as, ∀ b, ∃ same, equal a b = .ok same) : ∃ same, allEqual equal as bs = .ok same := by
  induction as generalizing bs with
  | nil => cases bs <;> exact ⟨_, rfl⟩
  | cons a as ih =>
      cases bs with
      | nil => exact ⟨false, rfl⟩
      | cons b bs =>
          obtain ⟨hfirst, hothers⟩ := List.forall_mem_cons.1 h
          obtain ⟨same, hsame⟩ := hfirst b
          rw [allEqual, hsame]
          cases same with
          | true => exact ih hothers
          | false => exact ⟨false, rfl⟩

/-- Neither does comparing it with another one. -/
theorem exists_equalWithin (h : w.nestedWithin depth v = true) (other : Value) :
    ∃ same, equalWithin w depth v other = .ok same := by
  induction depth generalizing v other with
  | zero =>
      cases v with
      | array id => cases h
      | _ => cases other <;> exact ⟨_, rfl⟩
  | succ depth ih =>
      cases v with
      | array id =>
          cases other with
          | array id' =>
              unfold equalWithin
              split
              · exact exists_allEqual fun item hitem other => ih (World.nestedWithin_array.1 h item hitem) other
              · exact ⟨false, rfl⟩
          | _ => exact ⟨_, rfl⟩
      | _ => cases other <;> exact ⟨_, rfl⟩

/-- Nor does looking for it in a list go deeper than what the list holds. -/
theorem exists_anyEqual {room : Nat} {vs : List Value} (h : ∀ v ∈ vs, w.nestedWithin (room / 2) v = true)
    (item : Value) : ∃ found, anyEqual room w item vs = .ok found := by
  induction vs with
  | nil => exact ⟨false, rfl⟩
  | cons v vs ih =>
      obtain ⟨hfirst, hothers⟩ := List.forall_mem_cons.1 h
      obtain ⟨same, hsame⟩ := exists_equalWithin hfirst item
      rw [anyEqual, equal, hsame]
      cases same with
      | true => exact ⟨true, rfl⟩
      | false => exact ih hothers

end Eval
end SafariScript
