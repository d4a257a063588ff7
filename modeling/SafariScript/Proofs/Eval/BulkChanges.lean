import Mathlib.Algebra.BigOperators.Group.Finset.Basic
import SafariScript.Objects.Member
import SafariScript.Proofs.Step

/-!
# Adding and removing many Pokemon at once

Removing the names of an array takes them one after the other, each from where it first occurs in a list that is
changing all the while. What is left is the difference of the two lists (`removeEach_snd`), so of each name as many
occurrences go as both lists have, and nothing else depends on the order in which the names are given. Adding puts
the names at the end if there is room for all of them; removing them again then takes as many occurrences as were
added, which are the same ones if none of the names was there before (`bulk_changes_account`).
-/

namespace SafariScript

namespace World

/-- The owner of a collection is one of the objects that were made. -/
def Made (w : World) : Owner → Prop
  | .zone id => id < w.zones.size
  | .team id => id < w.teams.size

/-- There is room for so many more Pokemon. Only teams have a limit. -/
def HasRoom (w : World) (count : Nat) : Owner → Prop
  | .zone _ => True
  | .team id => ((w.team id).pokemon.length : Int) + count ≤ (w.team id).maxSize

/-- An array has these texts as its elements. -/
def Texts (w : World) (id : Nat) (names : List String) : Prop :=
  (w.array id).toList = names.map Value.text

variable {w : World} {owner : Owner}

theorem Made.pokemon_modifyPokemon (h : w.Made owner) (change : List String → List String) :
    (w.modifyPokemon owner change).pokemon owner = change (w.pokemon owner) := by
  cases owner with
  | zone id =>
      have hid : id < w.zones.size := h
      simp [World.modifyPokemon, modifyZone, pokemon, zone, hid, Array.getElem_modify_self]
  | team id =>
      have hid : id < w.teams.size := h
      simp [World.modifyPokemon, modifyTeam, pokemon, team, hid, Array.getElem_modify_self]

theorem Made.modifyPokemon (h : w.Made owner) (change : List String → List String) :
    (w.modifyPokemon owner change).Made owner := by
  cases owner with
  | zone id =>
      show id < (w.zones.modify id _).size
      rw [Array.size_modify]
      exact h
  | team id =>
      show id < (w.teams.modify id _).size
      rw [Array.size_modify]
      exact h

theorem Texts.modifyPokemon {id : Nat} {names : List String} (h : w.Texts id names) (owner : Owner)
    (change : List String → List String) : (w.modifyPokemon owner change).Texts id names := by
  cases owner <;> exact h

end World

namespace Objects

open Eval

/-! ## Removing from a list -/

theorem removeEach_snd (names list : List String) : (removeEach names list).2 = list.diff names := by
  fun_induction removeEach names list with
  | case1 list => rfl
  | case2 name names list hmem removed left hremove ih =>
      rw [hremove] at ih
      rw [List.diff_cons]
      exact ih
  | case3 name names list hmem ih =>
      have herase : list.erase name = list := List.erase_of_not_mem (by simpa using hmem)
      rw [List.diff_cons, herase]
      exact ih

/-- What is removed and what is left is all that was there. -/
theorem removeEach_fst (names list : List String) :
    (removeEach names list).1 + (removeEach names list).2.length = list.length := by
  fun_induction removeEach names list with
  | case1 list => simp
  | case2 name names list hmem removed left hremove ih =>
      rw [hremove] at ih
      have hname : name ∈ list := by simpa using hmem
      have hlength := List.length_erase_of_mem hname
      have hpos := List.length_pos_of_mem hname
      show removed + 1 + left.length = list.length
      dsimp only at ih
      omega
  | case3 name names list hmem ih => exact ih

theorem count_removeEach (names list : List String) (name : String) :
    (removeEach names list).2.count name = list.count name - min (list.count name) (names.count name) := by
  rw [removeEach_snd, List.count_diff]
  omega

/-- As many occurrences of each name are removed as both lists have. -/
theorem removeEach_fst_eq_sum (names list : List String) :
    (removeEach names list).1 = ∑ name ∈ (list ++ names).toFinset, min (list.count name) (names.count name) := by
  have hsum {some : List String} (hsome : some ⊆ list) :
      ∑ name ∈ (list ++ names).toFinset, some.count name = some.length := by
    have hmem : ∀ name ∈ (some : Multiset String), name ∈ (list ++ names).toFinset := by
      intro name hname
      simp [hsome (Multiset.mem_coe.1 hname)]
    simpa using Multiset.sum_count_eq_card hmem
  have hleft : (removeEach names list).2 ⊆ list := by
    rw [removeEach_snd]
    exact List.diff_subset list names
  have hsplit : ∀ name ∈ (list ++ names).toFinset, list.count name =
      min (list.count name) (names.count name) + (removeEach names list).2.count name := by
    intro name _
    rw [count_removeEach]
    omega
  have htotal := Finset.sum_congr rfl hsplit
  rw [Finset.sum_add_distrib, hsum (List.Subset.refl list), hsum hleft] at htotal
  have hlength := removeEach_fst names list
  omega

/-- Names that were put at the end of a list which has none of them are found there. -/
theorem diff_append_of_not_mem {names list : List String} (h : ∀ name ∈ names, name ∉ list) :
    (list ++ names).diff names = list := by
  induction names with
  | nil => simp
  | cons name names ih =>
      obtain ⟨hname, hnames⟩ := List.forall_mem_cons.1 h
      rw [List.diff_cons, List.erase_append_right _ hname, List.erase_cons_head]
      exact ih hnames

/-- A name is found as often as it was put there, if not at the same places. -/
theorem diff_append_perm (names list : List String) : ((list ++ names).diff names).Perm list := by
  rw [List.perm_iff_count]
  intro name
  rw [List.count_diff, List.count_append]
  omega

theorem removeEach_fst_append (names list : List String) : (removeEach names (list ++ names)).1 = names.length := by
  have hlength := removeEach_fst names (list ++ names)
  have hleft := (diff_append_perm names list).length_eq
  rw [removeEach_snd, hleft, List.length_append] at hlength
  omega

/-! ## The two methods -/

variable {w : World} {owner : Owner} {id : Nat} {names : List String}

theorem mapM_stringArg (method : String) (place : Word) (names : List String) (w : World) :
    (names.map Value.text).mapM (stringArg method place) w = .ok names w := by
  induction names with
  | nil => rfl
  | cons name names ih =>
      rw [List.map_cons, List.mapM_cons, bind_of_ok (rfl : stringArg method place (.text name) w = .ok name w),
        bind_of_ok ih]
      rfl

theorem namesArg_texts (h : w.Texts id names) (method : String) (place : Word) :
    namesArg method place (.array id) w = .ok names w := by
  show ((w.array id).toList.mapM (stringArg method place)) w = _
  rw [h]
  exact mapM_stringArg method place names w

theorem makeRoom_of_hasRoom {count : Nat} (h : w.HasRoom count owner) (place : Word) :
    makeRoom owner count place w = .ok () w := by
  cases owner with
  | zone id => rfl
  | team id =>
      have hroom : ¬ (w.team id).maxSize < (w.pokemon (.team id)).length + count := Int.not_lt.2 h
      simp only [makeRoom, bind_apply, get_apply, World.capacity?]
      rw [if_neg hroom]
      rfl

theorem makeRoom_of_not_hasRoom {count : Nat} (h : ¬ w.HasRoom count owner) (place : Word) :
    ∃ e, makeRoom owner count place w = .error e w := by
  cases owner with
  | zone id => exact absurd trivial h
  | team id =>
      have hroom : (w.team id).maxSize < (w.pokemon (.team id)).length + count := Int.lt_of_not_ge h
      simp only [makeRoom, bind_apply, get_apply, World.capacity?]
      rw [if_pos hroom]
      exact ⟨_, rfl⟩

/-- Remove the names in an array from a collection. -/
def removeAll (owner : Owner) (id : Nat) (place : Word) : Eval Value :=
  callMethod (.collection owner) "removeAll" [.array id] place

/-- Add the names in an array to a collection. -/
def addAll (owner : Owner) (id : Nat) (place : Word) : Eval Value :=
  callMethod (.collection owner) "addAll" [.array id] place

theorem removeAll_apply (h : w.Texts id names) (owner : Owner) (place : Word) :
    removeAll owner id place w = .ok (.int (removeEach names (w.pokemon owner)).1)
      (w.modifyPokemon owner fun _ => (removeEach names (w.pokemon owner)).2) := by
  show (namesArg "removeAll" place (.array id) >>= _) w = _
  rw [bind_of_ok (namesArg_texts h "removeAll" place)]
  rfl

theorem addAll_of_hasRoom (h : w.Texts id names) (hroom : w.HasRoom names.length owner) (place : Word) :
    addAll owner id place w = .ok .null (w.modifyPokemon owner (· ++ names)) := by
  show (namesArg "addAll" place (.array id) >>= _) w = _
  rw [bind_of_ok (namesArg_texts h "addAll" place), bind_of_ok (makeRoom_of_hasRoom hroom place)]
  rfl

theorem addAll_of_not_hasRoom (h : w.Texts id names) (hroom : ¬ w.HasRoom names.length owner) (place : Word) :
    ∃ e, addAll owner id place w = .error e w := by
  obtain ⟨e, he⟩ := makeRoom_of_not_hasRoom hroom place
  refine ⟨e, ?_⟩
  show (namesArg "addAll" place (.array id) >>= _) w = _
  rw [bind_of_ok (namesArg_texts h "addAll" place)]
  exact bind_eq_error.2 (.inl he)

/-- What removing some names from a list leaves of it and how many it removes. -/
structure Removal (list names left : List String) (removed : Int) : Prop where
  removed : removed = (∑ name ∈ (list ++ names).toFinset, min (list.count name) (names.count name) : Nat)
  sublist : left.Sublist list
  count : ∀ name, left.count name = list.count name - min (list.count name) (names.count name)

theorem removal_removeEach (names list : List String) :
    Removal list names (removeEach names list).2 (removeEach names list).1 where
  removed := congrArg Nat.cast (removeEach_fst_eq_sum names list)
  sublist := by
    rw [removeEach_snd]
    exact List.diff_sublist list names
  count := count_removeEach names list

/-- In what order the names are given matters neither for how many are removed nor for how many are left. -/
theorem Removal.of_perm {list names others left left' : List String} {removed removed' : Int}
    (h : Removal list names left removed) (h' : Removal list others left' removed') (hperm : others.Perm names) :
    removed' = removed ∧ left'.Perm left := by
  constructor
  · have hnames : (list ++ others).toFinset = (list ++ names).toFinset :=
      List.toFinset_eq_of_perm _ _ (hperm.append_left list)
    rw [h.removed, h'.removed, hnames]
    simp only [hperm.count_eq]
  · rw [List.perm_iff_count]
    intro name
    rw [h.count, h'.count, hperm.count_eq]

/-- Removing the names of an array from a collection removes of each name as many occurrences as the collection and the
array have, in whatever order the array has them, and keeps the order of the others. Adding them succeeds if there is
room, and then they stand behind all others. Removing what was added removes as many as were added, and leaves as many
of each name as there were; and it leaves the very same list if none of the names was in it. -/
theorem bulk_changes_account (w : World) (owner : Owner) (howner : w.Made owner) (id : Nat) (names : List String)
    (hnames : w.Texts id names) (place : Word) :
    (∃ removed w', removeAll owner id place w = .ok (.int removed) w' ∧
      Removal (w.pokemon owner) names (w'.pokemon owner) removed ∧
      ∀ id' others, w.Texts id' others → others.Perm names →
        ∃ w'', removeAll owner id' place w = .ok (.int removed) w'' ∧
          (w''.pokemon owner).Perm (w'.pokemon owner)) ∧
    ((∃ v w', addAll owner id place w = .ok v w') ↔ w.HasRoom names.length owner) ∧
    ∀ v w', addAll owner id place w = .ok v w' →
      w'.pokemon owner = w.pokemon owner ++ names ∧
      ∃ w'', removeAll owner id place w' = .ok (.int names.length) w'' ∧
        (w''.pokemon owner).Perm (w.pokemon owner) ∧
        ((∀ name ∈ names, name ∉ w.pokemon owner) → w''.pokemon owner = w.pokemon owner) := by
  refine ⟨⟨_, _, removeAll_apply hnames owner place, ?_, ?_⟩, ?_, ?_⟩
  · rw [howner.pokemon_modifyPokemon]
    exact removal_removeEach names _
  · intro id' others hothers hperm
    obtain ⟨hremoved, hleft⟩ :=
      (removal_removeEach names (w.pokemon owner)).of_perm (removal_removeEach others (w.pokemon owner)) hperm
    refine ⟨_, by rw [removeAll_apply hothers owner place, hremoved], ?_⟩
    rw [howner.pokemon_modifyPokemon, howner.pokemon_modifyPokemon]
    exact hleft
  · constructor
    · rintro ⟨v, w', hok⟩
      by_contra hroom
      obtain ⟨e, herror⟩ := addAll_of_not_hasRoom hnames hroom place
      rw [herror] at hok
      cases hok
    · intro hroom
      exact ⟨_, _, addAll_of_hasRoom hnames hroom place⟩
  · intro v w' hok
    by_cases hroom : w.HasRoom names.length owner
    · rw [addAll_of_hasRoom hnames hroom place] at hok
      cases hok
      have hadded := howner.pokemon_modifyPokemon (· ++ names)
      have hremoved := removeAll_apply (hnames.modifyPokemon owner (· ++ names)) owner place
      rw [hadded, removeEach_fst_append, removeEach_snd] at hremoved
      refine ⟨hadded, _, hremoved, ?_, ?_⟩
      · rw [(howner.modifyPokemon _).pokemon_modifyPokemon]
        exact diff_append_perm names (w.pokemon owner)
      · intro hfresh
        rw [(howner.modifyPokemon _).pokemon_modifyPokemon]
        exact diff_append_of_not_mem hfresh
    · obtain ⟨e, herror⟩ := addAll_of_not_hasRoom hnames hroom place
      rw [herror] at hok
      cases hok

/-- A team has room for just three more. It has one name as often as the array and another one more often; a second array
has the names in another order. -/
theorem bulk_changes_account_repeated :
    let w : World := { World.initial (.ofScript []) .unknown [] with
      teams := #[⟨"Ash", 8, ["Mew", "Eevee", "Mew", "Onix", "Eevee"]⟩]
      arrays := #[#[.text "Eevee", .text "Mew", .text "Eevee"], #[.text "Mew", .text "Eevee", .text "Eevee"]] }
    let names := ["Eevee", "Mew", "Eevee"]
    w.Made (.team 0) ∧ w.Texts 0 names ∧
      ∃ w' w'', removeAll (.team 0) 0 ⟨"removeAll", 1⟩ w = .ok (.int 3) w' ∧
        Removal (w.pokemon (.team 0)) names (w'.pokemon (.team 0)) 3 ∧ w'.pokemon (.team 0) = ["Mew", "Onix"] ∧
        removeAll (.team 0) 1 ⟨"removeAll", 1⟩ w = .ok (.int 3) w'' ∧
        (w''.pokemon (.team 0)).Perm (w'.pokemon (.team 0)) ∧
        ∃ v w₃, addAll (.team 0) 0 ⟨"removeAll", 1⟩ w = .ok v w₃ := by
  intro w names
  have hmade : w.Made (.team 0) := Nat.zero_lt_one
  have hnames : w.Texts 0 names := rfl
  have hroom : w.HasRoom 3 (.team 0) := by
    show (5 : Int) + 3 ≤ 8
    decide
  obtain ⟨⟨removed, w', hok, hremoval, horder⟩, hadds, -⟩ :=
    bulk_changes_account w (.team 0) hmade 0 names hnames ⟨"removeAll", 1⟩
  obtain ⟨w'', hok', hperm⟩ := horder 1 ["Mew", "Eevee", "Eevee"] rfl (by decide)
  cases hok
  exact ⟨hmade, hnames, _, w'', rfl, hremoval, rfl, hok', hperm, hadds.2 hroom⟩

end Objects
end SafariScript
