import Mathlib.Data.List.Perm.Subperm
import Mathlib.Logic.Relation
import SafariScript.Eval.Basic
import SafariScript.Proofs.Step

/-!
# Which reads a write changes

Scopes share the scopes around them, so what is written through one scope may be seen through many others. Looking a
name up from a scope outwards passes scopes that do not declare it (`Route`) and stops at the first one that does
(`Innermost`). The search looks at no more scopes than there are, which is enough: a route to a declaration never
passes a scope twice, since what is found depends only on where the search stands (`Route.nodup`,
`resolve?_eq_some_iff`).

A write changes no parent, and only one declaration. Assigning changes no route at all; declaring a name puts an end
to the routes of that name through the scope. So the reads that a write changes can be told from the routes before it
(`reads_after_writes`).
-/

namespace SafariScript

namespace Scope

variable {α : Type}

theorem local?_insert (scope : Scope α) (name : String) (value : α) (other : String) :
    (scope.insert name value).local? other = if other = name then some value else scope.local? other := by
  unfold insert local?
  rw [List.lookup_cons]
  by_cases h : other = name
  · simp [h]
  · have hne : (other == name) = false := beq_false_of_ne h
    simp [h, hne]

theorem local?_replace (scope : Scope α) (name : String) (value : α) (other : String) :
    (scope.replace name value).local? other =
      if other = name then (scope.local? other).map fun _ => value else scope.local? other := by
  unfold replace local?
  induction scope.bindings with
  | nil => simp
  | cons b bindings ih =>
      rw [List.map_cons, List.lookup_cons, List.lookup_cons, ih]
      by_cases hb : other = b.1
      · subst hb
        by_cases hname : b.1 = name <;> simp [hname]
      · have hne : (other == b.1) = false := beq_false_of_ne hb
        by_cases hname : b.1 = name
        · rw [if_pos (beq_iff_eq.2 hname)]
          simp only [hne]
        · rw [if_neg (by simpa using hname)]
          simp only [hne]

end Scope

namespace Scopes

variable {α : Type} {ss ss' : Scopes α} {name other : String} {s t inner outer : Nat} {value : α}

/-- A scope itself declares a name. -/
def Declares (ss : Scopes α) (scope : Nat) (name : String) : Prop :=
  (ss.local? scope name).isSome = true

/-- The chain of a scope: itself, the scope around it, and so on outwards. -/
def OnChain (ss : Scopes α) : Nat → Nat → Prop :=
  Relation.ReflTransGen fun inner outer => ss.parent? inner = some outer

/-- Going outwards from a scope to another one past the scopes of a list, none of which declares a name. -/
inductive Route (ss : Scopes α) (name : String) : Nat → List Nat → Nat → Prop where
  | here (s : Nat) : Route ss name s [] s
  | outwards {t outer s : Nat} {passed : List Nat} (hidden : ¬ ss.Declares t name)
      (parent : ss.parent? t = some outer) (rest : Route ss name outer passed s) : Route ss name t (t :: passed) s

/-- The chain of a scope comes to another one before any other scope that declares a name. -/
def Uncovered (ss : Scopes α) (name : String) (t s : Nat) : Prop :=
  ∃ passed, ss.Route name t passed s

/-- The innermost scope that declares a name, seen from a scope. -/
def Innermost (ss : Scopes α) (name : String) (t s : Nat) : Prop :=
  ss.Uncovered name t s ∧ ss.Declares s name

/-! ## The search along a chain -/

theorem lt_size_of_declares (h : ss.Declares s name) : s < ss.all.size := by
  unfold Declares local? at h
  by_contra hs
  rw [Array.getElem?_eq_none (by omega)] at h
  cases h

theorem lt_size_of_parent? (h : ss.parent? s = some outer) : s < ss.all.size := by
  unfold parent? at h
  by_contra hs
  rw [Array.getElem?_eq_none (by omega)] at h
  cases h

theorem innermost_here (h : ss.Declares s name) : ss.Innermost name s s :=
  ⟨⟨[], .here s⟩, h⟩

theorem Uncovered.outwards (hidden : ¬ ss.Declares t name) (hparent : ss.parent? t = some outer)
    (h : ss.Uncovered name outer s) : ss.Uncovered name t s := by
  obtain ⟨passed, hroute⟩ := h
  exact ⟨t :: passed, .outwards hidden hparent hroute⟩

theorem Route.onChain {passed : List Nat} (h : ss.Route name t passed s) : ss.OnChain t s := by
  induction h with
  | here s => exact .refl
  | outwards _ hparent _ ih => exact ih.head hparent

/-- What a search finds depends only on where it starts. -/
theorem Route.unique {passed passed' : List Nat} {s' : Nat} (h : ss.Route name t passed s)
    (hs : ss.Declares s name) (h' : ss.Route name t passed' s') (hs' : ss.Declares s' name) :
    passed = passed' ∧ s = s' := by
  induction h generalizing passed' with
  | here s =>
      cases h' with
      | here => exact ⟨rfl, rfl⟩
      | outwards hidden => exact absurd hs hidden
  | outwards hidden hparent _ ih =>
      cases h' with
      | here => exact absurd hs' hidden
      | outwards _ hparent' hrest =>
          obtain rfl := Option.some.inj (hparent.symm.trans hparent')
          obtain ⟨rfl, rfl⟩ := ih hs hrest
          exact ⟨rfl, rfl⟩

/-- A route can be taken up at every scope that it passes. -/
theorem Route.from_passed {passed : List Nat} (h : ss.Route name t passed s) (hinner : inner ∈ passed) :
    ∃ front rest, passed = front ++ rest ∧ ss.Route name inner rest s := by
  induction h with
  | here => cases hinner
  | @outwards t outer s passed hidden hparent hrest ih =>
      rcases List.mem_cons.1 hinner with rfl | hinner
      · exact ⟨[], _, rfl, .outwards hidden hparent hrest⟩
      · obtain ⟨front, rest, rfl, hroute⟩ := ih hinner
        exact ⟨t :: front, rest, rfl, hroute⟩

/-- A route to a declaration passes no scope twice. -/
theorem Route.nodup {passed : List Nat} (h : ss.Route name t passed s) (hs : ss.Declares s name) :
    (passed ++ [s]).Nodup := by
  induction h with
  | here s => simp
  | @outwards t outer s passed hidden hparent hrest ih =>
      refine List.nodup_cons.2 ⟨fun ht => ?_, ih hs⟩
      rcases List.mem_append.1 ht with ht | ht
      · -- from the second visit on, the route would have to be as long as from the first
        obtain ⟨front, rest, rfl, hagain⟩ := hrest.from_passed ht
        have hsame := (Route.unique (.outwards hidden hparent hrest) hs hagain hs).1
        have hlength := congrArg List.length hsame
        rw [List.length_cons, List.length_append] at hlength
        omega
      · obtain rfl := List.mem_singleton.1 ht
        exact hidden hs

theorem Route.lt_size {passed : List Nat} (h : ss.Route name t passed s) (hinner : inner ∈ passed) :
    inner < ss.all.size := by
  induction h with
  | here => cases hinner
  | outwards _ hparent _ ih =>
      rcases List.mem_cons.1 hinner with rfl | hinner
      · exact lt_size_of_parent? hparent
      · exact ih hinner

/-- A route to a declaration passes fewer scopes than there are. -/
theorem Route.length_lt {passed : List Nat} (h : ss.Route name t passed s) (hs : ss.Declares s name) :
    passed.length < ss.all.size := by
  have hsubset : passed ++ [s] ⊆ List.range ss.all.size := by
    intro i hi
    rw [List.mem_range]
    rcases List.mem_append.1 hi with hi | hi
    · exact h.lt_size hi
    · obtain rfl := List.mem_singleton.1 hi
      exact lt_size_of_declares hs
  have hlength := (List.subperm_of_subset (h.nodup hs) hsubset).length_le
  rw [List.length_append, List.length_range] at hlength
  exact hlength

theorem innermost_of_resolveWithin {fuel : Nat} (h : ss.resolveWithin name fuel t = some s) :
    ss.Innermost name t s := by
  induction fuel generalizing t with
  | zero => cases h
  | succ fuel ih =>
      rw [resolveWithin] at h
      split at h
      · next hdeclares =>
        cases h
        exact innermost_here hdeclares
      · next hidden =>
        split at h
        · next outer hparent => exact ⟨(ih h).1.outwards hidden hparent, (ih h).2⟩
        · cases h

theorem Route.resolveWithin {passed : List Nat} (h : ss.Route name t passed s) (hs : ss.Declares s name) {fuel : Nat}
    (hfuel : passed.length < fuel) : ss.resolveWithin name fuel t = some s := by
  induction h generalizing fuel with
  | here s =>
      obtain ⟨fuel, rfl⟩ : ∃ n, fuel = n + 1 := ⟨fuel - 1, by simp at hfuel; omega⟩
      exact if_pos hs
  | @outwards t outer s passed hidden hparent _ ih =>
      rw [List.length_cons] at hfuel
      obtain ⟨fuel, rfl⟩ : ∃ n, fuel = n + 1 := ⟨fuel - 1, by omega⟩
      have hhidden : ¬ (ss.local? t name).isSome = true := hidden
      rw [Scopes.resolveWithin, if_neg hhidden, hparent]
      exact ih hs (by omega)

/-- The search finds exactly the innermost scope that declares the name. -/
theorem resolve?_eq_some_iff : ss.resolve? t name = some s ↔ ss.Innermost name t s := by
  refine ⟨innermost_of_resolveWithin, ?_⟩
  rintro ⟨⟨passed, hroute⟩, hs⟩
  exact hroute.resolveWithin hs (hroute.length_lt hs)

/-- Somewhere on the chain a name is declared exactly if there is an innermost scope that declares it. -/
theorem exists_onChain_iff : (∃ s, ss.OnChain t s ∧ ss.Declares s name) ↔ ∃ s, ss.Innermost name t s := by
  constructor
  · rintro ⟨s, hchain, hs⟩
    induction hchain using Relation.ReflTransGen.head_induction_on with
    | refl => exact ⟨s, innermost_here hs⟩
    | @head t outer hparent _ ih =>
        by_cases ht : ss.Declares t name
        · exact ⟨t, innermost_here ht⟩
        · obtain ⟨s', huncovered, hs'⟩ := ih
          exact ⟨s', huncovered.outwards ht hparent, hs'⟩
  · rintro ⟨s, ⟨_, hroute⟩, hs⟩
    exact ⟨s, hroute.onChain, hs⟩

/-! ## One write -/

theorem local?_modify (ss : Scopes α) (s : Nat) (change : Scope α → Scope α) (t : Nat) (other : String) :
    (ss.modify s change).local? t other =
      if t = s then ss.all[s]?.bind fun scope => (change scope).local? other else ss.local? t other := by
  unfold local? modify
  rw [Array.getElem?_modify]
  by_cases h : s = t
  · subst h
    rw [if_pos rfl, if_pos rfl, Option.bind_map]
    rfl
  · rw [if_neg h, if_neg (Ne.symm h)]

/-- A write leaves the chains as they are. -/
theorem parent?_modify (ss : Scopes α) (s : Nat) (change : Scope α → Scope α)
    (hchange : ∀ scope, (change scope).parent = scope.parent) (t : Nat) :
    (ss.modify s change).parent? t = ss.parent? t := by
  unfold parent? modify
  rw [Array.getElem?_modify]
  split
  · rw [Option.bind_map]
    exact congrArg _ (funext hchange)
  · rfl

theorem local?_insert (hs : s < ss.all.size) (name : String) (value : α) (t : Nat) (other : String) :
    (ss.insert s name value).local? t other =
      if t = s ∧ other = name then some value else ss.local? t other := by
  rw [insert, local?_modify]
  by_cases h : t = s
  · subst h
    rw [Array.getElem?_eq_getElem hs, if_pos rfl, Option.bind_some, Scope.local?_insert]
    simp [local?, Array.getElem?_eq_getElem hs]
  · simp [h]

theorem local?_replace (ss : Scopes α) (s : Nat) (name : String) (value : α) (t : Nat) (other : String) :
    (ss.replace s name value).local? t other =
      if t = s ∧ other = name then (ss.local? t other).map fun _ => value else ss.local? t other := by
  rw [replace, local?_modify]
  by_cases h : t = s
  · subst h
    simp only [Scope.local?_replace, local?, true_and, if_true]
    cases ss.all[t]? <;> simp
  · simp [h]

theorem declares_insert (hs : s < ss.all.size) :
    (ss.insert s name value).Declares t other ↔ t = s ∧ other = name ∨ ss.Declares t other := by
  unfold Declares
  rw [local?_insert hs]
  by_cases h : t = s ∧ other = name <;> simp [h]

theorem declares_replace : (ss.replace s name value).Declares t other ↔ ss.Declares t other := by
  unfold Declares
  rw [local?_replace]
  split
  · rw [Option.isSome_map]
  · rfl

/-- A route remains where the parents are the same and nothing on it is declared anew. -/
theorem Route.transfer (hparents : ∀ t, ss'.parent? t = ss.parent? t) {passed : List Nat}
    (h : ss.Route name t passed s) (hpassed : ∀ i ∈ passed, ss'.Declares i name → ss.Declares i name) :
    ss'.Route name t passed s := by
  induction h with
  | here s => exact .here s
  | outwards hidden hparent _ ih =>
      obtain ⟨hfirst, hothers⟩ := List.forall_mem_cons.1 hpassed
      exact .outwards (fun ht => hidden (hfirst ht)) ((hparents _).trans hparent) (ih hothers)

/-! ## Assigning -/

theorem innermost_replace : (ss.replace s name value).Innermost other t inner ↔ ss.Innermost other t inner := by
  have hparents (t : Nat) : (ss.replace s name value).parent? t = ss.parent? t :=
    ss.parent?_modify s (·.replace name value) (fun _ => rfl) t
  constructor
  · rintro ⟨⟨passed, hroute⟩, hinner⟩
    refine ⟨⟨passed, hroute.transfer (fun t => (hparents t).symm) fun _ _ => declares_replace.2⟩, ?_⟩
    exact declares_replace.1 hinner
  · rintro ⟨⟨passed, hroute⟩, hinner⟩
    refine ⟨⟨passed, hroute.transfer hparents fun _ _ => declares_replace.1⟩, ?_⟩
    exact declares_replace.2 hinner

theorem resolve?_replace : (ss.replace s name value).resolve? t other = ss.resolve? t other := by
  refine Option.ext fun inner => ?_
  rw [resolve?_eq_some_iff, resolve?_eq_some_iff, innermost_replace]

/-- What is assigned is seen from everywhere where the name means the same scope. -/
theorem get?_replace_self (h : ss.Innermost name t s) : (ss.replace s name value).get? t name = some value := by
  obtain ⟨old, hold⟩ := Option.isSome_iff_exists.1 h.2
  rw [get?, resolve?_replace, resolve?_eq_some_iff.2 h, Option.bind_some, local?_replace, if_pos ⟨rfl, rfl⟩, hold]
  rfl

theorem get?_replace_other (h : ¬ (other = name ∧ ss.Innermost name t s)) :
    (ss.replace s name value).get? t other = ss.get? t other := by
  rw [get?, get?, resolve?_replace]
  cases hresolve : ss.resolve? t other with
  | none => rfl
  | some inner =>
      rw [Option.bind_some, Option.bind_some, local?_replace, if_neg]
      rintro ⟨rfl, rfl⟩
      exact h ⟨rfl, resolve?_eq_some_iff.1 hresolve⟩

/-! ## Declaring -/

theorem parent?_insert : (ss.insert s name value).parent? t = ss.parent? t :=
  ss.parent?_modify s (·.insert name value) (fun _ => rfl) t

theorem innermost_insert_self (hs : s < ss.all.size) (h : ss.Uncovered name t s) :
    (ss.insert s name value).Innermost name t s := by
  have hdeclares : (ss.insert s name value).Declares s name := (declares_insert hs).2 (Or.inl ⟨rfl, rfl⟩)
  obtain ⟨passed, hroute⟩ := h
  induction hroute with
  | here s => exact innermost_here hdeclares
  | @outwards t outer s passed hidden hparent _ ih =>
      by_cases ht : t = s
      · subst ht
        exact innermost_here hdeclares
      · refine ⟨(ih hs hdeclares).1.outwards (fun hdeclared => ?_) (parent?_insert.trans hparent), hdeclares⟩
        rcases (declares_insert hs).1 hdeclared with ⟨rfl, -⟩ | hold
        · exact ht rfl
        · exact hidden hold

theorem innermost_insert_other (hs : s < ss.all.size) (h : ¬ (other = name ∧ ss.Uncovered name t s)) :
    (ss.insert s name value).Innermost other t inner ↔ ss.Innermost other t inner := by
  constructor
  · rintro ⟨⟨passed, hroute⟩, hinner⟩
    have hroute' : ss.Route other t passed inner :=
      hroute.transfer (fun _ => parent?_insert.symm) fun _ _ hold => (declares_insert hs).2 (Or.inr hold)
    refine ⟨⟨passed, hroute'⟩, ?_⟩
    rcases (declares_insert hs).1 hinner with ⟨rfl, rfl⟩ | hold
    · exact absurd ⟨rfl, passed, hroute'⟩ h
    · exact hold
  · rintro ⟨⟨passed, hroute⟩, hinner⟩
    refine ⟨⟨passed, ?_⟩, (declares_insert hs).2 (Or.inr hinner)⟩
    -- the new declaration is not on the way, or the way would lead to it
    induction hroute with
    | here inner => exact .here inner
    | @outwards t outer inner passed hidden hparent _ ih =>
        refine .outwards (fun hdeclared => ?_) (parent?_insert.trans hparent) (ih (fun houter => ?_) hinner)
        · rcases (declares_insert hs).1 hdeclared with ⟨rfl, rfl⟩ | hold
          · exact h ⟨rfl, [], .here t⟩
          · exact hidden hold
        · obtain ⟨rfl, huncovered⟩ := houter
          exact h ⟨rfl, huncovered.outwards hidden hparent⟩

/-- What is declared is seen from everywhere where the chain comes to the scope before another declaration. -/
theorem get?_insert_self (hs : s < ss.all.size) (h : ss.Uncovered name t s) :
    (ss.insert s name value).get? t name = some value := by
  rw [get?, resolve?_eq_some_iff.2 (innermost_insert_self hs h), Option.bind_some, local?_insert hs, if_pos ⟨rfl, rfl⟩]

theorem get?_insert_other (hs : s < ss.all.size) (h : ¬ (other = name ∧ ss.Uncovered name t s)) :
    (ss.insert s name value).get? t other = ss.get? t other := by
  have hresolve : (ss.insert s name value).resolve? t other = ss.resolve? t other := by
    refine Option.ext fun inner => ?_
    rw [resolve?_eq_some_iff, resolve?_eq_some_iff, innermost_insert_other hs h]
  rw [get?, get?, hresolve]
  cases hinner : ss.resolve? t other with
  | none => rfl
  | some inner =>
      rw [Option.bind_some, Option.bind_some, local?_insert hs, if_neg]
      rintro ⟨rfl, rfl⟩
      exact h ⟨rfl, (resolve?_eq_some_iff.1 hinner).1⟩

/-! ## Writes and reads -/

/-- Reading after a write: where the condition holds the value that was written is read, and everywhere else every
read gives or fails as before. -/
def ReadsAs (ss' ss : Scopes α) (value : α) (changed : Nat → String → Prop) : Prop :=
  ∀ (t : Nat) (y : Word), (changed t y.text → ss'.get t y = .ok value) ∧ (¬ changed t y.text → ss'.get t y = ss.get t y)

theorem readsAs_of_get? {changed : Nat → String → Prop} (hself : ∀ t y, changed t y → ss'.get? t y = some value)
    (hother : ∀ t y, ¬ changed t y → ss'.get? t y = ss.get? t y) : ReadsAs ss' ss value changed := by
  intro t y
  constructor
  · intro h
    rw [get, hself t y.text h]
  · intro h
    rw [get, get, hother t y.text h]

/-- Assigning goes through exactly if the name is declared somewhere on the chain. -/
theorem assign_cases (ss : Scopes α) (s : Nat) (x : Word) (value : α) :
    (∃ inner, ss.Innermost x.text s inner ∧ ss.assign s x value = .ok (ss.replace inner x.text value)) ∨
    (¬ (∃ inner, ss.Innermost x.text s inner) ∧
      ss.assign s x value = .error ⟨.assignedUndefined x.text, some x⟩) := by
  unfold assign owner
  cases hresolve : ss.resolve? s x.text with
  | some inner => exact Or.inl ⟨inner, resolve?_eq_some_iff.1 hresolve, rfl⟩
  | none =>
      refine Or.inr ⟨?_, rfl⟩
      rintro ⟨inner, hinner⟩
      cases hresolve.symm.trans (resolve?_eq_some_iff.2 hinner)

/-- Declaring goes through exactly if the scope itself does not declare the name. -/
theorem define_cases (ss : Scopes α) (s : Nat) (x : Word) (value : α) :
    (¬ ss.Declares s x.text ∧ ss.define s x value = .ok (ss.insert s x.text value)) ∨
    (ss.Declares s x.text ∧ ss.define s x value = .error ⟨.redeclared x.text, some x⟩) := by
  unfold define vacant
  by_cases h : (ss.local? s x.text).isSome = true
  · exact Or.inr ⟨h, by rw [if_pos h]; rfl⟩
  · exact Or.inl ⟨h, by rw [if_neg h]; rfl⟩

end Scopes

/-! ## Writes of the interpreter -/

/-- What a write leaves: the new scopes, or after a fault the world as it was. -/
def World.written (w : World) : Except Fault (Scopes Value) → EStateM.Result Interrupt World Unit
  | .ok scopes => .ok () { w with scopes }
  | .error fault => .error (.fault fault) w

namespace Eval

theorem assign_apply (x : Word) (v : Value) (w : World) :
    assign x v w = w.written (w.scopes.assign w.scope x v) := by
  unfold assign Scopes.assign
  rw [bind_of_ok (get_apply w), bind_apply]
  cases w.scopes.owner w.scope x <;> rfl

theorem declare_apply (x : Word) (v : Value) (w : World) :
    declare x v w = w.written (w.scopes.define w.scope x v) := by
  unfold declare Scopes.define
  rw [bind_of_ok (get_apply w), bind_apply]
  cases w.scopes.vacant w.scope x <;> rfl

end Eval

/-- Whatever scopes there are and however they lie inside each other: assigning to a name through a scope goes through
exactly if a scope on its chain declares the name, and then the reads that give the new value are those of this name
through the scopes from which the same scope is the innermost one that declares it. Declaring a name goes through
exactly if the scope itself does not declare it, and then the reads that give the new value are those of this name
through the scopes whose chain comes to this one before any other that declares it. All other reads are as before.
The interpreter writes in this way, and a write that fails changes nothing. -/
theorem reads_after_writes {α : Type} (ss : Scopes α) (s : Fin ss.all.size) (x : Word) (value : α) :
    ((∃ ss', ss.assign s x value = .ok ss') ↔ ∃ outer, ss.OnChain s outer ∧ ss.Declares outer x.text) ∧
    (∀ ss', ss.assign s x value = .ok ss' → ss'.ReadsAs ss value fun t y =>
      y = x.text ∧ ∃ inner, ss.Innermost x.text s inner ∧ ss.Innermost x.text t inner) ∧
    ((∃ ss', ss.define s x value = .ok ss') ↔ ¬ ss.Declares s x.text) ∧
    (∀ ss', ss.define s x value = .ok ss' → ss'.ReadsAs ss value fun t y => y = x.text ∧ ss.Uncovered x.text t s) ∧
    ∀ (w : World) (v : Value), Eval.assign x v w = w.written (w.scopes.assign w.scope x v) ∧
      Eval.declare x v w = w.written (w.scopes.define w.scope x v) := by
  refine ⟨?_, ?_, ?_, ?_, fun w v => ⟨Eval.assign_apply x v w, Eval.declare_apply x v w⟩⟩
  · rw [Scopes.exists_onChain_iff]
    rcases ss.assign_cases s x value with ⟨inner, hinner, hassign⟩ | ⟨hnone, hassign⟩
    · exact ⟨fun _ => ⟨inner, hinner⟩, fun _ => ⟨_, hassign⟩⟩
    · refine ⟨?_, fun hinner => absurd hinner hnone⟩
      rintro ⟨ss', hok⟩
      cases hassign.symm.trans hok
  · intro ss' hok
    rcases ss.assign_cases s x value with ⟨inner, hinner, hassign⟩ | ⟨-, hassign⟩
    · obtain rfl := Except.ok.inj (hassign.symm.trans hok)
      refine Scopes.readsAs_of_get? ?_ ?_
      · rintro t y ⟨rfl, inner', hinner', ht⟩
        -- there is only one innermost scope
        obtain rfl : inner = inner' := by
          obtain ⟨⟨_, hroute⟩, hdeclares⟩ := hinner
          obtain ⟨⟨_, hroute'⟩, hdeclares'⟩ := hinner'
          exact (hroute.unique hdeclares hroute' hdeclares').2
        exact Scopes.get?_replace_self ht
      · intro t y hother
        refine Scopes.get?_replace_other ?_
        rintro ⟨rfl, ht⟩
        exact hother ⟨rfl, inner, hinner, ht⟩
    · cases hassign.symm.trans hok
  · rcases ss.define_cases s x value with ⟨hvacant, hdefine⟩ | ⟨hdeclares, hdefine⟩
    · exact ⟨fun _ => hvacant, fun _ => ⟨_, hdefine⟩⟩
    · refine ⟨?_, fun hvacant => absurd hdeclares hvacant⟩
      rintro ⟨ss', hok⟩
      cases hdefine.symm.trans hok
  · intro ss' hok
    rcases ss.define_cases s x value with ⟨-, hdefine⟩ | ⟨-, hdefine⟩
    · obtain rfl := Except.ok.inj (hdefine.symm.trans hok)
      refine Scopes.readsAs_of_get? ?_ ?_
      · rintro t y ⟨rfl, ht⟩
        exact Scopes.get?_insert_self s.isLt ht
      · exact fun t y hother => Scopes.get?_insert_other s.isLt hother
    · cases hdefine.symm.trans hok

/-- In a scope inside another one, and a third beside them, `x` is declared globally and in the second scope: assigning
to it through the innermost scope changes what the second scope reads, and not what the one beside it reads. -/
theorem reads_after_writes_shadowed :
    let ss : Scopes Nat := ⟨#[⟨[("x", 1)], none⟩, ⟨[("x", 2)], some 0⟩, ⟨[], some 1⟩, ⟨[], some 0⟩]⟩
    let x : Word := ⟨"x", 1⟩
    ∃ ss', ss.assign 2 x 5 = .ok ss' ∧ ss'.get 1 x = .ok 5 ∧ ss'.get 3 x = .ok 1 := by
  intro ss x
  obtain ⟨-, hassign, -⟩ := reads_after_writes ss ⟨2, by decide⟩ x 5
  refine ⟨_, rfl, ?_, ?_⟩
  · refine (hassign _ rfl 1 x).1 ⟨rfl, 1, ?_, ?_⟩
    · exact Scopes.resolve?_eq_some_iff.1 rfl
    · exact Scopes.resolve?_eq_some_iff.1 rfl
  · refine ((hassign _ rfl 3 x).2 ?_).trans rfl
    rintro ⟨-, inner, htwo, hthree⟩
    cases (Scopes.resolve?_eq_some_iff.2 htwo).symm.trans (rfl : ss.resolve? 2 "x" = some 1)
    cases (Scopes.resolve?_eq_some_iff.2 hthree).symm.trans (rfl : ss.resolve? 3 "x" = some 0)

end SafariScript
