import SafariScript.Proofs.Eval.ObjectBounds
import SafariScript.Proofs.Visibility

/-!
# Scopes lie in scopes made before

A scope is made inside the current one or inside the one that a function was defined in, and both are there
already. So every scope but the global one lies in a scope with a smaller number (`Scopes.Ordered`), and no scope is
ever moved or dropped (`Scopes.Extends`). That is enough for chains to end: whatever programs are run, and wherever
they are interrupted, the chain of every scope descends to the global scope, and looking a name up comes to an end
there at the latest (`scope_chains_end`).

The scope that is current is one that has been made, at every moment of a run and not only between two programs. This
is what `Transition` adds to a move of the world.
-/

namespace SafariScript

namespace Scopes

variable {α : Type} {ss ss' ss₁ ss₂ : Scopes α} {name : String} {s t outer parent : Nat} {path : List Nat}

/-- The chain of a scope, from the scope itself to one with no scope around it. -/
inductive Chain (ss : Scopes α) : Nat → List Nat → Prop where
  | outermost {s : Nat} (known : s < ss.all.size) (bare : ss.parent? s = none) : Chain ss s [s]
  | inside {s outer : Nat} {path : List Nat} (parent : ss.parent? s = some outer) (rest : Chain ss outer path) :
      Chain ss s (s :: path)

/-- Looking a name up from a scope outwards, however many scopes there are on the way: it is found in a scope that
declares it, or it is missing when no scope is left. -/
inductive Search (ss : Scopes α) (name : String) : Nat → Option Nat → Prop where
  | found {s : Nat} (declares : ss.Declares s name) : Search ss name s (some s)
  | missing {s : Nat} (hidden : ¬ ss.Declares s name) (bare : ss.parent? s = none) : Search ss name s none
  | outwards {s outer : Nat} {result : Option Nat} (hidden : ¬ ss.Declares s name)
      (parent : ss.parent? s = some outer) (rest : Search ss name outer result) : Search ss name s result

/-- There is a global scope, and every other scope lies in one that was made before it. -/
structure Ordered (ss : Scopes α) : Prop where
  nonempty : global < ss.all.size
  bare : ss.parent? global = none
  inside : ∀ s < ss.all.size, s ≠ global → ∃ outer < s, ss.parent? s = some outer

/-- The scopes are still there where they were, with all names that they declared. -/
structure Extends (ss ss' : Scopes α) : Prop where
  size : ss.all.size ≤ ss'.all.size
  parent : ∀ s < ss.all.size, ss'.parent? s = ss.parent? s
  declares : ∀ s name, ss.Declares s name → ss'.Declares s name

/-! ## Making a scope -/

theorem parent?_enter_self (ss : Scopes α) (parent : Nat) :
    (ss.enter parent).2.parent? ss.all.size = some parent := by
  simp [enter, parent?]

theorem getElem?_enter_of_lt (h : s < ss.all.size) (parent : Nat) : (ss.enter parent).2.all[s]? = ss.all[s]? := by
  unfold enter
  rw [Array.getElem?_push_lt h, Array.getElem?_eq_getElem h]

theorem parent?_enter_of_lt (h : s < ss.all.size) (parent : Nat) :
    (ss.enter parent).2.parent? s = ss.parent? s := by
  unfold parent?
  rw [getElem?_enter_of_lt h]

theorem extends_enter (ss : Scopes α) (parent : Nat) : ss.Extends (ss.enter parent).2 where
  size := by
    rw [size_enter]
    exact Nat.le_succ _
  parent := fun _ hs => parent?_enter_of_lt hs parent
  declares := fun s name h => by
    have hs := lt_size_of_declares h
    unfold Declares local? at h ⊢
    rwa [getElem?_enter_of_lt hs]

theorem Ordered.enter (h : ss.Ordered) (hparent : parent < ss.all.size) : (ss.enter parent).2.Ordered where
  nonempty := by
    rw [size_enter]
    exact Nat.lt_succ_of_lt h.nonempty
  bare := (parent?_enter_of_lt h.nonempty parent).trans h.bare
  inside := fun s hs hne => by
    rw [size_enter] at hs
    rcases Nat.lt_succ_iff_lt_or_eq.1 hs with hlt | rfl
    · rw [parent?_enter_of_lt hlt]
      exact h.inside s hlt hne
    · exact ⟨parent, hparent, ss.parent?_enter_self parent⟩

theorem ordered_initial : (initial : Scopes α).Ordered where
  nonempty := Nat.one_pos
  bare := rfl
  inside := fun s hs hne => by
    have hzero : s = global := Nat.lt_one_iff.1 hs
    exact absurd hzero hne

/-! ## Declaring and assigning -/

/-- Changing what a scope declares changes no order. -/
theorem Ordered.of_parents (h : ss.Ordered) (hsize : ss'.all.size = ss.all.size)
    (hparents : ∀ t, ss'.parent? t = ss.parent? t) : ss'.Ordered where
  nonempty := hsize ▸ h.nonempty
  bare := (hparents _).trans h.bare
  inside := fun s hs hne => by
    rw [hparents]
    exact h.inside s (hsize ▸ hs) hne

theorem Ordered.insert (h : ss.Ordered) (s : Nat) (name : String) (value : α) : (ss.insert s name value).Ordered :=
  h.of_parents (ss.size_modify s _) fun _ => parent?_insert

theorem Ordered.replace (h : ss.Ordered) (s : Nat) (name : String) (value : α) : (ss.replace s name value).Ordered :=
  h.of_parents (ss.size_modify s _) (ss.parent?_modify s (·.replace name value) fun _ => rfl)

namespace Extends

theorem refl (ss : Scopes α) : ss.Extends ss :=
  ⟨Nat.le_refl _, fun _ _ => rfl, fun _ _ h => h⟩

theorem trans (first : ss.Extends ss₁) (second : ss₁.Extends ss₂) : ss.Extends ss₂ := by
  refine ⟨Nat.le_trans first.size second.size, fun s hs => ?_, fun s name h => ?_⟩
  · exact (second.parent s (Nat.lt_of_lt_of_le hs first.size)).trans (first.parent s hs)
  · exact second.declares s name (first.declares s name h)

theorem insert (hs : s < ss.all.size) (name : String) (value : α) : ss.Extends (ss.insert s name value) where
  size := Nat.le_of_eq (ss.size_modify s _).symm
  parent := fun _ _ => parent?_insert
  declares := fun _ _ h => (declares_insert hs).2 (Or.inr h)

theorem replace (ss : Scopes α) (s : Nat) (name : String) (value : α) : ss.Extends (ss.replace s name value) where
  size := Nat.le_of_eq (ss.size_modify s _).symm
  parent := fun t _ => ss.parent?_modify s (·.replace name value) (fun _ => rfl) t
  declares := fun _ _ h => declares_replace.2 h

end Extends

/-! ## Chains -/

theorem Ordered.lt_of_parent? (h : ss.Ordered) (hparent : ss.parent? s = some outer) : outer < s := by
  have hne : s ≠ global := by
    rintro rfl
    cases h.bare.symm.trans hparent
  obtain ⟨outer', hlt, hparent'⟩ := h.inside s (lt_size_of_parent? hparent) hne
  obtain rfl := Option.some.inj (hparent.symm.trans hparent')
  exact hlt

theorem Ordered.exists_chain (h : ss.Ordered) (hs : s < ss.all.size) : ∃ path, ss.Chain s path := by
  induction s using Nat.strongRecOn with
  | ind s ih =>
      by_cases hglobal : s = global
      · subst hglobal
        exact ⟨[global], .outermost hs h.bare⟩
      · obtain ⟨outer, hlt, hparent⟩ := h.inside s hs hglobal
        obtain ⟨path, hpath⟩ := ih outer hlt (Nat.lt_trans hlt hs)
        exact ⟨s :: path, .inside hparent hpath⟩

theorem Chain.le (hpath : ss.Chain s path) (h : ss.Ordered) : ∀ t ∈ path, t ≤ s := by
  induction hpath with
  | outermost known bare => exact fun t ht => Nat.le_of_eq (List.mem_singleton.1 ht)
  | inside parent _ ih =>
      intro t ht
      rcases List.mem_cons.1 ht with rfl | ht
      · exact Nat.le_refl _
      · exact Nat.le_trans (ih t ht) (Nat.le_of_lt (h.lt_of_parent? parent))

/-- Every scope on a chain was made before the ones inside it, so none of them comes twice. -/
theorem Chain.descends (hpath : ss.Chain s path) (h : ss.Ordered) : path.Pairwise (· > ·) := by
  induction hpath with
  | outermost known bare => exact List.pairwise_singleton _ _
  | inside parent rest ih =>
      refine List.pairwise_cons.2 ⟨fun t ht => ?_, ih⟩
      exact Nat.lt_of_le_of_lt (rest.le h t ht) (h.lt_of_parent? parent)

theorem Chain.ends (hpath : ss.Chain s path) (h : ss.Ordered) : path.getLast? = some global := by
  induction hpath with
  | @outermost s known bare =>
      by_contra hne
      obtain ⟨outer, -, hparent⟩ := h.inside s known fun hglobal => hne (congrArg some hglobal)
      cases bare.symm.trans hparent
  | inside parent rest ih => rw [List.getLast?_cons, ih, Option.getD_some]

theorem Chain.onChain (hpath : ss.Chain s path) (ht : t ∈ path) : ss.OnChain s t := by
  induction hpath with
  | outermost known bare =>
      obtain rfl := List.mem_singleton.1 ht
      exact .refl
  | inside parent _ ih =>
      rcases List.mem_cons.1 ht with rfl | ht
      · exact .refl
      · exact (ih ht).head parent

/-! ## The search ends -/

theorem Search.unique {r r' : Option Nat} (h : ss.Search name s r) (h' : ss.Search name s r') : r = r' := by
  induction h with
  | found declares =>
      cases h' with
      | found => rfl
      | missing hidden | outwards hidden => exact absurd declares hidden
  | missing hidden bare =>
      cases h' with
      | found declares => exact absurd declares hidden
      | missing => rfl
      | outwards _ parent => cases bare.symm.trans parent
  | outwards hidden parent _ ih =>
      cases h' with
      | found declares => exact absurd declares hidden
      | missing _ bare => cases bare.symm.trans parent
      | outwards _ parent' rest =>
          obtain rfl := Option.some.inj (parent.symm.trans parent')
          exact ih rest

theorem search_some_iff : ss.Search name s (some t) ↔ ss.Innermost name s t := by
  constructor
  · intro h
    generalize hr : some t = r at h
    induction h with
    | found declares =>
        obtain rfl := Option.some.inj hr
        exact innermost_here declares
    | missing => cases hr
    | outwards hidden parent _ ih => exact ⟨(ih hr).1.outwards hidden parent, (ih hr).2⟩
  · rintro ⟨⟨passed, hroute⟩, hdeclares⟩
    induction hroute with
    | here s => exact .found hdeclares
    | outwards hidden parent _ ih => exact .outwards hidden parent (ih hdeclares)

/-- From every scope the search ends, for it goes to scopes with smaller and smaller numbers. -/
theorem Ordered.exists_search (h : ss.Ordered) (name : String) (s : Nat) : ∃ r, ss.Search name s r := by
  induction s using Nat.strongRecOn with
  | ind s ih =>
      by_cases hs : ss.Declares s name
      · exact ⟨some s, .found hs⟩
      · cases hparent : ss.parent? s with
        | none => exact ⟨none, .missing hs hparent⟩
        | some outer =>
            obtain ⟨r, hr⟩ := ih outer (h.lt_of_parent? hparent)
            exact ⟨r, .outwards hs hparent hr⟩

theorem Search.resolve? {r : Option Nat} (h : ss.Search name s r) : ss.resolve? s name = r := by
  refine Option.ext fun t => ?_
  rw [resolve?_eq_some_iff, ← search_some_iff]
  constructor
  · exact fun ht => h.unique ht
  · rintro rfl
    exact h

theorem Ordered.search_iff (h : ss.Ordered) {r : Option Nat} : ss.Search name s r ↔ ss.resolve? s name = r := by
  refine ⟨Search.resolve?, ?_⟩
  rintro rfl
  obtain ⟨r, hr⟩ := h.exists_search name s
  rw [hr.resolve?]
  exact hr

/-- What is declared globally has a value from every scope. -/
theorem Ordered.exists_get? (h : ss.Ordered) (hs : s < ss.all.size) (hglobal : ss.Declares global name) :
    ∃ value, ss.get? s name = some value := by
  obtain ⟨path, hpath⟩ := h.exists_chain hs
  have hchain : ss.OnChain s global := hpath.onChain (List.mem_of_getLast? (hpath.ends h))
  obtain ⟨inner, hinner⟩ := exists_onChain_iff.1 ⟨global, hchain, hglobal⟩
  obtain ⟨value, hvalue⟩ := Option.isSome_iff_exists.1 hinner.2
  exact ⟨value, by rw [get?, resolve?_eq_some_iff.2 hinner, Option.bind_some, hvalue]⟩

end Scopes

/-! ## Worlds -/

/-- A scope that a run can come back to: the current one, those that functions were defined in, and the scopes around
other scopes. -/
inductive World.InUse (w : World) : Nat → Prop where
  | current : InUse w w.scope
  | captured {closure : Closure} (known : closure ∈ w.functions) : InUse w closure.scope
  | enclosing {inner outer : Nat} (parent : w.scopes.parent? inner = some outer) : InUse w outer

/-- Scopes lie in scopes made before, and those that are kept elsewhere have been made. -/
structure World.Rooted (w : World) : Prop where
  scopes : w.scopes.Ordered
  scope : w.scope < w.scopes.all.size
  functions : ∀ closure ∈ w.functions, closure.scope < w.scopes.all.size

/-- A move of a run: a scope that becomes current has been made before. -/
structure Transition (w w' : World) : Prop where
  move : Move w w'
  scope : w'.scope = w.scope ∨ w'.scope < w.scopes.all.size

/-- A run leads from one world to another, by any number of moves. -/
def Attains : World → World → Prop := Relation.ReflTransGen Transition

section Runs

variable {code : List Stmt → Prop} {w w' : World}

theorem World.Rooted.of_inUse (hw : w.Rooted) {s : Nat} (h : w.InUse s) : s < w.scopes.all.size := by
  cases h with
  | current => exact hw.scope
  | captured known => exact hw.functions _ known
  | enclosing parent => exact Nat.lt_trans (hw.scopes.lt_of_parent? parent) (Scopes.lt_size_of_parent? parent)

theorem World.rooted_initial (chance : Random.Source) (rates : CatchRates) (input : List String) :
    (World.initial chance rates input).Rooted :=
  ⟨Scopes.ordered_initial, Nat.one_pos, fun closure h => absurd h (Array.not_mem_empty closure)⟩

/-- A function that is called runs inside a scope that has been made, also if there is no such function. -/
theorem World.Rooted.scope_function_lt (hw : w.Rooted) (id : Nat) :
    (w.function id).scope < w.scopes.all.size := by
  unfold World.function
  rw [Array.getD_eq_getD_getElem?]
  cases hclosure : w.functions[id]? with
  | none => exact hw.scopes.nonempty
  | some closure => exact hw.functions closure (Array.mem_of_getElem? hclosure)

theorem Update.extends (h : Update code w w') (hw : w.Rooted) : w.scopes.Extends w'.scopes := by
  cases h with
  | enter parent known => exact Scopes.extends_enter w.scopes parent
  | declare name value vacant => exact .insert hw.scope name value
  | assign scope name value => exact .replace w.scopes scope name value
  | changePokemon owner change fits => cases owner <;> exact .refl _
  | _ => exact .refl _

theorem Update.rooted (h : Update code w w') (hw : w.Rooted) : w'.Rooted := by
  have hsize := h.size_scopes_le
  have hfunctions (closure : Closure) (hclosure : closure ∈ w.functions) : closure.scope < w'.scopes.all.size :=
    Nat.lt_of_lt_of_le (hw.functions closure hclosure) hsize
  have hscope : w'.scope < w'.scopes.all.size := by
    rw [h.scope_eq]
    exact Nat.lt_of_lt_of_le hw.scope hsize
  cases h with
  | enter parent known =>
      have hparent : parent < w.scopes.all.size := by
        rcases known with rfl | ⟨id, rfl⟩
        · exact hw.scope
        · exact hw.scope_function_lt id
      exact ⟨hw.scopes.enter hparent, hscope, hfunctions⟩
  | declare name value vacant => exact ⟨hw.scopes.insert _ name value, hscope, hfunctions⟩
  | assign scope name value => exact ⟨hw.scopes.replace scope name value, hscope, hfunctions⟩
  | newFunction name params body known =>
      refine ⟨hw.scopes, hw.scope, fun closure hclosure => ?_⟩
      rcases Array.mem_push.1 hclosure with hclosure | rfl
      · exact hw.functions closure hclosure
      · exact hw.scope
  | changePokemon owner change fits => cases owner <;> exact ⟨hw.scopes, hw.scope, hw.functions⟩
  | _ => exact ⟨hw.scopes, hw.scope, hw.functions⟩

theorem Transition.extends (h : Transition w w') (hw : w.Rooted) : w.scopes.Extends w'.scopes := by
  cases h.move with
  | update update => exact update.extends hw
  | setScope scope => exact .refl _
  | setRunning running => exact .refl _

theorem Transition.rooted (h : Transition w w') (hw : w.Rooted) : w'.Rooted := by
  obtain ⟨move, hscope⟩ := h
  cases move with
  | update update => exact update.rooted hw
  | setScope scope =>
      refine ⟨hw.scopes, ?_, hw.functions⟩
      rcases hscope with hsame | hknown
      · exact hsame ▸ hw.scope
      · exact hknown
  | setRunning running => exact ⟨hw.scopes, hw.scope, hw.functions⟩

theorem Attains.rooted (h : Attains w w') (hw : w.Rooted) : w'.Rooted := by
  induction h with
  | refl => exact hw
  | tail _ last ih => exact last.rooted ih

theorem Attains.extends (h : Attains w w') (hw : w.Rooted) : w.scopes.Extends w'.scopes := by
  induction h with
  | refl => exact .refl _
  | tail before last ih => exact ih.trans (last.extends (Attains.rooted before hw))

/-- An effect is a run: a scope that a step runs in has been made, and so has the one that it goes back to. -/
theorem Effect.attains (h : Effect code w w') (hw : w.scope < w.scopes.all.size) : Attains w w' := by
  induction h with
  | refl w => exact .refl
  | update update => exact .single ⟨.update update, Or.inl update.scope_eq⟩
  | trans first _ ih₁ ih₂ =>
      refine (ih₁ hw).trans (ih₂ ?_)
      rw [first.registers_eq.1]
      exact Nat.lt_of_lt_of_le hw first.size_scopes_le
  | @inScope w w' scope known inner ih =>
      have hback : w.scope < w'.scopes.all.size := Nat.lt_of_lt_of_le hw inner.size_scopes_le
      exact ((ih known).head ⟨.setScope w scope, Or.inr known⟩).tail ⟨.setScope w' w.scope, Or.inr hback⟩
  | @running w w' inner ih =>
      exact ((ih hw).head ⟨.setRunning w _, Or.inl rfl⟩).tail ⟨.setRunning w' _, Or.inl rfl⟩

theorem World.Rooted.attains_afterAll (hw : w.Rooted) (budget room : Nat) (programs : List (Bool × Program)) :
    Attains w (w.afterAll budget room programs) := by
  induction programs generalizing w with
  | nil => exact .refl
  | cons first rest ih =>
      have hfirst : Attains w (w.after (Eval.interpretWithin budget room first.1 first.2)) :=
        (w.effect_interpretWithin budget room first.1 first.2).attains hw.scope
      exact hfirst.trans (ih (hfirst.rooted hw))

end Runs

/-- Whatever is run, and at every moment of it, the scopes in use have been made, and the chain of every scope that has
been made descends to the global one. Looking a name up outwards, from whatever scope, ends with what the interpreter
finds. Later on every scope lies where it lay, and a name that is declared globally has a value from every scope. The
moments are closed under running: whatever expression, statement or programs are run, however that ends, it leads to
one of them. -/
theorem scope_chains_end (chance : Random.Source) (rates : CatchRates) (input : List String) :
    let start := World.initial chance rates input
    ∀ w, Attains start w →
      (∀ s, w.InUse s → s < w.scopes.all.size) ∧
      (∀ s < w.scopes.all.size, ∃ path, w.scopes.Chain s path ∧ path.Pairwise (· > ·) ∧
        path.getLast? = some Scopes.global) ∧
      (∀ s name r, w.scopes.Search name s r ↔ w.scopes.resolve? s name = r) ∧
      (∀ w', Attains w w' →
        (∀ s < w.scopes.all.size, w'.scopes.parent? s = w.scopes.parent? s) ∧
        ∀ name, w.scopes.Declares Scopes.global name →
          ∀ s < w'.scopes.all.size, ∃ value, w'.scopes.get? s name = some value) ∧
      ∀ budget room,
        (∀ e, Attains w (w.after (Eval.eval budget room e))) ∧
        (∀ s, Attains w (w.after (Eval.exec budget room s))) ∧
        ∀ programs, Attains w (w.afterAll budget room programs) := by
  intro start w hattains
  have hw : w.Rooted := hattains.rooted (World.rooted_initial chance rates input)
  refine ⟨fun s hs => hw.of_inUse hs, fun s hs => ?_, fun s name r => hw.scopes.search_iff,
    fun w' hw' => ⟨?_, ?_⟩, fun budget room => ⟨?_, ?_, ?_⟩⟩
  · obtain ⟨path, hpath⟩ := hw.scopes.exists_chain hs
    exact ⟨path, hpath, hpath.descends hw.scopes, hpath.ends hw.scopes⟩
  · exact (hw'.extends hw).parent
  · intro name hname s hs
    exact (hw'.rooted hw).scopes.exists_get? hs ((hw'.extends hw).declares _ name hname)
  · exact fun e => (w.effect_eval budget room e).attains hw.scope
  · exact fun s => (w.effect_exec budget room s).attains hw.scope
  · exact fun programs => hw.attains_afterAll budget room programs

/-- A call leaves a function behind that was defined in its scope; the function is kept in an array outside, and is
called from there after the call has ended. It runs in a scope whose chain goes through that of the ended call. -/
theorem scope_chains_end_captured :
    let start := World.initial (.ofScript []) .unknown []
    let inner : Stmt := .define ⟨"inner", 2⟩ [] [.ret 3 (some (.ident ⟨"fs", 3⟩))]
    let outer : Stmt := .define ⟨"outer", 1⟩ [] [inner, .ret 4 (some (.ident ⟨"inner", 4⟩))]
    let made : Expr := .array [.call (.ident ⟨"outer", 5⟩) 5 [] []]
    let call : Expr := .call (.element (.ident ⟨"fs", 6⟩) 6 (.literal (.int 0))) 6 [] []
    let w := start.afterAll 5 60 [(false, ⟨[outer, .var ⟨"fs", 5⟩ (some made), .expr call]⟩)]
    w.functions.map Closure.scope = #[0, 1] ∧ w.scopes.parent? 2 = some 1 ∧ w.InUse 1 ∧
      (∃ path, w.scopes.Chain 2 path ∧ path.Pairwise (· > ·) ∧ path.getLast? = some Scopes.global) ∧
      ∃ value, w.scopes.get? 2 "fs" = some value := by
  intro start inner outer made call w
  obtain ⟨-, -, -, -, hruns⟩ := scope_chains_end (.ofScript []) .unknown [] start .refl
  have hw : Attains start w := (hruns 5 60).2.2 _
  obtain ⟨-, hchains, -, hlater, -⟩ := scope_chains_end (.ofScript []) .unknown [] w hw
  have hparent : w.scopes.parent? 2 = some 1 := by decide +kernel
  have htwo : 2 < w.scopes.all.size := by decide +kernel
  have hglobal : (w.scopes.local? Scopes.global "fs").isSome = true := by decide +kernel
  refine ⟨by decide +kernel, hparent, .enclosing hparent, hchains 2 htwo, ?_⟩
  exact (hlater w .refl).2 "fs" hglobal 2 htwo

end SafariScript
