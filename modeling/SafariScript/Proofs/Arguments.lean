import Mathlib.Data.List.Perm.Basic
import SafariScript.Objects.Arguments

/-!
# What the parameters of a constructor are bound to

Arguments given by position fill the first parameters. Each argument given by name must be for a parameter that
nothing in front of it has filled (`Acceptable`), and the first one that is not is where the call fails
(`FirstRefused`). Defaults fill what is left, up to the first parameter without one (`FirstMissing`).

The bindings are kept in the order in which they are made. The loops are followed with the parameters filled so far as
what changes (`addNamed_cases`, `addDefaults_cases`), and the outcome of a call is read off them (`resolve_binds`).
-/

namespace SafariScript
namespace Arguments

variable {α : Type} {params filled : List String} {positional : List α} {named : List (Word × α)}
  {defaults given : List (String × α)}

/-- The parameters that are bound. -/
def names (given : List (String × α)) : List String :=
  given.map Prod.fst

/-- What the named arguments bind. -/
def byName (named : List (Word × α)) : List (String × α) :=
  named.map fun a => (a.1.text, a.2)

/-- Named arguments that can be taken in where some parameters are filled already: each is for a parameter that is
not, and no two are for the same one. -/
structure Acceptable (params filled : List String) (named : List (Word × α)) : Prop where
  declared : ∀ p ∈ names (byName named), p ∈ params
  vacant : ∀ p ∈ names (byName named), p ∉ filled
  distinct : (names (byName named)).Nodup

/-- The first named argument that cannot be taken in has the given word: those in front of it can, but not together
with it. -/
def FirstRefused (params filled : List String) (named : List (Word × α)) (word : Word) : Prop :=
  ∃ before value behind, named = before ++ (word, value) :: behind ∧ Acceptable params filled before ∧
    ¬ Acceptable params filled (before ++ [(word, value)])

/-- Why a named argument is refused. -/
def refusal (params : List String) (word : Word) : Cause :=
  if word.text ∈ params then .repeatedParameter word.text else .unknownParameter word.text

/-- Every parameter that is not filled has a default. -/
def Completable (params filled : List String) (defaults : List (String × α)) : Prop :=
  ∀ p ∈ params, p ∉ filled → p ∈ names defaults

/-- The first parameter that is not filled and has no default. -/
def FirstMissing (params filled : List String) (defaults : List (String × α)) (param : String) : Prop :=
  ∃ before behind, params = before ++ param :: behind ∧ param ∉ filled ∧ param ∉ names defaults ∧
    Completable before filled defaults

/-- The defaults of some parameters. -/
def ofDefaults (defaults : List (String × α)) (params : List String) : List (String × α) :=
  params.filterMap fun p => (defaults.lookup p).map (p, ·)

/-- The parameters that are not filled. -/
def unfilled (params filled : List String) : List String :=
  params.filter (· ∉ filled)

/-! ## Bindings -/

@[simp] theorem names_append (given others : List (String × α)) : names (given ++ others) = names given ++ names others :=
  List.map_append

@[simp] theorem names_cons (p : String) (a : α) (given : List (String × α)) : names ((p, a) :: given) = p :: names given :=
  rfl

@[simp] theorem byName_cons (word : Word) (a : α) (named : List (Word × α)) :
    byName ((word, a) :: named) = (word.text, a) :: byName named :=
  rfl

@[simp] theorem byName_append (named others : List (Word × α)) : byName (named ++ others) = byName named ++ byName others :=
  List.map_append

theorem names_byName_perm {others : List (Word × α)} (hperm : others.Perm named) :
    (names (byName others)).Perm (names (byName named)) :=
  (hperm.map _).map _

theorem isSome_lookup_iff {p : String} : (given.lookup p).isSome = true ↔ p ∈ names given := by
  rw [List.lookup_isSome_iff, names, List.mem_map]
  constructor
  · rintro ⟨b, hb, heq⟩
    exact ⟨b, hb, (beq_iff_eq.1 heq).symm⟩
  · rintro ⟨b, hb, rfl⟩
    exact ⟨b, hb, beq_self_eq_true _⟩

theorem lookup_eq_none {p : String} (h : p ∉ names given) : given.lookup p = none := by
  rw [← Option.not_isSome_iff_eq_none, isSome_lookup_iff]
  exact h

/-- A parameter is bound to the argument at its position. -/
theorem lookup_zip (hparams : params.Nodup) (positional : List α) {i : Nat} (hi : i < params.length) :
    (params.zip positional).lookup params[i] = positional[i]? := by
  induction params generalizing positional i with
  | nil => exact absurd hi (Nat.not_lt_zero i)
  | cons param params ih =>
      obtain ⟨hparam, hparams⟩ := List.nodup_cons.1 hparams
      cases positional with
      | nil => simp
      | cons a positional =>
          cases i with
          | zero => simp
          | succ i =>
              have hi : i < params.length := Nat.lt_of_succ_lt_succ hi
              have hne : (params[i] == param) = false :=
                beq_false_of_ne fun heq => hparam (heq ▸ List.getElem_mem hi)
              simpa [List.lookup_cons, hne] using ih hparams positional hi

theorem names_zip (h : positional.length ≤ params.length) :
    names (params.zip positional) = params.take positional.length := by
  induction params generalizing positional with
  | nil => rw [List.eq_nil_of_length_eq_zero (Nat.le_zero.1 h)]; rfl
  | cons param params ih =>
      cases positional with
      | nil => rfl
      | cons a positional => simpa using ih (Nat.le_of_succ_le_succ h)

theorem ofPositional_eq_zip (hparams : params.Nodup) (positional : List α) :
    ofPositional params positional = params.zip positional := by
  induction params generalizing positional with
  | nil => rfl
  | cons param params ih =>
      obtain ⟨hparam, hparams⟩ := List.nodup_cons.1 hparams
      cases positional with
      | nil => rfl
      | cons a positional =>
          have hfree : (params.zip positional).lookup param = none := by
            apply lookup_eq_none
            intro hmem
            obtain ⟨b, hb, rfl⟩ := List.mem_map.1 hmem
            exact hparam (List.of_mem_zip hb).1
          simp [ofPositional, ih hparams, hfree]

theorem lookup_ofDefaults {p : String} (hp : p ∈ params) : (ofDefaults defaults params).lookup p = defaults.lookup p := by
  induction params with
  | nil => cases hp
  | cons param params ih =>
      by_cases heq : p = param
      · subst heq
        cases hdefault : defaults.lookup p with
        | some a => simp [ofDefaults, hdefault]
        | none =>
            apply lookup_eq_none
            intro hmem
            obtain ⟨b, hb, rfl⟩ := List.mem_map.1 hmem
            obtain ⟨q, -, hq⟩ := List.mem_filterMap.1 hb
            obtain ⟨a, ha, rfl⟩ := Option.map_eq_some_iff.1 hq
            rw [hdefault] at ha
            cases ha
      · have hne : (p == param) = false := beq_false_of_ne heq
        have hrest := ih ((List.mem_cons.1 hp).resolve_left heq)
        cases hdefault : defaults.lookup param <;> simpa [ofDefaults, hdefault, List.lookup_cons, hne] using hrest

theorem names_ofDefaults (h : ∀ p ∈ params, p ∈ names defaults) : names (ofDefaults defaults params) = params := by
  induction params with
  | nil => rfl
  | cons param params ih =>
      obtain ⟨hparam, hparams⟩ := List.forall_mem_cons.1 h
      obtain ⟨a, ha⟩ := Option.isSome_iff_exists.1 (isSome_lookup_iff.2 hparam)
      simpa [ofDefaults, ha] using ih hparams

/-! ## The named arguments -/

theorem Acceptable.of_perm {others : List (Word × α)} (h : Acceptable params filled named) (hperm : others.Perm named) :
    Acceptable params filled others := by
  have hnames := names_byName_perm hperm
  exact ⟨fun p hp => h.declared p (hnames.mem_iff.1 hp), fun p hp => h.vacant p (hnames.mem_iff.1 hp),
    hnames.nodup_iff.2 h.distinct⟩

theorem acceptable_nil : Acceptable params filled ([] : List (Word × α)) :=
  ⟨by simp [names, byName], by simp [names, byName], List.nodup_nil⟩

/-- A named argument that is taken in fills its parameter for those behind it. -/
theorem acceptable_cons {word : Word} {a : α} :
    Acceptable params filled ((word, a) :: named) ↔
      (word.text ∈ params ∧ word.text ∉ filled) ∧ Acceptable params (filled ++ [word.text]) named := by
  constructor
  · intro h
    obtain ⟨hparam, hparams⟩ := List.forall_mem_cons.1 h.declared
    obtain ⟨hvacant, hvacants⟩ := List.forall_mem_cons.1 h.vacant
    obtain ⟨hfresh, hdistinct⟩ := List.nodup_cons.1 h.distinct
    refine ⟨⟨hparam, hvacant⟩, hparams, fun p hp hmem => ?_, hdistinct⟩
    rcases List.mem_append.1 hmem with hfilled | hlast
    · exact hvacants p hp hfilled
    · obtain rfl := List.mem_singleton.1 hlast
      exact hfresh hp
  · rintro ⟨⟨hparam, hvacant⟩, h⟩
    refine ⟨List.forall_mem_cons.2 ⟨hparam, h.declared⟩, List.forall_mem_cons.2 ⟨hvacant, fun p hp hmem => ?_⟩,
      List.nodup_cons.2 ⟨fun hmem => ?_, h.distinct⟩⟩
    · exact h.vacant p hp (List.mem_append_left _ hmem)
    · exact h.vacant word.text hmem (List.mem_append_right _ (List.mem_singleton.2 rfl))

theorem Acceptable.of_append {others : List (Word × α)} (h : Acceptable params filled (named ++ others)) :
    Acceptable params filled named := by
  induction named generalizing filled with
  | nil => exact acceptable_nil
  | cons first named ih =>
      obtain ⟨hfirst, hothers⟩ := acceptable_cons.1 h
      exact acceptable_cons.2 ⟨hfirst, ih hothers⟩

theorem FirstRefused.not_acceptable {word : Word} (h : FirstRefused params filled named word) :
    ¬ Acceptable params filled named := by
  obtain ⟨before, value, behind, rfl, -, hrefused⟩ := h
  intro hall
  rw [← List.singleton_append, ← List.append_assoc] at hall
  exact hrefused hall.of_append

/-- The loop over the named arguments, with what is bound so far: it takes in all of them, or fails at the first one
that it cannot take in. -/
theorem addNamed_cases (params : List String) (given : List (String × α)) (named : List (Word × α)) :
    (Acceptable params (names given) named ∧ addNamed params given named = .ok (given ++ byName named)) ∨
    ∃ word, FirstRefused params (names given) named word ∧
      addNamed params given named = .error ⟨refusal params word, some word⟩ := by
  induction named generalizing given with
  | nil => exact .inl ⟨acceptable_nil, by simp [addNamed, byName]⟩
  | cons first named ih =>
      obtain ⟨word, a⟩ := first
      by_cases hfirst : word.text ∈ params ∧ word.text ∉ names given
      · have hstep : addNamed params given ((word, a) :: named) = addNamed params (given ++ [(word.text, a)]) named := by
          simp [addNamed, hfirst.1, lookup_eq_none hfirst.2]
        rw [hstep]
        have hfilled : names (given ++ [(word.text, a)]) = names given ++ [word.text] := names_append _ _
        obtain ⟨hall, hok⟩ | ⟨refused, ⟨before, value, behind, hnamed, hbefore, hrefused⟩, herror⟩ :=
          ih (given ++ [(word.text, a)])
        · rw [hfilled] at hall
          exact .inl ⟨acceptable_cons.2 ⟨hfirst, hall⟩, by rw [hok]; simp⟩
        · rw [hfilled] at hbefore hrefused
          refine .inr ⟨refused, ⟨(word, a) :: before, value, behind, by rw [hnamed]; rfl, ?_, ?_⟩, herror⟩
          · exact acceptable_cons.2 ⟨hfirst, hbefore⟩
          · exact fun hall => hrefused (acceptable_cons.1 hall).2
      · refine .inr ⟨word, ⟨[], a, named, rfl, acceptable_nil, fun hall => hfirst (acceptable_cons.1 hall).1⟩, ?_⟩
        by_cases hparam : word.text ∈ params
        · have hbound : word.text ∈ names given := by
            by_contra hvacant
            exact hfirst ⟨hparam, hvacant⟩
          simp [addNamed, refusal, hparam, isSome_lookup_iff.2 hbound]
        · simp [addNamed, refusal, hparam]

/-! ## The defaults -/

theorem completable_cons {param : String} :
    Completable (param :: params) filled defaults ↔
      (param ∉ filled → param ∈ names defaults) ∧ Completable params filled defaults :=
  List.forall_mem_cons

/-- Only parameters that are behind it matter, so filling one does not change what is missing there. -/
theorem completable_concat {param : String} (h : param ∉ params) :
    Completable params (filled ++ [param]) defaults ↔ Completable params filled defaults := by
  have hne (p : String) (hp : p ∈ params) : p ≠ param := ne_of_mem_of_not_mem hp h
  constructor
  · intro hall p hp hvacant
    exact hall p hp (by simp [hvacant, hne p hp])
  · intro hall p hp hvacant
    exact hall p hp fun hfilled => hvacant (List.mem_append_left _ hfilled)

theorem unfilled_concat {param : String} (h : param ∉ params) :
    unfilled params (filled ++ [param]) = unfilled params filled := by
  apply List.filter_congr
  intro p hp
  simp [ne_of_mem_of_not_mem hp h]

theorem FirstMissing.not_completable {param : String} (h : FirstMissing params filled defaults param) :
    ¬ Completable params filled defaults := by
  obtain ⟨before, behind, rfl, hvacant, hnone, -⟩ := h
  exact fun hall => hnone (hall param (by simp) hvacant)

/-- The loop over the parameters, with what is bound so far: it fills all that are left, or fails at the first one
without a default. -/
theorem addDefaults_cases (place : Word) (defaults : List (String × α)) (hparams : params.Nodup)
    (given : List (String × α)) :
    (Completable params (names given) defaults ∧
      addDefaults place defaults params given = .ok (given ++ ofDefaults defaults (unfilled params (names given)))) ∨
    ∃ param, FirstMissing params (names given) defaults param ∧
      addDefaults place defaults params given = .error ⟨.missingParameter param, some place⟩ := by
  induction params generalizing given with
  | nil => exact .inl ⟨by simp [Completable], by simp [addDefaults, unfilled, ofDefaults]⟩
  | cons param params ih =>
      obtain ⟨hparam, hparams⟩ := List.nodup_cons.1 hparams
      by_cases hbound : param ∈ names given
      · have hstep : addDefaults place defaults (param :: params) given = addDefaults place defaults params given := by
          simp [addDefaults, isSome_lookup_iff.2 hbound]
        rw [hstep]
        obtain ⟨hall, hok⟩ | ⟨missing, ⟨before, behind, rfl, hvacant, hnone, hbefore⟩, herror⟩ := ih hparams given
        · refine .inl ⟨completable_cons.2 ⟨fun hvacant => absurd hbound hvacant, hall⟩, ?_⟩
          simp [hok, unfilled, hbound]
        · refine .inr ⟨missing, ⟨param :: before, behind, rfl, hvacant, hnone, ?_⟩, herror⟩
          exact completable_cons.2 ⟨fun hvacant => absurd hbound hvacant, hbefore⟩
      · cases hdefault : defaults.lookup param with
        | none =>
            have hnone : param ∉ names defaults := by simp [← isSome_lookup_iff, hdefault]
            refine .inr ⟨param, ⟨[], params, rfl, hbound, hnone, by simp [Completable]⟩, ?_⟩
            simp [addDefaults, lookup_eq_none hbound, hdefault]
        | some a =>
            have hmem : param ∈ names defaults := isSome_lookup_iff.1 (by rw [hdefault]; rfl)
            have hstep : addDefaults place defaults (param :: params) given =
                addDefaults place defaults params (given ++ [(param, a)]) := by
              simp [addDefaults, lookup_eq_none hbound, hdefault]
            rw [hstep]
            have hfilled : names (given ++ [(param, a)]) = names given ++ [param] := names_append _ _
            obtain ⟨hall, hok⟩ | ⟨missing, ⟨before, behind, rfl, hvacant, hnone, hbefore⟩, herror⟩ :=
              ih hparams (given ++ [(param, a)])
            · rw [hfilled, completable_concat hparam] at hall
              rw [hfilled, unfilled_concat hparam] at hok
              refine .inl ⟨completable_cons.2 ⟨fun _ => hmem, hall⟩, ?_⟩
              simp [hok, unfilled, hbound, ofDefaults, hdefault]
            · rw [hfilled, completable_concat fun hmem => hparam (List.mem_append_left _ hmem)] at hbefore
              rw [hfilled] at hvacant
              refine .inr ⟨missing, ⟨param :: before, behind, rfl, ?_, hnone, ?_⟩, herror⟩
              · exact fun hmem => hvacant (List.mem_append_left _ hmem)
              · exact completable_cons.2 ⟨fun _ => hmem, hbefore⟩

/-! ## A call -/

/-- The parameters filled by position and by name. -/
def taken (params : List String) (positional : List α) (named : List (Word × α)) : List String :=
  params.take positional.length ++ names (byName named)

/-- What a call binds, in the order in which it does. -/
def bindings (params : List String) (positional : List α) (named : List (Word × α)) (defaults : List (String × α)) :
    List (String × α) :=
  params.zip positional ++ byName named ++ ofDefaults defaults (unfilled params (taken params positional named))

/-- A call that succeeds. -/
structure Resolvable (params : List String) (positional : List α) (named : List (Word × α))
    (defaults : List (String × α)) : Prop where
  fits : positional.length ≤ params.length
  acceptable : Acceptable params (params.take positional.length) named
  completable : Completable params (taken params positional named) defaults

/-- The fault of a call that fails: too many arguments by position, or else the first argument by name that cannot be
taken in, or else the first parameter that nothing is left for. -/
inductive Fails (place : Word) (params : List String) (positional : List α) (named : List (Word × α))
    (defaults : List (String × α)) : Fault → Prop where
  | crowded (hlength : params.length < positional.length) :
      Fails place params positional named defaults ⟨.tooManyArguments params.length positional.length, some place⟩
  | refused (hlength : positional.length ≤ params.length) {word : Word}
      (hword : FirstRefused params (params.take positional.length) named word) :
      Fails place params positional named defaults ⟨refusal params word, some word⟩
  | missing (hlength : positional.length ≤ params.length)
      (hnamed : Acceptable params (params.take positional.length) named) {param : String}
      (hparam : FirstMissing params (taken params positional named) defaults param) :
      Fails place params positional named defaults ⟨.missingParameter param, some place⟩

theorem Fails.not_resolvable {place : Word} {f : Fault} (h : Fails place params positional named defaults f) :
    ¬ Resolvable params positional named defaults := by
  intro hall
  cases h with
  | crowded hlength => exact absurd hall.fits (Nat.not_le_of_lt hlength)
  | refused _ hword => exact hword.not_acceptable hall.acceptable
  | missing _ _ hparam => exact hparam.not_completable hall.completable

theorem Fails.category {place : Word} {f : Fault} (h : Fails place params positional named defaults f) :
    f.cause.category = .argument := by
  cases h with
  | crowded | missing => rfl
  | refused =>
      show (refusal params _).category = .argument
      unfold refusal
      split <;> rfl

theorem resolve_cases (place : Word) (hparams : params.Nodup) (positional : List α) (named : List (Word × α))
    (defaults : List (String × α)) :
    (Resolvable params positional named defaults ∧
      resolve place params positional named defaults = .ok (bindings params positional named defaults)) ∨
    ∃ f, Fails place params positional named defaults f ∧ resolve place params positional named defaults = .error f := by
  by_cases hlength : params.length < positional.length
  · exact .inr ⟨_, .crowded hlength, if_pos hlength⟩
  · have hfits : positional.length ≤ params.length := Nat.le_of_not_lt hlength
    have hresolve : resolve place params positional named defaults =
        addNamed params (params.zip positional) named >>= addDefaults place defaults params := by
      unfold resolve
      rw [if_neg hlength, ofPositional_eq_zip hparams]
    have hzip := names_zip (α := α) hfits
    rcases addNamed_cases params (params.zip positional) named with ⟨hnamed, hadded⟩ | ⟨word, hword, hadded⟩
    · rw [hzip] at hnamed
      have htaken : names (params.zip positional ++ byName named) = taken params positional named := by
        rw [names_append, hzip, taken]
      have hdefaults : resolve place params positional named defaults =
          addDefaults place defaults params (params.zip positional ++ byName named) := by
        rw [hresolve, hadded]
        rfl
      rw [hdefaults]
      obtain ⟨hall, hok⟩ | ⟨param, hparam, herror⟩ :=
        addDefaults_cases place defaults hparams (params.zip positional ++ byName named)
      · rw [htaken] at hall hok
        exact .inl ⟨⟨hfits, hnamed, hall⟩, hok⟩
      · rw [htaken] at hparam
        exact .inr ⟨_, .missing hfits hnamed hparam, herror⟩
    · rw [hzip] at hword
      exact .inr ⟨_, .refused hfits hword, by rw [hresolve, hadded]; rfl⟩

/-- All parameters are bound, and each of them once. -/
theorem names_bindings (hparams : params.Nodup) (h : Resolvable params positional named defaults) :
    (names (bindings params positional named defaults)).Perm params := by
  have hdefaults : names (ofDefaults defaults (unfilled params (taken params positional named))) =
      unfilled params (taken params positional named) := by
    apply names_ofDefaults
    intro p hp
    obtain ⟨hmem, hvacant⟩ := List.mem_filter.1 hp
    exact h.completable p hmem (by simpa using hvacant)
  have htaken : (taken params positional named).Perm (params.filter (· ∈ taken params positional named)) := by
    have hnodup : (taken params positional named).Nodup :=
      List.nodup_append.2 ⟨hparams.sublist (List.take_sublist _ _), h.acceptable.distinct, fun p hp q hq heq =>
        h.acceptable.vacant q hq (heq ▸ hp)⟩
    rw [List.perm_ext_iff_of_nodup hnodup (hparams.filter _)]
    intro p
    have hsubset : p ∈ taken params positional named → p ∈ params := by
      intro hp
      rcases List.mem_append.1 hp with hfirst | hnamed
      · exact List.mem_of_mem_take hfirst
      · exact h.acceptable.declared p hnamed
    simpa using hsubset
  have hsplit : (params.filter (· ∈ taken params positional named) ++
      unfilled params (taken params positional named)).Perm params := by
    simpa [unfilled] using List.filter_append_perm (· ∈ taken params positional named) params
  rw [bindings, names_append, names_append, names_zip h.fits, hdefaults, ← taken]
  exact (htaken.append_right _).trans hsplit

/-- A parameter is bound to the argument at its position, or else to the one of its name, or else to its default. -/
theorem lookup_bindings (hparams : params.Nodup) (h : positional.length ≤ params.length) {i : Nat}
    (hi : i < params.length) :
    (bindings params positional named defaults).lookup params[i] =
      (positional[i]?.or ((byName named).lookup params[i])).or (defaults.lookup params[i]) := by
  rw [bindings, List.lookup_append, List.lookup_append, lookup_zip hparams positional hi]
  by_cases htaken : params[i] ∈ taken params positional named
  · have hbound : (positional[i]?.or ((byName named).lookup params[i])).isSome = true := by
      rw [← lookup_zip hparams positional hi, ← List.lookup_append, isSome_lookup_iff, names_append, names_zip h]
      exact htaken
    obtain ⟨a, ha⟩ := Option.isSome_iff_exists.1 hbound
    rw [ha, Option.some_or, Option.some_or]
  · have hmem : params[i] ∈ unfilled params (taken params positional named) :=
      List.mem_filter.2 ⟨List.getElem_mem hi, by simpa using htaken⟩
    rw [lookup_ofDefaults hmem]

/-- In what order the named arguments are given only changes the order of the bindings. -/
theorem bindings_perm {others : List (Word × α)} (hperm : others.Perm named) :
    (bindings params positional others defaults).Perm (bindings params positional named defaults) := by
  have hnames := names_byName_perm hperm
  have hunfilled : unfilled params (taken params positional others) = unfilled params (taken params positional named) := by
    apply List.filter_congr
    intro p _
    simp [taken, hnames.mem_iff]
  rw [bindings, bindings, hunfilled]
  exact ((hperm.map _).append_left _).append_right _

theorem Resolvable.of_perm {others : List (Word × α)} (h : Resolvable params positional named defaults)
    (hperm : others.Perm named) : Resolvable params positional others defaults := by
  have hnames := names_byName_perm hperm
  refine ⟨h.fits, h.acceptable.of_perm hperm, fun p hp hvacant => h.completable p hp fun htaken => hvacant ?_⟩
  simpa [taken, hnames.mem_iff] using htaken

/-- A call succeeds exactly if there are not too many arguments by position, those by name are acceptable and every
parameter that is left has a default. Then the parameters are what is bound, each to its argument by position, or else
by name, or else to its default, and other orders of the arguments by name give the same bindings. A call that fails does
so at the first argument by name that cannot be taken in, if that is the reason, and at its own word otherwise. -/
theorem resolve_binds (place : Word) (hparams : params.Nodup) (positional : List α) (named : List (Word × α))
    (defaults : List (String × α)) :
    ((∃ given, resolve place params positional named defaults = .ok given) ↔
      Resolvable params positional named defaults) ∧
    (∀ given, resolve place params positional named defaults = .ok given →
      (names given).Perm params ∧
      (∀ i, (hi : i < params.length) → given.lookup params[i] =
        (positional[i]?.or ((byName named).lookup params[i])).or (defaults.lookup params[i])) ∧
      ∀ others : List (Word × α), others.Perm named →
        ∃ given', resolve place params positional others defaults = .ok given' ∧ given'.Perm given) ∧
    ∀ f, resolve place params positional named defaults = .error f →
      f.cause.category = .argument ∧ Fails place params positional named defaults f := by
  rcases resolve_cases place hparams positional named defaults with ⟨hresolvable, hok⟩ | ⟨f, hfails, herror⟩
  · rw [hok]
    refine ⟨⟨fun _ => hresolvable, fun _ => ⟨_, rfl⟩⟩, ?_, fun f hf => by cases hf⟩
    rintro given ⟨⟩
    refine ⟨names_bindings hparams hresolvable, fun i hi => lookup_bindings hparams hresolvable.fits hi, ?_⟩
    intro others hperm
    rcases resolve_cases place hparams positional others defaults with ⟨-, hok'⟩ | ⟨f, hfails, -⟩
    · exact ⟨_, hok', bindings_perm hperm⟩
    · exact absurd (hresolvable.of_perm hperm) hfails.not_resolvable
  · rw [herror]
    refine ⟨⟨?_, fun hall => absurd hall hfails.not_resolvable⟩, ?_, ?_⟩
    · rintro ⟨given, hgiven⟩
      cases hgiven
    · intro given hgiven
      cases hgiven
    · rintro _ ⟨⟩
      exact ⟨hfails.category, hfails⟩

/-- Three parameters, the last one by name, the middle one by default. -/
theorem resolve_binds_middle :
    let params := ["a", "b", "c"]
    let named : List (Word × Nat) := [(⟨"c", 1⟩, 30)]
    params.Nodup ∧
      ∃ given, resolve ⟨"f", 1⟩ params [10] named [("b", 20), ("c", 0)] = .ok given ∧ (names given).Perm params ∧
        given.lookup "a" = some 10 ∧ given.lookup "b" = some 20 ∧ given.lookup "c" = some 30 := by
  intro params named
  have hparams : params.Nodup := by decide
  obtain ⟨-, hbinds, -⟩ := resolve_binds ⟨"f", 1⟩ hparams [10] named [("b", 20), ("c", 0)]
  obtain ⟨hnames, hvalues, -⟩ := hbinds [("a", 10), ("c", 30), ("b", 20)] rfl
  exact ⟨hparams, _, rfl, hnames, hvalues 0 (by decide), hvalues 1 (by decide), hvalues 2 (by decide)⟩

end Arguments
end SafariScript
