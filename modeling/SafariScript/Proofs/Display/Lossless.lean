import SafariScript.Proofs.Display.Syntax
import SafariScript.Proofs.Eval.ControlFlow
import SafariScript.Proofs.Token.Lexicon

/-!
# A display tells the program

Programs that are shown alike are the same but for their lines (`unlined_eq_of_display`). Their displays are the texts
of trees of labels, so the trees are the same, and two expressions or statements with the same tree are built in the
same way from parts with the same trees (`Expr.unlined_eq_of_tree`, `Stmt.unlined_eq_of_tree`, by induction on the
first). One thing a tree does not tell by itself: the construction of an object is shown as the call of a function with
the name of the constructor. That name is a keyword, so no accepted program has a variable that is spelled like it.
-/

namespace SafariScript

namespace Display

/-! ## Items with different names -/

@[simp] theorem Item.word_inj {name name' : Label} {word word' : String} :
    Item.word name word = Item.word name' word' ↔ name = name' ∧ word = word' := by
  simp [Item.word, Item.part]

@[simp] theorem Item.part_inj {name name' : Label} {value value' : Literal} :
    Item.part name value = Item.part name' value' ↔ name = name' ∧ value = value' := by
  simp [Item.part]

@[simp] theorem Item.ofTrees_cons (name : Label) (t : Tree) (ts : List Tree) :
    Item.ofTrees name (t :: ts) = [.mk name (.group t ts)] :=
  rfl

@[simp] theorem Item.ofTrees_inj {name : Label} {ts us : List Tree} :
    Item.ofTrees name ts = Item.ofTrees name us ↔ ts = us := by
  cases ts <;> cases us <;> simp [Item.ofTrees]

/-- Which of two groups are there is told by their names. -/
theorem Item.ofTrees_append_inj {name name' : Label} (hname : name ≠ name') {ts us vs ws : List Tree} :
    Item.ofTrees name ts ++ Item.ofTrees name' vs = Item.ofTrees name us ++ Item.ofTrees name' ws ↔
      ts = us ∧ vs = ws := by
  cases ts <;> cases us <;> cases vs <;> cases ws <;> simp [Item.ofTrees, hname, hname.symm]

/-- So is whether there is a list of words in front of a group. -/
theorem Item.ofWords_append_inj {name name' : Label} (hname : name ≠ name') {ws vs : List String} {t u : Tree} :
    Item.ofWords name ws ++ Item.ofTrees name' [t] = Item.ofWords name vs ++ Item.ofTrees name' [u] ↔
      ws = vs ∧ t = u := by
  cases ws <;> cases vs <;> simp [Item.ofWords, hname, hname.symm]

theorem Tree.call_inj {callee callee' : Tree} {arguments arguments' named named' : List Tree}
    (h : Tree.call callee arguments named = Tree.call callee' arguments' named') :
    callee = callee' ∧ arguments = arguments' ∧ named = named' := by
  have hnames : Label.named "arguments" ≠ .named "named_arguments" := by simp
  simpa [Item.ofTrees_append_inj hnames] using h

end Display

open Display

/-- A method stands nowhere but in front of the arguments of its call. -/
theorem Expr.tree_ne_method (e : Expr) (name : String) (object : Tree) : e.tree ≠ .property name true object := by
  cases e <;> simp [Expr.tree]

theorem Expr.exists_ident_of_tree {e : Expr} {name : String} (h : e.tree = .variable name) :
    ∃ line, e = .ident ⟨name, line⟩ := by
  cases e with
  | ident word =>
      obtain rfl : word.text = name := by simpa [Expr.tree] using h
      exact ⟨word.line, rfl⟩
  | _ => simp [Expr.tree] at h

theorem UnaryOp.spelling_injective : Function.Injective UnaryOp.spelling := by
  intro op op' h
  cases op <;> cases op' <;> first | rfl | exact absurd h (by decide)

theorem BinaryOp.spelling_injective : Function.Injective BinaryOp.spelling := by
  intro op op' h
  rcases op with _ | _ | _ | _ | _ | (_ | _ | _ | _ | _ | _ | _ | _) <;>
    rcases op' with _ | _ | _ | _ | _ | (_ | _ | _ | _ | _ | _ | _ | _) <;> first | rfl | exact absurd h (by decide)

theorem Maker.spelling_injective : Function.Injective Maker.spelling := by
  intro maker maker' h
  cases maker <;> cases maker' <;> first | rfl | exact absurd h (by decide)

theorem Word.unlined_eq {word word' : Word} (h : word.text = word'.text) : word.unlined = word'.unlined := by
  rw [Word.unlined, Word.unlined, h]

/-- None of the words is spelled as a constructor. -/
def Unreserved (words : List Word) : Prop :=
  ∀ word ∈ words, ∀ maker : Maker, word.text ≠ maker.spelling

@[simp] theorem unreserved_append {words words' : List Word} :
    Unreserved (words ++ words') ↔ Unreserved words ∧ Unreserved words' :=
  List.forall_mem_append

/-- The constructor of an object is shown as a variable, but no variable is spelled like it. -/
theorem Expr.tree_ne_maker {e : Expr} (h : Unreserved e.variables) (maker : Maker) :
    e.tree ≠ .variable maker.spelling := by
  intro htree
  obtain ⟨line, rfl⟩ := Expr.exists_ident_of_tree htree
  exact h _ List.mem_cons_self maker rfl

mutual

/-- Expressions with the same tree are the same but for their lines. -/
theorem Expr.unlined_eq_of_tree : (e f : Expr) → Unreserved e.variables → Unreserved f.variables →
    e.tree = f.tree → e.unlined = f.unlined
  | .literal value, f, _, _, h => by
      cases f with
      | literal value' =>
          obtain rfl : value = value' := by simpa [Expr.tree] using h
          rfl
      | _ => simp [Expr.tree] at h
  | .ident name, f, _, _, h => by
      cases f with
      | ident name' =>
          have hname : name.text = name'.text := by simpa [Expr.tree] using h
          rw [Expr.unlined, Expr.unlined, Word.unlined_eq hname]
      | _ => simp [Expr.tree] at h
  | .unary op line operand, f, he, hf, h => by
      cases f with
      | unary op' line' operand' =>
          obtain ⟨hop, htree⟩ : op.spelling = op'.spelling ∧ operand.tree = operand'.tree := by
            simpa [Expr.tree] using h
          obtain rfl := UnaryOp.spelling_injective hop
          rw [Expr.unlined, Expr.unlined, operand.unlined_eq_of_tree operand' he hf htree]
      | _ => simp [Expr.tree] at h
  | .binary left op line right, f, he, hf, h => by
      cases f with
      | binary left' op' line' right' =>
          obtain ⟨hop, hleft, hright⟩ :
              op.spelling = op'.spelling ∧ left.tree = left'.tree ∧ right.tree = right'.tree := by
            simpa [Expr.tree] using h
          obtain rfl := BinaryOp.spelling_injective hop
          simp only [Expr.variables, unreserved_append] at he hf
          rw [Expr.unlined, Expr.unlined, left.unlined_eq_of_tree left' he.1 hf.1 hleft,
            right.unlined_eq_of_tree right' he.2 hf.2 hright]
      | _ => simp [Expr.tree] at h
  | .assign name value, f, he, hf, h => by
      cases f with
      | assign name' value' =>
          obtain ⟨hname, hvalue⟩ : name.text = name'.text ∧ value.tree = value'.tree := by
            simpa [Expr.tree] using h
          rw [Expr.unlined, Expr.unlined, Word.unlined_eq hname, value.unlined_eq_of_tree value' he hf hvalue]
      | _ => simp [Expr.tree] at h
  | .property object name, f, he, hf, h => by
      cases f with
      | property object' name' =>
          obtain ⟨hname, hobject⟩ : name.text = name'.text ∧ object.tree = object'.tree := by
            simpa [Expr.tree] using h
          rw [Expr.unlined, Expr.unlined, Word.unlined_eq hname, object.unlined_eq_of_tree object' he hf hobject]
      | _ => simp [Expr.tree] at h
  | .setProperty object name value, f, he, hf, h => by
      cases f with
      | setProperty object' name' value' =>
          obtain ⟨⟨hname, hobject⟩, hvalue⟩ :
              (name.text = name'.text ∧ object.tree = object'.tree) ∧ value.tree = value'.tree := by
            simpa [Expr.tree] using h
          simp only [Expr.variables, unreserved_append] at he hf
          rw [Expr.unlined, Expr.unlined, Word.unlined_eq hname,
            object.unlined_eq_of_tree object' he.1 hf.1 hobject, value.unlined_eq_of_tree value' he.2 hf.2 hvalue]
      | _ => simp [Expr.tree] at h
  | .array elements, f, he, hf, h => by
      cases f with
      | array elements' =>
          have helements : Expr.trees elements = Expr.trees elements' := by simpa [Expr.tree] using h
          rw [Expr.unlined, Expr.unlined, Expr.unlinedAll_eq_of_trees elements elements' he hf helements]
      | _ => simp [Expr.tree] at h
  | .element array line index, f, he, hf, h => by
      cases f with
      | element array' line' index' =>
          obtain ⟨harray, hindex⟩ : array.tree = array'.tree ∧ index.tree = index'.tree := by
            simpa [Expr.tree] using h
          simp only [Expr.variables, unreserved_append] at he hf
          rw [Expr.unlined, Expr.unlined, array.unlined_eq_of_tree array' he.1 hf.1 harray,
            index.unlined_eq_of_tree index' he.2 hf.2 hindex]
      | _ => simp [Expr.tree] at h
  | .setElement array line index value, f, he, hf, h => by
      cases f with
      | setElement array' line' index' value' =>
          obtain ⟨harray, hindex, hvalue⟩ :
              array.tree = array'.tree ∧ index.tree = index'.tree ∧ value.tree = value'.tree := by
            simpa [Expr.tree] using h
          simp only [Expr.variables, unreserved_append] at he hf
          rw [Expr.unlined, Expr.unlined, array.unlined_eq_of_tree array' he.1.1 hf.1.1 harray,
            index.unlined_eq_of_tree index' he.1.2 hf.1.2 hindex, value.unlined_eq_of_tree value' he.2 hf.2 hvalue]
      | _ => simp [Expr.tree] at h
  | .call callee line arguments named, f, he, hf, h => by
      simp only [Expr.variables, unreserved_append] at he
      cases f with
      | call callee' line' arguments' named' =>
          simp only [Expr.variables, unreserved_append] at hf
          obtain ⟨hcallee, harguments, hnamed⟩ := Tree.call_inj h
          rw [Expr.unlined, Expr.unlined, callee.unlined_eq_of_tree callee' he.1 hf.1 hcallee,
            Expr.unlinedAll_eq_of_trees arguments arguments' he.2.1 hf.2.1 harguments,
            NamedArg.unlinedAll_eq_of_trees named named' he.2.2 hf.2.2 hnamed]
      | method object' name' => exact absurd (Tree.call_inj h).1 (callee.tree_ne_method name'.text object'.tree)
      | construct maker' => exact absurd (Tree.call_inj h).1 (Expr.tree_ne_maker he.1 maker')
      | _ => simp [Expr.tree] at h
  | .method object name arguments named, f, he, hf, h => by
      simp only [Expr.variables, unreserved_append] at he
      cases f with
      | method object' name' arguments' named' =>
          simp only [Expr.variables, unreserved_append] at hf
          obtain ⟨hcallee, harguments, hnamed⟩ := Tree.call_inj h
          obtain ⟨hname, hobject⟩ : name.text = name'.text ∧ object.tree = object'.tree := by simpa using hcallee
          rw [Expr.unlined, Expr.unlined, Word.unlined_eq hname,
            object.unlined_eq_of_tree object' he.1 hf.1 hobject,
            Expr.unlinedAll_eq_of_trees arguments arguments' he.2.1 hf.2.1 harguments,
            NamedArg.unlinedAll_eq_of_trees named named' he.2.2 hf.2.2 hnamed]
      | call callee' => exact absurd (Tree.call_inj h).1.symm (callee'.tree_ne_method name.text object.tree)
      | _ => simp [Expr.tree] at h
  | .construct maker line arguments named, f, he, hf, h => by
      simp only [Expr.variables, unreserved_append] at he
      cases f with
      | construct maker' line' arguments' named' =>
          simp only [Expr.variables, unreserved_append] at hf
          obtain ⟨hmaker, harguments, hnamed⟩ := Tree.call_inj h
          obtain rfl : maker = maker' := Maker.spelling_injective (by simpa using hmaker)
          rw [Expr.unlined, Expr.unlined,
            Expr.unlinedAll_eq_of_trees arguments arguments' he.1 hf.1 harguments,
            NamedArg.unlinedAll_eq_of_trees named named' he.2 hf.2 hnamed]
      | call callee' =>
          simp only [Expr.variables, unreserved_append] at hf
          exact absurd (Tree.call_inj h).1.symm (Expr.tree_ne_maker hf.1 maker)
      | _ => simp [Expr.tree] at h

theorem Expr.unlinedAll_eq_of_trees : (es fs : List Expr) → Unreserved (Expr.variablesAll es) →
    Unreserved (Expr.variablesAll fs) → Expr.trees es = Expr.trees fs → Expr.unlinedAll es = Expr.unlinedAll fs
  | [], fs, _, _, h => by
      cases fs with
      | nil => rfl
      | cons f fs => cases h
  | e :: es, fs, he, hf, h => by
      cases fs with
      | nil => cases h
      | cons f fs =>
          obtain ⟨hfirst, hothers⟩ := List.cons.inj h
          simp only [Expr.variablesAll, unreserved_append] at he hf
          rw [Expr.unlinedAll, Expr.unlinedAll, e.unlined_eq_of_tree f he.1 hf.1 hfirst,
            Expr.unlinedAll_eq_of_trees es fs he.2 hf.2 hothers]

theorem NamedArg.unlinedAll_eq_of_trees : (as bs : List NamedArg) → Unreserved (NamedArg.variablesAll as) →
    Unreserved (NamedArg.variablesAll bs) → NamedArg.trees as = NamedArg.trees bs →
    NamedArg.unlinedAll as = NamedArg.unlinedAll bs
  | [], bs, _, _, h => by
      cases bs with
      | nil => rfl
      | cons b bs => cases h
  | .mk name value :: as, bs, ha, hb, h => by
      match bs with
      | [] => cases h
      | .mk name' value' :: bs =>
          obtain ⟨hfirst, hothers⟩ := List.cons.inj h
          obtain ⟨hname, hvalue⟩ : name.text = name'.text ∧ value.tree = value'.tree := by
            simpa [NamedArg.tree] using hfirst
          simp only [NamedArg.variablesAll, NamedArg.variables, unreserved_append] at ha hb
          rw [NamedArg.unlinedAll, NamedArg.unlinedAll, NamedArg.unlined, NamedArg.unlined, Word.unlined_eq hname,
            value.unlined_eq_of_tree value' ha.1 hb.1 hvalue, NamedArg.unlinedAll_eq_of_trees as bs ha.2 hb.2 hothers]

end

theorem Expr.unlined_eq_of_treeOption {value value' : Option Expr} (h : Unreserved (Expr.variablesOption value))
    (h' : Unreserved (Expr.variablesOption value')) (htree : Expr.treeOption value = Expr.treeOption value') :
    value.map Expr.unlined = value'.map Expr.unlined := by
  cases value with
  | none =>
      cases value' with
      | none => rfl
      | some e' => cases htree
  | some e =>
      cases value' with
      | none => cases htree
      | some e' => exact congrArg some (e.unlined_eq_of_tree e' h h' (List.cons.inj htree).1)

theorem Word.unlined_eq_of_texts {words words' : List Word} (h : words.map Word.text = words'.map Word.text) :
    words.map Word.unlined = words'.map Word.unlined := by
  have hunlined : ∀ ws : List Word, ws.map Word.unlined = (ws.map Word.text).map fun text => ⟨text, 0⟩ := by
    intro ws
    rw [List.map_map]
    rfl
  rw [hunlined, hunlined, h]

mutual

/-- Statements with the same tree are the same but for their lines. -/
theorem Stmt.unlined_eq_of_tree : (s t : Stmt) → Unreserved s.variables → Unreserved t.variables →
    s.tree = t.tree → s.unlined = t.unlined
  | .expr value, t, hs, ht, h => by
      cases t with
      | expr value' =>
          have hvalue : value.tree = value'.tree := by simpa [Stmt.tree] using h
          rw [Stmt.unlined, Stmt.unlined, value.unlined_eq_of_tree value' hs ht hvalue]
      | _ => simp [Stmt.tree] at h
  | .print value, t, hs, ht, h => by
      cases t with
      | print value' =>
          have hvalue : value.tree = value'.tree := by simpa [Stmt.tree] using h
          rw [Stmt.unlined, Stmt.unlined, value.unlined_eq_of_tree value' hs ht hvalue]
      | _ => simp [Stmt.tree] at h
  | .var name initial, t, hs, ht, h => by
      cases t with
      | var name' initial' =>
          obtain ⟨hname, hinitial⟩ :
              name.text = name'.text ∧ Expr.treeOption initial = Expr.treeOption initial' := by
            simpa [Stmt.tree] using h
          rw [Stmt.unlined, Stmt.unlined, Word.unlined_eq hname, Expr.unlined_eq_of_treeOption hs ht hinitial]
      | _ => simp [Stmt.tree] at h
  | .block body, t, hs, ht, h => by
      cases t with
      | block body' =>
          have hbody : Stmt.trees body = Stmt.trees body' := by simpa [Stmt.tree] using h
          rw [Stmt.unlined, Stmt.unlined, Stmt.unlinedAll_eq_of_trees body body' hs ht hbody]
      | _ => simp [Stmt.tree] at h
  | .cond condition body otherwise, t, hs, ht, h => by
      cases t with
      | cond condition' body' otherwise' =>
          obtain ⟨hcondition, hbody, hotherwise⟩ : condition.tree = condition'.tree ∧
              Stmt.trees body = Stmt.trees body' ∧ otherwise.trees = otherwise'.trees := by
            simpa [Stmt.tree] using h
          simp only [Stmt.variables, unreserved_append] at hs ht
          rw [Stmt.unlined, Stmt.unlined, condition.unlined_eq_of_tree condition' hs.1 ht.1 hcondition,
            Stmt.unlinedAll_eq_of_trees body body' hs.2.1 ht.2.1 hbody,
            otherwise.unlined_eq_of_trees otherwise' hs.2.2 ht.2.2 hotherwise]
      | _ => simp [Stmt.tree] at h
  | .loop condition body, t, hs, ht, h => by
      cases t with
      | loop condition' body' =>
          obtain ⟨hcondition, hbody⟩ : condition.tree = condition'.tree ∧ Stmt.trees body = Stmt.trees body' := by
            simpa [Stmt.tree] using h
          simp only [Stmt.variables, unreserved_append] at hs ht
          rw [Stmt.unlined, Stmt.unlined, condition.unlined_eq_of_tree condition' hs.1 ht.1 hcondition,
            Stmt.unlinedAll_eq_of_trees body body' hs.2 ht.2 hbody]
      | _ => simp [Stmt.tree] at h
  | .forIn line name start stop body, t, hs, ht, h => by
      cases t with
      | forIn line' name' start' stop' body' =>
          obtain ⟨hname, hstart, hstop, hbody⟩ : name.text = name'.text ∧ start.tree = start'.tree ∧
              Expr.treeOption stop = Expr.treeOption stop' ∧ Stmt.trees body = Stmt.trees body' := by
            cases stop with
            | none =>
                cases stop' with
                | none => simpa [Stmt.tree, Expr.treeOption] using h
                | some e' => simp [Stmt.tree, Expr.treeOption] at h
            | some e =>
                cases stop' with
                | none => simp [Stmt.tree, Expr.treeOption] at h
                | some e' => simpa [Stmt.tree, Expr.treeOption] using h
          simp only [Stmt.variables, unreserved_append] at hs ht
          rw [Stmt.unlined, Stmt.unlined, Word.unlined_eq hname,
            start.unlined_eq_of_tree start' hs.1 ht.1 hstart, Expr.unlined_eq_of_treeOption hs.2.1 ht.2.1 hstop,
            Stmt.unlinedAll_eq_of_trees body body' hs.2.2 ht.2.2 hbody]
      | _ => simp [Stmt.tree] at h
  | .breakLoop, t, _, _, h => by
      cases t with
      | breakLoop => rfl
      | _ => simp [Stmt.tree] at h
  | .continueLoop, t, _, _, h => by
      cases t with
      | continueLoop => rfl
      | _ => simp [Stmt.tree] at h
  | .run, t, _, _, h => by
      cases t with
      | run => rfl
      | _ => simp [Stmt.tree] at h
  | .define name params body, t, hs, ht, h => by
      cases t with
      | define name' params' body' =>
          obtain ⟨hname, hparams, hbody⟩ : name.text = name'.text ∧
              params.map Word.text = params'.map Word.text ∧ Stmt.trees body = Stmt.trees body' := by
            have hnames : Label.named "params" ≠ .named "body" := by simp
            simpa [Stmt.tree, - Item.ofTrees_cons, Item.ofWords_append_inj hnames] using h
          rw [Stmt.unlined, Stmt.unlined, Word.unlined_eq hname, Word.unlined_eq_of_texts hparams,
            Stmt.unlinedAll_eq_of_trees body body' hs ht hbody]
      | _ => simp [Stmt.tree] at h
  | .ret line value, t, hs, ht, h => by
      cases t with
      | ret line' value' =>
          have hvalue : Expr.treeOption value = Expr.treeOption value' := by simpa [Stmt.tree] using h
          rw [Stmt.unlined, Stmt.unlined, Expr.unlined_eq_of_treeOption hs ht hvalue]
      | _ => simp [Stmt.tree] at h
  | .explore line zone body, t, hs, ht, h => by
      cases t with
      | explore line' zone' body' =>
          obtain ⟨hzone, hbody⟩ : zone.text = zone'.text ∧ Stmt.trees body = Stmt.trees body' := by
            simpa [Stmt.tree] using h
          rw [Stmt.unlined, Stmt.unlined, Word.unlined_eq hzone, Stmt.unlinedAll_eq_of_trees body body' hs ht hbody]
      | _ => simp [Stmt.tree] at h
  | .throwBall line target, t, hs, ht, h => by
      cases t with
      | throwBall line' target' =>
          have htarget : target.tree = target'.tree := by simpa [Stmt.tree] using h
          rw [Stmt.unlined, Stmt.unlined, target.unlined_eq_of_tree target' hs ht htarget]
      | _ => simp [Stmt.tree] at h

theorem Otherwise.unlined_eq_of_trees : (o p : Otherwise) → Unreserved o.variables → Unreserved p.variables →
    o.trees = p.trees → o.unlined = p.unlined
  | .nothing, p, _, _, h => by
      cases p with
      | nothing => rfl
      | _ => simp [Otherwise.trees] at h
  | .block body, p, ho, hp, h => by
      cases p with
      | block body' =>
          have hbody : Stmt.trees body = Stmt.trees body' := by simpa [Otherwise.trees] using h
          rw [Otherwise.unlined, Otherwise.unlined, Stmt.unlinedAll_eq_of_trees body body' ho hp hbody]
      | _ => simp [Otherwise.trees] at h
  | .elseIf condition body otherwise, p, ho, hp, h => by
      cases p with
      | elseIf condition' body' otherwise' =>
          obtain ⟨hcondition, hbody, hotherwise⟩ : condition.tree = condition'.tree ∧
              Stmt.trees body = Stmt.trees body' ∧ otherwise.trees = otherwise'.trees := by
            simpa [Otherwise.trees] using h
          simp only [Otherwise.variables, unreserved_append] at ho hp
          rw [Otherwise.unlined, Otherwise.unlined, condition.unlined_eq_of_tree condition' ho.1 hp.1 hcondition,
            Stmt.unlinedAll_eq_of_trees body body' ho.2.1 hp.2.1 hbody,
            otherwise.unlined_eq_of_trees otherwise' ho.2.2 hp.2.2 hotherwise]
      | _ => simp [Otherwise.trees] at h

theorem Stmt.unlinedAll_eq_of_trees : (ss ts : List Stmt) → Unreserved (Stmt.variablesAll ss) →
    Unreserved (Stmt.variablesAll ts) → Stmt.trees ss = Stmt.trees ts → Stmt.unlinedAll ss = Stmt.unlinedAll ts
  | [], ts, _, _, h => by
      cases ts with
      | nil => rfl
      | cons t ts => cases h
  | s :: ss, ts, hs, ht, h => by
      cases ts with
      | nil => cases h
      | cons t ts =>
          obtain ⟨hfirst, hothers⟩ := List.cons.inj h
          simp only [Stmt.variablesAll, unreserved_append] at hs ht
          rw [Stmt.unlinedAll, Stmt.unlinedAll, s.unlined_eq_of_tree t hs.1 ht.1 hfirst,
            Stmt.unlinedAll_eq_of_trees ss ts hs.2 ht.2 hothers]

end

/-! ## Accepted programs -/

/-- Each token of a scan is denoted by a segment. -/
theorem Yields.exists_denotes {line : Int} {segments : List Segment} {ts : List Token} {problems : Diagnostics}
    (h : Yields line segments ts problems) {t : Token} (ht : t ∈ ts) : ∃ s, Segment.Denotes s t.kind := by
  induction h with
  | nil => cases ht
  | token hkind _ _ _ ih =>
      rcases List.mem_cons.1 ht with rfl | ht
      · exact ⟨_, hkind⟩
      · exact ih ht
  | problem _ _ ih | silent _ _ ih => exact ih ht

/-- An identifier is no keyword. -/
theorem spelling_ne_of_denotes {s : Segment} {name : String} (h : s.Denotes (.ident name)) (keyword : Keyword) :
    keyword.spelling ≠ name := by
  cases h with
  | ident hcs =>
      intro hspelling
      exact hcs keyword (by rw [hspelling, String.toList_ofList])

theorem unreserved_of_parseSource {line : Int} {interactive : Bool} {source : String} {program : Program}
    (h : (parseSource line interactive source).result = .ok program) : Unreserved program.variables := by
  obtain ⟨scan, hscan, hscript⟩ := script_of_parseSource h
  obtain ⟨-, rfl⟩ := Scan.ofSource_eq_ok.1 hscan
  intro word hword maker hmaker
  obtain ⟨s, hs⟩ := (lexed_split line _).yields.exists_denotes (hscript.variables word hword)
  exact spelling_ne_of_denotes hs maker.keyword (by rw [Grammar.spelling_maker, hmaker])

/-- A display loses nothing but the lines: accepted programs that are shown alike, one step to the right or another
number of them, are the same up to lines. -/
theorem unlined_eq_of_display {line line' : Int} {interactive interactive' : Bool} {source source' : String}
    {program program' : Program} (hparse : (parseSource line interactive source).result = .ok program)
    (hparse' : (parseSource line' interactive' source').result = .ok program') {depth : Int}
    (hdisplay : program.display depth = program'.display depth) : program.unlined = program'.unlined := by
  have htext : program.tree.text depth = program'.tree.text depth := by
    rw [program.text_tree, program'.text_tree, hdisplay]
  have htree : program.tree = program'.tree := Tree.text_injective depth htext
  have hstatements : Stmt.trees program.statements = Stmt.trees program'.statements := by
    simpa [Program.tree] using htree
  rw [Program.unlined, Program.unlined, Stmt.unlinedAll_eq_of_trees program.statements program'.statements
    (unreserved_of_parseSource hparse) (unreserved_of_parseSource hparse') hstatements]

/-- A program on one line and on four, with brackets, quotation marks and a line feed in a string. -/
theorem unlined_eq_of_display_quotes :
    let program : Program := ⟨[.var ⟨"s", 3⟩ (some (.literal (.text "'],\n\""))),
      .expr (.construct .team 3 [.ident ⟨"s", 3⟩] [.mk ⟨"n", 3⟩ (.literal (.int 2))])]⟩
    let program' : Program := ⟨[.var ⟨"s", 1⟩ (some (.literal (.text "'],\n\""))),
      .expr (.construct .team 3 [.ident ⟨"s", 3⟩] [.mk ⟨"n", 4⟩ (.literal (.int 2))])]⟩
    (parseSource 3 false "var s = \"'],\\n\\\"\"; Team(s, n = 2);").result = .ok program ∧
      (parseSource 1 true "var s = \"'],\n\\\"\"\nTeam(s,\nn = 2)").result = .ok program' ∧
      program.display (-2) = program'.display (-2) ∧ program.unlined = program'.unlined := by
  intro program program'
  have hparse : (parseSource 3 false "var s = \"'],\\n\\\"\"; Team(s, n = 2);").result = .ok program := rfl
  have hparse' : (parseSource 1 true "var s = \"'],\n\\\"\"\nTeam(s,\nn = 2)").result = .ok program' := rfl
  have hdisplay : program.display (-2) = program'.display (-2) := rfl
  exact ⟨hparse, hparse', hdisplay, unlined_eq_of_display hparse hparse' hdisplay⟩

end SafariScript
