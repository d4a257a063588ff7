import Std.Data.String.ToInt
import SafariScript.Proofs.Display.Quoted
import SafariScript.Program.Display

/-!
# Trees of labels can be read back

What the display of a syntax tree shows is a tree of labels: nodes with parts on one line and groups of subtrees
(`Tree`, `Item`). The text of such a tree says where it ends and which tree it is (`Tree.delimited`): a label ends in
front of a bracket or an equals sign, a constant in front of a comma or a bracket, and a list of items at the first
item that no separator follows. Indentation is the same for trees at the same depth, so it need not be read.
-/

namespace SafariScript
namespace Display

/-! ## Texts that say where they end -/

/-- The text of something says what it is the text of and where it ends, if what stands behind is as required. -/
def Delimited {α : Type} (Behind : List Char → Prop) (text : α → List Char) (a : α) : Prop :=
  ∀ b rest rest', Behind rest → Behind rest' → text a ++ rest = text b ++ rest' → a = b ∧ rest = rest'

/-- A run of characters of one class ends at the first character of another class. -/
theorem run_append_inj {p : Char → Bool} {xs ys rest rest' : List Char} (hxs : ∀ c ∈ xs, p c = true)
    (hys : ∀ c ∈ ys, p c = true) (hrest : ∀ c ∈ rest.head?, p c = false) (hrest' : ∀ c ∈ rest'.head?, p c = false)
    (h : xs ++ rest = ys ++ rest') : xs = ys ∧ rest = rest' := by
  induction xs generalizing ys with
  | nil =>
      cases ys with
      | nil => exact ⟨rfl, h⟩
      | cons y ys =>
          subst h
          exact absurd (hys y List.mem_cons_self) (by rw [hrest y rfl]; decide)
  | cons x xs ih =>
      cases ys with
      | nil =>
          subst h
          exact absurd (hxs x List.mem_cons_self) (by rw [hrest' x rfl]; decide)
      | cons y ys =>
          obtain ⟨rfl, htail⟩ := List.cons.inj h
          obtain ⟨rfl, hbehind⟩ := ih (fun c hc => hxs c (List.mem_cons_of_mem _ hc))
            (fun c hc => hys c (List.mem_cons_of_mem _ hc)) htail
          exact ⟨rfl, hbehind⟩

/-- A separator follows, or what closes a list. -/
def Follows (sep close rest : List Char) : Prop :=
  sep <+: rest ∨ close <+: rest

theorem intercalate_append_inj {α : Type} {text : α → List Char} (sep close : List Char)
    (hdiffer : ∀ xs ys, sep ++ xs ≠ close ++ ys) {a b : α} {as bs : List α} {rest rest' : List Char}
    (ha : ∀ c ∈ a :: as, Delimited (Follows sep close) text c)
    (h : sep.intercalate ((a :: as).map text) ++ (close ++ rest)
      = sep.intercalate ((b :: bs).map text) ++ (close ++ rest')) :
    a :: as = b :: bs ∧ rest = rest' := by
  have hsep : ∀ xs, Follows sep close (sep ++ xs) := fun xs => .inl (List.prefix_append sep xs)
  have hclose : ∀ xs, Follows sep close (close ++ xs) := fun xs => .inr (List.prefix_append close xs)
  have hfirst := ha a List.mem_cons_self
  induction as generalizing a b bs with
  | nil =>
      cases bs with
      | nil =>
          simp only [List.map_cons, List.map_nil, List.intercalate_singleton] at h
          obtain ⟨rfl, hbehind⟩ := hfirst b _ _ (hclose rest) (hclose rest') h
          exact ⟨rfl, List.append_cancel_left hbehind⟩
      | cons b' bs =>
          simp only [List.map_cons, List.map_nil, List.intercalate_singleton, List.intercalate_cons_cons,
            List.append_assoc] at h
          exact absurd (hfirst b _ _ (hclose rest) (hsep _) h).2.symm (hdiffer _ _)
  | cons a' as ih =>
      cases bs with
      | nil =>
          simp only [List.map_cons, List.map_nil, List.intercalate_singleton, List.intercalate_cons_cons,
            List.append_assoc] at h
          exact absurd (hfirst b _ _ (hsep _) (hclose rest') h).2 (hdiffer _ _)
      | cons b' bs =>
          simp only [List.map_cons, List.intercalate_cons_cons, List.append_assoc] at h
          obtain ⟨rfl, hbehind⟩ := hfirst b _ _ (hsep _) (hsep _) h
          have htail : ∀ c ∈ a' :: as, Delimited (Follows sep close) text c :=
            fun c hc => ha c (List.mem_cons_of_mem _ hc)
          obtain ⟨hothers, hrest⟩ := ih htail (List.append_cancel_left hbehind) (htail a' List.mem_cons_self)
          exact ⟨congrArg (a :: ·) hothers, hrest⟩

/-- A list of items starts as its first item does. -/
theorem exists_intercalate_eq (sep item : List Char) (items : List (List Char)) :
    ∃ others, sep.intercalate (item :: items) = item ++ others := by
  cases items with
  | nil => exact ⟨[], by rw [List.intercalate_singleton, List.append_nil]⟩
  | cons next items => exact ⟨_, by rw [List.intercalate_cons_cons, List.append_assoc]⟩

/-! ## Constants -/

/-- What can stand behind an item of a node. -/
def Behind : List Char → Prop :=
  Follows [',', ' '] [')']

/-- A character of a constant that is not a text. -/
def isBareChar (c : Char) : Bool :=
  c.isAlphanum || c == '-'

/-- A character of an integer. -/
def isNumeralChar (c : Char) : Bool :=
  c.isDigit || c == '-'

theorem Behind.not_isBareChar {rest : List Char} (h : Behind rest) : ∀ c ∈ rest.head?, isBareChar c = false := by
  intro c hc
  rcases h with ⟨xs, rfl⟩ | ⟨xs, rfl⟩ <;> cases hc <;> decide

theorem isMark_not_isBareChar {mark : Char} (h : Text.IsMark mark) : isBareChar mark = false := by
  rcases h with rfl | rfl <;> decide

theorem isBareChar_of_isNumeralChar {c : Char} (h : isNumeralChar c = true) : isBareChar c = true := by
  rw [isNumeralChar, Bool.or_eq_true] at h
  rcases h with hdigit | hminus
  · simp [isBareChar, Char.isAlphanum, hdigit]
  · simp [isBareChar, hminus]

theorem isNumeralChar_of_mem_toString {n : Int} : ∀ c ∈ (toString n).toList, isNumeralChar c = true := by
  intro c hc
  have hdigits : ∀ {m : Nat}, c ∈ m.repr.toList → isNumeralChar c = true := by
    intro m hm
    rw [Nat.toList_repr] at hm
    rw [isNumeralChar, Nat.isDigit_of_mem_toDigits (by decide) (by decide) hm, Bool.true_or]
  rw [Int.toString_eq_repr, Int.repr_eq_if] at hc
  split at hc
  · exact hdigits hc
  · rw [String.toList_append, List.mem_append] at hc
    rcases hc with hminus | hc
    · rw [List.mem_singleton.1 hminus]
      rfl
    · exact hdigits hc

theorem toString_ne {n : Int} {s : String} (h : s.toList.all isNumeralChar = false) : toString n ≠ s := by
  rintro rfl
  rw [List.all_eq_true.2 isNumeralChar_of_mem_toString] at h
  cases h

/-- A constant that is not a text. -/
def isBare : Literal → Bool
  | .text _ => false
  | _ => true

theorem isBare_of_mem_display {value : Literal} (h : isBare value = true) :
    ∀ c ∈ value.display.toList, isBareChar c = true := by
  cases value with
  | null => exact List.all_eq_true.1 (by decide)
  | bool b => cases b <;> exact List.all_eq_true.1 (by decide)
  | int n => exact fun c hc => isBareChar_of_isNumeralChar (isNumeralChar_of_mem_toString c hc)
  | text s => cases h

theorem display_ne_nil {value : Literal} (h : isBare value = true) : value.display.toList ≠ [] := by
  cases value with
  | null => decide
  | bool b => cases b <;> decide
  | int n =>
      rw [Literal.display, Int.toString_eq_repr, Int.repr_eq_if]
      split
      · rw [Nat.toList_repr]
        exact Nat.toDigits_ne_nil
      · rw [String.toList_append]
        exact List.cons_ne_nil _ _
  | text s => cases h

theorem display_inj_of_isBare {value value' : Literal} (h : isBare value = true) (h' : isBare value' = true)
    (hdisplay : value.display = value'.display) : value = value' := by
  -- two integers are the only constants whose texts have to be compared
  match value, value' with
  | .int n, .int m => exact congrArg Literal.int (Int.repr_injective hdisplay)
  | .null, .int m | .bool true, .int m | .bool false, .int m => exact absurd hdisplay.symm (toString_ne (by decide))
  | .int n, .null | .int n, .bool true | .int n, .bool false => exact absurd hdisplay (toString_ne (by decide))
  | .null, .null | .bool true, .bool true | .bool false, .bool false => rfl
  | .null, .bool b => cases b <;> exact absurd hdisplay (by decide)
  | .bool b, .null => cases b <;> exact absurd hdisplay (by decide)
  | .bool true, .bool false | .bool false, .bool true => exact absurd hdisplay (by decide)

/-- A constant that is not a text starts with a character of its class. -/
theorem display_append_ne {value : Literal} (h : isBare value = true) {c : Char} (hc : isBareChar c = false)
    (rest rest' : List Char) : value.display.toList ++ rest ≠ c :: rest' := by
  intro heq
  obtain ⟨d, ds, hds⟩ := List.exists_cons_of_ne_nil (display_ne_nil h)
  have hbare : isBareChar d = true := isBare_of_mem_display h d (hds ▸ List.mem_cons_self)
  rw [hds] at heq
  rw [(List.cons.inj heq).1, hc] at hbare
  cases hbare

theorem quoted_append_ne {c : Char} (hc : ¬ Text.IsMark c) (s : String) (rest rest' : List Char) :
    (Text.quoted s).toList ++ rest ≠ c :: rest' := by
  intro heq
  rw [Text.toList_quoted] at heq
  rw [← (List.cons.inj heq).1] at hc
  exact hc (Text.isMark_quoteMark s.toList)

theorem display_append_ne_quoted {value : Literal} (h : isBare value = true) (s : String) (rest rest' : List Char) :
    value.display.toList ++ rest ≠ (Text.quoted s).toList ++ rest' := by
  rw [Text.toList_quoted]
  exact display_append_ne h (isMark_not_isBareChar (Text.isMark_quoteMark s.toList)) _ _

theorem display_append_inj_of_isBare {value value' : Literal} (h : isBare value = true) (h' : isBare value' = true)
    {rest rest' : List Char} (hrest : Behind rest) (hrest' : Behind rest')
    (heq : value.display.toList ++ rest = value'.display.toList ++ rest') : value = value' ∧ rest = rest' := by
  obtain ⟨hdisplay, hbehind⟩ := run_append_inj (isBare_of_mem_display h) (isBare_of_mem_display h')
    hrest.not_isBareChar hrest'.not_isBareChar heq
  exact ⟨display_inj_of_isBare h h' (String.toList_injective hdisplay), hbehind⟩

theorem delimited_literal (value : Literal) : Delimited Behind (fun v => v.display.toList) value := by
  intro value' rest rest' hrest hrest' h
  cases value with
  | text s =>
      cases value' with
      | text t =>
          obtain ⟨rfl, hbehind⟩ := Text.quoted_append_inj h
          exact ⟨rfl, hbehind⟩
      | _ => exact absurd h.symm (display_append_ne_quoted rfl s rest' rest)
  | _ =>
      cases value' with
      | text t => exact absurd h (display_append_ne_quoted rfl t rest rest')
      | _ => exact display_append_inj_of_isBare rfl rfl hrest hrest' h

/-! ## Trees of labels -/

/-- A letter or an underscore. -/
def isLabelChar (c : Char) : Bool :=
  c.isAlpha || c == '_'

/-- The name of a node or of one of its items. -/
structure Label where named ::
  text : String
  letters : text.toList.all isLabelChar = true := by decide

mutual

/-- A node with its items. -/
inductive Tree where
  | node (name : Label) (items : List Item)

/-- An item of a node, with its name. -/
inductive Item where
  | mk (name : Label) (content : Content)

/-- What an item consists of. -/
inductive Content where
  | literal (value : Literal)
  /-- A list of words, at least one. -/
  | words (first : String) (others : List String)
  /-- A group of subtrees, at least one. -/
  | group (first : Tree) (others : List Tree)

end

mutual

/-- The text of a tree. -/
def Tree.text (depth : Int) : Tree → List Char
  | .node name items =>
    (indent depth).toList ++ (name.text.toList ++ '(' ::
      (List.intercalate [',', ' '] (Item.texts depth items) ++ [')']))

/-- The text of an item of a node. -/
def Item.text (depth : Int) : Item → List Char
  | .mk name content => name.text.toList ++ '=' :: content.text depth

/-- The text of what an item consists of. -/
def Content.text (depth : Int) : Content → List Char
  | .literal value => value.display.toList
  | .words first others =>
    '[' :: (List.intercalate [',', ' '] ((first :: others).map fun word => (Text.quoted word).toList) ++ [']'])
  | .group first others =>
    '[' :: '\n' :: (List.intercalate [',', '\n'] (first.text (depth + 1) :: Tree.texts (depth + 1) others)
      ++ '\n' :: ((indent depth).toList ++ [']']))

/-- The texts of the items of a list. -/
def Item.texts (depth : Int) : List Item → List (List Char)
  | [] => []
  | i :: is => i.text depth :: Item.texts depth is

/-- The texts of the trees of a list. -/
def Tree.texts (depth : Int) : List Tree → List (List Char)
  | [] => []
  | t :: ts => t.text depth :: Tree.texts depth ts

end

@[simp] theorem Item.texts_eq (depth : Int) (is : List Item) : Item.texts depth is = is.map (Item.text depth) := by
  induction is with
  | nil => rfl
  | cons i is ih => rw [Item.texts, ih, List.map_cons]

@[simp] theorem Tree.texts_eq (depth : Int) (ts : List Tree) : Tree.texts depth ts = ts.map (Tree.text depth) := by
  induction ts with
  | nil => rfl
  | cons t ts ih => rw [Tree.texts, ih, List.map_cons]

theorem Label.append_inj {name name' : Label} {c : Char} {rest rest' : List Char} (hc : isLabelChar c = false)
    (h : name.text.toList ++ c :: rest = name'.text.toList ++ c :: rest') : name = name' ∧ rest = rest' := by
  obtain ⟨htext, hbehind⟩ := run_append_inj (List.all_eq_true.1 name.letters)
    (List.all_eq_true.1 name'.letters) (by simp [hc]) (by simp [hc]) h
  cases name
  cases name'
  obtain rfl := String.toList_injective htext
  exact ⟨rfl, (List.cons.inj hbehind).2⟩

/-! ## Items -/

theorem delimited_item {depth : Int} {name : Label} {content : Content}
    (h : Delimited Behind (Content.text depth) content) : Delimited Behind (Item.text depth) (.mk name content) := by
  rintro ⟨name', content'⟩ rest rest' hrest hrest' heq
  rw [Item.text, Item.text, List.append_assoc, List.append_assoc] at heq
  obtain ⟨rfl, hcontent⟩ := Label.append_inj (by decide) heq
  obtain ⟨rfl, hbehind⟩ := h content' rest rest' hrest hrest' hcontent
  exact ⟨rfl, hbehind⟩

/-- An item does not start with the bracket that ends a node. -/
theorem Item.text_append_ne (depth : Int) (i : Item) (rest rest' : List Char) :
    i.text depth ++ rest ≠ ')' :: rest' := by
  obtain ⟨name, content⟩ := i
  intro h
  rw [Item.text, List.append_assoc] at h
  have hletters := List.all_eq_true.1 name.letters
  cases hname : name.text.toList with
  | nil =>
      rw [hname] at h
      exact absurd (List.cons.inj h).1 (by decide)
  | cons c cs =>
      rw [hname] at h
      have hc := hletters c (hname ▸ List.mem_cons_self)
      rw [(List.cons.inj h).1] at hc
      exact absurd hc (by decide)

theorem Item.intercalate_append_ne (depth : Int) (i : Item) (is : List Item) (sep rest rest' : List Char) :
    sep.intercalate ((i :: is).map (Item.text depth)) ++ rest ≠ ')' :: rest' := by
  obtain ⟨others, hothers⟩ := exists_intercalate_eq sep (i.text depth) (is.map (Item.text depth))
  rw [List.map_cons, hothers, List.append_assoc]
  exact i.text_append_ne depth _ _

theorem delimited_node {depth : Int} {name : Label} {items : List Item}
    (h : ∀ i ∈ items, Delimited Behind (Item.text depth) i) :
    Delimited (fun _ => True) (Tree.text depth) (.node name items) := by
  rintro ⟨name', items'⟩ rest rest' - - heq
  simp only [Tree.text, Item.texts_eq, List.append_assoc, List.cons_append] at heq
  obtain ⟨rfl, hitems⟩ := Label.append_inj (by decide) (List.append_cancel_left heq)
  cases items with
  | nil =>
      cases items' with
      | nil => exact ⟨rfl, (List.cons.inj hitems).2⟩
      | cons i' is' => exact absurd hitems.symm (Item.intercalate_append_ne depth i' is' _ _ rest)
  | cons i is =>
      cases items' with
      | nil => exact absurd hitems (Item.intercalate_append_ne depth i is _ _ rest')
      | cons i' is' =>
          obtain ⟨hsame, hbehind⟩ := intercalate_append_inj [',', ' '] [')'] (fun _ _ h => by cases h) h hitems
          exact ⟨congrArg (Tree.node name) hsame, hbehind⟩

/-! ## Contents -/

/-- A constant does not start as a list does. -/
theorem literal_append_ne (value : Literal) (rest rest' : List Char) :
    value.display.toList ++ rest ≠ '[' :: rest' := by
  cases value with
  | text s => exact quoted_append_ne (by rintro (h | h) <;> cases h) s rest rest'
  | _ => exact display_append_ne rfl (by decide) rest rest'

/-- A list of words does not start as a group does. -/
theorem words_append_ne (sep : List Char) (first : String) (others : List String) (rest rest' : List Char) :
    sep.intercalate ((first :: others).map fun word => (Text.quoted word).toList) ++ rest ≠ '\n' :: rest' := by
  obtain ⟨tail, htail⟩ :=
    exists_intercalate_eq sep (Text.quoted first).toList (others.map fun word => (Text.quoted word).toList)
  rw [List.map_cons, htail, List.append_assoc]
  exact quoted_append_ne (by rintro (h | h) <;> cases h) first _ _

theorem delimited_constant (depth : Int) (value : Literal) :
    Delimited Behind (Content.text depth) (.literal value) := by
  rintro (value' | ⟨first', others'⟩ | ⟨first', others'⟩) rest rest' hrest hrest' heq
  · obtain ⟨rfl, hbehind⟩ := delimited_literal value value' rest rest' hrest hrest' heq
    exact ⟨rfl, hbehind⟩
  · exact absurd heq (literal_append_ne value _ _)
  · exact absurd heq (literal_append_ne value _ _)

theorem delimited_words (depth : Int) (first : String) (others : List String) :
    Delimited Behind (Content.text depth) (.words first others) := by
  rintro (value | ⟨first', others'⟩ | ⟨first', others'⟩) rest rest' - - heq
  · exact absurd heq.symm (literal_append_ne value _ _)
  · simp only [Content.text, List.append_assoc, List.cons_append, List.cons.injEq, true_and] at heq
    obtain ⟨hsame, hbehind⟩ := intercalate_append_inj [',', ' '] [']'] (fun _ _ h => by cases h)
      (fun _ _ _ _ _ _ _ hword => Text.quoted_append_inj hword) heq
    cases hsame
    exact ⟨rfl, hbehind⟩
  · simp only [Content.text, List.append_assoc, List.cons_append, List.cons.injEq, true_and] at heq
    exact absurd heq (words_append_ne _ first others _ _)

theorem delimited_group {depth : Int} {first : Tree} {others : List Tree}
    (h : ∀ t ∈ first :: others, Delimited (fun _ => True) (Tree.text (depth + 1)) t) :
    Delimited Behind (Content.text depth) (.group first others) := by
  rintro (value | ⟨first', others'⟩ | ⟨first', others'⟩) rest rest' - - heq
  · exact absurd heq.symm (literal_append_ne value _ _)
  · simp only [Content.text, List.append_assoc, List.cons_append, List.cons.injEq, true_and] at heq
    exact absurd heq.symm (words_append_ne _ first' others' _ _)
  · simp only [Content.text, Tree.texts_eq, List.append_assoc, List.cons_append, List.cons.injEq, true_and,
      ← List.map_cons] at heq
    have htrees : ∀ t ∈ first :: others, Delimited (Follows [',', '\n'] ('\n' :: ((indent depth).toList ++ [']'])))
        (Tree.text (depth + 1)) t :=
      fun t ht u xs ys _ _ => h t ht u xs ys trivial trivial
    obtain ⟨hsame, hbehind⟩ := intercalate_append_inj _ _ (fun _ _ h => by cases h) htrees (by simpa using heq)
    cases hsame
    exact ⟨rfl, hbehind⟩

mutual

/-- The text of a tree says which tree it is and where it ends. -/
theorem Tree.delimited (depth : Int) : (t : Tree) → Delimited (fun _ => True) (Tree.text depth) t
  | .node _ items => delimited_node fun i _ => Item.delimited depth i

theorem Item.delimited (depth : Int) : (i : Item) → Delimited Behind (Item.text depth) i
  | .mk _ content => delimited_item (Content.delimited depth content)

theorem Content.delimited (depth : Int) : (c : Content) → Delimited Behind (Content.text depth) c
  | .literal value => delimited_constant depth value
  | .words first others => delimited_words depth first others
  | .group first others => delimited_group fun t _ => Tree.delimited (depth + 1) t

end

/-- Trees with the same text at the same depth are the same. -/
theorem Tree.text_injective (depth : Int) : Function.Injective (Tree.text depth) := by
  intro t u h
  have happend : t.text depth ++ [] = u.text depth ++ [] := by rw [h]
  exact (t.delimited depth u [] [] trivial trivial happend).1

/-! ## Separators

A display can be written from left to right without knowing what is still to come: a group is set off from what stands
in front of it, unless that is the opening bracket, and every subtree of a group has a comma behind it, the last of
which is taken off again. That gives the same text, since no item ends in an opening bracket.
-/

/-- What is written in front of a group. -/
def separator (shown : List Char) : List Char :=
  if shown.getLast? = some '(' then [] else [',', ' ']

/-- The subtrees of a group, each on a line of its own. -/
def listed (children : List (List Char)) : List Char :=
  (children.flatMap fun child => '\n' :: (child ++ [','])).dropLast

/-- The last character is there and is no opening bracket. -/
def Closes (cs : List Char) : Prop :=
  ∃ c ∈ cs.getLast?, c ≠ '('

theorem Closes.append {ys : List Char} (h : Closes ys) (xs : List Char) : Closes (xs ++ ys) := by
  obtain ⟨c, hc, hne⟩ := h
  refine ⟨c, ?_, hne⟩
  rw [Option.mem_def] at hc ⊢
  rw [List.getLast?_append, hc, Option.some_or]

theorem closes_concat (xs : List Char) {c : Char} (h : c ≠ '(') : Closes (xs ++ [c]) :=
  ⟨c, by simp, h⟩

theorem closes_literal (value : Literal) : Closes value.display.toList := by
  have hbare {value : Literal} (h : isBare value = true) : Closes value.display.toList := by
    have hlast := List.getLast?_eq_some_getLast (display_ne_nil h)
    refine ⟨_, hlast, fun hbracket => ?_⟩
    have hmem := List.mem_of_getLast? hlast
    rw [hbracket] at hmem
    exact absurd (isBare_of_mem_display h '(' hmem) (by decide)
  cases value with
  | text s =>
      rw [Literal.display, Text.toList_quoted, ← List.cons_append]
      refine closes_concat _ ?_
      rcases Text.isMark_quoteMark s.toList with hmark | hmark <;> rw [hmark] <;> decide
  | _ => exact hbare rfl

theorem Item.closes (depth : Int) (i : Item) : Closes (i.text depth) := by
  obtain ⟨name, content⟩ := i
  rw [Item.text, List.append_cons]
  refine Closes.append ?_ _
  cases content with
  | literal value => exact closes_literal value
  | words first others =>
      rw [Content.text, ← List.cons_append]
      exact closes_concat _ (by decide)
  | group first others =>
      have hbracket : (Content.group first others).text depth =
          '[' :: '\n' :: (List.intercalate [',', '\n'] (Tree.texts (depth + 1) (first :: others)) ++
            '\n' :: (indent depth).toList) ++ [']'] := by
        simp [Content.text]
      rw [hbracket]
      exact closes_concat _ (by decide)

theorem intercalate_cons_eq {α : Type} (sep x : List α) (xs : List (List α)) :
    sep.intercalate (x :: xs) = x ++ xs.flatMap (sep ++ ·) := by
  induction xs generalizing x with
  | nil => simp
  | cons y ys ih => rw [List.intercalate_cons_cons, ih, List.flatMap_cons, List.append_assoc, List.append_assoc]

theorem closes_intercalate (depth : Int) (i : Item) (items : List Item) :
    Closes (List.intercalate [',', ' '] ((i :: items).map (Item.text depth))) := by
  induction items generalizing i with
  | nil => simpa using i.closes depth
  | cons next items ih =>
      rw [List.map_cons, List.map_cons, List.intercalate_cons_cons]
      exact (ih next).append _

/-- Written one after the other with separators, items give what they give joined. -/
theorem foldl_separator {depth : Int} {shown : List Char} (h : Closes shown) (items : List Item) :
    items.foldl (fun shown i => shown ++ separator shown ++ i.text depth) shown =
      shown ++ (items.map (Item.text depth)).flatMap ([',', ' '] ++ ·) := by
  induction items generalizing shown with
  | nil => simp
  | cons i items ih =>
      have hseparator : separator shown = [',', ' '] := by
        obtain ⟨c, hc, hne⟩ := h
        rw [Option.mem_def] at hc
        rw [separator, hc, if_neg (by simpa using hne)]
      rw [List.foldl_cons, ih ((i.closes depth).append _), hseparator, List.map_cons, List.flatMap_cons]
      simp only [List.append_assoc]

/-- The text of a node: the parts, joined, behind the opening bracket, and then the groups with separators. -/
theorem Tree.text_eq_foldl (depth : Int) (name : Label) (parts groups : List Item) :
    let opened := (indent depth).toList ++ (name.text.toList ++ ['('])
    let inline := List.intercalate [',', ' '] (parts.map (Item.text depth))
    (Tree.node name (parts ++ groups)).text depth =
      groups.foldl (fun shown i => shown ++ separator shown ++ i.text depth) (opened ++ inline) ++ [')'] := by
  intro opened inline
  have htext : (Tree.node name (parts ++ groups)).text depth =
      opened ++ List.intercalate [',', ' '] ((parts ++ groups).map (Item.text depth)) ++ [')'] := by
    simp [Tree.text, opened]
  rw [htext]
  congr 1
  cases parts with
  | cons i parts =>
      have hinline : Closes (opened ++ inline) := (closes_intercalate depth i parts).append opened
      rw [foldl_separator hinline]
      simp [inline, intercalate_cons_eq]
  | nil =>
      cases groups with
      | nil => rfl
      | cons i groups =>
          have hnone : separator (opened ++ inline) = [] := by simp [separator, opened, inline]
          rw [List.foldl_cons, foldl_separator ((i.closes depth).append _), hnone]
          simp [inline, intercalate_cons_eq]

/-- The text of a group, its subtrees listed with a comma behind each. -/
theorem Item.text_group (depth : Int) (name : Label) (first : Tree) (others : List Tree) :
    (Item.mk name (.group first others)).text depth =
      name.text.toList ++ ['=', '['] ++ listed ((first :: others).map (Tree.text (depth + 1))) ++
        '\n' :: ((indent depth).toList ++ [']']) := by
  have hlisted (child : List Char) (children : List (List Char)) :
      (child :: children).flatMap (fun child => '\n' :: (child ++ [','])) =
        '\n' :: (List.intercalate [',', '\n'] (child :: children) ++ [',']) := by
    induction children generalizing child with
    | nil => simp
    | cons next children ih =>
        rw [List.flatMap_cons, ih, List.intercalate_cons_cons]
        simp
  rw [listed, List.map_cons, hlisted, ← List.cons_append, List.dropLast_concat]
  simp [Item.text, Content.text]

end Display
end SafariScript
