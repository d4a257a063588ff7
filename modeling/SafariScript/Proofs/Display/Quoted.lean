import Mathlib.Data.Nat.Basic
import SafariScript.Text.Quoted

/-!
# Quoted texts can be read back

A quoted text says where it ends, whatever stands behind it, and which text it is. Every character is written in
a way that can be read back (`unquoteChar_quoteChar`), also if it is written as an escape with hexadecimal digits,
and no character is written such that it starts with the quotation mark.
-/

namespace SafariScript
namespace Text

/-! ## Hexadecimal digits -/

/-- The value of a hexadecimal digit. -/
def hexValue (c : Char) : Nat :=
  if c.toNat < 'a'.toNat then c.toNat - '0'.toNat else c.toNat - 'a'.toNat + 10

/-- The number that is written with hexadecimal digits. -/
def ofHexDigits (cs : List Char) : Nat :=
  cs.foldl (fun n c => 16 * n + hexValue c) 0

theorem hexValue_digitChar {n : Nat} (hn : n < 16) : hexValue (Nat.digitChar n) = n := by
  have hall : ∀ m : Fin 16, hexValue (Nat.digitChar m) = m := by decide
  exact hall ⟨n, hn⟩

theorem ofHexDigits_append_digit (cs : List Char) (c : Char) :
    ofHexDigits (cs ++ [c]) = 16 * ofHexDigits cs + hexValue c := by
  simp [ofHexDigits]

theorem ofHexDigits_toDigits (n : Nat) : ofHexDigits (Nat.toDigits 16 n) = n := by
  induction n using Nat.strong_induction_on with
  | h n ih =>
      rw [Nat.toDigits_eq_if (by decide)]
      split
      · next hn =>
          simp [ofHexDigits, hexValue_digitChar hn]
      · rw [ofHexDigits_append_digit, ih (n / 16) (by omega), hexValue_digitChar (by omega)]
        omega

theorem ofHexDigits_padded (k : Nat) (cs : List Char) :
    ofHexDigits (List.replicate k '0' ++ cs) = ofHexDigits cs := by
  induction k with
  | zero => rfl
  | succ k ih =>
      have hzero : 16 * 0 + hexValue '0' = 0 := by decide
      rw [← ih, List.replicate_succ, List.cons_append, ofHexDigits, List.foldl_cons, hzero, ofHexDigits]

theorem ofHexDigits_hexDigits (width n : Nat) : ofHexDigits (hexDigits width n) = n := by
  simp [hexDigits, ofHexDigits_padded, ofHexDigits_toDigits]

theorem length_hexDigits {width n : Nat} (hn : (Nat.toDigits 16 n).length ≤ width) :
    (hexDigits width n).length = width := by
  rw [hexDigits, List.length_append, List.length_replicate]
  omega

/-! ## Characters -/

/-- Read a character that is written with hexadecimal digits. -/
def readHex (width : Nat) (cs : List Char) : Option (Char × List Char) :=
  some (Char.ofNat (ofHexDigits (cs.take width)), cs.drop width)

theorem readHex_hexDigits {width : Nat} {c : Char} (hc : (Nat.toDigits 16 c.toNat).length ≤ width)
    (rest : List Char) : readHex width (hexDigits width c.toNat ++ rest) = some (c, rest) := by
  have hlength := length_hexDigits hc
  rw [readHex, List.take_left' hlength, List.drop_left' hlength, ofHexDigits_hexDigits, Char.ofNat_toNat]

/-- Read the first character of what stands between quotation marks. -/
def unquoteChar : List Char → Option (Char × List Char)
  | '\\' :: 'n' :: rest => some ('\n', rest)
  | '\\' :: 'r' :: rest => some ('\r', rest)
  | '\\' :: 't' :: rest => some ('\t', rest)
  | '\\' :: 'x' :: rest => readHex 2 rest
  | '\\' :: 'u' :: rest => readHex 4 rest
  | '\\' :: 'U' :: rest => readHex 8 rest
  | '\\' :: c :: rest => some (c, rest)
  | c :: rest => some (c, rest)
  | [] => none

theorem unquoteChar_plain {c : Char} (hc : c ≠ '\\') (rest : List Char) :
    unquoteChar (c :: rest) = some (c, rest) := by
  rw [unquoteChar] <;> simp [hc]

/-- One of the two quotation marks. -/
def IsMark (c : Char) : Prop :=
  c = '\'' ∨ c = '"'

theorem isMark_quoteMark (cs : List Char) : IsMark (quoteMark cs) := by
  unfold quoteMark
  split
  · exact .inr rfl
  · exact .inl rfl

theorem IsMark.ne_backslash {mark : Char} (h : IsMark mark) : mark ≠ '\\' := by
  rcases h with rfl | rfl <;> decide

theorem unquoteChar_quoteChar {mark : Char} (hmark : IsMark mark) (c : Char) (rest : List Char) :
    unquoteChar (quoteChar mark c ++ rest) = some (c, rest) := by
  have hvalid : c.toNat < 16 ^ 8 := by
    have := c.valid
    simp only [UInt32.isValidChar, Nat.isValidChar] at this
    simp only [Char.toNat]
    omega
  unfold quoteChar
  split_ifs with hself hnewline hreturn htab hcovered htwo hfour
  · -- behind a backslash, neither a mark nor a backslash starts an escape of another kind
    rw [Bool.or_eq_true, beq_iff_eq, beq_iff_eq] at hself
    rcases hself with rfl | rfl
    · rcases hmark with rfl | rfl <;> rfl
    · rfl
  · rw [beq_iff_eq.1 hnewline]
    rfl
  · rw [beq_iff_eq.1 hreturn]
    rfl
  · rw [beq_iff_eq.1 htab]
    rfl
  · exact readHex_hexDigits ((Nat.length_toDigits_le_iff (by decide) (by decide)).2 htwo) rest
  · exact readHex_hexDigits ((Nat.length_toDigits_le_iff (by decide) (by decide)).2 hfour) rest
  · exact readHex_hexDigits ((Nat.length_toDigits_le_iff (by decide) (by decide)).2 hvalid) rest
  · apply unquoteChar_plain
    intro hc
    simp [hc] at hself

theorem quoteChar_append_ne {mark : Char} (hmark : IsMark mark) (c : Char) (rest rest' : List Char) :
    quoteChar mark c ++ rest ≠ mark :: rest' := by
  intro h
  have hread := unquoteChar_quoteChar hmark c rest
  rw [h, unquoteChar_plain hmark.ne_backslash] at hread
  obtain ⟨rfl, rfl⟩ := Prod.mk.inj (Option.some.inj hread)
  have hself : quoteChar mark mark = ['\\', mark] := by simp [quoteChar]
  rw [hself] at h
  exact hmark.ne_backslash (List.cons.inj h).1.symm

/-! ## Texts -/

theorem quoteChars_append_inj {mark : Char} (hmark : IsMark mark) {cs ds rest rest' : List Char}
    (h : cs.flatMap (quoteChar mark) ++ mark :: rest = ds.flatMap (quoteChar mark) ++ mark :: rest') :
    cs = ds ∧ rest = rest' := by
  induction cs generalizing ds with
  | nil =>
      cases ds with
      | nil => exact ⟨rfl, (List.cons.inj h).2⟩
      | cons d ds =>
          rw [List.flatMap_cons, List.append_assoc] at h
          exact absurd h.symm (quoteChar_append_ne hmark d _ rest)
  | cons c cs ih =>
      cases ds with
      | nil =>
          rw [List.flatMap_cons, List.append_assoc] at h
          exact absurd h (quoteChar_append_ne hmark c _ rest')
      | cons d ds =>
          rw [List.flatMap_cons, List.flatMap_cons, List.append_assoc, List.append_assoc] at h
          have hread := congrArg unquoteChar h
          rw [unquoteChar_quoteChar hmark, unquoteChar_quoteChar hmark] at hread
          obtain ⟨rfl, hbehind⟩ := Prod.mk.inj (Option.some.inj hread)
          obtain ⟨rfl, hrest⟩ := ih hbehind
          exact ⟨rfl, hrest⟩

theorem toList_quoted (s : String) :
    (quoted s).toList
      = quoteMark s.toList :: (s.toList.flatMap (quoteChar (quoteMark s.toList)) ++ [quoteMark s.toList]) := by
  simp [quoted]

/-- A quoted text is followed by other text in one way only. -/
theorem quoted_append_inj {s t : String} {rest rest' : List Char}
    (h : (quoted s).toList ++ rest = (quoted t).toList ++ rest') : s = t ∧ rest = rest' := by
  simp only [toList_quoted, List.cons_append, List.append_assoc, List.nil_append, List.cons.injEq] at h
  obtain ⟨hmark, hbody⟩ := h
  rw [← hmark] at hbody
  obtain ⟨hchars, hrest⟩ := quoteChars_append_inj (isMark_quoteMark s.toList) hbody
  exact ⟨String.toList_injective hchars, hrest⟩

end Text
end SafariScript
