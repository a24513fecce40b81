import Mathlib.Algebra.Ring.Nat
import Mathlib.Tactic.SplitIfs
import TokenLayout.Text.Quoted

/-!
# Quoted texts can be read back

A quoted text says where it ends: what stands between the marks is read one character at a time
(`readEscape`), and no character is written with the bare mark in front. So a quoted text with
anything behind it comes from one text and one rest only (`prefixFree_quoteChars`), whatever marks,
backslashes or other quoted texts the text itself holds.
-/

namespace TokenLayout.Text

/-- What is written can be split off the front of any longer text. -/
def PrefixFree {α : Type} (code : α → List Char) : Prop :=
  ∀ ⦃a b : α⦄ ⦃rest rest' : List Char⦄, code a ++ rest = code b ++ rest' → a = b ∧ rest = rest'

/-- A code that one reader can undo is prefix-free. -/
theorem prefixFree_of_reader {α : Type} {code : α → List Char} (read : List Char → α × List Char)
    (h : ∀ a rest, read (code a ++ rest) = (a, rest)) : PrefixFree code := by
  intro a b rest rest' heq
  have hread : (a, rest) = (b, rest') := by rw [← h a rest, heq, h b rest']
  exact Prod.mk.inj hread

/-! ## Code points -/

/-- The value of a hexadecimal digit in lower case. -/
def digitValue (c : Char) : Nat :=
  if c.toNat < 0x3a then c.toNat - 0x30 else c.toNat - 0x57

theorem digitValue_digitChar : ∀ d < 16, digitValue (Nat.digitChar d) = d := by
  decide

/-- The number that some hexadecimal digits stand for. -/
def hexValue (digits : List Char) : Nat :=
  digits.foldl (fun n c => 16 * n + digitValue c) 0

theorem length_hexDigits (width n : Nat) : (hexDigits width n).length = width := by
  induction width generalizing n with
  | zero => rfl
  | succ width ih => simp [hexDigits, ih]

/-- Digits give back the number, as far as there are digits for it. -/
theorem hexValue_hexDigits (width n : Nat) : hexValue (hexDigits width n) = n % 16 ^ width := by
  induction width generalizing n with
  | zero => simp [hexDigits, hexValue, Nat.mod_one]
  | succ width ih =>
    have hdigit : digitValue (Nat.digitChar (n % 16)) = n % 16 :=
      digitValue_digitChar _ (Nat.mod_lt n (by decide))
    have hstep : hexValue (hexDigits (width + 1) n) =
        16 * hexValue (hexDigits width (n / 16)) + digitValue (Nat.digitChar (n % 16)) := by
      simp [hexValue, hexDigits, List.foldl_append]
    rw [hstep, ih, hdigit, Nat.pow_succ', Nat.mod_mul, Nat.add_comm]

/-- The character whose code point is in the first `width` digits, and what is behind them. -/
def readCode (width : Nat) (cs : List Char) : Char × List Char :=
  (Char.ofNat (hexValue (cs.take width)), cs.drop width)

theorem readCode_hexDigits {width : Nat} {c : Char} (h : c.toNat < 16 ^ width)
    (rest : List Char) : readCode width (hexDigits width c.toNat ++ rest) = (c, rest) := by
  have hlen := length_hexDigits width c.toNat
  simp only [readCode, List.take_left' hlen, List.drop_left' hlen, hexValue_hexDigits,
    Nat.mod_eq_of_lt h, Char.ofNat_toNat]

theorem toNat_lt_sixteen_pow_eight (c : Char) : c.toNat < 16 ^ 8 :=
  c.val.toNat_lt_size

/-! ## Escapes -/

/-- Reads one character as it is written between two marks. -/
def readEscape : List Char → Char × List Char
  | '\\' :: 't' :: rest => ('\t', rest)
  | '\\' :: 'n' :: rest => ('\n', rest)
  | '\\' :: 'r' :: rest => ('\r', rest)
  | '\\' :: 'x' :: rest => readCode 2 rest
  | '\\' :: 'u' :: rest => readCode 4 rest
  | '\\' :: 'U' :: rest => readCode 8 rest
  | '\\' :: c :: rest => (c, rest)
  | c :: rest => (c, rest)
  | [] => (default, [])

theorem readEscape_of_ne {c : Char} (h : c ≠ '\\') (rest : List Char) :
    readEscape (c :: rest) = (c, rest) := by
  unfold readEscape
  split <;> simp_all

/-- A mark or a backslash follows a backslash without being taken for a letter of an escape. -/
theorem readEscape_backslash {c : Char} (h : c = '\'' ∨ c = '"' ∨ c = '\\') (rest : List Char) :
    readEscape ('\\' :: c :: rest) = (c, rest) := by
  rcases h with rfl | rfl | rfl <;> rfl

/-- An escaped character is read back, whatever follows it. -/
theorem readEscape_escape {mark : Char} (hm : mark = '\'' ∨ mark = '"') (c : Char)
    (rest : List Char) : readEscape (escape mark c ++ rest) = (c, rest) := by
  unfold escape
  split_ifs with hmark htab hnewline hreturn hprint hbyte hbasic
  · refine readEscape_backslash ?_ rest
    rcases hmark with rfl | rfl
    · exact hm.imp_right Or.inl
    · exact Or.inr (Or.inr rfl)
  · rw [htab]; rfl
  · rw [hnewline]; rfl
  · rw [hreturn]; rfl
  · exact readEscape_of_ne (fun h => hmark (Or.inr h)) rest
  · exact readCode_hexDigits (by simpa using hbyte) rest
  · exact readCode_hexDigits (by simpa using hbasic) rest
  · exact readCode_hexDigits (toNat_lt_sixteen_pow_eight c) rest

theorem prefixFree_escape {mark : Char} (hm : mark = '\'' ∨ mark = '"') :
    PrefixFree (escape mark) :=
  prefixFree_of_reader readEscape (readEscape_escape hm)

/-- No character is written with the bare mark in front. -/
theorem escape_append_ne_mark_cons {mark : Char} (hm : mark ≠ '\\') (c : Char)
    (rest rest' : List Char) : escape mark c ++ rest ≠ mark :: rest' := by
  have hhead : ∃ d tail, escape mark c = d :: tail ∧ d ≠ mark := by
    unfold escape
    split_ifs with hmark
    any_goals exact ⟨'\\', _, rfl, hm.symm⟩
    -- The one character written without a backslash is not the mark.
    exact ⟨c, [], rfl, fun h => hmark (Or.inl h)⟩
  obtain ⟨d, tail, heq, hne⟩ := hhead
  rw [heq, List.cons_append]
  exact fun h => hne (List.cons.inj h).1

/-! ## Quotations -/

/-- A text stands between single or double quotes. -/
theorem quoteMark_cases (cs : List Char) : quoteMark cs = '\'' ∨ quoteMark cs = '"' := by
  unfold quoteMark
  split_ifs
  · exact Or.inr rfl
  · exact Or.inl rfl

/-- The first bare mark ends the text. -/
theorem flatMap_escape_inj {mark : Char} (hm : mark = '\'' ∨ mark = '"') {cs ds : List Char}
    {rest rest' : List Char}
    (h : cs.flatMap (escape mark) ++ mark :: rest = ds.flatMap (escape mark) ++ mark :: rest') :
    cs = ds ∧ rest = rest' := by
  have hbackslash : mark ≠ '\\' := by rcases hm with rfl | rfl <;> decide
  induction cs generalizing ds with
  | nil =>
    cases ds with
    | nil => exact ⟨rfl, (List.cons.inj h).2⟩
    | cons d ds =>
      rw [List.flatMap_nil, List.flatMap_cons, List.append_assoc] at h
      exact absurd h.symm (escape_append_ne_mark_cons hbackslash d _ _)
  | cons c cs ih =>
    cases ds with
    | nil =>
      rw [List.flatMap_nil, List.flatMap_cons, List.append_assoc] at h
      exact absurd h (escape_append_ne_mark_cons hbackslash c _ _)
    | cons d ds =>
      simp only [List.flatMap_cons, List.append_assoc] at h
      obtain ⟨rfl, htail⟩ := prefixFree_escape hm h
      obtain ⟨rfl, hrest⟩ := ih htail
      exact ⟨rfl, hrest⟩

theorem prefixFree_quoteChars : PrefixFree quoteChars := by
  intro cs ds rest rest' h
  simp only [quoteChars, List.cons_append, List.append_assoc, List.nil_append,
    List.cons.injEq] at h
  obtain ⟨hmark, hbody⟩ := h
  rw [← hmark] at hbody
  exact flatMap_escape_inj (quoteMark_cases cs) hbody

/-- A quoted text can be told from what follows it. -/
theorem quote_append_inj {s t : String} {rest rest' : List Char}
    (h : (quote s).toList ++ rest = (quote t).toList ++ rest') : s = t ∧ rest = rest' := by
  simp only [quote, String.toList_ofList] at h
  obtain ⟨hst, hrest⟩ := prefixFree_quoteChars h
  exact ⟨String.toList_inj.1 hst, hrest⟩

end TokenLayout.Text
