import SetLang.Proofs.Number.IntegerText
import SetLang.Text.Quoted
import Mathlib.Algebra.Group.Nat.Defs

/-!
# Quoted text can be read back

A reader of text in quotes, which takes the escapes that quoting writes and stops behind the closing
quote. Whatever a text is and whatever follows it, the reader finds the text and what follows it: no
character ends the quotes early or takes part of what follows. And no quoted text has a line break
in it, of any of the kinds that split a text into lines.
-/

namespace SetLang.Text

/-! ## Reading -/

/-- How many hexadecimal digits an escape has after its letter. -/
def escapeWidth? : Char → Option Nat
  | 'x' => some 2
  | 'u' => some 4
  | 'U' => some 8
  | _ => none

/-- The character that an escape without digits stands for. -/
def shortEscape? (quote k : Char) : Option Char :=
  if k = quote ∨ k = '\\' then some k
  else if k = 'n' then some '\n'
  else if k = 'r' then some '\r'
  else if k = 't' then some '\t'
  else none

/-- The character with a given number. -/
def charOfNat? (n : Nat) : Option Char :=
  if n.isValidChar then some (Char.ofNat n) else none

/-- Reads a character or an escape between quotes, with what follows. -/
def readChar? (quote : Char) : List Char → Option (Char × List Char)
  | [] => none
  | [c] => if c = quote ∨ c = '\\' then none else some (c, [])
  | c :: k :: rest =>
    if c = '\\' then
      match escapeWidth? k with
      | some width =>
        if width ≤ rest.length then
          ((natOfHexDigits? (rest.take width)).bind charOfNat?).map (·, rest.drop width)
        else none
      | none => (shortEscape? quote k).map (·, rest)
    else if c = quote then none
    else some (c, k :: rest)

/-- A character that is read leaves a shorter text. -/
theorem length_lt_of_readChar? {quote c : Char} {text rest : List Char}
    (h : readChar? quote text = some (c, rest)) : rest.length < text.length := by
  unfold readChar? at h
  split at h
  · cases h
  · split at h
    · cases h
    · obtain ⟨-, rfl⟩ := Prod.mk.inj (Option.some.inj h)
      exact Nat.zero_lt_one
  · split at h
    · split at h
      · split at h
        · obtain ⟨_, -, hpair⟩ := Option.map_eq_some_iff.1 h
          obtain ⟨-, rfl⟩ := Prod.mk.inj hpair
          rw [List.length_drop, List.length_cons, List.length_cons]
          omega
        · cases h
      · obtain ⟨_, -, hpair⟩ := Option.map_eq_some_iff.1 h
        obtain ⟨-, rfl⟩ := Prod.mk.inj hpair
        rw [List.length_cons, List.length_cons]
        omega
    · split at h
      · cases h
      · obtain ⟨-, rfl⟩ := Prod.mk.inj (Option.some.inj h)
        exact Nat.lt_succ_self _

/-- Reads characters up to the closing quote, with what follows it. -/
def readChars? (quote : Char) (text : List Char) : Option (List Char × List Char) :=
  if text.head? = some quote then some ([], text.drop 1)
  else
    match _h : readChar? quote text with
    | none => none
    | some (c, rest) => (readChars? quote rest).map fun (cs, after) => (c :: cs, after)
termination_by text.length
decreasing_by exact length_lt_of_readChar? _h

/-- A mark that may enclose a text. -/
def IsQuote (c : Char) : Prop :=
  c = '\'' ∨ c = '"'

instance (c : Char) : Decidable (IsQuote c) :=
  inferInstanceAs (Decidable (_ ∨ _))

/-- Reads a text in quotes, with what follows it. -/
def readQuoted? : List Char → Option (List Char × List Char)
  | [] => none
  | quote :: rest => if IsQuote quote then readChars? quote rest else none

/-! ## Escapes -/

/-- A character is the one of its number. -/
theorem charOfNat?_toNat (c : Char) : charOfNat? c.toNat = some c := by
  have hvalid : c.toNat.isValidChar := c.valid
  rw [charOfNat?, if_pos hvalid, Char.ofNat_toNat]

/-- A number that fits a width is written with as many digits. -/
theorem length_hexDigits {width n : Nat} (hwidth : 0 < width) (h : n < 16 ^ width) :
    (hexDigits width n).length = width := by
  have hle : (Nat.toDigits 16 n).length ≤ width :=
    (Nat.length_toDigits_le_iff (by omega) hwidth).2 h
  simp only [hexDigits, List.length_append, List.length_replicate]
  omega

/-- Hexadecimal digits are read as the number that they were written for. -/
theorem natOfHexDigits?_hexDigits (width n : Nat) :
    natOfHexDigits? (hexDigits width n) = some n := by
  rw [hexDigits, natOfHexDigits?_replicate_zero, natOfHexDigits?_toDigits]

variable {quote c : Char}

/-- An escape with enough digits for a character is read as the character. -/
theorem readChar?_hexDigits {k : Char} {width : Nat} (hk : escapeWidth? k = some width)
    (hwidth : 0 < width) (h : c.toNat < 16 ^ width) (rest : List Char) :
    readChar? quote ('\\' :: k :: (hexDigits width c.toNat ++ rest)) = some (c, rest) := by
  have hlength := length_hexDigits hwidth h
  have htake : (hexDigits width c.toNat ++ rest).take width = hexDigits width c.toNat := by
    rw [List.take_append_of_le_length (by omega), List.take_of_length_le (by omega)]
  have hdrop : (hexDigits width c.toNat ++ rest).drop width = rest := by
    rw [List.drop_append_of_le_length (by omega), List.drop_of_length_le (by omega),
      List.nil_append]
  -- the reader takes the digits and nothing of what follows
  have hle : width ≤ (hexDigits width c.toNat ++ rest).length := by
    rw [List.length_append]
    omega
  rw [readChar?, if_pos rfl, hk]
  simp only [if_pos hle, htake, hdrop, natOfHexDigits?_hexDigits, Option.bind_some,
    charOfNat?_toNat, Option.map_some]

/-- A short escape is read as its character. -/
theorem readChar?_shortEscape {k : Char} (hwidth : escapeWidth? k = none)
    (hk : shortEscape? quote k = some c) (rest : List Char) :
    readChar? quote ('\\' :: k :: rest) = some (c, rest) := by
  rw [readChar?, if_pos rfl, hwidth]
  simp only [hk, Option.map_some]

/-- A character that is neither the quote nor a backslash stands for itself. -/
theorem readChar?_plain (hquote : c ≠ quote) (hbackslash : c ≠ '\\') (rest : List Char) :
    readChar? quote (c :: rest) = some (c, rest) := by
  cases rest with
  | nil => rw [readChar?, if_neg (by simp [hquote, hbackslash])]
  | cons k rest => rw [readChar?, if_neg hbackslash, if_neg hquote]

/-- The forms in which a character stands between quotes. -/
inductive CharForm (quote c : Char) : List Char → Prop where
  | plain : c ≠ quote → c ≠ '\\' → isPrintable c = true → CharForm quote c [c]
  | short {k : Char} : escapeWidth? k = none → shortEscape? quote k = some c →
      CharForm quote c ['\\', k]
  | numbered {k : Char} {width : Nat} : escapeWidth? k = some width → 0 < width →
      c.toNat < 16 ^ width → CharForm quote c ('\\' :: k :: hexDigits width c.toNat)

/-- A character is quoted in one of the forms that are read. -/
theorem charForm_quoteChar (hquote : IsQuote quote) (c : Char) :
    CharForm quote c (quoteChar quote c) := by
  have hne : quote ≠ 'n' ∧ quote ≠ 'r' ∧ quote ≠ 't' := by
    rcases hquote with rfl | rfl <;> decide
  have hlt : c.toNat < 16 ^ 8 := c.val.toNat_lt
  unfold quoteChar
  by_cases hself : c = quote ∨ c = '\\'
  · -- neither a quote nor a backslash is taken for the letter of a longer escape
    have hwidth : escapeWidth? c = none := by
      rcases hself with rfl | rfl
      · rcases hquote with rfl | rfl <;> rfl
      · rfl
    rw [if_pos hself]
    exact .short hwidth (by rw [shortEscape?, if_pos hself])
  rw [if_neg hself]
  by_cases hn : c = '\n'
  · subst hn
    exact .short rfl (by simp [shortEscape?, hne.1.symm])
  rw [if_neg hn]
  by_cases hr : c = '\r'
  · subst hr
    exact .short rfl (by simp [shortEscape?, hne.2.1.symm])
  rw [if_neg hr]
  by_cases ht : c = '\t'
  · subst ht
    exact .short rfl (by simp [shortEscape?, hne.2.2.symm])
  rw [if_neg ht]
  by_cases hprintable : isPrintable c = true
  · rw [if_pos hprintable]
    exact .plain (fun h => hself (.inl h)) (fun h => hself (.inr h)) hprintable
  rw [if_neg hprintable]
  -- what is left is written by number, with as many digits as it needs
  split
  · next hsmall => exact .numbered rfl (by omega) hsmall
  · split
    · next hmiddle => exact .numbered rfl (by omega) hmiddle
    · exact .numbered rfl (by omega) hlt

namespace CharForm

variable {form : List Char}

/-- A form of a character is read as the character, with anything behind it. -/
theorem readChar?_append (h : CharForm quote c form) (rest : List Char) :
    readChar? quote (form ++ rest) = some (c, rest) := by
  cases h with
  | plain hne hbackslash _ => exact readChar?_plain hne hbackslash rest
  | short hwidth hk => exact readChar?_shortEscape hwidth hk rest
  | numbered hk hwidth hlt => exact readChar?_hexDigits hk hwidth hlt rest

/-- No form of a character begins with the quote. -/
theorem head?_append_ne (hquote : IsQuote quote) (h : CharForm quote c form) (rest : List Char) :
    (form ++ rest).head? ≠ some quote := by
  have hbackslash : '\\' ≠ quote := by
    rcases hquote with rfl | rfl <;> decide
  cases h with
  | plain hne _ _ => simpa using hne
  | short _ _ => simpa using hbackslash
  | numbered _ _ _ => simpa using hbackslash

end CharForm

/-! ## Quoted texts -/

theorem isQuote_quoteFor (text : List Char) : IsQuote (quoteFor text) := by
  unfold quoteFor
  split
  · exact .inr rfl
  · exact .inl rfl

/-- Quoted characters are read back up to the quote. -/
theorem readChars?_flatMap_quoteChar (hquote : IsQuote quote) (text rest : List Char) :
    readChars? quote (text.flatMap (quoteChar quote) ++ quote :: rest) = some (text, rest) := by
  induction text with
  | nil => rw [List.flatMap_nil, List.nil_append, readChars?, if_pos List.head?_cons, List.drop_one,
      List.tail_cons]
  | cons c text ih =>
    -- no form begins with the quote, so the reader does not stop before it
    have hform := charForm_quoteChar hquote c
    have hread := hform.readChar?_append (text.flatMap (quoteChar quote) ++ quote :: rest)
    rw [List.flatMap_cons, List.append_assoc, readChars?, if_neg (hform.head?_append_ne hquote _)]
    split
    · next hnone =>
      rw [hread] at hnone
      cases hnone
    · next c' rest' hsome =>
      rw [hread] at hsome
      obtain ⟨rfl, rfl⟩ := Prod.mk.inj (Option.some.inj hsome)
      rw [ih, Option.map_some]

/-- A text in quotes is read back, up to its closing quote and no further. -/
theorem readQuoted?_quoteChars (text rest : List Char) :
    readQuoted? (quoteChars text ++ rest) = some (text, rest) := by
  have hquote := isQuote_quoteFor text
  rw [quoteChars, List.append_assoc, List.cons_append, readQuoted?, if_pos hquote,
    List.singleton_append]
  exact readChars?_flatMap_quoteChar hquote text rest

/-! ## Line breaks -/

/-- The characters at which a text is split into lines. -/
def lineBreaks : List Char :=
  ['\n', '\x0b', '\x0c', '\r', '\x1c', '\x1d', '\x1e', '\x85', '\u2028', '\u2029']

/-- A text without line breaks. -/
def Unbroken (text : List Char) : Prop :=
  ∀ c ∈ text, c ∉ lineBreaks

/-- Decided over the characters of the text, not over all characters there are. -/
instance decidableUnbroken : DecidablePred Unbroken :=
  List.decidableBAll (· ∉ lineBreaks)

/-- A text of two parts has no line break if neither part has one. -/
@[simp] theorem unbroken_append {text more : List Char} :
    Unbroken (text ++ more) ↔ Unbroken text ∧ Unbroken more :=
  List.forall_mem_append

@[simp] theorem unbroken_cons {c : Char} {text : List Char} :
    Unbroken (c :: text) ↔ c ∉ lineBreaks ∧ Unbroken text :=
  List.forall_mem_cons

theorem unbroken_replicate {n : Nat} {c : Char} (h : c ∉ lineBreaks) :
    Unbroken (List.replicate n c) := by
  intro x hx
  rw [List.eq_of_mem_replicate hx]
  exact h

/-- Printable characters are no line breaks. -/
theorem notMem_lineBreaks_of_isPrintable {c : Char} (h : isPrintable c = true) :
    c ∉ lineBreaks := by
  have hall : lineBreaks.all (fun c => !isPrintable c) = true := by decide +kernel
  intro hmem
  have hc := List.all_eq_true.1 hall c hmem
  rw [h] at hc
  cases hc

theorem notMem_lineBreaks_of_isAlphanum {c : Char} (h : c.isAlphanum = true) : c ∉ lineBreaks := by
  have hall : lineBreaks.all (fun c => !c.isAlphanum) = true := by decide +kernel
  intro hmem
  have hc := List.all_eq_true.1 hall c hmem
  rw [h] at hc
  cases hc

theorem IsQuote.notMem_lineBreaks (h : IsQuote quote) : quote ∉ lineBreaks := by
  rcases h with rfl | rfl <;> decide

theorem notMem_lineBreaks_of_escapeWidth? {k : Char} {width : Nat}
    (h : escapeWidth? k = some width) : k ∉ lineBreaks := by
  unfold escapeWidth? at h
  split at h
  · decide
  · decide
  · decide
  · cases h

theorem notMem_lineBreaks_of_shortEscape? {k : Char} (hquote : IsQuote quote)
    (h : shortEscape? quote k = some c) : k ∉ lineBreaks := by
  unfold shortEscape? at h
  by_cases hself : k = quote ∨ k = '\\'
  · rcases hself with rfl | rfl
    · exact hquote.notMem_lineBreaks
    · decide
  rw [if_neg hself] at h
  split at h
  · next hn => subst hn; decide
  · split at h
    · next hr => subst hr; decide
    · split at h
      · next ht => subst ht; decide
      · cases h

/-- Hexadecimal digits hold no line break. -/
theorem unbroken_hexDigits (width n : Nat) : Unbroken (hexDigits width n) := by
  have hdigits : Unbroken (Nat.toDigits 16 n) := fun x hx =>
    notMem_lineBreaks_of_isAlphanum (Integer.isAlphanum_of_mem_toDigits (by omega) (by omega) hx)
  exact unbroken_append.2 ⟨unbroken_replicate (by decide), hdigits⟩

/-- No form of a character holds a line break. -/
theorem CharForm.unbroken {form : List Char} (hquote : IsQuote quote)
    (h : CharForm quote c form) : Unbroken form := by
  have hbackslash : '\\' ∉ lineBreaks := by decide
  have hnil : Unbroken [] := by decide
  cases h with
  | plain _ _ hprintable =>
    exact unbroken_cons.2 ⟨notMem_lineBreaks_of_isPrintable hprintable, hnil⟩
  | short hwidth hk =>
    have hname := notMem_lineBreaks_of_shortEscape? hquote hk
    exact unbroken_cons.2 ⟨hbackslash, unbroken_cons.2 ⟨hname, hnil⟩⟩
  | numbered hk _ _ =>
    have hname := notMem_lineBreaks_of_escapeWidth? hk
    exact unbroken_cons.2 ⟨hbackslash, unbroken_cons.2 ⟨hname, unbroken_hexDigits _ _⟩⟩

/-- No quoted text has a line break in it. -/
theorem unbroken_quoteChars (text : List Char) : Unbroken (quoteChars text) := by
  have hquote := isQuote_quoteFor text
  have hforms : Unbroken (text.flatMap (quoteChar (quoteFor text))) := by
    intro x hx
    obtain ⟨c, -, hc⟩ := List.mem_flatMap.1 hx
    exact (charForm_quoteChar hquote c).unbroken hquote x hc
  have hclose : Unbroken [quoteFor text] :=
    unbroken_cons.2 ⟨hquote.notMem_lineBreaks, by decide⟩
  rw [quoteChars]
  exact unbroken_append.2 ⟨unbroken_cons.2 ⟨hquote.notMem_lineBreaks, hforms⟩, hclose⟩

end SetLang.Text
