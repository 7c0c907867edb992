import SetLang.Json.Reader
import SetLang.Proofs.Basic
import SetLang.Proofs.Number.IntegerText
import SetLang.Text.Blank
import Mathlib.Data.List.TakeWhile

/-!
# How far the reader of JSON reads

A text is the text of a value if the reader, wherever the text stands, reads the value and leaves
what follows, unless a number could go on in it. The texts of items up to a closing bracket are put
together from those of the values and the blanks between them, and so are the texts of members.
-/

namespace SetLang.Json

variable {fuel : Nat} {rest text after blanks : List Char}

/-! ## Blanks -/

/-- A run of blanks of JSON. -/
def Spaces (blanks : List Char) : Prop :=
  ∀ c ∈ blanks, isSpace c = true

instance (blanks : List Char) : Decidable (Spaces blanks) :=
  decidable_of_iff (blanks.all isSpace = true) List.all_eq_true

@[simp] theorem spaces_nil : Spaces [] := by
  decide

theorem spaces_blank : Spaces [' '] := by
  decide

/-- Nothing is skipped before a character that is no blank. -/
theorem skipSpace_cons {c : Char} (hc : isSpace c = false) (rest : List Char) :
    skipSpace (c :: rest) = c :: rest :=
  List.dropWhile_cons_of_neg (by simp [hc])

/-- Blanks in front are skipped. -/
theorem skipSpace_append (h : Spaces blanks) (text : List Char) :
    skipSpace (blanks ++ text) = skipSpace text :=
  List.dropWhile_append_of_pos h

/-- Blanks are skipped up to the first character that is none. -/
theorem skipSpace_append_cons {c : Char} (h : Spaces blanks) (hc : isSpace c = false) :
    skipSpace (blanks ++ c :: rest) = c :: rest := by
  rw [skipSpace_append h, skipSpace_cons hc]

/-- What is blank in JSON is blank around an entry, too. -/
theorem isBlank_of_isSpace {c : Char} (h : isSpace c = true) : Text.isBlank c = true := by
  simp only [isSpace, Bool.or_eq_true, beq_iff_eq] at h
  rcases h with ((rfl | rfl) | rfl) | rfl <;> rfl

/-! ## Ends of numbers -/

/-- No number goes on in a text. -/
def EndsNumber (text : List Char) : Prop :=
  ∀ c ∈ text.head?, isDigit c = false ∧ c ≠ '.' ∧ c ≠ 'e' ∧ c ≠ 'E'

/-- A number ends before a character that no number has inside. -/
theorem endsNumber_cons {c : Char}
    (h : isDigit c = false ∧ c ≠ '.' ∧ c ≠ 'e' ∧ c ≠ 'E') : EndsNumber (c :: rest) := by
  intro d hd
  obtain rfl := Option.some.inj hd
  exact h

/-- A number ends before blanks. -/
theorem endsNumber_append (hblanks : Spaces blanks) (h : EndsNumber text) :
    EndsNumber (blanks ++ text) := by
  cases blanks with
  | nil => exact h
  | cons c more =>
    have hc := hblanks c List.mem_cons_self
    refine endsNumber_cons ?_
    simp only [isSpace, Bool.or_eq_true, beq_iff_eq] at hc
    rcases hc with ((rfl | rfl) | rfl) | rfl <;> decide

/-- A number ends before the blanks at the end of a text. -/
theorem endsNumber_spaces (h : Spaces blanks) : EndsNumber blanks := by
  have hnil : EndsNumber [] := by
    intro c hc
    cases hc
  have happend := endsNumber_append h hnil
  rwa [List.append_nil] at happend

/-! ## Texts of values -/

/-- A text that is not blank in front and begins with no closing bracket and no byte order mark. -/
def BeginsValue (text : List Char) : Prop :=
  ∃ c more, text = c :: more ∧ Text.isBlank c = false ∧ c ∉ [']', '\x7d', '\uFEFF']

/-- A text begins a value whatever follows it. -/
theorem BeginsValue.append (h : BeginsValue text) (rest : List Char) :
    BeginsValue (text ++ rest) := by
  obtain ⟨c, more, rfl, hc⟩ := h
  exact ⟨c, more ++ rest, rfl, hc⟩

/-- No blank stands where a value begins. -/
theorem BeginsValue.skipSpace_eq (h : BeginsValue text) : skipSpace text = text := by
  obtain ⟨c, more, rfl, hc, -⟩ := h
  have hspace : isSpace c = false := by
    rw [← Bool.not_eq_true] at hc ⊢
    exact mt isBlank_of_isSpace hc
  exact skipSpace_cons hspace more

/-- Blanks are skipped up to where a value begins. -/
theorem BeginsValue.skipSpace_append (h : BeginsValue text) (hblanks : Spaces blanks)
    (rest : List Char) : skipSpace (blanks ++ (text ++ rest)) = text ++ rest := by
  rw [Json.skipSpace_append hblanks, (h.append rest).skipSpace_eq]

theorem BeginsValue.length_pos (h : BeginsValue text) : 0 < text.length := by
  obtain ⟨c, more, rfl, -⟩ := h
  exact Nat.zero_lt_succ _

/-- The text of a value. -/
structure IsText (text : List Char) (value : Json WideText) : Prop where
  begins : BeginsValue text
  reads : ∀ fuel rest, text.length ≤ fuel → EndsNumber rest →
    readValue fuel (text ++ rest) = .ok (value, rest)

/-- No value has an empty text, so there is fuel for its first character. -/
theorem IsText.of_succ {value : Json WideText} (hbegins : BeginsValue text)
    (hreads : ∀ fuel rest, text.length ≤ fuel + 1 → EndsNumber rest →
      readValue (fuel + 1) (text ++ rest) = .ok (value, rest)) : IsText text value := by
  refine ⟨hbegins, ?_⟩
  intro fuel rest hfuel hrest
  have hpos := hbegins.length_pos
  obtain ⟨fuel, rfl⟩ : ∃ n, fuel = n + 1 := Nat.exists_eq_add_one.2 (by omega)
  exact hreads fuel rest hfuel hrest

/-- The characters that begin a string, an array or an object. -/
def openings : List Char := ['"', '[', '\x7b']

/-- What no bracket and no quotation mark opens is read as a scalar. -/
theorem readValue_scalar {c : Char} (h : c ∉ openings) (text : List Char) :
    readValue (fuel + 1) (c :: text) = readScalar (c :: text) := by
  simp only [openings, List.mem_cons, List.not_mem_nil, or_false, not_or] at h
  refine readValue.eq_5 _ _ ?_ ?_ ?_
  · intro _ heq
    exact h.1 (List.cons.inj heq).1
  · intro _ heq
    exact h.2.1 (List.cons.inj heq).1
  · intro _ heq
    exact h.2.2 (List.cons.inj heq).1

/-- The characters of numbers. -/
def numberChars : List Char :=
  "+-.Ee0123456789".toList

/-- The characters of words and numbers. -/
def scalarChars : List Char :=
  numberChars ++ wordValues.flatMap (·.1)

/-- What is taken for a word or a number wherever it stands is its text. -/
theorem isText_of_readScalar {c : Char} {more : List Char} {value : Json WideText}
    (hc : c ∈ scalarChars)
    (h : ∀ rest, EndsNumber rest → readScalar (c :: more ++ rest) = .ok (value, rest)) :
    IsText (c :: more) value := by
  have hall : ∀ c ∈ scalarChars, Text.isBlank c = false ∧ c ∉ [']', '\x7d', '\uFEFF'] ∧
      c ∉ openings := forall_mem_of_all (by decide)
  obtain ⟨hblank, hbegins, hopening⟩ := hall c hc
  refine .of_succ ⟨c, more, rfl, hblank, hbegins⟩ ?_
  intro fuel rest _ hrest
  rw [List.cons_append, readValue_scalar hopening]
  exact h rest hrest

/-- The text of a string behind its opening quote. -/
def IsStringText (body : List Char) (s : WideText) : Prop :=
  ∀ opening rest, readString opening [] (body ++ rest) = .ok (s, rest)

/-- The text of a string is that of a value. -/
theorem IsStringText.isText {body : List Char} {s : WideText} (h : IsStringText body s) :
    IsText ('"' :: body) (.string s) := by
  refine .of_succ ⟨'"', body, rfl, by decide⟩ ?_
  intro fuel rest _ _
  rw [List.cons_append, readValue.eq_2, h]
  rfl

/-! ## Items -/

/-- The text of some items up to the closing bracket. -/
structure IsItems (text : List Char) (items : List (Json WideText)) : Prop where
  begins : BeginsValue text
  reads : ∀ fuel done rest, text.length ≤ fuel →
    readItems fuel done (text ++ rest) = .ok (.array (done.reverse ++ items), rest)

section

variable {done items : List (Json WideText)} {item : Json WideText}

/-- The bracket behind an item closes the array. -/
theorem readItems_last (hread : readValue fuel text = .ok (item, after))
    (hnext : skipSpace after = ']' :: rest) :
    readItems (fuel + 1) done text = .ok (.array (item :: done).reverse, rest) := by
  rw [readItems.eq_2, hread]
  simp only [bind, Except.bind, hnext]

/-- The comma behind an item leads to the next one. -/
theorem readItems_next (hread : readValue fuel text = .ok (item, after))
    (hnext : skipSpace after = ',' :: rest) :
    readItems (fuel + 1) done text = readItems fuel (item :: done) (skipSpace rest) := by
  rw [readItems.eq_2, hread]
  simp only [bind, Except.bind, hnext]

/-- The text of an item and the closing bracket are the text of items. -/
theorem IsText.isItems_last (h : IsText text item) (hblanks : Spaces blanks) :
    IsItems (text ++ (blanks ++ [']'])) [item] := by
  refine ⟨h.begins.append _, ?_⟩
  intro fuel done rest hfuel
  rw [List.length_append, List.length_append, List.length_singleton] at hfuel
  obtain ⟨fuel, rfl⟩ : ∃ n, fuel = n + 1 := Nat.exists_eq_add_one.2 (by omega)
  have hread := h.reads fuel (blanks ++ ']' :: rest) (by omega)
    (endsNumber_append hblanks (endsNumber_cons (by decide)))
  rw [List.append_assoc, List.append_assoc, List.singleton_append,
    readItems_last hread (skipSpace_append_cons hblanks (by decide)), List.reverse_cons]

/-- The text of an item, a comma and the text of more items are the text of items. -/
theorem IsText.isItems_next {blanks' more : List Char} (h : IsText text item)
    (hblanks : Spaces blanks) (hblanks' : Spaces blanks') (hmore : IsItems more items) :
    IsItems (text ++ (blanks ++ ',' :: (blanks' ++ more))) (item :: items) := by
  refine ⟨h.begins.append _, ?_⟩
  intro fuel done rest hfuel
  simp only [List.length_append, List.length_cons] at hfuel
  obtain ⟨fuel, rfl⟩ : ∃ n, fuel = n + 1 := Nat.exists_eq_add_one.2 (by omega)
  have hread := h.reads fuel (blanks ++ ',' :: (blanks' ++ (more ++ rest))) (by omega)
    (endsNumber_append hblanks (endsNumber_cons (by decide)))
  simp only [List.append_assoc, List.cons_append]
  rw [readItems_next hread (skipSpace_append_cons hblanks (by decide)),
    hmore.begins.skipSpace_append hblanks', hmore.reads fuel (item :: done) rest (by omega),
    List.reverse_cons, List.append_assoc, List.singleton_append]

/-- Empty brackets are the text of an array. -/
theorem isText_array_nil (hblanks : Spaces blanks) :
    IsText ('[' :: (blanks ++ [']'])) (.array []) := by
  refine .of_succ ⟨'[', _, rfl, by decide⟩ ?_
  intro fuel rest _ _
  have hskip : skipSpace (blanks ++ ']' :: rest) = ']' :: rest :=
    skipSpace_append_cons hblanks (by decide)
  rw [List.cons_append, List.append_assoc, List.singleton_append, readValue.eq_3, hskip]
  rfl

/-- The text of items behind an opening bracket is that of an array. -/
theorem IsItems.isText (h : IsItems text items) (hblanks : Spaces blanks) :
    IsText ('[' :: (blanks ++ text)) (.array items) := by
  refine .of_succ ⟨'[', _, rfl, by decide⟩ ?_
  intro fuel rest hfuel _
  rw [List.length_cons, List.length_append] at hfuel
  have hread := h.reads fuel [] rest (by omega)
  obtain ⟨c, more, rfl, -, hc⟩ := h.begins
  rw [List.cons_append, List.append_assoc, readValue.eq_3, h.begins.skipSpace_append hblanks]
  split
  · next heq =>
    rw [(List.cons.inj heq).1] at hc
    exact absurd hc (by decide)
  · exact hread

end

/-! ## Members -/

/-- The text of some members up to the closing bracket. -/
structure IsMembers (text : List Char) (members : List (WideText × Json WideText)) : Prop where
  begins : BeginsValue text
  reads : ∀ fuel done rest, text.length ≤ fuel →
    readMembers fuel done (text ++ rest) =
      .ok (.object (membersOf (done.reverse ++ members)), rest)

section

variable {done members : List (WideText × Json WideText)} {name : WideText} {value : Json WideText}
variable {afterName afterColon : List Char}

/-- The brace behind a member closes the object. -/
theorem readMembers_last (hname : readString ('"' :: text) [] text = .ok (name, afterName))
    (hcolon : skipSpace afterName = ':' :: afterColon)
    (hread : readValue fuel (skipSpace afterColon) = .ok (value, after))
    (hnext : skipSpace after = '\x7d' :: rest) :
    readMembers (fuel + 1) done ('"' :: text) =
      .ok (.object (membersOf ((name, value) :: done).reverse), rest) := by
  rw [readMembers.eq_2, hname]
  simp only [bind, Except.bind, hcolon, hread, hnext]

/-- The comma behind a member leads to the next one. -/
theorem readMembers_next (hname : readString ('"' :: text) [] text = .ok (name, afterName))
    (hcolon : skipSpace afterName = ':' :: afterColon)
    (hread : readValue fuel (skipSpace afterColon) = .ok (value, after))
    (hnext : skipSpace after = ',' :: rest) :
    readMembers (fuel + 1) done ('"' :: text) =
      readMembers fuel ((name, value) :: done) (skipSpace rest) := by
  rw [readMembers.eq_2, hname]
  simp only [bind, Except.bind, hcolon, hread, hnext]

variable {body beforeColon behindColon : List Char}

/-- The text of a member and the closing brace are the text of members. -/
theorem IsText.isMembers_last (hname : IsStringText body name) (hbefore : Spaces beforeColon)
    (hbehind : Spaces behindColon) (h : IsText text value) (hblanks : Spaces blanks) :
    IsMembers ('"' :: (body ++ (beforeColon ++ ':' :: (behindColon ++ (text ++
      (blanks ++ ['\x7d'])))))) [(name, value)] := by
  refine ⟨⟨'"', _, rfl, by decide⟩, ?_⟩
  intro fuel done rest hfuel
  simp only [List.length_append, List.length_cons, List.length_nil] at hfuel
  obtain ⟨fuel, rfl⟩ : ∃ n, fuel = n + 1 := Nat.exists_eq_add_one.2 (by omega)
  have hread := h.reads fuel (blanks ++ '\x7d' :: rest) (by omega)
    (endsNumber_append hblanks (endsNumber_cons (by decide)))
  rw [← h.begins.skipSpace_append hbehind] at hread
  simp only [List.append_assoc, List.cons_append, List.nil_append]
  rw [readMembers_last (hname _ _) (skipSpace_append_cons hbefore (by decide)) hread
    (skipSpace_append_cons hblanks (by decide)), List.reverse_cons]

/-- The text of a member, a comma and the text of more members are the text of members. -/
theorem IsText.isMembers_next {blanks' more : List Char} (hname : IsStringText body name)
    (hbefore : Spaces beforeColon) (hbehind : Spaces behindColon) (h : IsText text value)
    (hblanks : Spaces blanks) (hblanks' : Spaces blanks') (hmore : IsMembers more members) :
    IsMembers ('"' :: (body ++ (beforeColon ++ ':' :: (behindColon ++ (text ++
      (blanks ++ ',' :: (blanks' ++ more))))))) ((name, value) :: members) := by
  refine ⟨⟨'"', _, rfl, by decide⟩, ?_⟩
  intro fuel done rest hfuel
  simp only [List.length_append, List.length_cons] at hfuel
  obtain ⟨fuel, rfl⟩ : ∃ n, fuel = n + 1 := Nat.exists_eq_add_one.2 (by omega)
  have hread := h.reads fuel (blanks ++ ',' :: (blanks' ++ (more ++ rest))) (by omega)
    (endsNumber_append hblanks (endsNumber_cons (by decide)))
  rw [← h.begins.skipSpace_append hbehind] at hread
  simp only [List.append_assoc, List.cons_append]
  rw [readMembers_next (hname _ _) (skipSpace_append_cons hbefore (by decide)) hread
    (skipSpace_append_cons hblanks (by decide)), hmore.begins.skipSpace_append hblanks',
    hmore.reads fuel ((name, value) :: done) rest (by omega), List.reverse_cons,
    List.append_assoc, List.singleton_append]

/-- Empty braces are the text of an object. -/
theorem isText_object_nil (hblanks : Spaces blanks) :
    IsText ('\x7b' :: (blanks ++ ['\x7d'])) (.object []) := by
  refine .of_succ ⟨'\x7b', _, rfl, by decide⟩ ?_
  intro fuel rest _ _
  have hskip : skipSpace (blanks ++ '\x7d' :: rest) = '\x7d' :: rest :=
    skipSpace_append_cons hblanks (by decide)
  rw [List.cons_append, List.append_assoc, List.singleton_append, readValue.eq_4, hskip]
  rfl

/-- The text of members behind an opening brace is that of an object. -/
theorem IsMembers.isText (h : IsMembers text members) (hblanks : Spaces blanks) :
    IsText ('\x7b' :: (blanks ++ text)) (.object (membersOf members)) := by
  refine .of_succ ⟨'\x7b', _, rfl, by decide⟩ ?_
  intro fuel rest hfuel _
  rw [List.length_cons, List.length_append] at hfuel
  have hread := h.reads fuel [] rest (by omega)
  obtain ⟨c, more, rfl, -, hc⟩ := h.begins
  rw [List.cons_append, List.append_assoc, readValue.eq_4, h.begins.skipSpace_append hblanks]
  split
  · next heq =>
    rw [(List.cons.inj heq).1] at hc
    exact absurd hc (by decide)
  · exact hread

end

/-! ## Whole texts -/

/-- The text of a value, with blanks around it or without them, is read as the value. -/
theorem IsText.readWide_eq {value : Json WideText} {front behind : List Char} (h : IsText text value)
    (hfront : Spaces front) (hbehind : Spaces behind) :
    readWide (front ++ (text ++ behind)) = .ok value := by
  have hread := h.reads (2 * (front ++ (text ++ behind)).length + 2) behind
    (by rw [List.length_append, List.length_append]; omega) (endsNumber_spaces hbehind)
  have hmark : ∀ more, front ++ (text ++ behind) ≠ '\uFEFF' :: more := by
    intro more heq
    cases front with
    | nil =>
      obtain ⟨c, after, rfl, -, hc⟩ := h.begins
      rw [(List.cons.inj heq).1] at hc
      exact absurd hc (by decide)
    | cons c after =>
      have hspace := hfront c List.mem_cons_self
      rw [(List.cons.inj heq).1] at hspace
      exact absurd hspace (by decide)
  have hend : skipSpace behind = [] := List.dropWhile_eq_nil_iff.2 hbehind
  rw [readWide.eq_2 _ hmark, h.begins.skipSpace_append hfront, hread]
  simp only [bind, Except.bind, hend]

end SetLang.Json
