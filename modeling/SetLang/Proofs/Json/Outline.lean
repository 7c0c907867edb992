import SetLang.Proofs.Json.NumberText
import SetLang.Proofs.Json.StringText
import SetLang.Proofs.Text.Trim

/-!
# JSON in outline

The outline of a text is its strings and the square brackets between them. Main statement: what is
read as a JSON value is its text with blanks around it, and no bracket outside the strings of the
text is left open.
-/

namespace SetLang.Json

variable {fuel : Nat} {text rest part blanks : List Char} {n m : Int}

/-! ## Outlines -/

/-- The characters that have a part in an outline, and those that stand in strings only. -/
def marks : List Char :=
  ['"', '[', ']', '\'', '/', '\\', '#']

/-- A character that has no part in an outline. -/
def IsPlain (c : Char) : Prop :=
  c ∉ marks

instance (c : Char) : Decidable (IsPlain c) :=
  inferInstanceAs (Decidable (_ ∉ _))

/-- A class of characters without a mark has plain characters only. -/
theorem isPlain_of_class {p : Char → Bool} (hmarks : marks.all (!p ·) = true) {c : Char}
    (h : p c = true) : IsPlain c := by
  intro hmem
  have hc := List.all_eq_true.1 hmarks c hmem
  rw [h] at hc
  cases hc

/-- How many square brackets a text leaves open outside its strings. -/
inductive IsOutline : List Char → Int → Prop where
  | nil : IsOutline [] 0
  | plain {c : Char} {text : List Char} {n : Int} : IsPlain c → IsOutline text n →
      IsOutline (c :: text) n
  | opening {text : List Char} {n : Int} : IsOutline text n → IsOutline ('[' :: text) (n + 1)
  | closing {text : List Char} {n : Int} : IsOutline text n → IsOutline (']' :: text) (n - 1)
  | string {body text : List Char} {n : Int} : IsStringBody body → IsOutline text n →
      IsOutline ('"' :: (body ++ text)) n

/-- The balances of two outlines add up. -/
theorem IsOutline.append (h : IsOutline text n) (hrest : IsOutline rest m) :
    IsOutline (text ++ rest) (n + m) := by
  induction h with
  | nil => rwa [Int.zero_add]
  | plain hc _ ih => exact .plain hc ih
  | @opening text n _ ih =>
    have hsum : n + 1 + m = n + m + 1 := by omega
    rw [hsum]
    exact .opening ih
  | @closing text n _ ih =>
    have hsum : n - 1 + m = n + m - 1 := by omega
    rw [hsum]
    exact .closing ih
  | string hbody _ ih =>
    rw [List.cons_append, List.append_assoc]
    exact .string hbody ih

/-- A text of plain characters is balanced. -/
theorem isOutline_of_isPlain (h : ∀ c ∈ text, IsPlain c) : IsOutline text 0 := by
  induction text with
  | nil => exact .nil
  | cons c text ih =>
    obtain ⟨hc, htext⟩ := List.forall_mem_cons.1 h
    exact .plain hc (ih htext)

/-- Plain characters in front leave the balance as it is. -/
theorem IsOutline.plain_append (h : IsOutline rest n) (htext : ∀ c ∈ text, IsPlain c) :
    IsOutline (text ++ rest) n := by
  have happend := (isOutline_of_isPlain htext).append h
  rwa [Int.zero_add] at happend

theorem Spaces.isPlain (h : Spaces blanks) : ∀ c ∈ blanks, IsPlain c :=
  fun c hc => isPlain_of_class (p := isSpace) (by decide) (h c hc)

theorem isPlain_of_mem_scalarChars {c : Char} (h : c ∈ scalarChars) : IsPlain c := by
  have hall : ∀ c ∈ scalarChars, IsPlain c := forall_mem_of_all (by decide)
  exact hall c h

theorem isBlank_eq_false_of_mem_scalarChars {c : Char} (h : c ∈ scalarChars) :
    Text.isBlank c = false := by
  have hall : ∀ c ∈ scalarChars, Text.isBlank c = false := forall_mem_of_all (by decide)
  exact hall c h

/-- A text is some blanks and what is left behind them. -/
theorem exists_spaces_append (text : List Char) :
    ∃ blanks, Spaces blanks ∧ text = blanks ++ skipSpace text :=
  ⟨text.takeWhile isSpace, fun _ => List.mem_takeWhile_imp,
    (List.takeWhile_append_dropWhile).symm⟩

/-! ## Values -/

/-- The text of a value that ends with the value and leaves no bracket open. -/
structure IsClosedText (part : List Char) (value : Json WideText) : Prop where
  isText : IsText part value
  outline : IsOutline part 0
  ends : ∃ c ∈ part.getLast?, Text.isBlank c = false

/-- With so much fuel, what is read of a value is its text. -/
def ReadsValues (fuel : Nat) : Prop :=
  ∀ text value rest, readValue fuel text = .ok (value, rest) →
    ∃ part, text = part ++ rest ∧ IsClosedText part value

/-- With so much fuel, what is read of some items is their text. -/
def ReadsItems (fuel : Nat) : Prop :=
  ∀ done text value rest, readItems fuel done text = .ok (value, rest) →
    ∃ part items, text = part ++ rest ∧ value = .array (done.reverse ++ items) ∧
      IsItems part items ∧ IsOutline part (-1) ∧ part.getLast? = some ']'

/-- With so much fuel, what is read of some members is their text. -/
def ReadsMembers (fuel : Nat) : Prop :=
  ∀ done text value rest, readMembers fuel done text = .ok (value, rest) →
    ∃ part members, text = part ++ rest ∧ value = .object (membersOf (done.reverse ++ members)) ∧
      IsMembers part members ∧ IsOutline part 0 ∧ part.getLast? = some '\x7d'

/-- What a reader of items has read: the last item, or an item and those behind the comma. -/
theorem exists_of_readItems_succ {done : List (Json WideText)} {value : Json WideText}
    (h : readItems (fuel + 1) done text = .ok (value, rest)) :
    ∃ item after, readValue fuel text = .ok (item, after) ∧
      ((skipSpace after = ']' :: rest ∧ value = .array (item :: done).reverse) ∨
        ∃ next, skipSpace after = ',' :: next ∧
          readItems fuel (item :: done) (skipSpace next) = .ok (value, rest)) := by
  rw [readItems.eq_2] at h
  obtain ⟨⟨item, after⟩, hread, h⟩ := exists_of_bind_eq_ok h
  refine ⟨item, after, hread, ?_⟩
  dsimp only at h
  split at h
  · next rest' hnext =>
    obtain ⟨rfl, rfl⟩ := Prod.mk.inj (Except.ok.inj h)
    exact .inl ⟨hnext, rfl⟩
  · next next hnext => exact .inr ⟨next, hnext, h⟩
  · cases h

/-- With one more unit of fuel, what is read of some items is still their text. -/
theorem readsItems_succ (hvalues : ReadsValues fuel) (hitems : ReadsItems fuel) :
    ReadsItems (fuel + 1) := by
  intro done text value rest h
  obtain ⟨item, after, hread, hend⟩ := exists_of_readItems_succ h
  obtain ⟨part, rfl, hpart⟩ := hvalues _ _ _ hread
  obtain ⟨blanks, hblanks, hafter⟩ := exists_spaces_append after
  rcases hend with ⟨hnext, rfl⟩ | ⟨next, hnext, hmore⟩
  · rw [hnext] at hafter
    have hclose : IsOutline [']'] (-1) := .closing .nil
    exact ⟨part ++ (blanks ++ [']']), [item], by simp [hafter], by simp,
      hpart.isText.isItems_last hblanks,
      hpart.outline.append (hclose.plain_append hblanks.isPlain), by simp⟩
  · obtain ⟨more, items, hskip, rfl, hitems, houtline, hlast⟩ := hitems _ _ _ _ hmore
    obtain ⟨blanks', hblanks', hnext'⟩ := exists_spaces_append next
    rw [hnext, hnext', hskip] at hafter
    have hcomma : IsOutline (',' :: (blanks' ++ more)) (-1) :=
      .plain (by decide) (houtline.plain_append hblanks'.isPlain)
    exact ⟨part ++ (blanks ++ ',' :: (blanks' ++ more)), item :: items, by simp [hafter], by simp,
      hpart.isText.isItems_next hblanks hblanks' hitems,
      hpart.outline.append (hcomma.plain_append hblanks.isPlain),
      by simp [List.getLast?_cons, hlast]⟩

/-- What a reader of members has read: the last member, or a member and those behind the comma. -/
theorem exists_of_readMembers_succ {done : List (WideText × Json WideText)} {value : Json WideText}
    (h : readMembers (fuel + 1) done text = .ok (value, rest)) :
    ∃ named name afterName afterColon item after, text = '"' :: named ∧
      readString ('"' :: named) [] named = .ok (name, afterName) ∧
      skipSpace afterName = ':' :: afterColon ∧
      readValue fuel (skipSpace afterColon) = .ok (item, after) ∧
      ((skipSpace after = '\x7d' :: rest ∧
          value = .object (membersOf ((name, item) :: done).reverse)) ∨
        ∃ next, skipSpace after = ',' :: next ∧
          readMembers fuel ((name, item) :: done) (skipSpace next) = .ok (value, rest)) := by
  unfold readMembers at h
  split at h
  · next named =>
    obtain ⟨⟨name, afterName⟩, hname, h⟩ := exists_of_bind_eq_ok h
    dsimp only at h
    split at h
    · next afterColon hcolon =>
      obtain ⟨⟨item, after⟩, hread, h⟩ := exists_of_bind_eq_ok h
      refine ⟨named, name, afterName, afterColon, item, after, rfl, hname, hcolon, hread, ?_⟩
      dsimp only at h
      split at h
      · next rest' hnext =>
        obtain ⟨rfl, rfl⟩ := Prod.mk.inj (Except.ok.inj h)
        exact .inl ⟨hnext, rfl⟩
      · next next hnext => exact .inr ⟨next, hnext, h⟩
      · cases h
    · cases h
  · cases h

/-- The name of a member and its colon leave the balance as it is. -/
theorem isOutline_name {body beforeColon behindColon : List Char} (hbody : IsStringBody body)
    (hbefore : Spaces beforeColon) (hbehind : Spaces behindColon) (h : IsOutline text n) :
    IsOutline ('"' :: (body ++ (beforeColon ++ ':' :: (behindColon ++ text)))) n := by
  have hcolon : IsOutline (':' :: (behindColon ++ text)) n :=
    .plain (by decide) (h.plain_append hbehind.isPlain)
  exact .string hbody (hcolon.plain_append hbefore.isPlain)

/-- With one more unit of fuel, what is read of some members is still their text. -/
theorem readsMembers_succ (hvalues : ReadsValues fuel) (hmembers : ReadsMembers fuel) :
    ReadsMembers (fuel + 1) := by
  intro done text value rest h
  obtain ⟨named, name, afterName, afterColon, item, after, rfl, hname, hcolon, hread, hend⟩ :=
    exists_of_readMembers_succ h
  obtain ⟨body, rfl, hbody, hbodyText⟩ := exists_isStringText_of_readString hname
  obtain ⟨beforeColon, hbefore, hafterName⟩ := exists_spaces_append afterName
  obtain ⟨behindColon, hbehind, hafterColon⟩ := exists_spaces_append afterColon
  obtain ⟨part, hskip, hpart⟩ := hvalues _ _ _ hread
  obtain ⟨blanks, hblanks, hafter⟩ := exists_spaces_append after
  rw [hcolon, hafterColon, hskip] at hafterName
  rcases hend with ⟨hnext, rfl⟩ | ⟨next, hnext, hmore⟩
  · rw [hnext] at hafter
    have hclose : IsOutline ['\x7d'] 0 := .plain (by decide) .nil
    exact ⟨_, [(name, item)], by simp [hafterName, hafter], by simp,
      hpart.isText.isMembers_last hbodyText hbefore hbehind hblanks,
      isOutline_name hbody hbefore hbehind
        (hpart.outline.append (hclose.plain_append hblanks.isPlain)),
      by simp [List.getLast?_cons]⟩
  · obtain ⟨more, members, hskip', rfl, hmembers, houtline, hlast⟩ := hmembers _ _ _ _ hmore
    obtain ⟨blanks', hblanks', hnext'⟩ := exists_spaces_append next
    rw [hnext, hnext', hskip'] at hafter
    have hcomma : IsOutline (',' :: (blanks' ++ more)) 0 :=
      .plain (by decide) (houtline.plain_append hblanks'.isPlain)
    exact ⟨_, (name, item) :: members, by simp [hafterName, hafter], by simp,
      hpart.isText.isMembers_next hbodyText hbefore hbehind hblanks hblanks' hmembers,
      isOutline_name hbody hbefore hbehind
        (hpart.outline.append (hcomma.plain_append hblanks.isPlain)),
      by simp [List.getLast?_cons, hlast]⟩

/-- The text of a string is closed. -/
theorem IsStringText.isClosedText {body : List Char} {s : WideText} (h : IsStringText body s)
    (hbody : IsStringBody body) : IsClosedText ('"' :: body) (.string s) := by
  have houtline : IsOutline ('"' :: (body ++ [])) 0 := .string hbody .nil
  rw [List.append_nil] at houtline
  have hlast : ('"' :: body).getLast? = some '"' := by
    rw [List.getLast?_cons, hbody.getLast?_eq, Option.getD_some]
  exact ⟨h.isText, houtline, '"', hlast, by decide⟩

/-- The text of a scalar is closed. -/
theorem IsText.isClosedText {value : Json WideText} (h : IsText part value)
    (hpart : ∀ c ∈ part, c ∈ scalarChars) : IsClosedText part value := by
  obtain ⟨c, hc⟩ : ∃ c, part.getLast? = some c := by
    obtain ⟨c, more, rfl, -⟩ := h.begins
    exact ⟨_, List.getLast?_cons⟩
  exact ⟨h, isOutline_of_isPlain fun c hc => isPlain_of_mem_scalarChars (hpart c hc), c, hc,
    isBlank_eq_false_of_mem_scalarChars (hpart c (List.mem_of_getLast? hc))⟩

/-- Empty brackets are closed. -/
theorem isClosedText_array_nil (hblanks : Spaces blanks) :
    IsClosedText ('[' :: (blanks ++ [']'])) (.array []) := by
  have hclose : IsOutline [']'] (-1) := .closing .nil
  exact ⟨isText_array_nil hblanks, .opening (hclose.plain_append hblanks.isPlain), ']',
    by simp [List.getLast?_cons], by decide⟩

/-- The text of an array is closed if its items are outlined up to the bracket. -/
theorem IsItems.isClosedText {items : List (Json WideText)} (h : IsItems part items)
    (houtline : IsOutline part (-1)) (hlast : part.getLast? = some ']') (hblanks : Spaces blanks) :
    IsClosedText ('[' :: (blanks ++ part)) (.array items) :=
  ⟨h.isText hblanks, .opening (houtline.plain_append hblanks.isPlain), ']',
    by simp [List.getLast?_cons, hlast], by decide⟩

/-- Empty braces are closed. -/
theorem isClosedText_object_nil (hblanks : Spaces blanks) :
    IsClosedText ('\x7b' :: (blanks ++ ['\x7d'])) (.object []) := by
  have hclose : IsOutline ['\x7d'] 0 := .plain (by decide) .nil
  exact ⟨isText_object_nil hblanks, .plain (by decide) (hclose.plain_append hblanks.isPlain),
    '\x7d', by simp [List.getLast?_cons], by decide⟩

/-- The text of an object is closed if its members are outlined up to the brace. -/
theorem IsMembers.isClosedText {members : List (WideText × Json WideText)}
    (h : IsMembers part members) (houtline : IsOutline part 0)
    (hlast : part.getLast? = some '\x7d') (hblanks : Spaces blanks) :
    IsClosedText ('\x7b' :: (blanks ++ part)) (.object (membersOf members)) :=
  ⟨h.isText hblanks, .plain (by decide) (houtline.plain_append hblanks.isPlain), '\x7d',
    by simp [List.getLast?_cons, hlast], by decide⟩

/-- No blank stands at the ends of a closed text. -/
theorem IsClosedText.isTrimmed {value : Json WideText} (h : IsClosedText part value) :
    Text.IsTrimmed Text.isBlank part := by
  obtain ⟨c, hlast, hc⟩ := h.ends
  obtain ⟨d, more, rfl, hd, -⟩ := h.isText.begins
  refine ⟨?_, ?_⟩
  · intro e he
    obtain rfl := Option.some.inj he
    exact hd
  · intro e he
    obtain rfl := Option.some.inj (hlast.symm.trans he)
    exact hc

/-- With one more unit of fuel, what is read of a value is still its text. -/
theorem readsValues_succ (hitems : ReadsItems fuel) (hmembers : ReadsMembers fuel) :
    ReadsValues (fuel + 1) := by
  intro text value rest h
  unfold readValue at h
  split at h
  · next text =>
    obtain ⟨⟨s, after⟩, hread, hpair⟩ := exists_of_map_eq_ok h
    obtain ⟨rfl, rfl⟩ := Prod.mk.inj hpair
    obtain ⟨body, rfl, hbody, hbodyText⟩ := exists_isStringText_of_readString hread
    exact ⟨'"' :: body, rfl, hbodyText.isClosedText hbody⟩
  · next text =>
    obtain ⟨blanks, hblanks, htext⟩ := exists_spaces_append text
    split at h
    · next after hskip =>
      obtain ⟨rfl, rfl⟩ := Prod.mk.inj (Except.ok.inj h)
      rw [hskip] at htext
      exact ⟨_, by simp [htext], isClosedText_array_nil hblanks⟩
    · obtain ⟨part, items, hskip, rfl, hpart, houtline, hlast⟩ := hitems _ _ _ _ h
      rw [hskip] at htext
      exact ⟨_, by simp [htext], hpart.isClosedText houtline hlast hblanks⟩
  · next text =>
    obtain ⟨blanks, hblanks, htext⟩ := exists_spaces_append text
    split at h
    · next after hskip =>
      obtain ⟨rfl, rfl⟩ := Prod.mk.inj (Except.ok.inj h)
      rw [hskip] at htext
      exact ⟨_, by simp [htext], isClosedText_object_nil hblanks⟩
    · obtain ⟨part, members, hskip, rfl, hpart, houtline, hlast⟩ := hmembers _ _ _ _ h
      rw [hskip] at htext
      exact ⟨_, by simp [htext], hpart.isClosedText houtline hlast hblanks⟩
  · obtain ⟨part, rfl, hpart, hpartText⟩ := exists_isText_of_readScalar h
    exact ⟨part, rfl, hpartText.isClosedText hpart⟩

/-- Whatever the fuel, what is read is the text of what comes of it. -/
theorem reads_all (fuel : Nat) : ReadsValues fuel ∧ ReadsItems fuel ∧ ReadsMembers fuel := by
  induction fuel with
  | zero =>
    refine ⟨?_, ?_, ?_⟩
    · intro text value rest h
      cases h
    · intro done text value rest h
      cases h
    · intro done text value rest h
      cases h
  | succ fuel ih =>
    obtain ⟨hvalues, hitems, hmembers⟩ := ih
    exact ⟨readsValues_succ hitems hmembers, readsItems_succ hvalues hitems,
      readsMembers_succ hvalues hmembers⟩

/-! ## Whole texts -/

/-- What is read as a value is its text, with blanks around it. -/
theorem exists_isClosedText_of_readWide {value : Json WideText} (h : readWide text = .ok value) :
    ∃ front part behind, text = front ++ (part ++ behind) ∧ Spaces front ∧ Spaces behind ∧
      IsClosedText part value := by
  unfold readWide at h
  split at h
  · cases h
  · obtain ⟨⟨given, rest⟩, hread, h⟩ := exists_of_bind_eq_ok h
    obtain ⟨part, hskip, hpart⟩ := (reads_all _).1 _ _ _ hread
    obtain ⟨front, hfront, htext⟩ := exists_spaces_append text
    dsimp only at h
    split at h
    · next hend =>
      obtain rfl := Except.ok.inj h
      refine ⟨front, part, rest, by rw [← hskip, ← htext], hfront, ?_, hpart⟩
      exact List.dropWhile_eq_nil_iff.1 hend
    · cases h

/-- A text of JSON leaves no bracket open. -/
theorem isOutline_of_readWide {value : Json WideText} (h : readWide text = .ok value) :
    IsOutline text 0 := by
  obtain ⟨front, part, behind, rfl, hfront, hbehind, hpart⟩ := exists_isClosedText_of_readWide h
  exact (hpart.outline.append (isOutline_of_isPlain hbehind.isPlain)).plain_append hfront.isPlain

end SetLang.Json
