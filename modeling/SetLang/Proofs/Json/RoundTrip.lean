import SetLang.Proofs.Json.NumberText
import SetLang.Proofs.Text.Wide
import Mathlib.Data.List.Induction
import Mathlib.Data.List.Nodup

/-!
# Written JSON is read back

In either layout the text of a value is read back as the value, and what follows the text is left,
unless a number could go on in it. This holds of values without floating-point numbers whose
integers fit decimal text and whose objects have no name twice.
-/

namespace SetLang.Json

variable {layout : Layout} {level : Nat}

/-! ## Values with other texts -/

section

variable {Text Text' : Type} {f : Text → Text'} {g : Text' → Text}

/-- Names are mapped as the texts of the values are. -/
theorem map_fst_mapMembers (f : Text → Text') (members : List (Text × Json Text)) :
    (mapMembers f members).map Prod.fst = (members.map Prod.fst).map f := by
  induction members with
  | nil => rfl
  | cons member members ih => rw [mapMembers, List.map_cons, ih, List.map_cons, List.map_cons]

mutual

/-- Texts that are replaced and put back are as they were. -/
theorem map_map_of_leftInverse (h : Function.LeftInverse g f) :
    ∀ value : Json Text, (value.map f).map g = value
  | .null | .bool _ | .int _ | .float _ => rfl
  | .string value => congrArg string (h value)
  | .array items => congrArg array (mapItems_mapItems_of_leftInverse h items)
  | .object members => congrArg object (mapMembers_mapMembers_of_leftInverse h members)

/-- Items whose texts are mapped there and back are as they were. -/
theorem mapItems_mapItems_of_leftInverse (h : Function.LeftInverse g f) :
    ∀ items : List (Json Text), mapItems g (mapItems f items) = items
  | [] => rfl
  | item :: rest => by
    rw [mapItems, mapItems, map_map_of_leftInverse h item, mapItems_mapItems_of_leftInverse h rest]

/-- Members whose texts are mapped there and back are as they were. -/
theorem mapMembers_mapMembers_of_leftInverse (h : Function.LeftInverse g f) :
    ∀ members : List (Text × Json Text), mapMembers g (mapMembers f members) = members
  | [] => rfl
  | (name, value) :: rest => by
    rw [mapMembers, mapMembers, h name, map_map_of_leftInverse h value,
      mapMembers_mapMembers_of_leftInverse h rest]

end

end

/-! ## Breaks between items -/

namespace Layout

/-- What stands before an item is blank. -/
theorem spaces_lineBreak (layout : Layout) (level : Nat) : Spaces (layout.lineBreak level) := by
  intro c hc
  cases layout with
  | line => exact absurd hc List.not_mem_nil
  | block =>
    rcases List.mem_cons.1 hc with rfl | hmem
    · rfl
    · rw [List.eq_of_mem_replicate hmem]
      rfl

/-- A separator is a comma and blanks. -/
theorem exists_separator_eq (layout : Layout) (level : Nat) :
    ∃ blanks, layout.separator level = ',' :: blanks ∧ Spaces blanks := by
  cases layout with
  | line => exact ⟨[' '], rfl, spaces_blank⟩
  | block => exact ⟨lineBreak .block level, rfl, spaces_lineBreak .block level⟩

/-- Brackets around some items, one part after the other. -/
theorem enclose_cons (layout : Layout) (level : Nat) (opening closing : Char)
    (item : List Char) (items : List (List Char)) :
    layout.enclose level opening closing (item :: items) =
      opening :: (layout.lineBreak (level + 1) ++
        ((layout.separator (level + 1)).intercalate (item :: items) ++
          (layout.lineBreak level ++ [closing]))) := by
  simp [enclose]

end Layout

/-! ## Items and members -/

/-- The text of a value is read back as the value in a layout, at any level. -/
def ReadsBack (layout : Layout) (value : Json) : Prop :=
  ∀ level, IsText (writeAt layout level value) (value.map WideText.ofString)

/-- The items of an array are read back, up to the closing bracket. -/
theorem isItems_writeItems (level level' : Nat) {first : Json} {more : List Json}
    (hfirst : ReadsBack layout first) (hmore : ∀ item ∈ more, ReadsBack layout item) :
    IsItems ((layout.separator level).intercalate (writeItems layout level (first :: more)) ++
      (layout.lineBreak level' ++ [']'])) (mapItems WideText.ofString (first :: more)) := by
  induction more generalizing first with
  | nil =>
    rw [writeItems, writeItems, List.intercalate_singleton]
    exact (hfirst level).isItems_last (layout.spaces_lineBreak level')
  | cons second more ih =>
    obtain ⟨hsecond, hmore⟩ := List.forall_mem_cons.1 hmore
    obtain ⟨blanks, hseparator, hblanks⟩ := layout.exists_separator_eq level
    have hnext := (hfirst level).isItems_next spaces_nil hblanks (ih hsecond hmore)
    rw [List.nil_append, ← List.cons_append, ← hseparator] at hnext
    rwa [writeItems, List.intercalate_cons_of_ne_nil (by simp [writeItems]), List.append_assoc,
      List.append_assoc]

/-- The members of an object are read back, up to the closing bracket. -/
theorem isMembers_writeMembers (level level' : Nat) (name : String) {value : Json}
    {more : List (String × Json)} (hvalue : ReadsBack layout value)
    (hmore : ∀ member ∈ more, ReadsBack layout member.2) :
    IsMembers
      ((layout.separator level).intercalate (writeMembers layout level ((name, value) :: more)) ++
        (layout.lineBreak level' ++ ['\x7d']))
      (mapMembers WideText.ofString ((name, value) :: more)) := by
  induction more generalizing name value with
  | nil =>
    obtain ⟨body, hname, hbody⟩ := exists_writeString_eq name
    rw [writeMembers, writeMembers, List.intercalate_singleton, hname, List.append_assoc]
    exact (hvalue level).isMembers_last hbody spaces_nil spaces_blank
      (layout.spaces_lineBreak level')
  | cons second more ih =>
    obtain ⟨name', value'⟩ := second
    have hsecond : ReadsBack layout value' := hmore _ List.mem_cons_self
    have hmore := (List.forall_mem_cons.1 hmore).2
    obtain ⟨body, hname, hbody⟩ := exists_writeString_eq name
    obtain ⟨blanks, hseparator, hblanks⟩ := layout.exists_separator_eq level
    have hnext := (hvalue level).isMembers_next hbody spaces_nil spaces_blank spaces_nil hblanks
      (ih name' hsecond hmore)
    rw [List.nil_append, List.nil_append, ← List.cons_append (a := ','), ← hseparator] at hnext
    rw [writeMembers, List.intercalate_cons_of_ne_nil (by simp [writeMembers]), hname,
      List.append_assoc, List.append_assoc, List.append_assoc]
    exact hnext

/-! ## Objects -/

section

variable {Text : Type} [DecidableEq Text] {members : List (Text × Json Text)}

/-- A member with a new name goes behind the others. -/
theorem putMember_eq_append {name : Text} (h : name ∉ members.map Prod.fst) (value : Json Text) :
    putMember name value members = members ++ [(name, value)] := by
  induction members with
  | nil => rfl
  | cons member members ih =>
    obtain ⟨other, old⟩ := member
    rw [List.map_cons, List.mem_cons, not_or] at h
    rw [putMember, if_neg (fun heq => h.1 heq.symm), ih h.2, List.cons_append]

/-- Members with different names are all kept, in their order. -/
theorem membersOf_eq_self (h : (members.map Prod.fst).Nodup) : membersOf members = members := by
  induction members using List.reverseRecOn with
  | nil => rfl
  | append_singleton members member ih =>
    rw [List.map_append, List.map_singleton, List.nodup_append] at h
    have hfresh : member.1 ∉ members.map Prod.fst := fun hmem =>
      h.2.2 _ hmem _ (List.mem_singleton_self _) rfl
    have hbefore := ih h.1
    unfold membersOf at hbefore ⊢
    rw [List.foldl_append, hbefore]
    exact putMember_eq_append hfresh member.2

end

/-! ## Values -/

/-- A value that its text determines: no number in it is a floating-point number, its integers fit
decimal text, and none of its objects has a name twice. -/
inductive IsExact : Json → Prop where
  | null : IsExact .null
  | bool (value : Bool) : IsExact (.bool value)
  | int {value : Int} : Integer.FitsDecimal value → IsExact (.int value)
  | string (value : String) : IsExact (.string value)
  | array {items : List Json} : (∀ item ∈ items, IsExact item) → IsExact (.array items)
  | object {members : List (String × Json)} : (members.map Prod.fst).Nodup →
      (∀ member ∈ members, IsExact member.2) → IsExact (.object members)

theorem readsBack_null : ReadsBack layout .null :=
  fun _ => isText_of_mem_wordValues (by simp [wordValues, writeAt, map])

theorem readsBack_bool (value : Bool) : ReadsBack layout (.bool value) := by
  intro level
  cases value with
  | false => exact isText_of_mem_wordValues (by simp [wordValues, writeAt, map])
  | true => exact isText_of_mem_wordValues (by simp [wordValues, writeAt, map])

theorem readsBack_int {n : Int} (hfit : Integer.FitsDecimal n) : ReadsBack layout (.int n) :=
  fun _ => isText_decimal hfit

/-- A string is read back. -/
theorem readsBack_string (s : String) : ReadsBack layout (.string s) := by
  obtain ⟨body, hs, hbody⟩ := exists_writeString_eq s
  intro level
  rw [writeAt, hs]
  exact hbody.isText

/-- An array is read back if its items are. -/
theorem readsBack_array {items : List Json} (h : ∀ item ∈ items, ReadsBack layout item) :
    ReadsBack layout (.array items) := by
  intro level
  cases items with
  | nil => exact isText_array_nil spaces_nil
  | cons first more =>
    obtain ⟨hfirst, hmore⟩ := List.forall_mem_cons.1 h
    rw [writeAt, writeItems, Layout.enclose_cons, ← writeItems]
    exact (isItems_writeItems (level + 1) level hfirst hmore).isText
      (layout.spaces_lineBreak (level + 1))

/-- An object is read back if its values are, and its names differ. -/
theorem readsBack_object {members : List (String × Json)} (hnames : (members.map Prod.fst).Nodup)
    (h : ∀ member ∈ members, ReadsBack layout member.2) :
    ReadsBack layout (.object members) := by
  intro level
  cases members with
  | nil => exact isText_object_nil spaces_nil
  | cons first more =>
    obtain ⟨name, value⟩ := first
    have hvalue : ReadsBack layout value := h _ List.mem_cons_self
    have hmore := (List.forall_mem_cons.1 h).2
    have hread := (isMembers_writeMembers (level + 1) level name hvalue hmore).isText
      (layout.spaces_lineBreak (level + 1))
    have hwide : ((mapMembers WideText.ofString ((name, value) :: more)).map Prod.fst).Nodup := by
      rw [map_fst_mapMembers]
      exact List.Nodup.map WideText.ofString_injective hnames
    rw [membersOf_eq_self hwide] at hread
    rw [writeAt, writeMembers, Layout.enclose_cons, ← writeMembers]
    exact hread

/-- A value that its text determines is read back. -/
theorem IsExact.readsBack {value : Json} (h : value.IsExact) (layout : Layout) :
    ReadsBack layout value := by
  induction h with
  | null => exact readsBack_null
  | bool value => exact readsBack_bool value
  | int hfit => exact readsBack_int hfit
  | string value => exact readsBack_string value
  | array _ ih => exact readsBack_array ih
  | object hnames _ ih => exact readsBack_object hnames ih

/-! ## Whole texts -/

/-- The text of a value is read as the value, with any blanks behind it. -/
theorem readWide_write {value : Json} (h : value.IsExact) (layout : Layout) {blanks : List Char}
    (hblanks : Spaces blanks) :
    readWide ((value.write layout).toList ++ blanks) = .ok (value.map WideText.ofString) := by
  rw [write, String.toList_ofList]
  exact (h.readsBack layout 0).readWide_eq spaces_nil hblanks

/-- A text is read as the value whose text it is. -/
theorem IsExact.readWide_eq {value : Json} (h : value.IsExact) (layout : Layout) {text : List Char}
    (htext : (value.write layout).toList = text) :
    readWide text = .ok (value.map WideText.ofString) := by
  have hread := readWide_write h layout spaces_nil
  rwa [List.append_nil, htext] at hread

/-- An object of strings is exact if it has no name twice. -/
theorem isExact_strings (members : List (String × String)) (hnames : (members.map Prod.fst).Nodup) :
    IsExact (.object (members.map fun (name, s) => (name, .string s))) := by
  refine .object (by rwa [List.map_map]) fun member hmember => ?_
  obtain ⟨entry, -, rfl⟩ := List.mem_map.1 hmember
  exact .string entry.2

/-- What is read without a lone half is read as it is shown. -/
theorem read_of_readWide {text : List Char} {value : Json}
    (h : readWide text = .ok (value.map WideText.ofString)) : read text = .ok value := by
  rw [read, h, Except.map, map_map_of_leftInverse WideText.shown_ofString]

end SetLang.Json
