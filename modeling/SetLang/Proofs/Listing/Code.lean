import SetLang.Proofs.Listing.Layout
import SetLang.Proofs.Program.Accepted
import SetLang.Proofs.Text.Literal

/-!
# Lines of code can be read back

A reader of one line of emitted code, without its indentation. The name in front of the first
parenthesis says which form the line has; its arguments are an expression, a character in quotes, or
a name in quotes and a set. The code of every statement is read back as the statement, and the header
of a block as what it says about the block. No line of code has a line break in it or begins with a
blank.
-/

namespace SetLang

/-! ## Reading -/

/-- Takes a word off the front of a text. -/
def takeWord? (word : String) (text : List Char) : Option (List Char) :=
  if word.toList.isPrefixOf text then some (text.drop word.toList.length) else none

/-- Reads the code of an expression. -/
def readExpr? (code : List Char) : Option Expr :=
  match Integer.ofText? (String.ofList code) with
  | some n => some (.literal n)
  | none => if code = "machine.var".toList then some .percent else none

/-- Reads expressions with commas between them. -/
def readElements? (code : List Char) : Option (List Expr) :=
  if code.isEmpty then some []
  else (code.splitOnP (· = ',')).mapM fun piece => readExpr? (piece.dropWhile (· = ' '))

/-- Reads a set, with what follows it. -/
def readSet? (text : List Char) : Option (List Expr × List Char) := do
  let inside ← takeWord? "ZSet.of(" text
  let elements ← readElements? (inside.takeWhile (· ≠ ')'))
  let rest ← takeWord? ")" (inside.dropWhile (· ≠ ')'))
  return (elements, rest)

/-- Reads an expression up to a closing parenthesis, with what follows it. -/
def readArgument? (text : List Char) : Option (Expr × List Char) :=
  (readExpr? (text.takeWhile (· ≠ ')'))).map (·, text.dropWhile (· ≠ ')'))

/-- Reads a character in quotes, with what follows it. -/
def readCharCode? (text : List Char) : Option (Char × List Char) :=
  match Text.readQuoted? text with
  | some ([c], rest) => some (c, rest)
  | _ => none

/-- Reads a name in quotes and a set, with what follows them. -/
def readNamedSet? {α : Type} (ofName? : String → Option α) (text : List Char) :
    Option ((α × List Expr) × List Char) := do
  let (name, rest) ← Text.readQuoted? text
  let named ← ofName? (String.ofList name)
  let (elements, rest) ← readSet? (← takeWord? ", " rest)
  return ((named, elements), rest)

/-- What was read, if nothing but a given end follows it. -/
def endedBy? {α : Type} (ending : String) (result : Option (α × List Char)) : Option α :=
  result.bind fun (a, rest) => if rest = ending.toList then some a else none

/-- Reads a line by the name in front of its parenthesis and the text behind it. -/
def readCall? (callee : String) (text : List Char) : Option LineForm :=
  match callee with
  | "machine.flip" => (endedBy? ")" (readArgument? text)).map .flip
  | "machine.put" => (endedBy? ")" (readCharCode? text)).map .put
  | "machine.apply" =>
    (endedBy? ")" (readNamedSet? SetOperator.ofName? text)).map fun (o, es) => .apply o es
  | "machine.complement" => (endedBy? ")" (some ((), text))).map fun _ => .complement
  | "machine.increment" => (endedBy? ")" (some ((), text))).map fun _ => .increment
  | "machine.read" => (endedBy? ")" (some ((), text))).map fun _ => .read
  | "while machine.holds" =>
    (endedBy? "):" (readNamedSet? Predicate.ofName? text)).map fun (p, es) => .loop p es
  | "if machine.matches" => (endedBy? "):" (readCharCode? text)).map .test
  | _ => none

/-- Reads a line of code. -/
def readCode? (code : List Char) : Option LineForm :=
  if code = "pass".toList then some .pass
  else
    (takeWord? "(" (code.dropWhile (· ≠ '('))).bind
      (readCall? (String.ofList (code.takeWhile (· ≠ '('))))

/-! ## Pieces of a text -/

/-- A word is taken off the front. -/
theorem takeWord?_append (word : String) (rest : List Char) :
    takeWord? word (word.toList ++ rest) = some rest := by
  have hprefix : word.toList.isPrefixOf (word.toList ++ rest) = true :=
    List.isPrefixOf_iff_prefix.2 (List.prefix_append _ _)
  rw [takeWord?, if_pos hprefix, List.drop_left]

/-- A text with a mark behind it is divided at the mark, if it has no such mark itself. -/
theorem takeWhile_append_cons {text : List Char} {mark : Char} (h : mark ∉ text)
    (rest : List Char) : (text ++ mark :: rest).takeWhile (· ≠ mark) = text := by
  have hall : ∀ c ∈ text, decide (c ≠ mark) = true := by
    intro c hc
    simp only [decide_eq_true_eq]
    rintro rfl
    exact h hc
  rw [List.takeWhile_append_of_pos hall]
  simp

theorem dropWhile_append_cons {text : List Char} {mark : Char} (h : mark ∉ text)
    (rest : List Char) : (text ++ mark :: rest).dropWhile (· ≠ mark) = mark :: rest := by
  have hall : ∀ c ∈ text, decide (c ≠ mark) = true := by
    intro c hc
    simp only [decide_eq_true_eq]
    rintro rfl
    exact h hc
  rw [List.dropWhile_append_of_pos hall]
  simp

/-- Texts that are joined are divided again at the first character of what joins them. -/
theorem splitOnP_toList_joinWith {p : Char → Bool} {separator : String} {mark : Char}
    {tail : List Char} (hseparator : separator.toList = mark :: tail) (hmark : p mark = true)
    (htail : ∀ c ∈ tail, p c = false) (first : String) (more : List String)
    (hfirst : ∀ c ∈ first.toList, p c = false)
    (hmore : ∀ t ∈ more, ∀ c ∈ t.toList, p c = false) :
    (Text.joinWith separator (first :: more)).toList.splitOnP p =
      first.toList :: more.map (tail ++ ·.toList) := by
  -- what was split off the text before is put in front, so that the induction goes through
  suffices hbefore : ∀ before : List Char, (∀ c ∈ before, p c = false) →
      (before ++ (Text.joinWith separator (first :: more)).toList).splitOnP p =
        (before ++ first.toList) :: more.map (tail ++ ·.toList) by
    exact hbefore [] (by simp)
  induction more generalizing first with
  | nil =>
    intro before hbefore
    have hall : ∀ c ∈ before ++ first.toList, p c = false := by
      intro c hc
      exact (List.mem_append.1 hc).elim (hbefore c) (hfirst c)
    rw [Text.joinWith, String.intercalate_singleton, List.splitOnP_eq_singleton hall]
    rfl
  | cons second more ih =>
    intro before hbefore
    have hall : ∀ c ∈ before ++ first.toList, p c = false := by
      intro c hc
      exact (List.mem_append.1 hc).elim (hbefore c) (hfirst c)
    obtain ⟨hsecond, hmore⟩ := List.forall_mem_cons.1 hmore
    have hrest := ih second hsecond hmore tail htail
    rw [Text.joinWith] at hrest
    rw [Text.joinWith, String.intercalate_cons_cons, String.toList_append, String.toList_append,
      hseparator, List.append_assoc, List.cons_append, ← List.append_assoc,
      List.splitOnP_append_cons_of_forall_mem hall mark hmark, hrest]
    rfl

/-! ## Expressions and sets -/

namespace Expr

/-- The code of an expression has letters, digits, a sign and a point. -/
theorem isAlphanum_or_of_mem_code {e : Expr} {c : Char} (h : c ∈ e.code.toList) :
    c.isAlphanum = true ∨ c = '-' ∨ c = '.' := by
  cases e with
  | literal n => exact (Integer.isAlphanum_or_eq_of_mem_text h).imp_right .inl
  | percent =>
    have hall : "machine.var".toList.all (fun c => c.isAlphanum || c = '-' || c = '.') = true := by
      decide
    simpa [or_assoc] using List.all_eq_true.1 hall c h

/-- The code of an expression has none of the marks that stand around it. -/
theorem notMem_code (e : Expr) {c : Char}
    (hc : c.isAlphanum = false ∧ c ≠ '-' ∧ c ≠ '.') : c ∉ e.code.toList := by
  intro h
  rcases isAlphanum_or_of_mem_code h with h | h | h
  · rw [hc.1] at h
    cases h
  · exact hc.2.1 h
  · exact hc.2.2 h

/-- The code of an expression is read as the expression. -/
theorem readExpr?_code (e : Expr) : readExpr? e.code.toList = some e := by
  rw [readExpr?, String.ofList_toList]
  cases e with
  | literal n => rw [code, Integer.ofText?_text]
  | percent => rfl

end Expr

namespace Expr

theorem code_ne_nil (e : Expr) : e.code.toList ≠ [] := by
  intro h
  have hread := e.readExpr?_code
  have hnone : readExpr? [] = none := by decide
  rw [h, hnone] at hread
  cases hread

/-- The code of an expression does not begin with a blank. -/
theorem dropWhile_blank_code (e : Expr) :
    e.code.toList.dropWhile (· = ' ') = e.code.toList := by
  have hblank := e.notMem_code (c := ' ') (by decide)
  cases hcode : e.code.toList with
  | nil => rfl
  | cons c rest =>
    rw [hcode] at hblank
    have hc : c ≠ ' ' := fun h => hblank (h ▸ List.mem_cons_self)
    rw [List.dropWhile_cons_of_neg (by simpa using hc)]

end Expr

/-- The code of the elements of a set is read as the elements. -/
theorem readElements?_code (es : List Expr) :
    readElements? (Text.joinWith ", " (es.map Expr.code)).toList = some es := by
  cases es with
  | nil => rfl
  | cons e es =>
    have hcomma (e : Expr) : ∀ c ∈ e.code.toList, decide (c = ',') = false := by
      intro c hc
      have hne := e.notMem_code (c := ',') (by decide)
      simp only [decide_eq_false_iff_not]
      rintro rfl
      exact hne hc
    have hseparator : ", ".toList = ',' :: [' '] := rfl
    have hpieces := splitOnP_toList_joinWith (p := (· = ',')) hseparator rfl
      (by simp) e.code (es.map Expr.code) (hcomma e) (by simpa using fun e _ => hcomma e)
    have hmore := mapM_map_eq_some (fun piece => readExpr? (piece.dropWhile (· = ' ')))
      (fun e => [' '] ++ e.code.toList)
      (fun e => by simp [e.dropWhile_blank_code, e.readExpr?_code]) es
    rw [List.map_cons, readElements?, if_neg]
    · rw [hpieces, List.mapM_cons, e.dropWhile_blank_code, e.readExpr?_code, List.map_map]
      simp only [Function.comp_def]
      rw [hmore]
      rfl
    · -- the code of a first element is not empty
      intro hempty
      rw [List.isEmpty_iff] at hempty
      rw [hempty, List.splitOnP_nil] at hpieces
      exact e.code_ne_nil (List.cons.inj hpieces).1.symm

/-- A character of joined texts is of one of them or of what joins them. -/
theorem mem_toList_joinWith {separator : String} {texts : List String} {c : Char}
    (h : c ∈ (Text.joinWith separator texts).toList) :
    c ∈ separator.toList ∨ ∃ t ∈ texts, c ∈ t.toList := by
  induction texts with
  | nil => simp [Text.joinWith] at h
  | cons first more ih =>
    cases more with
    | nil =>
      rw [Text.joinWith, String.intercalate_singleton] at h
      exact .inr ⟨first, List.mem_cons_self, h⟩
    | cons second more =>
      rw [Text.joinWith, String.intercalate_cons_cons, String.toList_append, String.toList_append,
        List.mem_append, List.mem_append] at h
      rcases h with (h | h) | h
      · exact .inr ⟨first, List.mem_cons_self, h⟩
      · exact .inl h
      · exact (ih h).imp_right fun ⟨t, ht, hc⟩ => ⟨t, List.mem_cons_of_mem _ ht, hc⟩

/-- What joins elements, and the elements themselves, close no parenthesis. -/
theorem notMem_joinWith_code (es : List Expr) {c : Char}
    (hc : c.isAlphanum = false ∧ c ≠ '-' ∧ c ≠ '.') (hseparator : c ∉ ", ".toList) :
    c ∉ (Text.joinWith ", " (es.map Expr.code)).toList := by
  intro h
  rcases mem_toList_joinWith h with h | ⟨t, ht, h⟩
  · exact hseparator h
  · obtain ⟨e, -, rfl⟩ := List.mem_map.1 ht
    exact e.notMem_code hc h

/-- The code of a set is read as its elements, with anything behind it. -/
theorem readSet?_setCode (es : List Expr) (rest : List Char) :
    readSet? ((setCode es).toList ++ rest) = some (es, rest) := by
  have hclose := notMem_joinWith_code es (c := ')') (by decide) (by decide)
  have htext : (setCode es).toList ++ rest = "ZSet.of(".toList ++
      ((Text.joinWith ", " (es.map Expr.code)).toList ++ ')' :: rest) := by
    rw [setCode, String.toList_append, String.toList_append, List.append_assoc, List.append_assoc]
    rfl
  have hword := takeWord?_append ")" rest
  rw [htext, readSet?, takeWord?_append]
  simp only [Option.bind_eq_bind, Option.bind_some, takeWhile_append_cons hclose,
    dropWhile_append_cons hclose, readElements?_code]
  rw [show ')' :: rest = ")".toList ++ rest from rfl, hword]
  rfl

/-- The code of an argument is read up to the parenthesis. -/
theorem readArgument?_code (e : Expr) (rest : List Char) :
    readArgument? (e.code.toList ++ ')' :: rest) = some (e, ')' :: rest) := by
  have hclose := e.notMem_code (c := ')') (by decide)
  rw [readArgument?, takeWhile_append_cons hclose, dropWhile_append_cons hclose, e.readExpr?_code]
  rfl

/-- The code of a character is read as the character, with anything behind it. -/
theorem readCharCode?_charCode (c : Char) (rest : List Char) :
    readCharCode? ((charCode c).toList ++ rest) = some (c, rest) := by
  rw [charCode, Text.quoted, String.toList_ofList, String.toList_ofList, readCharCode?,
    Text.readQuoted?_quoteChars]

/-- A name and a set are read as what the name stands for and the elements. -/
theorem readNamedSet?_namedSetCode {α : Type} {ofName? : String → Option α} {name : String} {a : α}
    (hname : ofName? name = some a) (es : List Expr) (rest : List Char) :
    readNamedSet? ofName? ((namedSetCode name es).toList ++ rest) = some ((a, es), rest) := by
  have htext : (namedSetCode name es).toList ++ rest = Text.quoteChars name.toList ++
      (", ".toList ++ ((setCode es).toList ++ rest)) := by
    rw [namedSetCode, String.toList_append, String.toList_append, Text.quoted,
      String.toList_ofList, List.append_assoc, List.append_assoc]
  rw [htext, readNamedSet?, Text.readQuoted?_quoteChars]
  simp only [Option.bind_eq_bind, Option.bind_some, String.ofList_toList, hname,
    takeWord?_append, readSet?_setCode]
  rfl

/-! ## Lines -/

theorem endedBy?_some {α : Type} (ending : String) (a : α) :
    endedBy? ending (some (a, ending.toList)) = some a := by
  simp [endedBy?]

/-- A call is read by what stands in front of its parenthesis. -/
theorem readCode?_call {callee : String} (h : '(' ∉ callee.toList) (text : List Char) :
    readCode? (callee.toList ++ '(' :: text) = readCall? callee text := by
  -- a line with a parenthesis is not that of an empty body
  have hpass : callee.toList ++ '(' :: text ≠ "pass".toList := by
    intro heq
    have hmem : '(' ∈ "pass".toList := by
      rw [← heq]
      simp
    exact absurd hmem (by decide)
  have hword := takeWord?_append "(" text
  rw [readCode?, if_neg hpass, takeWhile_append_cons h, dropWhile_append_cons h,
    String.ofList_toList]
  rw [show '(' :: text = "(".toList ++ text from rfl, hword, Option.bind_some]

namespace LineForm

/-- What stands in front of the parenthesis of a line, if it has one. -/
def callee : LineForm → String
  | flip _ => "machine.flip"
  | put _ => "machine.put"
  | apply _ _ => "machine.apply"
  | complement => "machine.complement"
  | increment => "machine.increment"
  | read => "machine.read"
  | loop _ _ => "while machine.holds"
  | test _ => "if machine.matches"
  | pass => "pass"

/-- What stands in the parentheses of a line. -/
def arguments : LineForm → String
  | flip e => e.code
  | put c => charCode c
  | apply o es => namedSetCode o.name es
  | loop p es => namedSetCode p.name es
  | test c => charCode c
  | _ => ""

/-- What ends a line. -/
def ending : LineForm → String
  | loop _ _ => "):"
  | test _ => "):"
  | _ => ")"

/-- A line of code is a callee, the arguments in parentheses and an ending. -/
theorem toList_code {f : LineForm} (h : f ≠ .pass) :
    f.code.toList = f.callee.toList ++ '(' :: (f.arguments.toList ++ f.ending.toList) := by
  cases f with
  | pass => exact absurd rfl h
  | _ => simp [code, callee, arguments, ending, machineCall, machineName]

/-- The words that stand in front of a parenthesis, and the one that stands alone. -/
def callees : List String :=
  ["machine.flip", "machine.put", "machine.apply", "machine.complement", "machine.increment",
    "machine.read", "while machine.holds", "if machine.matches", "pass"]

/-- The ends of lines. -/
def endings : List String := [")", "):"]

theorem ending_mem_endings (f : LineForm) : f.ending ∈ endings := by
  cases f <;> simp [ending, endings]

theorem callee_mem_callees (f : LineForm) : f.callee ∈ callees := by
  cases f <;> simp [callee, callees]

/-- The first parenthesis of a line is that behind its callee. -/
theorem parenthesis_notMem_callee (f : LineForm) : '(' ∉ f.callee.toList := by
  have hall : ∀ s ∈ callees, '(' ∉ s.toList := by decide
  exact hall _ f.callee_mem_callees

/-- Every line of code is read back. -/
theorem readCode?_code (f : LineForm) : readCode? f.code.toList = some f := by
  by_cases hpass : f = .pass
  · subst hpass
    rfl
  rw [toList_code hpass, readCode?_call f.parenthesis_notMem_callee]
  cases f with
  | flip e =>
    have hread : readArgument? (e.code.toList ++ ")".toList) = some (e, ")".toList) :=
      readArgument?_code e []
    show readCall? "machine.flip" (e.code.toList ++ ")".toList) = _
    rw [readCall?, hread, endedBy?_some, Option.map_some]
  | put c =>
    show readCall? "machine.put" ((charCode c).toList ++ ")".toList) = _
    rw [readCall?, readCharCode?_charCode, endedBy?_some, Option.map_some]
  | apply o es =>
    show readCall? "machine.apply" ((namedSetCode o.name es).toList ++ ")".toList) = _
    rw [readCall?, readNamedSet?_namedSetCode o.ofName?_name, endedBy?_some, Option.map_some]
  | complement =>
    show readCall? "machine.complement" ")".toList = _
    rw [readCall?, endedBy?_some, Option.map_some]
  | increment =>
    show readCall? "machine.increment" ")".toList = _
    rw [readCall?, endedBy?_some, Option.map_some]
  | read =>
    show readCall? "machine.read" ")".toList = _
    rw [readCall?, endedBy?_some, Option.map_some]
  | loop p es =>
    show readCall? "while machine.holds" ((namedSetCode p.name es).toList ++ "):".toList) = _
    rw [readCall?, readNamedSet?_namedSetCode p.ofName?_name, endedBy?_some, Option.map_some]
  | test c =>
    show readCall? "if machine.matches" ((charCode c).toList ++ "):".toList) = _
    rw [readCall?, readCharCode?_charCode, endedBy?_some, Option.map_some]
  | pass => exact absurd rfl hpass

/-- No line of code begins with a blank. -/
theorem head?_code_ne_blank (f : LineForm) : f.code.toList.head? ≠ some ' ' := by
  by_cases hpass : f = .pass
  · subst hpass
    decide
  have hall : ∀ s ∈ callees, s.toList ≠ [] ∧ s.toList.head? ≠ some ' ' := by decide
  have hcallee := hall _ f.callee_mem_callees
  rw [toList_code hpass, List.head?_append_of_ne_nil _ hcallee.1]
  exact hcallee.2

end LineForm

/-! ## Line breaks -/

/-- Joined texts have no line break if the texts and the separator have none. -/
theorem unbroken_joinWith {separator : String} {texts : List String}
    (hseparator : Text.Unbroken separator.toList) (h : ∀ t ∈ texts, Text.Unbroken t.toList) :
    Text.Unbroken (Text.joinWith separator texts).toList := by
  intro c hc
  rcases mem_toList_joinWith hc with hc | ⟨t, ht, hc⟩
  · exact hseparator c hc
  · exact h t ht c hc

/-- The code of an expression is on one line. -/
theorem Expr.unbroken_code (e : Expr) : Text.Unbroken e.code.toList := by
  intro c hc
  rcases isAlphanum_or_of_mem_code hc with h | rfl | rfl
  · exact Text.notMem_lineBreaks_of_isAlphanum h
  · decide
  · decide

/-- The code of a set is on one line. -/
theorem unbroken_setCode (es : List Expr) : Text.Unbroken (setCode es).toList := by
  have hopen : Text.Unbroken "ZSet.of(".toList := by decide
  have hseparator : Text.Unbroken ", ".toList := by decide
  have hclose : Text.Unbroken ")".toList := by decide
  have helements : Text.Unbroken (Text.joinWith ", " (es.map Expr.code)).toList := by
    refine unbroken_joinWith hseparator ?_
    intro t ht
    obtain ⟨e, -, rfl⟩ := List.mem_map.1 ht
    exact e.unbroken_code
  simp only [setCode, String.toList_append, Text.unbroken_append]
  exact ⟨⟨hopen, helements⟩, hclose⟩

/-- A quoted text is on one line. -/
theorem unbroken_quoted (s : String) : Text.Unbroken (Text.quoted s).toList := by
  rw [Text.quoted, String.toList_ofList]
  exact Text.unbroken_quoteChars s.toList

theorem unbroken_namedSetCode (name : String) (es : List Expr) :
    Text.Unbroken (namedSetCode name es).toList := by
  have hseparator : Text.Unbroken ", ".toList := by decide
  simp only [namedSetCode, String.toList_append, Text.unbroken_append]
  exact ⟨⟨unbroken_quoted name, hseparator⟩, unbroken_setCode es⟩

namespace LineForm

/-- The arguments of a line are on one line. -/
theorem unbroken_arguments (f : LineForm) : Text.Unbroken f.arguments.toList := by
  cases f with
  | flip e => exact e.unbroken_code
  | put c => exact unbroken_quoted _
  | apply o es => exact unbroken_namedSetCode o.name es
  | loop p es => exact unbroken_namedSetCode p.name es
  | test c => exact unbroken_quoted _
  | _ => decide

/-- No line of code has a line break in it. -/
theorem unbroken_code (f : LineForm) : Text.Unbroken f.code.toList := by
  have hcallees : ∀ s ∈ callees, Text.Unbroken s.toList := by decide +kernel
  have hendings : ∀ s ∈ endings, Text.Unbroken s.toList := by decide +kernel
  have hcallee := hcallees _ f.callee_mem_callees
  by_cases hpass : f = .pass
  · subst hpass
    exact hcallee
  have hending := hendings _ f.ending_mem_endings
  rw [toList_code hpass, Text.unbroken_append, Text.unbroken_cons, Text.unbroken_append]
  exact ⟨hcallee, by decide, f.unbroken_arguments, hending⟩

end LineForm

end SetLang
