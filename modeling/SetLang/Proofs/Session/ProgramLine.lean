import SetLang.Proofs.Program.Spacing
import SetLang.Proofs.Session.AliasLine
import SetLang.Proofs.Session.OpenBlocks

/-!
# Programs at the prompt

A session looks at the letters of an entry before the entry is read as a program: an entry that begins
with those of the command word for aliases is a command. Main statement: a line with a program that
begins with no command word is passed on as this program, unless it begins with a longer word that
begins with these letters, and then this word is an alias of the table.
-/

namespace SetLang

open Phrase (words trees)

/-! ## Whole words -/

/-- The words that a line about a session itself begins with. -/
def commandWords : List String := ["exit", "quit", "state", "sugar"]

/-- Whether a text begins with a whole word; case does not count. -/
def BeginsWithWord (text word : String) : Prop :=
  smallLetters (takeFirst word.toList.length text) = word ∧
    ∀ c ∈ (dropFirst word.toList.length text).toList.head?, isWordChar c = false

instance (text word : String) : Decidable (BeginsWithWord text word) :=
  decidable_of_iff (smallLetters (takeFirst word.toList.length text) = word ∧
      (dropFirst word.toList.length text).toList.head?.any isWordChar = false)
    (and_congr_right' Text.forall_mem_iff_any_eq_false.symm)

theorem beginsWithWord_of_smallLetters_eq {text word : String} (h : smallLetters text = word) :
    BeginsWithWord text word := by
  have hlength : word.toList.length = text.toList.length := by
    rw [← smallLetters_eq_iff.1 h, List.length_map]
  refine ⟨?_, ?_⟩
  · rw [takeFirst, hlength, List.take_length, String.ofList_toList, h]
  · rw [dropFirst, hlength, List.drop_length]
    exact fun c hc => by cases hc

/-- A letter in another case begins words as the letter does. -/
theorem isWordStart_of_toLower {c : Char} (h : isWordStart c.toLower = true) :
    isWordStart c = true := by
  unfold Char.toLower at h
  split at h
  · next hrange =>
    have hupper : c.isUpper = true := by
      unfold Char.isUpper
      simpa using hrange
    show (c.isUpper || c.isLower || c == '_') = true
    rw [hupper, Bool.true_or, Bool.true_or]
  · exact h

/-- A text that begins with the letters of a word, in any case, begins with letters. -/
theorem isWordStart_of_mem_take {text word : String} {n : Nat}
    (h : smallLetters (takeFirst n text) = word) (hword : ∀ c ∈ word.toList, isWordStart c = true) :
    ∀ c ∈ text.toList.take n, isWordStart c = true := by
  intro c hc
  rw [smallLetters_eq_iff, takeFirst, String.toList_ofList] at h
  exact isWordStart_of_toLower (hword _ (h ▸ List.mem_map_of_mem hc))

/-- Where a run of word characters ends, all that a text begins with has been read. -/
theorem le_length_of_isWordChar {x rest : List Char} {n : Nat} (hn : n ≤ (x ++ rest).length)
    (h : ∀ c ∈ (x ++ rest).take n, isWordChar c = true)
    (hend : ∀ c ∈ rest.head?, isWordChar c = false) : n ≤ x.length := by
  by_contra hlong
  obtain ⟨m, hm⟩ := Nat.exists_eq_add_of_lt (Nat.lt_of_not_le hlong)
  cases rest with
  | nil => simp at hn; omega
  | cons c rest =>
    have hmem : c ∈ (x ++ c :: rest).take n := by
      rw [hm, List.take_append, Nat.add_assoc, Nat.add_sub_cancel_left, List.take_succ_cons]
      simp
    have hword := h c hmem
    rw [hend c rfl] at hword
    cases hword

/-! ## First tokens of programs -/

variable {resolve : Resolver} {text : List Char} {tree : Node}

/-- A text that is all gap has no statements. -/
theorem not_isGap_of_children (hresolve : resolve.Canonical)
    (hparse : parseText resolve text = .ok tree) (hstatement : tree.children ≠ []) :
    ¬IsGap text [] := by
  intro hgap
  have hempty : parseText resolve text = .ok (Phrase.programTree [] []) :=
    (parseText_eq_ok_iff hresolve).2 ⟨[], [], _, .done hgap, rfl, rfl⟩
  obtain rfl := Except.ok.inj (hparse.symm.trans hempty)
  exact hstatement rfl

/-- No statement begins with a word that stands for nothing. -/
theorem Phrase.exists_word_eq_cons_ne_word (d : Phrase) :
    ∃ k rest, d.word = k :: rest ∧ k ≠ .word := by
  cases d <;> exact ⟨_, _, by rw [word], by simp⟩

/-- A program that begins with a letter begins with a word, which is not a plain one. -/
theorem exists_first_word (hresolve : resolve.Canonical)
    (hparse : parseText resolve text = .ok tree) (hstatement : tree.children ≠ []) {c : Char}
    (hfirst : c ∈ text.head?) (hc : isWordStart c = true) :
    ∃ x rest kind, text = x ++ rest ∧ (∀ d ∈ rest.head?, isWordChar d = false) ∧
      IsWordKind resolve (String.ofList x) kind ∧ kind ≠ .word := by
  obtain ⟨ds, ts, last, htokens, hwords, rfl⟩ := (parseText_eq_ok_iff hresolve).1 hparse
  cases ds with
  | nil => exact absurd rfl hstatement
  | cons d ds =>
    obtain ⟨k, more, hword, hk⟩ := d.exists_word_eq_cons_ne_word
    rw [Phrase.words_cons, hword] at hwords
    obtain ⟨t, ts, rfl, rfl, -⟩ := List.map_eq_cons_iff.1 hwords.symm
    generalize hall : t :: ts ++ [.endAt last] = all at htokens
    cases htokens with
    | done => simp at hall
    | @lexeme _ g x rest t' ts' hgap hnone hx _ _ =>
      obtain ⟨rfl, -⟩ := List.cons.inj hall
      cases hgap with
      | blank hblank =>
        obtain rfl := Option.some.inj hfirst
        rw [(not_gap_of_isWordChar (isWordChar_of_isWordStart hc)).1] at hblank
        cases hblank
      | comment =>
        obtain rfl := Option.some.inj hfirst
        cases hc
      | nil =>
        rw [List.nil_append] at hfirst ⊢
        rw [List.head?_append_of_ne_nil _ hx.ne_nil] at hfirst
        generalize t.kind = kind at hx hk
        generalize t.value = value at hx
        cases hx with
        | word _ _ hend hkind => exact ⟨_, rest, kind, rfl, hend, hkind, hk⟩
        | integer hdigits =>
          obtain rfl := Option.some.inj hfirst
          rw [isWordStart_eq_false_of_isDigit (hdigits _ List.mem_cons_self)] at hc
          cases hc
        | quoted | tested =>
          obtain rfl := Option.some.inj hfirst
          cases hc
        | mark hsymbol | unknown hsymbol =>
          obtain rfl := Option.some.inj hfirst
          rw [hsymbol.1] at hc
          cases hc

/-! ## Words that begin with a command word -/

/-- A program that begins with the letters of the command word for aliases begins with an alias that
begins with them. -/
theorem exists_alias_of_sugar {table : AliasTable} {entry : String}
    (hresolve : Resolver.Canonical table.kind?)
    (hparse : parseText table.kind? entry.toList = .ok tree) (hstatement : tree.children ≠ [])
    (hsugar : smallLetters (takeFirst 5 entry) = "sugar") :
    ∃ word kind, (word, kind) ∈ table.active ∧ word.toList <+: entry.toList ∧
      smallLetters (takeFirst 5 word) = "sugar" ∧ 5 ≤ word.toList.length ∧
      ∀ c ∈ (dropFirst word.toList.length entry).toList.head?, isWordChar c = false := by
  have hletters : ∀ c ∈ entry.toList.take 5, isWordStart c = true :=
    isWordStart_of_mem_take hsugar (forall_mem_of_all (by decide))
  have hlength : 5 ≤ entry.toList.length := by
    have hall := congrArg List.length (smallLetters_eq_iff.1 hsugar)
    rw [takeFirst, String.toList_ofList, List.length_map, List.length_take] at hall
    have hmin : min 5 entry.toList.length = 5 := hall
    omega
  obtain ⟨c, more, hentry⟩ := List.exists_cons_of_length_pos (Nat.lt_of_lt_of_le (by decide) hlength)
  have hc : isWordStart c = true := hletters c (by rw [hentry]; simp)
  obtain ⟨x, rest, kind, hsplit, hend, hkind, hk⟩ :=
    exists_first_word hresolve hparse hstatement (by rw [hentry]; rfl) hc
  have hlong : 5 ≤ x.length := by
    rw [hsplit] at hlength hletters
    exact le_length_of_isWordChar hlength (fun d hd => isWordChar_of_isWordStart (hletters d hd)) hend
  have hx : takeFirst 5 (String.ofList x) = takeFirst 5 entry := by
    rw [takeFirst, takeFirst, String.toList_ofList, hsplit, List.take_append_of_le_length hlong]
  refine ⟨String.ofList x, kind, ?_, ?_, by rw [hx, hsugar], by rwa [String.toList_ofList], ?_⟩
  · cases hkind with
    | spelled hspelled =>
      -- no fixed spelling is as long
      have hshort := length_mem_of_isSome_spelled? (x := x) (by rw [hspelled]; rfl)
      simp at hshort
      omega
    | aliased _ halias => exact Bindings.mem_of_lookup_eq_some halias
    | plain => exact absurd rfl hk
  · rw [String.toList_ofList, hsplit]
    exact List.prefix_append x rest
  · rw [String.toList_ofList, dropFirst, hsplit, List.drop_left, String.toList_ofList]
    exact hend

/-! ## Lines with programs -/

/-- The blanks around a text do not count where it is parsed. -/
theorem parseText_strip (hresolve : resolve.Canonical) {s : String}
    (h : parseText resolve s.toList = .ok tree) :
    parseText resolve (Text.strip s).toList = .ok tree := by
  obtain ⟨ts, hts⟩ := exists_tokenized_of_parseText hresolve h
  obtain ⟨us, hus, hcontents⟩ := hts.exists_strip
  exact (parseText_eq_ok_iff_of_map_content hresolve hts hus hcontents).1 h

namespace Session

variable {s : Session} {line : String}

/-- A line with a program is passed on: it is taken for no command about aliases, and its entry, which
is the same program, is prepared to be run. Whether the program is then run or refused, the session is
as before. -/
structure PassesOn (s : Session) (line : String) (tree : Node) : Prop where
  not_command : s.aliases.command? (Text.strip line) = none
  enter_eq : s.enter line = s.runProgram (Text.strip line)
  parse_eq : parseText s.aliases.kind? (Text.strip line).toList = .ok tree
  keeps : ∀ h : Host, (∃ h', h.run (s.enter line) = (.ok (.proceed s), h')) ∨
    ∃ program h', program.toNode = tree ∧ h.run (s.enter line) = (.ok (.execute s program), h')

/-- To prepare an entry with a program changes nothing of a session. -/
theorem run_runProgram {entry : String} (hresolve : Resolver.Canonical s.aliases.kind?)
    (hparse : parseText s.aliases.kind? entry.toList = .ok tree) (h : Host) :
    (∃ h', h.run (s.runProgram entry) = (.ok (.proceed s), h')) ∨
      ∃ program h', program.toNode = tree ∧
        h.run (s.runProgram entry) = (.ok (.execute s program), h') := by
  obtain ⟨program, -, rfl⟩ := (isWellFormed_of_parseText hresolve hparse).exists_program
  rw [runProgram, Host.run_orElse, Host.run_bind, Host.run_prepareEntry_of_ok hparse]
  cases (layoutOf 0 program).listing.check with
  | ok => exact .inr ⟨program, _, rfl, rfl⟩
  | error fault => exact .inl ⟨_, rfl⟩

/-- A line with a program that begins with no command word is an entry, and what the entry asks for is
told by its letters: to show code or not, a command about aliases, or to run the program. -/
theorem enter_program_line (hprompt : s.pending = []) (hresolve : Resolver.Canonical s.aliases.kind?)
    (hline : '\n' ∉ line.toList) (hparse : parseText s.aliases.kind? line.toList = .ok tree)
    (hstatement : tree.children ≠ [])
    (hwords : ∀ word ∈ commandWords, ¬BeginsWithWord (Text.strip line) word) :
    s.enter line = s.carryOut (Text.strip line) ∧
      entryKind (Text.strip line) =
        if smallLetters (Text.strip line) = "verbose-mode" then .toggleVerbose
        else if smallLetters (takeFirst 5 (Text.strip line)) = "sugar" then
          .aliasCommand (Text.strip (dropFirst 5 (Text.strip line)))
        else .program := by
  obtain ⟨front, behind, hs, -⟩ := Text.exists_toList_eq_append_strip line
  have hgap := not_isGap_of_children hresolve (parseText_strip hresolve hparse) hstatement
  have hempty : Text.strip line ≠ "" := by
    intro hnil
    rw [hnil] at hgap
    exact hgap (.nil [])
  have hsign : (Text.strip line).toList.head? ≠ some '#' := by
    intro hhead
    obtain ⟨body, hbody⟩ := List.head?_eq_some_iff.1 hhead
    rw [hs, hbody] at hline
    rw [hbody, ← List.append_nil body] at hgap
    exact hgap (.comment (fun hmem => hline (by simp [hmem])) (by simp) (.nil []))
  have hleaves : ¬s.Leaves line := by
    rintro ⟨-, hexit | hquit⟩
    · rw [hexit] at hwords
      exact hwords "exit" (by decide) (beginsWithWord_of_smallLetters_eq rfl)
    · rw [hquit] at hwords
      exact hwords "quit" (by decide) (beginsWithWord_of_smallLetters_eq rfl)
  have hcontinues : ¬s.Continues line := by
    have hwith : s.linesWith line = line := by
      rw [linesWith, hprompt]
      rfl
    rw [Continues, hwith, blockDepth_of_parseText hresolve hparse]
    exact Int.lt_irrefl 0
  have hstate : smallLetters (Text.strip line) ≠ "state" := fun h =>
    hwords "state" (by decide) (beginsWithWord_of_smallLetters_eq h)
  refine ⟨enter_at_prompt hprompt hleaves hcontinues, ?_⟩
  rw [entryKind, if_neg (by simpa [hempty] using hsign), if_neg hstate, Text.strip_strip]

/-- At the prompt a line with a program is passed on as this program, if it begins with no command word
and is not the word that shows code or not. There is one exception: a line that begins with a longer
word, whose first letters are those of the command word for aliases, is taken for a command about
aliases. Such a word is an alias of the table, so with a table that has none of these every program is
passed on. -/
theorem program_line_at_prompt (hprompt : s.pending = []) (htable : s.aliases.Reachable)
    (hline : '\n' ∉ line.toList) (hparse : parseText s.aliases.kind? line.toList = .ok tree)
    (hstatement : tree.children ≠ [])
    (hwords : ∀ word ∈ commandWords, ¬BeginsWithWord (Text.strip line) word) :
    let entry := Text.strip line
    (smallLetters entry ≠ "verbose-mode" → smallLetters (takeFirst 5 entry) ≠ "sugar" →
      s.PassesOn line tree) ∧
    (smallLetters entry = "verbose-mode" → s.enter line = s.toggleVerbose) ∧
    (smallLetters (takeFirst 5 entry) = "sugar" →
      (s.enter line = do
        let aliases ← s.aliases.carryOut (Text.strip (dropFirst 5 entry))
        return .proceed { s with aliases }) ∧
      ∃ word kind, (word, kind) ∈ s.aliases.active ∧ word.toList <+: entry.toList ∧
        smallLetters (takeFirst 5 word) = "sugar" ∧ 5 < word.toList.length) := by
  dsimp only
  have hresolve : Resolver.Canonical s.aliases.kind? := htable.canonical_kind?
  have hentry : parseText s.aliases.kind? (Text.strip line).toList = .ok tree :=
    parseText_strip hresolve hparse
  obtain ⟨henter, hkind⟩ := enter_program_line hprompt hresolve hline hparse hstatement hwords
  rw [carryOut_eq] at henter
  refine ⟨fun hverbose hsugar => ?_, fun hverbose => ?_, fun hsugar => ?_⟩
  · have hprogram : entryKind (Text.strip line) = .program :=
      hkind.trans ((if_neg hverbose).trans (if_neg hsugar))
    rw [hprogram] at henter
    have hcommand : s.aliases.command? (Text.strip line) = none := by
      rw [AliasTable.command?, Text.strip_strip]
      exact if_neg hsugar
    refine ⟨hcommand, henter, hentry, fun h => ?_⟩
    rw [henter]
    exact run_runProgram hresolve hentry h
  · have htoggle : entryKind (Text.strip line) = .toggleVerbose := hkind.trans (if_pos hverbose)
    rw [henter, htoggle]
  · have hverbose : smallLetters (Text.strip line) ≠ "verbose-mode" := by
      intro hverbose
      rw [smallLetters_eq_iff, takeFirst, String.toList_ofList, List.map_take,
        smallLetters_eq_iff.1 hverbose] at hsugar
      exact absurd hsugar (by decide)
    have hcommand : entryKind (Text.strip line) =
        .aliasCommand (Text.strip (dropFirst 5 (Text.strip line))) :=
      hkind.trans ((if_neg hverbose).trans (if_pos hsugar))
    rw [hcommand] at henter
    refine ⟨henter, ?_⟩
    obtain ⟨word, kind, hmem, hbegins, hword, hlength, hend⟩ :=
      exists_alias_of_sugar hresolve hentry hstatement hsugar
    refine ⟨word, kind, hmem, hbegins, hword, Nat.lt_of_le_of_ne hlength fun hshort => ?_⟩
    rw [← hshort] at hend
    exact hwords "sugar" (by decide) ⟨hsugar, hend⟩

/-- An alias that is longer than a command word, with a blank in front and a comment behind. -/
theorem program_line_at_prompt_comment :
    let table : AliasTable := ⟨canonicalWords ++ [("states", .complement)],
      canonicalWords ++ [("states", .complement)]⟩
    let tree : Node := .mk .program .absent [.leaf .complement]
    table.Reachable ∧ parseText table.kind? " states # sugar".toList = .ok tree ∧
      (∀ word ∈ commandWords, ¬BeginsWithWord (Text.strip " states # sugar") word) ∧
      (fresh false table).PassesOn " states # sugar" tree := by
  intro table tree
  have hconfigure : AliasTable.canonical.configure
      (.dict [(.text "states", .text "COMPLEMENT")]) = .ok table := by rfl
  have htable : table.Reachable := .configure .canonical hconfigure
  have hparse : parseText table.kind? " states # sugar".toList = .ok tree := by rfl
  have hwords : ∀ word ∈ commandWords, ¬BeginsWithWord (Text.strip " states # sugar") word := by
    decide
  exact ⟨htable, hparse, hwords, (program_line_at_prompt (s := fresh false table) rfl htable
    (by decide) hparse (by simp [tree, Node.children]) hwords).1 (by decide) (by decide)⟩

/-- An alias that begins with the letters of the command word: the line with it is a program, and it is
taken for a configuration. -/
theorem not_passesOn_longer_word :
    let table : AliasTable := ⟨canonicalWords ++ [("sugarcube", .complement)],
      canonicalWords ++ [("sugarcube", .complement)]⟩
    let s := fresh false table
    let tree : Node := .mk .program .absent [.leaf .complement]
    AliasTable.canonical.configure (.dict [(.text "sugarcube", .text "COMPLEMENT")]) = .ok table ∧
      s.aliases.Reachable ∧ s.pending = [] ∧ '\n' ∉ "sugarcube".toList ∧
      parseText s.aliases.kind? "sugarcube".toList = .ok tree ∧ tree.children ≠ [] ∧
      smallLetters (Text.strip "sugarcube") ≠ "verbose-mode" ∧
      (∀ word ∈ commandWords, ¬BeginsWithWord (Text.strip "sugarcube") word) ∧
      entryKind (Text.strip "sugarcube") = .aliasCommand "cube" ∧
      (s.aliases.command? (Text.strip "sugarcube")).isSome ∧ ¬s.PassesOn "sugarcube" tree := by
  intro table s tree
  have hconfigure : AliasTable.canonical.configure
      (.dict [(.text "sugarcube", .text "COMPLEMENT")]) = .ok table := by rfl
  have htable : table.Reachable := .configure .canonical hconfigure
  have hparse : parseText s.aliases.kind? "sugarcube".toList = .ok tree := by rfl
  have hstatement : tree.children ≠ [] := by simp [tree, Node.children]
  have hwords : ∀ word ∈ commandWords, ¬BeginsWithWord (Text.strip "sugarcube") word := by decide
  have hkind : entryKind (Text.strip "sugarcube") = .aliasCommand "cube" := by rfl
  have hcommand : (s.aliases.command? (Text.strip "sugarcube")).isSome := by rfl
  refine ⟨hconfigure, htable, rfl, by decide, hparse, hstatement, by decide, hwords, hkind, hcommand,
    fun hpasses => ?_⟩
  rw [hpasses.not_command] at hcommand
  cases hcommand

end Session

end SetLang
