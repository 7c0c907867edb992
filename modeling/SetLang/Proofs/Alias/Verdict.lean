import SetLang.Proofs.Alias.Offer

/-!
# What is decided about a configuration, and what is told

A configuration is accepted exactly if it offers pairs that the table allows. Main statement: then
every pair is bound, and every other word stays as it was; and where nothing is wrong but that some
alias has two symbols, the refusal tells, in the order of the pairs, every pair whose symbol is not
the established one of its alias: that of the table, or else that of the first pair of the alias.
-/

namespace SetLang

namespace AliasTable

variable {table : AliasTable} {config : Config} {entries : List Entry} {bindings : Bindings}

/-! ## Conflicts -/

/-- The symbol that an alias has by the table, or else by the first of some pairs that has the
alias. -/
def established (table : AliasTable) (pairs : List (WideText × WideText)) (given : WideText) :
    Option WideText :=
  ((given.string?.bind table.kind?).map fun kind => .ofString kind.name).or (pairs.lookup given)

/-- The pairs whose symbol is not the established one of their alias, each in words, in order. -/
def conflictsOf (table : AliasTable) (pairs : List (WideText × WideText)) : List WideText :=
  pairs.filterMap fun (given, symbol) =>
    (table.established pairs given).bind fun bound =>
      if bound = symbol then none
      else some ("'" ++ given ++ "' → conflict between " ++ bound ++ " and " ++ symbol)

theorem lookup_namedPairs (bindings : Bindings) (word : String) :
    (namedPairs bindings.wide).lookup ↑word =
      (bindings.lookup word).map fun kind => .ofString kind.name := by
  induction bindings with
  | nil => rfl
  | cons first rest ih =>
    obtain ⟨other, kind⟩ := first
    have hsame : (WideText.ofString word == WideText.ofString other) = (word == other) := by
      simp [beq_eq_decide]
    show List.lookup (WideText.ofString word)
      ((.ofString other, .ofString kind.name) :: namedPairs (Bindings.wide rest)) = _
    rw [List.lookup_cons, List.lookup_cons, ih, hsame]
    split <;> rfl

theorem established_namedPairs (table : AliasTable) (bindings : Bindings) (word : String) :
    table.established (namedPairs bindings.wide) word =
      ((table.active ++ bindings).lookup word).map fun kind => .ofString kind.name := by
  have hstring : (WideText.ofString word).string? = some word := WideText.string?_eq_some_iff.2 rfl
  rw [established, hstring, lookup_namedPairs, List.lookup_append, Option.map_or]
  rfl

theorem ofString_words (c : Collision) : WideText.ofString c.words =
    "'" ++ WideText.ofString c.word ++ "' → conflict between " ++ WideText.ofString c.bound.name ++
      " and " ++ WideText.ofString c.wanted.name := by
  simp only [Collision.words, WideText.ofString_append]

/-- The collisions of canonical pairs in words are the conflicts of their symbols. -/
theorem map_words_collisionsIn (htable : table.active.AllCanonical)
    (hbindings : bindings.AllCanonical) :
    (Bindings.collisionsIn (table.active ++ bindings) bindings).map (WideText.ofString ·.words) =
      table.conflictsOf (namedPairs bindings.wide) := by
  have hpairs : namedPairs bindings.wide =
      bindings.map fun bound => (.ofString bound.1, .ofString bound.2.name) := by
    rw [namedPairs, Bindings.wide, List.map_map]
    rfl
  rw [Bindings.collisionsIn, List.map_filterMap, conflictsOf]
  nth_rewrite 2 [hpairs]
  rw [List.filterMap_map]
  refine List.filterMap_congr fun pair hmem => ?_
  obtain ⟨word, kind⟩ := pair
  simp only [Function.comp_apply, established_namedPairs, Bindings.collision?]
  cases hlookup : (table.active ++ bindings).lookup word with
  | none => rfl
  | some bound =>
    -- kinds of the language differ exactly if their names do
    have hbound : bound ∈ TokenKind.canonical :=
      htable.append hbindings word bound (Bindings.mem_of_lookup_eq_some hlookup)
    have hname : bound = kind ↔ bound.name = kind.name :=
      ⟨congrArg _, name_injective_of_mem hbound (hbindings word kind hmem)⟩
    by_cases hkind : bound = kind
    · simp [hkind]
    · simp [hkind, mt hname.2 hkind, ofString_words]

/-! ## The verdict -/

/-- What a table does with a configuration that is a dictionary of texts or a list. It is accepted
exactly if it offers pairs that the table allows: a symbol of the language for each of them, which a
list with at most as many items as there are slots has by its slots; an alias that is a word and no
fixed spelling; and no alias with two symbols, in the pairs and the table together. Then each pair is
bound and all other words are as they were. If there is nothing wrong but that aliases have two
symbols, the configuration is refused for the conflicts of the pairs. -/
theorem configure_decides_and_tells (htable : table.active.AllCanonical) (config : Config) :
    let outcome := (AliasCall.configure config).run table
    (outcome.1 = .ok () ↔ ∃ entries, Offers config entries ∧ table.AllowsListed entries) ∧
    ∀ entries, Offers config entries →
      table.ConfiguresListed entries outcome ∧
      ((∀ entry ∈ entries, IsSymbol entry.2) →
        (∀ given symbol, (given, symbol) ∈ pairsOf entries → IsAlias given) →
        ¬table.AllowsListed entries →
        ∃ cause, outcome = (.error (.aliases cause), table) ∧
          cause.message = "Alias collision(s) detected" ∧
          cause.conflicts.map WideText.ofString = table.conflictsOf (pairsOf entries)) := by
  intro outcome
  have houtcome : outcome = table.settle (table.configure config) := AliasCall.run_eq _ _
  have hconfigures (entries : List Entry) (h : Offers config entries) :
      table.ConfiguresListed entries outcome := by
    rw [houtcome]
    exact h.configuresListed htable
  refine ⟨⟨fun hok => ?_, ?_⟩, fun entries hoffers => ⟨hconfigures entries hoffers, ?_⟩⟩
  · -- what is accepted has pairs, and these come of an offer
    obtain ⟨table', hconfigure⟩ : ∃ table', table.configure config = .ok table' := by
      cases hconfigure : table.configure config with
      | ok table' => exact ⟨table', rfl⟩
      | error fault =>
        rw [houtcome, hconfigure] at hok
        cases hok
    obtain ⟨bindings, hpairs, -⟩ := exists_of_bind_eq_ok hconfigure
    obtain ⟨entries, hoffers⟩ := exists_offers_of_pairs hpairs
    exact ⟨entries, hoffers, (hconfigures entries hoffers).ok_iff.1 hok⟩
  · rintro ⟨entries, hoffers, hallows⟩
    exact (hconfigures entries hoffers).ok_iff.2 hallows
  · intro hsymbols haliases hnot
    obtain ⟨asked, hpairs, hnames⟩ := hoffers.exists_pairs_eq hsymbols
    obtain ⟨bindings, rfl, hwords⟩ :=
      Bindings.exists_eq_wide ((forall_isAlias_iff hnames).1 haliases)
    have hbindings := allCanonical_of_wide (kind_mem_canonical_of_pairs hpairs)
    let collisions := Bindings.collisionsIn (table.active ++ bindings) bindings
    have hsome : collisions ≠ [] := fun hnone =>
      hnot ((allowsListed_iff hnames htable hbindings hsymbols haliases).2 hnone)
    refine ⟨.collisions collisions, ?_, rfl, ?_⟩
    · rw [houtcome, configure_eq_error_of_collisionsIn hwords hsome hpairs]
      rfl
    · rw [AliasCause.conflicts, List.map_map, ← hnames, ← map_words_collisionsIn htable hbindings]
      rfl

/-- A group in a group, an alias that has its symbol already, and two that get another one: of these
one is bound by the table, and one by the first of its pairs. -/
theorem configure_decides_and_tells_conflicts :
    let config : Config := .dict [
      (.group [.text "join", .group [.text "union", .text "meet"]], .text "UNION"),
      (.text "meet", .text "INTERSECTION"), (.text "inter", .text "COMPLEMENT"),
      (.group [.text "join", .text "meet"], .text "COMPLEMENT")]
    let entries : List Entry := [(["join", "union", "meet"], "UNION"), (["meet"], "INTERSECTION"),
      (["inter"], "COMPLEMENT"), (["join", "meet"], "COMPLEMENT")]
    let conflicts := ["'meet' → conflict between UNION and INTERSECTION",
      "'inter' → conflict between INTERSECTION and COMPLEMENT",
      "'join' → conflict between UNION and COMPLEMENT",
      "'meet' → conflict between UNION and COMPLEMENT"]
    canonical.active.AllCanonical ∧ Offers config entries ∧
    (∀ entry ∈ entries, IsSymbol entry.2) ∧
    (∀ given symbol, (given, symbol) ∈ pairsOf entries → IsAlias given) ∧
    ¬canonical.AllowsListed entries ∧
    ∃ cause, (AliasCall.configure config).run canonical = (.error (.aliases cause), canonical) ∧
      cause.message = "Alias collision(s) detected" ∧
      cause.conflicts = conflicts := by
  intro config entries conflicts
  have htable : canonical.active.AllCanonical := Reachable.canonical.allCanonical
  have hoffers : Offers config entries := by
    refine .dict (.cons ⟨.group ?_, rfl⟩ (.cons ⟨.text _, rfl⟩ (.cons ⟨.text _, rfl⟩
      (.cons ⟨.group ?_, rfl⟩ .nil))))
    · exact .cons (.text "join") (.cons (.group (.cons (.text "union") (.cons (.text "meet") .nil)))
        .nil)
    · exact .cons (.text "join") (.cons (.text "meet") .nil)
  have hsymbols : ∀ entry ∈ entries, IsSymbol entry.2 := by
    have hall : ∀ entry ∈ entries, ∃ kind ∈ TokenKind.canonical,
        WideText.ofString kind.name = entry.2 := by decide +kernel
    exact hall
  have haliases : ∀ given symbol, (given, symbol) ∈ pairsOf entries → IsAlias given := by
    have hall : ∀ pair ∈ pairsOf entries, ∃ word ∈ ["join", "union", "meet", "inter"],
        checkAlias pair.1 = .ok word := by decide +kernel
    intro given symbol hmem
    obtain ⟨word, -, hword⟩ := hall (given, symbol) hmem
    exact ⟨word, checkAlias_eq_ok_iff.1 hword⟩
  have hnot : ¬canonical.AllowsListed entries := by
    intro h
    have hone := h.one_symbol "meet" "UNION" "INTERSECTION" (by decide) (by decide)
    exact absurd hone (by decide)
  have hconflicts : canonical.conflictsOf (pairsOf entries) =
      conflicts.map WideText.ofString := by decide +kernel
  obtain ⟨-, hdecides⟩ := configure_decides_and_tells htable config
  obtain ⟨-, htells⟩ := hdecides entries hoffers
  obtain ⟨cause, houtcome, hmessage, hcause⟩ := htells hsymbols haliases hnot
  exact ⟨htable, hoffers, hsymbols, haliases, hnot, cause, houtcome, hmessage,
    List.map_injective_iff.2 WideText.ofString_injective (hcause.trans hconflicts)⟩

end AliasTable

end SetLang
