import SetLang.Proofs.Alias.Decision
import SetLang.Proofs.Alias.History
import Mathlib.Data.List.Forall2

/-!
# What a configuration offers

A configuration offers pairs of an alias and a symbol: a dictionary by its entries, a list by its
slots, and nested groups one alias after the other. Main statement: a table is extended by all pairs
that a configuration offers exactly if it allows them, that is, if the symbols are those of the
language, the aliases are words that may be aliases, and no alias has two symbols in the pairs and
the table together. Otherwise nothing is changed.
-/

namespace SetLang

/-! ## Groups -/

namespace Config

/-- The aliases that a group lists, in order: a text is one alias, a list has those of its items, and
a dictionary has the names of its keys. Anything else lists none. -/
inductive Lists : Config → List WideText → Prop where
  | text (word : WideText) : Lists (.text word) [word]
  | nil : Lists (.list []) []
  | cons {item : Config} {rest : List Config} {first more : List WideText} :
      Lists item first → Lists (.list rest) more → Lists (.list (item :: rest)) (first ++ more)
  | group {items : List Config} {words : List WideText} :
      Lists (.list items) words → Lists (.group items) words
  | dict {entries : List (Config × Config)} {names : List WideText} :
      List.Forall₂ (fun entry name => entry.1.nameText = .ok name) entries names →
      Lists (.dict entries) names
  | null : Lists .null []
  | bool (value : Bool) : Lists (.bool value) []
  | int (value : Int) : Lists (.int value) []
  | float (value : Binary64) : Lists (.float value) []

/-- The keys of some entries have names if each of them has one. -/
theorem mapM_nameText_eq_ok_iff {entries : List (Config × Config)} {names : List WideText} :
    entries.mapM (fun (key, _) => key.nameText) = .ok names ↔
      List.Forall₂ (fun entry name => entry.1.nameText = .ok name) entries names := by
  induction entries generalizing names with
  | nil =>
    rw [List.mapM_nil, List.forall₂_nil_left_iff]
    exact ⟨fun h => (Except.ok.inj h).symm, fun h => by rw [h]; rfl⟩
  | cons entry rest ih =>
    rw [List.mapM_cons, List.forall₂_cons_left_iff]
    constructor
    · intro h
      obtain ⟨name, hname, h⟩ := exists_of_bind_eq_ok h
      obtain ⟨more, hmore, h⟩ := exists_of_bind_eq_ok h
      exact ⟨name, more, hname, ih.1 hmore, (Except.ok.inj h).symm⟩
    · rintro ⟨name, more, hname, hmore, rfl⟩
      obtain ⟨key, value⟩ := entry
      dsimp only at hname ⊢
      rw [hname, ih.2 hmore]
      rfl

/-- The aliases that a group lists are found. -/
theorem Lists.listed_eq {group : Config} {words : List WideText} (h : group.Lists words) :
    group.listed = .ok words := by
  induction h with
  | @cons item rest first more _ _ hitem hrest =>
    have hmore : listedOf rest = .ok more := hrest
    show listedOf (item :: rest) = _
    rw [listedOf, hitem, hmore]
    rfl
  | group _ ih => exact ih
  | dict hnames => exact mapM_nameText_eq_ok_iff.2 hnames
  | text | nil | null | bool | int | float => rfl

mutual

/-- The aliases that are found in a group are those that it lists. -/
theorem lists_of_listed : ∀ {group : Config} {words : List WideText},
    group.listed = .ok words → group.Lists words
  | .text word, _, h => by
    obtain rfl := Except.ok.inj h
    exact .text word
  | .list _, _, h => lists_of_listedOf h
  | .group _, _, h => .group (lists_of_listedOf h)
  | .dict _, _, h => .dict (mapM_nameText_eq_ok_iff.1 h)
  | .null, _, h => by
    obtain rfl := Except.ok.inj h
    exact .null
  | .bool value, _, h => by
    obtain rfl := Except.ok.inj h
    exact .bool value
  | .int value, _, h => by
    obtain rfl := Except.ok.inj h
    exact .int value
  | .float value, _, h => by
    obtain rfl := Except.ok.inj h
    exact .float value

/-- The aliases that are found in a list of groups are those that it lists. -/
theorem lists_of_listedOf : ∀ {items : List Config} {words : List WideText},
    listedOf items = .ok words → Lists (.list items) words
  | [], _, h => by
    obtain rfl := Except.ok.inj h
    exact .nil
  | item :: rest, _, h => by
    obtain ⟨first, hfirst, h⟩ := exists_of_bind_eq_ok h
    obtain ⟨more, hmore, h⟩ := exists_of_bind_eq_ok h
    obtain rfl := Except.ok.inj h
    exact .cons (lists_of_listed hfirst) (lists_of_listedOf hmore)

end

end Config

namespace AliasTable

/-- Some aliases with the symbol that is asked for them. -/
abbrev Entry : Type :=
  List WideText × WideText

variable {table table' : AliasTable} {config : Config} {items : List Config}
variable {entries : List Entry} {entry : Entry} {bindings : Bindings} {asked : WideBindings}
variable {word : String} {given symbol : WideText}
variable {kind : TokenKind} {kinds : List TokenKind}

/-! ## Symbols -/

/-- A kind of the language is found by its name. -/
theorem find?_name_of_mem (h : kind ∈ TokenKind.canonical) :
    TokenKind.canonical.find? (·.name == kind.name) = some kind := by
  have hall : ∀ k ∈ TokenKind.canonical,
      TokenKind.canonical.find? (·.name == k.name) = some k := by decide
  exact hall kind h

/-- Kinds of the language with the same name are the same. -/
theorem name_injective_of_mem {other : TokenKind} (h : kind ∈ TokenKind.canonical)
    (hother : other ∈ TokenKind.canonical) (heq : kind.name = other.name) : kind = other := by
  have hkind := find?_name_of_mem h
  rw [heq, find?_name_of_mem hother] at hkind
  exact (Option.some.inj hkind).symm

/-- A symbol of the language. -/
def IsSymbol (symbol : WideText) : Prop :=
  ∃ kind ∈ TokenKind.canonical, .ofString kind.name = symbol

/-- The name of a kind of the language is its symbol. -/
theorem symbol_text_of_mem (h : kind ∈ TokenKind.canonical) :
    AliasTable.symbol (.text kind.name) = .ok kind := by
  have hfind : TokenKind.canonical.find? (fun other =>
      WideText.ofString other.name == WideText.ofString kind.name) = some kind := by
    simpa [beq_eq_decide] using find?_name_of_mem h
  unfold AliasTable.symbol
  simp only [Config.unhashable?, hfind]

/-- A text that is no symbol is refused as such. -/
theorem symbol_text_of_not_isSymbol (h : ¬IsSymbol symbol) :
    AliasTable.symbol (.text symbol) = .error (.aliases (.unknownSymbol symbol)) := by
  have hnone : TokenKind.canonical.find? (fun kind => WideText.ofString kind.name == symbol) =
      none := by
    rw [List.find?_eq_none]
    intro kind hkind hname
    exact h ⟨kind, hkind, eq_of_beq hname⟩
  unfold AliasTable.symbol
  simp only [Config.unhashable?, hnone]
  rfl

/-- A configuration names a kind by the text of its name. -/
theorem eq_text_of_symbol_eq_ok {name : Config} (h : AliasTable.symbol name = .ok kind) :
    kind ∈ TokenKind.canonical ∧ name = .text kind.name := by
  refine ⟨symbol_mem_canonical h, ?_⟩
  cases name with
  | text symbol =>
    by_cases hsymbol : IsSymbol symbol
    · obtain ⟨other, hother, rfl⟩ := hsymbol
      rw [symbol_text_of_mem hother] at h
      rw [Except.ok.inj h]
    · rw [symbol_text_of_not_isSymbol hsymbol] at h
      cases h
  | _ =>
    unfold AliasTable.symbol at h
    split at h
    · cases h
    · obtain ⟨_, -, h⟩ := exists_of_bind_eq_ok h
      cases h

/-! ## Offers -/

/-- The pairs of an alias and a symbol that entries ask for. -/
def pairsOf (entries : List Entry) : List (WideText × WideText) :=
  entries.flatMap fun (words, symbol) => words.map (·, symbol)

/-- An entry offers each of its aliases with its symbol. -/
@[simp] theorem pairsOf_cons (entry : Entry) (rest : List Entry) :
    pairsOf (entry :: rest) = entry.1.map (·, entry.2) ++ pairsOf rest := rfl

/-- A pair is offered by an entry that has the symbol and lists the alias. -/
theorem mem_pairsOf : (given, symbol) ∈ pairsOf entries ↔
    ∃ words, (words, symbol) ∈ entries ∧ given ∈ words := by
  simp only [pairsOf, List.mem_flatMap, List.mem_map, Prod.exists, Prod.mk.injEq]
  constructor
  · rintro ⟨words, _, hentry, _, hgiven, rfl, rfl⟩
    exact ⟨words, hentry, hgiven⟩
  · rintro ⟨words, hentry, hgiven⟩
    exact ⟨words, symbol, hentry, given, hgiven, rfl, rfl⟩

/-- Pairs of aliases and kinds with the names of the kinds. -/
def namedPairs (asked : WideBindings) : List (WideText × WideText) :=
  asked.map fun (given, kind) => (given, .ofString kind.name)

theorem namedPairs_append (words : List WideText) (kind : TokenKind) (more : WideBindings) :
    namedPairs (words.map (·, kind) ++ more) =
      words.map (·, .ofString kind.name) ++ namedPairs more := by
  simp [namedPairs]

/-- The symbols of some slots. -/
def slotSymbols (kinds : List TokenKind) : List WideText :=
  kinds.map fun kind => .ofString kind.name

/-- What a configuration offers, in order: a dictionary the aliases of each key with the text that is
its value, a list the aliases of each item with the symbol of its slot. -/
inductive Offers : Config → List Entry → Prop where
  | dict {items : List (Config × Config)} {entries : List Entry} :
      List.Forall₂ (fun item entry => item.1.Lists entry.1 ∧ item.2 = .text entry.2) items entries →
      Offers (.dict items) entries
  | list {items : List Config} {entries : List Entry} :
      items.length ≤ TokenKind.canonical.length →
      List.Forall₂ (fun item entry => item.Lists entry.1) items entries →
      entries.map Prod.snd <+: slotSymbols TokenKind.canonical →
      Offers (.list items) entries

/-- The entries of a dictionary bind what they offer. -/
theorem exists_entryPairs_eq {items : List (Config × Config)}
    (h : List.Forall₂ (fun item entry => item.1.Lists entry.1 ∧ item.2 = .text entry.2) items entries)
    (hsymbols : ∀ entry ∈ entries, IsSymbol entry.2) :
    ∃ asked, entryPairs items = .ok asked ∧ namedPairs asked = pairsOf entries := by
  induction h with
  | nil => exact ⟨[], rfl, rfl⟩
  | @cons item entry items entries hitem _ ih =>
    obtain ⟨group, name⟩ := item
    obtain ⟨words, symbol⟩ := entry
    obtain ⟨hlists, rfl⟩ := hitem
    obtain ⟨⟨kind, hkind, rfl⟩, hrest⟩ := List.forall_mem_cons.1 hsymbols
    obtain ⟨more, hmore, hnames⟩ := ih hrest
    refine ⟨words.map (·, kind) ++ more, ?_, ?_⟩
    · rw [entryPairs, symbol_text_of_mem hkind, hlists.listed_eq, hmore]
      rfl
    · simp [namedPairs_append, hnames]

/-- A dictionary with an entry for no symbol is refused. -/
theorem exists_entryPairs_eq_error {items : List (Config × Config)}
    (h : List.Forall₂ (fun item entry => item.1.Lists entry.1 ∧ item.2 = .text entry.2) items entries)
    (hmem : entry ∈ entries) (hsymbol : ¬IsSymbol entry.2) :
    ∃ cause, entryPairs items = .error (.aliases cause) := by
  induction h with
  | nil => cases hmem
  | @cons item first items rest hitem _ ih =>
    obtain ⟨group, name⟩ := item
    obtain ⟨words, symbol⟩ := first
    obtain ⟨hlists, rfl⟩ := hitem
    rw [entryPairs]
    by_cases hfirst : IsSymbol symbol
    · have hrest : entry ∈ rest := by
        rcases List.mem_cons.1 hmem with rfl | hrest
        · exact absurd hfirst hsymbol
        · exact hrest
      obtain ⟨kind, hkind, rfl⟩ := hfirst
      obtain ⟨cause, herror⟩ := ih hrest
      rw [symbol_text_of_mem hkind, hlists.listed_eq, herror]
      exact ⟨cause, rfl⟩
    · rw [symbol_text_of_not_isSymbol hfirst]
      exact ⟨_, rfl⟩

/-- A dictionary that is not refused has entries of listed aliases and a symbol. -/
theorem exists_forall₂_of_entryPairs {items : List (Config × Config)}
    (h : entryPairs items = .ok asked) : ∃ entries : List Entry,
      List.Forall₂ (fun item entry => item.1.Lists entry.1 ∧ item.2 = .text entry.2) items entries := by
  induction items generalizing asked with
  | nil => exact ⟨[], .nil⟩
  | cons item rest ih =>
    obtain ⟨group, name⟩ := item
    obtain ⟨kind, hkind, h⟩ := exists_of_bind_eq_ok h
    obtain ⟨words, hwords, h⟩ := exists_of_bind_eq_ok h
    obtain ⟨more, hmore, -⟩ := exists_of_bind_eq_ok h
    obtain ⟨entries, hentries⟩ := ih hmore
    exact ⟨(words, .ofString kind.name) :: entries,
      .cons ⟨Config.lists_of_listed hwords, (eq_text_of_symbol_eq_ok hkind).2⟩ hentries⟩

/-- The items of a list bind what they offer. -/
theorem exists_slotPairs_eq
    (h : List.Forall₂ (fun item (entry : Entry) => Config.Lists item entry.1) items entries)
    (hsymbols : entries.map Prod.snd <+: slotSymbols kinds) :
    ∃ asked, slotPairs items kinds = .ok asked ∧ namedPairs asked = pairsOf entries := by
  induction h generalizing kinds with
  | nil => exact ⟨[], rfl, rfl⟩
  | @cons item entry items entries hlists _ ih =>
    obtain ⟨words, symbol⟩ := entry
    cases kinds with
    | nil => cases List.prefix_nil.1 hsymbols
    | cons kind kinds =>
      obtain ⟨rfl, hrest⟩ := List.cons_prefix_cons.1 hsymbols
      obtain ⟨more, hmore, hnames⟩ := ih hrest
      refine ⟨words.map (·, kind) ++ more, ?_, ?_⟩
      · rw [slotPairs, hlists.listed_eq, hmore]
        rfl
      · simp [namedPairs_append, hnames]

/-- A list that is not refused has listed aliases in its slots. -/
theorem exists_forall₂_of_slotPairs (hlength : items.length ≤ kinds.length)
    (h : slotPairs items kinds = .ok asked) : ∃ entries : List Entry,
      List.Forall₂ (fun item entry => item.Lists entry.1) items entries ∧
        entries.map Prod.snd <+: slotSymbols kinds := by
  induction items generalizing kinds asked with
  | nil => exact ⟨[], .nil, List.nil_prefix⟩
  | cons item rest ih =>
    cases kinds with
    | nil => simp at hlength
    | cons kind kinds =>
      obtain ⟨words, hwords, h⟩ := exists_of_bind_eq_ok h
      obtain ⟨more, hmore, -⟩ := exists_of_bind_eq_ok h
      obtain ⟨entries, hentries, hsymbols⟩ := ih (Nat.le_of_succ_le_succ hlength) hmore
      exact ⟨(words, .ofString kind.name) :: entries, .cons (Config.lists_of_listed hwords) hentries,
        List.cons_prefix_cons.2 ⟨rfl, hsymbols⟩⟩

/-- A configuration whose symbols are those of the language has the pairs that it offers. -/
theorem Offers.exists_pairs_eq (h : Offers config entries)
    (hsymbols : ∀ entry ∈ entries, IsSymbol entry.2) :
    ∃ asked, pairs config = .ok asked ∧ namedPairs asked = pairsOf entries := by
  cases h with
  | dict hitems => exact exists_entryPairs_eq hitems hsymbols
  | list hlength hitems hslots =>
    rw [pairs, if_neg (Nat.not_lt.2 hlength)]
    exact exists_slotPairs_eq hitems hslots

/-- Any other symbol is a reason to refuse a configuration. -/
theorem Offers.exists_pairs_eq_error (h : Offers config entries) (hmem : entry ∈ entries)
    (hsymbol : ¬IsSymbol entry.2) : ∃ cause, pairs config = .error (.aliases cause) := by
  cases h with
  | dict hitems => exact exists_entryPairs_eq_error hitems hmem hsymbol
  | list _ _ hslots =>
    obtain ⟨kind, hkind, hname⟩ := List.mem_map.1 (hslots.subset (List.mem_map_of_mem hmem))
    exact absurd ⟨kind, hkind, hname⟩ hsymbol

/-- Pairs come of an offer. -/
theorem exists_offers_of_pairs (h : pairs config = .ok asked) :
    ∃ entries, Offers config entries := by
  unfold pairs at h
  split at h
  · obtain ⟨entries, hitems⟩ := exists_forall₂_of_entryPairs h
    exact ⟨entries, .dict hitems⟩
  · split at h
    · cases h
    · next hlength =>
      obtain ⟨entries, hitems, hslots⟩ := exists_forall₂_of_slotPairs (Nat.not_lt.1 hlength) h
      exact ⟨entries, .list (Nat.not_lt.1 hlength) hitems hslots⟩
  · cases h

/-! ## Acceptance -/

/-- What has to hold of entries for a table to be extended by all of their pairs: the symbols are
those of the language, the aliases are words that may be aliases, and no alias has two symbols, in
the entries and the table together. -/
structure AllowsListed (table : AliasTable) (entries : List Entry) : Prop where
  isSymbol : ∀ entry ∈ entries, IsSymbol entry.2
  isAlias : ∀ given symbol, (given, symbol) ∈ pairsOf entries → IsAlias given
  one_symbol : ∀ given symbol other, (given, symbol) ∈ pairsOf entries →
    (given, other) ∈ pairsOf entries → symbol = other
  agrees : ∀ (word : String) symbol kind, (↑word, symbol) ∈ pairsOf entries →
    table.kind? word = some kind → .ofString kind.name = symbol

/-- What comes of a call that configures all pairs of some entries: it succeeds if the table allows
them, and then every pair is bound and every other word as before; otherwise the reason is told, and
the table is as it was. -/
structure ConfiguresListed (table : AliasTable) (entries : List Entry)
    (outcome : Except Fault Unit × AliasTable) : Prop where
  ok_iff : outcome.1 = .ok () ↔ table.AllowsListed entries
  binds : outcome.1 = .ok () → ∀ (word : String) symbol, (↑word, symbol) ∈ pairsOf entries →
    ∃ kind, outcome.2.kind? word = some kind ∧ .ofString kind.name = symbol
  keeps : outcome.1 = .ok () → ∀ word : String, (∀ symbol, (↑word, symbol) ∉ pairsOf entries) →
    outcome.2.kind? word = table.kind? word
  refuses : outcome.1 ≠ .ok () → ∃ cause, outcome = (.error (.aliases cause), table)

/-- All aliases of entries may be aliases exactly if those of the pairs that are asked for may. -/
theorem forall_isAlias_iff (hnames : namedPairs asked = pairsOf entries) :
    (∀ given symbol, (given, symbol) ∈ pairsOf entries → IsAlias given) ↔
      ∀ pair ∈ asked, IsAlias pair.1 := by
  rw [← hnames]
  constructor
  · intro h pair hmem
    exact h _ _ (List.mem_map_of_mem hmem)
  · intro h given symbol hmem
    obtain ⟨pair, hpair, heq⟩ := List.mem_map.1 hmem
    rw [← (Prod.mk.inj heq).1]
    exact h pair hpair

@[simp] theorem mem_wide_iff : (↑word, kind) ∈ bindings.wide ↔ (word, kind) ∈ bindings := by
  simp [Bindings.wide]

theorem allCanonical_of_wide (h : ∀ pair ∈ bindings.wide, pair.2 ∈ TokenKind.canonical) :
    bindings.AllCanonical :=
  fun _ _ hmem => h _ (mem_wide_iff.2 hmem)

section

variable (hnames : namedPairs bindings.wide = pairsOf entries)

include hnames

/-- The pairs of a word in some entries are those of its bindings. -/
theorem mem_pairsOf_iff :
    (↑word, symbol) ∈ pairsOf entries ↔ ∃ kind, .ofString kind.name = symbol ∧
      (word, kind) ∈ bindings := by
  rw [← hnames]
  constructor
  · intro h
    obtain ⟨⟨given, kind⟩, hmem, heq⟩ := List.mem_map.1 h
    obtain ⟨rfl, rfl⟩ := Prod.mk.inj heq
    exact ⟨kind, rfl, mem_wide_iff.1 hmem⟩
  · rintro ⟨kind, rfl, hmem⟩
    exact List.mem_map.2 ⟨_, mem_wide_iff.2 hmem, rfl⟩

/-- No alias has two symbols, in the entries and the table together, exactly if no pair collides. -/
theorem allowsListed_iff (htable : table.active.AllCanonical) (hbindings : bindings.AllCanonical)
    (hsymbols : ∀ entry ∈ entries, IsSymbol entry.2)
    (haliases : ∀ given symbol, (given, symbol) ∈ pairsOf entries → IsAlias given) :
    table.AllowsListed entries ↔
      Bindings.collisionsIn (table.active ++ bindings) bindings = [] := by
  rw [Bindings.collisionsIn_eq_nil_iff]
  constructor
  · rintro ⟨-, -, hone, hagrees⟩
    intro word kind bound hmem hlookup
    have hpair := (mem_pairsOf_iff hnames).2 ⟨kind, rfl, hmem⟩
    have hkind := hbindings word kind hmem
    rw [List.lookup_append, Option.or_eq_some_iff] at hlookup
    -- the established kind is that of the table, or else that of another pair
    rcases hlookup with hold | ⟨-, hnew⟩
    · have hbound := htable word bound (Bindings.mem_of_lookup_eq_some hold)
      exact name_injective_of_mem hbound hkind
        (WideText.ofString_injective (hagrees word _ bound hpair hold))
    · have hother := Bindings.mem_of_lookup_eq_some hnew
      have hpair' := (mem_pairsOf_iff hnames).2 ⟨bound, rfl, hother⟩
      exact name_injective_of_mem (hbindings word bound hother) hkind
        (WideText.ofString_injective (hone word _ _ hpair' hpair))
  · intro hnone
    refine ⟨hsymbols, haliases, ?_, ?_⟩
    · intro given symbol other hpair hpair'
      obtain ⟨word, rfl, -⟩ := haliases given symbol hpair
      obtain ⟨kind, rfl, hmem⟩ := (mem_pairsOf_iff hnames).1 hpair
      obtain ⟨kind', rfl, hmem'⟩ := (mem_pairsOf_iff hnames).1 hpair'
      obtain ⟨bound, hlookup⟩ :=
        Bindings.exists_lookup_eq_some_of_mem (List.mem_append_right table.active hmem)
      rw [← hnone word kind bound hmem hlookup, hnone word kind' bound hmem' hlookup]
    · intro word symbol bound hpair hbound
      obtain ⟨kind, rfl, hmem⟩ := (mem_pairsOf_iff hnames).1 hpair
      have hold : table.active.lookup word = some bound := hbound
      rw [hnone word kind bound hmem (by rw [List.lookup_append, hold, Option.some_or])]

/-- An outcome that binds words as the table and the pairs of some entries do configures these. -/
theorem configuresListed_of_allowsListed (hallows : table.AllowsListed entries)
    (hnone : Bindings.collisionsIn (table.active ++ bindings) bindings = [])
    (hkinds : ∀ word, table'.kind? word = (table.active ++ bindings).lookup word) :
    table.ConfiguresListed entries (.ok (), table') := by
  refine ⟨⟨fun _ => hallows, fun _ => rfl⟩, fun _ => ?_, fun _ => ?_, fun hne => absurd rfl hne⟩
  · intro word symbol hpair
    obtain ⟨kind, rfl, hmem⟩ := (mem_pairsOf_iff hnames).1 hpair
    obtain ⟨bound, hlookup⟩ :=
      Bindings.exists_lookup_eq_some_of_mem (List.mem_append_right table.active hmem)
    have heq := (Bindings.collisionsIn_eq_nil_iff _ _).1 hnone word kind bound hmem hlookup
    exact ⟨bound, by rw [hkinds, hlookup], by rw [heq]⟩
  · intro word habsent
    have hlookup : bindings.lookup word = none := by
      rw [Bindings.lookup_eq_none_iff_notMem]
      intro hword
      obtain ⟨⟨_, kind⟩, hmem, rfl⟩ := List.mem_map.1 hword
      exact habsent _ ((mem_pairsOf_iff hnames).2 ⟨kind, rfl, hmem⟩)
    rw [hkinds, List.lookup_append, hlookup, Option.or_none]
    rfl

end

/-- A refusal configures nothing. -/
theorem configuresListed_of_error {fault : Fault} (hallows : ¬table.AllowsListed entries)
    (hfault : ∃ cause, fault = .aliases cause) :
    table.ConfiguresListed entries (.error fault, table) := by
  obtain ⟨cause, rfl⟩ := hfault
  refine ⟨⟨?_, fun h => absurd h hallows⟩, ?_, ?_, fun _ => ⟨cause, rfl⟩⟩
  · intro h
    cases h
  · intro h
    cases h
  · intro h
    cases h

/-- Some configuration configures all pairs that it offers. -/
theorem Offers.configuresListed (h : Offers config entries) (htable : table.active.AllCanonical) :
    table.ConfiguresListed entries (table.settle (table.configure config)) := by
  by_cases hsymbols : ∀ entry ∈ entries, IsSymbol entry.2
  · obtain ⟨asked, hpairs, hnames⟩ := h.exists_pairs_eq hsymbols
    have haliases := forall_isAlias_iff hnames
    by_cases hasked : ∀ pair ∈ asked, IsAlias pair.1
    · obtain ⟨bindings, rfl, hwords⟩ := Bindings.exists_eq_wide hasked
      have hallows := allowsListed_iff hnames htable
        (allCanonical_of_wide (kind_mem_canonical_of_pairs hpairs)) hsymbols (haliases.2 hasked)
      by_cases hnone : Bindings.collisionsIn (table.active ++ bindings) bindings = []
      · obtain ⟨table', hconfigure, hadds⟩ :=
          exists_adds_of_collisionsIn_eq_nil hwords hnone hpairs
        rw [hconfigure]
        exact configuresListed_of_allowsListed hnames (hallows.2 hnone) hnone
          (hadds.kind?_eq hnone)
      · rw [configure_eq_error_of_collisionsIn hwords hnone hpairs]
        exact configuresListed_of_error (fun h => hnone (hallows.1 h)) ⟨_, rfl⟩
    · obtain ⟨pair, hnot⟩ := not_forall.1 hasked
      obtain ⟨hmem, hpair⟩ := Classical.not_imp.1 hnot
      obtain ⟨cause, hconfigure⟩ := exists_configure_eq_error_of_not_isAlias hmem hpair hpairs
      rw [hconfigure]
      exact configuresListed_of_error (fun h => hasked (haliases.1 h.isAlias)) ⟨cause, rfl⟩
  · obtain ⟨entry, hnot⟩ := not_forall.1 hsymbols
    obtain ⟨hmem, hsymbol⟩ := Classical.not_imp.1 hnot
    obtain ⟨cause, hpairs⟩ := h.exists_pairs_eq_error hmem hsymbol
    rw [configure, hpairs]
    exact configuresListed_of_error (fun h => hsymbol (h.isSymbol entry hmem)) ⟨cause, rfl⟩

end AliasTable

end SetLang
