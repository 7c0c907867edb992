import SetLang.Proofs.Alias.Offer
import Mathlib.Data.List.Nodup

/-!
# What an alias file binds

An alias file of symbols is a list of entries, each with some listed aliases and a symbol. Of two
entries that list the same aliases, in the same order and whatever blanks stand around them, the
later one takes the place of the other before the table is asked. With the entries that are left the
file does what a configuration of all their pairs does: it is accepted if the table allows them all,
and otherwise it changes nothing. So two symbols for an alias go unnoticed exactly where an entry
takes the place of another one.
-/

namespace SetLang

namespace AliasTable

variable {table : AliasTable} {entries kept : List Entry} {entry : Entry}

/-! ## Entries -/

/-- The entries of an object of symbols. -/
def entriesOf (members : List (WideText × WideText)) : List Entry :=
  members.map fun (name, symbol) => (listedAliases name, symbol)

/-- The entries whose place no later entry of the same aliases takes. -/
def effective : List Entry → List Entry
  | [] => []
  | entry :: rest =>
    if rest.any (·.1 == entry.1) then effective rest else entry :: effective rest

theorem mem_of_mem_effective (h : entry ∈ effective entries) : entry ∈ entries := by
  induction entries with
  | nil => cases h
  | cons first rest ih =>
    rw [effective] at h
    split at h
    · exact List.mem_cons_of_mem first (ih h)
    · rcases List.mem_cons.1 h with rfl | h
      · exact List.mem_cons_self
      · exact List.mem_cons_of_mem first (ih h)

/-- Every entry counts if no two of the same aliases have different symbols. -/
theorem mem_effective_iff (hsame : ∀ entry ∈ entries, ∀ other ∈ entries, entry.1 = other.1 →
    entry.2 = other.2) : entry ∈ effective entries ↔ entry ∈ entries := by
  refine ⟨mem_of_mem_effective, ?_⟩
  intro hmem
  induction entries with
  | nil => cases hmem
  | cons first rest ih =>
    have hrest := ih fun e he other hother =>
      hsame e (List.mem_cons_of_mem _ he) other (List.mem_cons_of_mem _ hother)
    rw [effective]
    split
    · next hany =>
      obtain ⟨other, hother, hwords⟩ := List.any_eq_true.1 hany
      rcases List.mem_cons.1 hmem with rfl | hmem
      · -- the later entry of the same aliases is the same entry
        have hwords := eq_of_beq hwords
        have hsymbol := hsame other (List.mem_cons_of_mem _ hother) entry List.mem_cons_self hwords
        exact hrest (Prod.ext hwords hsymbol ▸ hother)
      · exact hrest hmem
    · rcases List.mem_cons.1 hmem with rfl | hmem
      · exact List.mem_cons_self
      · exact List.mem_cons_of_mem _ (hrest hmem)

/-! ## Entries as keys of a dictionary -/

/-- Puts an entry in the place of the one of the same aliases, or behind all others. -/
def putListed (entry : Entry) : List Entry → List Entry
  | [] => [entry]
  | first :: rest => if first.1 = entry.1 then entry :: rest else first :: putListed entry rest

/-- The dictionary entry of an entry. -/
def toConfig (entry : Entry) : Config × Config :=
  (.group (entry.1.map .text), .text entry.2)

theorem sameKeys_map_text (xs ys : List WideText) :
    Config.sameKeys (xs.map .text) (ys.map .text) = decide (xs = ys) := by
  induction xs generalizing ys with
  | nil => cases ys <;> rfl
  | cons x xs ih =>
    cases ys with
    | nil => rfl
    | cons y ys =>
      rw [List.map_cons, List.map_cons, Config.sameKeys, ih, Config.sameKey]
      simp [Bool.decide_and, beq_eq_decide]

theorem putEntry_map_toConfig (entry : Entry) (entries : List Entry) :
    Config.putEntry (toConfig entry).1 (toConfig entry).2 (entries.map toConfig) =
      (putListed entry entries).map toConfig := by
  induction entries with
  | nil => rfl
  | cons first rest ih =>
    have hkey : Config.sameKey (toConfig first).1 (toConfig entry).1 =
        decide (first.1 = entry.1) := by
      rw [toConfig, toConfig, Config.sameKey, sameKeys_map_text]
    show (if Config.sameKey (toConfig first).1 (toConfig entry).1 then
        ((toConfig first).1, (toConfig entry).2) :: rest.map toConfig
      else toConfig first ::
        Config.putEntry (toConfig entry).1 (toConfig entry).2 (rest.map toConfig)) = _
    rw [hkey, ih, putListed]
    by_cases hfirst : first.1 = entry.1
    · rw [if_pos (decide_eq_true hfirst), if_pos hfirst, List.map_cons, toConfig, hfirst]
      rfl
    · rw [if_neg (by simp [hfirst]), if_neg hfirst, List.map_cons]

theorem map_fst_putListed (entry : Entry) (entries : List Entry) :
    (putListed entry entries).map Prod.fst =
      if entry.1 ∈ entries.map Prod.fst then entries.map Prod.fst
      else entries.map Prod.fst ++ [entry.1] := by
  induction entries with
  | nil => rfl
  | cons first rest ih =>
    rw [putListed]
    by_cases hfirst : first.1 = entry.1
    · rw [if_pos hfirst, if_pos (by simp [hfirst]), List.map_cons, List.map_cons, hfirst]
    · have hiff : entry.1 ∈ (first :: rest).map Prod.fst ↔ entry.1 ∈ rest.map Prod.fst := by
        simp [Ne.symm hfirst]
      rw [if_neg hfirst, List.map_cons, ih, if_congr hiff rfl rfl]
      split <;> rfl

theorem nodup_putListed (h : (entries.map Prod.fst).Nodup) (entry : Entry) :
    ((putListed entry entries).map Prod.fst).Nodup := by
  rw [map_fst_putListed]
  split
  · exact h
  · next hfresh =>
    rw [← List.concat_eq_append]
    exact h.concat hfresh

theorem mem_putListed (hnodup : (entries.map Prod.fst).Nodup) {other : Entry} :
    other ∈ putListed entry entries ↔ other = entry ∨ (other.1 ≠ entry.1 ∧ other ∈ entries) := by
  induction entries with
  | nil => simp [putListed]
  | cons first rest ih =>
    obtain ⟨hfirst, hrest⟩ := List.nodup_cons.1 hnodup
    rw [putListed]
    by_cases hplace : first.1 = entry.1
    · -- no entry of the same aliases is left behind the place
      have hbehind : other ∈ rest → other.1 ≠ entry.1 := by
        intro hmem heq
        rw [hplace, ← heq] at hfirst
        exact hfirst (List.mem_map_of_mem hmem)
      have hplace' : other.1 ≠ entry.1 → other ≠ first := by
        rintro hne rfl
        exact hne hplace
      rw [if_pos hplace, List.mem_cons, List.mem_cons]
      tauto
    · have hother : other = first → other.1 ≠ entry.1 := by
        rintro rfl
        exact hplace
      rw [if_neg hplace, List.mem_cons, List.mem_cons, ih hrest]
      tauto

/-- The entries that are left when all are put in their places, one after the other. -/
theorem mem_foldl_putListed (hnodup : (kept.map Prod.fst).Nodup) :
    entry ∈ entries.foldl (fun done entry => putListed entry done) kept ↔
      entry ∈ effective entries ∨ (entry ∈ kept ∧ ∀ later ∈ entries, later.1 ≠ entry.1) := by
  induction entries generalizing kept with
  | nil => simp [effective]
  | cons first rest ih =>
    rw [List.foldl_cons, ih (nodup_putListed hnodup first), mem_putListed hnodup,
      List.forall_mem_cons, effective]
    by_cases hany : rest.any (·.1 == first.1) = true
    · -- the first entry does not count, since a later one takes its place
      have hlost : entry = first → ¬∀ later ∈ rest, later.1 ≠ entry.1 := by
        rintro rfl hnone
        obtain ⟨later, hlater, hwords⟩ := List.any_eq_true.1 hany
        exact hnone later hlater (eq_of_beq hwords)
      rw [if_pos hany, ne_comm]
      tauto
    · have hcounts : entry = first → ∀ later ∈ rest, later.1 ≠ entry.1 := by
        rintro rfl later hlater hwords
        exact hany (List.any_eq_true.2 ⟨later, hlater, beq_of_eq hwords⟩)
      rw [if_neg hany, List.mem_cons, ne_comm]
      tauto

/-- The configuration of a file is the dictionary of the entries that are left. -/
theorem exists_fileConfig_eq (members : List (WideText × WideText)) :
    ∃ entries : List Entry,
      fileConfig (members.map fun (name, symbol) => (name, .string symbol)) =
        .dict (entries.map toConfig) ∧
      ∀ entry, entry ∈ entries ↔ entry ∈ effective (entriesOf members) := by
  have hfold (kept entries : List Entry) :
      (entries.map toConfig).foldl (fun done entry => Config.putEntry entry.1 entry.2 done)
          (kept.map toConfig) =
        (entries.foldl (fun done entry => putListed entry done) kept).map toConfig := by
    induction entries generalizing kept with
    | nil => rfl
    | cons first rest ih => rw [List.foldl_cons, ← ih, ← putEntry_map_toConfig]; rfl
  refine ⟨(entriesOf members).foldl (fun done entry => putListed entry done) [], ?_, ?_⟩
  · rw [← hfold, entriesOf, fileConfig, List.map_map, List.map_map]
    rfl
  · intro entry
    have hnil : (([] : List Entry).map Prod.fst).Nodup := List.nodup_nil
    rw [mem_foldl_putListed hnil]
    simp

/-! ## Loading -/

theorem lists_map_text (words : List WideText) : Config.Lists (.list (words.map .text)) words := by
  induction words with
  | nil => exact .nil
  | cons word words ih => exact .cons (.text word) ih

/-- The dictionary of some entries offers them. -/
theorem offers_map_toConfig (entries : List Entry) :
    Offers (.dict (entries.map toConfig)) entries := by
  refine .dict ?_
  rw [List.forall₂_map_left_iff, List.forall₂_same]
  exact fun entry _ => ⟨.group (lists_map_text entry.1), rfl⟩

/-- What a call configures does not depend on the order of the entries. -/
theorem ConfiguresListed.congr {outcome : Except Fault Unit × AliasTable}
    (h : table.ConfiguresListed entries outcome) (hmem : ∀ entry, entry ∈ kept ↔ entry ∈ entries) :
    table.ConfiguresListed kept outcome := by
  have hpairs (given symbol : WideText) :
      (given, symbol) ∈ pairsOf kept ↔ (given, symbol) ∈ pairsOf entries := by
    rw [mem_pairsOf, mem_pairsOf]
    simp only [hmem]
  have hallows : table.AllowsListed kept ↔ table.AllowsListed entries := by
    constructor
    · rintro ⟨hsymbol, halias, hone, hagrees⟩
      simp only [hmem, hpairs] at hsymbol halias hone hagrees
      exact ⟨hsymbol, halias, hone, hagrees⟩
    · rintro ⟨hsymbol, halias, hone, hagrees⟩
      simp only [← hmem, ← hpairs] at hsymbol halias hone hagrees
      exact ⟨hsymbol, halias, hone, hagrees⟩
  refine ⟨h.ok_iff.trans hallows.symm, ?_, ?_, h.refuses⟩
  · intro hok word symbol hpair
    exact h.binds hok word symbol ((hpairs _ symbol).1 hpair)
  · intro hok word hnone
    exact h.keeps hok word fun symbol hpair => hnone symbol ((hpairs _ symbol).2 hpair)

/-- What an alias file of symbols does to a reachable table. It configures all pairs of the entries
that are left when every entry has taken the place of those before it that list the same aliases. If
no two entries of the same aliases have different symbols, then it configures all pairs of all
entries: it is accepted exactly if the table allows them, and otherwise it changes nothing. -/
theorem load_configures_effective_entries (htable : table.Reachable)
    {file : Except Fault (List UInt8)} {text : List Char} {members : List (WideText × WideText)}
    (htext : file.bind fileText = .ok text)
    (hread : Json.readWide text =
      .ok (.object (members.map fun (name, symbol) => (name, .string symbol)))) :
    table.ConfiguresListed (effective (entriesOf members)) ((AliasCall.load file).run table) ∧
    ((∀ entry ∈ entriesOf members, ∀ other ∈ entriesOf members, entry.1 = other.1 →
        entry.2 = other.2) →
      table.ConfiguresListed (entriesOf members) ((AliasCall.load file).run table)) := by
  obtain ⟨entries, hconfig, hmem⟩ := exists_fileConfig_eq members
  have hload : (AliasCall.load file).run table =
      table.settle (table.configure (.dict (entries.map toConfig))) := by
    rw [AliasCall.run_eq, AliasCall.extend, load, readFile_of_readWide htext hread, hconfig]
    rfl
  have hconfigures : table.ConfiguresListed entries ((AliasCall.load file).run table) := by
    rw [hload]
    exact (offers_map_toConfig entries).configuresListed htable.allCanonical
  refine ⟨hconfigures.congr fun entry => (hmem entry).symm, ?_⟩
  intro hsame
  refine hconfigures.congr fun entry => ?_
  rw [hmem, mem_effective_iff hsame]

/-- Two entries list the same aliases with the same symbol. -/
theorem load_configures_effective_entries_same :
    let members : List (WideText × WideText) := [("a,b", "UNION"), ("a, b", "UNION")]
    let text := "\x7b\"a,b\": \"UNION\", \"a, b\": \"UNION\"\x7d"
    let file : Except Fault (List UInt8) := .ok text.toUTF8.data.toList
    file.bind fileText = .ok text.toList ∧
      Json.readWide text.toList =
        .ok (.object (members.map fun (name, symbol) => (name, .string symbol))) ∧
      effective (entriesOf members) = ([(["a", "b"], "UNION")] : List Entry) ∧
      canonical.ConfiguresListed (effective (entriesOf members))
        ((AliasCall.load file).run canonical) ∧
      canonical.ConfiguresListed (entriesOf members) ((AliasCall.load file).run canonical) := by
  intro members text file
  have htext : file.bind fileText = .ok text.toList := by decide
  have hread : Json.readWide text.toList =
      .ok (.object (members.map fun (name, symbol) => (name, .string symbol))) :=
    (Json.isExact_strings [("a,b", "UNION"), ("a, b", "UNION")] (by decide)).readWide_eq .line
      (by decide)
  have hentries : entriesOf members =
      ([(["a", "b"], "UNION"), (["a", "b"], "UNION")] : List Entry) := by decide
  obtain ⟨heffective, hall⟩ := load_configures_effective_entries .canonical htext hread
  refine ⟨htext, hread, ?_, heffective, hall ?_⟩
  · rw [hentries]
    decide
  · rw [hentries]
    decide

/-- Two entries give the same aliases different symbols, and the file is accepted: with a blank
behind the comma the second entry takes the place of the first one, so that not all pairs are
configured. -/
theorem not_configuresListed_of_taken_place :
    let members : List (WideText × WideText) := [("a,b", "UNION"), ("a, b", "INTERSECTION")]
    let text := "\x7b\"a,b\": \"UNION\", \"a, b\": \"INTERSECTION\"\x7d"
    let file : Except Fault (List UInt8) := .ok text.toUTF8.data.toList
    file.bind fileText = .ok text.toList ∧
      Json.readWide text.toList =
        .ok (.object (members.map fun (name, symbol) => (name, .string symbol))) ∧
      ((AliasCall.load file).run canonical).1 = .ok () ∧
      ¬canonical.ConfiguresListed (entriesOf members) ((AliasCall.load file).run canonical) := by
  intro members text file
  have htext : file.bind fileText = .ok text.toList := by decide
  have hread : Json.readWide text.toList =
      .ok (.object (members.map fun (name, symbol) => (name, .string symbol))) :=
    (Json.isExact_strings [("a,b", "UNION"), ("a, b", "INTERSECTION")] (by decide)).readWide_eq
      .line (by decide)
  have hentries : entriesOf members =
      ([(["a", "b"], "UNION"), (["a", "b"], "INTERSECTION")] : List Entry) := by decide
  have hfile : readFile file =
      .ok (.dict [(.group [.text "a", .text "b"], .text "INTERSECTION")]) :=
    readFile_of_readWide htext hread
  have hok : ((AliasCall.load file).run canonical).1 = .ok () := by
    rw [AliasCall.run_eq, AliasCall.extend, load, hfile]
    rfl
  refine ⟨htext, hread, hok, ?_⟩
  intro hconfigures
  have hallows := hconfigures.ok_iff.1 hok
  rw [hentries] at hallows
  have hsame := hallows.one_symbol "a" "UNION" "INTERSECTION" (by decide) (by decide)
  exact absurd hsame (by decide)

end AliasTable

end SetLang
