import SetLang.Proofs.Alias.Decision
import Mathlib.Data.List.Nodup
import Mathlib.Data.List.Perm.Basic

/-!
# The order of configurations

Configurations that are accepted one after the other are accepted in every order, also with the
entries of dictionaries in other orders, and what comes of them is the same: every word stands for
the same kind, so that all texts have the same tokens, and all reports are the same. The reason is
that configurations are accepted, one after the other, exactly if the table allows all of their
pairs together, and that this does not depend on the order of the pairs.
-/

namespace SetLang

/-! ## Bindings in another order -/

namespace Bindings

variable {old bindings bindings' : Bindings}

theorem Functional.of_subset (h : bindings.Functional) (hsubset : bindings' ⊆ bindings) :
    bindings'.Functional :=
  fun word kind bound hkind hbound => h word kind bound (hsubset hkind) (hsubset hbound)

/-- What words are bound to does not depend on the order, if no word has two kinds. -/
theorem lookup_eq_of_perm (h : bindings.Functional) (hperm : bindings.Perm bindings')
    (word : String) : bindings.lookup word = bindings'.lookup word := by
  have h' : bindings'.Functional := h.of_subset hperm.symm.subset
  cases hlookup : bindings'.lookup word with
  | none =>
    rw [lookup_eq_none_iff_notMem] at hlookup ⊢
    exact fun hmem => hlookup ((hperm.map Prod.fst).subset hmem)
  | some kind =>
    exact functional_iff.1 h word kind (hperm.symm.subset (mem_of_lookup_eq_some hlookup))

theorem mem_iff_lookup (h : bindings.words.Nodup) (p : String × TokenKind) :
    p ∈ bindings ↔ bindings.lookup p.1 = some p.2 :=
  ⟨lookup_eq_some_of_mem h, mem_of_lookup_eq_some⟩

/-- Bindings without a word that comes twice are known by what they bind, but for their order. -/
theorem perm_of_lookup_eq (h : bindings.words.Nodup) (h' : bindings'.words.Nodup)
    (hlookup : ∀ word, bindings.lookup word = bindings'.lookup word) :
    bindings.Perm bindings' := by
  refine (List.perm_ext_iff_of_nodup (h.of_map _) (h'.of_map _)).2 fun p => ?_
  rw [mem_iff_lookup h, mem_iff_lookup h', hlookup]

/-- Pairs that are asked for in another order are bindings in another order. -/
theorem exists_eq_wide_of_perm {asked : WideBindings} (h : bindings.wide.Perm asked) :
    ∃ bindings' : Bindings, asked = bindings'.wide ∧ bindings.Perm bindings' := by
  have hcomp := List.eq_map_comp_perm fun pair : String × TokenKind =>
    (WideText.ofString pair.1, pair.2)
  obtain ⟨bindings', hasked, hperm⟩ := (congrFun (congrFun hcomp asked) bindings).mpr h.symm
  exact ⟨bindings', hasked, hperm.symm⟩

end Bindings

/-! ## Lists of configurations -/

/-- What a list of parts is made of, one by one from the items of another list, is made of these in
another order too. -/
theorem exists_perm_flatten {α β : Type} {r : α → List β → Prop} {items items' : List α}
    {parts : List (List β)} (hperm : items.Perm items') (h : List.Forall₂ r items parts) :
    ∃ parts', List.Forall₂ r items' parts' ∧ parts.flatten.Perm parts'.flatten := by
  obtain ⟨parts', hparts', hflatten⟩ := List.perm_comp_forall₂ hperm.symm h
  exact ⟨parts', hparts', hflatten.symm.flatten⟩

namespace Config

/-- A configuration with the entries in another order, if it is a dictionary. -/
inductive Reordered : Config → Config → Prop where
  | refl (config : Config) : Reordered config config
  | dict {entries entries' : List (Config × Config)} :
      entries.Perm entries' → Reordered (.dict entries) (.dict entries')

end Config

namespace AliasTable

variable {table table' table'' : AliasTable} {config config' : Config}
variable {bindings bindings' : Bindings} {asked : WideBindings}

/-- The pairs of entries are those of one entry after the other. -/
theorem entryPairs_eq_ok_iff {entries : List (Config × Config)} :
    entryPairs entries = .ok asked ↔ ∃ parts,
      List.Forall₂ (fun entry part => ∃ kind words, symbol entry.2 = .ok kind ∧
        entry.1.listed = .ok words ∧ part = words.map (·, kind)) entries parts ∧
      asked = parts.flatten := by
  induction entries generalizing asked with
  | nil =>
    constructor
    · intro h
      exact ⟨[], .nil, (Except.ok.inj h).symm⟩
    · rintro ⟨parts, hparts, rfl⟩
      cases hparts
      rfl
  | cons entry rest ih =>
    obtain ⟨group, name⟩ := entry
    constructor
    · intro h
      obtain ⟨kind, hkind, h⟩ := exists_of_bind_eq_ok h
      obtain ⟨words, hwords, h⟩ := exists_of_bind_eq_ok h
      obtain ⟨more, hmore, h⟩ := exists_of_bind_eq_ok h
      obtain ⟨parts, hparts, rfl⟩ := ih.1 hmore
      exact ⟨_ :: parts, .cons ⟨kind, words, hkind, hwords, rfl⟩ hparts, (Except.ok.inj h).symm⟩
    · rintro ⟨parts, hparts, rfl⟩
      cases hparts with
      | @cons _ part _ parts hpart hparts =>
        obtain ⟨kind, words, hkind, hwords, rfl⟩ := hpart
        rw [entryPairs, hkind, hwords, ih.2 ⟨parts, hparts, rfl⟩]
        rfl

/-- A configuration asks for some bindings. -/
def Asks (config : Config) (bindings : Bindings) : Prop :=
  pairs config = .ok bindings.wide

/-- To reorder a dictionary is to reorder its pairs. -/
theorem exists_asks_of_reordered (h : config.Reordered config') (hasks : Asks config bindings) :
    ∃ bindings', Asks config' bindings' ∧ bindings.Perm bindings' := by
  cases h with
  | refl => exact ⟨bindings, hasks, .refl _⟩
  | dict hperm =>
    obtain ⟨parts, hparts, hasked⟩ := entryPairs_eq_ok_iff.1 hasks
    obtain ⟨parts', hparts', hflatten⟩ := exists_perm_flatten hperm hparts
    rw [← hasked] at hflatten
    obtain ⟨bindings', hwide, hbindings⟩ := Bindings.exists_eq_wide_of_perm hflatten
    exact ⟨bindings', entryPairs_eq_ok_iff.2 ⟨parts', hparts', hwide.symm⟩, hbindings⟩

/-- The pairs of configurations that are reordered one by one. -/
theorem exists_asks_of_forall₂_reordered {configs configs' : List Config} {parts : List Bindings}
    (h : List.Forall₂ Config.Reordered configs configs')
    (hasks : List.Forall₂ Asks configs parts) :
    ∃ parts', List.Forall₂ Asks configs' parts' ∧ parts.flatten.Perm parts'.flatten := by
  induction h generalizing parts with
  | nil =>
    cases hasks
    exact ⟨[], .nil, .refl _⟩
  | cons hfirst _ ih =>
    cases hasks with
    | cons hpart hparts =>
      obtain ⟨part', hpart', hperm⟩ := exists_asks_of_reordered hfirst hpart
      obtain ⟨parts', hparts', hflatten⟩ := ih hparts
      exact ⟨part' :: parts', .cons hpart' hparts', hperm.append hflatten⟩

/-! ## One configuration after the other -/

/-- The table that configurations make of another one, one after the other, if all are accepted. -/
def configureAll (table : AliasTable) (configs : List Config) : Except Fault AliasTable :=
  configs.foldlM configure table

/-- A configuration that is accepted has pairs that the table allows, and binds them. -/
theorem exists_adds_of_configure (hnodup : table.active.words.Nodup)
    (h : table.configure config = .ok table') :
    ∃ bindings, Asks config bindings ∧ table.Allows bindings ∧ table.Adds bindings table' := by
  obtain ⟨bindings, hasks, hallows⟩ := exists_allows_of_configure hnodup h
  obtain ⟨other, hother, hadds⟩ := hallows.exists_adds hnodup hasks
  obtain rfl := Except.ok.inj (h.symm.trans hother)
  exact ⟨bindings, hasks, hallows, hadds⟩

theorem Allows.perm (h : table.Allows bindings) (hperm : bindings.Perm bindings') :
    table.Allows bindings' := by
  refine ⟨fun word hword => h.isAliasWord word ((hperm.map Prod.fst).symm.subset hword), ?_⟩
  exact h.functional.of_subset (hperm.append_left table.active).symm.subset

theorem Allows.of_append (h : table.Allows (bindings ++ bindings')) : table.Allows bindings := by
  refine ⟨fun word hword => h.isAliasWord word ?_, h.functional.of_subset ?_⟩
  · obtain ⟨p, hp, rfl⟩ := List.mem_map.1 hword
    exact List.mem_map_of_mem (List.mem_append_left _ hp)
  · rw [← List.append_assoc]
    exact List.subset_append_left _ _

theorem Adds.trans (h : table.Adds bindings table') (h' : table'.Adds bindings' table'') :
    table.Adds (bindings' ++ bindings) table'' := by
  have hlookup {old old' new : Bindings} (hold : ∀ word, old'.lookup word = (bindings ++ old).lookup word)
      (hnew : ∀ word, new.lookup word = (bindings' ++ old').lookup word) (word : String) :
      new.lookup word = ((bindings' ++ bindings) ++ old).lookup word := by
    simp only [hnew, hold, List.lookup_append, Option.or_assoc]
  exact ⟨hlookup h.active_lookup h'.active_lookup, hlookup h.reported_lookup h'.reported_lookup,
    fun hnodup => h'.active_nodup (h.active_nodup hnodup),
    fun hnodup => h'.reported_nodup (h.reported_nodup hnodup)⟩

/-- Pairs that are allowed and bound are those that come to the table. -/
theorem Adds.mem_active_iff (h : table.Adds bindings table') (hnodup : table.active.words.Nodup)
    (hallows : table.Allows bindings) (p : String × TokenKind) :
    p ∈ table'.active ↔ p ∈ table.active ++ bindings := by
  have hfunctional : Bindings.Functional (bindings ++ table.active) :=
    hallows.functional.of_subset List.perm_append_comm.subset
  rw [Bindings.mem_iff_lookup (h.active_nodup hnodup), h.active_lookup, ← List.perm_append_comm.mem_iff]
  exact ⟨Bindings.mem_of_lookup_eq_some, Bindings.functional_iff.1 hfunctional p.1 p.2⟩

/-- Pairs and more pairs behind them are allowed together exactly if the second ones are allowed by
the table that the first ones are bound in. -/
theorem Adds.allows_iff (h : table.Adds bindings table') (hnodup : table.active.words.Nodup)
    (hallows : table.Allows bindings) :
    table'.Allows bindings' ↔ table.Allows (bindings ++ bindings') := by
  have hmem := h.mem_active_iff hnodup hallows
  have hto : table'.active ++ bindings' ⊆ table.active ++ (bindings ++ bindings') := by
    intro p hp
    rw [List.mem_append, hmem, ← List.mem_append, List.append_assoc] at hp
    exact hp
  have hfrom : table.active ++ (bindings ++ bindings') ⊆ table'.active ++ bindings' := by
    intro p hp
    rw [List.mem_append, hmem, ← List.mem_append, List.append_assoc]
    exact hp
  have hwords : (bindings ++ bindings').words = bindings.words ++ bindings'.words :=
    List.map_append
  constructor
  · rintro ⟨hword, hfunctional⟩
    refine ⟨fun word hmem => ?_, hfunctional.of_subset hfrom⟩
    rw [hwords, List.mem_append] at hmem
    exact hmem.elim (hallows.isAliasWord word) (hword word)
  · rintro ⟨hword, hfunctional⟩
    refine ⟨fun word hmem => hword word ?_, hfunctional.of_subset hto⟩
    rw [hwords]
    exact List.mem_append_right _ hmem

/-- Configurations are accepted, one after the other, if the table allows all of their pairs. These
are then bound. -/
theorem Allows.exists_configureAll_eq {configs : List Config} {parts : List Bindings}
    (hnodup : table.active.words.Nodup)
    (hasks : List.Forall₂ Asks configs parts)
    (h : table.Allows parts.flatten) :
    ∃ final added, table.configureAll configs = .ok final ∧ table.Adds added final ∧
      added.Perm parts.flatten := by
  induction hasks generalizing table with
  | nil => exact ⟨table, [], rfl, ⟨fun _ => rfl, fun _ => rfl, id, id⟩, .refl _⟩
  | @cons config part rest parts hpart _ ih =>
    have hfirst : table.Allows part := Allows.of_append h
    obtain ⟨table', hconfigure, hadds⟩ := hfirst.exists_adds hnodup hpart
    obtain ⟨final, added, hall, hmore, hperm⟩ :=
      ih (hadds.active_nodup hnodup) ((hadds.allows_iff hnodup hfirst).2 h)
    refine ⟨final, added ++ part, ?_, hadds.trans hmore, ?_⟩
    · rw [configureAll, List.foldlM_cons, hconfigure]
      exact hall
    · exact (hperm.append_right part).trans List.perm_append_comm

/-- Configurations that are accepted have pairs that the table allows together. -/
theorem exists_allows_of_configureAll {configs : List Config} {final : AliasTable}
    (hnodup : table.active.words.Nodup) (h : table.configureAll configs = .ok final) :
    ∃ parts, List.Forall₂ Asks configs parts ∧
      table.Allows parts.flatten := by
  induction configs generalizing table with
  | nil =>
    refine ⟨[], .nil, fun word hword => ?_, ?_⟩
    · cases hword
    · rw [List.flatten_nil, List.append_nil]
      exact Bindings.functional_iff.2 fun _ _ => Bindings.lookup_eq_some_of_mem hnodup
  | cons config configs ih =>
    rw [configureAll, List.foldlM_cons] at h
    obtain ⟨table', hconfigure, hall⟩ := exists_of_bind_eq_ok h
    obtain ⟨part, hpart, hallows, hadds⟩ := exists_adds_of_configure hnodup hconfigure
    obtain ⟨parts, hparts, hmore⟩ := ih (hadds.active_nodup hnodup) hall
    exact ⟨part :: parts, .cons hpart hparts, (hadds.allows_iff hnodup hallows).1 hmore⟩

/-! ## Reports -/

theorem textLe_iff {x y : String} : Text.textLe x y = true ↔ x ≤ y := by
  rw [Text.textLe, Bool.not_eq_true', decide_eq_false_iff_not]
  exact String.not_lt

/-- Bindings in the order of their words do not depend on the order that they are given in. -/
theorem sorted_eq_of_perm (h : bindings.words.Nodup) (hperm : bindings.Perm bindings') :
    sorted bindings = sorted bindings' := by
  have hpairwise (some : Bindings) :
      (sorted some).Pairwise fun x y => Text.textLe x.1 y.1 = true := by
    refine List.pairwise_mergeSort ?_ ?_ some
    · intro x y z hxy hyz
      rw [textLe_iff] at hxy hyz ⊢
      exact String.le_trans hxy hyz
    · intro x y
      rw [Bool.or_eq_true, textLe_iff, textLe_iff]
      exact String.le_total x.1 y.1
  refine List.Perm.eq_of_pairwise ?_ (hpairwise bindings) (hpairwise bindings') ?_
  · -- entries of the same word are the same entry
    intro p q hp hq hpq hqp
    have hword : p.1 = q.1 := String.le_antisymm (textLe_iff.1 hpq) (textLe_iff.1 hqp)
    have hp := (List.mergeSort_perm bindings _).subset hp
    have hq := hperm.symm.subset ((List.mergeSort_perm bindings' _).subset hq)
    rw [Bindings.mem_iff_lookup h] at hp hq
    rw [hword, hq] at hp
    exact Prod.ext hword (Option.some.inj hp).symm
  · exact (List.mergeSort_perm bindings _).trans (hperm.trans (List.mergeSort_perm bindings' _).symm)

/-- Tables that show the same words in reports, with the same kinds, have the same reports. -/
theorem report_congr {final final' : AliasTable} (h : final.reported.words.Nodup)
    (h' : final'.reported.words.Nodup)
    (hlookup : ∀ word, final.reported.lookup word = final'.reported.lookup word) (verbose : Bool) :
    final'.report verbose = final.report verbose := by
  rw [report, report, sorted_eq_of_perm h (Bindings.perm_of_lookup_eq h h' hlookup)]

/-! ## Any order -/

/-- Configurations that are accepted one after the other are so in every order, and with the entries
of their dictionaries in every order. In the end words stand for the same kinds, and reports and the
tokens of all texts are the same. No word comes twice in what the table binds, nor in what it
reports. -/
theorem configureAll_in_any_order {final : AliasTable} {configs middle configs' : List Config}
    (hactive : table.active.words.Nodup) (hreported : table.reported.words.Nodup)
    (hperm : configs.Perm middle) (hreordered : List.Forall₂ Config.Reordered middle configs')
    (h : table.configureAll configs = .ok final) :
    ∃ final', table.configureAll configs' = .ok final' ∧
      (∀ word, final'.kind? word = final.kind? word) ∧
      (∀ verbose, final'.report verbose = final.report verbose) ∧
      ∀ text, tokenize final'.kind? text = tokenize final.kind? text := by
  obtain ⟨parts, hparts, hallows⟩ := exists_allows_of_configureAll hactive h
  obtain ⟨parts', hparts', hflatten⟩ := exists_perm_flatten hperm hparts
  obtain ⟨parts'', hparts'', hflatten'⟩ := exists_asks_of_forall₂_reordered hreordered hparts'
  obtain ⟨other, added, hother, hadds, hadded⟩ := hallows.exists_configureAll_eq hactive hparts
  obtain rfl := Except.ok.inj (h.symm.trans hother)
  obtain ⟨final', added', hfinal', hadds', hadded'⟩ :=
    (hallows.perm (hflatten.trans hflatten')).exists_configureAll_eq hactive hparts''
  -- the same pairs are bound in either order
  have hsame : added.Perm added' :=
    hadded.trans ((hflatten.trans hflatten').trans hadded'.symm)
  have hfunctional : added.Functional :=
    hallows.functional.of_subset fun p hp => List.mem_append_right _ (hadded.subset hp)
  have hlookup (old : Bindings) (word : String) :
      (added ++ old).lookup word = (added' ++ old).lookup word := by
    rw [List.lookup_append, List.lookup_append, Bindings.lookup_eq_of_perm hfunctional hsame]
  have hkinds : final'.kind? = final.kind? := by
    funext word
    rw [kind?, kind?, hadds.active_lookup, hadds'.active_lookup, hlookup]
  refine ⟨final', hfinal', congrFun hkinds, ?_, fun text => by rw [hkinds]⟩
  refine report_congr (hadds.reported_nodup hreported) (hadds'.reported_nodup hreported) ?_
  intro word
  rw [hadds.reported_lookup, hadds'.reported_lookup, hlookup]

/-- An alias that comes again, a list between two dictionaries, and one of these with its entries
turned round. -/
theorem configureAll_in_any_order_turned :
    let first : Config := .dict [(.text "join", .text "UNION"), (.text "meet", .text "INTERSECTION")]
    let turned : Config :=
      .dict [(.text "meet", .text "INTERSECTION"), (.text "join", .text "UNION")]
    let second : Config := .list [.group [.text "v", .text "w"]]
    let third : Config := .dict [(.group [.text "cup", .text "join"], .text "UNION")]
    ∃ final, canonical.configureAll [first, second, third] = .ok final ∧
      canonical.active.words.Nodup ∧ canonical.reported.words.Nodup ∧
      [first, second, third].Perm [third, second, first] ∧
      List.Forall₂ Config.Reordered [third, second, first] [third, second, turned] ∧
      ∃ final', canonical.configureAll [third, second, turned] = .ok final' ∧
        final'.active ≠ final.active ∧
        (∀ word, final'.kind? word = final.kind? word) ∧
        (∀ verbose, final'.report verbose = final.report verbose) ∧
        ∀ text, tokenize final'.kind? text = tokenize final.kind? text := by
  intro first turned second third
  let final : AliasTable :=
    let added : Bindings := [("join", .operator .union), ("meet", .operator .intersection),
      ("v", .percent), ("w", .percent), ("cup", .operator .union)]
    ⟨canonicalWords ++ added, canonicalWords ++ added⟩
  have hfinal : canonical.configureAll [first, second, third] = .ok final := rfl
  have hactive : canonical.active.words.Nodup := by decide
  have hreported : canonical.reported.words.Nodup := by decide
  have hperm : [first, second, third].Perm [third, second, first] :=
    (List.reverse_perm [first, second, third]).symm
  have hreordered : List.Forall₂ Config.Reordered [third, second, first] [third, second, turned] :=
    .cons (.refl third) (.cons (.refl second) (.cons (.dict (.swap _ _ [])) .nil))
  obtain ⟨final', hfinal', hsame⟩ :=
    configureAll_in_any_order hactive hreported hperm hreordered hfinal
  refine ⟨final, hfinal, hactive, hreported, hperm, hreordered, final', hfinal', ?_, hsame⟩
  -- the order in which words were bound is another one
  have hother : canonical.configureAll [third, second, turned] =
      .ok ⟨canonicalWords ++ [("cup", .operator .union), ("join", .operator .union),
        ("v", .percent), ("w", .percent), ("meet", .operator .intersection)],
        canonicalWords ++ [("cup", .operator .union), ("join", .operator .union),
        ("v", .percent), ("w", .percent), ("meet", .operator .intersection)]⟩ := rfl
  rw [← Except.ok.inj (hother.symm.trans hfinal')]
  decide

end AliasTable

end SetLang
