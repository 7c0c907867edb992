import SetLang.Proofs.Alias.Reachable
import SetLang.Proofs.Text.Wide

/-!
# Configurations that are refused

A configuration is refused for a reason that is told, with one exception: the first symbol that names
no kind is a list or a dictionary, whose fault is of another class, or it is a text with a lone half,
which cannot be shown. Main statement: these are all the faults of a configuration, and such a symbol
always leads to the exception.
-/

namespace SetLang

/-- The faults that are told as the reason why a configuration is refused. -/
inductive Fault.IsRefusal : Fault → Prop where
  | aliases {cause : AliasCause} : ¬cause.message.HasHalf → IsRefusal (.aliases cause)
  | digitLimit : IsRefusal .digitLimit

/-- The message about an unknown symbol has a lone half if the symbol has one. -/
theorem AliasCause.hasHalf_unknownSymbol {symbol : WideText} :
    (unknownSymbol symbol).message.HasHalf ↔ symbol.HasHalf :=
  WideText.hasHalf_append_iff

/-- A half in the message of a cause is one in the symbol that it tells of. -/
theorem AliasCause.hasHalf_message_iff {cause : AliasCause} :
    cause.message.HasHalf ↔ ∃ symbol, cause = .unknownSymbol symbol ∧ symbol.HasHalf := by
  cases cause with
  | unknownSymbol symbol =>
    rw [hasHalf_unknownSymbol]
    simp
  | notWord | shadowsKeyword | collisions | tooManyEntries | notConfiguration | unreadable =>
    simp [message, WideText.hasHalf_append_iff, WideText.not_hasHalf_ofString]

/-! ## Aliases and symbols -/

namespace Config

/-- A value has no name only if an integer in it is too long. -/
theorem nameText_fault {config : Config} {fault : Fault} (h : config.nameText = .error fault) :
    fault = .digitLimit := by
  unfold nameText at h
  split at h
  · cases h
  · split at h
    · cases h
    · exact (Except.error.inj h).symm

/-- The keys of entries have no names only if an integer in one is too long. -/
theorem mapM_nameText_fault {entries : List (Config × Config)} {fault : Fault}
    (h : entries.mapM (fun (key, _) => key.nameText) = .error fault) : fault = .digitLimit := by
  induction entries with
  | nil => cases h
  | cons entry rest ih =>
    rw [List.mapM_cons] at h
    rcases error_or_error_of_bind h with hfirst | ⟨_, -, h⟩
    · exact nameText_fault hfirst
    · rcases error_or_error_of_bind h with hrest | ⟨_, -, h⟩
      · exact ih hrest
      · cases h

mutual

/-- The aliases of a group cannot be listed only if a key of it cannot be shown. -/
theorem listed_fault : ∀ {config : Config} {fault : Fault},
    config.listed = .error fault → fault = .digitLimit
  | .text _, _, h => by cases h
  | .list _, _, h | .group _, _, h => listedOf_fault h
  | .dict _, _, h => mapM_nameText_fault h
  | .null, _, h => by cases h
  | .bool _, _, h => by cases h
  | .int _, _, h => by cases h
  | .float _, _, h => by cases h

/-- Aliases are not found in a list only if an integer in it is too long. -/
theorem listedOf_fault : ∀ {items : List Config} {fault : Fault},
    listedOf items = .error fault → fault = .digitLimit
  | [], _, h => by cases h
  | item :: rest, _, h => by
    rcases error_or_error_of_bind h with hfirst | ⟨_, -, h⟩
    · exact listed_fault hfirst
    · rcases error_or_error_of_bind h with hrest | ⟨_, -, h⟩
      · exact listedOf_fault hrest
      · cases h

end

/-- A value of which it cannot be told that it names nothing. -/
inductive IsUntellable : Config → Prop where
  | unhashable {config : Config} {typeName : String} :
      config.unhashable? = some typeName → IsUntellable config
  | half {text : WideText} : text.HasHalf → IsUntellable (.text text)

/-- Other names than texts are shown in characters. -/
theorem eq_text_of_hasHalf {config : Config} {name : WideText} (hname : config.nameText = .ok name)
    (hhalf : name.HasHalf) : config = .text name := by
  unfold nameText at hname
  split at hname
  · rw [Except.ok.inj hname]
  · split at hname
    · rw [← Except.ok.inj hname] at hhalf
      exact absurd hhalf (WideText.not_hasHalf_ofString _)
    · cases hname

end Config

namespace AliasTable

/-- A symbol that cannot be looked up is a fault of its own. -/
theorem symbol_of_unhashable {config : Config} {typeName : String}
    (h : config.unhashable? = some typeName) : symbol config = .error (.unhashable typeName) := by
  unfold symbol
  rw [h]

/-- A symbol with a lone half is unknown. -/
theorem symbol_of_hasHalf {name : WideText} (h : name.HasHalf) :
    symbol (.text name) = .error (.aliases (.unknownSymbol name)) := by
  have hnone : TokenKind.canonical.find? (fun kind => WideText.ofString kind.name == name) =
      none := by
    rw [List.find?_eq_none]
    intro kind _ hname
    rw [← eq_of_beq hname] at h
    exact WideText.not_hasHalf_ofString _ h
  unfold symbol
  simp only [Config.unhashable?, hnone]
  rfl

/-- A symbol is refused with its name, unless this cannot be told. -/
theorem symbol_fault {config : Config} {fault : Fault} (h : symbol config = .error fault) :
    fault.IsRefusal ∨ config.IsUntellable := by
  unfold symbol at h
  split at h
  · next hname => exact .inr (.unhashable hname)
  · have hname (hfault : (do
        let name ← config.nameText
        Except.error (.aliases (.unknownSymbol name)) : Except Fault TokenKind) = .error fault) :
        fault.IsRefusal ∨ config.IsUntellable := by
      rcases error_or_error_of_bind hfault with hfault | ⟨name, hname, hfault⟩
      · rw [Config.nameText_fault hfault]
        exact .inl .digitLimit
      · obtain rfl := Except.error.inj hfault
        by_cases hhalf : name.HasHalf
        · rw [Config.eq_text_of_hasHalf hname hhalf]
          exact .inr (.half hhalf)
        · exact .inl (.aliases (mt AliasCause.hasHalf_unknownSymbol.1 hhalf))
    split at h
    · dsimp only at h
      split at h
      · cases h
      · exact hname h
    · exact hname h

end AliasTable

/-! ## Configurations -/

namespace AliasTable

/-- Going through some entries, a symbol is reached: those before it name kinds, and the aliases
before it can all be listed. -/
inductive Reaches (name : Config) : List (Config × Config) → Prop where
  | here {group : Config} {rest : List (Config × Config)} : Reaches name ((group, name) :: rest)
  | later {group other : Config} {rest : List (Config × Config)} {kind : TokenKind}
      {words : List WideText} : symbol other = .ok kind → group.listed = .ok words →
      Reaches name rest → Reaches name ((group, other) :: rest)

variable {table : AliasTable} {config name : Config} {entries : List (Config × Config)}
variable {fault : Fault}

/-- What is wrong with a symbol is what comes of the entries, if the symbol is reached. -/
theorem entryPairs_of_reaches (h : Reaches name entries) (hname : symbol name = .error fault) :
    entryPairs entries = .error fault := by
  induction h with
  | here =>
    rw [entryPairs, hname]
    rfl
  | later hkind hwords _ ih =>
    rw [entryPairs, hkind, hwords, ih]
    rfl

/-- Entries are refused, or a symbol is reached that cannot be told about. -/
theorem entryPairs_fault (h : entryPairs entries = .error fault) :
    fault.IsRefusal ∨ ∃ name, Reaches name entries ∧ symbol name = .error fault ∧
      name.IsUntellable := by
  induction entries with
  | nil => cases h
  | cons entry rest ih =>
    obtain ⟨group, name⟩ := entry
    rcases error_or_error_of_bind h with hsymbol | ⟨kind, hkind, h⟩
    · exact (symbol_fault hsymbol).imp_right fun huntellable =>
        ⟨name, .here, hsymbol, huntellable⟩
    rcases error_or_error_of_bind h with hlisted | ⟨words, hwords, h⟩
    · rw [Config.listed_fault hlisted]
      exact .inl .digitLimit
    rcases error_or_error_of_bind h with hrest | ⟨_, -, h⟩
    · exact (ih hrest).imp_right fun ⟨name, hreaches, hname⟩ =>
        ⟨name, .later hkind hwords hreaches, hname⟩
    · cases h

/-- A list is not read only if an integer in it is too long. -/
theorem slotPairs_fault {items : List Config} {kinds : List TokenKind}
    (h : slotPairs items kinds = .error fault) : fault = .digitLimit := by
  induction items generalizing kinds with
  | nil => cases h
  | cons item rest ih =>
    cases kinds with
    | nil => cases h
    | cons kind kinds =>
      rcases error_or_error_of_bind h with hlisted | ⟨_, -, h⟩
      · exact Config.listed_fault hlisted
      · rcases error_or_error_of_bind h with hrest | ⟨_, -, h⟩
        · exact ih hrest
        · cases h

/-- A cause without a symbol is told. -/
theorem isRefusal_aliases {cause : AliasCause} (h : ∀ symbol, cause ≠ .unknownSymbol symbol) :
    Fault.IsRefusal (.aliases cause) := by
  refine .aliases ?_
  rw [AliasCause.hasHalf_message_iff]
  rintro ⟨symbol, hcause, -⟩
  exact h symbol hcause

/-- A configuration is refused, or a symbol is reached that cannot be told about. -/
theorem pairs_fault (h : pairs config = .error fault) :
    fault.IsRefusal ∨ ∃ name entries, config = .dict entries ∧ Reaches name entries ∧
      symbol name = .error fault ∧ name.IsUntellable := by
  unfold pairs at h
  split at h
  · next entries =>
    exact (entryPairs_fault h).imp_right fun ⟨name, hname⟩ => ⟨name, entries, rfl, hname⟩
  · refine .inl ?_
    split at h
    · obtain rfl := Except.error.inj h
      exact isRefusal_aliases (by simp)
    · rw [slotPairs_fault h]
      exact .digitLimit
  · obtain rfl := Except.error.inj h
    exact .inl (isRefusal_aliases (by simp))

/-- What is wrong with an alias is a refusal. -/
theorem checkAlias_fault {given : WideText} (h : checkAlias given = .error fault) :
    fault.IsRefusal := by
  unfold checkAlias at h
  split at h
  · obtain rfl := Except.error.inj h
    exact isRefusal_aliases (by simp)
  · split at h
    · obtain rfl := Except.error.inj h
      exact isRefusal_aliases (by simp)
    · cases h

/-- What is wrong with a pair is a refusal. -/
theorem accept_fault {old new : Bindings} {asked : WideBindings} {collisions : List Collision}
    (h : accept old new collisions asked = .error fault) : fault.IsRefusal := by
  induction asked generalizing new collisions with
  | nil => cases h
  | cons first rest ih =>
    obtain ⟨given, kind⟩ := first
    rcases error_or_error_of_bind h with hcheck | ⟨_, -, h⟩
    · exact checkAlias_fault hcheck
    · split at h
      · split at h
        · exact ih h
        · exact ih h
      · exact ih h

/-- A configuration is refused with a reason that is told, unless it has a symbol of which this
cannot be told. -/
theorem configure_fault (h : table.configure config = .error fault) :
    fault.IsRefusal ∨ ∃ name entries, config = .dict entries ∧ Reaches name entries ∧
      symbol name = .error fault ∧ name.IsUntellable := by
  rcases error_or_error_of_bind h with hpairs | ⟨asked, -, h⟩
  · exact pairs_fault hpairs
  · refine .inl ?_
    rcases error_or_error_of_bind h with haccept | ⟨⟨new, collisions⟩, -, h⟩
    · exact accept_fault haccept
    · dsimp only at h
      split at h
      · cases h
      · obtain rfl := Except.error.inj h
        exact isRefusal_aliases (by simp)

/-- What is wrong with a symbol is what comes of the configuration, if the symbol is reached. -/
theorem configure_of_reaches (h : Reaches name entries) (hname : symbol name = .error fault) :
    table.configure (.dict entries) = .error fault := by
  rw [configure, pairs, entryPairs_of_reaches h hname]
  rfl

/-- A file that is not read is a refusal. -/
theorem readFile_fault {file : Except Fault (List UInt8)} (h : readFile file = .error fault) :
    fault.IsRefusal := by
  unfold readFile at h
  split at h
  · obtain rfl := Except.error.inj h
    exact isRefusal_aliases (by simp)
  · split at h
    · obtain rfl := Except.error.inj h
      exact isRefusal_aliases (by simp)
    · cases h

end AliasTable

end SetLang
