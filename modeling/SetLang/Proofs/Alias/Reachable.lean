import SetLang.Alias.File
import SetLang.Proofs.Basic

/-!
# Reachable tables of aliases

A table is reachable if it comes from the table without aliases or from the default one by
configurations and alias files. Whatever the configurations are, a word of a reachable table stands
for a canonical kind: a configuration names kinds by canonical symbols or by slots, and a refused one
leaves no table.
-/

namespace SetLang

/-! ## Bindings to canonical kinds -/

/-- All words are bound to canonical kinds. -/
def Bindings.AllCanonical (bindings : Bindings) : Prop :=
  ∀ word kind, (word, kind) ∈ bindings → kind ∈ TokenKind.canonical

namespace Bindings

variable {bindings new : Bindings} {word : String} {kind : TokenKind}

theorem allCanonical_nil : AllCanonical [] := by
  intro word kind h
  cases h

theorem AllCanonical.append (h : bindings.AllCanonical) (h' : new.AllCanonical) :
    AllCanonical (bindings ++ new) := by
  intro word kind hmem
  rcases List.mem_append.1 hmem with hmem | hmem
  · exact h word kind hmem
  · exact h' word kind hmem

theorem mem_put {other : String} {bound : TokenKind}
    (h : (other, bound) ∈ put word kind bindings) :
    (other, bound) = (word, kind) ∨ (other, bound) ∈ bindings := by
  induction bindings with
  | nil => exact .inl (List.mem_singleton.1 h)
  | cons first rest ih =>
    rw [put] at h
    split at h
    · rcases List.mem_cons.1 h with h | h
      · exact .inl h
      · exact .inr (List.mem_cons_of_mem _ h)
    · rcases List.mem_cons.1 h with h | h
      · exact .inr (h ▸ List.mem_cons_self)
      · exact (ih h).imp_right (List.mem_cons_of_mem _)

theorem AllCanonical.put (h : bindings.AllCanonical) (hkind : kind ∈ TokenKind.canonical) :
    AllCanonical (Bindings.put word kind bindings) := by
  intro other bound hmem
  rcases mem_put hmem with heq | hmem
  · obtain ⟨-, rfl⟩ := Prod.mk.inj heq
    exact hkind
  · exact h other bound hmem

theorem AllCanonical.putAll (h : bindings.AllCanonical) (hnew : new.AllCanonical) :
    (bindings.putAll new).AllCanonical := by
  induction new generalizing bindings with
  | nil => exact h
  | cons first rest ih =>
    obtain ⟨word, kind⟩ := first
    have hkind := hnew word kind List.mem_cons_self
    exact ih (h.put hkind) fun w k hmem => hnew w k (List.mem_cons_of_mem _ hmem)

end Bindings

/-! ## Configurations -/

namespace AliasTable

/-- A symbol names a canonical kind. -/
theorem symbol_mem_canonical {config : Config} {kind : TokenKind}
    (h : symbol config = .ok kind) : kind ∈ TokenKind.canonical := by
  -- the only branch that names a kind finds it among the canonical ones
  unfold symbol at h
  split at h
  · cases h
  · split at h
    · simp only at h
      split at h
      · next hknown =>
        obtain rfl := Except.ok.inj h
        exact List.mem_of_find?_eq_some hknown
      · obtain ⟨name, -, hname⟩ := exists_of_bind_eq_ok h
        cases hname
    · obtain ⟨name, -, hname⟩ := exists_of_bind_eq_ok h
      cases hname

/-- The aliases of a group ask for the kind of its symbol. -/
theorem forall_mem_map_append {words : List WideText} {kind : TokenKind} {more : WideBindings}
    (hkind : kind ∈ TokenKind.canonical) (hmore : ∀ pair ∈ more, pair.2 ∈ TokenKind.canonical) :
    ∀ pair ∈ words.map (·, kind) ++ more, pair.2 ∈ TokenKind.canonical := by
  rw [List.forall_mem_append, List.forall_mem_map]
  exact ⟨fun _ _ => hkind, hmore⟩

theorem kind_mem_canonical_of_entryPairs {entries : List (Config × Config)} {asked : WideBindings}
    (h : entryPairs entries = .ok asked) : ∀ pair ∈ asked, pair.2 ∈ TokenKind.canonical := by
  induction entries generalizing asked with
  | nil =>
    obtain rfl := Except.ok.inj h
    exact List.forall_mem_nil _
  | cons entry rest ih =>
    obtain ⟨kind, hkind, h⟩ := exists_of_bind_eq_ok h
    obtain ⟨words, -, h⟩ := exists_of_bind_eq_ok h
    obtain ⟨more, hmore, h⟩ := exists_of_bind_eq_ok h
    obtain rfl := Except.ok.inj h
    exact forall_mem_map_append (symbol_mem_canonical hkind) (ih hmore)

theorem kind_mem_canonical_of_slotPairs {items : List Config} {kinds : List TokenKind}
    {asked : WideBindings} (hkinds : ∀ kind ∈ kinds, kind ∈ TokenKind.canonical)
    (h : slotPairs items kinds = .ok asked) : ∀ pair ∈ asked, pair.2 ∈ TokenKind.canonical := by
  induction items generalizing kinds asked with
  | nil =>
    obtain rfl := Except.ok.inj h
    exact List.forall_mem_nil _
  | cons item rest ih =>
    cases kinds with
    | nil =>
      obtain rfl := Except.ok.inj h
      exact List.forall_mem_nil _
    | cons kind kinds =>
      obtain ⟨hkind, hmore⟩ := List.forall_mem_cons.1 hkinds
      obtain ⟨words, -, h⟩ := exists_of_bind_eq_ok h
      obtain ⟨more, hrest, h⟩ := exists_of_bind_eq_ok h
      obtain rfl := Except.ok.inj h
      exact forall_mem_map_append hkind (ih hmore hrest)

/-- A configuration asks for canonical kinds only. -/
theorem kind_mem_canonical_of_pairs {config : Config} {asked : WideBindings}
    (h : pairs config = .ok asked) : ∀ pair ∈ asked, pair.2 ∈ TokenKind.canonical := by
  unfold pairs at h
  split at h
  · exact kind_mem_canonical_of_entryPairs h
  · split at h
    · cases h
    · exact kind_mem_canonical_of_slotPairs (fun _ => id) h
  · cases h

/-- What is accepted from canonical pairs is canonical. -/
theorem accept_allCanonical {old new result : Bindings} {asked : WideBindings}
    {collisions found : List Collision} (hnew : new.AllCanonical)
    (hasked : ∀ pair ∈ asked, pair.2 ∈ TokenKind.canonical)
    (h : accept old new collisions asked = .ok (result, found)) : result.AllCanonical := by
  induction asked generalizing new collisions with
  | nil =>
    obtain ⟨rfl, -⟩ := Prod.mk.inj (Except.ok.inj h)
    exact hnew
  | cons first rest ih =>
    obtain ⟨given, kind⟩ := first
    obtain ⟨hkind, hrest⟩ := List.forall_mem_cons.1 hasked
    obtain ⟨word, -, h⟩ := exists_of_bind_eq_ok h
    -- a word that is bound already is bound to its kind once more, or not at all
    split at h
    · split at h
      · exact ih (hnew.put hkind) hrest h
      · exact ih hnew hrest h
    · exact ih (hnew.put hkind) hrest h

theorem configure_allCanonical {table table' : AliasTable} {config : Config}
    (htable : table.active.AllCanonical) (h : table.configure config = .ok table') :
    table'.active.AllCanonical := by
  obtain ⟨asked, hasked, h⟩ := exists_of_bind_eq_ok h
  obtain ⟨⟨new, collisions⟩, haccept, h⟩ := exists_of_bind_eq_ok h
  -- a table is left only where no collision was found
  have hnew := accept_allCanonical Bindings.allCanonical_nil (kind_mem_canonical_of_pairs hasked)
    haccept
  simp only at h
  split at h
  · obtain rfl := Except.ok.inj h
    exact htable.putAll hnew
  · cases h

/-! ## Reachable tables -/

/-- The tables that configurations and alias files can lead to. -/
inductive Reachable : AliasTable → Prop where
  | empty : Reachable .empty
  | canonical : Reachable .canonical
  | configure {table table' : AliasTable} {config : Config} :
      Reachable table → table.configure config = .ok table' → Reachable table'
  | load {table table' : AliasTable} {file : Except Fault (List UInt8)} :
      Reachable table → table.load file = .ok table' → Reachable table'

theorem Reachable.allCanonical {table : AliasTable} (h : table.Reachable) :
    table.active.AllCanonical := by
  induction h with
  | empty => exact Bindings.allCanonical_nil
  | canonical =>
    intro word kind hmem
    have hall : ∀ p ∈ canonicalWords, p.2 ∈ TokenKind.canonical := by decide
    exact hall _ hmem
  | configure _ hstep ih => exact configure_allCanonical ih hstep
  | load _ hstep ih =>
    obtain ⟨config, -, hconfig⟩ := exists_of_bind_eq_ok hstep
    exact configure_allCanonical ih hconfig

/-- A word of a reachable table stands for a canonical kind. -/
theorem Reachable.kind_mem_canonical {table : AliasTable} (h : table.Reachable) {word : String}
    {kind : TokenKind} (hkind : table.kind? word = some kind) : kind ∈ TokenKind.canonical := by
  have hmem : (word, kind) ∈ table.active := by
    rw [kind?, List.lookup_eq_some_iff] at hkind
    obtain ⟨before, after, hsplit, -⟩ := hkind
    rw [hsplit]
    simp
  exact h.allCanonical word kind hmem

end AliasTable

end SetLang
