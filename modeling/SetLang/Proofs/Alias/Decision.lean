import SetLang.Proofs.Alias.Extension

/-!
# What decides a configuration

Whether a configuration is accepted is decided by its pairs and the table: every alias has to be a
word that may be one, and no pair may give its alias another kind than the established one, which is
that of the table or else that of the first pair of the alias. A pair that does is a collision. The
table that comes of an accepted configuration binds words as the old bindings and the pairs behind
them do.
-/

namespace SetLang

/-! ## Bound words -/

namespace Bindings

variable {old new pairs : Bindings} {word : String} {kind : TokenKind}

theorem lookup_cons_eq_ite (first other : String) (kind : TokenKind) (bindings : Bindings) :
    List.lookup other ((first, kind) :: bindings) =
      if other = first then some kind else bindings.lookup other := by
  by_cases hother : other = first
  · rw [if_pos hother, hother, List.lookup_cons_self]
  · have hne : (other == first) = false := by simpa using hother
    rw [if_neg hother, List.lookup_cons, hne]

/-- To bind a word changes what this word is bound to, and nothing else. -/
theorem lookup_put (word other : String) (kind : TokenKind) (bindings : Bindings) :
    (put word kind bindings).lookup other =
      if other = word then some kind else bindings.lookup other := by
  induction bindings with
  | nil => exact lookup_cons_eq_ite word other kind []
  | cons first rest ih =>
    obtain ⟨front, bound⟩ := first
    rw [put]
    split
    · next hfront =>
      rw [lookup_cons_eq_ite, lookup_cons_eq_ite, hfront]
      split <;> rfl
    · next hfront =>
      rw [lookup_cons_eq_ite, lookup_cons_eq_ite, ih]
      by_cases hother : other = front
      · have hne : other ≠ word := fun heq => hfront (hother.symm.trans heq)
        rw [if_pos hother, if_neg hne, if_pos hother]
      · rw [if_neg hother, if_neg hother]

/-- Bindings that are put in one after the other come before the old ones. -/
theorem lookup_putAll (hnodup : new.words.Nodup) (other : String) :
    (old.putAll new).lookup other = (new.lookup other).or (old.lookup other) := by
  induction new generalizing old with
  | nil => rfl
  | cons first rest ih =>
    obtain ⟨word, kind⟩ := first
    obtain ⟨hword, hrest⟩ := List.nodup_cons.1 hnodup
    show ((put word kind old).putAll rest).lookup other = _
    rw [ih hrest, lookup_put, lookup_cons_eq_ite]
    by_cases hother : other = word
    · have hnone : rest.lookup other = none := by
        rw [lookup_eq_none_iff_notMem, hother]
        exact hword
      rw [if_pos hother, if_pos hother, hnone, Option.none_or, Option.some_or]
    · rw [if_neg hother, if_neg hother]

@[simp] theorem words_cons (word : String) (kind : TokenKind) (bindings : Bindings) :
    words ((word, kind) :: bindings) = word :: bindings.words := rfl

theorem words_put (word : String) (kind : TokenKind) (bindings : Bindings) :
    (put word kind bindings).words =
      if word ∈ bindings.words then bindings.words else bindings.words ++ [word] := by
  induction bindings with
  | nil => rfl
  | cons first rest ih =>
    obtain ⟨other, bound⟩ := first
    rw [put, words_cons]
    by_cases hother : other = word
    · rw [if_pos hother, if_pos (List.mem_cons.2 (.inl hother.symm)), hother]
      rfl
    · have hiff : word ∈ other :: words rest ↔ word ∈ words rest := by simp [Ne.symm hother]
      rw [if_neg hother, words_cons, ih, if_congr hiff rfl rfl]
      split <;> rfl

theorem nodup_words_putAll (h : old.words.Nodup) (new : Bindings) : (old.putAll new).words.Nodup := by
  induction new generalizing old with
  | nil => exact h
  | cons first rest ih =>
    obtain ⟨word, kind⟩ := first
    show ((put word kind old).putAll rest).words.Nodup
    refine ih ?_
    rw [words_put]
    split
    · exact h
    · next hfresh =>
      refine List.nodup_append.2 ⟨h, by simp, ?_⟩
      rintro other hold _ hword rfl
      exact hfresh (List.mem_singleton.1 hword ▸ hold)

/-! ## Collisions -/

/-- The collision of a pair with what is established. -/
def collision? (established : Bindings) (word : String) (kind : TokenKind) : Option Collision :=
  (established.lookup word).bind fun bound =>
    if bound = kind then none else some ⟨word, bound, kind⟩

theorem collision?_eq_none_iff (established : Bindings) :
    collision? established word kind = none ↔
      ∀ bound, established.lookup word = some bound → bound = kind := by
  unfold collision?
  cases established.lookup word with
  | none => simp
  | some bound => simp

/-- The collisions of pairs with what is established, in the order of the pairs. -/
def collisionsIn (established pairs : Bindings) : List Collision :=
  pairs.filterMap fun (word, kind) => collision? established word kind

@[simp] theorem collisionsIn_cons (established rest : Bindings) (word : String) (kind : TokenKind) :
    collisionsIn established ((word, kind) :: rest) =
      (collision? established word kind).toList ++ collisionsIn established rest := by
  unfold collisionsIn
  cases hcollision : collision? established word kind with
  | none => simp [hcollision]
  | some c => simp [hcollision]

theorem collisionsIn_eq_nil_iff (established pairs : Bindings) :
    collisionsIn established pairs = [] ↔
      ∀ word kind bound, (word, kind) ∈ pairs → established.lookup word = some bound →
        bound = kind := by
  rw [collisionsIn, List.filterMap_eq_nil_iff]
  constructor
  · intro h word kind bound hmem
    exact (collision?_eq_none_iff established).1 (h (word, kind) hmem) bound
  · intro h (word, kind) hmem
    exact (collision?_eq_none_iff established).2 fun bound => h word kind bound hmem

/-- A pair does not collide with itself or what comes behind it. -/
theorem collision?_append_cons (before rest : Bindings) (word : String) (kind : TokenKind) :
    collision? (before ++ (word, kind) :: rest) word kind = collision? before word kind := by
  rw [collision?, collision?, List.lookup_append]
  cases before.lookup word with
  | none => simp
  | some bound => rfl

/-- No word has two kinds in some bindings. -/
def Functional (bindings : Bindings) : Prop :=
  ∀ word kind bound, (word, kind) ∈ bindings → (word, bound) ∈ bindings → bound = kind

theorem exists_lookup_eq_some_of_mem {bindings : Bindings} (hmem : (word, kind) ∈ bindings) :
    ∃ bound, bindings.lookup word = some bound := by
  refine Option.ne_none_iff_exists'.1 fun hnone => ?_
  exact lookup_eq_none_iff_notMem.1 hnone (mem_words_of_mem hmem)

/-- Bindings have no word of two kinds exactly if every one of them is the established one. -/
theorem functional_iff {bindings : Bindings} :
    bindings.Functional ↔
      ∀ word kind, (word, kind) ∈ bindings → bindings.lookup word = some kind := by
  constructor
  · intro h word kind hmem
    obtain ⟨bound, hlookup⟩ := exists_lookup_eq_some_of_mem hmem
    rw [hlookup, h word kind bound hmem (mem_of_lookup_eq_some hlookup)]
  · intro h word kind bound hkind hbound
    have heq := h word kind hkind
    rw [h word bound hbound] at heq
    exact Option.some.inj heq

/-- No pair collides with old bindings and the pairs behind them exactly if no word has two kinds in
all of these. -/
theorem collisionsIn_eq_nil_iff_functional (hnodup : old.words.Nodup) :
    collisionsIn (old ++ pairs) pairs = [] ↔ Functional (old ++ pairs) := by
  rw [collisionsIn_eq_nil_iff]
  constructor
  · intro h
    rw [functional_iff]
    intro word kind hmem
    rcases List.mem_append.1 hmem with hold | hpair
    · rw [List.lookup_append, lookup_eq_some_of_mem hnodup hold, Option.some_or]
    · obtain ⟨bound, hlookup⟩ := exists_lookup_eq_some_of_mem hmem
      rw [hlookup, h word kind bound hpair hlookup]
  · intro h word kind bound hmem hlookup
    exact h word kind bound (List.mem_append_right old hmem) (mem_of_lookup_eq_some hlookup)

end Bindings

/-! ## Pairs that are asked for -/

namespace Bindings

/-- Bindings as pairs that are asked for. -/
def wide (bindings : Bindings) : WideBindings :=
  bindings.map fun (word, kind) => (.ofString word, kind)

@[simp] theorem wide_cons (word : String) (kind : TokenKind) (rest : Bindings) :
    wide ((word, kind) :: rest) = (.ofString word, kind) :: rest.wide := rfl

/-- Pairs whose aliases may all be aliases are bindings of words that may be. -/
theorem exists_eq_wide {asked : WideBindings} (h : ∀ pair ∈ asked, IsAlias pair.1) :
    ∃ bindings : Bindings, asked = bindings.wide ∧ ∀ word ∈ bindings.words, IsAliasWord word := by
  induction asked with
  | nil => exact ⟨[], rfl, List.forall_mem_nil _⟩
  | cons first rest ih =>
    obtain ⟨given, kind⟩ := first
    obtain ⟨⟨word, rfl, hword⟩, hrest⟩ := List.forall_mem_cons.1 h
    obtain ⟨bindings, rfl, hwords⟩ := ih hrest
    exact ⟨(word, kind) :: bindings, rfl, List.forall_mem_cons.2 ⟨hword, hwords⟩⟩

end Bindings

/-! ## Acceptance -/

namespace AliasTable

open Bindings

variable {old new before rest : Bindings} {asked : WideBindings}

theorem lookup_append_concat (before : Bindings) (word other : String) (kind : TokenKind) :
    (before ++ [(word, kind)]).lookup other =
      (before.lookup other).or (if other = word then some kind else none) := by
  rw [List.lookup_append, lookup_cons_eq_ite]
  rfl

/-- What is bound is what was established before, also with one more pair that agrees. -/
theorem or_lookup_put {word : String} {kind : TokenKind}
    (hbound : ∀ other, (new.lookup other).or (old.lookup other) = before.lookup other)
    (hagrees : ∀ bound, before.lookup word = some bound → bound = kind) (other : String) :
    ((put word kind new).lookup other).or (old.lookup other) =
      (before ++ [(word, kind)]).lookup other := by
  rw [lookup_put, lookup_append_concat, ← hbound]
  by_cases hother : other = word
  · rw [if_pos hother, if_pos hother, hother, hbound]
    cases hlookup : before.lookup word with
    | none => rfl
    | some bound => rw [hagrees bound hlookup, Option.some_or, Option.some_or]
  · rw [if_neg hother, if_neg hother, Option.or_none]

/-- Nor does a pair of a word with an established kind change what is established. -/
theorem lookup_append_concat_of_some {word : String} {bound : TokenKind}
    (hlookup : before.lookup word = some bound) (kind : TokenKind) (other : String) :
    (before ++ [(word, kind)]).lookup other = before.lookup other := by
  rw [lookup_append_concat]
  by_cases hother : other = word
  · rw [hother, hlookup, Option.some_or]
  · rw [if_neg hother, Option.or_none]

/-- What the rest of some pairs binds behind a pair that agrees is what the pair and the rest do. -/
theorem or_lookup_put_rest {word : String} {kind : TokenKind}
    (hagrees : ∀ bound, new.lookup word = some bound → bound = kind) (rest : Bindings)
    (other : String) : ((put word kind new).lookup other).or (rest.lookup other) =
      (new.lookup other).or (List.lookup other ((word, kind) :: rest)) := by
  rw [lookup_put, lookup_cons_eq_ite]
  by_cases hother : other = word
  · rw [if_pos hother, if_pos hother, hother, Option.some_or]
    cases hlookup : new.lookup word with
    | none => rfl
    | some bound => rw [hagrees bound hlookup, Option.some_or]
  · rw [if_neg hother, if_neg hother]

/-- Pairs are gone through to their end if all of their words may be aliases. Where none of them
collides with what was established before, all of them are bound. -/
theorem exists_accept_eq (collisions : List Collision)
    (hwords : ∀ word ∈ rest.words, IsAliasWord word)
    (hbound : ∀ word, (new.lookup word).or (old.lookup word) = before.lookup word) :
    ∃ result, accept old new collisions rest.wide =
        .ok (result, collisions ++ collisionsIn (before ++ rest) rest) ∧
      (collisionsIn (before ++ rest) rest = [] →
        ∀ word, result.lookup word = (new.lookup word).or (rest.lookup word)) := by
  induction rest generalizing new before collisions with
  | nil =>
    refine ⟨new, ?_, fun _ word => (Option.or_none).symm⟩
    rw [wide, List.map_nil, accept, collisionsIn, List.filterMap_nil, List.append_nil]
  | cons first rest ih =>
    obtain ⟨word, kind⟩ := first
    obtain ⟨hword, hrest⟩ := List.forall_mem_cons.1 hwords
    rw [wide_cons, accept, checkAlias_eq_ok_iff.2 ⟨rfl, hword⟩, collisionsIn_cons,
      collision?_append_cons, collision?, List.append_cons]
    simp only [bind, Except.bind, hbound word]
    -- a pair that agrees is bound
    have hbinds (hagrees : ∀ bound, before.lookup word = some bound → bound = kind) :
        ∃ result, accept old (put word kind new) collisions (wide rest) = .ok (result,
            collisions ++ collisionsIn (before ++ [(word, kind)] ++ rest) rest) ∧
          (collisionsIn (before ++ [(word, kind)] ++ rest) rest = [] → ∀ other,
            result.lookup other =
              (new.lookup other).or (List.lookup other ((word, kind) :: rest))) := by
      obtain ⟨result, haccept, hresult⟩ := ih collisions hrest (or_lookup_put hbound hagrees)
      refine ⟨result, haccept, fun hnone other => ?_⟩
      have hnew (bound : TokenKind) (hlookup : new.lookup word = some bound) : bound = kind :=
        hagrees bound (by rw [← hbound, hlookup, Option.some_or])
      rw [hresult hnone, or_lookup_put_rest hnew]
    cases hlookup : before.lookup word with
    | none =>
      -- the first pair of its word establishes its kind
      refine hbinds fun bound hbound => ?_
      rw [hlookup] at hbound
      cases hbound
    | some bound =>
      by_cases hkind : bound = kind
      · have hnext := hbinds fun other hother => by
          rw [hlookup] at hother
          rw [← Option.some.inj hother, hkind]
        simp only [if_pos hkind, Option.bind, Option.toList_none, List.nil_append]
        exact hnext
      · -- the pair binds nothing, and the established kind stays
        have hkeep (other : String) : (new.lookup other).or (old.lookup other) =
            (before ++ [(word, kind)]).lookup other := by
          rw [hbound, lookup_append_concat_of_some hlookup]
        obtain ⟨result, haccept, -⟩ := ih (collisions ++ [⟨word, bound, kind⟩]) hrest hkeep
        rw [List.append_assoc] at haccept
        simp only [if_neg hkind, Option.bind, Option.toList_some]
        refine ⟨result, haccept, fun hnone => ?_⟩
        cases hnone

theorem exists_accept_nil_eq (old : Bindings) (hwords : ∀ word ∈ rest.words, IsAliasWord word) :
    ∃ result, accept old [] [] rest.wide = .ok (result, collisionsIn (old ++ rest) rest) ∧
      (collisionsIn (old ++ rest) rest = [] → ∀ word, result.lookup word = rest.lookup word) :=
  exists_accept_eq [] hwords fun _ => rfl

/-- What may not be an alias is refused, whatever comes before it. -/
theorem exists_accept_eq_error {pair : WideText × TokenKind} (hmem : pair ∈ asked)
    (hpair : ¬IsAlias pair.1) (new : Bindings) (collisions : List Collision) :
    ∃ cause, accept old new collisions asked = .error (.aliases cause) := by
  induction asked generalizing new collisions with
  | nil => cases hmem
  | cons first rest ih =>
    obtain ⟨given, kind⟩ := first
    rw [accept]
    by_cases hfirst : IsAlias given
    · have hrest : pair ∈ rest := by
        rcases List.mem_cons.1 hmem with rfl | hrest
        · exact absurd hfirst hpair
        · exact hrest
      obtain ⟨word, hword⟩ := hfirst
      rw [checkAlias_eq_ok_iff.2 hword]
      simp only [bind, Except.bind]
      split
      · split
        · exact ih hrest _ _
        · exact ih hrest _ _
      · exact ih hrest _ _
    · obtain ⟨cause, hcheck⟩ := exists_checkAlias_eq_error hfirst
      rw [hcheck]
      exact ⟨cause, rfl⟩

/-! ## Configurations -/

variable {table table' : AliasTable} {config : Config} {bindings : Bindings}

/-- A table that comes of another one by binding some pairs, in what words stand for and in what
reports show. -/
structure Adds (table : AliasTable) (bindings : Bindings) (table' : AliasTable) : Prop where
  active_lookup : ∀ word, table'.active.lookup word = (bindings ++ table.active).lookup word
  reported_lookup : ∀ word, table'.reported.lookup word = (bindings ++ table.reported).lookup word
  active_nodup : table.active.words.Nodup → table'.active.words.Nodup
  reported_nodup : table.reported.words.Nodup → table'.reported.words.Nodup

/-- Pairs of words that may be aliases are bound if none of them collides. -/
theorem exists_adds_of_collisionsIn_eq_nil (hwords : ∀ word ∈ bindings.words, IsAliasWord word)
    (hnone : collisionsIn (table.active ++ bindings) bindings = [])
    (hpairs : pairs config = .ok bindings.wide) :
    ∃ table', table.configure config = .ok table' ∧ table.Adds bindings table' := by
  obtain ⟨new, haccept, hnew⟩ := exists_accept_nil_eq table.active hwords
  rw [hnone] at haccept
  have hnodup := (addableTo_of_accept addableTo_nil haccept).nodup
  have hlookup (old : Bindings) (word : String) :
      (old.putAll new).lookup word = (bindings ++ old).lookup word := by
    rw [lookup_putAll hnodup, hnew hnone, List.lookup_append]
  refine ⟨⟨table.active.putAll new, table.reported.putAll new⟩, ?_, hlookup _, hlookup _, ?_, ?_⟩
  · rw [configure, hpairs]
    show (accept table.active [] [] bindings.wide >>= _) = _
    rw [haccept]
    rfl
  · exact fun h => nodup_words_putAll h new
  · exact fun h => nodup_words_putAll h new

/-- Pairs that do not collide may as well be put behind the old bindings. -/
theorem Adds.kind?_eq (h : table.Adds bindings table')
    (hnone : collisionsIn (table.active ++ bindings) bindings = []) (word : String) :
    table'.kind? word = (table.active ++ bindings).lookup word := by
  rw [kind?, h.active_lookup, List.lookup_append, List.lookup_append]
  cases hnew : bindings.lookup word with
  | none => rw [Option.none_or, Option.or_none]
  | some kind =>
    cases hold : table.active.lookup word with
    | none => rfl
    | some bound =>
      have hlookup : (table.active ++ bindings).lookup word = some bound := by
        rw [List.lookup_append, hold, Option.some_or]
      rw [(collisionsIn_eq_nil_iff _ _).1 hnone word kind bound (mem_of_lookup_eq_some hnew) hlookup]

/-- Otherwise the collisions are the reason why they are refused. -/
theorem configure_eq_error_of_collisionsIn (hwords : ∀ word ∈ bindings.words, IsAliasWord word)
    (hsome : collisionsIn (table.active ++ bindings) bindings ≠ [])
    (hpairs : pairs config = .ok bindings.wide) :
    table.configure config =
      .error (.aliases (.collisions (collisionsIn (table.active ++ bindings) bindings))) := by
  obtain ⟨new, haccept, -⟩ := exists_accept_nil_eq table.active hwords
  rw [configure, hpairs]
  show (accept table.active [] [] bindings.wide >>= _) = _
  rw [haccept]
  simp [bind, Except.bind, hsome]

/-- What may not be an alias is a reason to refuse any pairs that it is in. -/
theorem exists_configure_eq_error_of_not_isAlias {pair : WideText × TokenKind} (hmem : pair ∈ asked)
    (hpair : ¬IsAlias pair.1) (hpairs : pairs config = .ok asked) :
    ∃ cause, table.configure config = .error (.aliases cause) := by
  obtain ⟨cause, haccept⟩ : ∃ cause, accept table.active [] [] asked = .error (.aliases cause) :=
    exists_accept_eq_error hmem hpair [] []
  rw [configure, hpairs]
  show ∃ cause, (accept table.active [] [] asked >>= _) = _
  rw [haccept]
  exact ⟨cause, rfl⟩

/-- A configuration that is accepted asks for bindings of words that may be aliases. -/
theorem exists_pairs_eq_wide_of_configure (h : table.configure config = .ok table') :
    ∃ bindings : Bindings, pairs config = .ok bindings.wide ∧
      ∀ word ∈ bindings.words, IsAliasWord word := by
  obtain ⟨asked, hpairs, -⟩ := exists_of_bind_eq_ok h
  have hasked : ∀ pair ∈ asked, IsAlias pair.1 := by
    intro pair hmem
    by_contra hpair
    obtain ⟨cause, herror⟩ := exists_configure_eq_error_of_not_isAlias hmem hpair hpairs
    rw [h] at herror
    cases herror
  obtain ⟨bindings, rfl, hwords⟩ := exists_eq_wide hasked
  exact ⟨bindings, hpairs, hwords⟩

/-- What has to hold of pairs for a table to be extended by them: their words may be aliases, and no
word has two kinds in the table and the pairs together. -/
structure Allows (table : AliasTable) (bindings : Bindings) : Prop where
  isAliasWord : ∀ word ∈ bindings.words, IsAliasWord word
  functional : (table.active ++ bindings).Functional

/-- A configuration whose pairs the table allows is accepted. -/
theorem Allows.exists_adds (h : table.Allows bindings) (hnodup : table.active.words.Nodup)
    (hpairs : pairs config = .ok bindings.wide) :
    ∃ table', table.configure config = .ok table' ∧ table.Adds bindings table' :=
  exists_adds_of_collisionsIn_eq_nil h.isAliasWord
    ((collisionsIn_eq_nil_iff_functional hnodup).2 h.functional) hpairs

/-- A configuration that is accepted asks for pairs that the table allows. -/
theorem exists_allows_of_configure (hnodup : table.active.words.Nodup)
    (h : table.configure config = .ok table') :
    ∃ bindings : Bindings, pairs config = .ok bindings.wide ∧ table.Allows bindings := by
  obtain ⟨bindings, hpairs, hwords⟩ := exists_pairs_eq_wide_of_configure h
  refine ⟨bindings, hpairs, hwords, (collisionsIn_eq_nil_iff_functional hnodup).1 ?_⟩
  by_contra hsome
  have herror := configure_eq_error_of_collisionsIn hwords hsome hpairs
  rw [h] at herror
  cases herror

end AliasTable

end SetLang
