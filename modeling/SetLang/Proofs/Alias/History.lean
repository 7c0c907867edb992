import SetLang.Proofs.Alias.Extension
import SetLang.Proofs.Json.RoundTrip

/-!
# Histories of a table

A table that is worked on in place, by configurations and alias files one after the other, whatever
comes of each of them. A call that is refused is refused before the first change, so it leaves the
table as it was. Main statement: after any history the bindings that reports show are those by which
words are resolved, all of them are of words that may be aliases and of canonical kinds, and nothing
that was bound once is ever bound otherwise.
-/

namespace SetLang

/-! ## Calls in place -/

namespace AliasTable

/-- Work on one table in place. A fault leaves the table as it is at that moment. -/
abbrev InPlace (α : Type) : Type :=
  ExceptT Fault (StateM AliasTable) α

/-- Goes through the pairs of a configuration, and then changes the two lists of bindings one after
the other. -/
def configureInPlace (config : Config) : InPlace Unit := do
  let bindings ← ofExcept (pairs config)
  let (new, collisions) ← ofExcept (accept (← get).active [] [] bindings)
  if !collisions.isEmpty then throw (.aliases (.collisions collisions))
  modify fun table => { table with active := table.active.putAll new }
  modify fun table => { table with reported := table.reported.putAll new }

/-- Reads an alias file and goes on with its configuration. -/
def loadInPlace (file : Except Fault (List UInt8)) : InPlace Unit := do
  configureInPlace (← ofExcept (readFile file))

end AliasTable

/-- A call on a table: a configuration, or an alias file with what comes of opening it. -/
inductive AliasCall where
  | configure (config : Config)
  | load (file : Except Fault (List UInt8))

namespace AliasCall

/-- The work of a call. -/
def inPlace : AliasCall → AliasTable.InPlace Unit
  | configure config => AliasTable.configureInPlace config
  | load file => AliasTable.loadInPlace file

/-- What comes of a call on a table, and the table after it. -/
def run (call : AliasCall) (table : AliasTable) : Except Fault Unit × AliasTable :=
  StateT.run (ExceptT.run call.inPlace) table

/-- The table that a call makes of another one, if it is not refused. -/
def extend (call : AliasCall) (table : AliasTable) : Except Fault AliasTable :=
  match call with
  | configure config => table.configure config
  | load file => table.load file

end AliasCall

namespace AliasTable

/-- A table that takes the place of another one, or the old one and the fault for which there is no
new one. -/
def settle (table : AliasTable) : Except Fault AliasTable → Except Fault Unit × AliasTable
  | .ok table' => (.ok (), table')
  | .error fault => (.error fault, table)

theorem run_configureInPlace (config : Config) (table : AliasTable) :
    StateT.run (ExceptT.run (configureInPlace config)) table =
      table.settle (table.configure config) := by
  -- the table is changed behind everything that can be refused
  unfold configureInPlace configure
  cases pairs config with
  | error fault => rfl
  | ok bindings =>
    show StateT.run (ExceptT.run (do
      let (new, collisions) ← ofExcept (accept table.active [] [] bindings)
      if !collisions.isEmpty then throw (.aliases (.collisions collisions))
      modify fun table => { table with active := table.active.putAll new }
      modify fun table => { table with reported := table.reported.putAll new } : InPlace Unit))
        table = table.settle (do
      let (new, collisions) ← accept table.active [] [] bindings
      if collisions.isEmpty then .ok ⟨table.active.putAll new, table.reported.putAll new⟩
      else .error (.aliases (.collisions collisions)))
    cases accept table.active [] [] bindings with
    | error fault => rfl
    | ok result =>
      obtain ⟨new, collisions⟩ := result
      cases collisions <;> rfl

end AliasTable

namespace AliasCall

/-- A call in place comes to the table that it makes, and leaves the old one where it is refused. -/
theorem run_eq (call : AliasCall) (table : AliasTable) :
    call.run table = table.settle (call.extend table) := by
  cases call with
  | configure config => exact AliasTable.run_configureInPlace config table
  | load file =>
    rw [run, inPlace, AliasTable.loadInPlace, extend, AliasTable.load]
    cases AliasTable.readFile file with
    | error fault => rfl
    | ok config => exact AliasTable.run_configureInPlace config table

theorem exists_extendedBy {call : AliasCall} {table table' : AliasTable}
    (h : call.extend table = .ok table') : ∃ added, table.ExtendedBy added table' := by
  cases call with
  | configure config => exact AliasTable.exists_extendedBy_of_configure h
  | load file => exact AliasTable.exists_extendedBy_of_load h

theorem reachable_of_extend {call : AliasCall} {table table' : AliasTable} (htable : table.Reachable)
    (h : call.extend table = .ok table') : table'.Reachable := by
  cases call with
  | configure config => exact .configure htable h
  | load file => exact .load htable h

end AliasCall

/-! ## Histories -/

namespace AliasTable

/-- The table after some calls in place, accepted or refused. -/
def afterCalls (table : AliasTable) (calls : List AliasCall) : AliasTable :=
  calls.foldl (fun table call => (call.run table).2) table

variable {table : AliasTable}

/-- What holds of a table and is kept by every call that is accepted holds after all calls. -/
theorem afterCalls_induction {p : AliasTable → Prop} (hstart : p table)
    (hstep : ∀ t t' call, p t → AliasCall.extend call t = .ok t' → p t') (calls : List AliasCall) :
    p (table.afterCalls calls) := by
  induction calls generalizing table with
  | nil => exact hstart
  | cons call calls ih =>
    show p ((call.run table).2.afterCalls calls)
    refine ih ?_
    rw [call.run_eq]
    cases hextend : call.extend table with
    | error fault => exact hstart
    | ok table' => exact hstep table table' call hstart hextend

theorem Reachable.afterCalls (h : table.Reachable) (calls : List AliasCall) :
    (table.afterCalls calls).Reachable :=
  afterCalls_induction h (fun _ _ _ => AliasCall.reachable_of_extend) calls

/-- All bindings stay in front, whatever calls follow. -/
theorem prefix_afterCalls (table : AliasTable) (calls : List AliasCall) :
    table.active <+: (table.afterCalls calls).active := by
  refine afterCalls_induction (p := fun t => table.active <+: t.active) (List.prefix_refl _) ?_ calls
  intro t t' call ht hstep
  obtain ⟨added, hadded⟩ := AliasCall.exists_extendedBy hstep
  rw [hadded.active_eq]
  exact ht.trans (List.prefix_append _ _)

/-- A word that is bound stays bound as it is. -/
theorem kind?_afterCalls {word : String} {kind : TokenKind} (h : table.kind? word = some kind)
    (calls : List AliasCall) : (table.afterCalls calls).kind? word = some kind := by
  obtain ⟨added, hadded⟩ := table.prefix_afterCalls calls
  rw [kind?, ← hadded, List.lookup_append, Option.or_eq_some_iff]
  exact .inl h

/-- The bindings of a table that has the default words in front are those and the additions. -/
theorem additions_eq (hnodup : table.active.words.Nodup) {added : Bindings}
    (hactive : table.active = canonicalWords ++ added) : table.additions = added := by
  have hdefault : ∀ p ∈ canonicalWords, canonicalWords.lookup p.1 = some p.2 := by decide
  rw [hactive, Bindings.words, List.map_append, List.nodup_append] at hnodup
  rw [additions, hactive, List.filter_append, List.filter_eq_nil_iff.2 ?_, List.nil_append,
    List.filter_eq_self.2 ?_]
  · rintro ⟨word, kind⟩ hmem
    have hnone : canonicalWords.lookup word = none := by
      rw [Bindings.lookup_eq_none_iff_notMem]
      exact fun hold => hnodup.2.2 word hold word (List.mem_map_of_mem hmem) rfl
    simp [hnone]
  · rintro ⟨word, kind⟩ hmem
    simp [hdefault _ hmem]

/-- Histories keep a table as it should be. The default table comes from the one without aliases.
After any history from one of the two, reports show what words are resolved by; each word that stands
for a kind is a word of ASCII and no fixed spelling, and its kind is a canonical one. A call that is
refused changes nothing, and no later call changes what a word stands for. From the default table,
the bindings are at all times the default words and the additions, which have no word in common. -/
theorem afterCalls_consistent (start : AliasTable) (hstart : start = empty ∨ start = canonical)
    (calls : List AliasCall) :
    let table := start.afterCalls calls
    (AliasCall.configure canonicalConfig).run empty = (.ok (), canonical) ∧
    table.active = table.reported ∧ (table.active.map Prod.fst).Nodup ∧
    (∀ word kind, (word, kind) ∈ table.active ↔ table.kind? word = some kind) ∧
    (∀ word kind, table.kind? word = some kind →
      (∃ first more, word.toList = first :: more ∧ (first.isAlpha ∨ first = '_') ∧
        (∀ c ∈ more, c.isAlphanum ∨ c = '_') ∧ ∀ c ∈ word.toList, c.toNat < 128) ∧
      spelled? word = none ∧ kind ∈ TokenKind.canonical) ∧
    (∀ call fault, (AliasCall.run call table).1 = .error fault → (call.run table).2 = table) ∧
    (∀ later word kind, table.kind? word = some kind →
      (table.afterCalls later).kind? word = some kind) ∧
    (start = canonical → table.active = canonicalWords ++ table.additions ∧
      ∀ word ∈ canonicalWords.map Prod.fst, word ∉ table.additions.map Prod.fst) := by
  intro table
  have hreachable : table.Reachable := by
    rcases hstart with rfl | rfl
    · exact Reachable.empty.afterCalls calls
    · exact Reachable.canonical.afterCalls calls
  have hconsistent := hreachable.consistent
  refine ⟨?_, hconsistent.reported_eq.symm, hconsistent.nodup, fun word kind =>
    ⟨Bindings.lookup_eq_some_of_mem hconsistent.nodup, Bindings.mem_of_lookup_eq_some⟩,
    fun word kind hkind => ?_, fun call fault hfault => ?_,
    fun later word kind hkind => kind?_afterCalls hkind later, ?_⟩
  · rw [AliasCall.run_eq, AliasCall.extend, configure_canonicalConfig]
    rfl
  · obtain ⟨⟨first, more, hlist, hfirst, hmore⟩, hspelled⟩ := hreachable.isAliasWord hkind
    refine ⟨⟨first, more, hlist, ?_, fun c hc => ?_, fun c hc => ?_⟩, hspelled,
      hreachable.kind_mem_canonical hkind⟩
    · simpa [isWordStart] using hfirst
    · simpa [isWordChar] using hmore c hc
    · rw [hlist] at hc
      refine toNat_lt_of_isWordChar ?_
      rcases List.mem_cons.1 hc with rfl | hc
      · simp only [isWordStart, isWordChar, Char.isAlphanum, Bool.or_eq_true] at hfirst ⊢
        exact hfirst.imp_left .inl
      · exact hmore c hc
  · rw [call.run_eq] at hfault ⊢
    cases hextend : call.extend table with
    | error fault => rfl
    | ok table' =>
      rw [hextend] at hfault
      cases hfault
  · rintro rfl
    obtain ⟨added, hadded⟩ := canonical.prefix_afterCalls calls
    have hactive : table.active = canonicalWords ++ added := hadded.symm
    have hnodup := hconsistent.nodup
    rw [additions_eq hnodup hactive]
    rw [hactive, Bindings.words, List.map_append, List.nodup_append] at hnodup
    exact ⟨hactive, fun word hold hnew => hnodup.2.2 word hold word hnew rfl⟩

/-- A file of an object has the configuration of its members. -/
theorem readFile_of_readWide {file : Except Fault (List UInt8)} {text : List Char}
    {members : List (WideText × Json WideText)} (htext : file.bind fileText = .ok text)
    (hread : Json.readWide text = .ok (.object members)) :
    readFile file = .ok (fileConfig members) := by
  rw [readFile, htext]
  simp only [parseFile, hread]

/-- A configuration with a symbol that is a list and one with a fixed spelling for an alias are refused,
and so is a file with an alias that stands for another kind already. What a group and a file with two
aliases add stays. -/
theorem afterCalls_consistent_mixed :
    let calls : List AliasCall := [
      .configure (.dict [(.text "join", .text "UNION"), (.text "never", .list [])]),
      .configure (.dict [(.text "join", .text "UNION"), (.text "c", .text "COMPLEMENT")]),
      .configure (.dict [(.group [.text "cup", .text "join"], .text "UNION")]),
      .load (.ok "\x7b\"meet, cap\": \"INTERSECTION\"\x7d".toUTF8.data.toList),
      .load (.ok "\x7b\"cup\": \"COMPLEMENT\"\x7d".toUTF8.data.toList)]
    let table := canonical.afterCalls calls
    let added : Bindings := [("cup", .operator .union), ("join", .operator .union),
      ("meet", .operator .intersection), ("cap", .operator .intersection)]
    (canonical = empty ∨ canonical = canonical) ∧ table.active = canonicalWords ++ added ∧
      table.additions = added ∧
      ∀ later, (table.afterCalls later).kind? "cup" = some (.operator .union) := by
  intro calls table added
  have hfile : readFile (.ok "\x7b\"meet, cap\": \"INTERSECTION\"\x7d".toUTF8.data.toList) =
      .ok (.dict [(.group [.text "meet", .text "cap"], .text "INTERSECTION")]) :=
    readFile_of_readWide (by rfl)
      ((Json.isExact_strings [("meet, cap", "INTERSECTION")] (by decide)).readWide_eq .line
        (by decide))
  have hother : readFile (.ok "\x7b\"cup\": \"COMPLEMENT\"\x7d".toUTF8.data.toList) =
      .ok (.dict [(.group [.text "cup"], .text "COMPLEMENT")]) :=
    readFile_of_readWide (by rfl)
      ((Json.isExact_strings [("cup", "COMPLEMENT")] (by decide)).readWide_eq .line (by decide))
  have htable : table = ⟨canonicalWords ++ added, canonicalWords ++ added⟩ := by
    simp only [table, calls, afterCalls, List.foldl_cons, List.foldl_nil, AliasCall.run_eq,
      AliasCall.extend, load, hfile, hother]
    rfl
  obtain ⟨-, -, -, -, -, -, hlater, hcanonical⟩ := afterCalls_consistent canonical (.inr rfl) calls
  obtain ⟨hactive, -⟩ := hcanonical rfl
  refine ⟨.inr rfl, congrArg active htable, ?_, fun later => hlater later _ _ ?_⟩
  · exact List.append_cancel_left (hactive.symm.trans (congrArg active htable))
  · show table.kind? "cup" = _
    rw [htable]
    rfl

end AliasTable

end SetLang
