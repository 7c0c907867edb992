import SetLang.Proofs.Grammar.Run
import Mathlib.Order.Bounds.Basic

/-!
# Acceptance and rejection of programs

Main statements, for every list of tokens whose integers fit decimal text:

* the parser accepts the list if and only if the tokens before the first end mark have a derivation,
  and then it returns the tree of their only derivation;
* otherwise it rejects the first token that no sentence goes on with, it has asked the feed for no
  token behind it, and that token is still the current one.
-/

namespace SetLang

open Phrase (words)

/-! ## Rejected tokens can be shown -/

/-- A value other than an integer, or an integer that fits decimal text. -/
def Value.Fits : Value → Prop
  | .int n => Integer.FitsDecimal n
  | .text _ => True
  | .absent => True

instance (v : Value) : Decidable v.Fits :=
  match v with
  | .int n => inferInstanceAs (Decidable (Integer.FitsDecimal n))
  | .text _ => isTrue trivial
  | .absent => isTrue trivial

/-- The integers of some tokens fit decimal text. -/
def Token.AllFit (ts : List Token) : Prop :=
  ∀ t ∈ ts, t.value.Fits

instance (ts : List Token) : Decidable (Token.AllFit ts) :=
  inferInstanceAs (Decidable (∀ t ∈ ts, t.value.Fits))

theorem Value.isSome_shown? {v : Value} (h : v.Fits) : v.shown?.isSome := by
  cases v with
  | absent => rfl
  | text s => rfl
  | int n =>
    have hfit : Integer.FitsDecimal n := h
    rw [shown?, Integer.decimal?, if_pos hfit]
    rfl

/-- A token whose integer fits is rejected as such, whatever is demanded. -/
theorem Fault.rejection_eq {t : Token} (h : t.value.Fits) (demand : Demand) :
    rejection demand t = .rejected demand t := by
  have hshown : t.shown?.isSome := by
    rw [Token.shown?, Option.isSome_map]
    exact Value.isSome_shown? h
  cases demand with
  | kind k => rw [rejection, if_pos hshown]
  | expression => rfl
  | setLiteral => rfl
  | statement => rfl

theorem Token.AllFit.served {ts : List Token} (h : AllFit ts) : AllFit (Token.served ts) := by
  unfold Token.served
  split
  · exact h
  · intro t ht
    rcases List.mem_append.1 ht with hmem | hmem
    · exact h t hmem
    · obtain rfl := List.mem_singleton.1 hmem
      trivial

/-! ## Acceptance -/

/-- The parser accepts exactly the grammar: it always ends after at most two tokens more than stand
before the first end mark, it returns a node if and only if those tokens have a derivation, the
derivation is unique and the node is its tree, and the only fault is a rejected token. -/
theorem parseFeed_ofTokens_accepts_grammar (ts : List Token) (hfit : Token.AllFit ts) :
    (∃ p, Parser.start (.ofTokens ts) = .ok p ∧
      p.program.2.calls ≤ (Token.beforeEnd ts).length + 2) ∧
    ((∃ tree, parseFeed (.ofTokens ts) = .ok tree) ↔
      ∃ ds, words ds = (Token.beforeEnd ts).map Token.kind) ∧
    (∀ ds, words ds = (Token.beforeEnd ts).map Token.kind →
      (∀ ds', words ds' = (Token.beforeEnd ts).map Token.kind → ds' = ds) ∧
      parseFeed (.ofTokens ts) = .ok (Phrase.programTree ds (Token.beforeEnd ts))) ∧
    (∀ fault, parseFeed (.ofTokens ts) = .error fault →
      ∃ demand, ∃ t ∈ Token.served ts, fault = .rejected demand t) := by
  obtain ⟨p, hstart, houtcome⟩ := Parser.exists_outcome ts
  have hparse : parseFeed (.ofTokens ts) = p.program.1 := by rw [parseFeed, hstart]; rfl
  rw [hparse]
  generalize hresult : p.program = result at houtcome
  cases houtcome with
  | accepted ds q hwords hcalls =>
    have hunique : ∀ ds', words ds' = (Token.beforeEnd ts).map Token.kind → ds' = ds :=
      fun ds' h => Phrase.words_injective (h.trans hwords.symm)
    refine ⟨⟨p, hstart, by rw [hresult, hcalls]⟩, ⟨fun _ => ⟨ds, hwords⟩, fun _ => ⟨_, rfl⟩⟩, ?_, ?_⟩
    · intro ds' h
      obtain rfl := hunique ds' h
      exact ⟨hunique, rfl⟩
    · intro fault h
      cases h
  | rejected read t rest demand q hserved hlength hviable hnot hcurrent hcalls =>
    have hnone := Parser.words_ne_of_rejected hserved hlength hnot
    have ht : t ∈ Token.served ts := by simp [hserved]
    refine ⟨⟨p, hstart, by rw [hresult, hcalls]; omega⟩, ⟨?_, ?_⟩, ?_, ?_⟩
    · rintro ⟨tree, h⟩
      cases h
    · rintro ⟨ds, h⟩
      exact absurd h (hnone ds)
    · intro ds h
      exact absurd h (hnone ds)
    · intro fault h
      obtain rfl := Except.error.inj h
      exact ⟨demand, t, ht, Fault.rejection_eq (hfit.served t ht) demand⟩

/-- A loop with a guard of two elements, an end mark behind it, and a token behind the end mark. -/
theorem parseFeed_ofTokens_accepts_loop :
    let ts : List Token := [⟨.predicate .equal, .text "=", ⟨1, 1⟩⟩, ⟨.leftBrace, .text "\x7b", ⟨1, 2⟩⟩,
      ⟨.percent, .text "%", ⟨1, 3⟩⟩, ⟨.comma, .text ",", ⟨1, 4⟩⟩, ⟨.integer, .int 12, ⟨1, 5⟩⟩,
      ⟨.rightBrace, .text "\x7d", ⟨1, 7⟩⟩, ⟨.leftBracket, .text "[", ⟨1, 8⟩⟩,
      ⟨.tilde, .text "~", ⟨1, 9⟩⟩, ⟨.rightBracket, .text "]", ⟨1, 10⟩⟩, .endAt ⟨1, 11⟩,
      ⟨.comma, .text ",", ⟨1, 11⟩⟩]
    Token.AllFit ts ∧ parseFeed (.ofTokens ts) =
      .ok (.mk .program .absent [.mk .loop (.text "EQUAL") [.mk .set .absent
        [.leaf .percent, .mk .integer (.int 12) []], .leaf .readChar]]) := by
  intro ts
  have hfit : Token.AllFit ts := by decide +kernel
  exact ⟨hfit, ((parseFeed_ofTokens_accepts_grammar ts hfit).2.2.1
    [.loop .equal (.braces .percent [.integer]) [.tilde]] rfl).2⟩

/-! ## The first token that no sentence goes on with -/

/-- A parse that fails stops at the least `n + 1` for which the first `n + 1` kinds are not viable:
it rejects the token there, which is still the current one after `n + 1` calls of the feed. A parse
that succeeds has asked for one token more than the first end mark. -/
theorem program_rejects_first_nonviable (ts : List Token) (hfit : Token.AllFit ts) :
    ∃ p, Parser.start (.ofTokens ts) = .ok p ∧
      (∀ fault q, p.program = (.error fault, q) →
        ∃ n t demand,
          IsLeast {k | ¬ IsViable (((Token.served ts).take k).map Token.kind)} (n + 1) ∧
          (Token.served ts)[n]? = some t ∧ fault = .rejected demand t ∧
          q.current = t ∧ q.calls = n + 1) ∧
      (∀ tree q, p.program = (.ok tree, q) →
        q.calls = (Token.served ts).findIdx (fun t => t.kind = .endOfText) + 1 + 1) := by
  obtain ⟨p, hstart, houtcome⟩ := Parser.exists_outcome ts
  refine ⟨p, hstart, ?_⟩
  generalize p.program = result at houtcome
  cases houtcome with
  | accepted ds q hwords hcalls =>
    refine ⟨?_, ?_⟩
    · intro fault q' h
      cases h
    · intro tree q' h
      cases h
      rw [hcalls, Token.findIdx_served]
  | rejected read t rest demand q hserved hlength hviable hnot hcurrent hcalls =>
    refine ⟨?_, ?_⟩
    · intro fault q' h
      cases h
      have ht : t ∈ Token.served ts := by simp [hserved]
      refine ⟨read.length, t, demand, ⟨?_, ?_⟩, by simp [hserved],
        Fault.rejection_eq (hfit.served t ht) demand, hcurrent, hcalls⟩
      · have htake : (Token.served ts).take (read.length + 1) = read ++ [t] := by
          rw [hserved, List.take_length_add_append]; rfl
        rwa [Set.mem_ofPred_eq, htake]
      · -- what is shorter is a beginning of what the parser has read
        intro k hk
        by_contra hlt
        have htake : (Token.served ts).take k = read.take k := by
          rw [hserved, List.take_append_of_le_length (by omega)]
        rw [Set.mem_ofPred_eq, htake, List.map_take] at hk
        exact hk (hviable.take k)
    · intro tree q' h
      cases h

/-- A comma behind the last element of a set makes the brace the first token that no sentence goes on
with. -/
theorem program_rejects_brace_after_comma :
    let ts : List Token := [⟨.operator .union, .text "U", ⟨1, 1⟩⟩, ⟨.leftBrace, .text "\x7b", ⟨1, 2⟩⟩,
      ⟨.integer, .int 12, ⟨1, 3⟩⟩, ⟨.comma, .text ",", ⟨1, 5⟩⟩, ⟨.rightBrace, .text "\x7d", ⟨1, 6⟩⟩]
    Token.AllFit ts ∧ ∃ p, Parser.start (.ofTokens ts) = .ok p ∧ p.program.2.calls = 5 ∧
      p.program.1 = .error (.rejected .expression ⟨.rightBrace, .text "\x7d", ⟨1, 6⟩⟩) ∧
      IsLeast {k | ¬ IsViable (((Token.served ts).take k).map Token.kind)} 5 := by
  intro ts
  have hfit : Token.AllFit ts := by decide +kernel
  obtain ⟨p, hstart, hrejected, -⟩ := program_rejects_first_nonviable ts hfit
  obtain rfl := Except.ok.inj hstart
  obtain ⟨n, t, demand, hleast, -, -, -, hcalls⟩ := hrejected _ _ rfl
  obtain rfl : n = 4 := Nat.succ.inj hcalls.symm
  exact ⟨hfit, _, rfl, rfl, rfl, hleast⟩

end SetLang
