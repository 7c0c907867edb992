import SetLang.Text.CaseTables

/-!
# Lower case

Lower-casing follows the full Unicode mapping: a letter goes to its lower-case form, a dotted
capital I becomes two characters, and a capital sigma at the end of a word becomes a final sigma.
-/

namespace SetLang.Text

/-- Whether a code point lies in one of some closed ranges. -/
def inRanges (ranges : List (Nat × Nat)) (c : Char) : Bool :=
  ranges.any fun (low, high) => low ≤ c.toNat && c.toNat ≤ high

/-- The lower-case form of one character, apart from its neighbours. -/
def lowercaseChar (c : Char) : List Char :=
  if c.toNat < 0x80 then [c.toLower]
  else if c.toNat = 0x130 then ['i', Char.ofNat 0x307]
  else
    match lowercaseRuns.find? fun (first, last, step, _) =>
        first ≤ c.toNat && c.toNat ≤ last && (c.toNat - first) % step == 0 with
    | some (_, _, _, shift) => [Char.ofNat ((c.toNat : Int) + shift).toNat]
    | none => [c]

/-- Whether the nearest character of a context that is not passed over has a case. -/
def meetsCased (context : List Char) : Bool :=
  match context.dropWhile (inRanges caseIgnorableRanges) with
  | c :: _ => inRanges casedRanges c
  | [] => false

/-- Lower-cases a text, given the characters before it, nearest first. -/
def lowercaseAfter (before : List Char) : List Char → List Char
  | [] => []
  | c :: rest =>
    let here :=
      if c.toNat = 0x3A3 then
        if meetsCased before && !meetsCased rest then [Char.ofNat 0x3C2] else [Char.ofNat 0x3C3]
      else lowercaseChar c
    here ++ lowercaseAfter (c :: before) rest

/-- Lower-cases a text. -/
def lowercase (s : String) : String :=
  String.ofList (lowercaseAfter [] s.toList)

end SetLang.Text
