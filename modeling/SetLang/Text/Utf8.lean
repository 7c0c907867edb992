/-!
# UTF-8

Decoding of bytes as UTF-8. A text that is refused is refused at the first byte that cannot
continue a well-formed sequence; the error names the bytes of the sequence that was begun.
-/

namespace SetLang.Text

/-- Why a byte sequence is not UTF-8. -/
inductive Utf8Cause where
  /-- A byte that begins no sequence. -/
  | start
  /-- A byte that cannot continue the sequence begun before it. -/
  | continuation
  /-- The bytes end inside a sequence. -/
  | truncated
deriving DecidableEq, Repr

/-- A refused sequence: where it begins, its first byte, and how many of its bytes were taken. -/
structure Utf8Error where
  position : Nat
  byte : Nat
  length : Nat
  cause : Utf8Cause
deriving DecidableEq, Repr

/-- What a first byte demands: how many bytes follow it, and the range of the next one. -/
structure Utf8Lead where
  following : Nat
  low : Nat
  high : Nat
deriving DecidableEq, Repr

/-- The demands of a first byte; `none` for a byte that begins no sequence. -/
def utf8Lead? (b : Nat) : Option Utf8Lead :=
  if b < 0x80 then some ⟨0, 0x80, 0xBF⟩
  else if b < 0xC2 then none
  else if b < 0xE0 then some ⟨1, 0x80, 0xBF⟩
  else if b = 0xE0 then some ⟨2, 0xA0, 0xBF⟩
  else if b = 0xED then some ⟨2, 0x80, 0x9F⟩
  else if b < 0xF0 then some ⟨2, 0x80, 0xBF⟩
  else if b = 0xF0 then some ⟨3, 0x90, 0xBF⟩
  else if b < 0xF4 then some ⟨3, 0x80, 0xBF⟩
  else if b = 0xF4 then some ⟨3, 0x80, 0x8F⟩
  else none

/-- The payload bits of a first byte with a number of bytes to follow. -/
def utf8LeadBits (following b : Nat) : Nat :=
  match following with
  | 0 => b
  | 1 => b % 0x20
  | 2 => b % 0x10
  | _ => b % 0x08

/-- A sequence under way: where it began, its first byte, the bytes taken, the bits gathered, the
bytes still owed, and the range of the next one. -/
structure Utf8Pending where
  position : Nat
  byte : Nat
  taken : Nat
  bits : Nat
  owed : Nat
  low : Nat
  high : Nat
deriving DecidableEq, Repr

/-- The error of a sequence under way. -/
def Utf8Pending.error (p : Utf8Pending) (cause : Utf8Cause) : Utf8Error :=
  ⟨p.position, p.byte, p.taken, cause⟩

/-- Decodes bytes, given the position of the next one, the sequence under way and the characters
already decoded, last first. -/
def decodeUtf8From (position : Nat) (pending : Option Utf8Pending) (done : List Char) :
    List UInt8 → Except Utf8Error (List Char)
  | [] =>
    match pending with
    | none => .ok done.reverse
    | some p => .error (p.error .truncated)
  | byte :: rest =>
    let b := byte.toNat
    match pending with
    | none =>
      match utf8Lead? b with
      | none => .error ⟨position, b, 1, .start⟩
      | some ⟨0, _, _⟩ => decodeUtf8From (position + 1) none (Char.ofNat b :: done) rest
      | some ⟨following, low, high⟩ =>
        decodeUtf8From (position + 1)
          (some ⟨position, b, 1, utf8LeadBits following b, following, low, high⟩) done rest
    | some p =>
      if p.low ≤ b ∧ b ≤ p.high then
        let bits := p.bits * 0x40 + b % 0x40
        if p.owed ≤ 1 then decodeUtf8From (position + 1) none (Char.ofNat bits :: done) rest
        else
          decodeUtf8From (position + 1)
            (some ⟨p.position, p.byte, p.taken + 1, bits, p.owed - 1, 0x80, 0xBF⟩) done rest
      else .error (p.error .continuation)

/-- Decodes bytes as UTF-8. -/
def decodeUtf8 (bytes : List UInt8) : Except Utf8Error (List Char) :=
  decodeUtf8From 0 none [] bytes

end SetLang.Text
