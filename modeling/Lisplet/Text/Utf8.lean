/-!
# Decoding UTF-8

Each character is a leading byte and up to three continuation bytes. The leading byte fixes
the range of every byte that must follow it, which rules out overlong forms, surrogates and
numbers past the last code point. Decoding stops at the first byte that cannot continue; the
failure covers the bytes of the unfinished character read so far.
-/

namespace Lisplet.Text

/-- Why a byte sequence is not UTF-8. -/
inductive DecodeFault where
  | startByte
  | continuation
  | truncated
  deriving DecidableEq

/-- A failure to decode, over the bytes from `start` on, the first of which is `byte`. -/
structure DecodeError where
  fault : DecodeFault
  start : Nat
  length : Nat
  byte : Nat
  deriving DecidableEq

/-- A character begun: its first byte, its value so far, how many bytes are read, and the
ranges of those still owed. -/
structure PartialChar where
  lead : Nat
  value : Nat
  taken : Nat
  owed : List (Nat × Nat)

/-- The ordinary range of a continuation byte. -/
def tailRange : Nat × Nat := (0x80, 0xBF)

/-- The value bits of a leading byte and the ranges of the bytes that must follow it. -/
def leadingByte? (byte : Nat) : Option (Nat × List (Nat × Nat)) :=
  if byte < 0x80 then some (byte, [])
  else if byte < 0xC2 then none
  else if byte < 0xE0 then some (byte - 0xC0, [tailRange])
  else if byte = 0xE0 then some (0, [(0xA0, 0xBF), tailRange])
  else if byte = 0xED then some (0xD, [(0x80, 0x9F), tailRange])
  else if byte < 0xF0 then some (byte - 0xE0, [tailRange, tailRange])
  else if byte = 0xF0 then some (0, [(0x90, 0xBF), tailRange, tailRange])
  else if byte < 0xF4 then some (byte - 0xF0, [tailRange, tailRange, tailRange])
  else if byte = 0xF4 then some (4, [(0x80, 0x8F), tailRange, tailRange])
  else none

/-- Decode from a byte position on, with the characters read so far in reverse order. -/
def decodeFrom (position : Nat) (read : List Char) :
    Option PartialChar → List UInt8 → Except DecodeError (List Char)
  | none, [] => .ok read.reverse
  | some p, [] => .error ⟨.truncated, position - p.taken, p.taken, p.lead⟩
  | none, byte :: rest =>
    match leadingByte? byte.toNat with
    | none => .error ⟨.startByte, position, 1, byte.toNat⟩
    | some (value, []) => decodeFrom (position + 1) (Char.ofNat value :: read) none rest
    | some (value, owed) => decodeFrom (position + 1) read (some ⟨byte.toNat, value, 1, owed⟩) rest
  | some p, byte :: rest =>
    match p.owed with
    | [] => .error ⟨.startByte, position, 1, byte.toNat⟩
    | (low, high) :: owed =>
      let value := p.value * 64 + byte.toNat % 64
      if low ≤ byte.toNat ∧ byte.toNat ≤ high then
        if owed.isEmpty then decodeFrom (position + 1) (Char.ofNat value :: read) none rest
        else decodeFrom (position + 1) read (some ⟨p.lead, value, p.taken + 1, owed⟩) rest
      else .error ⟨.continuation, position - p.taken, p.taken, p.lead⟩

/-- The characters that a byte sequence encodes. -/
def decode (bytes : List UInt8) : Except DecodeError (List Char) :=
  decodeFrom 0 [] none bytes

/-- The words for a fault. -/
def DecodeFault.reason : DecodeFault → String
  | .startByte => "invalid start byte"
  | .continuation => "invalid continuation byte"
  | .truncated => "unexpected end of data"

end Lisplet.Text
