import LuaBytecode.Datum
import LuaBytecode.Text.Numeral

/-! Bytes written as pairs of hexadecimal digits. -/
namespace LuaBytecode.Text.Hex

def digit? (c : Char) : Option Nat :=
  if '0' ≤ c ∧ c ≤ '9' then some (c.toNat - '0'.toNat)
  else if 'a' ≤ c ∧ c ≤ 'f' then some (c.toNat - 'a'.toNat + 10)
  else if 'A' ≤ c ∧ c ≤ 'F' then some (c.toNat - 'A'.toNat + 10)
  else none

def isSpace (c : Char) : Bool := (0x9 ≤ c.toNat && c.toNat ≤ 0xd) || c.toNat == 0x20

/-- Reads pairs of digits with blanks before any pair. `position` is the place of the first
character; a failure gives the place of the first character that is not the digit it should be. -/
def pairs (position : Nat) : List Char → Except Nat Bytes
  | [] => .ok []
  | c :: rest =>
    if isSpace c then pairs (position + 1) rest
    else match digit? c, rest with
      | none, _ => .error position
      | some _, [] => .error (position + 1)
      | some high, d :: rest =>
        match digit? d with
        | none => .error (position + 1)
        | some low => (UInt8.ofNat (16 * high + low) :: ·) <$> pairs (position + 2) rest

/-- Reads bytes from their digits. The place of a failure is that of the first character outside
ASCII, if there is one. -/
def decode (text : String) : Except Nat Bytes :=
  match text.toList.findIdx? (128 ≤ ·.toNat) with
  | some position => .error position
  | none => pairs 0 text.toList

def encodeByte (b : UInt8) : List Char := [digitChar (b.toNat / 16), digitChar (b.toNat % 16)]

def encode (bytes : Bytes) : String := String.ofList (bytes.flatMap encodeByte)

end LuaBytecode.Text.Hex
