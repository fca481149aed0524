import LuaBytecode.Profile

/-! Constants and the pool of constants in a chunk: a count, then for each constant a tag and its
payload. -/
namespace LuaBytecode

inductive ConstantType where
  | nil | boolean | number | string
  deriving DecidableEq, Repr

namespace ConstantType

def tag : ConstantType → Nat
  | .nil => 0
  | .boolean => 1
  | .number => 3
  | .string => 4

def ofTag? (tag : Int) : Option ConstantType :=
  [.nil, .boolean, .number, .string].find? fun type : ConstantType => (type.tag : Int) == tag

def name : ConstantType → String
  | .nil => "NIL"
  | .boolean => "BOOLEAN"
  | .number => "NUMBER"
  | .string => "STRING"

end ConstantType

structure Constant where
  type : ConstantType
  payload : Bytes
  deriving DecidableEq, Repr

namespace Constant

inductive Value where
  | nil
  | boolean (value : Bool)
  | string (value : Bytes)
  deriving DecidableEq, Repr

/-- What a constant stands for. A string is stored with a zero byte at its end; an empty payload is
the absent string. -/
def value (c : Constant) : Except Fault Value :=
  match c.type, c.payload with
  | .nil, _ => .ok .nil
  | .boolean, [] => .error .indexOutOfRange
  | .boolean, b :: _ => .ok (.boolean (b != 0))
  | .string, [] => .ok .nil
  | .string, payload => .ok (.string payload.dropLast)
  | .number, _ => .error .numberConstant

def ofTag (tag : Int) (payload : Bytes) : Except Fault Constant :=
  match ConstantType.ofTag? tag with
  | some type => .ok ⟨type, payload⟩
  | none => .error (.unknownConstantType tag)

/-- Reads a payload from the front. Only that of a string has its length before it. -/
def readPayload? (p : Profile) : ConstantType → Bytes → Option (Bytes × Bytes)
  | .nil, bytes => some ([], bytes)
  | .boolean, bytes => Unsigned.split? 1 bytes
  | .number, bytes => Unsigned.split? p.numberSize.toNat bytes
  | .string, bytes =>
    match Unsigned.read? p.order p.sizeWidth.bytes bytes with
    | some (length, bytes) => Unsigned.split? length bytes
    | none => none

def read (p : Profile) : Bytes → Except Fault (Constant × Bytes)
  | [] => .error .poolTruncated
  | tag :: bytes =>
    match ConstantType.ofTag? tag.toNat with
    | none => .error (.unknownConstantTag tag.toNat)
    | some type =>
      match readPayload? p type bytes with
      | some (payload, bytes) => .ok (⟨type, payload⟩, bytes)
      | none => .error .poolTruncated

/-- Reads a number of constants from the front; what follows them does not matter. -/
def readMany (p : Profile) : Nat → Bytes → Except Fault (List Constant)
  | 0, _ => .ok []
  | count + 1, bytes => do
    let (constant, bytes) ← read p bytes
    return constant :: (← readMany p count bytes)

def readPool (p : Profile) (bytes : Bytes) : Except Fault (List Constant) :=
  match Unsigned.read? p.order p.intWidth.bytes bytes with
  | some (count, bytes) => readMany p count bytes
  | none => .error .poolTruncated

end Constant
end LuaBytecode
