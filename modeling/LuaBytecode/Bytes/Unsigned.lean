import LuaBytecode.Bits

/-! Unsigned numbers as bytes: byte orders, the widths a number can have, and the digits of a number
in base 256. -/
namespace LuaBytecode

inductive ByteOrder where
  | little | big
  deriving DecidableEq, Repr

namespace ByteOrder

def name : ByteOrder → String
  | .little => "little"
  | .big => "big"

/-- Every name but that of the little order names the big one. -/
def ofName (name : String) : ByteOrder := if name = "little" then .little else .big

/-- Turns bytes from the least significant first into this order, and back. -/
def arrange : ByteOrder → Bytes → Bytes
  | .little, bytes => bytes
  | .big, bytes => bytes.reverse

end ByteOrder

inductive Width where
  | one | two | four | eight
  deriving DecidableEq, Repr

namespace Width

def bytes : Width → Nat
  | .one => 1
  | .two => 2
  | .four => 4
  | .eight => 8

def ofBytes? (n : Int) : Option Width :=
  if n = 1 then some .one
  else if n = 2 then some .two
  else if n = 4 then some .four
  else if n = 8 then some .eight
  else none

def ofBytes (n : Int) : Except Fault Width :=
  match ofBytes? n with
  | some width => .ok width
  | none => .error (.unsupportedWidth n)

def letter : Width → String
  | .one => "B"
  | .two => "H"
  | .four => "I"
  | .eight => "Q"

/-- The format code of an unsigned number: a mark for the byte order, then the letter. -/
def format (width : Width) : ByteOrder → String
  | .little => "<" ++ width.letter
  | .big => ">" ++ width.letter

end Width

namespace Unsigned

/-- The lowest `size` digits of a number in base 256, the least significant first. -/
def digits : (size n : Nat) → Bytes
  | 0, _ => []
  | size + 1, n => UInt8.ofNat (n % 256) :: digits size (n / 256)

def value : Bytes → Nat
  | [] => 0
  | b :: bs => b.toNat + 256 * value bs

def encode (order : ByteOrder) (size n : Nat) : Bytes := order.arrange (digits size n)

def decode (order : ByteOrder) (bytes : Bytes) : Nat := value (order.arrange bytes)

/-- The bytes of an integer, which has to fit. -/
def encode? (order : ByteOrder) (size : Nat) (n : Int) : Except Fault Bytes :=
  if 0 ≤ n ∧ n ≤ Bits.mask (8 * size) then .ok (encode order size n.toNat) else .error .valueDoesNotFit

def split? : (size : Nat) → Bytes → Option (Bytes × Bytes)
  | 0, bytes => some ([], bytes)
  | _ + 1, [] => none
  | size + 1, b :: bytes =>
    match split? size bytes with
    | some (front, back) => some (b :: front, back)
    | none => none

def read? (order : ByteOrder) (size : Nat) (bytes : Bytes) : Option (Nat × Bytes) :=
  match split? size bytes with
  | some (front, back) => some (decode order front, back)
  | none => none

end Unsigned
end LuaBytecode
