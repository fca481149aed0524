import LuaBytecode.Fault

/-! Runs of bits inside integers. Integers are unbounded and negative ones are read in two's
complement, so every run of bits of an integer is a natural number. -/
namespace LuaBytecode.Bits

def bit (place : Nat) : Nat := 1 <<< place

def mask (width : Nat) : Nat := bit width - 1

def lowest (value : Int) (width : Nat) : Nat := (value % bit width).toNat

/-- The `width` bits of `word` from bit `offset` on. -/
def extract (word : Int) (offset width : Nat) : Nat := lowest (word >>> offset) width

/-- The lowest `width` bits of `value`, moved up to bit `offset`. -/
def pack (value : Int) (offset width : Nat) : Nat := lowest value width <<< offset

def biasLimit (width : Nat) : Nat := mask (width - 1)

/-- Stores a signed value: a negative one is added, by magnitude, to the limit. -/
def bias (value : Int) (width : Nat) : Int :=
  if value < 0 then biasLimit width - value else value

def unbias (stored : Int) (width : Nat) : Int :=
  if stored > biasLimit width then biasLimit width - stored else stored

/-- Stores an index that counts down from minus one. -/
def toIndex (logical : Int) (width : Nat) : Nat := lowest (-1 - logical) width

def fromIndex (stored : Int) : Int := -1 - stored

/-! The same with counts of bits from outside. A shift by a negative count is a fault, and so is
one that makes a number too long. -/
namespace Checked
open Datum (Number)

/-- The most bits of a number that is built. The value is this program's own choice, far above the width
of any field; a longer number is taken to find no room. -/
def maxBits : Nat := bit 40

def shiftCount (count : Int) : Except Fault Nat :=
  if count < 0 then .error .negativeShift else .ok count.toNat

def bitCount (count : Int) : Except Fault Nat :=
  if count < 0 then .error .negativeShift
  else if count > maxBits then .error (.tooManyBits count.toNat)
  else .ok count.toNat

/-- Shifts a number up; zero can be shifted by any count. -/
def shiftUp (value : Nat) (count : Int) : Except Fault Nat := do
  if value = 0 then
    let _ ← shiftCount count
    return 0
  return value <<< (← bitCount count)

def mask (width : Int) : Except Fault Nat := do
  return Bits.mask (← bitCount width)

def extract (word offset width : Int) : Except Fault Nat := do
  let offset ← shiftCount offset
  let width ← bitCount width
  return Bits.extract word offset width

def pack (value offset width : Int) : Except Fault Nat := do
  let width ← bitCount width
  shiftUp (lowest value width) offset

/-- One bit of a biased field tells the sign, so the width is at least one. -/
def biasedWidth (width : Int) : Except Fault Nat := do
  return (← bitCount (width - 1)) + 1

def biasLimit (width : Int) : Except Fault Nat := do
  return Bits.biasLimit (← biasedWidth width)

/-- A value that is stored as it is stays the argument it was. -/
def bias (value : Number) (width : Int) : Except Fault Number := do
  let width ← biasedWidth width
  return if value.value < 0 then .int (Bits.bias value.value width) else value

def unbias (stored : Number) (width : Int) : Except Fault Number := do
  let width ← biasedWidth width
  return if stored.value > Bits.biasLimit width then .int (Bits.unbias stored.value width)
    else stored

def toIndex (logical width : Int) : Except Fault Nat := do
  return Bits.toIndex logical (← bitCount width)

end Checked
end LuaBytecode.Bits
