import LuaBytecode.Bits

/-! Named bit fields of an instruction word and the three ways of coding a value in one. -/
namespace LuaBytecode

inductive Coding where
  /-- The value itself. -/
  | plain
  /-- A signed value, negative ones above the limit. -/
  | biased
  /-- A negative index, counted down from minus one. -/
  | index
  deriving DecidableEq, Repr

namespace Coding

def name : Coding → String
  | .plain => "unsigned"
  | .biased => "biased"
  | .index => "index"

def ofName? (name : String) : Option Coding := [.plain, .biased, .index].find? (·.name == name)

end Coding

structure Field where
  name : String
  offset : Int
  width : Int
  coding : Coding := .plain
  deriving DecidableEq, Repr

namespace Field

def low (f : Field) : Nat := f.offset.toNat

def bits (f : Field) : Nat := f.width.toNat

def stop (f : Field) : Int := f.offset + f.width

def mask (f : Field) : Nat := Bits.mask f.bits <<< f.low

/-- The number that stands for a value in the field, before it is cut to the field's width. -/
def stored (f : Field) (value : Int) : Int :=
  match f.coding with
  | .plain => value
  | .biased => Bits.bias value f.bits
  | .index => Bits.toIndex value f.bits

/-- A word that holds the value in this field and nothing elsewhere. -/
def place (f : Field) (value : Int) : Nat :=
  Bits.pack (f.stored value) f.low f.bits

def read (f : Field) (word : Int) : Int :=
  let stored : Int := Bits.extract word f.low f.bits
  match f.coding with
  | .plain => stored
  | .biased => Bits.unbias stored f.bits
  | .index => Bits.fromIndex stored

/-- The least and the greatest value that the field is meant for. -/
def range (f : Field) : Int × Int :=
  match f.coding with
  | .plain => (0, Bits.mask f.bits)
  | .biased => (-(Bits.biasLimit f.bits : Int), Bits.biasLimit f.bits)
  | .index => (-(Bits.bit f.bits : Int), -1)

/-! A field from outside can have an offset or a width that no number can be shifted by. -/

/-- The number of bits of the field, as far as its coding can work on them. -/
def bits? (f : Field) : Except Fault Nat :=
  match f.coding with
  | .plain | .index => Bits.Checked.bitCount f.width
  | .biased => Bits.Checked.biasedWidth f.width

def mask? (f : Field) : Except Fault Nat := do
  Bits.Checked.shiftUp (← Bits.Checked.mask f.width) f.offset

def place? (f : Field) (value : Int) : Except Fault Nat := do
  let _ ← f.bits?
  Bits.Checked.pack (f.stored value) f.offset f.width

def read? (f : Field) (word : Int) : Except Fault Int := do
  let _ ← Bits.Checked.extract word f.offset f.width
  let _ ← f.bits?
  return f.read word

def range? (f : Field) : Except Fault (Int × Int) := do
  let _ ← f.bits?
  return f.range

/-! The fields of an instruction word. -/

def op : Field := { name := "OP", offset := 0, width := 6 }
def a : Field := { name := "A", offset := 6, width := 8 }
def b : Field := { name := "B", offset := 23, width := 9, coding := .biased }
def c : Field := { name := "C", offset := 14, width := 9, coding := .biased }
def bx : Field := { name := "Bx", offset := 14, width := 18, coding := .index }
def ax : Field := { name := "Ax", offset := 6, width := 26, coding := .index }
def sbx : Field := { name := "sBx", offset := 14, width := 18, coding := .biased }

def all : List Field := [op, a, b, c, bx, ax, sbx]

def ofName? (name : String) : Option Field := all.find? (·.name == name)

end Field
end LuaBytecode
