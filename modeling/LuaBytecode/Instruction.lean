import LuaBytecode.Instruction.Source
import LuaBytecode.Registry.Standard

/-! Instructions: an operation with its operands, packed into words, unpacked from them, and written
as text. -/
namespace LuaBytecode

namespace Operation

def ofMnemonic (name : String) : Except Fault Operation :=
  match Registry.standard.byMnemonic? name with
  | some operation => .ok operation
  | none => .error (.unknownMnemonic name)

def ofOpcode (opcode : Int) : Except Fault Operation :=
  match Registry.standard.byOpcode? opcode with
  | some operation => .ok operation
  | none => .error (.unknownOpcode opcode)

def unknown : Datum → Fault
  | .int opcode => .unknownOpcode opcode
  | .nil => .unknownOpcode none
  | key =>
    match key.keyText? with
    | some text => .unknownKey text
    | none => .tooManyDigits

/-- The operation that a datum names: a text by its mnemonic, anything else by its opcode. -/
def ofDatum : Datum → Except Fault Operation
  | .text name => ofMnemonic name
  | key => do
    match ← Registry.standard.lookup key with
    | some operation => .ok operation
    | none => .error (unknown key)

/-- Checks an operand against the range of its field, with which it has to be comparable. -/
def checkRange (mnemonic : String) (f : Field) (operand : Datum) : Except Fault Unit :=
  match operand.quantity? with
  | none => .error .notNumber
  | some quantity =>
    let (lo, hi) := f.range
    if quantity.isBetween lo hi then .ok ()
    else .error (.operandOutOfRange f.name mnemonic quantity lo hi)

/-- The values of operands, each of which, where ranges are checked, has to lie in the range of its
field and then to be an integer. The first operand at fault decides. -/
def operandValues (strict : Bool) (mnemonic : String) :
    List Field → List Datum → Except Fault (List Int)
  | f :: fields, operand :: operands => do
    if strict then checkRange mnemonic f operand
    match operand.number? with
    | none => .error .notNumber
    | some number => return number.value :: (← operandValues strict mnemonic fields operands)
  | _, _ => .ok []

def pack (opcode : Nat) (fields : List Field) (values : List Int) : Nat :=
  (fields.zip values).foldl (fun word (f, value) => word ||| f.place value)
    (Bits.pack opcode Field.op.low Field.op.bits)

/-- The word of an operation with operands in the order of its fields. Where operand ranges are not
checked, an operand that is out of range is cut to its field. -/
def encode (o : Operation) (strict : Bool) (operands : List Datum) : Except Fault Nat := do
  if operands.length ≠ o.fields.length then
    throw (.argumentCount o.mnemonic o.layout.name o.fields.length operands.length)
  let values ← operandValues strict o.mnemonic o.fields operands
  return pack o.opcode o.fields values

end Operation

structure Instruction where
  operation : Operation
  operands : List Int
  deriving DecidableEq, Repr

namespace Instruction

def ofWord (word : Nat) : Except Fault Instruction := do
  let operation ← Operation.ofOpcode (Bits.extract word Field.op.low Field.op.bits)
  return ⟨operation, operation.fields.map (·.read word)⟩

/-- The mnemonic and the operands in plain decimal, a space before each operand. -/
def text (i : Instruction) : String :=
  " ".intercalate (i.operation.mnemonic :: i.operands.map Text.decimal)

def disassemble (word : Nat) : Except Fault String := do
  return (← ofWord word).text

def assemble (strict : Bool) (text : String) : Except Fault Nat := do
  let source ← Source.parse text
  let operation ← Operation.ofMnemonic source.mnemonic
  let values ← Source.operandValues source.operands
  operation.encode strict (values.map .int)

end Instruction
end LuaBytecode
