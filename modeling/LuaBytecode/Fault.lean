import LuaBytecode.Datum

/-! Everything that can go wrong, as causes, with the wording of each cause and the category it
belongs to. -/
namespace LuaBytecode

inductive Category where
  | bytecode
  | profile
  | registry
  | chunk | formatMismatch | hostMismatch
  | assembler | malformed | unknownMnemonic | nonNumeric | argumentCount | operandRange
  | disassembler | unknownOpcode
  | instructionWord
  | constantType
  | shortBuffer
  | value | index | lookup | kind | attribute | packing | overflow | memory
  deriving DecidableEq, Repr

namespace Category

/-- The wider categories of a category, nearest first. A fault about an instruction word is also
a fault about a value. -/
def broader : Category → List Category
  | .profile | .registry | .chunk | .assembler | .disassembler | .constantType => [.bytecode]
  | .formatMismatch | .hostMismatch => [.chunk, .bytecode]
  | .malformed | .unknownMnemonic | .nonNumeric | .argumentCount | .operandRange =>
      [.assembler, .bytecode]
  | .unknownOpcode => [.disassembler, .bytecode]
  | .instructionWord => [.bytecode, .value]
  | .bytecode | .shortBuffer | .value | .index | .lookup | .kind | .attribute | .packing
  | .overflow | .memory => []

def all : List Category :=
  [.bytecode, .profile, .registry, .chunk, .formatMismatch, .hostMismatch, .assembler, .malformed,
    .unknownMnemonic, .nonNumeric, .argumentCount, .operandRange, .disassembler, .unknownOpcode,
    .instructionWord, .constantType, .shortBuffer, .value, .index, .lookup, .kind, .attribute,
    .packing, .overflow, .memory]

end Category

inductive Fault where
  -- the header that describes a machine
  | referenceTooShort (size : Nat)
  | referenceNotChunk
  | referenceNotHex (position : Nat)
  | endiannessFlag (flag : Nat)
  | instructionSize (size : Nat)
  | intSize (size : Nat)
  | sizeTSize (size : Nat)
  -- tables of layouts and operations
  | layoutWithoutFields (layout : String)
  | fieldOutsideWord (field layout : String)
  | fieldOverlap (field layout : String)
  | opcodeOutOfRange (opcode : Int) (mnemonic : String)
  | mnemonicNotUpper (mnemonic : String)
  | opcodeTaken (opcode : Int) (earlier later : String)
  | mnemonicTaken (mnemonic : String) (earlier later : Int)
  | unknownLayout (layout : String)
  | absentLayout
  -- opening a chunk
  | notChunk
  | otherMachine
  | countMissing
  | countInvalid (count : Nat)
  | codeTruncated (count needed size : Nat)
  | poolTruncated
  -- writing an instruction
  | malformedInstruction (text : String)
  | unknownMnemonic (token : String)
  | nonNumericArgument (token : String)
  | tooManyDigits
  | argumentCount (mnemonic layout : String) (expected actual : Nat)
  | operandOutOfRange (field mnemonic : String) (value : Datum.Quantity) (lo hi : Int)
  -- reading an instruction
  | unknownOpcode (opcode : Option Int)
  | unknownKey (key : String)
  | notWord (kind : Datum.Kind)
  | wordOutOfRange (value : Int)
  | wordByteCount (count : Nat)
  | numberBeyondBuffer (width offset : Int) (size : Nat)
  -- arrays of words
  | tooManyWords (count : Nat) (limit : Int)
  | sliceSize (given selected : Nat)
  | zeroStep
  | valueAbsent
  | indexOutOfRange
  | indexTooLong
  | notIterable
  | notKey
  -- constants
  | unknownConstantTag (tag : Nat)
  | unknownConstantType (type : Int)
  | numberConstant
  -- bits and bytes
  | notNumber
  | notText
  | negativeShift
  | tooManyBits (count : Nat)
  | bufferTooShort
  | unsupportedWidth (width : Int)
  | valueDoesNotFit
  deriving DecidableEq, Repr

namespace Fault
open Text

/-- The most bits that the length of a number can be counted for: thirty to a digit, four bytes to
a digit, and as many bytes as a signed 64-bit number counts less those in front of the digits. -/
def countableBits : Nat := 30 * ((0x7fffffffffffffff - 24) / 4 - 1)

/-- The integers of any length in the wording of a fault. Numbers of words or bytes that there are do
not count, nor do those between zero and such a number. -/
def numerals : Fault → List Int
  | .opcodeOutOfRange opcode _ => [opcode]
  | .operandOutOfRange _ _ (.int value) _ _ => [value]
  | .unknownOpcode (some opcode) => [opcode]
  | .numberBeyondBuffer width offset size =>
      if 0 ≤ offset ∧ offset ≤ size then [width] else [width, offset]
  | .tooManyWords _ limit => if 0 ≤ limit then [] else [limit]
  | .unknownConstantType type => [type]
  | .unsupportedWidth width => [width]
  | _ => []

/-- Whether a fault can be put into words, as a number with too many digits cannot be written. -/
def isWorded (fault : Fault) : Bool := fault.numerals.all Text.isWritable

/-- A number that is too long is refused as such only if its length cannot be counted; otherwise
there is no room for it. -/
def wordedCategory : Fault → Category
  | .referenceTooShort _ | .referenceNotChunk | .referenceNotHex _ | .endiannessFlag _
  | .instructionSize _ | .intSize _ | .sizeTSize _ => .profile
  | .layoutWithoutFields _ | .fieldOutsideWord _ _ | .fieldOverlap _ _ | .opcodeOutOfRange _ _
  | .mnemonicNotUpper _ | .opcodeTaken _ _ _ | .mnemonicTaken _ _ _ => .registry
  | .notChunk | .countMissing | .countInvalid _ | .codeTruncated _ _ _
  | .poolTruncated => .formatMismatch
  | .otherMachine => .hostMismatch
  | .malformedInstruction _ => .malformed
  | .unknownMnemonic _ => .unknownMnemonic
  | .nonNumericArgument _ => .nonNumeric
  | .argumentCount _ _ _ _ => .argumentCount
  | .operandOutOfRange _ _ _ _ _ => .operandRange
  | .unknownOpcode _ | .unknownKey _ => .unknownOpcode
  | .notWord _ | .wordOutOfRange _ | .wordByteCount _ | .numberBeyondBuffer _ _ _
  | .tooManyWords _ _ | .sliceSize _ _ => .instructionWord
  | .unknownConstantTag _ | .numberConstant => .constantType
  | .bufferTooShort => .shortBuffer
  | .unknownLayout _ | .tooManyDigits | .zeroStep | .valueAbsent | .unknownConstantType _
  | .negativeShift | .unsupportedWidth _ => .value
  | .indexOutOfRange => .index
  | .absentLayout => .lookup
  | .notIterable | .notKey | .notNumber => .kind
  | .notText => .attribute
  | .valueDoesNotFit => .packing
  | .indexTooLong => .overflow
  | .tooManyBits count => if count > countableBits then .overflow else .memory

/-- The number that keeps a fault from being put into words is a fault about a value itself. -/
def category (fault : Fault) : Category := if fault.isWorded then fault.wordedCategory else .value

def wording : Fault → String
  | .referenceTooShort size => s!"Reference chunk too short: {size} bytes, need at least 18"
  | .referenceNotChunk => "Reference chunk is not Lua 5.2 bytecode"
  | .referenceNotHex position =>
      "LUA52BC_REFERENCE_CHUNK is not a hex string: " ++
        s!"non-hexadecimal number found in fromhex() arg at position {position}"
  | .endiannessFlag flag => s!"Invalid endianness flag: {flag}"
  | .instructionSize size => s!"Unsupported instruction size: {size}"
  | .intSize size => s!"Unsupported int size: {size}"
  | .sizeTSize size => s!"Unsupported size_t size: {size}"
  | .layoutWithoutFields layout => s!"Layout {layout} has no fields"
  | .fieldOutsideWord field layout => s!"Field {field} of {layout} does not fit in a word"
  | .fieldOverlap field layout => s!"Field {field} of {layout} overlaps another field"
  | .opcodeOutOfRange opcode mnemonic => s!"Opcode {decimal opcode} out of range for {mnemonic}"
  | .mnemonicNotUpper mnemonic => s!"Mnemonic must be uppercase: {mnemonic}"
  | .opcodeTaken opcode earlier later =>
      s!"Opcode {decimal opcode} bound to both {earlier} and {later}"
  | .mnemonicTaken mnemonic earlier later =>
      s!"Mnemonic {mnemonic} bound to both opcodes {decimal earlier} and {decimal later}"
  | .unknownLayout layout => s!"no layout is named {layout}"
  | .absentLayout => "the table has no such layout"
  | .notChunk => "bytecode error: chunk is not genuine Lua 5.2 bytecode"
  | .otherMachine => "bytecode error: chunk was not compiled on a compatible machine"
  | .countMissing => "bytecode error: chunk is truncated before the instruction count"
  | .countInvalid count => s!"bytecode error: invalid instruction count {count}"
  | .codeTruncated count needed size =>
      s!"bytecode error: chunk is truncated: {count} instructions need {needed} bytes, have {size}"
  | .poolTruncated => "bytecode error: chunk is truncated inside the constant pool"
  | .malformedInstruction text => s!"Improperly formed instruction: '{text}'"
  | .unknownMnemonic token => s!"Unknown instruction: '{token}'"
  | .nonNumericArgument token => s!"Non-numeric argument to assemble: '{token}'"
  | .tooManyDigits => "the number has more digits than are read or written"
  | .argumentCount mnemonic layout expected actual =>
      s!"Bad number of arguments to '{mnemonic}' (layout {layout}): " ++
        s!"expected {expected}, got {actual}"
  | .operandOutOfRange field mnemonic value lo hi =>
      s!"Operand {field} of '{mnemonic}' out of range: " ++
        s!"{value.text} not in [{decimal lo}, {decimal hi}]"
  | .unknownOpcode (some opcode) => s!"Invalid opcode {decimal opcode}"
  | .unknownOpcode none => "Invalid opcode None"
  | .unknownKey key => s!"Invalid opcode {key}"
  | .notWord kind => s!"Expected an instruction word, got {kind.name}"
  | .wordOutOfRange value => s!"Instruction word out of range: {hexadecimal value}"
  | .wordByteCount count => s!"Expected 4 bytes, got {count}"
  | .numberBeyondBuffer width offset size =>
      s!"Need {decimal width} bytes at offset {decimal offset}, buffer has {size}"
  | .tooManyWords count limit => s!"Too many instructions: {count} > {decimal limit}"
  | .sliceSize given selected =>
      s!"Attempt to assign {given} instructions to an extended slice of size {selected}"
  | .zeroStep => "the step of a slice cannot be zero"
  | .valueAbsent => "the value is not in the array"
  | .indexOutOfRange => "the index is out of range"
  | .indexTooLong => "the index is longer than a machine word"
  | .notIterable => "the value cannot be walked over"
  | .notKey => "the value cannot be a key"
  | .unknownConstantTag tag => s!"Unknown constant type {tag}"
  | .unknownConstantType type => s!"no constant has type {decimal type}"
  | .numberConstant => "Decoding NUMBER constants is not supported"
  | .notNumber => "the value is not a number"
  | .notText => "the value is not a text"
  | .tooManyBits count => s!"a number of {count} bits is too long"
  | .negativeShift => "the shift count is negative"
  | .bufferTooShort => ""
  | .unsupportedWidth width => s!"Unsupported integer width: {decimal width}"
  | .valueDoesNotFit => "the value does not fit the width"

def message (fault : Fault) : String :=
  if fault.isWorded then fault.wording else tooManyDigits.wording

end Fault
end LuaBytecode
