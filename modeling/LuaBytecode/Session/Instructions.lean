import LuaBytecode.Instruction
import LuaBytecode.Session

/-! Instructions in a session: words and their bytes in the byte order of this machine. -/
namespace LuaBytecode.Session

/-- The word of an operation, given by mnemonic or opcode, with its operands. -/
def encode (operation : Datum) (operands : List Datum) : Run Nat := do
  (← Operation.ofDatum operation).encode (← read).strictOperands operands

def assemble (text : String) : Run (Nat × Bytes) := do
  let word ← Instruction.assemble (← read).strictOperands text
  let bytes ← (← hostProfile).wordBytes word
  return (word, bytes)

/-- The word that a datum is or that its bytes hold. -/
def wordOf (datum : Datum) : Run Nat :=
  match datum with
  | .bytes value => ofBytes value
  | .byteArray value => ofBytes value
  | datum => Word.ofDatum datum
where
  ofBytes (bytes : Bytes) : Run Nat := do
    if bytes.length ≠ Word.size then
      throw (.wordByteCount bytes.length)
    (← hostProfile).numberAt bytes 0 Word.size

def decode (datum : Datum) : Run Instruction := do
  Instruction.ofWord (← wordOf datum)

def disassemble (datum : Datum) : Run String := do
  return (← decode datum).text

/-- The texts of data in turn, up to the first that has none. -/
def disassembleData : List Datum → Run (List String)
  | [] => return []
  | datum :: data => do
    let text ← disassemble datum
    return text :: (← disassembleData data)

def disassembleAll (datum : Datum) : Run (List String) :=
  match datum.elements? with
  | some data => disassembleData data
  | none => throw .notIterable

def wordBytes (datum : Datum) : Run Bytes := do
  (← hostProfile).datumBytes datum

def wordAt (data : Bytes) (offset : Int) : Run Nat := do
  (← hostProfile).numberAt data offset Word.size

end LuaBytecode.Session
