import LuaBytecode.Chunk.Constant
import LuaBytecode.WordArray

/-! Chunks: the header, the front of the main function, its instructions, and the bytes after them.
Only the instructions can be edited; all else is kept as it was read. -/
namespace LuaBytecode

/-- What stands between the header and the instruction count. -/
structure Prologue where
  lineDefined : Nat
  lastLineDefined : Nat
  paramCount : UInt8
  vararg : UInt8
  maxStack : UInt8
  deriving DecidableEq, Repr

namespace Prologue

def isVararg (f : Prologue) : Bool := f.vararg > 0

def bytes (p : Profile) (f : Prologue) : Bytes :=
  Unsigned.encode p.order p.intWidth.bytes f.lineDefined ++
    Unsigned.encode p.order p.intWidth.bytes f.lastLineDefined ++
    [f.paramCount, f.vararg, f.maxStack]

def read? (p : Profile) (bytes : Bytes) : Option (Prologue × Bytes) := do
  let (line, bytes) ← Unsigned.read? p.order p.intWidth.bytes bytes
  let (lastLine, bytes) ← Unsigned.read? p.order p.intWidth.bytes bytes
  match bytes with
  | params :: vararg :: stack :: bytes => some (⟨line, lastLine, params, vararg, stack⟩, bytes)
  | _ => none

end Prologue

structure Chunk where
  profile : Profile
  prologue : Prologue
  code : WordArray
  /-- The bytes after the instructions. -/
  rest : Bytes
  deriving DecidableEq, Repr

namespace Chunk

def readWords? (order : ByteOrder) : Nat → Bytes → Option (List Nat × Bytes)
  | 0, bytes => some ([], bytes)
  | count + 1, bytes => do
    let (word, bytes) ← Unsigned.read? order Word.size bytes
    let (words, bytes) ← readWords? order count bytes
    return (word :: words, bytes)

/-- Reads what follows the header of a chunk of `size` bytes. -/
def readBody (p : Profile) (size : Nat) (bytes : Bytes) : Except Fault Chunk :=
  match Prologue.read? p bytes with
  | none => .error .countMissing
  | some (prologue, bytes) =>
    match Unsigned.read? p.order p.intWidth.bytes bytes with
    | none => .error .countMissing
    | some (count, bytes) =>
      if count > p.maxCount then .error (.countInvalid count)
      else match readWords? p.order count bytes with
        | none => .error (.codeTruncated count (p.codeOffset + count * Word.size) size)
        | some (words, rest) => .ok ⟨p, prologue, ⟨words, some p.maxCount⟩, rest⟩

/-- Reads a chunk that has to be of the given profile. -/
def parse (p : Profile) (data : Bytes) : Except Fault Chunk :=
  if !Profile.hasMarks data then .error .notChunk
  else if data.take Profile.headerSize ≠ p.header then .error .otherMachine
  else readBody p data.length (data.drop Profile.headerSize)

def codeBytes (p : Profile) : List Nat → Except Fault Bytes
  | [] => .ok []
  | word :: words => do
    let bytes ← p.wordBytes word
    return bytes ++ (← codeBytes p words)

def serialize (c : Chunk) : Except Fault Bytes := do
  let count ← Unsigned.encode? c.profile.order c.profile.intWidth.bytes c.code.size
  let code ← codeBytes c.profile c.code.words
  return c.profile.header ++ c.prologue.bytes c.profile ++ count ++ code ++ c.rest

def constants (c : Chunk) : Except Fault (List Constant) := Constant.readPool c.profile c.rest

end Chunk
end LuaBytecode
