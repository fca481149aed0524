import LuaBytecode.Chunk
import LuaBytecode.Session.Instructions

/-! Chunks in a session: opening, editing and writing them, with what the journal records. -/
namespace LuaBytecode.Session

/-- The text of a word in a trace. Only that its opcode names no operation is told in place of the
text. -/
def traceText (word : Nat) : Run String :=
  tryCatch (disassemble (.int word)) fun fault =>
    if fault.category = .unknownOpcode then return s!"<{fault.message}>" else throw fault

def traceWords (index : Nat) : List Nat → Run Unit
  | [] => return ()
  | word :: words => do
    record [.traced index word (← traceText word)]
    traceWords (index + 1) words

/-- Opens a chunk that has to be of the given profile, or of that of this machine. -/
def openChunk (data : Bytes) (profile : Option Profile) : Run Chunk := do
  let profile ← match profile with
    | some profile => pure profile
    | none => hostProfile
  let chunk ← Chunk.parse profile data
  record [.opened data.length chunk.code.size]
  if (← read).trace then
    traceWords 0 chunk.code.words
  return chunk

def serialize (chunk : Chunk) : Run Bytes := do
  let bytes ← chunk.serialize
  record [.serialized chunk.code.size bytes.length]
  return bytes

end LuaBytecode.Session

namespace LuaBytecode.Chunk

inductive Step where
  | words (step : WordArray.Step)
  | serialize
  | disassemble
  | header
  | constants
  /-- Writes the chunk and goes on with what opening the bytes gives. -/
  | reopen

inductive Reply where
  | nothing
  | words (reply : WordArray.Reply)
  | bytes (value : Bytes)
  | lines (value : List String)
  | header (prologue : Prologue) (profile : Profile)
  | constants (value : List Constant)

def disassemble (c : Chunk) : Except Fault (List String) :=
  c.code.words.mapM Instruction.disassemble

def advance (c : Chunk) : Step → Run (Reply × Chunk)
  | .words step => do
    let (reply, code) ← c.code.advance step
    return (.words reply, { c with code })
  | .serialize => do return (.bytes (← Session.serialize c), c)
  | .disassemble => do return (.lines (← c.disassemble), c)
  | .header => return (.header c.prologue c.profile, c)
  | .constants => do return (.constants (← c.constants), c)
  | .reopen => do
    let bytes ← Session.serialize c
    return (.nothing, ← Session.openChunk bytes (some c.profile))

/-- Runs a step; a step that fails leaves the chunk as it was. -/
def step (c : Chunk) (s : Step) : Run (Except Fault Reply × Chunk) :=
  tryCatch (do
      let (reply, c) ← c.advance s
      return (.ok reply, c))
    fun fault => return (.error fault, c)

end LuaBytecode.Chunk
