import LuaBytecode.Bytes.Reader
import LuaBytecode.Bytes.Writer
import LuaBytecode.Session.Chunks
import LuaBytecode.Session.Instructions
import LuaBytecode.Proofs.Chunk.Editing
import LuaBytecode.Proofs.Instruction.RoundTrip
import LuaBytecode.Proofs.Instruction.Encoding
import LuaBytecode.Proofs.WordArray.Construction
import LuaBytecode.Proofs.Chunk.Opening
import LuaBytecode.Proofs.Chunk.Constants
import LuaBytecode.Proofs.Bytes.Script
import LuaBytecode.Proofs.Layout
import LuaBytecode.Proofs.Registry
import LuaBytecode.Proofs.WordArray.InPlace
import LuaBytecode.Proofs.WordArray.Faults
import LuaBytecode.Proofs.Chunk.Header
import LuaBytecode.Proofs.Instruction.Assembling
import LuaBytecode.Proofs.Instruction.Ranges
import LuaBytecode.Proofs.Session.Words
import LuaBytecode.Proofs.WordArray.Slicing
import LuaBytecode.Proofs.WordArray.Sequence
import LuaBytecode.Proofs.Instruction.Stages
import LuaBytecode.Proofs.Layout.Intervals
import LuaBytecode.Proofs.Session.Reference
import LuaBytecode.Proofs.Session.Tracing
import LuaBytecode.Proofs.Session.Host
import LuaBytecode.Proofs.Bits.Counts
import LuaBytecode.Proofs.Bits.Runs
import LuaBytecode.Proofs.Field.Survival
import LuaBytecode.Proofs.Bytes.Cursor
import LuaBytecode.Proofs.Chunk.Streaming
