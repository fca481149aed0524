import LuaBytecode.Bytes.Unsigned
import LuaBytecode.Word

/-! Profiles of the machines that write chunks: the byte order and the widths that the 18-byte
header of a chunk declares. -/
namespace LuaBytecode

structure Profile where
  order : ByteOrder
  intWidth : Width
  sizeWidth : Width
  numberSize : UInt8
  /-- Zero where numbers are floating-point. -/
  integral : UInt8
  deriving DecidableEq, Repr

namespace Profile

def headerSize : Nat := 18

/-- The first six bytes of a header: escape, the name, the version and the format. -/
def signature : Bytes := [0x1b, 0x4c, 0x75, 0x61, 0x52, 0x00]

/-- The last six bytes of a header, which a transfer as text would damage. -/
def tailMark : Bytes := [0x19, 0x93, 0x0d, 0x0a, 0x1a, 0x0a]

def hasMarks (data : Bytes) : Bool :=
  headerSize ≤ data.length && data.take 6 == signature && (data.drop 12).take 6 == tailMark

def orderFlag : ByteOrder → UInt8
  | .little => 1
  | .big => 0

/-- The six bytes of a header that differ between machines. -/
def hostBytes (p : Profile) : Bytes :=
  [orderFlag p.order, UInt8.ofNat p.intWidth.bytes, UInt8.ofNat p.sizeWidth.bytes,
    UInt8.ofNat Word.size, p.numberSize, p.integral]

def header (p : Profile) : Bytes := signature ++ p.hostBytes ++ tailMark

def ofHostBytes (order int size word number integral : UInt8) : Except Fault Profile :=
  if order ≠ 0 ∧ order ≠ 1 then .error (.endiannessFlag order.toNat)
  else if word.toNat ≠ Word.size then .error (.instructionSize word.toNat)
  else match Width.ofBytes? int.toNat with
    | none => .error (.intSize int.toNat)
    | some intWidth =>
      match Width.ofBytes? size.toNat with
      | none => .error (.sizeTSize size.toNat)
      | some sizeWidth =>
        .ok ⟨if order = 1 then .little else .big, intWidth, sizeWidth, number, integral⟩

/-- The profile that a header declares; bytes after the header do not matter. -/
def ofHeader (data : Bytes) : Except Fault Profile :=
  if data.length < headerSize then .error (.referenceTooShort data.length)
  else if !hasMarks data then .error .referenceNotChunk
  else match (data.drop 6).take 6 with
    | [order, int, size, word, number, integral] =>
      ofHostBytes order int size word number integral
    | _ => .error (.referenceTooShort data.length)

def usesFloat (p : Profile) : Bool := p.integral == 0

def isCompatible (p q : Profile) : Bool := p == q

/-- Where the instruction count of a chunk stands: after the header, two line numbers and three
bytes. -/
def countOffset (p : Profile) : Nat := headerSize + 2 * p.intWidth.bytes + 3

def codeOffset (p : Profile) : Nat := p.countOffset + p.intWidth.bytes

/-- The greatest instruction count; the count is written from a signed number. -/
def maxCount (p : Profile) : Nat := Bits.mask (8 * p.intWidth.bytes - 1)

def wordBytes (p : Profile) (word : Nat) : Except Fault Bytes :=
  Unsigned.encode? p.order Word.size word

def datumBytes (p : Profile) (datum : Datum) : Except Fault Bytes := do
  p.wordBytes (← Word.ofDatum datum)

/-- Reads a number at an offset. A width of zero stands for that of a word. -/
def numberAt (p : Profile) (data : Bytes) (offset width : Int) : Except Fault Nat :=
  let width := if width = 0 then (Word.size : Int) else width
  if offset < 0 ∨ offset > data.length then .error (.numberBeyondBuffer width offset data.length)
  else match Width.ofBytes? width with
    | none => .error (.unsupportedWidth width)
    | some w =>
      match Unsigned.read? p.order w.bytes (data.drop offset.toNat) with
      | some (n, _) => .ok n
      | none => .error (.numberBeyondBuffer width offset data.length)

def describe (p : Profile) : String :=
  s!"HostProfile(byteorder='{p.order.name}', int_size={p.intWidth.bytes}, " ++
    s!"size_t_size={p.sizeWidth.bytes}, instruction_size={Word.size}, " ++
    s!"number_size={p.numberSize.toNat}, uses_float={Text.truthName p.usesFloat})"

/-- The chunk of an empty program, from a little-endian machine with eight-byte sizes. -/
def referenceChunk : Bytes := [
  0x1b, 0x4c, 0x75, 0x61, 0x52, 0x00, 0x01, 0x04, 0x08, 0x04, 0x08, 0x00,
  0x19, 0x93, 0x0d, 0x0a, 0x1a, 0x0a,
  -- two line numbers, parameters, varargs and stack size
  0x00, 0x00, 0x00, 0x00, 0x00, 0x00, 0x00, 0x00, 0x00, 0x01, 0x02,
  -- one instruction, no constants, no inner functions
  0x01, 0x00, 0x00, 0x00, 0x1f, 0x00, 0x80, 0x00, 0x00, 0x00, 0x00, 0x00, 0x00, 0x00, 0x00, 0x00,
  -- one upvalue
  0x01, 0x00, 0x00, 0x00, 0x01, 0x00,
  -- the name of the source, the lines and the name of the upvalue
  0x08, 0x00, 0x00, 0x00, 0x00, 0x00, 0x00, 0x00, 0x3d, 0x28, 0x6c, 0x6f, 0x61, 0x64, 0x29, 0x00,
  0x01, 0x00, 0x00, 0x00, 0x01, 0x00, 0x00, 0x00, 0x00, 0x00, 0x00, 0x00,
  0x01, 0x00, 0x00, 0x00, 0x05, 0x00, 0x00, 0x00, 0x00, 0x00, 0x00, 0x00, 0x5f, 0x45, 0x4e, 0x56,
  0x00]

end Profile
end LuaBytecode
