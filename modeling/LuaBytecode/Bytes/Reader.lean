import LuaBytecode.Bytes.Unsigned
import LuaBytecode.Index

/-! A reader: a position in a buffer that moves forward as numbers and runs of bytes are read. -/
namespace LuaBytecode

structure Reader where
  buffer : Bytes
  order : ByteOrder
  position : Nat := 0

namespace Reader

def rest (r : Reader) : Bytes := r.buffer.drop r.position

def seek (r : Reader) (target : Int) : Except Fault Reader :=
  if 0 ≤ target ∧ target ≤ r.buffer.length then .ok { r with position := target.toNat }
  else .error .bufferTooShort

/-- The byte at a distance from the position. A place before the start of the buffer counts from
its end. -/
def peek (r : Reader) (distance : Int) : Except Fault UInt8 :=
  if (r.buffer.length : Int) - r.position ≤ distance then .error .bufferTooShort
  else match Index.get? r.buffer (r.position + distance) with
    | some byte => .ok byte
    | none => .error .indexOutOfRange

def number (r : Reader) (size : Nat) : Except Fault (Nat × Reader) :=
  match Unsigned.read? r.order size r.rest with
  | some (n, _) => .ok (n, { r with position := r.position + size })
  | none => .error .bufferTooShort

def byte (r : Reader) : Except Fault (Nat × Reader) := r.number 1

/-- Reads a number of a width that is given in bytes; the width is checked first. -/
def unsigned (r : Reader) (width : Int) : Except Fault (Nat × Reader) := do
  let width ← Width.ofBytes width
  r.number width.bytes

def raw (r : Reader) (count : Int) : Except Fault (Bytes × Reader) :=
  if count < 0 then .error .bufferTooShort
  else match Unsigned.split? count.toNat r.rest with
    | some (bytes, _) => .ok (bytes, { r with position := r.position + count.toNat })
    | none => .error .bufferTooShort

inductive Step where
  | position
  | seek (target : Int)
  | peek (distance : Int)
  | byte
  | unsigned (width : Int)
  | raw (count : Int)
  | skip (count : Int)

inductive Reply where
  | nothing
  | number (value : Nat)
  | bytes (value : Bytes)
  deriving DecidableEq, Repr

def advance (r : Reader) : Step → Except Fault (Reply × Reader)
  | .position => .ok (.number r.position, r)
  | .seek target => do return (.nothing, ← r.seek target)
  | .peek distance => do return (.number (← r.peek distance).toNat, r)
  | .byte => do
    let (n, r) ← r.byte
    return (.number n, r)
  | .unsigned width => do
    let (n, r) ← r.unsigned width
    return (.number n, r)
  | .raw count => do
    let (bytes, r) ← r.raw count
    return (.bytes bytes, r)
  | .skip count => do
    let (_, r) ← r.raw count
    return (.nothing, r)

/-- Runs a step; a step that fails leaves the reader as it was. -/
def step (r : Reader) (s : Step) : Except Fault Reply × Reader :=
  match r.advance s with
  | .ok (reply, r) => (.ok reply, r)
  | .error fault => (.error fault, r)

end Reader
end LuaBytecode
