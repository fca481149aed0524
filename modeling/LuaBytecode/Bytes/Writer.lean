import LuaBytecode.Bytes.Unsigned

/-! A writer: a buffer that numbers and runs of bytes are added to. -/
namespace LuaBytecode

structure Writer where
  buffer : Bytes := []
  order : ByteOrder

namespace Writer

def raw (w : Writer) (bytes : Bytes) : Writer := { w with buffer := w.buffer ++ bytes }

/-- What a number that does not fit leaves in the room made for it: zeros, except that a number too
great for eight bytes in big order, which is put down from its lowest byte on, leaves its lowest
eight bytes. -/
def filler (order : ByteOrder) (size : Nat) (n : Int) : Bytes :=
  if order = .big ∧ size = 8 ∧ 0 ≤ n then Unsigned.encode order size n.toNat
  else List.replicate size 0

/-- Adds a number of the given size. The room for it is made first and stays if it does not fit. -/
def number (w : Writer) (size : Nat) (n : Int) : Except Fault Unit × Writer :=
  match Unsigned.encode? w.order size n with
  | .ok bytes => (.ok (), w.raw bytes)
  | .error fault => (.error fault, w.raw (filler w.order size n))

/-- Adds the number that a datum is; a datum that is none leaves zeros. -/
def datum (w : Writer) (size : Nat) (value : Datum) : Except Fault Unit × Writer :=
  match value.number? with
  | some n => w.number size n.value
  | none => (.error .valueDoesNotFit, w.raw (List.replicate size 0))

def unsigned (w : Writer) (width : Int) (value : Datum) : Except Fault Unit × Writer :=
  match Width.ofBytes width with
  | .ok width => w.datum width.bytes value
  | .error fault => (.error fault, w)

inductive Step where
  | byte (value : Datum)
  | unsigned (value : Datum) (width : Int)
  | raw (bytes : Bytes)

def step (w : Writer) : Step → Except Fault Unit × Writer
  | .byte value => w.datum 1 value
  | .unsigned value width => w.unsigned width value
  | .raw bytes => (.ok (), w.raw bytes)

end Writer
end LuaBytecode
