import LuaBytecode.Fault

/-! Instruction words: the numbers below 2 ^ 32. -/
namespace LuaBytecode.Word

def size : Nat := 4

def bound : Nat := 0x100000000

/-- The word that a datum is. A truth value is no word, though it equals a number. -/
def ofDatum : Datum → Except Fault Nat
  | .int value =>
    if 0 ≤ value ∧ value < bound then .ok value.toNat else .error (.wordOutOfRange value)
  | datum => .error (.notWord datum.kind)

/-- The words that a list of data are, or the fault of the first that is none. -/
def ofData : List Datum → Except Fault (List Nat)
  | [] => .ok []
  | datum :: data => do
    let word ← ofDatum datum
    return word :: (← ofData data)

def ofIterable (datum : Datum) : Except Fault (List Nat) :=
  match datum.elements? with
  | some data => ofData data
  | none => .error .notIterable

end LuaBytecode.Word
