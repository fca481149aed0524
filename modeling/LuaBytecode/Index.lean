/-! Positions in a sequence of known length: indices that count from either end, and slices. -/
namespace LuaBytecode

namespace Index
variable {α : Type}

/-- The position that an index names among `n`; a negative index counts from the end. -/
def position? (n : Nat) (index : Int) : Option Nat :=
  if 0 ≤ index ∧ index < n then some index.toNat
  else if -(n : Int) ≤ index ∧ index < 0 then some (index + n).toNat
  else none

def get? (xs : List α) (index : Int) : Option α :=
  match position? xs.length index with
  | some i => xs[i]?
  | none => none

/-- Whether an index fits a signed machine word of 64 bits. -/
def fitsWord (index : Int) : Bool := -0x8000000000000000 ≤ index && index < 0x8000000000000000

/-- Where an insertion at an index takes place: the nearest place there is. -/
def insertion (n : Nat) (index : Int) : Nat :=
  min n (if index < 0 then index + n else index).toNat

end Index

structure Slice where
  start : Option Int := none
  stop : Option Int := none
  step : Option Int := none
  deriving DecidableEq, Repr

namespace Slice
variable {α : Type}

def stride (s : Slice) : Int := s.step.getD 1

/-- A slice is plain if its step is left out or one: it selects a run of neighbours. -/
def isPlain (s : Slice) : Bool := s.stride == 1

/-- A bound among `n` positions, moved into the reach of the step's direction. A slice that goes
backwards stops at the place before the first. -/
def clamp (n : Nat) (stride bound : Int) : Int :=
  let least := if stride < 0 then -1 else 0
  let greatest := if stride < 0 then (n : Int) - 1 else n
  let bound := if bound < 0 then bound + n else bound
  max least (min greatest bound)

def first (s : Slice) (n : Nat) : Int :=
  match s.start with
  | some bound => clamp n s.stride bound
  | none => if s.stride < 0 then (n : Int) - 1 else 0

def last (s : Slice) (n : Nat) : Int :=
  match s.stop with
  | some bound => clamp n s.stride bound
  | none => if s.stride < 0 then -1 else n

def count (s : Slice) (n : Nat) : Nat :=
  if s.stride < 0 then
    if s.last n < s.first n then ((s.first n - s.last n - 1) / (-s.stride)).toNat + 1 else 0
  else
    if s.first n < s.last n then ((s.last n - s.first n - 1) / s.stride).toNat + 1 else 0

def positions (s : Slice) (n : Nat) : List Nat :=
  (List.range (s.count n)).map fun k : Nat => (s.first n + k * s.stride).toNat

def select (s : Slice) (xs : List α) : List α :=
  (s.positions xs.length).filterMap (xs[·]?)

def drop (s : Slice) (xs : List α) : List α :=
  let positions := s.positions xs.length
  (xs.zipIdx.filter fun (_, i) => !positions.contains i).map Prod.fst

def overwrite (s : Slice) (xs values : List α) : List α :=
  ((s.positions xs.length).zip values).foldl (fun xs (i, x) => xs.set i x) xs

/-- Puts any number of values in place of the selected run. -/
def splice (s : Slice) (xs values : List α) : List α :=
  let first := (s.first xs.length).toNat
  let last := (s.last xs.length).toNat
  xs.take first ++ values ++ xs.drop (max first last)

end Slice
end LuaBytecode
