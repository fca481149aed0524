import LuaBytecode.Index
import LuaBytecode.Word

/-! Arrays of instruction words with an optional limit on their length. Every value is checked
before the array changes. -/
namespace LuaBytecode

structure WordArray where
  words : List Nat
  limit : Option Int := none
  deriving DecidableEq, Repr

namespace WordArray

def size (a : WordArray) : Nat := a.words.length

def checkLength (a : WordArray) (length : Nat) : Except Fault Unit :=
  match a.limit with
  | some limit => if length > limit then .error (.tooManyWords length limit) else .ok ()
  | none => .ok ()

def append (a : WordArray) (words : List Nat) : Except Fault WordArray := do
  a.checkLength (a.size + words.length)
  return { a with words := a.words ++ words }

def ofDatum (datum : Datum) (limit : Option Int) : Except Fault WordArray := do
  append ⟨[], limit⟩ (← Word.ofIterable datum)

inductive Key where
  | index (place : Int)
  | slice (places : Slice)

def checkStep (s : Slice) : Except Fault Unit :=
  if s.stride = 0 then .error .zeroStep else .ok ()

def position (a : WordArray) (index : Int) : Except Fault Nat :=
  match Index.position? a.size index with
  | some i => .ok i
  | none => .error .indexOutOfRange

def get (a : WordArray) (index : Int) : Except Fault Nat :=
  match Index.get? a.words index with
  | some word => .ok word
  | none => .error .indexOutOfRange

def getSlice (a : WordArray) (s : Slice) : Except Fault (List Nat) := do
  checkStep s
  return s.select a.words

/-- Replaces one word; the value is checked before the index. -/
def set (a : WordArray) (index : Int) (value : Datum) : Except Fault WordArray := do
  let word ← Word.ofDatum value
  let i ← a.position index
  return { a with words := a.words.set i word }

/-- Replaces the words of a slice. A slice with a step takes as many words as it selects, a plain
one takes any number. -/
def setSlice (a : WordArray) (s : Slice) (value : Datum) : Except Fault WordArray := do
  let words ← Word.ofIterable value
  checkStep s
  let selected := s.count a.size
  if !s.isPlain && words.length != selected then
    throw (.sliceSize words.length selected)
  a.checkLength (a.size - selected + words.length)
  return { a with words := if s.isPlain then s.splice a.words words else s.overwrite a.words words }

def delete (a : WordArray) (index : Int) : Except Fault WordArray := do
  let i ← a.position index
  return { a with words := a.words.eraseIdx i }

def deleteSlice (a : WordArray) (s : Slice) : Except Fault WordArray := do
  checkStep s
  return { a with words := s.drop a.words }

def push (a : WordArray) (value : Datum) : Except Fault WordArray := do
  a.append [← Word.ofDatum value]

/-- Adds a word at an index, which is moved to the nearest place there is; only an index longer than
a machine word is refused. -/
def insert (a : WordArray) (index : Int) (value : Datum) : Except Fault WordArray := do
  let word ← Word.ofDatum value
  a.checkLength (a.size + 1)
  if !Index.fitsWord index then
    throw .indexTooLong
  return { a with words := a.words.insertIdx (Index.insertion a.size index) word }

def extend (a : WordArray) (value : Datum) : Except Fault WordArray := do
  a.append (← Word.ofIterable value)

def pop (a : WordArray) (index : Int) : Except Fault (Nat × WordArray) := do
  return (← a.get index, ← a.delete index)

/-- The first position of a value from `start` on and before `stop`. A negative bound counts from
the end; a start before the first position is the first position. -/
def find (a : WordArray) (value : Datum) (start : Int) (stop : Option Int) : Except Fault Nat :=
  let origin := if start < 0 then (a.size + start).toNat else start.toNat
  let before (i : Nat) : Bool :=
    match stop with
    | some stop => i < (if stop < 0 then stop + a.size else stop)
    | none => true
  match (a.words.zipIdx.drop origin).find? fun (word, _) => value.isNumber word with
  | some (_, i) => if before i then .ok i else .error .valueAbsent
  | none => .error .valueAbsent

def remove (a : WordArray) (value : Datum) : Except Fault WordArray := do
  let i ← a.find value 0 none
  return { a with words := a.words.eraseIdx i }

def count (a : WordArray) (value : Datum) : Nat := a.words.countP value.isNumber

def contains (a : WordArray) (value : Datum) : Bool := a.words.any value.isNumber

/-- The array in one line of text, each word as eight hexadecimal digits. -/
def describe (a : WordArray) : String :=
  "InstructionArray([" ++ ", ".intercalate (a.words.map fun w => "0x" ++ Text.wordHex w) ++ "])"

inductive Step where
  | get (key : Key)
  | set (key : Key) (value : Datum)
  | delete (key : Key)
  | insert (index : Int) (value : Datum)
  | append (value : Datum)
  | extend (value : Datum)
  | extendSelf
  | pop (index : Int)
  | remove (value : Datum)
  | reverse
  | clear
  | find (value : Datum) (start : Int) (stop : Option Int)
  | count (value : Datum)
  | contains (value : Datum)
  | size
  | describe
  | reversed
  | equals (value : Datum)
  /-- Whether the array holds the words of a datum, which has to be made of words. -/
  | equalsArray (value : Datum)
  /-- The array as a key of a table, which it is not, as it can change. -/
  | key

inductive Reply where
  | nothing
  | number (value : Nat)
  | words (value : List Nat)
  | truth (value : Bool)
  | text (value : String)
  deriving DecidableEq, Repr

def advance (a : WordArray) : Step → Except Fault (Reply × WordArray)
  | .get (.index i) => do return (.number (← a.get i), a)
  | .get (.slice s) => do return (.words (← a.getSlice s), a)
  | .set (.index i) value => do return (.nothing, ← a.set i value)
  | .set (.slice s) value => do return (.nothing, ← a.setSlice s value)
  | .delete (.index i) => do return (.nothing, ← a.delete i)
  | .delete (.slice s) => do return (.nothing, ← a.deleteSlice s)
  | .insert i value => do return (.nothing, ← a.insert i value)
  | .append value => do return (.nothing, ← a.push value)
  | .extend value => do return (.nothing, ← a.extend value)
  | .extendSelf => do return (.nothing, ← a.append a.words)
  | .pop i => do
    let (word, a) ← a.pop i
    return (.number word, a)
  | .remove value => do return (.nothing, ← a.remove value)
  | .reverse => .ok (.nothing, { a with words := a.words.reverse })
  | .clear => .ok (.nothing, { a with words := [] })
  | .find value start stop => do return (.number (← a.find value start stop), a)
  | .count value => .ok (.number (a.count value), a)
  | .contains value => .ok (.truth (a.contains value), a)
  | .size => .ok (.number a.size, a)
  | .describe => .ok (.text a.describe, a)
  | .reversed => .ok (.words a.words.reverse, a)
  | .equals value => .ok (.truth (value.isListOf a.words), a)
  | .equalsArray value => do
    let other ← ofDatum value none
    return (.truth (a.words == other.words), a)
  | .key => .error .notKey

/-- Runs a step; a step that fails leaves the array as it was. -/
def step (a : WordArray) (s : Step) : Except Fault Reply × WordArray :=
  match a.advance s with
  | .ok (reply, a) => (.ok reply, a)
  | .error fault => (.error fault, a)

end WordArray
end LuaBytecode
