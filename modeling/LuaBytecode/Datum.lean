import LuaBytecode.Text.Quote

/-! Arguments of any kind. Only the places that check the kind of an argument take a `Datum`. -/
namespace LuaBytecode

abbrev Bytes := List UInt8

inductive Datum where
  | int (value : Int)
  | bool (value : Bool)
  | nil
  | text (value : String)
  | bytes (value : Bytes)
  | byteArray (value : Bytes)
  /-- A floating-point number by its text and the integers next to it, the greatest that is not
  above it and the least that is not below it. A number that is not finite is next to none. -/
  | float (spelling : String) (near : Option (Int × Int))
  | list (items : List Datum)
  | tuple (items : List Datum)
  deriving Inhabited

namespace Datum

inductive Kind where
  | int | bool | nil | text | bytes | byteArray | float | list | tuple
  deriving DecidableEq, Repr

def kind : Datum → Kind
  | .int _ => .int
  | .bool _ => .bool
  | .nil => .nil
  | .text _ => .text
  | .bytes _ => .bytes
  | .byteArray _ => .byteArray
  | .float _ _ => .float
  | .list _ => .list
  | .tuple _ => .tuple

def Kind.name : Kind → String
  | .int => "int"
  | .bool => "bool"
  | .nil => "NoneType"
  | .text => "str"
  | .bytes => "bytes"
  | .byteArray => "bytearray"
  | .float => "float"
  | .list => "list"
  | .tuple => "tuple"

/-- An argument that can be calculated with bit by bit: a truth value counts as one or zero. -/
inductive Number where
  | int (value : Int)
  | bool (value : Bool)
  deriving DecidableEq, Repr

namespace Number

def value : Number → Int
  | .int value => value
  | .bool true => 1
  | .bool false => 0

end Number

/-- An argument that can be compared with integers. -/
inductive Quantity where
  | int (value : Int)
  | bool (value : Bool)
  | float (spelling : String) (near : Option (Int × Int))
  deriving DecidableEq, Repr

namespace Quantity

def text : Quantity → String
  | .int value => Text.decimal value
  | .bool value => Text.truthName value
  | .float spelling _ => spelling

/-- The integers next to a quantity from below and from above. -/
def near : Quantity → Option (Int × Int)
  | .int value => some (value, value)
  | .bool value => let n := if value then 1 else 0; some (n, n)
  | .float _ near => near

def isBetween (q : Quantity) (lo hi : Int) : Bool :=
  match q.near with
  | some (below, above) => lo ≤ below && above ≤ hi
  | none => false

end Quantity

def quantity? : Datum → Option Quantity
  | .int value => some (.int value)
  | .bool value => some (.bool value)
  | .float spelling near => some (.float spelling near)
  | _ => none

def number? : Datum → Option Number
  | .int value => some (.int value)
  | .bool value => some (.bool value)
  | _ => none

/-- The integer that a datum equals, if it equals one: a truth value counts as one or zero. -/
def integer? : Datum → Option Int
  | .int value => some value
  | .bool value => some (if value then 1 else 0)
  | .float _ (some (below, above)) => if below = above then some below else none
  | _ => none

/-- What a walk over the datum meets; none if it cannot be walked over. -/
def elements? : Datum → Option (List Datum)
  | .list items => some items
  | .tuple items => some items
  | .bytes value => some (value.map fun b => .int b.toNat)
  | .byteArray value => some (value.map fun b => .int b.toNat)
  | .text value => some (value.toList.map fun c => .text (String.singleton c))
  | _ => none

mutual

/-- A datum can be a key of a table unless it can change. -/
def isKey : Datum → Bool
  | .list _ => false
  | .byteArray _ => false
  | .tuple items => areKeys items
  | _ => true

def areKeys : List Datum → Bool
  | [] => true
  | item :: items => item.isKey && areKeys items

end

def tupleText : List String → String
  | [item] => s!"({item},)"
  | items => "(" ++ ", ".intercalate items ++ ")"

mutual

/-- The text of a key, unless it has a number with too many digits. -/
def keyText? : Datum → Option String
  | .int value => if Text.isWritable value then some (Text.decimal value) else none
  | .bool value => some (Text.truthName value)
  | .nil => some "None"
  | .float spelling _ => some spelling
  | .text value => some (Text.quotedText value)
  | .bytes value => some (Text.quotedBytes value)
  | .tuple items => (keyTexts? items).map tupleText
  | .list _ | .byteArray _ => none

def keyTexts? : List Datum → Option (List String)
  | [] => some []
  | item :: items => do return (← item.keyText?) :: (← keyTexts? items)

end

def isNumber (datum : Datum) (value : Nat) : Bool :=
  datum.integer? == some (value : Int)

def isListOf (datum : Datum) (values : List Nat) : Bool :=
  match datum with
  | .list items => agree items values
  | .tuple items => agree items values
  | _ => false
where
  agree : List Datum → List Nat → Bool
    | [], [] => true
    | item :: items, value :: values => item.isNumber value && agree items values
    | _, _ => false

end Datum
end LuaBytecode
