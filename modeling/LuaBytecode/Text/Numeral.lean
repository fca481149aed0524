/-! Numbers and truth values as text: signed decimals as operands are written, and hexadecimal for
words. -/
namespace LuaBytecode.Text

def digitChar (d : Nat) : Char :=
  if d < 10 then Char.ofNat ('0'.toNat + d) else Char.ofNat ('a'.toNat + (d - 10))

/-- The digits of a number in a base of two or more, the greatest place first. -/
def digits (base n : Nat) : List Nat :=
  if _h : n < base ∨ base < 2 then [n] else digits base (n / base) ++ [n % base]
termination_by n
decreasing_by
  exact Nat.div_lt_self (by omega) (by omega)

def decimalChars (n : Nat) : List Char := (digits 10 n).map digitChar

/-- The plain decimal text of an integer: no plus sign and no leading zeros. -/
def decimal (n : Int) : String :=
  if n < 0 then String.ofList ('-' :: decimalChars n.natAbs) else String.ofList (decimalChars n.natAbs)

/-- The most digits of a number that is read or written in decimal. -/
def maxDigits : Nat := 4300

def isWritable (n : Int) : Bool := (decimalChars n.natAbs).length ≤ maxDigits

def truthName : Bool → String
  | true => "True"
  | false => "False"

def padLeft (width : Nat) (fill : Char) (text : List Char) : List Char :=
  List.replicate (width - text.length) fill ++ text

/-- The hexadecimal text of an integer, marked as such, the sign in front of the mark. -/
def hexadecimal (n : Int) : String :=
  String.ofList ((if n < 0 then ['-'] else []) ++ '0' :: 'x' :: (digits 16 n.natAbs).map digitChar)

def wordHex (n : Nat) : String :=
  String.ofList (padLeft 8 '0' ((digits 16 n).map fun d => (digitChar d).toUpper))

def decimalDigit? (c : Char) : Option Nat :=
  if '0' ≤ c ∧ c ≤ '9' then some (c.toNat - '0'.toNat) else none

def decimalValue (cs : List Char) : Nat :=
  cs.foldl (fun n c => 10 * n + (c.toNat - '0'.toNat)) 0

def splitSign : List Char → Bool × List Char
  | '-' :: ds => (true, ds)
  | '+' :: ds => (false, ds)
  | ds => (false, ds)

/-- A signed decimal literal: an optional sign, then one or more of the digits 0 to 9. -/
def isLiteral (token : List Char) : Bool :=
  let ds := (splitSign token).2
  !ds.isEmpty && ds.all fun c => (decimalDigit? c).isSome

/-- How many digits a literal has; leading zeros count and the sign does not. -/
def literalDigits (token : List Char) : Nat := (splitSign token).2.length

def literalValue (token : List Char) : Int :=
  let (negative, ds) := splitSign token
  if negative then -(decimalValue ds : Int) else decimalValue ds

end LuaBytecode.Text
