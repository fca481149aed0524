import LuaBytecode.Text.Numeral

/-! Texts and bytes between quotes, as they are written inside a larger value. -/
namespace LuaBytecode.Text

def singleQuote : Char := Char.ofNat 0x27
def doubleQuote : Char := Char.ofNat 0x22
def backslash : Char := Char.ofNat 0x5c

/-- Characters that are written as they are. Beyond the first 256 all are taken to be. -/
def isPrintable (c : Char) : Bool :=
  (0x20 ≤ c.toNat && c.toNat < 0x7f) || (0xa0 < c.toNat && c.toNat != 0xad)

def escape (quote : Char) (printable : Char → Bool) (c : Char) : List Char :=
  if c = quote ∨ c = backslash then [backslash, c]
  else if c = '\t' then [backslash, 't']
  else if c = '\n' then [backslash, 'n']
  else if c = '\r' then [backslash, 'r']
  else if printable c then [c]
  else backslash :: 'x' :: padLeft 2 '0' ((digits 16 c.toNat).map digitChar)

/-- The quotes are single ones, unless these stand in the text and double ones do not. -/
def quoted (printable : Char → Bool) (cs : List Char) : String :=
  let quote := if cs.contains singleQuote && !cs.contains doubleQuote then doubleQuote else singleQuote
  String.ofList (quote :: cs.flatMap (escape quote printable) ++ [quote])

def quotedText (text : String) : String := quoted isPrintable text.toList

def quotedBytes (bytes : List UInt8) : String :=
  "b" ++ quoted (fun c => isPrintable c && c.toNat < 0x80) (bytes.map fun b => Char.ofNat b.toNat)

end LuaBytecode.Text
