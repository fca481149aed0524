import LuaBytecode.Text.Blank
import LuaBytecode.Text.Fold

/-! Settings and the environment they are taken from. -/
namespace LuaBytecode

structure Environment where
  trace : Option String := none
  strictOperands : Option String := none
  referenceChunk : Option String := none
  deriving DecidableEq, Repr

structure Settings where
  /-- Whether opening a chunk records each instruction. -/
  trace : Bool
  /-- Whether operands are checked against the ranges of their fields. -/
  strictOperands : Bool
  /-- The bytes of a chunk of this machine, in hexadecimal. -/
  referenceChunk : Option String
  deriving DecidableEq, Repr

namespace Settings

def offWords : List String := ["0", "false", "off", ""]

/-- A setting is on if its variable holds anything but a word for off, in any case and with any
blanks around it. -/
def flag : Option String → Bool
  | none => false
  | some text => !offWords.contains (String.ofList (Text.fold (Text.trim text.toList)))

/-- The text of a variable without the blanks around it; blanks alone count as nothing. -/
def content : Option String → Option String
  | none => none
  | some text => if Text.trimmed text = "" then none else some (Text.trimmed text)

end Settings

def Environment.settings (e : Environment) : Settings where
  trace := Settings.flag e.trace
  strictOperands := Settings.flag e.strictOperands
  referenceChunk := Settings.content e.referenceChunk

end LuaBytecode
