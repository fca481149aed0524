import LuaBytecode.Fault
import LuaBytecode.Text.Blank

/-! Instructions as written: a mnemonic and its operands, as tokens with gaps between them. -/
namespace LuaBytecode

structure Source where
  mnemonic : String
  operands : List String
  deriving DecidableEq, Repr

namespace Source

def isGap (c : Char) : Bool :=
  c == ' ' || c == '\t' || c == '\x0c' || c == '\r' || c == '\n'

/-- Splits at gaps: the longest runs of characters that are no gaps. -/
def tokens : List Char → List (List Char)
  | [] => []
  | c :: cs =>
    if isGap c then tokens cs
    else match cs with
      | [] => [[c]]
      | d :: _ =>
        if isGap d then [c] :: tokens cs
        else match tokens cs with
          | [] => [[c]]
          | token :: rest => (c :: token) :: rest

/-- Reads an instruction. Blanks at the ends do not matter; inside, a blank that is no gap makes
the text malformed, and so does the lack of an operand. -/
def parse (text : String) : Except Fault Source :=
  let body := Text.trim text.toList
  if body.any fun c => Text.isBlank c && !isGap c then .error (.malformedInstruction text)
  else match tokens body with
    | mnemonic :: operand :: operands =>
      .ok ⟨String.ofList mnemonic, (operand :: operands).map String.ofList⟩
    | _ => .error (.malformedInstruction text)

def operandValue (token : String) : Except Fault Int :=
  if !Text.isLiteral token.toList then .error (.nonNumericArgument token)
  else if Text.literalDigits token.toList > Text.maxDigits then .error .tooManyDigits
  else .ok (Text.literalValue token.toList)

/-- The values of operand tokens, or the fault of the first that has none. -/
def operandValues : List String → Except Fault (List Int)
  | [] => .ok []
  | token :: tokens => do
    let value ← operandValue token
    return value :: (← operandValues tokens)

end Source
end LuaBytecode
