/-! Case folding, as far as its result lies in ASCII. -/
namespace LuaBytecode.Text

/-- The characters outside ASCII whose case folding lies in ASCII. -/
def asciiFolds : List (Char × List Char) := [
  ('\u00df', ['s', 's']), ('\u017f', ['s']), ('\u1e9e', ['s', 's']), ('\u212a', ['k']),
  ('\ufb00', ['f', 'f']), ('\ufb01', ['f', 'i']), ('\ufb02', ['f', 'l']),
  ('\ufb03', ['f', 'f', 'i']), ('\ufb04', ['f', 'f', 'l']), ('\ufb05', ['s', 't']),
  ('\ufb06', ['s', 't'])]

/-- Folds one character; one whose folding lies outside ASCII stays as it is. -/
def foldChar (c : Char) : List Char :=
  if c.toNat < 128 then [c.toLower] else (asciiFolds.lookup c).getD [c]

def fold (cs : List Char) : List Char := cs.flatMap foldChar

end LuaBytecode.Text
