import LuaBytecode.Proofs.Text.Numeral
import Mathlib.Tactic.Ring

/-! Decimal literals in any spelling: with or without a sign and with any zeros in front. -/
namespace LuaBytecode.Text

/-- The sign in front of a literal, if there is one. -/
inductive Sign where
  | absent | plus | minus
  deriving DecidableEq, Repr

def Sign.chars : Sign → List Char
  | .absent => []
  | .plus => ['+']
  | .minus => ['-']

/-- A signed decimal literal: an optional sign, then one or more of the digits 0 to 9. -/
structure Literal where
  sign : Sign
  digits : List Char
  digits_ne_nil : digits ≠ []
  isDigit_of_mem : ∀ c ∈ digits, c.isDigit = true

namespace Literal

def chars (l : Literal) : List Char := l.sign.chars ++ l.digits

/-- The integer that the literal denotes. -/
def value (l : Literal) : Int :=
  match l.sign with
  | .minus => -(Nat.ofDigitChars 10 l.digits 0 : Int)
  | .absent | .plus => Nat.ofDigitChars 10 l.digits 0

end Literal

theorem splitSign_append {sign : Sign} {ds : List Char} (h : ∀ c ∈ ds, c.isDigit = true) :
    splitSign (sign.chars ++ ds) = (sign == .minus, ds) := by
  cases sign with
  | absent => exact splitSign_of_isDigit h
  | plus => rfl
  | minus => rfl

/-- Whatever follows the sign, a text is its sign and the rest. -/
theorem exists_sign_append (cs : List Char) : ∃ sign : Sign, cs = sign.chars ++ (splitSign cs).2 := by
  unfold splitSign
  split
  · exact ⟨.minus, rfl⟩
  · exact ⟨.plus, rfl⟩
  · exact ⟨.absent, rfl⟩

/-- The texts that are taken for literals are those of literals. -/
theorem isLiteral_iff {cs : List Char} : isLiteral cs = true ↔ ∃ l : Literal, cs = l.chars := by
  simp only [isLiteral, Bool.and_eq_true, Bool.not_eq_true', List.all_eq_true,
    List.isEmpty_eq_false_iff, isSome_decimalDigit?]
  constructor
  · rintro ⟨hne, hdigits⟩
    obtain ⟨sign, hcs⟩ := exists_sign_append cs
    exact ⟨⟨sign, (splitSign cs).2, hne, hdigits⟩, hcs⟩
  · rintro ⟨l, rfl⟩
    rw [Literal.chars, splitSign_append l.isDigit_of_mem]
    exact ⟨l.digits_ne_nil, l.isDigit_of_mem⟩

private theorem digit_le_nine {c : Char} (h : c.isDigit = true) : c.toNat - '0'.toNat ≤ 9 := by
  simp only [Char.isDigit, Bool.and_eq_true, decide_eq_true_eq, UInt32.le_iff_toNat_le] at h
  have hle : c.toNat ≤ 57 := h.2
  have hzero : '0'.toNat = 48 := rfl
  omega

-- the digits before those that are still to be read are worth `n`
private theorem ofDigitChars_lt {ds : List Char} (h : ∀ c ∈ ds, c.isDigit = true) (n : Nat) :
    Nat.ofDigitChars 10 ds n < (n + 1) * 10 ^ ds.length := by
  induction ds generalizing n with
  | nil => simp [Nat.ofDigitChars]
  | cons c ds ih =>
    rw [List.forall_mem_cons] at h
    have hdigit := digit_le_nine h.1
    calc Nat.ofDigitChars 10 (c :: ds) n
      _ < (10 * n + (c.toNat - '0'.toNat) + 1) * 10 ^ ds.length := ih h.2 _
      _ ≤ (10 * (n + 1)) * 10 ^ ds.length := Nat.mul_le_mul_right _ (by omega)
      _ = (n + 1) * 10 ^ (c :: ds).length := by rw [List.length_cons, Nat.pow_succ]; ring

theorem Literal.natAbs_value_lt (l : Literal) : l.value.natAbs < 10 ^ l.digits.length := by
  have hlt := ofDigitChars_lt l.isDigit_of_mem 0
  rw [Nat.zero_add, Nat.one_mul] at hlt
  rw [Literal.value]
  cases l.sign <;> simpa using hlt

theorem literalDigits_chars (l : Literal) : literalDigits l.chars = l.digits.length := by
  rw [literalDigits, Literal.chars, splitSign_append l.isDigit_of_mem]

theorem literalValue_chars (l : Literal) : literalValue l.chars = l.value := by
  have hdigits : decimalValue l.digits = Nat.ofDigitChars 10 l.digits 0 := rfl
  rw [literalValue, Literal.chars, splitSign_append l.isDigit_of_mem, Literal.value]
  cases l.sign <;> simp [hdigits]

end LuaBytecode.Text
