import LuaBytecode.Proofs.Instruction.Grammar
import LuaBytecode.Proofs.Outcome
import LuaBytecode.Proofs.Text.Literal
import Mathlib.Data.List.Forall2

/-! Instructions as text: tokens that are joined by single spaces are the tokens that are read, and
the values of operand tokens are those of their literals. -/
namespace LuaBytecode.Source
open Outcome

private theorem spaced_intercalate {ts : List (List Char)} (hne : ts ≠ []) (h : ∀ t ∈ ts, IsToken t) :
    Spaced ts ([' '].intercalate ts) := by
  induction ts with
  | nil => exact absurd rfl hne
  | cons t ts ih =>
    rw [List.forall_mem_cons] at h
    cases ts with
    | nil =>
      rw [List.intercalate_singleton]
      exact .single h.1
    | cons u ts =>
      rw [List.intercalate_cons_cons]
      exact .cons h.1 ⟨by simp, by simp⟩ (ih (by simp) h.2)

/-- Tokens that are joined by single spaces are read as they are. -/
theorem parse_intercalate {mnemonic operand : String} {operands : List String}
    (h : ∀ t ∈ mnemonic :: operand :: operands, IsToken t.toList) :
    parse (" ".intercalate (mnemonic :: operand :: operands)) =
      .ok ⟨mnemonic, operand :: operands⟩ := by
  have hts : ∀ t ∈ (mnemonic :: operand :: operands).map String.toList, IsToken t := by
    intro t ht
    obtain ⟨token, htoken, rfl⟩ := List.mem_map.mp ht
    exact h token htoken
  refine parse_of_written ⟨by simp, [], _, [], by simp, by simp, spaced_intercalate (by simp) hts, ?_⟩
  rw [String.toList_intercalate, List.nil_append, List.append_nil]
  rfl

theorem operandValue_eq_ok {token : String} {value : Int} (h : operandValue token = .ok value) :
    value = Text.literalValue token.toList := by
  rw [operandValue] at h
  split at h
  · cases h
  split at h
  · cases h
  exact (Except.ok.inj h).symm

theorem operandValues_eq_ok {tokens : List String} {values : List Int}
    (h : operandValues tokens = .ok values) :
    values = tokens.map fun token => Text.literalValue token.toList := by
  induction tokens generalizing values with
  | nil =>
    cases h
    rfl
  | cons token tokens ih =>
    obtain ⟨value, hvalue, h⟩ := bind_eq_ok_iff.mp h
    obtain ⟨rest, hrest, h⟩ := bind_eq_ok_iff.mp h
    cases h
    rw [List.map_cons, operandValue_eq_ok hvalue, ih hrest]

/-- An operand denotes an integer: it is a literal of the integer and has no more digits than are read. -/
def Denotes (operand : String) (value : Int) : Prop :=
  ∃ l : Text.Literal, operand.toList = l.chars ∧ l.digits.length ≤ Text.maxDigits ∧ l.value = value

private theorem Denotes.natAbs_lt {operand : String} {value : Int} (h : Denotes operand value) :
    value.natAbs < 10 ^ Text.maxDigits := by
  obtain ⟨l, _, hdigits, rfl⟩ := h
  exact Nat.lt_of_lt_of_le l.natAbs_value_lt (Nat.pow_le_pow_right (by decide) hdigits)

theorem natAbs_lt_of_denotes {operands : List String} {values : List Int}
    (h : List.Forall₂ Denotes operands values) : ∀ value ∈ values, value.natAbs < 10 ^ Text.maxDigits := by
  induction h with
  | nil => simp
  | cons hvalue _ ih => exact List.forall_mem_cons.mpr ⟨hvalue.natAbs_lt, ih⟩

theorem operandValue_eq_ok_iff {token : String} {value : Int} :
    operandValue token = .ok value ↔ Denotes token value := by
  constructor
  · intro h
    have hvalue := operandValue_eq_ok h
    rw [operandValue] at h
    split at h
    · cases h
    rename_i hliteral
    split at h
    · cases h
    rename_i hdigits
    rw [Bool.not_eq_true', Bool.not_eq_false] at hliteral
    obtain ⟨l, hchars⟩ := Text.isLiteral_iff.mp hliteral
    rw [hchars, Text.literalDigits_chars] at hdigits
    rw [hchars, Text.literalValue_chars] at hvalue
    exact ⟨l, hchars, Nat.not_lt.mp hdigits, hvalue.symm⟩
  · rintro ⟨l, hchars, hdigits, rfl⟩
    have hliteral : Text.isLiteral l.chars = true := Text.isLiteral_iff.mpr ⟨l, rfl⟩
    rw [operandValue, hchars, hliteral, Text.literalDigits_chars, if_neg (by simp),
      if_neg (Nat.not_lt.mpr hdigits), Text.literalValue_chars]

/-- Operands have values exactly if each denotes an integer. -/
theorem operandValues_eq_ok_iff {tokens : List String} {values : List Int} :
    operandValues tokens = .ok values ↔ List.Forall₂ Denotes tokens values := by
  induction tokens generalizing values with
  | nil =>
    rw [operandValues, Except.ok.injEq, List.forall₂_nil_left_iff]
    exact eq_comm
  | cons token tokens ih =>
    rw [operandValues, bind_eq_ok_iff, List.forall₂_cons_left_iff]
    constructor
    · rintro ⟨value, hvalue, h⟩
      obtain ⟨rest, hrest, h⟩ := bind_eq_ok_iff.mp h
      cases h
      exact ⟨value, rest, operandValue_eq_ok_iff.mp hvalue, ih.mp hrest, rfl⟩
    · rintro ⟨value, rest, hvalue, hrest, rfl⟩
      refine ⟨value, operandValue_eq_ok_iff.mpr hvalue, ?_⟩
      rw [ih.mpr hrest]
      rfl

/-- Integers that are not too long for a literal are read as they were written. -/
theorem operandValues_decimal {values : List Int} (h : ∀ v ∈ values, v.natAbs < 10 ^ Text.maxDigits) :
    operandValues (values.map Text.decimal) = .ok values := by
  induction values with
  | nil => rfl
  | cons value values ih =>
    rw [List.forall_mem_cons] at h
    have hdigits : ¬ Text.literalDigits (Text.decimal value).toList > Text.maxDigits :=
      Nat.not_lt.mpr (Text.literalDigits_decimal_le (by decide) h.1)
    have hvalue : operandValue (Text.decimal value) = .ok value := by
      rw [operandValue, Text.isLiteral_decimal, if_neg (by simp), if_neg hdigits,
        Text.literalValue_decimal]
    rw [List.map_cons, operandValues, hvalue, ok_bind, ih h.2, ok_bind]
    rfl

end LuaBytecode.Source
