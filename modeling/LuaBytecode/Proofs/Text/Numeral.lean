import LuaBytecode.Text.Blank
import LuaBytecode.Text.Numeral
import Mathlib.Algebra.Order.Ring.Int

/-! Decimal literals: an integer is written in its plain form, and what is written is a literal that
denotes the integer. -/
namespace LuaBytecode.Text

theorem digitChar_of_lt_ten {d : Nat} (hd : d < 10) : digitChar d = Nat.digitChar d := by
  match d, hd with
  | 0, _ | 1, _ | 2, _ | 3, _ | 4, _ | 5, _ | 6, _ | 7, _ | 8, _ | 9, _ => rfl

theorem decimalChars_eq (n : Nat) : decimalChars n = Nat.toDigits 10 n := by
  induction n using Nat.strongRecOn with
  | _ n ih =>
    by_cases hn : n < 10
    · rw [decimalChars, digits, dif_pos (.inl hn), Nat.toDigits_of_lt_base hn, List.map_singleton,
        digitChar_of_lt_ten hn]
    · have hdiv : n / 10 < n := by omega
      have hmod : n % 10 < 10 := by omega
      rw [decimalChars, digits, dif_neg (by omega), List.map_append, ← decimalChars, ih _ hdiv,
        Nat.toDigits_of_base_le (by decide) (Nat.not_lt.mp hn), List.map_singleton,
        digitChar_of_lt_ten hmod]

/-- The plain form is the one in which integers are written throughout: no plus sign, no leading
zeros, and zero without a sign. -/
theorem decimal_eq_toString (n : Int) : decimal n = toString n := by
  rw [decimal, Int.toString_eq_repr, Int.repr_eq_if, decimalChars_eq]
  by_cases hn : n < 0
  · rw [if_pos hn, if_neg (by omega), ← String.toList_inj, String.toList_append,
      String.toList_ofList, Nat.toList_repr, show (-n).toNat = n.natAbs by omega]
    rfl
  · rw [if_neg hn, if_pos (by omega), Nat.repr_eq_ofList_toDigits,
      show n.toNat = n.natAbs by omega]

theorem decimal_natCast (n : Nat) : decimal n = toString n := by
  rw [decimal_eq_toString, Int.toString_eq_repr, Int.repr_eq_if, if_pos (Int.natCast_nonneg n),
    Int.toNat_natCast]
  rfl

theorem toList_decimal (n : Int) :
    (decimal n).toList = (if n < 0 then ['-'] else []) ++ Nat.toDigits 10 n.natAbs := by
  rw [decimal, decimalChars_eq]
  split <;> simp

private theorem isDigit_of_mem {n : Nat} {c : Char} (h : c ∈ Nat.toDigits 10 n) : c.isDigit :=
  Nat.isDigit_of_mem_toDigits (by decide) (by decide) h

theorem isSome_decimalDigit? {c : Char} : (decimalDigit? c).isSome = true ↔ c.isDigit = true := by
  have hdigit : c.isDigit = true ↔ '0' ≤ c ∧ c ≤ '9' := by
    simp only [Char.isDigit, Bool.and_eq_true, decide_eq_true_eq]
    rfl
  rw [hdigit, decimalDigit?]
  by_cases h : '0' ≤ c ∧ c ≤ '9' <;> simp [h]

theorem splitSign_of_isDigit {ds : List Char} (h : ∀ c ∈ ds, c.isDigit) :
    splitSign ds = (false, ds) := by
  unfold splitSign
  split
  · have hsign := h '-' (by simp)
    simp at hsign
  · have hsign := h '+' (by simp)
    simp at hsign
  · rfl

theorem splitSign_decimal (n : Int) :
    splitSign (decimal n).toList = (decide (n < 0), Nat.toDigits 10 n.natAbs) := by
  rw [toList_decimal]
  by_cases hn : n < 0
  · simp [hn, splitSign]
  · simp [hn, splitSign_of_isDigit (fun c => isDigit_of_mem)]

theorem isLiteral_decimal (n : Int) : isLiteral (decimal n).toList = true := by
  simp only [isLiteral, splitSign_decimal, Bool.and_eq_true, Bool.not_eq_true', List.all_eq_true,
    List.isEmpty_eq_false_iff]
  exact ⟨Nat.toDigits_ne_nil, fun c hc => isSome_decimalDigit?.mpr (isDigit_of_mem hc)⟩

theorem literalDigits_decimal_le {n : Int} {k : Nat} (hk : 0 < k) (hn : n.natAbs < 10 ^ k) :
    literalDigits (decimal n).toList ≤ k := by
  rw [literalDigits, splitSign_decimal]
  exact (Nat.length_toDigits_le_iff (by decide) hk).mpr hn

theorem isWritable_iff {n : Int} : isWritable n = true ↔ n.natAbs < 10 ^ maxDigits := by
  rw [isWritable, decide_eq_true_iff, decimalChars_eq]
  exact Nat.length_toDigits_le_iff (by decide) (by decide)

theorem lt_pow_maxDigits {n : Nat} (h : n < 100) : n < 10 ^ maxDigits := by
  have hpow : 10 ^ 2 ≤ 10 ^ maxDigits := Nat.pow_le_pow_right (by decide) (by decide)
  exact Nat.lt_of_lt_of_le h hpow

/-- Reading a literal undoes writing it. -/
theorem literalValue_decimal (n : Int) : literalValue (decimal n).toList = n := by
  have hvalue : decimalValue (Nat.toDigits 10 n.natAbs) = n.natAbs := Nat.ofDigitChars_ten_toDigits
  simp only [literalValue, splitSign_decimal, hvalue, decide_eq_true_eq]
  split <;> omega

theorem decimal_injective {m n : Int} (h : decimal m = decimal n) : m = n := by
  rw [← literalValue_decimal m, h, literalValue_decimal]

theorem decimal_ne_nil (n : Int) : (decimal n).toList ≠ [] := by
  rw [toList_decimal]
  simp

theorem isBlank_of_mem_decimal {n : Int} {c : Char} (h : c ∈ (decimal n).toList) :
    isBlank c = false := by
  rw [toList_decimal, List.mem_append] at h
  rcases h with h | h
  · have hc : c = '-' := by
      split at h
      · exact List.mem_singleton.mp h
      · cases h
    rw [hc]
    decide
  · have hdigit := isDigit_of_mem h
    simp only [Char.isDigit, Bool.and_eq_true, decide_eq_true_eq, UInt32.le_iff_toNat_le] at hdigit
    have hlo : 48 ≤ c.toNat := hdigit.1
    have hhi : c.toNat ≤ 57 := hdigit.2
    simp only [isBlank, Bool.or_eq_false_iff, Bool.and_eq_false_iff, decide_eq_false_iff_not,
      beq_eq_false_iff_ne]
    omega

end LuaBytecode.Text
