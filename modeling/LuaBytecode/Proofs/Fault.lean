import LuaBytecode.Fault
import LuaBytecode.Proofs.Text.Numeral

/-! Putting faults into words: a fault keeps its own category and wording exactly if every number in it
can be written, and else it is a fault about a value. -/
namespace LuaBytecode.Fault
variable {fault : Fault}

theorem isWorded_iff : fault.isWorded = true ↔ ∀ n ∈ fault.numerals, n.natAbs < 10 ^ Text.maxDigits := by
  simp only [isWorded, List.all_eq_true, Text.isWritable_iff]

theorem category_of_isWorded (h : fault.isWorded = true) : fault.category = fault.wordedCategory :=
  if_pos h

theorem message_of_isWorded (h : fault.isWorded = true) : fault.message = fault.wording := if_pos h

theorem category_of_not_isWorded (h : ¬ fault.isWorded = true) : fault.category = .value := if_neg h

/-- The category of a fault is its own or that of the number that cannot be written. -/
theorem category_cases (fault : Fault) :
    fault.category = fault.wordedCategory ∨ fault.category = .value := by
  by_cases h : fault.isWorded = true
  · exact .inl (category_of_isWorded h)
  · exact .inr (category_of_not_isWorded h)

theorem isWorded_operandOutOfRange {value : Int} (h : value.natAbs < 10 ^ Text.maxDigits)
    (field mnemonic : String) (lo hi : Int) :
    (operandOutOfRange field mnemonic (.int value) lo hi).isWorded = true :=
  isWorded_iff.mpr (List.forall_mem_singleton.mpr h)

/-- The opcode of a word is short enough. -/
theorem isWorded_unknownOpcode (word : Nat) :
    (unknownOpcode (some (word % 64 : Nat))).isWorded = true := by
  refine isWorded_iff.mpr (List.forall_mem_singleton.mpr (Text.lt_pow_maxDigits ?_))
  omega

theorem isWorded_numberBeyondBuffer_iff {width offset : Int} {size : Nat}
    (h : offset < 0 ∨ size < offset) :
    (numberBeyondBuffer width offset size).isWorded = true ↔
      width.natAbs < 10 ^ Text.maxDigits ∧ offset.natAbs < 10 ^ Text.maxDigits := by
  rw [isWorded_iff, numerals, if_neg (by omega), List.forall_mem_cons, List.forall_mem_singleton]

theorem isWorded_numberBeyondBuffer {width offset : Int} {size : Nat}
    (hwidth : width.natAbs < 10 ^ Text.maxDigits) (hstart : 0 ≤ offset) (hend : offset ≤ size) :
    (numberBeyondBuffer width offset size).isWorded = true := by
  rw [isWorded_iff, numerals, if_pos ⟨hstart, hend⟩]
  exact List.forall_mem_singleton.mpr hwidth

theorem isWorded_tooManyWords {limit : Int} (h : 0 ≤ limit) (count : Nat) :
    (tooManyWords count limit).isWorded = true := by
  rw [isWorded_iff, numerals, if_pos h]
  simp

end LuaBytecode.Fault
