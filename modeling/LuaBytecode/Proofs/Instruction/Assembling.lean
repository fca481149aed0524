import LuaBytecode.Proofs.Fault
import LuaBytecode.Proofs.Instruction.Encoding
import LuaBytecode.Proofs.Instruction.Source

/-! Assembling in two stages: a text names an operation and integers, and these are encoded. How the
text is spelt matters only to the first stage, and the check of ranges only to the second. -/
namespace LuaBytecode
open Outcome

namespace Source

private theorem category_of_parse {text : String} {fault : Fault} (h : parse text = .error fault) :
    fault.category = .malformed := by
  rcases parse_cases text with ⟨source, hsource⟩ | hmalformed
  · rw [hsource] at h
    cases h
  · rw [hmalformed] at h
    cases h
    rfl

/-- An operand that has no value is no literal or too long a one. -/
theorem category_of_operandValue {token : String} {fault : Fault}
    (h : operandValue token = .error fault) :
    fault.category = .nonNumeric ∨ fault.category = .value := by
  rw [operandValue] at h
  split at h
  · cases h
    exact .inl rfl
  split at h
  · cases h
    exact .inr rfl
  · cases h

private theorem category_of_operandValues {tokens : List String} {fault : Fault}
    (h : operandValues tokens = .error fault) :
    fault.category = .nonNumeric ∨ fault.category = .value := by
  induction tokens with
  | nil => cases h
  | cons token tokens ih =>
    rcases bind_eq_error_iff.mp h with hfirst | ⟨value, _, h⟩
    · exact category_of_operandValue hfirst
    rcases bind_eq_error_iff.mp h with hrest | ⟨values, _, h⟩
    · exact ih hrest
    · cases h

end Source

namespace Operation

theorem category_of_ofMnemonic {name : String} {fault : Fault} (h : ofMnemonic name = .error fault) :
    fault.category = .unknownMnemonic := by
  rw [ofMnemonic] at h
  split at h
  · cases h
  · cases h
    rfl

/-- A key that is no opcode is reported as such, unless it has a number with too many digits. -/
theorem category_unknown (key : Datum) :
    (unknown key).category = .unknownOpcode ∨ (unknown key).category = .value := by
  rw [unknown.eq_def]
  split
  · exact Fault.category_cases _
  · exact .inl rfl
  · split
    · exact .inl rfl
    · exact .inr rfl

/-- What names no operation is no fault of its operands. -/
theorem category_of_ofDatum {datum : Datum} {fault : Fault} (h : ofDatum datum = .error fault) :
    fault.category ≠ .operandRange := by
  rw [ofDatum.eq_def] at h
  split at h
  · rw [category_of_ofMnemonic h]
    decide
  · rcases bind_eq_error_iff.mp h with hlookup | ⟨found, _, h⟩
    · rw [Registry.lookup] at hlookup
      split at hlookup
      · cases hlookup
      · cases hlookup
        decide
    · cases found with
      | some o => cases h
      | none =>
        cases h
        rcases category_unknown datum with hcategory | hcategory <;> rw [hcategory] <;> decide

/-- Mnemonics with the same upper case name the same operation. -/
theorem byMnemonic?_congr {name name' : String} (h : Text.upper name = Text.upper name') :
    Registry.standard.byMnemonic? name = Registry.standard.byMnemonic? name' := by
  rw [Registry.byMnemonic?, Registry.byMnemonic?, h]

end Operation

namespace Instruction

/-- The operation and the integers that a text names. -/
def named (text : String) : Except Fault (Operation × List Int) := do
  let source ← Source.parse text
  let operation ← Operation.ofMnemonic source.mnemonic
  let values ← Source.operandValues source.operands
  return (operation, values)

theorem assemble_eq_named (strict : Bool) (text : String) :
    assemble strict text = named text >>= fun (o, values) => o.encode strict (values.map .int) := by
  simp only [assemble, named, bind_assoc, pure_bind]

theorem named_eq_ok_iff {text : String} {o : Operation} {values : List Int} :
    named text = .ok (o, values) ↔
      ∃ source, Source.parse text = .ok source ∧
        Registry.standard.byMnemonic? source.mnemonic = some o ∧
        List.Forall₂ Source.Denotes source.operands values := by
  constructor
  · intro h
    obtain ⟨source, hparse, h⟩ := bind_eq_ok_iff.mp h
    obtain ⟨o', ho, h⟩ := bind_eq_ok_iff.mp h
    obtain ⟨values', hvalues, h⟩ := bind_eq_ok_iff.mp h
    cases h
    exact ⟨source, hparse, Operation.ofMnemonic_eq_ok_iff.mp ho,
      Source.operandValues_eq_ok_iff.mp hvalues⟩
  · rintro ⟨source, hparse, ho, hvalues⟩
    rw [named, hparse, ok_bind, Operation.ofMnemonic_eq_ok_iff.mpr ho, ok_bind,
      Source.operandValues_eq_ok_iff.mpr hvalues]
    rfl

theorem category_of_named {text : String} {fault : Fault} (h : named text = .error fault) :
    fault.category ≠ .operandRange := by
  rcases bind_eq_error_iff.mp h with hparse | ⟨source, _, h⟩
  · rw [Source.category_of_parse hparse]
    decide
  rcases bind_eq_error_iff.mp h with ho | ⟨o, _, h⟩
  · rw [Operation.category_of_ofMnemonic ho]
    decide
  rcases bind_eq_error_iff.mp h with hvalues | ⟨values, _, h⟩
  · rcases Source.category_of_operandValues hvalues with hcategory | hcategory <;>
      rw [hcategory] <;> decide
  · cases h

end Instruction

namespace Session
variable {t : Settings} {s : Session}

/-! Spelling. -/

/-- A text spells an operation and integers: its mnemonic has the upper case of the name, and its
operands denote the integers. -/
def Spells (text name : String) (values : List Int) : Prop :=
  ∃ source, Source.parse text = .ok source ∧ Text.upper source.mnemonic = Text.upper name ∧
    List.Forall₂ Source.Denotes source.operands values

/-- Of a text that spells an operation of the table only the operation and the integers matter. -/
theorem run_assemble_of_spells {text name : String} {values : List Int} (h : Spells text name values)
    (hname : Registry.standard.contains (.text name) = true) (t : Settings) (s : Session) :
    run (assemble text) t s = run (encode (.text name) (values.map .int) >>= withBytes) t s := by
  obtain ⟨source, hparse, hupper, hvalues⟩ := h
  obtain ⟨o, ho⟩ := Operation.ofDatum_of_contains hname
  have hfind : Registry.standard.byMnemonic? source.mnemonic = some o := by
    rw [Operation.byMnemonic?_congr hupper]
    exact Operation.ofMnemonic_eq_ok_iff.mp ho
  have hnamed := Instruction.named_eq_ok_iff.mpr ⟨source, hparse, hfind, hvalues⟩
  rw [run_assemble, Instruction.assemble_eq_named, hnamed, ok_bind, run_bind, run_encode ho]
  dsimp only
  cases o.encode t.strictOperands (values.map .int) <;> rfl

/-- Texts that spell the same operation of the table and the same integers are assembled alike, to the
same word and bytes or with the same fault, and as the operation is encoded with the integers. -/
theorem assemble_spellings {text text' name : String} {values : List Int}
    (h : Spells text name values) (h' : Spells text' name values)
    (hname : Registry.standard.contains (.text name) = true) (t : Settings) (s : Session) :
    run (assemble text) t s = run (assemble text') t s ∧
    run (assemble text) t s = run (encode (.text name) (values.map .int) >>= withBytes) t s := by
  have hrun := run_assemble_of_spells h hname t s
  have hrun' := run_assemble_of_spells h' hname t s
  exact ⟨hrun.trans hrun'.symm, hrun⟩

/-- Two texts of one instruction, the first with a ligature that has the upper case of two letters, are
assembled alike with a missing operand, too. -/
theorem assemble_spellings_ligature :
    run (assemble "TE\ufb06\t+007 -0") ⟨false, false, none⟩ {} =
      run (assemble "  test 7   0") ⟨false, false, none⟩ {} ∧
    run (assemble "TE\ufb06\t+007") ⟨false, false, none⟩ {} =
      (.error (.argumentCount "TEST" "iAC" 2 1), {}) := by
  have hspells {text mnemonic : String} {operands : List String} {values : List Int}
      (hparse : Source.parse text = .ok ⟨mnemonic, operands⟩)
      (hupper : Text.upper mnemonic = Text.upper "test")
      (hvalues : Source.operandValues operands = .ok values) : Spells text "test" values :=
    ⟨_, hparse, hupper, Source.operandValues_eq_ok_iff.mp hvalues⟩
  have hname : Registry.standard.contains (.text "test") = true := by decide +kernel
  have hligature : Text.upper "TE\ufb06" = Text.upper "test" := by decide +kernel
  constructor
  · have h : Spells "TE\ufb06\t+007 -0" "test" [7, 0] :=
      @hspells _ "TE\ufb06" ["+007", "-0"] _ (by decide +kernel) hligature (by decide +kernel)
    have h' : Spells "  test 7   0" "test" [7, 0] :=
      @hspells _ "test" ["7", "0"] _ (by decide +kernel) rfl (by decide +kernel)
    exact (assemble_spellings h h' hname _ _).1
  · have h : Spells "TE\ufb06\t+007" "test" [7] :=
      @hspells _ "TE\ufb06" ["+007"] _ (by decide +kernel) hligature (by decide +kernel)
    rw [(assemble_spellings h h hname _ _).2]
    decide +kernel

end Session
end LuaBytecode
