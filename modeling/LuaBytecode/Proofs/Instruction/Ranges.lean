import LuaBytecode.Proofs.Instruction.Assembling

/-! The check of ranges: it changes nothing but that operands which come as far as packing are refused
if one of them is out of the range of its field. -/
namespace LuaBytecode
open Outcome

private theorem Fault.message_operandOutOfRange {value : Int} (h : value.natAbs < 10 ^ Text.maxDigits)
    (field mnemonic : String) (lo hi : Int) :
    (operandOutOfRange field mnemonic (.int value) lo hi).message =
      s!"Operand {field} of '{mnemonic}' out of range: " ++ s!"{value} not in [{lo}, {hi}]" := by
  have hdecimal : Text.decimal = toString := funext Text.decimal_eq_toString
  rw [message_of_isWorded (isWorded_operandOutOfRange h ..), ← hdecimal]
  rfl

namespace Operation

/-- Some operand is out of the range of its field. -/
def HasMisfit (o : Operation) (values : List Int) : Prop :=
  ∃ pair ∈ o.fields.zip values, ¬ pair.1.InRange pair.2

instance (o : Operation) (values : List Int) : Decidable (o.HasMisfit values) :=
  inferInstanceAs (Decidable (∃ pair ∈ o.fields.zip values, ¬ pair.1.InRange pair.2))

private theorem hasMisfit_of_misfit? {o : Operation} {values : List Int} {pair : Field × Int}
    (h : misfit? o.fields values = some pair) : o.HasMisfit values := by
  refine ⟨pair, List.mem_of_find?_eq_some h, ?_⟩
  simpa using List.find?_some h

theorem encode_of_length_ne {o : Operation} {operands : List Datum}
    (h : operands.length ≠ o.fields.length) (strict : Bool) :
    o.encode strict operands =
      .error (.argumentCount o.mnemonic o.layout.name o.fields.length operands.length) := by
  rw [encode, if_pos h]
  rfl

/-- Operands come as far as packing if they are given for an operation of the table and there is one for
each field. -/
def Packs (op : Datum) (operands : List Int) (o : Operation) (values : List Int) : Prop :=
  ofDatum op = .ok o ∧ operands = values ∧ values.length = o.fields.length

end Operation

namespace Instruction

/-- The operands of a text come as far as packing if the text is read, its mnemonic names an operation of
the table, and the operands denote an integer for each field. -/
def Packs (text : String) (o : Operation) (values : List Int) : Prop :=
  ∃ source, Source.parse text = .ok source ∧
    Registry.standard.byMnemonic? source.mnemonic = some o ∧
    List.Forall₂ Source.Denotes source.operands values ∧ values.length = o.fields.length

theorem packs_iff {text : String} {o : Operation} {values : List Int} :
    Packs text o values ↔ named text = .ok (o, values) ∧ values.length = o.fields.length := by
  rw [named_eq_ok_iff]
  constructor
  · rintro ⟨source, hparse, ho, hvalues, hlen⟩
    exact ⟨⟨source, hparse, ho, hvalues⟩, hlen⟩
  · rintro ⟨⟨source, hparse, ho, hvalues⟩, hlen⟩
    exact ⟨source, hparse, ho, hvalues, hlen⟩

end Instruction

namespace Session
variable {α : Type}

/-- How a run with the check of ranges goes with the same run without it, where `packs` tells which
operands come as far as packing. -/
structure RangeFilter (packs : Operation → List Int → Prop) (checked unchecked : Except Fault α × Session) :
    Prop where
  /-- Unless packing is reached with an operand out of range, the check changes nothing. -/
  same : (¬ ∃ o values, packs o values ∧ o.HasMisfit values) → checked = unchecked
  /-- Where it is, the first such operand is refused, with its field, its value and the bounds. -/
  refused : ∀ o values, packs o values → o.HasMisfit values →
    ∃ f value fault, Operation.misfit? o.fields values = some (f, value) ∧
      checked.1 = .error fault ∧ fault.category = .operandRange ∧
      fault.message = s!"Operand {f.name} of '{o.mnemonic}' out of range: " ++
        s!"{value} not in [{f.range.1}, {f.range.2}]"
  /-- Nothing else is refused for its range. -/
  only : ∀ fault, checked.1 = .error fault → fault.category = .operandRange →
    ∃ o values, packs o values ∧ o.HasMisfit values

namespace RangeFilter
variable {packs : Operation → List Int → Prop} {checked unchecked : Except Fault α × Session}

theorem of_same (hpacks : ∀ o values, packs o values → ¬ o.HasMisfit values)
    (hcategory : ∀ fault, checked.1 = .error fault → fault.category ≠ .operandRange)
    (hsame : checked = unchecked) : RangeFilter packs checked unchecked := by
  refine ⟨fun _ => hsame, ?_, ?_⟩
  · intro o values ho hmisfit
    exact absurd hmisfit (hpacks o values ho)
  · intro fault hfault hrange
    exact absurd hrange (hcategory fault hfault)

private theorem of_misfit {o : Operation} {values : List Int} {f : Field} {value : Int}
    (hshort : ∀ value ∈ values, value.natAbs < 10 ^ Text.maxDigits) (hpacks : packs o values)
    (honly : ∀ o' values', packs o' values' → o = o' ∧ values = values')
    (hmisfit : Operation.misfit? o.fields values = some (f, value))
    (hchecked : checked.1 =
      .error (.operandOutOfRange f.name o.mnemonic (.int value) f.range.1 f.range.2)) :
    RangeFilter packs checked unchecked := by
  have hexists : ∃ o values, packs o values ∧ o.HasMisfit values :=
    ⟨o, values, hpacks, Operation.hasMisfit_of_misfit? hmisfit⟩
  refine ⟨fun hnone => absurd hexists hnone, ?_, fun _ _ _ => hexists⟩
  intro o' values' ho' _
  obtain ⟨rfl, rfl⟩ := honly o' values' ho'
  have hvalue := hshort value (Operation.mem_of_misfit? hmisfit)
  exact ⟨f, value, _, hmisfit, hchecked,
    Fault.category_of_isWorded (Fault.isWorded_operandOutOfRange hvalue ..),
    Fault.message_operandOutOfRange hvalue _ _ _ _⟩

/-- What fails before there is an operation with its operands does so without the check, too. -/
theorem of_error {fault : Fault} (hcategory : fault.category ≠ .operandRange)
    (hpacks : ∀ o values, ¬ packs o values) (s : Session) :
    RangeFilter packs ((.error fault, s) : Except Fault α × Session) (.error fault, s) := by
  refine of_same (fun o values ho => absurd ho (hpacks o values)) ?_ rfl
  intro fault' h
  cases h
  exact hcategory

/-- Operands that are encoded, followed by what never fails for a range. -/
theorem of_encode {o : Operation} {values : List Int} (ho : o ∈ Operation.all)
    (hshort : ∀ value ∈ values, value.natAbs < 10 ^ Text.maxDigits)
    (hpacks : ∀ o' values', packs o' values' ↔
      (o = o' ∧ values = values') ∧ values'.length = o'.fields.length)
    {k : Nat → Except Fault α × Session}
    (hk : ∀ word fault, word < Word.bound → (k word).1 = .error fault →
      fault.category ≠ .operandRange) (s : Session) :
    RangeFilter packs
      (match o.encode true (values.map .int) with
        | .ok word => k word
        | .error fault => (.error fault, s))
      (match o.encode false (values.map .int) with
        | .ok word => k word
        | .error fault => (.error fault, s)) := by
  have honly (o' : Operation) (values' : List Int) (ho' : packs o' values') : o = o' ∧ values = values' :=
    ((hpacks o' values').mp ho').1
  by_cases hlen : values.length = o.fields.length
  · have hself : packs o values := (hpacks o values).mpr ⟨⟨rfl, rfl⟩, hlen⟩
    cases hmisfit : Operation.misfit? o.fields values with
    | some pair =>
      refine of_misfit hshort hself honly hmisfit ?_
      rw [Operation.encode_int true hlen, Operation.ifFits_misfit hmisfit]
    | none =>
      have hranges := Operation.misfit?_eq_none_iff.mp hmisfit
      have hword (strict : Bool) :=
        (@Operation.encode_int_eq_ok_iff o strict values _ hlen).mpr ⟨rfl, fun _ => hranges⟩
      rw [hword, hword]
      refine of_same ?_ ?_ rfl
      · rintro o' values' ho' ⟨pair, hpair, hrange⟩
        obtain ⟨rfl, rfl⟩ := honly o' values' ho'
        exact hrange (hranges pair hpair)
      · intro fault hfault
        exact hk _ fault (Operation.pack_lt ho hlen) hfault
  · have hcount : (values.map Datum.int).length ≠ o.fields.length := by rwa [List.length_map]
    rw [Operation.encode_of_length_ne hcount, Operation.encode_of_length_ne hcount]
    refine of_error ?_ ?_ s
    · show Category.argumentCount ≠ .operandRange
      decide
    · intro o' values' ho'
      obtain ⟨⟨rfl, rfl⟩, hlen'⟩ := (hpacks o' values').mp ho'
      exact hlen hlen'

end RangeFilter

private theorem rangeFilter_assemble {t t' : Settings} (hon : t.strictOperands = true)
    (hoff : t'.strictOperands = false) (hreference : t.referenceChunk = t'.referenceChunk)
    (text : String) (s : Session) :
    RangeFilter (Instruction.Packs text) (run (assemble text) t s) (run (assemble text) t' s) := by
  have hbytes (word : Nat) := run_withBytes_congr hreference word s
  simp only [run_assemble, hon, hoff, hbytes, Instruction.assemble_eq_named]
  cases hnamed : Instruction.named text with
  | error fault =>
    refine RangeFilter.of_error (Instruction.category_of_named hnamed) ?_ s
    intro o values ho
    rw [Instruction.packs_iff, hnamed] at ho
    cases ho.1
  | ok pair =>
    obtain ⟨o, values⟩ := pair
    obtain ⟨source, _, ho, hvalues⟩ := Instruction.named_eq_ok_iff.mp hnamed
    refine RangeFilter.of_encode (Operation.byMnemonic?_eq_some ho).1
      (Source.natAbs_lt_of_denotes hvalues) ?_ ?_ s
    · intro o' values'
      rw [Instruction.packs_iff, hnamed, Except.ok.injEq, Prod.mk.injEq]
    · intro word fault hword hfault
      rw [category_of_run_withBytes hword hfault]
      decide

private theorem rangeFilter_encode {t t' : Settings} (hon : t.strictOperands = true)
    (hoff : t'.strictOperands = false) (op : Datum) {operands : List Int}
    (hshort : ∀ value ∈ operands, value.natAbs < 10 ^ Text.maxDigits) (s : Session) :
    RangeFilter (Operation.Packs op operands) (run (encode op (operands.map .int)) t s)
      (run (encode op (operands.map .int)) t' s) := by
  have hrun {t : Settings} {o : Operation} (ho : Operation.ofDatum op = .ok o) :
      run (encode op (operands.map .int)) t s =
        match o.encode t.strictOperands (operands.map .int) with
        | .ok word => (.ok word, s)
        | .error fault => (.error fault, s) := by
    rw [run_encode ho]
    cases o.encode t.strictOperands (operands.map .int) <;> rfl
  cases hop : Operation.ofDatum op with
  | error fault =>
    rw [run_encode_eq, run_encode_eq, hop]
    refine RangeFilter.of_error (Operation.category_of_ofDatum hop) ?_ s
    intro o values ho
    rw [Operation.Packs, hop] at ho
    cases ho.1
  | ok o =>
    rw [hrun hop, hrun hop, hon, hoff]
    refine RangeFilter.of_encode (Operation.mem_all_of_ofDatum hop) hshort ?_ ?_ s
    · intro o' values'
      rw [Operation.Packs, hop, Except.ok.injEq, and_assoc]
    · intro word fault _ hfault
      cases hfault

/-- The check of ranges filters the operands that come as far as packing, and does nothing else: with a
text, and with an operation by number or by name and any integers that can be written. -/
theorem range_check_filters (e : Environment) {on off : Option String} (hon : Settings.flag on = true)
    (hoff : Settings.flag off = false) (s : Session) :
    (∀ text, RangeFilter (Instruction.Packs text)
      (run (assemble text) { e with strictOperands := on }.settings s)
      (run (assemble text) { e with strictOperands := off }.settings s)) ∧
    ∀ (op : Datum) (operands : List Int), (∀ value ∈ operands, value.natAbs < 10 ^ Text.maxDigits) →
      RangeFilter (Operation.Packs op operands)
        (run (encode op (operands.map .int)) { e with strictOperands := on }.settings s)
        (run (encode op (operands.map .int)) { e with strictOperands := off }.settings s) := by
  have hstrict : { e with strictOperands := on }.settings.strictOperands = true := hon
  have hlenient : { e with strictOperands := off }.settings.strictOperands = false := hoff
  constructor
  · intro text
    exact rangeFilter_assemble hstrict hlenient rfl text s
  · intro op operands hshort
    exact rangeFilter_encode hstrict hlenient op hshort s

/-- Where both operands are out of range the first is named, where one is, that one, and operands in
range are assembled as without the check. -/
theorem range_check_filters_move :
    (∃ fault, (run (assemble "move 256 -300") (Environment.mk none "1" none).settings {}).1 = .error fault ∧
      fault.category = .operandRange ∧
      fault.message = "Operand A of 'MOVE' out of range: 256 not in [0, 255]") ∧
    (∃ fault, (run (encode (.int 0) [.int 1, .int 300]) (Environment.mk none "1" none).settings {}).1 =
        .error fault ∧
      fault.category = .operandRange ∧
      fault.message = "Operand B of 'MOVE' out of range: 300 not in [-255, 255]") ∧
    run (assemble "move 255 -255") (Environment.mk none "1" none).settings {} =
      run (assemble "move 255 -255") (Environment.mk none none none).settings {} := by
  obtain ⟨htexts, hoperands⟩ := @range_check_filters {} (some "1") none (by decide +kernel) rfl {}
  refine ⟨?_, ?_, ?_⟩
  · have hnamed : Instruction.named "move 256 -300" = .ok (⟨0, "MOVE", .ab⟩, [256, -300]) := by
      decide +kernel
    have hmisfit : Operation.misfit? [.a, .b] [256, -300] = some (.a, 256) := by decide
    obtain ⟨f, value, fault, hfirst, hfault⟩ :=
      (htexts _).refused _ _ (Instruction.packs_iff.mpr ⟨hnamed, rfl⟩) (by decide)
    obtain ⟨rfl, rfl⟩ := Prod.mk.inj (Option.some.inj (hmisfit.symm.trans hfirst))
    exact ⟨fault, hfault⟩
  · have hdigits : 300 < 10 ^ Text.maxDigits :=
      Nat.lt_of_lt_of_le (by decide) (Nat.pow_le_pow_right (by decide) (show 3 ≤ _ by decide))
    have hsmall : ∀ value ∈ [(1 : Int), 300], value.natAbs ≤ 300 := by decide
    have hmisfit : Operation.misfit? [.a, .b] [1, 300] = some (.b, 300) := by decide
    obtain ⟨f, value, fault, hfirst, hfault⟩ := (hoperands (.int 0) [1, 300]
      fun value hvalue => Nat.lt_of_le_of_lt (hsmall value hvalue) hdigits).refused
        ⟨0, "MOVE", .ab⟩ _ ⟨by decide +kernel, rfl, rfl⟩ (by decide)
    obtain ⟨rfl, rfl⟩ := Prod.mk.inj (Option.some.inj (hmisfit.symm.trans hfirst))
    exact ⟨fault, hfault⟩
  · have hnamed : Instruction.named "move 255 -255" = .ok (⟨0, "MOVE", .ab⟩, [255, -255]) := by
      decide +kernel
    refine (htexts _).same ?_
    rintro ⟨o, values, hpacks, hmisfit⟩
    rw [Instruction.packs_iff, hnamed] at hpacks
    obtain ⟨⟨rfl, rfl⟩, _⟩ := hpacks
    exact absurd hmisfit (by decide)

end Session
end LuaBytecode
