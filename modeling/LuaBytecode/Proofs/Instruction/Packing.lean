import LuaBytecode.Instruction
import LuaBytecode.Proofs.Field
import LuaBytecode.Proofs.Outcome

/-! Packing operands into a word: fields that share no bits do not disturb one another, so that each
operand is read back from the whole word as from its own field alone. -/
namespace LuaBytecode

namespace Layout

theorem fields_pairwise (layout : Layout) :
    layout.fields.Pairwise fun f g => f.mask &&& g.mask = 0 := by
  cases layout <;> decide

theorem op_and_mask (layout : Layout) : ∀ f ∈ layout.fields, Field.op.mask &&& f.mask = 0 := by
  cases layout <;> decide

theorem bits_pos (layout : Layout) : ∀ f ∈ layout.fields, 0 < f.bits := by
  cases layout <;> decide

theorem bits_le (layout : Layout) : ∀ f ∈ layout.fields, f.bits ≤ 26 := by
  cases layout <;> decide

theorem fields_ne_nil (layout : Layout) : layout.fields ≠ [] := by
  cases layout <;> decide

end Layout

namespace Operation
open Outcome

/-- Adds values in their fields to a word. -/
def join (word : Nat) (fields : List Field) (values : List Int) : Nat :=
  (fields.zip values).foldl (fun word (f, value) => word ||| f.place value) word

theorem pack_eq_join (opcode : Nat) (fields : List Field) (values : List Int) :
    pack opcode fields values = join (Field.op.place opcode) fields values := rfl

theorem join_cons (word : Nat) (f : Field) (fields : List Field) (value : Int) (values : List Int) :
    join word (f :: fields) (value :: values) = join (word ||| f.place value) fields values := rfl

/-- The bits of a word that the fields take, besides those already taken. -/
def span (taken : Nat) (fields : List Field) : Nat :=
  fields.foldl (fun taken f => taken ||| f.mask) taken

/-- The bits of a word that the opcode and the operands take. -/
def mask (o : Operation) : Nat := span Field.op.mask o.fields

/-- Bits that no field takes are left as they are. -/
theorem join_and_of_disjoint {fields : List Field} {values : List Int} {word bits : Nat}
    (h : ∀ f ∈ fields, f.mask &&& bits = 0) : join word fields values &&& bits = word &&& bits := by
  induction fields generalizing values word with
  | nil => rfl
  | cons f fields ih =>
    rw [List.forall_mem_cons] at h
    cases values with
    | nil => rfl
    | cons value values =>
      have hf : f.place value &&& bits = 0 := by
        rw [← f.place_and_mask, Nat.and_assoc, h.1, Nat.and_zero]
      rw [join_cons, ih h.2, Nat.and_or_distrib_right, hf, Nat.or_zero]

/-- From fields that share no bits, each value is read as if it stood alone. -/
theorem map_read_join {fields : List Field} {values : List Int} {word : Nat}
    (hlen : values.length = fields.length)
    (hfields : fields.Pairwise fun f g => f.mask &&& g.mask = 0)
    (hword : ∀ f ∈ fields, word &&& f.mask = 0) :
    fields.map (fun f => f.read (join word fields values)) =
      List.zipWith (fun f value => f.read (f.place value)) fields values := by
  induction fields generalizing values word with
  | nil => rfl
  | cons f fields ih =>
    cases values with
    | nil => cases hlen
    | cons value values =>
      rw [List.pairwise_cons] at hfields
      rw [List.forall_mem_cons] at hword
      have hhead : join (word ||| f.place value) fields values &&& f.mask =
          f.place value &&& f.mask := by
        have hdisjoint : ∀ g ∈ fields, g.mask &&& f.mask = 0 := by
          intro g hg
          rw [Nat.and_comm]
          exact hfields.1 g hg
        rw [join_and_of_disjoint hdisjoint, Nat.and_or_distrib_right, hword.1, Nat.zero_or]
      have htail : ∀ g ∈ fields, (word ||| f.place value) &&& g.mask = 0 := by
        intro g hg
        rw [Nat.and_or_distrib_right, hword.2 g hg, Nat.zero_or, ← f.place_and_mask, Nat.and_assoc,
          hfields.1 g hg, Nat.and_zero]
      rw [List.map_cons, List.zipWith_cons_cons, join_cons, Field.read_eq_of_and_mask hhead,
        ih (Nat.succ.inj hlen) hfields.2 htail]

/-- What is read from fields and put back is the word without the bits that no field takes. -/
theorem join_read (fields : List Field) (word taken : Nat) :
    join (word &&& taken) fields (fields.map (·.read word)) = word &&& span taken fields := by
  induction fields generalizing taken with
  | nil => rfl
  | cons f fields ih =>
    rw [List.map_cons, join_cons, Field.place_read, ← Nat.and_or_distrib_left, ih]
    rfl

private theorem or_and_or {w p t m : Nat} (hw : w &&& t = w) (hp : p &&& m = p) :
    (w ||| p) &&& (t ||| m) = w ||| p := by
  apply Nat.eq_of_testBit_eq
  intro i
  have hwi := congrArg (·.testBit i) hw
  have hpi := congrArg (·.testBit i) hp
  simp only [Nat.testBit_and, Nat.testBit_or] at hwi hpi ⊢
  grind

/-- Nothing is written outside the fields. -/
theorem join_and_span {fields : List Field} {values : List Int} {word taken : Nat}
    (hlen : values.length = fields.length) (h : word &&& taken = word) :
    join word fields values &&& span taken fields = join word fields values := by
  induction fields generalizing values word taken with
  | nil => exact h
  | cons f fields ih =>
    cases values with
    | nil => cases hlen
    | cons value values => exact ih (Nat.succ.inj hlen) (or_and_or h (f.place_and_mask value))

private theorem pack_read {o : Operation} {word : Nat} (h : o.opcode = word % 64) :
    pack o.opcode o.fields (o.fields.map (·.read word)) = word &&& o.mask := by
  rw [pack_eq_join, h, ← Field.read_op, Field.place_read, join_read]
  rfl

theorem pack_and_mask {o : Operation} {values : List Int} (hlen : values.length = o.fields.length) :
    pack o.opcode o.fields values &&& o.mask = pack o.opcode o.fields values :=
  join_and_span hlen (Field.op.place_and_mask o.opcode)

/-- The operands of a packed word are what each field gives back of its own value. -/
theorem map_read_pack {o : Operation} {values : List Int} (hlen : values.length = o.fields.length) :
    o.fields.map (fun f => f.read (pack o.opcode o.fields values)) =
      List.zipWith (fun f value => f.read (f.place value)) o.fields values := by
  rw [pack_eq_join]
  refine map_read_join hlen o.layout.fields_pairwise ?_
  intro f hf
  rw [← Field.op.place_and_mask, Nat.and_assoc, o.layout.op_and_mask f hf, Nat.and_zero]

/-- All operands survive packing exactly if each field represents its own. -/
theorem zipWith_read_place_eq_iff {fields : List Field} {values : List Int}
    (hlen : values.length = fields.length) (hbits : ∀ f ∈ fields, 0 < f.bits) :
    List.zipWith (fun f value => f.read (f.place value)) fields values = values ↔
      ∀ pair ∈ fields.zip values, pair.1.Represents pair.2 := by
  induction fields generalizing values with
  | nil =>
    rw [List.length_eq_zero_iff.mp hlen]
    simp
  | cons f fields ih =>
    cases values with
    | nil => cases hlen
    | cons value values =>
      rw [List.forall_mem_cons] at hbits
      rw [List.zipWith_cons_cons, List.cons.injEq, List.zip_cons_cons, List.forall_mem_cons,
        Field.read_place_iff hbits.1, ih (Nat.succ.inj hlen) hbits.2]

/-! Operands that are checked against the ranges of their fields. -/

/-- The first operand that is out of the range of its field, with the field. -/
def misfit? (fields : List Field) (values : List Int) : Option (Field × Int) :=
  (fields.zip values).find? fun (f, value) => !decide (f.InRange value)

theorem misfit?_eq_none_iff {fields : List Field} {values : List Int} :
    misfit? fields values = none ↔ ∀ pair ∈ fields.zip values, pair.1.InRange pair.2 := by
  simp [misfit?]

theorem mem_of_misfit? {fields : List Field} {values : List Int} {f : Field} {value : Int}
    (h : misfit? fields values = some (f, value)) : value ∈ values :=
  (List.of_mem_zip (List.mem_of_find?_eq_some h)).2

theorem checkRange_int (mnemonic : String) (f : Field) (value : Int) :
    checkRange mnemonic f (.int value) =
      if f.InRange value then .ok ()
      else .error (.operandOutOfRange f.name mnemonic (.int value) f.range.1 f.range.2) := by
  have hbetween : (Datum.Quantity.int value).isBetween f.range.1 f.range.2 = true ↔ f.InRange value := by
    simp [Datum.Quantity.isBetween, Datum.Quantity.near, Field.InRange]
  by_cases h : f.InRange value
  · rw [if_pos h]
    exact if_pos (hbetween.mpr h)
  · rw [if_neg h]
    exact if_neg (mt hbetween.mp h)

/-- A result that stands if operands fit: where ranges are checked, the first misfit is a fault. -/
def ifFits {α : Type} (strict : Bool) (mnemonic : String) (fields : List Field) (values : List Int)
    (result : α) : Except Fault α :=
  match if strict then misfit? fields values else none with
  | some (f, value) => .error (.operandOutOfRange f.name mnemonic (.int value) f.range.1 f.range.2)
  | none => .ok result

theorem ifFits_eq_ok_iff {α : Type} {strict : Bool} {mnemonic : String} {fields : List Field}
    {values : List Int} {result result' : α} :
    ifFits strict mnemonic fields values result = .ok result' ↔
      result = result' ∧ (strict = true → misfit? fields values = none) := by
  rw [ifFits]
  cases strict with
  | false => simp
  | true => cases misfit? fields values <;> simp

theorem ifFits_misfit {α : Type} {mnemonic : String} {fields : List Field} {values : List Int}
    {f : Field} {value : Int} (h : misfit? fields values = some (f, value)) (result : α) :
    ifFits true mnemonic fields values result =
      .error (.operandOutOfRange f.name mnemonic (.int value) f.range.1 f.range.2) := by
  rw [ifFits, if_pos rfl, h]

/-- Integers are taken as they are if they fit. -/
theorem operandValues_int (strict : Bool) (mnemonic : String) {fields : List Field}
    {values : List Int} (hlen : values.length = fields.length) :
    operandValues strict mnemonic fields (values.map .int) =
      ifFits strict mnemonic fields values values := by
  induction fields generalizing values with
  | nil =>
    rw [List.length_eq_zero_iff.mp hlen]
    cases strict <;> rfl
  | cons f fields ih =>
    cases values with
    | nil => cases hlen
    | cons value values =>
      have ih := ih (Nat.succ.inj hlen)
      rw [ifFits] at ih ⊢
      cases strict with
      | false =>
        simp only [Bool.false_eq_true, if_false] at ih ⊢
        simp only [List.map_cons, operandValues, Datum.number?, Bool.false_eq_true, if_false, ih]
        rfl
      | true =>
        simp only [if_true] at ih ⊢
        by_cases hvalue : f.InRange value
        · have htail : misfit? (f :: fields) (value :: values) = misfit? fields values := by
            simp [misfit?, hvalue]
          simp only [List.map_cons, operandValues, Datum.number?, if_true, checkRange_int, hvalue,
            ih, htail]
          cases misfit? fields values <;> rfl
        · have hhead : misfit? (f :: fields) (value :: values) = some (f, value) := by
            simp [misfit?, hvalue]
          simp only [List.map_cons, operandValues, Datum.number?, if_true, checkRange_int, hvalue,
            if_false, hhead]
          rfl

theorem encode_int {o : Operation} (strict : Bool) {values : List Int}
    (hlen : values.length = o.fields.length) :
    o.encode strict (values.map .int) =
      ifFits strict o.mnemonic o.fields values (pack o.opcode o.fields values) := by
  rw [encode, if_neg (by simpa using hlen)]
  simp only [operandValues_int strict o.mnemonic hlen, ifFits]
  split <;> rfl

/-- What is read from a word is encoded to the word without its unused bits. -/
theorem encode_read {o : Operation} {word : Nat} (h : o.opcode = word % 64) (strict : Bool) :
    o.encode strict ((o.fields.map (·.read word)).map .int) =
      ifFits strict o.mnemonic o.fields (o.fields.map (·.read word)) (word &&& o.mask) := by
  rw [encode_int strict (List.length_map ..), pack_read h]

/-- What is read from a word fits, unless a biased field has all bits set. -/
theorem misfit?_read_eq_none_iff (o : Operation) (word : Nat) :
    misfit? o.fields (o.fields.map (·.read word)) = none ↔
      ¬ ∃ f ∈ o.fields, f.coding = .biased ∧ word &&& f.mask = f.mask := by
  rw [misfit?_eq_none_iff, ← List.map_prod_left_eq_zip]
  constructor
  · rintro h ⟨f, hf, hones⟩
    have hrange := h (f, f.read word) (List.mem_map_of_mem hf)
    exact (Field.inRange_read_iff (o.layout.bits_pos f hf) word).mp hrange hones
  · intro h pair hpair
    obtain ⟨f, hf, rfl⟩ := List.mem_map.mp hpair
    exact (Field.inRange_read_iff (o.layout.bits_pos f hf) word).mpr fun hones => h ⟨f, hf, hones⟩

theorem encode_int_eq_ok_iff {o : Operation} {strict : Bool} {values : List Int} {word : Nat}
    (hlen : values.length = o.fields.length) :
    o.encode strict (values.map .int) = .ok word ↔
      pack o.opcode o.fields values = word ∧
        (strict = true → ∀ pair ∈ o.fields.zip values, pair.1.InRange pair.2) := by
  rw [encode_int strict hlen, ifFits_eq_ok_iff, misfit?_eq_none_iff]

theorem length_of_encode_eq_ok {o : Operation} {strict : Bool} {operands : List Datum} {word : Nat}
    (h : o.encode strict operands = .ok word) : operands.length = o.fields.length := by
  by_contra hlen
  rw [encode, if_pos hlen] at h
  cases h

/-! The operations of the table. -/

theorem opcode_le {o : Operation} (ho : o ∈ all) : o.opcode ≤ Registry.maxOpcode := by
  revert o
  decide

theorem mask_lt {o : Operation} (ho : o ∈ all) : o.mask < Word.bound := by
  revert o
  decide

theorem pack_lt {o : Operation} (ho : o ∈ all) {values : List Int}
    (hlen : values.length = o.fields.length) : pack o.opcode o.fields values < Word.bound := by
  rw [← pack_and_mask hlen]
  exact Nat.lt_of_le_of_lt Nat.and_le_right (mask_lt ho)

theorem byOpcode?_eq_some_iff {n : Nat} {o : Operation} :
    Registry.standard.byOpcode? n = some o ↔ o ∈ all ∧ o.opcode = n := by
  constructor
  · intro h
    have hopcode := List.find?_some h
    rw [beq_iff_eq, Nat.cast_inj] at hopcode
    exact ⟨List.mem_of_find?_eq_some h, hopcode⟩
  · rintro ⟨ho, rfl⟩
    revert o
    decide

theorem byMnemonic?_eq_some {name : String} {o : Operation}
    (h : Registry.standard.byMnemonic? name = some o) : o ∈ all ∧ o.mnemonic = Text.upper name := by
  have hname := List.find?_some h
  exact ⟨List.mem_of_find?_eq_some h, beq_iff_eq.mp hname⟩

theorem ofMnemonic_eq_ok_iff {name : String} {o : Operation} :
    ofMnemonic name = .ok o ↔ Registry.standard.byMnemonic? name = some o := by
  rw [ofMnemonic]
  cases Registry.standard.byMnemonic? name <;> simp

theorem byMnemonic?_mnemonic {o : Operation} (ho : o ∈ all) :
    Registry.standard.byMnemonic? o.mnemonic = some o := by
  revert o
  decide +kernel

/-- Every mnemonic can stand as a token. -/
theorem mnemonic_chars {o : Operation} (ho : o ∈ all) :
    o.mnemonic.toList ≠ [] ∧ ∀ c ∈ o.mnemonic.toList, Text.isBlank c = false := by
  have htable : ∀ o ∈ all,
      o.mnemonic.toList ≠ [] ∧ o.mnemonic.toList.any Text.isBlank = false := by
    decide +kernel
  obtain ⟨hne, hany⟩ := htable o ho
  rw [List.any_eq_false] at hany
  exact ⟨hne, fun c hc => Bool.eq_false_iff.mpr (hany c hc)⟩

theorem pack_mod {o : Operation} (ho : o ∈ all) (values : List Int) :
    pack o.opcode o.fields values % 64 = o.opcode := by
  have hword : pack o.opcode o.fields values &&& Field.op.mask =
      Field.op.place o.opcode &&& Field.op.mask := by
    rw [pack_eq_join]
    apply join_and_of_disjoint
    intro f hf
    rw [Nat.and_comm]
    exact o.layout.op_and_mask f hf
  have hread : Field.op.read (pack o.opcode o.fields values) = o.opcode := by
    rw [Field.read_eq_of_and_mask hword, Field.read_place_iff (by decide)]
    exact .inl ⟨Int.natCast_nonneg _, Int.ofNat_le.mpr (opcode_le ho)⟩
  rw [Field.read_op] at hread
  exact Int.ofNat_inj.mp hread

end Operation
end LuaBytecode
