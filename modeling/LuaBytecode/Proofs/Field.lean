import LuaBytecode.Field
import LuaBytecode.Proofs.Bits

/-! Fields of a word: what is read from a field and stored again is the same bits, and a value that
is stored is read back exactly if the field can represent it. -/
namespace LuaBytecode.Field

/-- The values that a field is meant for. -/
def InRange (f : Field) (value : Int) : Prop := f.range.1 ≤ value ∧ value ≤ f.range.2

instance (f : Field) (value : Int) : Decidable (f.InRange value) :=
  inferInstanceAs (Decidable (_ ∧ _))

/-- The values that a field keeps: those of its range and, in a biased field, also the one just
below it, which has all bits set. -/
def Represents (f : Field) (value : Int) : Prop :=
  f.InRange value ∨ (f.coding = .biased ∧ value = -(2 ^ (f.bits - 1) : Int))

instance (f : Field) (value : Int) : Decidable (f.Represents value) :=
  inferInstanceAs (Decidable (_ ∨ _))

theorem place_and_mask (f : Field) (value : Int) : f.place value &&& f.mask = f.place value :=
  Bits.pack_and_mask (f.stored value) f.low f.bits

theorem extract_eq_of_and_mask {f : Field} {word word' : Nat}
    (h : word &&& f.mask = word' &&& f.mask) :
    Bits.extract word f.low f.bits = Bits.extract word' f.low f.bits := by
  rw [mask, ← Bits.extract_shiftLeft, ← Bits.extract_shiftLeft] at h
  exact Bits.shiftLeft_inj.mp h

/-- Only the bits of the field decide what is read from it. -/
theorem read_congr {f : Field} {word word' : Int}
    (h : Bits.extract word f.low f.bits = Bits.extract word' f.low f.bits) :
    f.read word = f.read word' := by
  rw [read, read, h]

theorem read_eq_of_and_mask {f : Field} {word word' : Nat}
    (h : word &&& f.mask = word' &&& f.mask) : f.read word = f.read word' :=
  read_congr (extract_eq_of_and_mask h)

/-- What is read from a field stands for the very bits that it was read from. -/
theorem lowest_stored_read (f : Field) (word : Int) :
    Bits.lowest (f.stored (f.read word)) f.bits = Bits.extract word f.low f.bits := by
  have hlt := Bits.extract_lt word f.low f.bits
  have hcut : Bits.lowest (Bits.extract word f.low f.bits) f.bits =
      Bits.extract word f.low f.bits := by
    rw [Bits.lowest_natCast, Nat.mod_eq_of_lt hlt]
  rw [stored, read]
  cases f.coding with
  | plain => exact hcut
  | biased => exact Bits.lowest_bias_unbias hlt
  | index =>
    have hback : (-1 - (-1 - (Bits.extract word f.low f.bits : Int))) =
        Bits.extract word f.low f.bits := by omega
    simp only [Bits.toIndex, Bits.fromIndex, hback, hcut]

/-- Reading a field and storing the value clears every other bit of the word. -/
theorem place_read_eq_land (f : Field) (word : Int) :
    (f.place (f.read word) : Int) = Int.land word f.mask := by
  rw [place, Bits.pack, lowest_stored_read]
  exact Bits.int_extract_shiftLeft word f.low f.bits

theorem place_read (f : Field) (word : Nat) : f.place (f.read word) = word &&& f.mask :=
  Int.ofNat_inj.mp (f.place_read_eq_land word)

private theorem plain_iff {value : Int} {width : Nat} :
    (Bits.lowest value width : Int) = value ↔ 0 ≤ value ∧ value ≤ Bits.mask width := by
  rw [Bits.mask_natCast]
  constructor
  · intro h
    have hlt : (Bits.lowest value width : Int) < 2 ^ width := by
      exact_mod_cast Bits.lowest_lt value width
    omega
  · rintro ⟨hlo, hhi⟩
    exact Bits.lowest_of_lt hlo (by omega)

private theorem index_iff {value : Int} {width : Nat} :
    Bits.fromIndex (Bits.lowest (Bits.toIndex value width) width) = value ↔
      -(Bits.bit width : Int) ≤ value ∧ value ≤ -1 := by
  have hplain : (Bits.lowest (-1 - value) width : Int) = -1 - value ↔
      0 ≤ -1 - value ∧ -1 - value ≤ Bits.mask width := plain_iff
  rw [Bits.mask_natCast] at hplain
  simp only [Bits.fromIndex, Bits.toIndex, Bits.lowest_lowest, Bits.bit_eq]
  push_cast
  omega

/-- A value survives being stored in a field exactly if the field represents it. -/
theorem read_place_iff {f : Field} (hf : 0 < f.bits) {value : Int} :
    f.read (f.place value) = value ↔ f.Represents value := by
  rw [read, place, Bits.extract_pack, Represents, InRange, range, stored]
  cases f.coding with
  | plain => simpa using plain_iff
  | biased =>
    have hk := Bits.biasLimit_eq f.bits
    simp only [true_and]
    rw [Bits.unbias_lowest_bias_iff hf]
    omega
  | index => simpa using index_iff

/-- The operand that a field gives back of a value of any size. -/
def Keeps (f : Field) (value operand : Int) : Prop :=
  match f.coding with
  | .plain => operand = value % 2 ^ f.bits
  | .biased =>
    operand = Bits.unbias
      ((if 0 ≤ value then value else 2 ^ (f.bits - 1) - 1 - value) % 2 ^ f.bits) f.bits
  | .index =>
    (-(2 ^ f.bits : Int) ≤ operand ∧ operand ≤ -1) ∧ operand ≡ value [ZMOD 2 ^ f.bits]

/-- A field gives back of a value what stands alone in the field. -/
theorem keeps_iff {f : Field} {value operand : Int} :
    f.Keeps value operand ↔ operand = f.read (f.place value) := by
  rw [read, place, Bits.extract_pack, Keeps, stored]
  cases f.coding with
  | plain => simp only [Bits.lowest_eq]
  | biased =>
    have hbias : Bits.bias value f.bits =
        if 0 ≤ value then value else 2 ^ (f.bits - 1) - 1 - value := by
      rw [Bits.bias, Bits.biasLimit_eq]
      split_ifs <;> omega
    simp only [Bits.lowest_eq, hbias]
  | index =>
    have hcut : Bits.lowest (Bits.toIndex value f.bits) f.bits = Bits.toIndex value f.bits :=
      Bits.lowest_lowest _ _
    simp only [hcut, Bits.fromIndex_toIndex_iff]

instance (f : Field) (value operand : Int) : Decidable (f.Keeps value operand) :=
  decidable_of_iff _ keeps_iff.symm

theorem existsUnique_keeps (f : Field) (value : Int) : ∃! operand, f.Keeps value operand :=
  ⟨f.read (f.place value), keeps_iff.mpr rfl, fun _ h => keeps_iff.mp h⟩

/-- What is read from a field survives being stored in it. -/
theorem read_place_read (f : Field) (word : Int) : f.read (f.place (f.read word)) = f.read word := by
  apply read_congr
  rw [place, Bits.extract_pack, lowest_stored_read]

theorem represents_read {f : Field} (hf : 0 < f.bits) (word : Int) : f.Represents (f.read word) :=
  (read_place_iff hf).mp (read_place_read f word)

/-- Of what can be read from a field, only the value of a biased field with all bits set is out of
range. -/
theorem inRange_read_iff {f : Field} (hf : 0 < f.bits) (word : Nat) :
    f.InRange (f.read word) ↔ ¬ (f.coding = .biased ∧ word &&& f.mask = f.mask) := by
  have hall : word &&& f.mask = f.mask ↔ Bits.extract word f.low f.bits = Bits.mask f.bits := by
    rw [mask, ← Bits.extract_shiftLeft]
    exact Bits.shiftLeft_inj
  have hread := represents_read hf word
  rw [hall, ← Bits.unbias_eq_least_iff hf]
  rw [Represents] at hread
  cases hcoding : f.coding with
  | plain => simpa [hcoding] using hread
  | index => simpa [hcoding] using hread
  | biased =>
    have hvalue : f.read word = Bits.unbias (Bits.extract word f.low f.bits) f.bits := by
      rw [read, hcoding]
    have hk := Bits.biasLimit_eq f.bits
    simp only [hcoding, InRange, range, true_and] at hread ⊢
    rw [← hvalue]
    omega

theorem natAbs_read_le {f : Field} (hf : 0 < f.bits) (word : Nat) :
    (f.read word).natAbs ≤ 2 ^ f.bits := by
  have hhalf : (2 : Int) ^ (f.bits - 1) ≤ 2 ^ f.bits :=
    pow_le_pow_right₀ (by decide) (Nat.sub_le f.bits 1)
  have hread := represents_read hf word
  have hk := Bits.biasLimit_eq f.bits
  have hmask := Bits.mask_natCast f.bits
  have hcast : ((2 ^ f.bits : Nat) : Int) = 2 ^ f.bits := by push_cast; rfl
  simp only [Represents, InRange, range, Bits.bit_eq] at hread
  cases hcoding : f.coding <;> simp only [hcoding] at hread <;> omega

theorem extract_op (word : Nat) : Bits.extract word op.low op.bits = word % 64 := by
  rw [Bits.extract_natCast]
  rfl

theorem read_op (word : Nat) : op.read word = (word % 64 : Nat) :=
  congrArg Nat.cast (extract_op word)

end LuaBytecode.Field
