import LuaBytecode.Proofs.Bits.Counts
import Mathlib

/-! Runs of bits side by side. Neighbouring runs join to one, both when they are cut out of an integer
and when they are placed in a word, and runs that lie apart do not disturb each other. -/
namespace LuaBytecode.Bits

/-- Cutting an integer to its lowest bits is masking it in two's complement. -/
theorem lowest_eq_land (value : Int) (width : Nat) :
    (lowest value width : Int) = Int.land value (mask width) := by
  apply natCast_eq_land
  intro i
  rw [testBit_lowest, mask_eq, Nat.testBit_two_pow_sub_one, Bool.and_comm]

theorem testBit_pack (value : Int) (offset width i : Nat) :
    (pack value offset width).testBit i =
      (decide (offset ≤ i ∧ i < offset + width) && value.testBit (i - offset)) := by
  rw [pack, Nat.testBit_shiftLeft, testBit_lowest]
  by_cases hi : offset ≤ i
  · have hsub : i - offset < width ↔ i < offset + width := by omega
    simp [hi, hsub]
  · simp [hi]

/-- A run of bits is the run of its lowest bits and, above it, the run of the others. -/
theorem extract_add (word : Int) (offset low high : Nat) :
    extract word offset (low + high) =
      extract word offset low + 2 ^ low * extract word (offset + low) high := by
  rw [Nat.add_comm (extract word offset low),
    Nat.two_pow_add_eq_or_of_lt (extract_lt word offset low)]
  apply Nat.eq_of_testBit_eq
  intro i
  rw [Nat.testBit_or, Nat.testBit_two_pow_mul]
  simp only [int_testBit_extract]
  by_cases hi : i < low
  · have hsum : i < low + high := by omega
    simp [hi, hsum]
  · have hsub : i - low < high ↔ i < low + high := by omega
    have hplace : offset + low + (i - low) = offset + i := by omega
    simp [hi, hsub, hplace, Nat.not_lt.mp hi]

private theorem pack_add (value : Int) (offset low high : Nat) :
    pack value offset (low + high) =
      pack value offset low ||| pack (value >>> low) (offset + low) high := by
  apply Nat.eq_of_testBit_eq
  intro i
  rw [Nat.testBit_or]
  simp only [testBit_pack, testBit_shiftRight]
  by_cases hi : i < offset + low
  · have hhigh : ¬ offset + low ≤ i := by omega
    have hsum : i < offset + (low + high) := by omega
    simp [hi, hhigh, hsum]
  · have hlow : offset ≤ i := by omega
    have hplace : low + (i - (offset + low)) = i - offset := by omega
    simp [hi, hlow, hplace, Nat.not_lt.mp hi, Nat.add_assoc]

/-- A value is read back from its run, whatever stands in a run apart from it. -/
theorem extract_pack_or (value value' : Int) {offset width offset' width' : Nat}
    (h : Disjoint (Set.Ico offset (offset + width)) (Set.Ico offset' (offset' + width'))) :
    extract (pack value offset width ||| pack value' offset' width' : Nat) offset width =
      lowest value width := by
  rw [Set.disjoint_left] at h
  apply Nat.eq_of_testBit_eq
  intro i
  rw [testBit_extract, Nat.testBit_or, testBit_pack, testBit_pack, testBit_lowest]
  by_cases hi : i < width
  · have hin : offset ≤ offset + i ∧ offset + i < offset + width := by omega
    have hout : ¬ (offset' ≤ offset + i ∧ offset + i < offset' + width') := h hin
    rw [decide_eq_true hin, decide_eq_false hout, Nat.add_sub_cancel_left]
    simp
  · simp [hi]

/-- The bits of the field `Bx` are those of `B` above those of `C`. -/
theorem extract_bx (word : Int) :
    extract word Field.bx.low Field.bx.bits =
      extract word Field.c.low Field.c.bits +
        2 ^ Field.c.bits * extract word Field.b.low Field.b.bits :=
  extract_add word 14 9 9

/-- The bits of the field `Ax` are those of `Bx` above those of `A`. -/
theorem extract_ax (word : Int) :
    extract word Field.ax.low Field.ax.bits =
      extract word Field.a.low Field.a.bits +
        2 ^ Field.a.bits * extract word Field.bx.low Field.bx.bits :=
  extract_add word 6 8 18

/-- Runs are cut out of integers, and placed, by masking in two's complement. Neighbouring runs join to
one, when they are cut out and when they are placed, and a value is read back from its run beside any
other that lies apart from it. So `Bx` is `B` followed by `C`, and `Ax` is `B`, `C` and `A` in a row. With
counts of bits from outside the same numbers come out, as long as none is too long to be built. -/
theorem adjacent_runs :
    (∀ (word : Int) (offset width : Nat),
      (extract word offset width : Int) = Int.land (word >>> offset) (mask width) ∧
      (pack word offset width : Int) = Int.land word (mask width) * 2 ^ offset) ∧
    (∀ (word : Int) (offset low high : Nat),
      extract word offset (low + high) =
        extract word offset low + 2 ^ low * extract word (offset + low) high) ∧
    (∀ (value : Int) (offset low high : Nat),
      pack value offset (low + high) =
        pack value offset low ||| pack (value >>> low) (offset + low) high) ∧
    (∀ (value value' : Int) (offset width offset' width' : Nat),
      Disjoint (Set.Ico offset (offset + width)) (Set.Ico offset' (offset' + width')) →
      (extract (pack value offset width ||| pack value' offset' width' : Nat) offset width : Int) =
        value % 2 ^ width) ∧
    (∀ word : Int,
      extract word Field.bx.low Field.bx.bits =
        extract word Field.c.low Field.c.bits + 2 ^ 9 * extract word Field.b.low Field.b.bits ∧
      extract word Field.ax.low Field.ax.bits =
        extract word Field.a.low Field.a.bits + 2 ^ 8 * extract word Field.c.low Field.c.bits +
          2 ^ 17 * extract word Field.b.low Field.b.bits) ∧
    (∀ (word : Int) (offset width : Nat),
      Checked.Yields width (Checked.extract word offset width) (extract word offset width)) ∧
    ∀ (value : Int) (offset width : Nat),
      Checked.Yields (max offset width) (Checked.pack value offset width)
        (pack value offset width) := by
  refine ⟨?_, extract_add, pack_add, ?_, ?_, Checked.yields_extract, Checked.yields_pack⟩
  · intro word offset width
    refine ⟨lowest_eq_land (word >>> offset) width, ?_⟩
    rw [pack, ← lowest_eq_land, Nat.shiftLeft_eq]
    push_cast
    rfl
  · intro value value' offset width offset' width' hdisjoint
    rw [extract_pack_or value value' hdisjoint, lowest_eq]
  · intro word
    have hbx : extract word Field.bx.low Field.bx.bits =
        extract word Field.c.low Field.c.bits + 2 ^ 9 * extract word Field.b.low Field.b.bits :=
      extract_bx word
    have hax : extract word Field.ax.low Field.ax.bits =
        extract word Field.a.low Field.a.bits + 2 ^ 8 * extract word Field.bx.low Field.bx.bits :=
      extract_ax word
    refine ⟨hbx, ?_⟩
    omega

/-- Of a negative value its lowest bits are read back, beside a run that touches its own and whose bits
are all set. -/
theorem adjacent_runs_touching :
    Disjoint (Set.Ico 3 (3 + 4)) (Set.Ico 7 (7 + 50)) ∧
      (extract (pack (-2) 3 4 ||| pack (-1) 7 50 : Nat) 3 4 : Int) = 14 := by
  have hdisjoint : Disjoint (Set.Ico 3 (3 + 4)) (Set.Ico 7 (7 + 50)) := by
    rw [Set.disjoint_left]
    rintro i ⟨_, hbelow⟩ ⟨habove, _⟩
    omega
  obtain ⟨_, _, _, hread, _⟩ := adjacent_runs
  exact ⟨hdisjoint, hread (-2) (-1) 3 4 7 50 hdisjoint⟩

end LuaBytecode.Bits
